import Kmorph.Apply
import Kmorph.RtnlCore

/-!
A netlink request as bytes holds the attributes that were added, one behind the other
at multiples of four, and the reader finds the first of a type. The bytes refine the
requests `netsnap_apply` is modelled with.
-/

namespace Kmorph

open Extents Records

namespace Rtnl

section Bytes

variable {buf data : List UInt8} {off start len width n : ℕ}

theorem field_eq : field buf off width = decodeField (cells buf off width) := rfl

theorem field_writeAt (fits : n < 256 ^ width) :
    field (writeAt 0 buf off (encodeField (width, n))) off width = n := by
  have written := @cells_writeAt _ 0 buf (encodeField (width, n)) off
  rw [length_encodeField] at written
  rw [field_eq, written, decodeField_encodeField fits]

theorem field_writeAt_apart (fits : off + data.length ≤ buf.length) (inside : start + width ≤ buf.length)
    (apart : start + width ≤ off ∨ off + data.length ≤ start) :
    field (writeAt 0 buf off data) start width = field buf start width := by
  rw [field_eq, cells_writeAt_apart fits inside apart, field_eq]

theorem align4_bounds (n : ℕ) : n ≤ align4 n ∧ align4 n < n + 4 ∧ align4 n % 4 = 0 := by
  simp only [align4]
  omega

end Bytes

def AttrsAt (buf : List UInt8) : ℕ → Attrs → Prop
  | _, [] => True
  | p, (type, data) :: rest =>
      field buf p 2 = 4 + data.length ∧ field buf (p + 2) 2 = type ∧ cells buf (p + 4) data.length = data ∧
        AttrsAt buf (p + align4 (4 + data.length)) rest

/-- A request whose attributes start at an offset. -/
structure Holds (buf : List UInt8) (start : ℕ) (attrs : Attrs) : Prop where
  length : buf.length = RTNL_REQ_MAX
  len : nlmsgLen buf = start + attrsLen attrs
  fits : start + attrsLen attrs ≤ RTNL_REQ_MAX
  header : HDRLEN ≤ start
  aligned : start % 4 = 0
  attrs : AttrsAt buf start attrs

section Building

variable {buf other : List UInt8} {start p type : ℕ} {attrs : Attrs} {data : List UInt8}

theorem attrsLen_cons (type : ℕ) (data : List UInt8) (rest : Attrs) :
    attrsLen ((type, data) :: rest) = align4 (4 + data.length) + attrsLen rest := rfl

theorem attrsLen_aligned (attrs : Attrs) : attrsLen attrs % 4 = 0 := by
  induction attrs with
  | nil => rfl
  | cons attr rest ih =>
      obtain ⟨type, data⟩ := attr
      have := (align4_bounds (4 + data.length)).2.2
      rw [attrsLen_cons]
      omega

/-- Attributes stay where the bytes they are made of do. -/
theorem AttrsAt.congr (held : AttrsAt buf p attrs)
    (same : ∀ off len, p ≤ off → off + len ≤ p + attrsLen attrs → cells other off len = cells buf off len) :
    AttrsAt other p attrs := by
  induction attrs generalizing p with
  | nil => trivial
  | cons attr rest ih =>
      obtain ⟨type, data⟩ := attr
      obtain ⟨len, kind, bytes, others⟩ := held
      have bound := (align4_bounds (4 + data.length)).1
      rw [attrsLen_cons] at same
      refine ⟨?_, ?_, ?_, ?_⟩
      · rwa [field_eq, same p 2 le_rfl (by omega)]
      · rwa [field_eq, same (p + 2) 2 (by omega) (by omega)]
      · rwa [same (p + 4) data.length (by omega) (by omega)]
      · exact ih others fun off len above below => same off len (by omega) (by omega)

theorem attrsAt_append {attr : ℕ × List UInt8} (held : AttrsAt buf p attrs)
    (last : AttrsAt buf (p + attrsLen attrs) [attr]) : AttrsAt buf p (attrs ++ [attr]) := by
  induction attrs generalizing p with
  | nil => exact last
  | cons first rest ih =>
      obtain ⟨type, data⟩ := first
      obtain ⟨len, kind, bytes, others⟩ := held
      rw [attrsLen_cons, ← Nat.add_assoc] at last
      exact ⟨len, kind, bytes, ih others last⟩

/-- The bytes of a request once an attribute that fits is written. -/
structure Written (buf after : List UInt8) (type : ℕ) (data : List UInt8) : Prop where
  length : after.length = buf.length
  len : nlmsgLen after = nlmsgLen buf + align4 (4 + data.length)
  attr : AttrsAt after (nlmsgLen buf) [(type, data)]
  kept : ∀ off len, HDRLEN ≤ off → off + len ≤ nlmsgLen buf → cells after off len = cells buf off len

def writeRtattr (buf : List UInt8) (a type alen : ℕ) : List UInt8 :=
  writeAt 0 (writeAt 0 buf (a + 2) (encodeField (2, type))) a (encodeField (2, alen))

section Writes

variable {a alen off len : ℕ}

theorem length_writeField {width n : ℕ} (fits : off + width ≤ buf.length) :
    (writeAt 0 buf off (encodeField (width, n))).length = buf.length :=
  length_writeAt (by rwa [length_encodeField])

theorem cells_writeField {width n : ℕ} (fits : off + width ≤ buf.length) (inside : start + len ≤ buf.length)
    (apart : start + len ≤ off ∨ off + width ≤ start) :
    cells (writeAt 0 buf off (encodeField (width, n))) start len = cells buf start len :=
  cells_writeAt_apart (by rwa [length_encodeField]) inside (by rwa [length_encodeField])

theorem length_writeRtattr (fits : a + 4 ≤ buf.length) : (writeRtattr buf a type alen).length = buf.length := by
  have kind := @length_writeField buf (a + 2) 2 type (by omega)
  rw [writeRtattr, length_writeField (by omega), kind]

theorem cells_writeRtattr (fits : a + 4 ≤ buf.length) (inside : off + len ≤ buf.length)
    (apart : off + len ≤ a ∨ a + 4 ≤ off) :
    cells (writeRtattr buf a type alen) off len = cells buf off len := by
  have kind := @length_writeField buf (a + 2) 2 type (by omega)
  rw [writeRtattr, cells_writeField (by omega) (by omega) (by omega),
    cells_writeField (by omega) inside (by omega)]

theorem field_writeRtattr (fits : a + 4 ≤ buf.length) (narrow : type < 2 ^ 16) (short : alen < 2 ^ 16) :
    field (writeRtattr buf a type alen) a 2 = alen ∧ field (writeRtattr buf a type alen) (a + 2) 2 = type := by
  have kind := @length_writeField buf (a + 2) 2 type (by omega)
  constructor
  · exact field_writeAt short
  · rw [writeRtattr, field_eq, cells_writeField (by omega) (by omega) (by omega), ← field_eq,
      field_writeAt narrow]

def writeAttr (buf : List UInt8) (a type : ℕ) (data : List UInt8) : List UInt8 :=
  writeAt 0 (writeRtattr buf a type (4 + data.length)) (a + 4) data

theorem length_writeAttr (fits : a + 4 + data.length ≤ buf.length) :
    (writeAttr buf a type data).length = buf.length := by
  have head := @length_writeRtattr buf type a (4 + data.length) (by omega)
  rw [writeAttr, length_writeAt (by omega), head]

theorem cells_writeAttr (fits : a + 4 + data.length ≤ buf.length) (inside : off + len ≤ buf.length)
    (apart : off + len ≤ a ∨ a + 4 + data.length ≤ off) :
    cells (writeAttr buf a type data) off len = cells buf off len := by
  have head := @length_writeRtattr buf type a (4 + data.length) (by omega)
  rw [writeAttr, cells_writeAt_apart (by omega) (by omega) (by omega),
    cells_writeRtattr (by omega) inside (by omega)]

theorem attrsAt_writeAttr (fits : a + 4 + data.length ≤ buf.length) (narrow : type < 2 ^ 16)
    (short : 4 + data.length < 2 ^ 16) : AttrsAt (writeAttr buf a type data) a [(type, data)] := by
  have head := @length_writeRtattr buf type a (4 + data.length) (by omega)
  obtain ⟨size, kind⟩ := @field_writeRtattr buf type a (4 + data.length) (by omega) narrow short
  refine ⟨?_, ?_, cells_writeAt, trivial⟩
  · rw [writeAttr, field_writeAt_apart (by omega) (by omega) (by omega), size]
  · rw [writeAttr, field_writeAt_apart (by omega) (by omega) (by omega), kind]

end Writes

theorem rtnlReqAttr_fits (length : buf.length = RTNL_REQ_MAX) (header : HDRLEN ≤ nlmsgLen buf)
    (fits : nlmsgLen buf + align4 (4 + data.length) ≤ RTNL_REQ_MAX) :
    rtnlReqAttr buf type data = (0, writeAt 0 (writeAttr buf (nlmsgLen buf) type data) 0
      (encodeField (4, nlmsgLen buf + align4 (4 + data.length)))) := by
  have room := (align4_bounds (4 + data.length)).1
  have header : 16 ≤ nlmsgLen buf := header
  have small : ¬ nlmsgLen buf + align4 (align4 RTATTR_SIZE + data.length) > RTNL_REQ_MAX := Nat.not_lt.mpr fits
  have same : nlmsgLen (writeAttr buf (nlmsgLen buf) type data) = nlmsgLen buf := by
    rw [nlmsgLen, field_eq, cells_writeAttr (by omega) (by omega) (by omega), ← field_eq, nlmsgLen]
  simp only [rtnlReqAttr]
  rw [if_neg small]
  show (0, writeAt 0 (writeAttr buf (nlmsgLen buf) type data) 0 (encodeField (4,
    nlmsgLen (writeAttr buf (nlmsgLen buf) type data) + align4 (4 + data.length)))) = _
  rw [same]

theorem rtnlReqAttr_written (length : buf.length = RTNL_REQ_MAX) (header : HDRLEN ≤ nlmsgLen buf)
    (fits : nlmsgLen buf + align4 (4 + data.length) ≤ RTNL_REQ_MAX) (narrow : type < 2 ^ 16) :
    (rtnlReqAttr buf type data).1 = 0 ∧ Written buf (rtnlReqAttr buf type data).2 type data := by
  have room := (align4_bounds (4 + data.length)).1
  have large : RTNL_REQ_MAX = 512 := rfl
  have lengthAttr := @length_writeAttr buf type data (nlmsgLen buf) (by omega)
  have attr := @attrsAt_writeAttr buf type data (nlmsgLen buf) (by omega) narrow (by omega)
  have kept {off len : ℕ} (behind : 16 ≤ off) (inside : off + len ≤ buf.length) :
      cells (writeAt 0 (writeAttr buf (nlmsgLen buf) type data) 0
        (encodeField (4, nlmsgLen buf + align4 (4 + data.length)))) off len =
      cells (writeAttr buf (nlmsgLen buf) type data) off len :=
    cells_writeField (by omega) (by omega) (by omega)
  rw [rtnlReqAttr_fits length header fits]
  have header : 16 ≤ nlmsgLen buf := header
  refine ⟨rfl, ?_, field_writeAt (Nat.lt_of_le_of_lt fits (by decide)), ?_, ?_⟩
  · rw [length_writeField (by omega), lengthAttr]
  · refine attr.congr fun off len above below => kept (by omega) ?_
    rw [attrsLen_singleton] at below
    omega
  · intro off len above below
    have above : 16 ≤ off := above
    rw [kept above (by omega), cells_writeAttr (by omega) (by omega) (by omega)]

theorem rtnlReqAttr_holds (holds : Holds buf start attrs) (narrow : type < 2 ^ 16) :
    rtnlReqAttr buf type data = (-E2BIG, buf) ∧
        nlmsgLen buf + align4 (4 + data.length) > RTNL_REQ_MAX ∨
      (rtnlReqAttr buf type data).1 = 0 ∧ nlmsgLen buf + align4 (4 + data.length) ≤ RTNL_REQ_MAX ∧
        Holds (rtnlReqAttr buf type data).2 start (attrs ++ [(type, data)]) := by
  obtain ⟨length, len, bounded, header, aligned, held⟩ := holds
  by_cases fits : nlmsgLen buf + align4 (4 + data.length) ≤ RTNL_REQ_MAX
  · right
    obtain ⟨added, written⟩ := rtnlReqAttr_written length (by omega) fits narrow
    refine ⟨added, fits, ?_⟩
    have sum : attrsLen (attrs ++ [(type, data)]) = attrsLen attrs + align4 (4 + data.length) := by
      rw [attrsLen_append, attrsLen_singleton]
    refine ⟨written.length.trans length, ?_, ?_, header, aligned, ?_⟩
    · rw [written.len, sum]
      omega
    · omega
    · apply attrsAt_append
      · exact held.congr fun off len above below => written.kept off len (by omega) (by omega)
      · rw [← len]
        exact written.attr
  · left
    have large : nlmsgLen buf + align4 (align4 RTATTR_SIZE + data.length) > RTNL_REQ_MAX := Nat.lt_of_not_le fits
    simp only [rtnlReqAttr]
    rw [if_pos large]
    exact ⟨rfl, Nat.lt_of_not_le fits⟩

theorem rtnlReqInit_holds (type flags : ℕ) {body : List UInt8} (short : body.length ≤ 496) :
    Holds (rtnlReqInit type flags body) (HDRLEN + align4 body.length) [] := by
  have bounds := align4_bounds body.length
  have large : RTNL_REQ_MAX = 512 := rfl
  have header : HDRLEN = 16 := rfl
  have zeroed : (List.replicate RTNL_REQ_MAX (0 : UInt8)).length = 512 := List.length_replicate
  have kind := (@length_writeField (List.replicate RTNL_REQ_MAX 0) 4 2 type (by omega)).trans zeroed
  have flagged := (@length_writeField _ 6 2 (NLM_F_REQUEST ||| flags) (by rw [kind]; omega)).trans kind
  have filled := (@length_writeAt _ 0 _ body HDRLEN (by rw [flagged]; omega)).trans flagged
  refine ⟨?_, ?_, ?_, Nat.le_add_right _ _, by omega, trivial⟩
  · rw [rtnlReqInit, length_writeField (by rw [filled]; omega), filled, large]
  · exact field_writeAt (by omega)
  · rw [attrsLen_nil]
    omega

end Building

section Reading

variable {h : List UInt8} {type stop p : ℕ} {attrs : Attrs}

/-- What is found lies in the message. -/
theorem attrLoop_inside {a : ℕ} (found : attrLoop h type stop p = some a) :
    p ≤ a ∧ RTATTR_SIZE ≤ field h a 2 ∧ a + field h a 2 ≤ stop ∧ field h (a + 2) 2 = type := by
  fun_induction attrLoop h type stop p with
  | case1 => cases found
  | case2 p inside len large =>
      cases found
      exact ⟨le_rfl, by omega, by omega, ‹_›⟩
  | case3 p inside len large other ih =>
      obtain ⟨after, size, bound, kind⟩ := ih found
      exact ⟨by omega, size, bound, kind⟩
  | case4 => cases found

/-- The reader finds the first attribute of a type. -/
theorem attrLoop_attrs (held : AttrsAt h p attrs) (ends : stop = p + attrsLen attrs) :
    (attrLoop h type stop p).map (rtnlAttrData h) = Kmorph.rtnlAttr attrs type := by
  induction attrs generalizing p with
  | nil =>
      rw [attrLoop, if_neg (by rw [ends, attrsLen_nil]; simp [RTATTR_SIZE])]
      rfl
  | cons attr rest ih =>
      obtain ⟨kind, data⟩ := attr
      obtain ⟨len, found, bytes, others⟩ := held
      have room := (align4_bounds (4 + data.length)).1
      rw [attrsLen_cons] at ends
      rw [attrLoop, if_pos (by simp only [RTATTR_SIZE]; omega)]
      simp only [len, found]
      rw [if_neg (by simp only [RTATTR_SIZE]; omega)]
      by_cases same : kind = type
      · have data : rtnlAttrData h p = data := by
          rw [rtnlAttrData, rtnlAttrLen, len]
          show cells h (p + 4) (4 + data.length - 4) = data
          rw [Nat.add_sub_cancel_left, bytes]
        rw [if_pos same, Option.map_some, data, Kmorph.rtnlAttr, List.find?_cons_of_pos (by simpa using same)]
        rfl
      · rw [if_neg same, ih others (by omega), Kmorph.rtnlAttr, Kmorph.rtnlAttr,
          List.find?_cons_of_neg (by simpa using same)]

end Reading

def addAttr (s : List UInt8 × Attrs) (call : ℕ × List UInt8) : List UInt8 × Attrs :=
  let added := rtnlReqAttr s.1 call.1 call.2
  (added.2, if added.1 = 0 then s.2 ++ [call] else s.2)

/-- A request after a sequence of calls, and the attributes they added. -/
def built (type flags : ℕ) (body : List UInt8) (calls : Attrs) : List UInt8 × Attrs :=
  calls.foldl addAttr (rtnlReqInit type flags body, [])

theorem addAttr_holds {s : List UInt8 × Attrs} {start : ℕ} {call : ℕ × List UInt8}
    (holds : Holds s.1 start s.2) (narrow : call.1 < 2 ^ 16) :
    Holds (addAttr s call).1 start (addAttr s call).2 := by
  rw [addAttr]
  rcases @rtnlReqAttr_holds s.1 start call.1 s.2 call.2 holds narrow with ⟨refused, -⟩ | ⟨added, -, after⟩
  · rw [refused]
    exact holds
  · rw [added]
    exact after

theorem calls_hold {s : List UInt8 × Attrs} {start : ℕ} {calls : Attrs} (holds : Holds s.1 start s.2)
    (narrow : ∀ call ∈ calls, call.1 < 2 ^ 16) :
    Holds (calls.foldl addAttr s).1 start (calls.foldl addAttr s).2 := by
  induction calls generalizing s with
  | nil => exact holds
  | cons call rest ih =>
      obtain ⟨first, others⟩ := List.forall_mem_cons.mp narrow
      exact ih (addAttr_holds holds first) others

theorem Holds.read {buf : List UInt8} {attrs : Attrs} {hdrlen : ℕ}
    (holds : Holds buf (HDRLEN + align4 hdrlen) attrs) (type : ℕ) :
    (rtnlAttr buf hdrlen type).map (fun a => (rtnlAttrLen buf a, rtnlAttrData buf a)) =
      (Kmorph.rtnlAttr attrs type).map fun data => (data.length, data) := by
  have data := @attrLoop_attrs buf type (nlmsgLen buf) _ attrs holds.attrs holds.len
  rw [← data, ← rtnlAttr]
  cases found : rtnlAttr buf hdrlen type with
  | none => rfl
  | some a =>
      obtain ⟨-, size, inside, -⟩ := attrLoop_inside found
      have length : (rtnlAttrData buf a).length = rtnlAttrLen buf a := by
        have := holds.len
        have := holds.fits
        have := holds.length
        have four : align4 RTATTR_SIZE = 4 := rfl
        have : 4 ≤ field buf a 2 := size
        apply length_cells
        rw [rtnlAttrLen, four]
        omega
      rw [Option.map_some, Option.map_some, Option.map_some, length]

/-- The bytes of a request of `netsnap_apply`. -/
structure Represents (buf : List UInt8) (r : RtnlReq) : Prop where
  holds : Holds buf (HDRLEN + align4 (encodeFields r.body).length) r.attrs
  len : r.len = nlmsgLen buf

theorem rtnlReqInit_represents (type flags : ℕ) {body : List (ℕ × ℕ)}
    (short : (encodeFields body).length ≤ 496) :
    Represents (rtnlReqInit type flags (encodeFields body)) (Kmorph.rtnlReqInit type flags body) := by
  have holds := rtnlReqInit_holds type flags short
  exact ⟨holds, holds.len.symm⟩

theorem rtnlReqAttr_represents {buf data : List UInt8} {r : RtnlReq} {type : ℕ}
    (represents : Represents buf r) (narrow : type < 2 ^ 16) :
    Represents (rtnlReqAttr buf type data).2 (Kmorph.rtnlReqAttr r type data) := by
  obtain ⟨holds, len⟩ := represents
  rw [Kmorph.rtnlReqAttr, len]
  rcases @rtnlReqAttr_holds buf _ type r.attrs data holds narrow with ⟨refused, large⟩ | ⟨-, small, after⟩
  · rw [if_pos large, refused]
    exact ⟨holds, len⟩
  · rw [if_neg (Nat.not_lt.mpr small)]
    refine ⟨after, ?_⟩
    have before := holds.len
    rw [after.len, attrsLen_append, attrsLen_singleton]
    show nlmsgLen buf + align4 (4 + data.length) = _
    omega

end Rtnl

open Rtnl in
/-- A request holds what was added and is read back; no attribute that is found leaves the message. -/
theorem rtnl_exact :
    (∀ (type flags : ℕ) (body : List UInt8) (calls : Attrs), body.length ≤ 496 →
      (∀ call ∈ calls, call.1 < 2 ^ 16 ∧ call.2.length < 2 ^ 32) →
      let r := built type flags body calls
      nlmsgLen r.1 % 4 = 0 ∧ nlmsgLen r.1 ≤ 512 ∧
      (∀ (kind : ℕ) (data : List UInt8), kind < 2 ^ 16 → data.length < 2 ^ 32 →
        (nlmsgLen r.1 + align4 (4 + data.length) > 512 → Rtnl.rtnlReqAttr r.1 kind data = (-E2BIG, r.1)) ∧
        (nlmsgLen r.1 + align4 (4 + data.length) ≤ 512 → (Rtnl.rtnlReqAttr r.1 kind data).1 = 0)) ∧
      ∀ kind, (Rtnl.rtnlAttr r.1 body.length kind).map (fun a => (rtnlAttrLen r.1 a, rtnlAttrData r.1 a)) =
        (Kmorph.rtnlAttr r.2 kind).map fun data => (data.length, data)) ∧
    ∀ (h : List UInt8) (hdrlen kind a : ℕ), Rtnl.rtnlAttr h hdrlen kind = some a →
      a + field h a 2 ≤ nlmsgLen h := by
  constructor
  · intro type flags body calls short narrow r
    have holds : Holds r.1 (HDRLEN + align4 body.length) r.2 :=
      calls_hold (rtnlReqInit_holds type flags short) fun call member => (narrow call member).1
    have aligned := holds.aligned
    have attrsAligned := attrsLen_aligned r.2
    refine ⟨?_, ?_, ?_, holds.read⟩
    · rw [holds.len]
      omega
    · rw [holds.len]
      exact holds.fits
    · intro kind data narrowKind _
      rcases @rtnlReqAttr_holds r.1 _ kind r.2 data holds narrowKind with ⟨refused, large⟩ | ⟨added, small, -⟩
      · exact ⟨fun _ => refused, fun small => absurd large (Nat.not_lt.mpr small)⟩
      · exact ⟨fun large => absurd large (Nat.not_lt.mpr small), fun _ => added⟩
  · intro h hdrlen kind a found
    exact (attrLoop_inside found).2.2.1

open Rtnl in
/-- A request for an address, in which the attribute with the address is found. -/
theorem rtnl_exact_address :
    let r := built 20 5 (List.replicate 8 0) [(2, [10, 0, 0, 1]), (1, [10, 0, 0, 2])]
    (Rtnl.rtnlAttr r.1 8 1).map (fun a => (rtnlAttrLen r.1 a, rtnlAttrData r.1 a)) = some (4, [10, 0, 0, 2]) ∧
      ∃ a, Rtnl.rtnlAttr r.1 8 1 = some a ∧ a + field r.1 a 2 ≤ nlmsgLen r.1 := by
  intro r
  obtain ⟨requests, inside⟩ := rtnl_exact
  have narrow : ∀ call ∈ ([(2, [10, 0, 0, 1]), (1, [10, 0, 0, 2])] : Attrs), call.1 < 2 ^ 16 ∧ call.2.length < 2 ^ 32 := by
    decide
  have read := (requests 20 5 (List.replicate 8 0) _ (by decide) narrow).2.2.2 1
  have found : (Rtnl.rtnlAttr r.1 8 1).isSome = true := by decide +kernel
  obtain ⟨a, found⟩ := Option.isSome_iff_exists.mp found
  exact ⟨read.trans (by decide +kernel), a, found, inside r.1 8 1 a found⟩

end Kmorph
