import Kmorph.IomemCore
import Kmorph.Ranges
import Kmorph.Scanning

/-!
What `iomem_system_ram` makes of the text of `/proc/iomem`: the union of the RAM its
lines name, whatever their order.
-/

namespace Kmorph

def IsHex (digits : List Char) : Prop := digits ≠ [] ∧ ∀ c ∈ digits, isXdigit c = true

/-- A line as `/proc/iomem` prints a resource. -/
structure IsResource (line start stop name : List Char) : Prop where
  startHex : IsHex start
  stopHex : IsHex stop
  printed : ∃ indent, line =
    List.replicate indent ' ' ++ (start ++ '-' :: (stop ++ (" : ".toList ++ name)))

/-- RAM, or RAM of a driver. -/
def IsRamName (name : List Char) : Prop :=
  name = "System RAM".toList ∨ ∃ driver, name = "System RAM (".toList ++ driver ++ [')']

section Lines

variable {line start stop name digits rest : List Char}

theorem strtoullHex_digits (found : digits ≠ []) (all : ∀ c ∈ digits, isXdigit c = true)
    (stops : Stops isXdigit rest) (noPrefix : Stops (fun c => c = 'x' || c = 'X') rest) :
    strtoullHex (digits ++ rest) = (min (hexadecimal digits) (2 ^ 64 - 1), rest) := by
  simp only [strtoullHex]
  rw [scanHex_saturates found all stops noPrefix, Option.getD_some]

theorem iomemParseLine_resource (isResource : IsResource line start stop name) :
    iomemParseLine line = .ok (.ofNat (min (hexadecimal start) (2 ^ 64 - 1)),
      .ofNat (min (hexadecimal stop) (2 ^ 64 - 1)), name) := by
  obtain ⟨⟨startFound, startDigits⟩, ⟨stopFound, stopDigits⟩, indent, rfl⟩ := isResource
  have digit : ∀ c ∈ (start ++ '-' :: (stop ++ (" : ".toList ++ name))).head?, isXdigit c = true := by
    obtain ⟨first, others, rfl⟩ := List.exists_cons_of_ne_nil startFound
    intro c head
    obtain rfl := Option.some.inj head
    exact startDigits first List.mem_cons_self
  have skipped : (List.replicate indent ' ' ++
      (start ++ '-' :: (stop ++ (" : ".toList ++ name)))).dropWhile (· = ' ') =
      start ++ '-' :: (stop ++ (" : ".toList ++ name)) := by
    rw [List.dropWhile_append_of_pos (by simp)]
    apply dropWhile_of_stops
    intro c first
    have := (isXdigit_plain (digit c first)).1
    simp only [decide_eq_false_iff_not]
    rintro rfl
    exact absurd this (by decide)
  have starts : (start ++ '-' :: (stop ++ (" : ".toList ++ name))).head?.any isXdigit = true := by
    obtain ⟨first, others, rfl⟩ := List.exists_cons_of_ne_nil startFound
    exact startDigits first List.mem_cons_self
  have first := @strtoullHex_digits start ('-' :: (stop ++ (" : ".toList ++ name))) startFound startDigits
    (stops_cons (by decide)) (stops_cons (by decide))
  have second := @strtoullHex_digits stop (" : ".toList ++ name) stopFound stopDigits
    (stops_cons (by decide)) (stops_cons (by decide))
  have separator : " : ".toList.isPrefixOf (" : ".toList ++ name) = true :=
    List.isPrefixOf_iff_prefix.mpr (List.prefix_append _ _)
  simp only [iomemParseLine]
  rw [skipped, if_pos starts, first, if_neg (by simp), List.tail_cons, second, if_pos separator]
  rfl

theorem isSystemRam_iff : isSystemRam name = true ↔ IsRamName name := by
  simp only [isSystemRam, Bool.and_eq_true, Bool.or_eq_true, decide_eq_true_eq, List.isPrefixOf_iff_prefix]
  constructor
  · rintro ⟨⟨driver, rfl⟩, named⟩
    rw [List.drop_left] at named
    rcases named with rfl | ⟨⟨text, rfl⟩, last⟩
    · exact .inl (List.append_nil _)
    · right
      rcases List.eq_nil_or_concat text with rfl | ⟨driver, c, rfl⟩
      · exact absurd last (by decide)
      · rw [List.concat_eq_append] at last ⊢
        rw [← List.append_assoc, List.getLast?_concat] at last
        obtain rfl := Option.some.inj last
        exact ⟨driver, rfl⟩
  · rintro (rfl | ⟨driver, rfl⟩)
    · exact ⟨List.prefix_rfl, .inl (by decide)⟩
    · have parts : "System RAM (".toList ++ driver ++ [')'] =
          "System RAM".toList ++ (" (".toList ++ (driver ++ [')'])) := rfl
      rw [parts, List.drop_left]
      refine ⟨List.prefix_append _ _, .inr ⟨List.prefix_append _ _, ?_⟩⟩
      rw [← List.append_assoc, List.getLast?_concat]

end Lines

section Loop

variable {start stop : ℕ}

def ramRange (line : List Char) : Option Range :=
  match iomemParseLine line with
  | .error _ => none
  | .ok (start, stop, name) => if isSystemRam name then some ⟨start, stop - start + 1⟩ else none

theorem iomemLoop_eq (mem : ℕ → Bool) (ram : Rangeset) (lines : List (List Char)) :
    iomemLoop mem ram lines = rangesetEach rangesetAdd mem ram (lines.filterMap ramRange) := by
  induction lines generalizing mem ram with
  | nil => rfl
  | cons line rest ih =>
      rw [iomemLoop, List.filterMap_cons, ramRange]
      cases iomemParseLine line with
      | error ret => exact ih mem ram
      | ok parsed =>
          obtain ⟨start, stop, name⟩ := parsed
          by_cases named : isSystemRam name = true
          · simp only [if_pos named, rangesetEach]
            split
            · rfl
            · exact ih _ _
          · simp only [if_neg named]
            exact ih mem ram

/-- The range of a line as the code computes it, with the numbers saturated and the size wrapped. -/
def ramOf (start stop : ℕ) : Range :=
  ⟨.ofNat (min start (2 ^ 64 - 1)), .ofNat (min stop (2 ^ 64 - 1)) - .ofNat (min start (2 ^ 64 - 1)) + 1⟩

theorem saturated_toNat (n : ℕ) : (UInt64.ofNat (min n (2 ^ 64 - 1))).toNat = min n (2 ^ 64 - 1) := by
  rw [UInt64.toNat_ofNat', Nat.mod_eq_of_lt (by omega)]

theorem ramOf_base : (ramOf start stop).base.toNat = min start (2 ^ 64 - 1) := saturated_toNat start

theorem ramOf_size : (ramOf start stop).size.toNat =
    (2 ^ 64 - min start (2 ^ 64 - 1) + min stop (2 ^ 64 - 1) + 1) % 2 ^ 64 := by
  rw [ramOf, UInt64.toNat_add, UInt64.toNat_sub, saturated_toNat, saturated_toNat, UInt64.toNat_one,
    Nat.mod_add_mod]

theorem ramOf_valid : (ramOf start stop).Valid ↔ start ≤ stop ∧ stop < 2 ^ 64 - 1 := by
  rw [Range.Valid, ramOf_base, ramOf_size]
  omega

theorem ramOf_span (ordered : start ≤ stop) (fits : stop < 2 ^ 64 - 1) :
    (ramOf start stop).span = (start, stop + 1) := by
  simp only [Range.span, ramOf_base, ramOf_size, Prod.mk.injEq]
  omega

end Loop

def RamLine (text : List Char) (start stop : ℕ) : Prop :=
  ∃ line ∈ text.splitOn '\n', ∃ first last name, IsResource line first last name ∧ IsRamName name ∧
    start = hexadecimal first ∧ stop = hexadecimal last

/-- Text as `/proc/iomem` prints it, but for lines that do not parse. -/
structure IsIomem (text : List Char) : Prop where
  noNul : '\x00' ∉ text
  lines : ∀ line ∈ text.splitOn '\n',
    (∃ start stop name, IsResource line start stop name) ∨ ∃ ret, iomemParseLine line = .error ret

section Texts

variable {text other : List Char}

theorem iomemSystemRam_eq (isIomem : IsIomem text) (mem : ℕ → Bool) (ram : Rangeset) :
    iomemSystemRam mem (.ok text) ram =
      rangesetEach rangesetAdd mem ram ((text.splitOn '\n').filterMap ramRange) := by
  obtain ⟨n, whole⟩ := fileString_newlines text
  have plain : '\x00' ∉ fileString text := by
    intro member
    apply isIomem.noNul
    rw [whole]
    exact List.mem_append_left _ member
  have blank : (List.replicate n []).filterMap ramRange = [] := by
    rw [List.filterMap_replicate]
    rfl
  show iomemLoop mem ram ((cString (fileString text)).splitOn '\n') = _
  rw [cString_of_plain plain, iomemLoop_eq]
  conv => rhs; rw [whole]
  rw [splitOn_newlines, List.filterMap_append, blank, List.append_nil]

theorem mem_ramRanges (isIomem : IsIomem text) {r : Range} :
    r ∈ (text.splitOn '\n').filterMap ramRange ↔ ∃ start stop, RamLine text start stop ∧ r = ramOf start stop := by
  rw [List.mem_filterMap]
  constructor
  · rintro ⟨line, member, range⟩
    rcases isIomem.lines line member with ⟨first, last, name, isResource⟩ | ⟨ret, refused⟩
    · rw [ramRange, iomemParseLine_resource isResource] at range
      simp only at range
      split at range
      · rename_i named
        obtain rfl := Option.some.inj range
        exact ⟨_, _, ⟨line, member, first, last, name, isResource, isSystemRam_iff.mp named, rfl, rfl⟩, rfl⟩
      · cases range
    · rw [ramRange, refused] at range
      cases range
  · rintro ⟨start, stop, ⟨line, member, first, last, name, isResource, named, rfl, rfl⟩, rfl⟩
    refine ⟨line, member, ?_⟩
    rw [ramRange, iomemParseLine_resource isResource]
    simp only
    rw [if_pos (isSystemRam_iff.mpr named)]
    rfl

theorem RamLine.perm {start stop : ℕ} (same : (other.splitOn '\n').Perm (text.splitOn '\n')) :
    RamLine other start stop ↔ RamLine text start stop := by
  constructor
  · rintro ⟨line, member, isRam⟩
    exact ⟨line, same.mem_iff.mp member, isRam⟩
  · rintro ⟨line, member, isRam⟩
    exact ⟨line, same.mem_iff.mpr member, isRam⟩

/-- The numbers of every line of RAM are a range of 64-bit addresses with an end. -/
def RamFits (text : List Char) : Prop :=
  ∀ start stop, RamLine text start stop → start ≤ stop ∧ stop < 2 ^ 64 - 1

theorem ramRanges_valid (isIomem : IsIomem text) :
    (∀ r ∈ (text.splitOn '\n').filterMap ramRange, r.Valid) ↔ RamFits text := by
  constructor
  · intro valid start stop isRam
    exact ramOf_valid.mp (valid _ ((mem_ramRanges isIomem).mpr ⟨start, stop, isRam, rfl⟩))
  · intro fits r member
    obtain ⟨start, stop, isRam, rfl⟩ := (mem_ramRanges isIomem).mp member
    exact ramOf_valid.mpr (fits start stop isRam)

theorem iomemSystemRam_union (isIomem : IsIomem text) (fits : RamFits text) :
    (iomemSystemRam (fun _ => true) (.ok text) rangesetInit).1 = 0 ∧
      Normal (iomemSystemRam (fun _ => true) (.ok text) rangesetInit).2.r ∧
      ∀ a, a ∈ addresses (iomemSystemRam (fun _ => true) (.ok text) rangesetInit).2.r ↔
        ∃ start stop, RamLine text start stop ∧ start ≤ a ∧ a ≤ stop := by
  rw [iomemSystemRam_eq isIomem]
  have added := @rangesetEach_result _ rangesetInit _ ((ramRanges_valid isIomem).mpr fits) rangesetAdd_granted
  obtain ⟨normal, same⟩ := rangesetEach_add added
  refine ⟨added, normal, fun a => ?_⟩
  rw [same, addresses, SpanSets.mem_cover]
  constructor
  · rintro ⟨span, member, inside⟩
    obtain ⟨r, range, rfl⟩ := List.mem_map.mp member
    obtain ⟨start, stop, isRam, rfl⟩ := (mem_ramRanges isIomem).mp range
    obtain ⟨ordered, bounded⟩ := fits start stop isRam
    rw [ramOf_span ordered bounded] at inside
    exact ⟨start, stop, isRam, inside.1, Nat.le_of_lt_succ inside.2⟩
  · rintro ⟨start, stop, isRam, above, below⟩
    obtain ⟨ordered, bounded⟩ := fits start stop isRam
    refine ⟨(ramOf start stop).span, List.mem_map_of_mem ((mem_ramRanges isIomem).mpr
      ⟨start, stop, isRam, rfl⟩), ?_⟩
    rw [ramOf_span ordered bounded]
    exact ⟨above, Nat.lt_succ_of_le below⟩

end Texts

/-- The set is the union of the RAM lines in whatever order, or one of them is refused. -/
theorem iomemSystemRam_exact {text : List Char} (isIomem : IsIomem text) :
    let read := fun text => iomemSystemRam (fun _ => true) (.ok text) rangesetInit
    (RamFits text →
      (read text).1 = 0 ∧ Normal (read text).2.r ∧
      (∀ a, a ∈ addresses (read text).2.r ↔ ∃ start stop, RamLine text start stop ∧ start ≤ a ∧ a ≤ stop) ∧
      ∀ other, IsIomem other → (other.splitOn '\n').Perm (text.splitOn '\n') →
        (read other).1 = 0 ∧ (read other).2.r = (read text).2.r) ∧
    (¬ RamFits text → (read text).1 < 0) := by
  intro read
  constructor
  · intro fits
    obtain ⟨accepted, normal, union⟩ := iomemSystemRam_union isIomem fits
    refine ⟨accepted, normal, union, ?_⟩
    intro other isOther same
    have fitsOther : RamFits other := fun start stop isRam => fits start stop ((RamLine.perm same).mp isRam)
    obtain ⟨acceptedOther, normalOther, unionOther⟩ := iomemSystemRam_union isOther fitsOther
    refine ⟨acceptedOther, normalOther.eq_of_addresses_eq normal ?_⟩
    ext a
    rw [union, unionOther]
    simp only [RamLine.perm same]
  · intro unfit
    show (iomemSystemRam (fun _ => true) (.ok text) rangesetInit).1 < 0
    rw [iomemSystemRam_eq isIomem]
    refine lt_of_le_of_ne (rangesetEach_add_nonpos _ _ _) ?_
    intro added
    exact unfit ((ramRanges_valid isIomem).mp (rangesetEach_add_valid added))

theorem iomemSystemRam_page :
    IsIomem "1000-1fff : System RAM\nreserved".toList ∧
      (iomemSystemRam (fun _ => true) (.ok "1000-1fff : System RAM\nreserved".toList) rangesetInit).1 = 0 := by
  have lines : "1000-1fff : System RAM\nreserved".toList.splitOn '\n' =
      ["1000-1fff : System RAM".toList, "reserved".toList] := by decide
  have isIomem : IsIomem "1000-1fff : System RAM\nreserved".toList := by
    refine ⟨by decide, ?_⟩
    rw [lines, List.forall_mem_cons, List.forall_mem_singleton]
    constructor
    · left
      exact ⟨"1000".toList, "1fff".toList, "System RAM".toList, ⟨by decide, List.all_eq_true.mp (by decide)⟩,
        ⟨by decide, List.all_eq_true.mp (by decide)⟩, 0, by decide⟩
    · exact .inr ⟨-EINVAL, by rfl⟩
  have fits : RamFits "1000-1fff : System RAM\nreserved".toList := by
    rw [← ramRanges_valid isIomem, lines]
    have ranges : ["1000-1fff : System RAM".toList, "reserved".toList].filterMap ramRange = [⟨4096, 4096⟩] := by
      decide +kernel
    rw [ranges, List.forall_mem_singleton]
    exact ⟨by decide, by decide⟩
  exact ⟨isIomem, ((iomemSystemRam_exact isIomem).1 fits).1⟩

end Kmorph
