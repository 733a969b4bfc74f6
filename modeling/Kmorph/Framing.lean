import Kmorph.DaemonCore
import Kmorph.Scanning
import Kmorph.WatchCore

/-!
Framing of the requests on a connection: what `read_request` makes of a stream does
not depend on where it is cut, and it reads back the requests `kmorph` sends.
-/

namespace Kmorph

variable {cap : ℕ} {got : List Char} {head : RequestHead}

theorem requestHead_none : requestHead cap got = .ok none ↔ got.idxOf? '\n' = none := by
  unfold requestHead
  constructor
  · intro unsettled
    split at unsettled
    · assumption
    · simp only at unsettled
      split at unsettled
      · simp at unsettled
      · split at unsettled
        · simp at unsettled
        · split at unsettled <;> simp at unsettled
  · intro none
    simp only [none]

theorem requestHead_append (settled : requestHead cap got ≠ .ok none) (more : List Char) :
    requestHead cap (got ++ more) = requestHead cap got := by
  obtain ⟨newline, found⟩ := Option.ne_none_iff_exists'.mp (mt requestHead_none.mpr settled)
  have inside : newline + 1 ≤ got.length := (List.idxOf?_eq_some_iff.mp found).1
  have same : (got ++ more).idxOf? '\n' = some newline := by
    simp only [List.idxOf?] at found ⊢
    rw [List.findIdx?_append, found]
    rfl
  simp only [requestHead, found, same, List.take_append_of_le_length inside]

theorem requestHead_bounds (parsed : requestHead cap got = .ok (some head)) :
    head.line ≤ REQUEST_LINE_MAX ∧ head.line + head.payload < cap := by
  unfold requestHead at parsed
  split at parsed
  · simp at parsed
  · simp only at parsed
    split at parsed
    · simp at parsed
    · rename_i short
      split at parsed
      · simp at parsed
      · split at parsed
        · simp at parsed
        · rename_i fits
          obtain rfl := Option.some.inj (Except.ok.inj parsed)
          exact ⟨Nat.not_lt.mp short, Nat.not_le.mp fits⟩

def Recv.isData : Recv → Bool
  | .data _ => true
  | .timeout | .closed | .error _ => false

def ending : List Recv → Int
  | .closed :: _ => -ECONNRESET
  | .error errno :: _ => -errno
  | _ => -ETIMEDOUT

/-- What `read_request` makes of a whole stream of bytes. -/
def frameOutcome (cap : ℕ) (bytes : List Char) (last : Int) : Except Int (RequestHead × List Char) :=
  let got := bytes.take (cap - 1)
  match requestHead cap got with
  | .error errno => .error errno
  | .ok none => .error (if bytes.length > cap - 1 then -ECONNRESET else last)
  | .ok (some head) =>
      if got.length ≥ head.line + head.payload then
        .ok (head, (got.drop head.line).take head.payload)
      else .error last

/-- What holds whenever a round begins: the buffer has its head and lacks some of the payload. -/
structure Framing (cap : ℕ) (s : FrameState) : Prop where
  fits : s.got.length ≤ cap - 1
  parsed : requestHead cap s.got = .ok s.head
  lacks : ∀ head ∈ s.head, s.got.length < head.line + head.payload

theorem framing_init : Framing cap ⟨none, []⟩ := ⟨by simp, rfl, by simp⟩

theorem readFrame_ending (cap : ℕ) (s : FrameState) {tail : List Recv}
    (drained : ∀ r ∈ tail.head?, r.isData = false) :
    readFrame cap s tail = .error (ending tail) := by
  cases tail with
  | nil => rfl
  | cons r rest =>
      cases r with
      | data bytes => simpa [Recv.isData] using drained (.data bytes) (by simp)
      | timeout => rfl
      | closed => rfl
      | error errno => rfl

section Outcome

variable {bytes more : List Char} {last : Int}

theorem frameOutcome_error {errno : Int} (read : bytes.take (cap - 1) = got ++ more)
    (refused : requestHead cap got = .error errno) : frameOutcome cap bytes last = .error errno := by
  have same : requestHead cap (got ++ more) = requestHead cap got :=
    requestHead_append (by simp [refused]) more
  simp only [frameOutcome, read, same, refused]

theorem frameOutcome_complete (read : bytes.take (cap - 1) = got ++ more)
    (parsed : requestHead cap got = .ok (some head))
    (complete : got.length ≥ head.line + head.payload) :
    frameOutcome cap bytes last = .ok (head, (got.drop head.line).take head.payload) := by
  have same : requestHead cap (got ++ more) = requestHead cap got :=
    requestHead_append (by simp [parsed]) more
  have enough : (got ++ more).length ≥ head.line + head.payload := by
    rw [List.length_append]
    omega
  have payload : ((got ++ more).drop head.line).take head.payload =
      (got.drop head.line).take head.payload := by
    rw [List.drop_append_of_le_length (by omega), List.take_append_of_le_length]
    rw [List.length_drop]
    omega
  simp only [frameOutcome, read, same, parsed, if_pos enough, payload]

theorem frameOutcome_full (read : bytes.take (cap - 1) = got) (beyond : bytes.length > cap - 1)
    (unsettled : requestHead cap got = .ok none) :
    frameOutcome cap bytes last = .error (-ECONNRESET) := by
  simp only [frameOutcome, read, unsettled, if_pos beyond]

end Outcome

theorem requestHead_full (parsed : requestHead cap got = .ok (some head))
    (full : got.length = cap - 1) : got.length ≥ head.line + head.payload := by
  have := (requestHead_bounds parsed).2
  omega

theorem take_buffered (fits : got.length ≤ cap - 1) (bytes rest : List Char) :
    (got ++ bytes ++ rest).take (cap - 1) = got ++ bytes.take (cap - 1 - got.length) ++
      rest.take (cap - 1 - got.length - bytes.length) := by
  rw [List.append_assoc, List.take_append, List.take_of_length_le fits, List.take_append,
    List.append_assoc]

theorem take_clipped (fits : got.length ≤ cap - 1) {bytes : List Char}
    (long : bytes.length ≥ cap - 1 - got.length) (rest : List Char) :
    (got ++ bytes ++ rest).take (cap - 1) = got ++ bytes.take (cap - 1 - got.length) := by
  rw [take_buffered fits, Nat.sub_eq_zero_of_le long, List.take_zero, List.append_nil]

section Round

variable {s : FrameState} {bytes : List Char}

theorem Framing.unparsed_of_full (framing : Framing cap s) (full : s.got.length = cap - 1) :
    s.head = none := by
  cases known : s.head with
  | none => rfl
  | some head =>
      have enough := requestHead_full (known ▸ framing.parsed) full
      have lacks := framing.lacks head known
      omega

theorem Framing.head_known (framing : Framing cap s) (more : List Char) :
    s.head.elim (requestHead cap (s.got ++ more)) (fun head => .ok (some head)) =
      requestHead cap (s.got ++ more) := by
  have parsed := framing.parsed
  cases known : s.head with
  | none => rfl
  | some head =>
      rw [known] at parsed
      rw [requestHead_append (by simp [parsed]), parsed]
      rfl

theorem Framing.grown (framing : Framing cap s) (short : bytes.length ≤ cap - 1 - s.got.length)
    {head : Option RequestHead} (parsed : requestHead cap (s.got ++ bytes) = .ok head)
    (lacks : ∀ h ∈ head, (s.got ++ bytes).length < h.line + h.payload) :
    Framing cap ⟨head, s.got ++ bytes⟩ := by
  have fits := framing.fits
  refine ⟨?_, parsed, lacks⟩
  rw [List.length_append]
  omega

/-- A round takes all it is given and goes on, or ends as the whole stream does. -/
theorem frameStep_data (framing : Framing cap s) (nonempty : bytes ≠ []) :
    (∃ next, frameStep cap s (.data bytes) = .more next ∧ next.got = s.got ++ bytes ∧
      Framing cap next) ∨
    ∃ outcome, frameStep cap s (.data bytes) = .done outcome ∧
      ∀ rest last, frameOutcome cap (s.got ++ bytes ++ rest) last = outcome := by
  have fits := framing.fits
  have sized := List.length_pos_iff.mpr nonempty
  have read := take_buffered fits bytes
  have clipped {rest : List Char} (long : bytes.length ≥ cap - 1 - s.got.length) :=
    take_clipped fits long rest
  simp only [frameStep]
  split
  · rename_i nothing
    have noRoom : cap - 1 - s.got.length = 0 :=
      (List.take_eq_nil_iff.mp nothing).resolve_right nonempty
    have unparsed : s.head = none := framing.unparsed_of_full (by omega)
    refine .inr ⟨_, rfl, fun rest last => ?_⟩
    refine frameOutcome_full (clipped (by omega)) (by simp only [List.length_append]; omega) ?_
    rw [nothing, List.append_nil, framing.parsed, unparsed]
  · rw [framing.head_known]
    cases outcome : requestHead cap (s.got ++ bytes.take (cap - 1 - s.got.length)) with
    | error errno =>
        exact .inr ⟨_, rfl, fun rest last => frameOutcome_error (read rest) outcome⟩
    | ok found =>
        -- The bytes beyond the buffer are lost only if it has no head: a head lets the payload in.
        by_cases long : bytes.length > cap - 1 - s.got.length
        · cases found with
          | none =>
              refine .inr ⟨_, if_pos long, fun rest last => ?_⟩
              exact frameOutcome_full (clipped (Nat.le_of_lt long))
                (by simp only [List.length_append]; omega) outcome
          | some head =>
              have complete := requestHead_full outcome
                (by rw [List.length_append, List.length_take]; omega)
              exact .inr ⟨_, if_pos complete,
                fun rest last => frameOutcome_complete (read rest) outcome complete⟩
        · have short := Nat.not_lt.mp long
          have whole : bytes.take (cap - 1 - s.got.length) = bytes := List.take_of_length_le short
          rw [whole] at outcome read ⊢
          cases found with
          | none => exact .inl ⟨_, if_neg long, rfl, framing.grown short outcome (by simp)⟩
          | some head =>
              by_cases complete : (s.got ++ bytes).length ≥ head.line + head.payload
              · exact .inr ⟨_, if_pos complete,
                  fun rest last => frameOutcome_complete (read rest) outcome complete⟩
              · refine .inl ⟨_, (if_neg complete).trans (if_neg long), rfl, ?_⟩
                refine framing.grown short outcome ?_
                intro other same
                obtain rfl := Option.some.inj same
                exact Nat.not_le.mp complete

end Round

/-- What the reader makes of a stream is a function of the bytes alone. -/
theorem readFrame_chunks {s : FrameState} (framing : Framing cap s) {chunks : List (List Char)}
    (nonempty : ∀ chunk ∈ chunks, chunk ≠ []) {tail : List Recv}
    (drained : ∀ r ∈ tail.head?, r.isData = false) :
    readFrame cap s (chunks.map .data ++ tail) =
      frameOutcome cap (s.got ++ chunks.flatten) (ending tail) := by
  induction chunks generalizing s with
  | nil =>
      obtain ⟨fits, parsed, lacks⟩ := framing
      have whole : s.got.take (cap - 1) = s.got := List.take_of_length_le fits
      rw [List.map_nil, List.nil_append, readFrame_ending cap s drained, List.flatten_nil,
        List.append_nil]
      simp only [frameOutcome, whole, parsed]
      cases known : s.head with
      | none => simp only [if_neg (Nat.not_lt.mpr fits)]
      | some head => simp only [if_neg (Nat.not_le.mpr (lacks head known))]
  | cons chunk chunks ih =>
      rw [List.map_cons, List.cons_append, readFrame, List.flatten_cons, ← List.append_assoc]
      rcases frameStep_data framing (nonempty chunk (by simp)) with
        ⟨next, step, grown, still⟩ | ⟨outcome, step, same⟩
      · simp only [step]
        rw [← grown]
        exact ih still fun other member => nonempty other (by simp [member])
      · simp only [step]
        exact (same chunks.flatten (ending tail)).symm

def networkLine (n : ℕ) : List Char :=
  "network ".toList ++ formatUnsigned n ++ ['\n']

theorem networkLine_eq (n : ℕ) : networkLine n =
    'n' :: 'e' :: 't' :: 'w' :: 'o' :: 'r' :: 'k' :: ' ' :: (formatUnsigned n ++ ['\n']) := by
  unfold networkLine
  simp

theorem length_networkLine (n : ℕ) : (networkLine n).length = (formatUnsigned n).length + 9 := by
  rw [networkLine_eq]
  simp

theorem lineLen_networkLine (n : ℕ) : lineLen (networkLine n) = (networkLine n).length - 1 := by
  have plain : Stops (fun c => c = '\n' || c = '\r') (formatUnsigned n).reverse := by
    intro c first
    have digit := isDigit_formatUnsigned n c (List.mem_reverse.mp (List.mem_of_mem_head? first))
    simp only [Bool.or_eq_false_iff, decide_eq_false_iff_not]
    constructor
    · rintro rfl
      simp at digit
    · rintro rfl
      simp at digit
  have reversed : (networkLine n).reverse =
      '\n' :: ((formatUnsigned n).reverse ++ [' ', 'k', 'r', 'o', 'w', 't', 'e', 'n']) := by
    rw [networkLine_eq]
    simp
  have rest : Stops (fun c => c = '\n' || c = '\r')
      ((formatUnsigned n).reverse ++ [' ', 'k', 'r', 'o', 'w', 't', 'e', 'n']) := by
    obtain ⟨c, others, digits⟩ := List.exists_cons_of_ne_nil
      (List.reverse_eq_nil_iff.not.mpr (formatUnsigned_ne_nil n))
    rw [digits] at plain ⊢
    exact stops_cons (plain c (by simp))
  rw [lineLen, reversed, length_networkLine, List.dropWhile_cons_of_pos (by simp),
    dropWhile_of_stops rest]
  simp

theorem requestParse_networkLine {n : ℕ} (small : n ≤ NETWORK_MAX) :
    requestParse (networkLine n) = .ok (.network, n) := by
  have fits : n < 2 ^ 64 := Nat.lt_of_le_of_lt small (by decide)
  have scanned : scanUnsigned (formatUnsigned n ++ ['\n']) = some (n, ['\n']) :=
    scanUnsigned_format fits (stops_cons (by decide))
  have network : scanNetwork (networkLine n) = some (n, (networkLine n).length - 1) := by
    have start : "network".toList.isPrefixOf (networkLine n) = true := by
      rw [networkLine_eq]
      simp
    have number : (networkLine n).drop 7 = ' ' :: (formatUnsigned n ++ ['\n']) := by
      rw [networkLine_eq]
      rfl
    simp only [scanNetwork, start, if_true, number, scanUnsigned_space, scanned]
    rfl
  have status : ¬ (lineLen (networkLine n) = 6 ∧ (networkLine n).take 6 = "status".toList) := by
    rw [networkLine_eq]
    simp
  have handover : ¬ (lineLen (networkLine n) = 8 ∧ (networkLine n).take 8 = "handover".toList) := by
    rw [networkLine_eq]
    simp
  simp only [requestParse, if_neg status, if_neg handover, network]
  rw [lineLen_networkLine, if_pos ⟨rfl, small⟩]

theorem networkLine_front (n : ℕ) : ∃ front, networkLine n = front ++ ['\n'] ∧
    ∀ c ∈ front, c ≠ '\n' ∧ c ≠ '\x00' := by
  refine ⟨'n' :: 'e' :: 't' :: 'w' :: 'o' :: 'r' :: 'k' :: ' ' :: formatUnsigned n, ?_, ?_⟩
  · rw [networkLine_eq]
    rfl
  · intro c member
    simp only [List.mem_cons] at member
    rcases member with rfl | rfl | rfl | rfl | rfl | rfl | rfl | rfl | digit
    all_goals try decide
    have isDigit := isDigit_formatUnsigned n c digit
    constructor
    · rintro rfl
      simp at isDigit
    · rintro rfl
      simp at isDigit

theorem requestHead_networkLine {n : ℕ} (small : n ≤ NETWORK_MAX)
    (fits : (networkLine n).length + n < cap) :
    requestHead cap (networkLine n) = .ok (some ⟨(networkLine n).length, .network, n⟩) := by
  obtain ⟨front, line, plain⟩ := networkLine_front n
  have newline : (networkLine n).idxOf? '\n' = some front.length := by
    have absent : front.findIdx? (· == '\n') = none := by
      rw [← List.idxOf?, List.idxOf?_eq_none_iff]
      exact fun member => (plain _ member).1 rfl
    rw [line, List.idxOf?, List.findIdx?_append, absent]
    simp
  have length : front.length + 1 = (networkLine n).length := by
    rw [line]
    simp
  have digits : (formatUnsigned n).length ≤ 7 :=
    length_formatUnsigned (Nat.lt_of_le_of_lt small (by decide))
  have short : ¬ (networkLine n).length > REQUEST_LINE_MAX := by
    rw [length_networkLine, REQUEST_LINE_MAX]
    omega
  have string : cString (networkLine n) = networkLine n := by
    refine cString_of_plain ?_
    rw [line]
    simp only [List.mem_append, List.mem_singleton, not_or]
    exact ⟨fun member => (plain _ member).2 rfl, by decide⟩
  simp only [requestHead, newline, length, if_neg short, List.take_length, string,
    requestParse_networkLine small, if_neg (Nat.not_le.mpr fits)]

theorem textRequest_eq {text : List Char} (short : text.length < NETSNAP_TEXT_MAX) :
    textRequest text = .ok (networkLine text.length ++ text) ∧
      (networkLine text.length).length + text.length < REQUEST_MAX := by
  have max : NETSNAP_TEXT_MAX = 16384 := rfl
  have digits : (formatUnsigned text.length).length ≤ 5 := length_formatUnsigned (by omega)
  have line := length_networkLine text.length
  have formatted : requestFormatNetwork text.length (64 + NETSNAP_TEXT_MAX) =
      .ok (networkLine text.length) := by
    refine if_neg ?_
    show ¬ (networkLine text.length).length ≥ _
    omega
  refine ⟨?_, ?_⟩
  · simp only [textRequest, formatted]
    exact if_neg (by omega)
  · have buffer : REQUEST_MAX = 16448 := rfl
    omega

theorem frameOutcome_networkLine {text : List Char} (short : text.length < NETSNAP_TEXT_MAX)
    (last : Int) :
    frameOutcome REQUEST_MAX (networkLine text.length ++ text) last =
      .ok (⟨(networkLine text.length).length, .network, text.length⟩, text) := by
  obtain ⟨-, fits⟩ := textRequest_eq short
  have max : NETSNAP_TEXT_MAX = 16384 := rfl
  have small : text.length ≤ NETWORK_MAX := by
    rw [NETWORK_MAX]
    omega
  have whole : (networkLine text.length ++ text).take (REQUEST_MAX - 1) =
      networkLine text.length ++ text := by
    refine List.take_of_length_le ?_
    rw [List.length_append]
    omega
  have parsed := requestHead_networkLine small fits
  have same : requestHead REQUEST_MAX (networkLine text.length ++ text) =
      requestHead REQUEST_MAX (networkLine text.length) :=
    requestHead_append (by simp [parsed]) text
  simp only [frameOutcome, whole, same, parsed, List.length_append, ge_iff_le, Nat.le_refl, if_true,
    List.drop_left, List.take_length]

/-- The indices of the buffer that one round writes: the bytes received, the NUL after them and the
NUL after a complete payload. -/
def frameWrites (cap : ℕ) (s : FrameState) : Recv → List ℕ
  | .data bytes =>
      let read := bytes.take (cap - 1 - s.got.length)
      if read = [] then []
      else
        List.range' s.got.length (read.length + 1) ++
          match frameStep cap s (.data bytes) with
          | .done (.ok (head, _)) => [head.line + head.payload]
          | _ => []
  | .timeout | .closed | .error _ => []

/-- The rounds `read_request` makes on an input, each with the state it begins in. -/
def frameRounds (cap : ℕ) (s : FrameState) : List Recv → List (FrameState × Recv)
  | [] => []
  | r :: input =>
      (s, r) ::
        match frameStep cap s r with
        | .done _ => []
        | .more next => frameRounds cap next input

theorem frameOutcome_bounds {bytes payload : List Char} {last : Int}
    (read : frameOutcome cap bytes last = .ok (head, payload)) :
    head.line ≤ REQUEST_LINE_MAX ∧ head.line + head.payload < cap ∧ payload.length = head.payload := by
  simp only [frameOutcome] at read
  split at read
  · simp at read
  · simp at read
  · rename_i parsed
    split at read
    · rename_i complete
      obtain ⟨rfl, rfl⟩ := Prod.mk.inj (Except.ok.inj read)
      obtain ⟨line, fits⟩ := requestHead_bounds parsed
      refine ⟨line, fits, ?_⟩
      rw [List.length_take, List.length_drop]
      omega
    · simp at read

theorem frameStep_framing {s next : FrameState} {r : Recv} (framing : Framing cap s)
    (step : frameStep cap s r = .more next) : Framing cap next := by
  cases r with
  | timeout => simp [frameStep] at step
  | closed => simp [frameStep] at step
  | error errno => simp [frameStep] at step
  | data bytes =>
      by_cases nonempty : bytes = []
      · simp [frameStep, nonempty] at step
      · rcases frameStep_data framing nonempty with ⟨other, same, -, still⟩ | ⟨outcome, same, -⟩
        · obtain rfl : other = next := by simpa [same] using step
          exact still
        · simp [same] at step

theorem frameWrites_bounded {s : FrameState} (positive : 0 < cap) (framing : Framing cap s)
    (r : Recv) : ∀ index ∈ frameWrites cap s r, index < cap := by
  intro index member
  cases r with
  | timeout => simp [frameWrites] at member
  | closed => simp [frameWrites] at member
  | error errno => simp [frameWrites] at member
  | data bytes =>
      have fits := framing.fits
      simp only [frameWrites] at member
      split at member
      · simp at member
      · rename_i read
        have nonempty : bytes ≠ [] := by
          rintro rfl
          simp at read
        rcases List.mem_append.mp member with received | last
        · have range := (List.mem_range'_1.mp received).2
          rw [List.length_take] at range
          omega
        · split at last
          · rename_i head payload step
            obtain rfl := List.mem_singleton.mp last
            rcases frameStep_data framing nonempty with ⟨next, same, -⟩ | ⟨outcome, same, whole⟩
            · simp [same] at step
            · obtain rfl : outcome = .ok (head, payload) := by simpa [same] using step
              exact (frameOutcome_bounds (whole [] 0)).2.1
          · simp at last

theorem frameRounds_bounded {s : FrameState} (positive : 0 < cap) (framing : Framing cap s)
    (input : List Recv) :
    ∀ round ∈ frameRounds cap s input, ∀ index ∈ frameWrites cap round.1 round.2, index < cap := by
  induction input generalizing s with
  | nil => simp [frameRounds]
  | cons r input ih =>
      intro round member
      rcases List.mem_cons.mp member with rfl | later
      · exact frameWrites_bounded positive framing r
      · split at later
        · simp at later
        · rename_i next step
          exact ih (frameStep_framing framing step) round later

/-- What `read_request` makes of a stream does not depend on where it is cut; a request of
`send_text` is read back as its text; and no round writes past the buffer. -/
theorem readFrame_law :
    (∀ (first second : List (List Char)) (tail : List Recv),
      (∀ chunk ∈ first, chunk ≠ []) → (∀ chunk ∈ second, chunk ≠ []) →
      first.flatten = second.flatten → (∀ r ∈ tail.head?, r.isData = false) →
        readFrame REQUEST_MAX ⟨none, []⟩ (first.map .data ++ tail) =
          readFrame REQUEST_MAX ⟨none, []⟩ (second.map .data ++ tail)) ∧
    (∀ text : List Char, text.length < NETSNAP_TEXT_MAX → '\x00' ∉ text →
      ∃ bytes, textRequest text = .ok bytes ∧
        ∀ (chunks : List (List Char)) (tail : List Recv), (∀ chunk ∈ chunks, chunk ≠ []) →
          chunks.flatten = bytes → (∀ r ∈ tail.head?, r.isData = false) →
            ∃ head payload, readFrame REQUEST_MAX ⟨none, []⟩ (chunks.map .data ++ tail) =
                .ok (head, payload) ∧
              head.kind = .network ∧ head.payload = text.length ∧ cString payload = text) ∧
    ∀ (input : List Recv), ∀ round ∈ frameRounds REQUEST_MAX ⟨none, []⟩ input,
      ∀ index ∈ frameWrites REQUEST_MAX round.1 round.2, index < REQUEST_MAX := by
  refine ⟨?_, ?_, ?_⟩
  · intro first second tail firstChunks secondChunks same drained
    rw [readFrame_chunks framing_init firstChunks drained,
      readFrame_chunks framing_init secondChunks drained, same]
  · intro text short plain
    refine ⟨_, (textRequest_eq short).1, ?_⟩
    intro chunks tail nonempty cut drained
    refine ⟨⟨(networkLine text.length).length, .network, text.length⟩, text, ?_, rfl, rfl,
      cString_of_plain plain⟩
    rw [readFrame_chunks framing_init nonempty drained, cut]
    exact frameOutcome_networkLine short _
  · exact fun input => frameRounds_bounded (by decide) framing_init input

theorem readFrame_law_link :
    ∃ head payload, readFrame REQUEST_MAX ⟨none, []⟩ [.data "netw".toList, .data "ork 4\nlink".toList, .closed] =
        .ok (head, payload) ∧ head.kind = .network ∧ head.payload = 4 ∧ cString payload = "link".toList ∧
      readFrame REQUEST_MAX ⟨none, []⟩ [.data "netw".toList, .data "ork 4\nlink".toList, .closed] =
        readFrame REQUEST_MAX ⟨none, []⟩ [.data "network 4\nlink".toList, .closed] := by
  obtain ⟨cuts, requests, -⟩ := readFrame_law
  obtain ⟨bytes, request, reads⟩ := requests "link".toList (by decide) (by decide)
  have whole : ["netw".toList, "ork 4\nlink".toList].flatten = bytes := by
    have sent : textRequest "link".toList = .ok "network 4\nlink".toList := by decide +kernel
    exact Except.ok.inj (sent.symm.trans request)
  obtain ⟨head, payload, read, kind, length, text⟩ := reads _ [.closed] (by decide) whole (by decide)
  exact ⟨head, payload, read, kind, length, text,
    cuts ["netw".toList, "ork 4\nlink".toList] ["network 4\nlink".toList] [.closed] (by decide) (by decide) (by decide)
      (by decide)⟩

end Kmorph
