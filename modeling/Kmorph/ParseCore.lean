import Kmorph.MadtCore

/-!
Executable model of `lib/parse.c`. A string is the list of its characters before
the NUL; `granted n` is the outcome of the allocation that the push of the `n`-th
element may make.
-/

namespace Kmorph

def ERANGE : Int := 34

/-- The number and the text from `end` on. What `strtoull` saturates it reports in `errno`. -/
def parseU64Prefix (s : List Char) : Except Int (UInt64 × List Char) :=
  let digits := s.takeWhile Char.isDigit
  if digits = [] then .error (-EINVAL)
  else if decimal digits ≥ 2 ^ 64 then .error (-ERANGE)
  else .ok (.ofNat (decimal digits), s.dropWhile Char.isDigit)

def sizeShift (unit : List Char) : Option ℕ :=
  let first := unit.head?.map Char.toUpper
  if first = none then some 0
  else if first = some 'K' then some 10
  else if first = some 'M' then some 20
  else if first = some 'G' then some 30
  else if first = some 'T' then some 40
  else none

/-- What is left of a unit behind its letter and the `B` that may follow. -/
def skipUnit (shift : ℕ) (unit : List Char) : List Char :=
  if shift = 0 then unit
  else if unit.tail.head?.map Char.toUpper = some 'B' then unit.tail.tail
  else unit.tail

def parseSize (s : List Char) : Except Int UInt64 := do
  let (v, unit) ← parseU64Prefix s
  match sizeShift unit with
  | none => .error (-EINVAL)
  | some shift =>
      if skipUnit shift unit ≠ [] then .error (-EINVAL)
      else if shift ≠ 0 ∧ v.toNat > (2 ^ 64 - 1) >>> shift then .error (-ERANGE)
      else .ok (v <<< .ofNat shift)

/-- What a parser with this result returns and leaves at its destination. -/
def stored (dst : UInt64) : Except Int UInt64 → Int × UInt64
  | .ok v => (0, v)
  | .error ret => (ret, dst)

def parseSizeInto (s : List Char) (bytes : UInt64) : Int × UInt64 := stored bytes (parseSize s)

def durationScale (unit : List Char) : Option UInt64 :=
  if unit = [] ∨ unit = ['m', 's'] then some 1
  else if unit = ['s'] then some 1000
  else if unit = ['m'] then some (60 * 1000)
  else none

def parseDurationMs (s : List Char) : Except Int UInt64 := do
  let (v, unit) ← parseU64Prefix s
  match durationScale unit with
  | none => .error (-EINVAL)
  | some scale => if v.toNat > (2 ^ 64 - 1) / scale.toNat then .error (-ERANGE) else .ok (v * scale)

def parseDurationMsInto (s : List Char) (ms : UInt64) : Int × UInt64 := stored ms (parseDurationMs s)

/-- A number or a range, and what follows. -/
def parseRange (s : List Char) : Except Int (UInt64 × UInt64 × List Char) := do
  let (lo, rest) ← parseU64Prefix s
  if rest.head? = some '-' then
    let (hi, rest) ← parseU64Prefix rest.tail
    if hi < lo then .error (-EINVAL) else .ok (lo, hi, rest)
  else .ok (lo, lo, rest)

/-- The loop over the ids of a range, which looks for the last one before it counts on. -/
def pushRange (granted : ℕ → Bool) (hi id : UInt64) (l : Cpulist) : Int × Cpulist :=
  let pushed := cpulistPush (granted l.ids.length) l id
  if pushed.1 ≠ 0 then pushed
  else if id = hi then pushed
  else pushRange granted hi (id + 1) pushed.2
termination_by (hi - id).toNat
decreasing_by
  have apart : ¬ id = hi := ‹_›
  have := hi.toNat_lt
  have := id.toNat_lt
  have distinct : id.toNat ≠ hi.toNat := fun same => apart (UInt64.toNat_inj.mp same)
  rw [UInt64.toNat_sub, UInt64.toNat_sub, UInt64.toNat_add, UInt64.toNat_one]
  omega

theorem parseU64Prefix_length {s rest : List Char} {v : UInt64}
    (parsed : parseU64Prefix s = .ok (v, rest)) : rest.length < s.length := by
  simp only [parseU64Prefix] at parsed
  split at parsed
  · simp at parsed
  · rename_i found
    split at parsed
    · simp at parsed
    · simp only [Except.ok.injEq, Prod.mk.injEq] at parsed
      have whole := congrArg List.length (@List.takeWhile_append_dropWhile _ Char.isDigit s)
      have := List.length_pos_iff.mpr found
      rw [List.length_append] at whole
      rw [← parsed.2]
      omega

theorem parseRange_length {s rest : List Char} {lo hi : UInt64}
    (parsed : parseRange s = .ok (lo, hi, rest)) : rest.length < s.length := by
  simp only [parseRange, bind, Except.bind] at parsed
  cases first : parseU64Prefix s with
  | error ret => simp [first] at parsed
  | ok number =>
      obtain ⟨v, after⟩ := number
      have shorter := parseU64Prefix_length first
      simp only [first] at parsed
      split at parsed
      · cases second : parseU64Prefix after.tail with
        | error ret => simp [second] at parsed
        | ok number =>
            obtain ⟨w, last⟩ := number
            have := parseU64Prefix_length second
            rw [List.length_tail] at this
            simp only [second] at parsed
            split at parsed
            · simp at parsed
            · cases parsed
              omega
      · cases parsed
        exact shorter

/-- The loop over the text; what fails leaves an empty list. -/
def parseRanges (granted : ℕ → Bool) (s : List Char) (l : Cpulist) : Int × List UInt64 :=
  if s = [] then (0, cpulistNormalize l.ids)
  else
    match _parsed : parseRange s with
    | .error ret => (ret, [])
    | .ok (lo, hi, rest) =>
        let pushed := pushRange granted hi lo l
        if pushed.1 ≠ 0 then (pushed.1, [])
        else if rest.head? = some ',' then parseRanges granted rest.tail pushed.2
        else if rest ≠ [] then (-EINVAL, [])
        else parseRanges granted rest pushed.2
termination_by s.length
decreasing_by
  · have := parseRange_length _parsed
    rw [List.length_tail]
    omega
  · exact parseRange_length _parsed

/-- What `parse_cpulist` returns and the list it leaves. -/
def parseCpulist (granted : ℕ → Bool) (s : List Char) : Int × List UInt64 :=
  if s = [] then (-EINVAL, []) else parseRanges granted s ⟨[], 0⟩

def trimEnd (s : List Char) : List Char := (s.reverse.dropWhile isSpace).reverse

/-- The loop over the words; a failed allocation is reported as `EINVAL` too. -/
def parseWords (granted : ℕ → Bool) (p : List Char) (items : List (List Char)) :
    Int × List (List Char) :=
  if p = [] then (0, items)
  else
    let start := p.dropWhile isSpace
    let item := trimEnd (start.takeWhile (· ≠ ','))
    if item = [] then (-EINVAL, [])
    else if granted items.length then
      parseWords granted (start.dropWhile (· ≠ ',')).tail (items ++ [item])
    else (-EINVAL, [])
termination_by p.length
decreasing_by
  have nonempty : ¬ p = [] := ‹_›
  have := List.length_pos_iff.mpr nonempty
  have behind := (List.dropWhile_sublist (l := p.dropWhile isSpace) (· ≠ ',')).length_le
  have skipped := (List.dropWhile_sublist (l := p) isSpace).length_le
  simp only [List.length_tail]
  omega

def parseStrlist (granted : ℕ → Bool) (s : List Char) : Int × List (List Char) :=
  if s = [] then (-EINVAL, []) else parseWords granted s []

end Kmorph
