import Mathlib.Algebra.Group.Nat.Defs
import Mathlib.Data.List.Basic

/-! Numbers as hexadecimal digits in ASCII, and records of fields of one width. -/

namespace Hexadecimal

def digit (d : ℕ) : UInt8 := if d < 10 then .ofNat (48 + d) else .ofNat (87 + d)

/-- Either case is read; `digit` writes the lower one. -/
def value (b : UInt8) : Option ℕ :=
  let n := b.toNat
  if 48 ≤ n ∧ n ≤ 57 then some (n - 48)
  else if 97 ≤ n ∧ n ≤ 102 then some (n - 87)
  else if 65 ≤ n ∧ n ≤ 70 then some (n - 55)
  else none

def encode : ℕ → ℕ → List UInt8
  | 0, _ => []
  | width + 1, n => encode width (n / 16) ++ [digit (n % 16)]

def decode (digits : List UInt8) : Option ℕ :=
  digits.foldlM (fun n b => (value b).map (n * 16 + ·)) 0

def encodeFields (width : ℕ) (fields : List ℕ) : List UInt8 :=
  fields.flatMap (encode width)

def decodeFields (width : ℕ) : ℕ → List UInt8 → Option (List ℕ)
  | 0, _ => some []
  | count + 1, bytes => do
      let field ← decode (bytes.take width)
      let fields ← decodeFields width count (bytes.drop width)
      return field :: fields

theorem value_digit {d : ℕ} (small : d < 16) : value (digit d) = some d := by
  have all : ∀ d < 16, value (digit d) = some d := by decide
  exact all d small

@[simp] theorem length_encode (width n : ℕ) : (encode width n).length = width := by
  induction width generalizing n with
  | zero => rfl
  | succ width ih => simp [encode, ih]

theorem decode_encode (width n : ℕ) : decode (encode width n) = some (n % 16 ^ width) := by
  induction width generalizing n with
  | zero => simp [encode, decode, Nat.mod_one]
  | succ width ih =>
      have last := value_digit (Nat.mod_lt n (by decide : 0 < 16))
      have split : n % 16 ^ (width + 1) = n % 16 + 16 * (n / 16 % 16 ^ width) := by
        rw [Nat.pow_succ, Nat.mul_comm (16 ^ width) 16, Nat.mod_mul]
      unfold decode at ih ⊢
      rw [encode, List.foldlM_append, ih, split]
      simp only [Option.bind_eq_bind, Option.bind_some, List.foldlM_cons, List.foldlM_nil, last,
        Option.map_some, Option.pure_def, Option.some.injEq]
      omega

theorem length_encodeFields (width : ℕ) (fields : List ℕ) :
    (encodeFields width fields).length = fields.length * width := by
  induction fields with
  | nil => simp [encodeFields]
  | cons field fields ih =>
      rw [encodeFields, List.flatMap_cons, List.length_append, length_encode, ← encodeFields, ih,
        List.length_cons, Nat.succ_mul, Nat.add_comm]

theorem decodeFields_encodeFields {width : ℕ} {fields : List ℕ}
    (fits : ∀ field ∈ fields, field < 16 ^ width) (rest : List UInt8) :
    decodeFields width fields.length (encodeFields width fields ++ rest) = some fields := by
  induction fields with
  | nil => rfl
  | cons field fields ih =>
      have whole : encodeFields width (field :: fields) ++ rest =
          encode width field ++ (encodeFields width fields ++ rest) := by
        simp [encodeFields]
      have size := length_encode width field
      rw [whole, List.length_cons, decodeFields, List.take_left' size, List.drop_left' size,
        decode_encode, Nat.mod_eq_of_lt (fits field (by simp)),
        ih fun other member => fits other (by simp [member])]
      rfl

end Hexadecimal
