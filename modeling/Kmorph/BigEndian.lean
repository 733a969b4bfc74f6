import Mathlib.Algebra.Group.Nat.Defs
import Mathlib.Data.List.Basic

/-! Numbers as big-endian bytes, and sequences of such words. -/

namespace BigEndian

def encode : ℕ → ℕ → List UInt8
  | 0, _ => []
  | width + 1, n => encode width (n / 256) ++ [UInt8.ofNat n]

def decode (bytes : List UInt8) : ℕ :=
  bytes.foldl (fun n b => n * 256 + b.toNat) 0

/-- The first `count` words of `width` bytes each. -/
def words (width : ℕ) : ℕ → List UInt8 → List ℕ
  | 0, _ => []
  | count + 1, bytes => decode (bytes.take width) :: words width count (bytes.drop width)

@[simp] theorem length_encode (width n : ℕ) : (encode width n).length = width := by
  induction width generalizing n with
  | zero => rfl
  | succ width ih => simp [encode, ih]

theorem decode_encode (width n : ℕ) : decode (encode width n) = n % 256 ^ width := by
  induction width generalizing n with
  | zero => simp [encode, decode, Nat.mod_one]
  | succ width ih =>
      have step : decode (encode width (n / 256) ++ [UInt8.ofNat n]) =
          decode (encode width (n / 256)) * 256 + (UInt8.ofNat n).toNat := by
        simp [decode]
      have split : n % 256 ^ (width + 1) = n % 256 + 256 * (n / 256 % 256 ^ width) := by
        rw [Nat.pow_succ, Nat.mul_comm (256 ^ width) 256, Nat.mod_mul]
      rw [encode, step, ih, split, UInt8.toNat_ofNat']
      omega

theorem decode_encode_of_lt {width n : ℕ} (fits : n < 256 ^ width) :
    decode (encode width n) = n := by
  rw [decode_encode, Nat.mod_eq_of_lt fits]

theorem foldl_bytes_lt (bytes : List UInt8) (n : ℕ) :
    bytes.foldl (fun n b => n * 256 + b.toNat) n < (n + 1) * 256 ^ bytes.length := by
  induction bytes generalizing n with
  | nil => simp
  | cons b bytes ih =>
      have := b.toNat_lt
      calc
        _ < (n * 256 + b.toNat + 1) * 256 ^ bytes.length := ih _
        _ ≤ ((n + 1) * 256) * 256 ^ bytes.length := Nat.mul_le_mul_right _ (by omega)
        _ = (n + 1) * 256 ^ (b :: bytes).length := by
          rw [List.length_cons, Nat.pow_succ, Nat.mul_assoc, Nat.mul_comm 256]

theorem decode_lt (bytes : List UInt8) : decode bytes < 256 ^ bytes.length := by
  simpa [decode] using foldl_bytes_lt bytes 0

theorem foldl_bytes (bytes : List UInt8) (n : ℕ) :
    bytes.foldl (fun n b => n * 256 + b.toNat) n = n * 256 ^ bytes.length + decode bytes := by
  induction bytes generalizing n with
  | nil => simp [decode]
  | cons b bytes ih =>
      rw [decode, List.foldl_cons, List.foldl_cons, ih, ih (0 * 256 + b.toNat), List.length_cons,
        Nat.pow_succ', Nat.zero_mul, Nat.zero_add, Nat.add_mul, Nat.mul_assoc, Nat.add_assoc]

theorem decode_append (first second : List UInt8) :
    decode (first ++ second) = decode first * 256 ^ second.length + decode second := by
  rw [decode, List.foldl_append, foldl_bytes, ← decode]

theorem words_flatMap_encode {width : ℕ} {ns : List ℕ} (fits : ∀ n ∈ ns, n < 256 ^ width) :
    words width ns.length (ns.flatMap (encode width)) = ns := by
  induction ns with
  | nil => rfl
  | cons n ns ih =>
      have first : decode (((n :: ns).flatMap (encode width)).take width) = n := by
        rw [List.flatMap_cons, List.take_left' (length_encode width n)]
        exact decode_encode_of_lt (fits n (by simp))
      have rest : ((n :: ns).flatMap (encode width)).drop width = ns.flatMap (encode width) := by
        rw [List.flatMap_cons, List.drop_left' (length_encode width n)]
      rw [List.length_cons, words, first, rest, ih fun m member => fits m (by simp [member])]

theorem length_flatMap_encode (width : ℕ) (ns : List ℕ) :
    (ns.flatMap (encode width)).length = width * ns.length := by
  induction ns with
  | nil => simp
  | cons n ns ih =>
      rw [List.flatMap_cons, List.length_append, length_encode, ih, List.length_cons,
        Nat.mul_succ, Nat.add_comm]

end BigEndian
