import Kmorph.BigEndian
import Mathlib.Algebra.GroupWithZero.Nat

/-! Records of little-endian fields of fixed widths, one behind the other. -/

namespace Records

open BigEndian

def encodeField (field : ℕ × ℕ) : List UInt8 :=
  (encode field.1 field.2).reverse

def decodeField (bytes : List UInt8) : ℕ :=
  decode bytes.reverse

def encodeFields (fields : List (ℕ × ℕ)) : List UInt8 :=
  fields.flatMap encodeField

def decodeFields : List ℕ → List UInt8 → List ℕ
  | [], _ => []
  | width :: widths, bytes =>
      decodeField (bytes.take width) :: decodeFields widths (bytes.drop width)

/-- The field of a width at an offset. -/
def field (bytes : List UInt8) (off width : ℕ) : ℕ := decodeField ((bytes.drop off).take width)

@[simp] theorem length_encodeField (field : ℕ × ℕ) : (encodeField field).length = field.1 := by
  rw [encodeField, List.length_reverse, length_encode]

theorem length_encodeFields (fields : List (ℕ × ℕ)) :
    (encodeFields fields).length = (fields.map Prod.fst).sum := by
  rw [encodeFields, List.length_flatMap]
  simp only [length_encodeField]

theorem decodeField_encodeField {field : ℕ × ℕ} (fits : field.2 < 256 ^ field.1) :
    decodeField (encodeField field) = field.2 := by
  rw [decodeField, encodeField, List.reverse_reverse, decode_encode_of_lt fits]

theorem decodeField_lt (bytes : List UInt8) : decodeField bytes < 256 ^ bytes.length := by
  have bound := decode_lt bytes.reverse
  rwa [List.length_reverse] at bound

theorem field_lt (bytes : List UInt8) (off width : ℕ) : field bytes off width < 256 ^ width := by
  have bound := decodeField_lt ((bytes.drop off).take width)
  exact Nat.lt_of_lt_of_le bound (Nat.pow_le_pow_right (by decide) (List.length_take_le _ _))

theorem field_append {front : List UInt8} {off width : ℕ} (inside : off + width ≤ front.length)
    (rest : List UInt8) : field (front ++ rest) off width = field front off width := by
  rw [field, List.drop_append_of_le_length (by omega), List.take_append_of_le_length, field]
  rw [List.length_drop]
  omega

theorem decodeField_append (low high : List UInt8) :
    decodeField (low ++ high) = 256 ^ low.length * decodeField high + decodeField low := by
  rw [decodeField, List.reverse_append, decode_append, List.length_reverse, Nat.mul_comm]
  rfl

theorem decodeFields_encodeFields {fields : List (ℕ × ℕ)}
    (fits : ∀ field ∈ fields, field.2 < 256 ^ field.1) (rest : List UInt8) :
    decodeFields (fields.map Prod.fst) (encodeFields fields ++ rest) = fields.map Prod.snd := by
  induction fields with
  | nil => rfl
  | cons field fields ih =>
      have whole : encodeFields (field :: fields) ++ rest =
          encodeField field ++ (encodeFields fields ++ rest) := by
        simp [encodeFields]
      have width := length_encodeField field
      rw [whole, List.map_cons, decodeFields, List.take_left' width, List.drop_left' width,
        decodeField_encodeField (fits field (by simp)), ih fun other member => fits other (by simp [member]),
        List.map_cons]

end Records
