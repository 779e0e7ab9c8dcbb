import Mathlib.Data.Nat.Bitwise

namespace Ece391Os.Data

/-! Words made of bit fields, the first field in the lowest bits. -/

structure BitField where
  width : Nat
  value : BitVec width

namespace BitField

def pack (size : Nat) : List BitField → BitVec size
  | [] => 0
  | field :: rest => field.value.setWidth size ||| pack size rest <<< field.width

def widths (fields : List BitField) : Nat := (fields.map BitField.width).sum

theorem getLsbD_pack_cons {size i : Nat} (field : BitField) (rest : List BitField)
    (inside : i < size) :
    (pack size (field :: rest)).getLsbD i =
      if i < field.width then field.value.getLsbD i
      else (pack size rest).getLsbD (i - field.width) := by
  simp only [pack, BitVec.getLsbD_or, BitVec.getLsbD_setWidth, BitVec.getLsbD_shiftLeft, inside,
    decide_true, Bool.true_and]
  split
  · rename_i low
    simp [low]
  · rename_i high
    simp [high, BitVec.getLsbD_of_ge _ _ (Nat.not_lt.mp high)]

/-- A field is read back from where the fields before it end. -/
theorem extract_pack {size width start : Nat} (before : List BitField) (value : BitVec width)
    (rest : List BitField) (place : widths before = start) (fits : start + width ≤ size) :
    (pack size (before ++ ⟨width, value⟩ :: rest)).extractLsb' start width = value := by
  apply BitVec.eq_of_getLsbD_eq
  intro i inside
  rw [BitVec.getLsbD_extractLsb', decide_eq_true inside, Bool.true_and]
  induction before generalizing start with
  | nil =>
      subst place
      have low : i < size := Nat.lt_of_lt_of_le inside (Nat.le_trans (Nat.le_add_left _ _) fits)
      rw [List.nil_append, getLsbD_pack_cons _ _ (by simpa [widths] using low), widths,
        List.map_nil, List.sum_nil, Nat.zero_add, if_pos inside]
  | cons first others induction =>
      have total : widths (first :: others) = first.width + widths others := rfl
      rw [List.cons_append, getLsbD_pack_cons _ _ (by omega), if_neg (by omega)]
      have later : start + i - first.width = widths others + i := by omega
      rw [later]
      exact induction rfl (by omega)

/-- A mask that covers a field does not matter to what is shifted out of it. -/
theorem masked_eq {size width : Nat} (place : Nat) (word mask : BitVec size)
    (covers : ∀ i < width, mask.getLsbD (place + i) = true) :
    ((word &&& mask) >>> place).setWidth width = word.extractLsb' place width := by
  apply BitVec.eq_of_getLsbD_eq
  intro i inside
  simp only [BitVec.getLsbD_setWidth, BitVec.getLsbD_ushiftRight, BitVec.getLsbD_and,
    BitVec.getLsbD_extractLsb', covers i inside, Bool.and_true]

end BitField

end Ece391Os.Data
