import Mathlib.Data.Nat.Digits.Lemmas

namespace Ece391Os.Data

/-! Numbers written with their most significant digit first. -/

/-- The digits of a number, without a zero in front unless the number is zero. -/
structure Numeral (radix value : Nat) (digits : List Nat) : Prop where
  lt : ∀ digit ∈ digits, digit < radix
  some : digits ≠ []
  leading : digits.head? = .some 0 → digits = [0]
  value : Nat.ofDigits radix digits.reverse = value

def numeral (radix value : Nat) : List Nat :=
  if value = 0 then [0] else (Nat.digits radix value).reverse

variable {radix value : Nat}

theorem numeral_zero (radix : Nat) : numeral radix 0 = [0] := if_pos rfl

theorem numeral_of_ne_zero (radix : Nat) (nonzero : value ≠ 0) :
    numeral radix value = (Nat.digits radix value).reverse := if_neg nonzero

theorem numeral_spec (base : 1 < radix) (value : Nat) :
    Numeral radix value (numeral radix value) := by
  by_cases zero : value = 0
  · subst zero
    rw [numeral_zero]
    refine ⟨?_, List.cons_ne_nil _ _, fun _ => rfl, rfl⟩
    intro digit member
    rw [List.mem_singleton.mp member]
    omega
  · rw [numeral_of_ne_zero radix zero]
    have digits : Nat.digits radix value ≠ [] := Nat.digits_ne_nil_iff_ne_zero.mpr zero
    refine ⟨?_, ?_, ?_, ?_⟩
    · intro digit member
      exact Nat.digits_lt_base base (List.mem_reverse.mp member)
    · exact fun none => digits (List.reverse_eq_nil_iff.mp none)
    · intro leading
      rw [List.head?_reverse, List.getLast?_eq_some_getLast digits] at leading
      exact absurd (Option.some.inj leading) (Nat.getLast_digit_ne_zero radix zero)
    · rw [List.reverse_reverse, Nat.ofDigits_digits]

theorem Numeral.eq (base : 1 < radix) {digits : List Nat} (canonical : Numeral radix value digits) :
    digits = numeral radix value := by
  obtain ⟨lt, some, leading, same⟩ := canonical
  by_cases zero : digits.head? = .some 0
  · rw [leading zero] at same ⊢
    rw [← same]
    rfl
  · have last : ∀ nonempty : digits.reverse ≠ [], digits.reverse.getLast nonempty ≠ 0 := by
      intro nonempty final
      apply zero
      rw [List.getLast_reverse] at final
      rw [List.head?_eq_some_head some, final]
    have whole := Nat.digits_ofDigits radix base digits.reverse
      (fun digit member => lt digit (List.mem_reverse.mp member)) last
    rw [same] at whole
    have nonzero : value ≠ 0 := by
      intro zero
      rw [zero, Nat.digits_zero] at whole
      exact some (List.reverse_eq_nil_iff.mp whole.symm)
    rw [numeral_of_ne_zero radix nonzero, whole, List.reverse_reverse]

theorem length_numeral_le (base : 1 < radix) {width : Nat} (some : 0 < width)
    (small : value < radix ^ width) : (numeral radix value).length ≤ width := by
  by_cases zero : value = 0
  · rw [zero, numeral_zero]
    exact some
  · rw [numeral_of_ne_zero radix zero, List.length_reverse]
    exact (Nat.digits_length_le_iff base value).mpr small

theorem numeral_getElem {k : Nat} (base : 1 < radix) (nonzero : value ≠ 0)
    (inside : k < (numeral radix value).length) :
    (numeral radix value)[k] =
      value / radix ^ ((numeral radix value).length - 1 - k) % radix := by
  have length : (numeral radix value).length = (Nat.digits radix value).length := by
    rw [numeral_of_ne_zero radix nonzero, List.length_reverse]
  rw [← Nat.getD_digits value _ base, length]
  simp only [numeral_of_ne_zero radix nonzero, List.getElem_reverse]
  rw [List.getD_eq_getElem?_getD, List.getElem?_eq_getElem (by omega)]
  rfl

theorem lt_length_numeral_iff (base : 1 < radix) (nonzero : value ≠ 0) (k : Nat) :
    k < (numeral radix value).length ↔ radix ^ k ≤ value := by
  rw [numeral_of_ne_zero radix nonzero, List.length_reverse]
  exact Nat.lt_digits_length_iff base value

theorem ofDigits_padded (digits : List Nat) (zeros : Nat) :
    Nat.ofDigits radix (List.replicate zeros 0 ++ digits).reverse =
      Nat.ofDigits radix digits.reverse := by
  rw [List.reverse_append, List.reverse_replicate, Nat.ofDigits_append_replicate_zero]

end Ece391Os.Data
