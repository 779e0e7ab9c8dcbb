import Ece391Os.Kernel.State

namespace Ece391Os

open Data

/-! `strncmp` and `strncpy` of `lib.c` over the memory their pointers see. -/

/-- A byte read through an `int8_t` pointer. -/
def signedByte (byte : UInt8) : Int :=
  if byte.toNat < 128 then byte.toNat else (byte.toNat : Int) - 256

def strncmpFrom (s1 s2 : Memory) (i : Nat) : Nat → Int
  | 0 => 0
  | remaining + 1 =>
      if s1 i ≠ s2 i ∨ s1 i = 0 then signedByte (s1 i) - signedByte (s2 i)
      else strncmpFrom s1 s2 (i + 1) remaining

def strncmp (s1 s2 : Memory) (n : Nat) : Int := strncmpFrom s1 s2 0 n

def strncpyPad (i : Nat) : Nat → Memory → Memory
  | 0, dest => dest
  | remaining + 1, dest =>
      strncpyPad (i + 1) remaining (Function.update dest i 0)

/-- The first loop of `strncpy`, entering the second at the terminator. -/
def strncpyFrom (src : Memory) (i : Nat) : Nat → Memory → Memory
  | 0, dest => dest
  | remaining + 1, dest =>
      if src i = 0 then strncpyPad i (remaining + 1) dest
      else strncpyFrom src (i + 1) remaining (Function.update dest i (src i))

def strncpy (dest src : Memory) (n : Nat) : Memory := strncpyFrom src 0 n dest

theorem signedByte_injective : Function.Injective signedByte := by
  intro left right equal
  have leftBound : left.toNat < 256 := left.toNat_lt
  have rightBound : right.toNat < 256 := right.toNat_lt
  simp only [signedByte] at equal
  apply UInt8.toNat_inj.mp
  split at equal <;> split at equal <;> omega

/-- `strncmpFrom` answers zero exactly when the strings agree up to the first
terminator or the end of the window. -/
theorem strncmpFrom_eq_zero (s1 s2 : Memory) (i n : Nat) :
    strncmpFrom s1 s2 i n = 0 ↔
      ∀ k < n, (∀ j < k, s1 (i + j) ≠ 0) → s1 (i + k) = s2 (i + k) := by
  induction n generalizing i with
  | zero => simp [strncmpFrom]
  | succ n induction =>
      simp only [strncmpFrom]
      split
      · rename_i stop
        constructor
        · intro equal k kBound clear
          have same : s1 i = s2 i :=
            signedByte_injective (by omega)
          have ends : s1 i = 0 := stop.resolve_left (not_not_intro same)
          cases k with
          | zero => simpa using same
          | succ k => exact absurd (by simpa using ends) (clear 0 (by omega))
        · intro agree
          have same := agree 0 (by omega) (by simp)
          simp only [Nat.add_zero] at same
          rw [same]
          omega
      · rename_i go
        simp only [not_or, not_not] at go
        rw [induction]
        constructor
        · intro agree k kBound clear
          cases k with
          | zero => simpa using go.1
          | succ k =>
              have shifted := agree k (by omega) (fun j jBound => by
                have := clear (j + 1) (by omega)
                rwa [Nat.add_right_comm, Nat.add_assoc] )
              rwa [Nat.add_right_comm, Nat.add_assoc] at shifted
        · intro agree k kBound clear
          have shifted := agree (k + 1) (by omega) (fun j jBound => by
            cases j with
            | zero => simpa using go.2
            | succ j =>
                have := clear j (by omega)
                rwa [Nat.add_right_comm, Nat.add_assoc] at this)
          rwa [← Nat.add_assoc, Nat.add_right_comm] at shifted

theorem strncmp_eq_zero (s1 s2 : Memory) (n : Nat) :
    strncmp s1 s2 n = 0 ↔
      ∀ k < n, (∀ j < k, s1 j ≠ 0) → s1 k = s2 k := by
  simpa [strncmp] using strncmpFrom_eq_zero s1 s2 0 n

namespace CString

variable {string : CString} {k : Nat}

theorem memory_eq (inside : k < string.bytes.length) : string.memory k = string.bytes[k] := by
  simp [memory, inside]

theorem memory_ne_zero (inside : k < string.strlen) : string.memory k ≠ 0 := by
  rw [memory_eq inside]
  exact string.nonzero _ (List.getElem_mem inside)

theorem memory_strlen (string : CString) : string.memory string.strlen = 0 := by
  simp [memory, strlen]

end CString

theorem strncmp_strlen_eq_zero (name other : CString) :
    strncmp name.memory other.memory name.strlen = 0 ↔ name.bytes <+: other.bytes := by
  rw [strncmp_eq_zero, List.prefix_iff_getElem?]
  constructor
  · intro agree k bound
    have nonzero := CString.memory_ne_zero bound
    have same := agree k bound fun j before =>
      CString.memory_ne_zero (Nat.lt_trans before bound)
    rw [same] at nonzero
    rw [← CString.memory_eq bound, same]
    simp only [CString.memory, List.getD_eq_getElem?_getD] at nonzero ⊢
    cases read : other.bytes[k]? with
    | none => simp [read] at nonzero
    | some value => rfl
  · intro agree k bound _
    have same := agree k bound
    rw [CString.memory_eq bound, CString.memory, List.getD_eq_getElem?_getD, same]
    rfl

theorem strncpyPad_apply (i n : Nat) (dest : Memory) (k : Nat) :
    strncpyPad i n dest k = if i ≤ k ∧ k < i + n then 0 else dest k := by
  induction n generalizing i dest with
  | zero =>
      simp only [strncpyPad]
      rw [if_neg (by omega)]
  | succ n induction =>
      rw [strncpyPad, induction]
      by_cases here : k = i
      · subst here
        rw [if_neg (by omega), if_pos (by omega), Function.update_self]
      · rw [Function.update_of_ne here]
        by_cases inside : i + 1 ≤ k ∧ k < i + 1 + n
        · rw [if_pos inside, if_pos (by omega)]
        · rw [if_neg inside, if_neg (by omega)]

def padded (src : Memory) (k : Nat) : UInt8 :=
  if ∃ j < k + 1, src j = 0 then 0 else src k

theorem strncpyFrom_apply (src : Memory) (i n : Nat) (dest : Memory)
    (clear : ∀ j < i, src j ≠ 0) (k : Nat) :
    strncpyFrom src i n dest k =
      if i ≤ k ∧ k < i + n then padded src k else dest k := by
  induction n generalizing i dest with
  | zero =>
      simp only [strncpyFrom]
      rw [if_neg (by omega)]
  | succ n induction =>
      simp only [strncpyFrom]
      split
      · rename_i ends
        rw [strncpyPad_apply]
        by_cases inside : i ≤ k ∧ k < i + (n + 1)
        · rw [if_pos inside, if_pos inside, padded,
            if_pos ⟨i, by omega, ends⟩]
        · rw [if_neg inside, if_neg inside]
      · rename_i goes
        have clearNext : ∀ j < i + 1, src j ≠ 0 := by
          intro j jBound
          rcases Nat.lt_succ_iff_lt_or_eq.mp jBound with before | rfl
          · exact clear j before
          · exact goes
        rw [induction (i + 1) _ clearNext]
        by_cases here : k = i
        · subst here
          have none : ¬ ∃ j < k + 1, src j = 0 := by
            rintro ⟨j, jBound, ends⟩
            exact clearNext j jBound ends
          rw [if_neg (by omega), if_pos (by omega), Function.update_self,
            padded, if_neg none]
        · rw [Function.update_of_ne here]
          by_cases inside : i + 1 ≤ k ∧ k < i + 1 + n
          · rw [if_pos inside, if_pos (by omega)]
          · rw [if_neg inside, if_neg (by omega)]

theorem strncpy_apply (dest src : Memory) (n k : Nat) :
    strncpy dest src n k = if k < n then padded src k else dest k := by
  rw [strncpy, strncpyFrom_apply src 0 n dest (by simp)]
  simp

end Ece391Os
