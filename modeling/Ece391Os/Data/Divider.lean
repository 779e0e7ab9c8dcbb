import Mathlib.Data.Int.CardIntervalMod

namespace Ece391Os.Data

/-! Pulse trains, and the counter that divides a clock into one. -/

/-- Which ticks bring a pulse: the first pulse comes after `first` ticks, and from
then on every `period`-th tick is one. -/
def Strobe (first period : Nat) (ticks : List Bool) : Prop :=
  ∀ k (within : k < ticks.length), ticks[k] = true ↔ first ≤ k ∧ (k - first) % period = 0

theorem count_true_eq {bits : List Bool} (marked : Nat → Prop) [DecidablePred marked]
    (law : ∀ k (within : k < bits.length), bits[k] = true ↔ marked k) :
    bits.count true = Nat.count marked bits.length := by
  induction bits using List.reverseRecOn with
  | nil => simp
  | append_singleton shorter bit induction =>
      have earlier := induction fun k within => by
        rw [← law k (by simp; omega), List.getElem_append_left within]
      have last := law shorter.length (by simp)
      rw [List.getElem_concat_length rfl] at last
      rw [List.count_append, List.length_append, List.length_singleton, Nat.count_succ, earlier]
      by_cases set : marked shorter.length
      · rw [if_pos set, last.mpr set, List.count_singleton_self]
      · rw [if_neg set, List.count_singleton, if_neg (by simpa using fun up => set (last.mp up))]

namespace Strobe

variable {first period : Nat} {ticks : List Bool}

theorem nil (first period : Nat) : Strobe first period [] :=
  fun _ within => nomatch within

theorem snoc (strobe : Strobe first period ticks) {bit : Bool}
    (last : bit = true ↔ first ≤ ticks.length ∧ (ticks.length - first) % period = 0) :
    Strobe first period (ticks ++ [bit]) := by
  intro k within
  rw [List.length_append, List.length_singleton] at within
  by_cases early : k < ticks.length
  · rw [List.getElem_append_left early]
    exact strobe k early
  · obtain rfl : k = ticks.length := by omega
    rw [List.getElem_concat_length rfl]
    exact last

theorem count_multiples (positive : 0 < period) (offset periods : Nat) :
    Nat.count (fun k => (offset + k) % period = 0) (periods * period) = periods := by
  have shifted : ∀ k, (offset + k) % period = 0 ↔ k ≡ offset * (period - 1) [MOD period] := by
    intro k
    have multiple : offset + offset * (period - 1) = offset * period := by
      rw [Nat.add_comm, ← Nat.mul_add_one, Nat.sub_add_cancel positive]
    have zero : offset + offset * (period - 1) ≡ 0 [MOD period] := by
      rw [multiple]
      exact (Nat.modEq_zero_iff_dvd).mpr (Nat.dvd_mul_left ..)
    constructor
    · intro divides
      exact Nat.ModEq.add_left_cancel' offset
        ((show offset + k ≡ 0 [MOD period] from divides).trans zero.symm)
    · intro same
      exact (Nat.ModEq.add_left offset same).trans zero
  simp only [shifted]
  rw [Nat.count_modEq_card _ positive, Nat.mul_div_cancel _ positive, Nat.mul_mod_left,
    if_neg (Nat.not_lt_zero _), Nat.add_zero]

/-- Once the pulses have begun, every so many whole periods bring so many of them. -/
theorem count_window {before window after : List Bool} {periods : Nat}
    (strobe : Strobe first period (before ++ window ++ after)) (positive : 0 < period)
    (begun : first ≤ before.length) (whole : window.length = periods * period) :
    window.count true = periods := by
  rw [count_true_eq (fun k => (before.length - first + k) % period = 0), whole,
    count_multiples positive]
  intro k within
  have law := strobe (before.length + k) (by simp; omega)
  rw [List.getElem_append_left (by simp; omega), List.getElem_append_right (by omega)] at law
  simp only [Nat.add_sub_cancel_left] at law
  rw [law, show before.length + k - first = before.length - first + k by omega]
  exact and_iff_right (by omega)

end Strobe

/-! A counter that gives a pulse and starts again when it has counted a period. -/

namespace Divider

def reached (period count : Nat) : Prop := period ≤ count + 1

instance (period count : Nat) : Decidable (reached period count) :=
  inferInstanceAs (Decidable (_ ≤ _))

def next (period count : Nat) : Nat := if reached period count then 0 else count + 1

def first (period count : Nat) : Nat := period - 1 - count

theorem first_lt {period : Nat} (positive : 0 < period) (count : Nat) :
    first period count < period := by
  simp only [first]
  omega

theorem mod_succ (period n : Nat) (positive : 0 < period) :
    (n + 1) % period = if period ≤ n % period + 1 then 0 else n % period + 1 := by
  have small := Nat.mod_lt n positive
  rw [← Nat.mod_add_mod]
  split
  · rename_i last
    rw [show n % period + 1 = period by omega, Nat.mod_self]
  · rename_i inside
    exact Nat.mod_eq_of_lt (by omega)

theorem iterate_next {period : Nat} (positive : 0 < period) (count k : Nat) :
    (next period)^[k] count =
      if k ≤ first period count then count + k else (k - first period count - 1) % period := by
  induction k with
  | zero => rfl
  | succ k induction =>
      rw [Function.iterate_succ_apply', induction]
      by_cases counting : k + 1 ≤ first period count
      · rw [if_pos (by omega), if_pos counting, next, if_neg ?_, Nat.add_assoc]
        simp only [reached, first] at counting ⊢
        omega
      · rw [if_neg counting]
        by_cases last : k = first period count
        · rw [if_pos (by omega), next, if_pos ?_, last]
          · simp
          · simp only [reached]
            simp only [first] at last
            omega
        · rw [if_neg (by omega),
            show k + 1 - first period count - 1 = k - first period count - 1 + 1 by omega,
            mod_succ _ _ positive, next]
          rfl

theorem reached_iterate {period : Nat} (positive : 0 < period) (count k : Nat) :
    reached period ((next period)^[k] count) ↔
      first period count ≤ k ∧ (k - first period count) % period = 0 := by
  rw [iterate_next positive]
  by_cases counting : k ≤ first period count
  · rw [if_pos counting]
    constructor
    · intro done
      have here : k = first period count := by
        simp only [reached] at done
        simp only [first] at counting ⊢
        omega
      rw [here, Nat.sub_self]
      exact ⟨le_rfl, Nat.zero_mod _⟩
    · rintro ⟨above, -⟩
      simp only [reached]
      simp only [first] at above
      omega
  · have split : (k - first period count) % period = _ :=
      (congrArg (· % period)
        (show k - first period count = k - first period count - 1 + 1 by omega)).trans
        (mod_succ _ _ positive)
    rw [if_neg counting, split, and_iff_right (by omega : first period count ≤ k)]
    simp only [reached]
    constructor
    · intro done
      rw [if_pos done]
    · intro zero
      by_contra inside
      rw [if_neg inside] at zero
      omega

end Divider

end Ece391Os.Data
