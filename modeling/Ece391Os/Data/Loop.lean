import Mathlib.Logic.Relation

namespace Ece391Os.Data

/-! Loops that are not known to end, run with fuel. -/

section Loop

variable {State Result : Type}

/-- Take turns until there is none left to take.  Without the fuel for that there is
no result. -/
def loop (next : State → Option State) : Nat → State → Option State
  | 0, _ => none
  | fuel + 1, state =>
      match next state with
      | none => some state
      | some later => loop next fuel later

/-- What a program returns whenever its fuel is enough. -/
def Returns (program : Nat → Option Result) (result : Result) : Prop :=
  ∃ enough, ∀ fuel, enough ≤ fuel → program fuel = some result

namespace Returns

variable {Final : Type} {program : Nat → Option Result} {result : Result}

theorem pure (result : Result) : Returns (fun _ => some result) result :=
  ⟨0, fun _ _ => rfl⟩

theorem bind {rest : Nat → Result → Option Final} {final : Final}
    (first : Returns program result) (second : Returns (fun fuel => rest fuel result) final) :
    Returns (fun fuel => (program fuel).bind (rest fuel)) final := by
  obtain ⟨enough, returns⟩ := first
  obtain ⟨more, continues⟩ := second
  refine ⟨max enough more, fun fuel sufficient => ?_⟩
  simp only [returns fuel (Nat.le_trans (Nat.le_max_left ..) sufficient), Option.bind_some]
  exact continues fuel (Nat.le_trans (Nat.le_max_right ..) sufficient)

theorem map (f : Result → Final) (returns : Returns program result) :
    Returns (fun fuel => (program fuel).map f) (f result) := by
  obtain ⟨enough, returns⟩ := returns
  refine ⟨enough, fun fuel sufficient => ?_⟩
  simp only [returns fuel sufficient, Option.map_some]

theorem succ {spent : Nat → Option Result} (returns : Returns program result)
    (same : ∀ fuel, spent (fuel + 1) = program fuel) : Returns spent result := by
  obtain ⟨enough, returns⟩ := returns
  refine ⟨enough + 1, fun fuel sufficient => ?_⟩
  obtain ⟨fuel, rfl⟩ : ∃ less, fuel = less + 1 := ⟨fuel - 1, by omega⟩
  rw [same]
  exact returns fuel (by omega)

end Returns

/-! Turns of a loop. -/

def Steps (next : State → Option State) : State → State → Prop :=
  Relation.ReflTransGen fun state later => next state = some later

variable {next : State → Option State} {state middle later : State}

theorem Steps.refl (state : State) : Steps next state state := Relation.ReflTransGen.refl

theorem Steps.one (turn : next state = some later) : Steps next state later :=
  Relation.ReflTransGen.single turn

theorem Steps.trans (first : Steps next state middle) (second : Steps next middle later) :
    Steps next state later :=
  Relation.ReflTransGen.trans first second

theorem Steps.rounds (next : State → Option State) (holds : Nat → State → Prop) (n : Nat)
    (state : State) (start : holds 0 state)
    (turn : ∀ k < n, ∀ state, holds k state → ∃ later, next state = some later ∧
      holds (k + 1) later) :
    ∃ later, Steps next state later ∧ holds n later := by
  induction n with
  | zero => exact ⟨state, .refl state, start⟩
  | succ n induction =>
      obtain ⟨middle, before, reached⟩ := induction fun k below => turn k (by omega)
      obtain ⟨later, last, done⟩ := turn n (Nat.lt_succ_self n) middle reached
      exact ⟨later, before.trans (.one last), done⟩

theorem Steps.returns (steps : Steps next state later) (ends : next later = none) :
    Returns (fun fuel => loop next fuel state) later := by
  induction steps using Relation.ReflTransGen.head_induction_on with
  | refl =>
      apply Returns.succ (.pure later)
      intro fuel
      simp only [loop, ends]
  | head turn _ induction =>
      apply Returns.succ induction
      intro fuel
      simp only [loop, turn]

end Loop

end Ece391Os.Data
