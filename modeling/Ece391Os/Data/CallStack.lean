import Mathlib.Data.List.Nodup
import Mathlib.Logic.Function.Basic

namespace Ece391Os.Data

/-! Call stacks.  Each host runs the youngest callee of its own stack; every other
waits for the one above it to return. -/

inductive Move (Host Name : Type) where
  | call (host : Host) (callee : Name)
  | leave (host : Host)
  | stay

namespace Move

variable {Host Name : Type} [DecidableEq Host]

def apply (chains : Host → List Name) : Move Host Name → Host → List Name
  | .call host callee => Function.update chains host (callee :: chains host)
  | .leave host => Function.update chains host (chains host).tail
  | .stay => chains

/-- What a move needs: a callee that is on no stack, or a caller to return to. -/
inductive Fits (chains : Host → List Name) : Move Host Name → Prop
  | call {host : Host} {callee : Name} (fresh : ∀ other, callee ∉ chains other) :
      Fits chains (.call host callee)
  | leave {host : Host} {callee caller : Name} {older : List Name}
      (top : chains host = callee :: caller :: older) : Fits chains (.leave host)
  | stay : Fits chains .stay

structure Distinct (chains : Host → List Name) : Prop where
  nodup : ∀ host, (chains host).Nodup
  apart : ∀ host other, host ≠ other → ∀ name ∈ chains host, name ∉ chains other

variable {chains : Host → List Name} {host : Host} {callee : Name}
  {above below : List Name} {move : Move Host Name}

theorem Distinct.host_eq (distinct : Distinct chains) {other : Host}
    (left : callee ∈ chains host) (right : callee ∈ chains other) : host = other := by
  by_contra different
  exact distinct.apart host other different callee left right

theorem mem_of_mem_apply {other : Host} {name : Name}
    (present : name ∈ move.apply chains other) :
    name ∈ chains other ∨ move = .call other name := by
  cases move with
  | stay => exact .inl present
  | call target fresh =>
      by_cases here : other = target
      · subst here
        rw [apply, Function.update_self] at present
        rcases List.mem_cons.mp present with rfl | older
        · exact .inr rfl
        · exact .inl older
      · rw [apply, Function.update_of_ne here] at present
        exact .inl present
  | leave target =>
      by_cases here : other = target
      · subst here
        rw [apply, Function.update_self] at present
        exact .inl (List.mem_of_mem_tail present)
      · rw [apply, Function.update_of_ne here] at present
        exact .inl present

/-- Below a callee that stays nothing moves. -/
theorem Fits.keeps_below (fits : Fits chains move) (distinct : Distinct chains)
    (shape : chains host = above ++ callee :: below) {other : Host}
    (stays : callee ∈ move.apply chains other) :
    ∃ newer, move.apply chains host = newer ++ callee :: below := by
  have inside : callee ∈ chains host := by simp [shape]
  cases fits with
  | stay => exact ⟨above, shape⟩
  | @call target newcomer fresh =>
      by_cases here : host = target
      · subst here
        exact ⟨newcomer :: above, by rw [apply, Function.update_self, shape]; rfl⟩
      · exact ⟨above, by rw [apply, Function.update_of_ne here, shape]⟩
  | @leave target top caller older full =>
      by_cases here : host = target
      · subst here
        rcases above with _ | ⟨youngest, newer⟩
        · -- Here `callee` itself would leave, and it stands on no other stack.
          rcases mem_of_mem_apply stays with before | called
          · obtain rfl := distinct.host_eq inside before
            rw [apply, Function.update_self, shape] at stays
            have nodup := distinct.nodup host
            rw [shape] at nodup
            exact absurd stays (List.nodup_cons.mp nodup).1
          · cases called
        · exact ⟨newer, by rw [apply, Function.update_self, shape]; rfl⟩
      · exact ⟨above, by rw [apply, Function.update_of_ne here, shape]⟩

theorem Fits.uncovers (fits : Fits chains move)
    (shape : chains host = above ++ callee :: below)
    (gone : callee ∉ move.apply chains host) :
    move = .leave host ∧ chains host = callee :: below ∧
      move.apply chains = Function.update chains host below := by
  have inside : callee ∈ chains host := by simp [shape]
  cases fits with
  | stay => exact absurd inside gone
  | @call target newcomer fresh =>
      refine absurd ?_ gone
      by_cases here : host = target
      · subst here
        rw [apply, Function.update_self]
        exact List.mem_cons_of_mem _ inside
      · rwa [apply, Function.update_of_ne here]
  | @leave target top caller older full =>
      by_cases here : host = target
      · subst here
        cases above with
        | nil => exact ⟨rfl, shape, by rw [apply, shape]; rfl⟩
        | cons youngest rest =>
            refine absurd ?_ gone
            rw [apply, Function.update_self, shape]
            simp
      · exact absurd (by rwa [apply, Function.update_of_ne here]) gone

theorem Distinct.waits (distinct : Distinct chains)
    (shape : chains host = above ++ callee :: below) {name : Name} (under : name ∈ below)
    (other : Host) : (chains other).head? ≠ some name := by
  intro top
  have inside : name ∈ chains host := by simp [shape, under]
  obtain rfl := distinct.host_eq inside (List.mem_of_head? top)
  have nodup := distinct.nodup host
  rw [shape] at nodup top
  cases above with
  | nil =>
      obtain rfl := Option.some.inj top
      exact (List.nodup_cons.mp nodup).1 under
  | cons youngest rest =>
      obtain rfl := Option.some.inj top
      exact (List.nodup_cons.mp nodup).1 (by simp [under])

end Move

end Ece391Os.Data
