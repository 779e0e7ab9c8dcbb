import Mathlib.Data.List.Chain
import Mathlib.Data.List.Nodup
import Mathlib.Logic.Function.Iterate

namespace Ece391Os.Data

/-! Disjoint chains in a parent map.  Each chain lists an element, its parent,
the parent of that, and so on down to a root of its own; it grows and shrinks
at its youngest element. -/

structure Forest (parent : α → α) (root : ι → α) (chains : ι → List α) : Prop where
  linked : ∀ i, (chains i).IsChain fun child next => parent child = next
  ends : ∀ i, (chains i).getLast? = some (root i)
  nodup : ∀ i, (chains i).Nodup
  disjoint : ∀ i j, i ≠ j → ∀ member ∈ chains i, member ∉ chains j

namespace Forest

variable {α ι : Type} {parent : α → α} {root : ι → α} {chains : ι → List α}

theorem root_mem (forest : Forest parent root chains) (i : ι) :
    root i ∈ chains i :=
  List.mem_of_getLast? (forest.ends i)

theorem eq_of_mem (forest : Forest parent root chains) {i j : ι} {member : α}
    (left : member ∈ chains i) (right : member ∈ chains j) : i = j := by
  by_contra different
  exact forest.disjoint i j different member left right

theorem nodup_append {root : Fin 3 → α} {chains : Fin 3 → List α}
    (forest : Forest parent root chains) :
    (chains 0 ++ chains 1 ++ chains 2).Nodup := by
  have apart {i j : Fin 3} (different : i ≠ j) : (chains i).Disjoint (chains j) :=
    fun member left right => forest.disjoint i j different member left right
  refine List.nodup_append'.mpr ⟨?_, forest.nodup 2, ?_⟩
  · exact List.nodup_append'.mpr ⟨forest.nodup 0, forest.nodup 1, apart (by decide)⟩
  · exact List.disjoint_append_left.mpr ⟨apart (by decide), apart (by decide)⟩

theorem tail_eq (forest : Forest parent root chains) {i : ι} {child : α}
    {rest : List α} (top : chains i = child :: rest) (young : child ≠ root i) :
    ∃ older, rest = parent child :: older := by
  have linked := forest.linked i
  have ends := forest.ends i
  rw [top] at linked ends
  cases rest with
  | nil => exact absurd (Option.some.inj ends) young
  | cons next older =>
      obtain rfl := (List.isChain_cons_cons.mp linked).1
      exact ⟨older, rfl⟩

theorem parent_mem (forest : Forest parent root chains) {i : ι} {member : α}
    (inside : member ∈ chains i) (young : member ≠ root i) :
    parent member ∈ chains i := by
  have linked := forest.linked i
  have ends := forest.ends i
  generalize chains i = chain at inside linked ends
  induction chain with
  | nil => simp at inside
  | cons head tail induction =>
      cases tail with
      | nil =>
          obtain rfl := List.mem_singleton.mp inside
          exact absurd (Option.some.inj ends) young
      | cons next older =>
          obtain ⟨link, linkedTail⟩ := List.isChain_cons_cons.mp linked
          rcases List.mem_cons.mp inside with rfl | later
          · simp [link]
          · have endsTail : (next :: older).getLast? = some (root i) := by
              simpa [List.getLast?_cons_cons] using ends
            exact List.mem_cons_of_mem _ (induction later linkedTail endsTail)

theorem reaches (forest : Forest parent root chains) {i : ι} {head : α}
    (top : (chains i).head? = some head) : ∃ steps, parent^[steps] head = root i := by
  have linked := forest.linked i
  have ends := forest.ends i
  generalize chains i = chain at top linked ends
  induction chain generalizing head with
  | nil => simp at top
  | cons first rest induction =>
      obtain rfl : first = head := Option.some.inj top
      cases rest with
      | nil => exact ⟨0, Option.some.inj ends⟩
      | cons next older =>
          obtain ⟨link, linkedTail⟩ := List.isChain_cons_cons.mp linked
          have endsTail : (next :: older).getLast? = some (root i) := by
            simpa [List.getLast?_cons_cons] using ends
          obtain ⟨steps, arrived⟩ := induction rfl linkedTail endsTail
          exact ⟨steps + 1, by rw [Function.iterate_succ_apply, link, arrived]⟩

theorem congr {parent' : α → α} (forest : Forest parent root chains)
    (same : ∀ i, ∀ member ∈ chains i, parent' member = parent member) :
    Forest parent' root chains where
  linked := fun i => (forest.linked i).imp_of_mem_imp fun child next inside _ link => by
    rw [same i child inside, link]
  ends := forest.ends
  nodup := forest.nodup
  disjoint := forest.disjoint

variable [DecidableEq ι]

theorem push {parent' : α → α} (forest : Forest parent root chains) {i : ι}
    {child head : α} (top : (chains i).head? = some head)
    (link : parent' child = head) (fresh : ∀ j, child ∉ chains j)
    (same : ∀ j, ∀ member ∈ chains j, parent' member = parent member) :
    Forest parent' root (Function.update chains i (child :: chains i)) := by
  have old := forest.congr same
  refine ⟨
    (Function.forall_update_iff chains fun _ chain =>
      chain.IsChain fun child next => parent' child = next).mpr
        ⟨?_, fun j _ => old.linked j⟩,
    (Function.forall_update_iff chains fun j chain =>
      chain.getLast? = some (root j)).mpr ⟨?_, fun j _ => old.ends j⟩,
    (Function.forall_update_iff chains fun _ chain => chain.Nodup).mpr
      ⟨?_, fun j _ => old.nodup j⟩, ?_⟩
  · refine (old.linked i).cons fun next atHead => ?_
    rw [top] at atHead
    exact link.trans (Option.some.inj atHead)
  · rw [List.getLast?_cons, old.ends i]
    rfl
  · exact List.nodup_cons.mpr ⟨fresh i, old.nodup i⟩
  · intro j k different member inside other
    by_cases left : j = i
    · subst left
      rw [Function.update_self] at inside
      rw [Function.update_of_ne (Ne.symm different)] at other
      rcases List.mem_cons.mp inside with rfl | older
      · exact fresh k other
      · exact old.disjoint j k different member older other
    · rw [Function.update_of_ne left] at inside
      by_cases right : k = i
      · subst right
        rw [Function.update_self] at other
        rcases List.mem_cons.mp other with rfl | older
        · exact fresh j inside
        · exact old.disjoint j k different member inside older
      · rw [Function.update_of_ne right] at other
        exact old.disjoint j k different member inside other

theorem pop (forest : Forest parent root chains) {i : ι} {child next : α}
    {older : List α} (top : chains i = child :: next :: older) :
    Forest parent root (Function.update chains i (next :: older)) := by
  have subset : ∀ j, ∀ member ∈ Function.update chains i (next :: older) j,
      member ∈ chains j := by
    intro j member inside
    by_cases here : j = i
    · subst here
      rw [Function.update_self] at inside
      rw [top]
      exact List.mem_cons_of_mem _ inside
    · rwa [Function.update_of_ne here] at inside
  refine ⟨
    (Function.forall_update_iff chains fun _ chain =>
      chain.IsChain fun child next => parent child = next).mpr
        ⟨?_, fun j _ => forest.linked j⟩,
    (Function.forall_update_iff chains fun j chain =>
      chain.getLast? = some (root j)).mpr ⟨?_, fun j _ => forest.ends j⟩,
    (Function.forall_update_iff chains fun _ chain => chain.Nodup).mpr
      ⟨?_, fun j _ => forest.nodup j⟩, ?_⟩
  · have linked := forest.linked i
    rw [top] at linked
    exact (List.isChain_cons_cons.mp linked).2
  · have ends := forest.ends i
    rw [top, List.getLast?_cons_cons] at ends
    exact ends
  · have nodup := forest.nodup i
    rw [top] at nodup
    exact (List.nodup_cons.mp nodup).2
  · intro j k different member inside other
    exact forest.disjoint j k different member (subset j member inside)
      (subset k member other)

end Forest

theorem countP_switch {α : Type} {before after : α → Bool} {list : List α} {switched : α}
    (nodup : list.Nodup) (inside : switched ∈ list) (off : before switched = false)
    (on : after switched = true)
    (same : ∀ other ∈ list, other ≠ switched → after other = before other) :
    list.countP after = list.countP before + 1 := by
  induction list with
  | nil => simp at inside
  | cons head tail induction =>
      obtain ⟨fresh, nodupTail⟩ := List.nodup_cons.mp nodup
      rw [List.countP_cons, List.countP_cons]
      by_cases here : head = switched
      · subst here
        have untouched : tail.countP after = tail.countP before :=
          List.countP_congr fun other member => by
            rw [same other (List.mem_cons_of_mem _ member) (by rintro rfl; exact fresh member)]
        simp [untouched, off, on]
      · have later : switched ∈ tail := by
          rcases List.mem_cons.mp inside with rfl | later
          · exact absurd rfl here
          · exact later
        rw [induction nodupTail later fun other member =>
            same other (List.mem_cons_of_mem _ member),
          same head List.mem_cons_self here]
        omega

end Ece391Os.Data
