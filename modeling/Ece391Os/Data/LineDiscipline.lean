import Mathlib.Data.List.DropRight

namespace Ece391Os.Data

/-! Lines between somebody who types and somebody who reads.  The typist edits a
text and ends it; the reader asks for a line, and is answered with the text once
it is ended. -/

structure LineDiscipline (Symbol : Type) where
  text : List Symbol
  complete : Bool
  waiting : Bool
  /-- The lines that were ended and not taken back, and the answers. -/
  completed : List (List Symbol)
  returned : List (List Symbol)

namespace LineDiscipline

variable {Symbol : Type} [DecidableEq Symbol] {ending : Symbol} {capacity : Nat}

def lastLine (ending : Symbol) (text : List Symbol) : List Symbol :=
  text.rtakeWhile (· ≠ ending)

def IsLine (ending : Symbol) (text : List Symbol) : Prop :=
  ∃ line, ending ∉ line ∧ text = line ++ [ending]

def held (ending : Symbol) (state : LineDiscipline Symbol) : List (List Symbol) :=
  if state.text.getLast? = some ending then [state.text] else []

/-- The steps of a disciplined pair.  The reader does not ask while a line is
there already, and the typist does not take back what the reader is about to get. -/
inductive Step (ending : Symbol) (capacity : Nat) (state : LineDiscipline Symbol) :
    LineDiscipline Symbol → Prop
  | idle : Step ending capacity state state
  | type (symbol : Symbol) (letter : symbol ≠ ending) (room : state.text.length < capacity)
      (incomplete : state.complete = false) :
      Step ending capacity state { state with text := state.text ++ [symbol] }
  | erase {rest : List Symbol} {symbol : Symbol} (last : state.text = rest ++ [symbol])
      (calm : ¬ (state.waiting = true ∧ state.complete = true)) :
      Step ending capacity state { state with
        text := rest
        completed := if symbol = ending then state.completed.dropLast else state.completed }
  | enter (incomplete : state.complete = false) :
      Step ending capacity state { state with
        text := state.text ++ [ending]
        complete := true
        completed := state.completed ++ [lastLine ending state.text ++ [ending]] }
  | ask (fresh : state.text.getLast? ≠ some ending) :
      Step ending capacity state { state with complete := false, waiting := true }
  | answer (waits : state.waiting = true) (ended : state.complete = true) :
      Step ending capacity state { state with
        text := []
        waiting := false
        returned := state.returned ++ [state.text] }

theorem Step.stay {state next : LineDiscipline Symbol} (same : next = state) :
    Step ending capacity state next := by
  subst same
  exact .idle

/-- Every answer is one line, and the lines are the answers, followed by the one
that waits to be read. -/
structure Accounts (ending : Symbol) (state : LineDiscipline Symbol) : Prop where
  oneLine : ∀ answer ∈ state.returned, IsLine ending answer
  eachOnce : state.completed = state.returned ++ state.held ending

structure Invariant (ending : Symbol) (capacity : Nat) (state : LineDiscipline Symbol) :
    Prop extends Accounts ending state where
  text : (ending ∉ state.text ∧ state.text.length ≤ capacity) ∨
    (IsLine ending state.text ∧ state.text.length ≤ capacity + 1 ∧ state.complete = true)
  ready : state.waiting = true → state.complete = true → IsLine ending state.text

theorem lastLine_eq {text : List Symbol} (none : ending ∉ text) :
    lastLine ending text = text := by
  apply List.rtakeWhile_eq_self_iff.mpr
  intro symbol member
  exact decide_eq_true fun same => none (same ▸ member)

theorem held_of_notMem {state : LineDiscipline Symbol} (none : ending ∉ state.text) :
    state.held ending = [] := by
  refine if_neg fun last => none ?_
  exact List.mem_of_getLast? last

theorem held_of_isLine {state : LineDiscipline Symbol} (line : IsLine ending state.text) :
    state.held ending = [state.text] := by
  obtain ⟨rest, _, text⟩ := line
  rw [held, text, List.getLast?_concat, if_pos rfl]

theorem Invariant.start (complete waiting : Bool) (calm : ¬ (waiting = true ∧ complete = true)) :
    Invariant ending capacity (⟨[], complete, waiting, [], []⟩ : LineDiscipline Symbol) where
  oneLine := fun _ member => absurd member List.not_mem_nil
  eachOnce := rfl
  text := .inl ⟨List.not_mem_nil, Nat.zero_le capacity⟩
  ready := fun waits ended => absurd ⟨waits, ended⟩ calm

theorem Invariant.open_text {state : LineDiscipline Symbol}
    (invariant : Invariant ending capacity state) (incomplete : state.complete = false) :
    ending ∉ state.text ∧ state.text.length ≤ capacity := by
  rcases invariant.text with opened | ⟨_, _, complete⟩
  · exact opened
  · rw [incomplete] at complete
    cases complete

/-- Nothing is held once the last symbol is taken back: it was a letter, or the
end of the one line there was. -/
theorem Invariant.erased {state : LineDiscipline Symbol} {rest : List Symbol} {symbol : Symbol}
    (invariant : Invariant ending capacity state) (last : state.text = rest ++ [symbol])
    (calm : ¬ (state.waiting = true ∧ state.complete = true)) :
    Invariant ending capacity { state with
      text := rest
      completed := if symbol = ending then state.completed.dropLast else state.completed } := by
  have ready : state.waiting = true → state.complete = true → IsLine ending rest :=
    fun waits ended => absurd ⟨waits, ended⟩ calm
  have kept := invariant.eachOnce
  rcases invariant.text with ⟨none, short⟩ | ⟨line, short, complete⟩
  · rw [held_of_notMem none] at kept
    rw [last] at none short
    simp only [List.mem_append, List.mem_singleton, not_or] at none
    refine ⟨⟨invariant.oneLine, ?_⟩, .inl ⟨none.1, ?_⟩, ready⟩
    · rw [if_neg fun same => none.2 same.symm, held_of_notMem none.1, kept]
    · rw [List.length_append] at short
      exact Nat.le_of_add_right_le short
  · rw [held_of_isLine line] at kept
    obtain ⟨before, none, text⟩ := line
    obtain ⟨rfl, same⟩ := List.append_inj' (last.symm.trans text) rfl
    obtain rfl := List.singleton_inj.mp same
    refine ⟨⟨invariant.oneLine, ?_⟩, .inl ⟨none, ?_⟩, ready⟩
    · rw [if_pos rfl, held_of_notMem none, kept, List.dropLast_concat, List.append_nil]
    · rw [text, List.length_append, List.length_singleton] at short
      exact Nat.le_of_add_le_add_right short

theorem Invariant.step {state next : LineDiscipline Symbol}
    (invariant : Invariant ending capacity state) (step : Step ending capacity state next) :
    Invariant ending capacity next := by
  cases step with
  | idle => exact invariant
  | type symbol letter room incomplete =>
      obtain ⟨none, short⟩ := invariant.open_text incomplete
      have still : ending ∉ state.text ++ [symbol] := by
        simp [none, letter.symm]
      refine ⟨⟨invariant.oneLine, ?_⟩, .inl ⟨still, ?_⟩, ?_⟩
      · rw [held_of_notMem still, invariant.eachOnce, held_of_notMem none]
      · rw [List.length_append, List.length_singleton]
        exact room
      · intro _ complete
        rw [incomplete] at complete
        cases complete
  | erase last calm => exact invariant.erased last calm
  | enter incomplete =>
      obtain ⟨none, short⟩ := invariant.open_text incomplete
      have line : IsLine ending (state.text ++ [ending]) := ⟨state.text, none, rfl⟩
      refine ⟨⟨invariant.oneLine, ?_⟩, .inr ⟨line, ?_, rfl⟩, fun _ _ => line⟩
      · rw [held_of_isLine line, lastLine_eq none, invariant.eachOnce, held_of_notMem none,
          List.append_nil]
      · rw [List.length_append, List.length_singleton]
        exact Nat.succ_le_succ short
  | ask fresh =>
      have opened : ending ∉ state.text ∧ state.text.length ≤ capacity := by
        rcases invariant.text with opened | ⟨⟨rest, _, text⟩, _⟩
        · exact opened
        · rw [text, List.getLast?_concat] at fresh
          exact absurd rfl fresh
      refine ⟨⟨invariant.oneLine, invariant.eachOnce⟩, .inl opened, ?_⟩
      intro _ complete
      cases complete
  | answer waits ended =>
      have line := invariant.ready waits ended
      refine ⟨⟨?_, ?_⟩, .inl ⟨List.not_mem_nil, Nat.zero_le capacity⟩, ?_⟩
      · intro answer member
        rcases List.mem_append.mp member with before | last
        · exact invariant.oneLine answer before
        · rw [List.mem_singleton.mp last]
          exact line
      · rw [invariant.eachOnce, held_of_isLine line]
        exact (List.append_nil _).symm
      · intro waiting
        cases waiting

end LineDiscipline

end Ece391Os.Data
