import Mathlib.Data.List.Basic

namespace Ece391Os.Data

/-! Runs of a deterministic labelled system whose steps may be refused. -/

structure Transition (State Event Reply : Type) where
  before : State
  event : Event
  reply : Reply
  after : State

section Runs

variable {State Event Reply : Type}
  {step : State → Event → Option (State × Reply)}

inductive Run (step : State → Event → Option (State × Reply)) :
    State → List (Transition State Event Reply) → State → Prop
  | nil (start : State) : Run step start [] start
  | snoc {start state next : State} {event : Event} {reply : Reply}
      {trace : List (Transition State Event Reply)}
      (before : Run step start trace state)
      (fired : step state event = some (next, reply)) :
      Run step start (trace ++ [⟨state, event, reply, next⟩]) next

namespace Run

theorem invariant (holds : State → Prop)
    (preserved : ∀ {state next event reply}, holds state →
      step state event = some (next, reply) → holds next)
    (run : Run step start trace state) (initially : holds start) :
    holds state := by
  induction run with
  | nil => exact initially
  | snoc _ fired induction => exact preserved induction fired

/-- The same for runs that keep to a condition on each step: what such steps
preserve holds wherever the run has been. -/
theorem guarded (holds : State → Prop) (allowed : State → Event → Prop)
    (preserved : ∀ {state next event reply}, holds state → allowed state event →
      step state event = some (next, reply) → holds next)
    (run : Run step start trace state) (initially : holds start)
    (within : ∀ transition ∈ trace, allowed transition.before transition.event) :
    holds state ∧ ∀ transition ∈ trace, holds transition.before := by
  induction run with
  | nil => exact ⟨initially, fun _ member => nomatch member⟩
  | snoc _ fired induction =>
      obtain ⟨here, earlier⟩ := induction fun transition member =>
        within transition (List.mem_append_left _ member)
      refine ⟨preserved here (within _ List.mem_concat_self) fired, ?_⟩
      intro transition member
      rcases List.mem_append.mp member with before | last
      · exact earlier transition before
      · obtain rfl := List.mem_singleton.mp last
        exact here

theorem last_holds (holds : State → Prop) (run : Run step start trace state)
    (initially : holds start) (after : ∀ transition ∈ trace, holds transition.after) :
    holds state := by
  cases run with
  | nil => exact initially
  | snoc before fired => exact after _ List.mem_concat_self

/-- A condition that is exactly what each step needs to preserve a property is
what the property needs to hold after every step. -/
theorem kept_iff (holds : State → Prop) (allowed : State → Event → Prop)
    (run : Run step start trace state) (initially : holds start)
    (preserves : ∀ transition ∈ trace, holds transition.before →
      (holds transition.after ↔ allowed transition.before transition.event)) :
    (∀ transition ∈ trace, holds transition.after) ↔
      ∀ transition ∈ trace, allowed transition.before transition.event := by
  induction run with
  | nil => simp
  | snoc before fired induction =>
      have earlier := induction fun transition member =>
        preserves transition (List.mem_append_left _ member)
      have last := preserves _ List.mem_concat_self
      rw [List.forall_mem_append, List.forall_mem_append, List.forall_mem_singleton,
        List.forall_mem_singleton, ← earlier]
      constructor
      · rintro ⟨kept, here⟩
        exact ⟨kept, (last (before.last_holds holds initially kept)).mp here⟩
      · rintro ⟨kept, here⟩
        exact ⟨kept, (last (before.last_holds holds initially kept)).mpr here⟩

theorem reached (run : Run step start trace state)
    (member : transition ∈ trace) :
    (∃ shorter, Run step start shorter transition.before) ∧
      step transition.before transition.event =
        some (transition.after, transition.reply) := by
  induction run with
  | nil => simp at member
  | snoc before fired induction =>
      rcases List.mem_append.mp member with earlier | last
      · exact induction earlier
      · obtain rfl := List.mem_singleton.mp last
        exact ⟨⟨_, before⟩, fired⟩

theorem parts {left right : List (Transition State Event Reply)}
    (run : Run step start (left ++ right) state) :
    ∃ middle, Run step start left middle ∧ Run step middle right state := by
  generalize whole : left ++ right = trace at run
  induction run generalizing right with
  | nil =>
      obtain ⟨rfl, rfl⟩ := List.append_eq_nil_iff.mp whole
      exact ⟨_, .nil _, .nil _⟩
  | snoc before fired induction =>
      rcases List.eq_nil_or_concat right with rfl | ⟨rest, last, rfl⟩
      · rw [List.append_nil] at whole
        subst whole
        exact ⟨_, .snoc before fired, .nil _⟩
      · rw [List.concat_eq_append, ← List.append_assoc] at whole
        obtain ⟨shorter, same⟩ := List.append_inj' whole rfl
        obtain rfl := List.singleton_inj.mp same
        obtain ⟨middle, first, second⟩ := induction shorter
        rw [List.concat_eq_append]
        exact ⟨middle, first, .snoc second fired⟩

theorem first {right : List (Transition State Event Reply)}
    (run : Run step start (transition :: right) state) :
    start = transition.before ∧
      step transition.before transition.event =
        some (transition.after, transition.reply) ∧
      Run step transition.after right state := by
  obtain ⟨middle, one, rest⟩ := parts (show Run step start ([transition] ++ right) state from run)
  generalize single : [transition] = trace at one
  cases one with
  | nil => cases single
  | snoc before fired =>
      cases before with
      | nil =>
          obtain rfl := List.singleton_inj.mp single
          exact ⟨rfl, fired, rest⟩
      | snoc =>
          have short := congrArg List.length single
          simp only [List.length_append, List.length_cons, List.length_nil] at short
          omega

theorem split {left right : List (Transition State Event Reply)}
    (run : Run step start (left ++ transition :: right) state) :
    Run step start left transition.before ∧
      step transition.before transition.event =
        some (transition.after, transition.reply) := by
  obtain ⟨middle, before, after⟩ := run.parts
  obtain ⟨rfl, fired, -⟩ := after.first
  exact ⟨before, fired⟩

theorem append (first : Run step start left middle)
    (second : Run step middle right finish) :
    Run step start (left ++ right) finish := by
  induction second with
  | nil => simpa using first
  | snoc _ fired induction =>
      rw [← List.append_assoc]
      exact .snoc induction fired

end Run

def lastWrite {Value : Type} (writes : State → Event → Option Value)
    (trace : List (Transition State Event Reply)) : Option Value :=
  (trace.filterMap fun transition => writes transition.before transition.event).getLast?

theorem lastWrite_append {Value : Type} (writes : State → Event → Option Value)
    (left right : List (Transition State Event Reply)) :
    lastWrite writes (left ++ right) = (lastWrite writes right).or (lastWrite writes left) := by
  rw [lastWrite, List.filterMap_append, List.getLast?_append]
  rfl

theorem lastWrite_cons {Value : Type} (writes : State → Event → Option Value)
    (transition : Transition State Event Reply) (later : List (Transition State Event Reply)) :
    lastWrite writes (transition :: later) =
      (lastWrite writes later).or (writes transition.before transition.event) := by
  have whole := lastWrite_append writes [transition] later
  rw [List.singleton_append] at whole
  rw [whole]
  cases wrote : writes transition.before transition.event with
  | none => simp [lastWrite, wrote]
  | some value => simp [lastWrite, wrote]

theorem mem_of_lastWrite {Value : Type} {writes : State → Event → Option Value}
    {trace : List (Transition State Event Reply)} {value : Value}
    (last : lastWrite writes trace = some value) :
    ∃ transition ∈ trace, writes transition.before transition.event = some value :=
  List.mem_filterMap.mp (List.mem_of_getLast? last)

theorem Run.lastWrite_eq {Value Register : Type} (register : State → Register)
    (writes : State → Event → Option Value) (stored : Value → Register)
    (run : Run step start trace state)
    (written : ∀ transition ∈ trace, register transition.after =
      (writes transition.before transition.event).elim (register transition.before) stored) :
    register state = (lastWrite writes trace).elim (register start) stored := by
  induction run with
  | nil => rfl
  | @snoc state next event reply trace before fired induction =>
      have last := written _ List.mem_concat_self
      simp only at last
      rw [last, lastWrite_append, induction fun transition member =>
        written transition (List.mem_append_left _ member)]
      cases wrote : writes state event with
      | none => simp [lastWrite, wrote]
      | some latest => simp [lastWrite, wrote]

def Transition.fire (step : State → Event → Option (State × Reply)) (state : State)
    (event : Event) (fires : (step state event).isSome = true) :
    Transition State Event Reply where
  before := state
  event := event
  reply := ((step state event).get fires).2
  after := ((step state event).get fires).1

theorem Run.fire {start state : State} {trace : List (Transition State Event Reply)}
    (run : Run step start trace state) (event : Event)
    (fires : (step state event).isSome = true) :
    Run step start (trace ++ [Transition.fire step state event fires])
      (Transition.fire step state event fires).after :=
  run.snoc (Option.some_get fires).symm

def runEvents (step : State → Event → Option (State × Reply)) :
    State → List Event → Option State
  | state, [] => some state
  | state, event :: rest =>
      match step state event with
      | none => none
      | some (next, _) => runEvents step next rest

theorem run_of_runEvents {state finish : State} {events : List Event}
    (fired : runEvents step state events = some finish) :
    ∃ trace, Run step state trace finish ∧ trace.map Transition.event = events := by
  induction events generalizing state with
  | nil =>
      obtain rfl : state = finish := Option.some.inj fired
      exact ⟨[], .nil state, rfl⟩
  | cons event rest induction =>
      simp only [runEvents] at fired
      split at fired
      · cases fired
      · rename_i next reply first
        obtain ⟨trace, tail, labels⟩ := induction fired
        exact ⟨_, (Run.snoc (.nil state) first).append tail, by simp [labels]⟩

/-- Runs the events while their transitions pass a check. -/
def runChecked (step : State → Event → Option (State × Reply))
    (check : Transition State Event Reply → Bool) : State → List Event → Option State
  | state, [] => some state
  | state, event :: rest =>
      match step state event with
      | none => none
      | some (next, reply) =>
          if check ⟨state, event, reply, next⟩ then runChecked step check next rest else none

theorem run_of_runChecked {check : Transition State Event Reply → Bool} {state finish : State}
    {events : List Event} (fired : runChecked step check state events = some finish) :
    ∃ trace, Run step state trace finish ∧ trace.map Transition.event = events ∧
      ∀ transition ∈ trace, check transition = true := by
  induction events generalizing state with
  | nil =>
      obtain rfl : state = finish := Option.some.inj fired
      exact ⟨[], .nil state, rfl, nofun⟩
  | cons event rest induction =>
      simp only [runChecked] at fired
      split at fired
      · cases fired
      · rename_i next reply first
        split at fired
        · rename_i passed
          obtain ⟨trace, tail, labels, checked⟩ := induction fired
          refine ⟨_, (Run.snoc (.nil state) first).append tail, by simp [labels], ?_⟩
          intro transition member
          rcases List.mem_append.mp member with here | later
          · obtain rfl := List.mem_singleton.mp here
            exact passed
          · exact checked transition later
        · cases fired

end Runs

end Ece391Os.Data
