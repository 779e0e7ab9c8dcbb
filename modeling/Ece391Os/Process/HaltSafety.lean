import Ece391Os.Process.Preemption

namespace Ece391Os

open Data

/-! When a preempted `halt` is safe. -/

theorem findSlot_le {processArray : Int → Int} {found slot : Nat}
    (search : findSlot processArray = some found)
    (free : processArray slot = -1) : found ≤ slot := by
  by_contra later
  have used := (List.find?_range_eq_some.mp search).2.2 slot (by omega)
  simp [free] at used

namespace Preemption

def Sound (state : Preemption) : Prop :=
  ∃ chains, state.kernel.processView.Preempted state.halting chains

/-- The steps that keep a preempted `halt` safe.  A process is started only while
some slot is free below those that unfinished halts have freed, and the clock does
not tick between the assignments of `tss.esp0` and of the scheduler's pid. -/
def Guarded (platform : Platform) (state : Preemption) : Event → Prop
  | .other .commit => ∀ command frame,
      state.admission.pending = some (command, frame) →
      (openProgram platform.image (commandName command) frame.elfBuf).isSome →
      ∃ slot < maxProgs, state.kernel.processArray (slot : Nat) = -1 ∧
        ∀ terminal under, state.halting terminal = some under →
          HaltStatement.freeSlot.rank < under.next.rank → slot + 1 < under.entry.pid
  | .other (.other (.tick _ _)) =>
      ∀ under, state.current = some under → under.next ≠ .restorePid
  | _ => True

theorem claimed_of_guarded {state : Preemption} {slot : Nat}
    {chains : Fin 3 → List Int}
    (preempted : state.kernel.processView.Preempted state.halting chains)
    (inside : slot < maxProgs) (free : state.kernel.processArray slot = -1)
    (below : ∀ terminal under, state.halting terminal = some under →
      HaltStatement.freeSlot.rank < under.next.rank → slot + 1 < under.entry.pid) :
    ∃ found, findSlot state.kernel.processArray = some found ∧
      ∀ terminal under, state.halting terminal = some under →
        under.entry.pid ≠ found + 1 := by
  have exists_ : (findSlot state.kernel.processArray).isSome := by
    rw [findSlot, List.find?_isSome]
    exact ⟨slot, List.mem_range.mpr inside, by simpa using free⟩
  obtain ⟨found, search⟩ := Option.isSome_iff_exists.mp exists_
  refine ⟨found, search, ?_⟩
  intro terminal under busy same
  have lowest := findSlot_le search free
  have old := preempted.busy terminal under busy
  by_cases early : under.next.rank ≤ 2
  · obtain ⟨older, shape⟩ := old.live early
    have used := preempted.holds.slot
      (by rw [shape]; exact List.mem_cons_self : under.entry.pid ∈ chains terminal)
    have freeFound := (findSlot_some search).2
    rw [same, Int.add_sub_cancel] at used
    exact used freeFound
  · have later := below terminal under busy (Nat.lt_of_not_le early)
    omega

theorem sound_commit {platform : Platform} {state : Preemption} {command : CString}
    {frame : StackFrame} {chains : Fin 3 → List Int}
    (preempted : state.kernel.processView.Preempted state.halting chains)
    (guarded : state.Guarded platform (.other .commit))
    (passed : state.admission.pending = some (command, frame))
    (free : state.current = none) :
    ∃ chains', (state.kernel.executeRest platform command frame).1.processView.Preempted
      state.halting chains' := by
  rcases state.kernel.executeRest_cases platform command frame with
    ⟨_, failed⟩ | ⟨inode, elf, memory, opened, succeeded⟩
  · rw [failed]
    exact ⟨chains, preempted⟩
  · obtain ⟨slot, inside, freeSlot, below⟩ := guarded command frame passed (by simp [opened])
    obtain ⟨found, search, unclaimed⟩ := claimed_of_guarded preempted inside freeSlot below
    rw [succeeded]
    exact Kernel.preempted_started command memory preempted search free unclaimed

theorem sound_other {platform : Platform} {state : Preemption} {event : Ece391Os.Event}
    {next : Kernel} {reply : Reply} {chains : Fin 3 → List Int}
    (preempted : state.kernel.processView.Preempted state.halting chains)
    (guarded : state.Guarded platform (.other (.other event)))
    (notExecute : event.isExecute = false) (notHalt : event.isHalt = false)
    (free : event.isCall = true → state.current = none)
    (fired : Kernel.Step platform state.kernel event (next, reply)) :
    ∃ chains', next.processView.Preempted state.halting chains' := by
  by_cases plain : event.isPlain = true
  · have same : next.processView = state.kernel.processView :=
      (fired.plain_effect plain).processView
    exact ⟨chains, by rwa [same]⟩
  · generalize shape : (next, reply) = result at fired
    cases fired with
    | halt => cases notHalt
    | execute => cases notExecute
    | exception vector child =>
        have idle : state.halting state.kernel.curSchedTerm = none := free rfl
        obtain ⟨console, _, ended⟩ :=
          Kernel.exceptionHandler_eq platform vector state.kernel
        obtain ⟨rfl, -⟩ := Prod.mk.inj (shape.trans ended)
        obtain ⟨top, address, _⟩ := Kernel.preempted_free platform preempted idle
        have inside := List.mem_of_mem_head? top
        rw [address] at child
        refine Kernel.preempted_terminated console preempted idle fun base => child ?_
        exact (preempted.holds.parentOf_eq_zero_iff inside).mpr
          ((preempted.holds.isBaseShell_iff inside).mp base)
    | tick esp ebp =>
        obtain ⟨mask, switched⟩ := Kernel.pitInterruptHandler_eq esp ebp preempted.active
        have after : next = state.kernel.ticked esp ebp mask :=
          (congrArg Prod.fst shape).trans switched
        rw [after]
        exact ⟨chains, Kernel.preempted_ticked esp ebp mask preempted guarded⟩
    | _ => exact absurd rfl plain

theorem sound_step {platform : Platform} {state state' : Preemption} {event : Event}
    {reply : Option Reply} (sound : state.Sound) (guarded : state.Guarded platform event)
    (fired : state.step platform event = some (state', reply)) : state'.Sound := by
  obtain ⟨chains, preempted⟩ := sound
  cases event with
  | haltBegin status =>
      simp only [step, haltBegin] at fired
      split at fired
      · cases fired
      · rename_i idle
        split at fired
        · obtain ⟨rfl, rfl⟩ := Prod.mk.inj (Option.some.inj fired)
          exact ⟨chains, preempted⟩
        · rename_i child
          obtain ⟨rfl, rfl⟩ := Prod.mk.inj (Option.some.inj fired)
          have free : state.halting state.kernel.curSchedTerm = none := by
            simpa [current] using (not_or.mp (not_or.mp idle).2).2
          exact ⟨chains, Kernel.preempted_begin status preempted free child⟩
  | haltStep =>
      simp only [step, haltStep] at fired
      split at fired
      · cases fired
      · rename_i under busy
        obtain ⟨rfl, rfl⟩ := Prod.mk.inj (Option.some.inj fired)
        obtain ⟨chains', after⟩ := Kernel.preempted_run preempted busy
        exact ⟨chains', after⟩
  | other event =>
      simp only [step, other] at fired
      split at fired
      · cases fired
      · rename_i allowed
        obtain ⟨notHalt, notBusy⟩ := not_or.mp allowed
        have free : event.isCall = true → state.current = none := fun call => by
          simpa [call] using notBusy
        split at fired
        · cases fired
        · rename_i admission answer inner
          obtain ⟨rfl, rfl⟩ := Prod.mk.inj (Option.some.inj fired)
          have stepped := Admission.step_kernel inner
          simp only [Sound, kernel]
          generalize admission.kernel = next at stepped ⊢
          cases stepped with
          | check => exact ⟨chains, preempted⟩
          | cleared _ _ empty =>
              have populated : 0 < state.admission.kernel.processNum :=
                preempted.processNum_pos
              omega
          | commit command frame passed =>
              exact sound_commit preempted guarded passed (free rfl)
          | other event next reply notExecute called =>
              exact sound_other preempted guarded notExecute
                (by simpa [Admission.Event.isHalt] using notHalt) free called

structure HaltSafe (platform : Platform)
    (transition : Transition Preemption Event (Option Reply)) : Prop where
  /-- A `halt` begins with the control block of the running process. -/
  begins : ∀ status under, transition.event = .haltBegin status →
    transition.after.current = some under →
    under.entry = transition.before.kernel.pcb transition.before.kernel.running.processNum ∧
      under.entry.pid = transition.before.kernel.running.processNum
  /-- The block every statement reads is still the one the `halt` began with. -/
  reads : ∀ under, transition.event = .haltStep →
    transition.before.current = some under →
    (transition.before.kernel.pcbAt under.address).pid = under.entry.pid ∧
    (transition.before.kernel.pcbAt under.address).parentPid = under.entry.parentPid ∧
    (transition.before.kernel.pcbAt under.address).parentEsp = under.entry.parentEsp ∧
    (transition.before.kernel.pcbAt under.address).parentEbp = under.entry.parentEbp
  /-- The parent resumes on its own kernel stack and in its own frame. -/
  resumes : ∀ under, transition.event = .haltStep →
    transition.before.current = some under → under.next = .resume →
    transition.after.kernel.running.processNum = under.entry.parentPid ∧
    transition.after.kernel.tssEsp0 = u32 (stackTop under.entry.parentPid) ∧
    transition.after.kernel.pages.pageDirectory (directorySlot userProg) =
      userEntry under.entry.parentPid
  /-- No process is started in the slot of one that is still halting. -/
  keeps : ∀ command frame, transition.event = .other .commit →
    transition.before.admission.pending = some (command, frame) →
    (openProgram platform.image (commandName command) frame.elfBuf).isSome →
    ∀ terminal under, transition.before.halting terminal = some under →
      (transition.before.kernel.claimSlot frame.pcb.pid).1 ≠ under.entry.pid

theorem haltSafe_of_guarded {platform : Platform} {state state' : Preemption}
    {event : Event} {reply : Option Reply} (sound : state.Sound)
    (guarded : state.Guarded platform event)
    (fired : state.step platform event = some (state', reply)) :
    HaltSafe platform ⟨state, event, reply, state'⟩ := by
  obtain ⟨chains, preempted⟩ := sound
  refine ⟨?_, ?_, ?_, ?_⟩
  · rintro status under isBegin began
    simp only at isBegin began ⊢
    subst isBegin
    simp only [step, haltBegin] at fired
    split at fired
    · cases fired
    · rename_i idle
      have free : state.halting state.kernel.curSchedTerm = none := by
        simpa [current] using (not_or.mp (not_or.mp idle).2).2
      obtain ⟨top, address, _⟩ := Kernel.preempted_free platform preempted free
      have own : (state.kernel.pcb state.kernel.running.processNum).pid =
          state.kernel.running.processNum :=
        preempted.holds.pid _ _ (List.mem_of_mem_head? top)
      split at fired
      · obtain ⟨rfl, rfl⟩ := Prod.mk.inj (Option.some.inj fired)
        exact nomatch free.symm.trans began
      · obtain ⟨rfl, rfl⟩ := Prod.mk.inj (Option.some.inj fired)
        have entry : (some ⟨status, state.kernel.currentPcb platform, .closeAll,
            state.kernel.pcbAt (state.kernel.currentPcb platform)⟩ : Option Halting) =
              some under := by
          rw [← began]
          exact (Function.update_self state.kernel.curSchedTerm _ state.halting).symm
        obtain rfl := Option.some.inj entry
        simp only [address]
        exact ⟨rfl, own⟩
  · intro under _ busy
    exact (preempted.busy _ under busy).own
  · intro under isStep busy atEnd
    simp only at isStep busy ⊢
    subst isStep
    simp only [step, haltStep, busy, atEnd] at fired
    obtain ⟨rfl, rfl⟩ := Prod.mk.inj (Option.some.inj fired)
    have old := (preempted.busy _ under busy).current
    have ready := preempted.ready_busy busy
    rw [atEnd] at old
    refine ⟨old, ?_, ?_⟩
    · have stack := ready.stack
      simp only [stackOwner, atEnd, reduceCtorEq, if_false] at stack
      exact stack.trans (congrArg (fun pid => u32 (stackTop pid)) old)
    · rcases ready.page with entry | ⟨same, found, _, upper, _⟩
      · exact entry.trans (congrArg userEntry old)
      · obtain rfl := Option.some.inj found
        rw [atEnd] at upper
        exact absurd upper (by decide)
  · intro command frame isCommit passed executable terminal under busy
    simp only at isCommit passed busy ⊢
    subst isCommit
    obtain ⟨slot, inside, free, below⟩ := guarded command frame passed executable
    obtain ⟨found, search, unclaimed⟩ := claimed_of_guarded preempted inside free below
    rw [Kernel.claimSlot_some _ search]
    exact fun same => unclaimed terminal under busy same.symm

theorem sound_launched {platform : Platform} {start : Preemption}
    (launched : Launched platform start.admission.machine)
    (idle : start.halting = fun _ => none) : start.Sound := by
  obtain ⟨holds, runs⟩ := launched.chains
  have absent (terminal : Fin 3) : start.halting terminal = none := by rw [idle]
  refine ⟨_, holds, runs.active, fun terminal _ => runs.current terminal, ?_, ?_, ⟨?_, ?_⟩, ?_⟩
  · intro terminal under found
    exact nomatch (absent terminal).symm.trans found
  · intro terminal under found
    exact nomatch (absent terminal).symm.trans found
  · rw [absent]
    exact runs.tssEsp0
  · exact .inl runs.progEntry
  · have count : start.admission.machine.kernel.processNum = 3 := by
      obtain ⟨kernel, frame, entryPoint, memory, _, result⟩ := launched.eq
      rw [result]
      rfl
    rw [absent, absent, absent]
    exact count

/-- In every run whose steps are guarded, every `halt` is safe at every step. -/
theorem haltSafe_of_run {platform : Platform} {start state : Preemption}
    {trace : List (Transition Preemption Event (Option Reply))}
    (launched : Launched platform start.admission.machine)
    (idle : start.halting = fun _ => none)
    (run : Run (step platform) start trace state)
    (guarded : ∀ transition ∈ trace, transition.before.Guarded platform transition.event) :
    ∀ transition ∈ trace, HaltSafe platform transition := by
  have everywhere := run.guarded Sound (fun state event => state.Guarded platform event)
    sound_step (sound_launched launched idle) guarded
  intro transition member
  exact haltSafe_of_guarded (everywhere.2 transition member) (guarded transition member)
    (run.reached member).2

def guards (transition : Transition Preemption Event (Option Reply)) : Bool :=
  match transition.event with
  | .other .commit =>
      (List.range maxProgs).any fun slot =>
        transition.before.kernel.processArray slot = -1 &&
          (List.finRange 3).all fun terminal =>
            (transition.before.halting terminal).all fun under =>
              under.next.rank ≤ HaltStatement.freeSlot.rank || (slot : Int) + 1 < under.entry.pid
  | .other (.other (.tick _ _)) =>
      transition.before.current.all fun under => under.next ≠ .restorePid
  | _ => true

theorem guarded_of_guards {platform : Platform}
    {transition : Transition Preemption Event (Option Reply)}
    (checked : guards transition = true) :
    transition.before.Guarded platform transition.event := by
  obtain ⟨before, event, reply, after⟩ := transition
  cases event with
  | haltBegin => trivial
  | haltStep => trivial
  | other event =>
      cases event with
      | commit =>
          intro command frame _ _
          obtain ⟨slot, inside, room⟩ := List.any_eq_true.mp checked
          obtain ⟨free, below⟩ := Bool.and_eq_true _ _ ▸ room
          refine ⟨slot, List.mem_range.mp inside, of_decide_eq_true free, ?_⟩
          intro terminal under busy freed
          have apart := List.all_eq_true.mp below terminal (List.mem_finRange terminal)
          have here : before.halting terminal = some under := busy
          rw [here, Option.all_some, Bool.or_eq_true, decide_eq_true_eq,
            decide_eq_true_eq] at apart
          exact apart.resolve_left (Nat.not_le_of_lt freed)
      | check => trivial
      | other event =>
          cases event with
          | tick esp ebp =>
              intro under busy
              have apart : before.current.all (fun under => under.next ≠ .restorePid) = true :=
                checked
              rw [busy] at apart
              exact of_decide_eq_true apart
          | _ => trivial

/-! A run that keeps to the conditions, and one in which the clock ticks at the
wrong moment. -/

def sample : Preemption := ⟨Admission.sample, fun _ => none⟩

def tick : Event := .other (.other (.tick 0 0))

def starting : List Event := [.other (.check shellName Sample.frame), .other .commit]

/-- The children of the first and the second shell halt.  The second is interrupted when it
has freed its slot, and the third shell starts a child before it goes on. -/
def interleaved : List Event :=
  starting ++ tick :: starting ++ [tick, tick] ++
    .haltBegin 0 :: List.replicate 10 .haltStep ++ tick ::
      .haltBegin 0 :: List.replicate 3 .haltStep ++ tick :: starting ++ [tick, tick] ++
        List.replicate 7 .haltStep

theorem interleaved_fires :
    (runChecked (step Sample.platform) guards sample interleaved).isSome = true := by
  decide +kernel

theorem haltSafe_sample : ∃ trace state, Run (step Sample.platform) sample trace state ∧
    trace.map Transition.event = interleaved ∧
    ∀ transition ∈ trace, HaltSafe Sample.platform transition := by
  obtain ⟨trace, run, events, checked⟩ :=
    run_of_runChecked (Option.some_get interleaved_fires).symm
  exact ⟨trace, _, run, events, haltSafe_of_run Sample.launched rfl run
    fun transition member => guarded_of_guards (checked transition member)⟩

theorem not_haltSafe {platform : Platform} {before after : Preemption} {under : Halting}
    {reply : Option Reply} (busy : before.current = some under)
    (atEnd : under.next = .resume)
    (stack : after.kernel.tssEsp0 ≠ u32 (stackTop under.entry.parentPid)) :
    ¬ HaltSafe platform ⟨before, .haltStep, reply, after⟩ :=
  fun safe => stack (safe.resumes under rfl busy atEnd).2.1

/-- A child of the first shell halts and loses the processor right after its
assignment of `tss.esp0`; the last statement is left to do. -/
def overtaken : List Event :=
  [.other (.check shellName Sample.frame), .other .commit, .haltBegin 0,
    .haltStep, .haltStep, .haltStep, .haltStep,
    .other (.other (.tick 0 0)), .other (.other (.tick 0 0)), .other (.other (.tick 0 0)),
    .haltStep, .haltStep, .haltStep, .haltStep, .haltStep]

theorem overtaken_fires :
    (runEvents (step Sample.platform) sample overtaken).isSome = true := by
  decide +kernel

def overtakenState : Preemption :=
  (runEvents (step Sample.platform) sample overtaken).get overtaken_fires

theorem overtaken_resumes : (overtakenState.step Sample.platform .haltStep).isSome = true := by
  decide +kernel

def overtakenAfter : Preemption × Option Reply :=
  (overtakenState.step Sample.platform .haltStep).get overtaken_resumes

theorem overtakenAfter_eq : overtakenState.step Sample.platform .haltStep =
    some (overtakenAfter.1, overtakenAfter.2) := by
  rw [Prod.mk.eta, overtakenAfter, Option.some_get]

theorem overtaken_current : overtakenState.current.isSome = true := by
  decide +kernel

def overtakenHalt : Halting := overtakenState.current.get overtaken_current

theorem overtakenHalt_eq : overtakenState.current = some overtakenHalt := by
  rw [overtakenHalt, Option.some_get]

theorem overtakenHalt_next : overtakenHalt.next = .resume := by
  decide +kernel

theorem overtaken_stack : overtakenAfter.1.kernel.tssEsp0 ≠
    u32 (stackTop overtakenHalt.entry.parentPid) := by
  decide +kernel

theorem overtaken_unsafe : Launched Sample.platform sample.admission.machine ∧
    ∃ trace state, Run (step Sample.platform) sample trace state ∧
      ∃ transition ∈ trace, ¬ HaltSafe Sample.platform transition := by
  obtain ⟨trace, run, -⟩ : ∃ trace, Run (step Sample.platform) sample trace overtakenState ∧
      trace.map Transition.event = overtaken :=
    run_of_runEvents (Option.some_get overtaken_fires).symm
  have whole := run.snoc overtakenAfter_eq
  exact ⟨Sample.launched, _, _, whole, _, List.mem_concat_self,
    not_haltSafe overtakenHalt_eq overtakenHalt_next overtaken_stack⟩

end Preemption

end Ece391Os
