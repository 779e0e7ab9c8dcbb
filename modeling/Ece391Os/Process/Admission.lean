import Ece391Os.Process.Invariant

namespace Ece391Os

open Data

/-! `execute` under preemption.  Interrupts stay enabled until its `cli`, so its
check of `process_num` and the rest are separate steps, with anything the other
terminals do between them. -/

structure Admission where
  machine : Machine
  admitted : Fin 3 → Option (CString × StackFrame)

namespace Admission

inductive Event where
  | check (command : CString) (frame : StackFrame)
  | commit
  | other (event : Ece391Os.Event)

def Event.isCall : Event → Bool
  | check _ _ | commit => true
  | other event => event.isCall

def Event.isHalt : Event → Bool
  | other event => event.isHalt
  | _ => false

def kernel (state : Admission) : Kernel := state.machine.kernel

/-- The command whose check the running terminal has passed. -/
def pending (state : Admission) : Option (CString × StackFrame) :=
  state.admitted state.kernel.curSchedTerm

def setPending (command : Option (CString × StackFrame)) (kernel : Kernel)
    (state : Admission) : Admission where
  machine := { state.machine with kernel := kernel }
  admitted := Function.update state.admitted state.kernel.curSchedTerm command

/-- `execute` up to its `cli`; the reply is `none` when the call goes on. -/
def check (command : CString) (frame : StackFrame) (state : Admission) :
    Option (Admission × Option Reply) :=
  if (state.machine.blocked state.kernel.curSchedTerm).isSome ∨ state.pending.isSome then
    none
  else if maxProgs ≤ state.kernel.processNum then some (state, some (.ret (-1)))
  else
    some (state.setPending (some (command, frame))
      (if state.kernel.processNum = 0 then state.kernel.clearSlots else state.kernel), none)

def commit (platform : Platform) (state : Admission) :
    Option (Admission × Option Reply) :=
  match state.pending with
  | none => none
  | some (command, frame) =>
      let result := state.kernel.executeRest platform command frame
      some (state.setPending none result.1, some result.2)

def other (platform : Platform) (event : Ece391Os.Event) (state : Admission) :
    Option (Admission × Option Reply) :=
  if event.isExecute ∨ (event.isCall ∧ state.pending.isSome) then none
  else
    match state.machine.step platform event with
    | none => none
    | some (machine, reply) => some ({ state with machine := machine }, some reply)

def step (platform : Platform) (state : Admission) :
    Event → Option (Admission × Option Reply)
  | .check command frame => state.check command frame
  | .commit => state.commit platform
  | .other event => state.other platform event

inductive KernelStep (platform : Platform) (state : Admission) :
    Event → Kernel → Option Reply → Prop
  | check (command : CString) (frame : StackFrame) (reply : Option Reply)
      (populated : state.kernel.processNum ≠ 0) :
      KernelStep platform state (.check command frame) state.kernel reply
  | cleared (command : CString) (frame : StackFrame)
      (empty : state.kernel.processNum = 0) :
      KernelStep platform state (.check command frame) state.kernel.clearSlots none
  | commit (command : CString) (frame : StackFrame)
      (passed : state.pending = some (command, frame)) :
      KernelStep platform state .commit
        (state.kernel.executeRest platform command frame).1
        (some (state.kernel.executeRest platform command frame).2)
  | other (event : Ece391Os.Event) (next : Kernel) (reply : Reply)
      (split : event.isExecute = false)
      (fired : Kernel.Step platform state.kernel event (next, reply)) :
      KernelStep platform state (.other event) next (some reply)

theorem step_kernel {platform : Platform} {state state' : Admission} {event : Event}
    {reply : Option Reply} (fired : state.step platform event = some (state', reply)) :
    KernelStep platform state event state'.kernel reply := by
  cases event with
  | check command frame =>
      simp only [step, check] at fired
      split at fired
      · cases fired
      · split at fired
        · rename_i full
          obtain ⟨rfl, rfl⟩ := Prod.mk.inj (Option.some.inj fired)
          refine .check command frame _ fun empty => ?_
          rw [empty] at full
          exact absurd full (by decide)
        · by_cases empty : state.kernel.processNum = 0
          · rw [if_pos empty] at fired
            obtain ⟨rfl, rfl⟩ := Prod.mk.inj (Option.some.inj fired)
            exact .cleared command frame empty
          · rw [if_neg empty] at fired
            obtain ⟨rfl, rfl⟩ := Prod.mk.inj (Option.some.inj fired)
            exact .check command frame none empty
  | commit =>
      simp only [step, commit] at fired
      split at fired
      · cases fired
      · rename_i command frame passed
        obtain ⟨rfl, rfl⟩ := Prod.mk.inj (Option.some.inj fired)
        exact .commit command frame passed
  | other event =>
      simp only [step, other] at fired
      split at fired
      · cases fired
      · rename_i allowed
        split at fired
        · cases fired
        · rename_i machine answer inner
          obtain ⟨rfl, rfl⟩ := Prod.mk.inj (Option.some.inj fired)
          exact .other event _ answer (by simpa using (not_or.mp allowed).1)
            (Machine.step_kernel inner)

/-- The rest of `execute` runs while the limit is not reached.  A command that
names no executable claims no slot. -/
def Room (platform : Platform) (state : Admission) (event : Event) : Prop :=
  ∀ command frame, event = .commit → state.pending = some (command, frame) →
    (openProgram platform.image (commandName command) frame.elfBuf).isSome →
    state.kernel.processNum < maxProgs

structure Respects (transition : Transition Admission Event (Option Reply)) : Prop where
  bounded : transition.after.kernel.processNum ≤ maxProgs
  claimed : transition.event = .commit → ∀ eip, transition.reply = some (.enter eip) →
    ∃ slot : Nat, slot < maxProgs ∧ transition.before.kernel.processArray slot = -1 ∧
      transition.after.kernel.running.processNum = slot + 1 ∧
      (transition.after.kernel.pcb (slot + 1)).pid = slot + 1
  distinct : ∃ chains, transition.after.kernel.LiveChains chains ∧
    (chains 0 ++ chains 1 ++ chains 2).Nodup

theorem executeRest_claims {platform : Platform} {command : CString} {frame : StackFrame}
    {kernel : Kernel} (sound : kernel.processView.Sound)
    (room : (openProgram platform.image (commandName command) frame.elfBuf).isSome →
      kernel.processNum < maxProgs) :
    Kernel.Effect platform kernel (kernel.executeRest platform command frame).1 ∧
      ∀ eip, (kernel.executeRest platform command frame).2 = .enter eip →
        ∃ slot : Nat, slot < maxProgs ∧ kernel.processArray slot = -1 ∧
          (kernel.executeRest platform command frame).1.running.processNum = slot + 1 ∧
          ((kernel.executeRest platform command frame).1.pcb (slot + 1)).pid = slot + 1 := by
  rcases kernel.executeRest_cases platform command frame with
    ⟨_, failed⟩ | ⟨inode, elf, memory, opened, succeeded⟩
  · rw [failed]
    exact ⟨.refl platform kernel, fun _ entered => nomatch entered⟩
  · have below := room (by simp [opened])
    have counted := (Kernel.processNum_pos sound).1
    obtain ⟨slot, found⟩ := Option.isSome_iff_exists.mp
      (findSlot_isSome (by omega : usedSlots kernel.processArray < maxProgs))
    obtain ⟨inside, free⟩ := findSlot_some found
    rw [succeeded]
    refine ⟨.started command frame memory below, fun _ _ => ⟨slot, inside, free, ?_, ?_⟩⟩
    · rw [Kernel.claimSlot_some _ found]
      simp [Kernel.started, Kernel.running, Kernel.childPcb]
    · rw [Kernel.claimSlot_some _ found]
      simp [Kernel.started, Kernel.pcb, Kernel.childPcb]

theorem sound_step {platform : Platform} {state state' : Admission} {event : Event}
    {reply : Option Reply} (sound : state.kernel.processView.Sound)
    (room : Room platform state event)
    (fired : state.step platform event = some (state', reply)) :
    state'.kernel.processView.Sound := by
  have stepped := step_kernel fired
  generalize state'.kernel = next at stepped ⊢
  cases stepped with
  | check => exact sound
  | cleared _ _ empty =>
      have populated := (Kernel.processNum_pos sound).2
      omega
  | commit command frame passed =>
      exact (executeRest_claims sound (room command frame rfl passed)).1.sound sound
  | other event next reply _ inner => exact (inner.effect sound).sound sound

theorem respects_of_room {platform : Platform} {state state' : Admission} {event : Event}
    {reply : Option Reply} (sound : state.kernel.processView.Sound)
    (room : Room platform state event)
    (fired : state.step platform event = some (state', reply)) :
    Respects ⟨state, event, reply, state'⟩ := by
  have after := sound_step sound room fired
  refine ⟨?_, ?_, ?_⟩
  · have counted := (Kernel.processNum_pos after).1
    have bound := usedSlots_le state'.kernel.processArray
    simp only
    omega
  · intro isCommit eip entered
    have stepped := step_kernel fired
    simp only at isCommit entered ⊢
    generalize state'.kernel = next at stepped ⊢
    subst isCommit
    cases stepped with
    | commit command frame passed =>
        have claims := executeRest_claims sound (room command frame rfl passed)
        exact claims.2 eip (Option.some.inj entered)
  · obtain ⟨chains, live⟩ := Kernel.liveChains after
    exact ⟨chains, live, live.forest.nodup_append⟩

theorem room_of_respects {platform : Platform} {state state' : Admission} {event : Event}
    {reply : Option Reply} (fired : state.step platform event = some (state', reply))
    (respects : Respects ⟨state, event, reply, state'⟩) : Room platform state event := by
  intro command frame isCommit passed executable
  have bounded := respects.bounded
  have stepped := step_kernel fired
  simp only at bounded
  generalize state'.kernel = next at stepped bounded
  subst isCommit
  cases stepped with
  | commit command' frame' passed' =>
      obtain ⟨rfl, rfl⟩ := Prod.mk.inj (Option.some.inj (passed.symm.trans passed'))
      rcases state.kernel.executeRest_cases platform command frame with
        ⟨refused, _⟩ | ⟨_, _, memory, _, succeeded⟩
      · simp [refused] at executable
      · obtain ⟨slots, claimed⟩ := state.kernel.claimSlot_snd frame.pcb.pid
        rw [succeeded, claimed] at bounded
        simp only [Kernel.started] at bounded
        omega

/-- `execute` keeps to the process limit in exactly the runs in which no process
is started after the limit was reached behind its check. -/
theorem respects_iff {platform : Platform} {start state : Admission}
    {trace : List (Transition Admission Event (Option Reply))}
    (launched : Launched platform start.machine)
    (run : Run (step platform) start trace state) :
    (∀ transition ∈ trace, Respects transition) ↔
      ∀ transition ∈ trace, Room platform transition.before transition.event := by
  have sound : start.kernel.processView.Sound := launched.sound
  constructor
  · intro respects transition member
    exact room_of_respects (run.reached member).2 (respects transition member)
  · intro room transition member
    have everywhere := run.guarded (fun state => state.kernel.processView.Sound)
      (Room platform) sound_step sound room
    exact respects_of_room (everywhere.2 transition member) (room transition member)
      (run.reached member).2

def sample : Admission := ⟨Sample.start, fun _ => none⟩

/-- A terminal checks, loses the processor while another one takes the last
slot, and starts a process of its own. -/
def overrun : List Event :=
  [.check shellName Sample.frame, .commit, .check shellName Sample.frame, .commit,
    .check shellName Sample.frame, .other (.tick 0 0), .check shellName Sample.frame,
    .commit, .other (.tick 0 0), .other (.tick 0 0), .commit]

theorem overrun_fires : (runEvents (step Sample.platform) sample overrun).isSome = true := by
  decide +kernel

theorem respects_sample : ∃ trace state, Run (step Sample.platform) sample trace state ∧
    ((∀ transition ∈ trace, Respects transition) ↔
      ∀ transition ∈ trace, Room Sample.platform transition.before transition.event) := by
  obtain ⟨trace, run, -⟩ := run_of_runEvents (Option.some_get overrun_fires).symm
  exact ⟨trace, _, run, respects_iff Sample.launched run⟩

theorem overrun_exceeds : Launched Sample.platform sample.machine ∧
    ∃ trace state, Run (step Sample.platform) sample trace state ∧
      maxProgs < state.kernel.processNum := by
  obtain ⟨trace, run, -⟩ := run_of_runEvents (Option.some_get overrun_fires).symm
  refine ⟨Sample.launched, trace, _, run, ?_⟩
  decide +kernel

end Admission

end Ece391Os
