import Ece391Os.Process.Steps

namespace Ece391Os

open Data

/-! The contexts the scheduler saves and loads. -/

/-- The interrupted code runs on a kernel stack. -/
def Event.onKernelStack : Event → Prop
  | tick esp _ => kernelAddr ≤ esp ∧ esp < eightMb
  | _ => True

section Histories

variable (trace : List (Transition Machine Event Reply)) (terminal : Fin 3)

def tickCount : Nat := trace.countP fun transition => transition.event.isTick

def savedBy (transition : Transition Machine Event Reply) : Option (Int × Int) :=
  match transition.event with
  | .tick esp ebp =>
      if transition.before.kernel.curSchedTerm = terminal then some (esp, ebp) else none
  | _ => none

def lastSaved : Option (Int × Int) := (trace.filterMap (savedBy terminal)).getLast?

theorem lastSaved_snoc (transition : Transition Machine Event Reply) :
    lastSaved (trace ++ [transition]) terminal =
      (savedBy terminal transition).or (lastSaved trace terminal) := by
  cases saved : savedBy terminal transition with
  | none => simp [lastSaved, saved]
  | some pair => simp [lastSaved, saved]

theorem tickCount_snoc (transition : Transition Machine Event Reply) :
    tickCount (trace ++ [transition]) =
      tickCount trace + if transition.event.isTick then 1 else 0 := by
  simp [tickCount, List.countP_append, List.countP_singleton]

end Histories

/-- The scheduler after a history: the terminals run in turn, those that were
switched out have the stack stored then, and the others none. -/
structure Kernel.Rotated (trace : List (Transition Machine Event Reply)) (kernel : Kernel) :
    Prop where
  turn : kernel.curSchedTerm.val = tickCount trace % 3
  loaded : ∀ terminal, terminal ≠ kernel.curSchedTerm → ∀ pair,
    lastSaved trace terminal = some pair →
      (kernel.schedArr terminal).esp = pair.1 ∧ (kernel.schedArr terminal).ebp = pair.2
  fresh : ∀ terminal, terminal ≠ kernel.curSchedTerm → lastSaved trace terminal = none →
    (kernel.schedArr terminal).esp = -1
  started : ∀ terminal, lastSaved trace terminal = none ↔ tickCount trace ≤ terminal.val
  onStack : ∀ terminal pair, lastSaved trace terminal = some pair → kernelAddr ≤ pair.1

namespace Kernel

variable {platform : Platform} {kernel : Kernel}

theorem Leaves.others {event : Event} {result : Kernel × Reply}
    (leaves : Leaves platform kernel event result) (stays : event.isTick = false) :
    result.1.curSchedTerm = kernel.curSchedTerm ∧
      ∀ terminal, terminal ≠ kernel.curSchedTerm →
        result.1.schedArr terminal = kernel.schedArr terminal := by
  cases leaves with
  | serviced _ done =>
      obtain ⟨fdt, console, rtc, memory, rfl⟩ := done
      exact ⟨rfl, fun _ _ => rfl⟩
  | vidmapped =>
      refine ⟨rfl, ?_⟩
      intro terminal other
      simp only [Kernel.vidmapped, Function.update_of_ne other]
  | started =>
      refine ⟨rfl, ?_⟩
      intro terminal other
      simp only [Kernel.started, Function.update_of_ne other]
  | ended =>
      refine ⟨rfl, ?_⟩
      intro terminal other
      simp only [terminated, Function.update_of_ne other]
  | ticked => cases stays
  | restarted | ignored | typed | clocked => exact ⟨rfl, fun _ _ => rfl⟩

theorem Rotated.stay {trace : List (Transition Machine Event Reply)}
    {transition : Transition Machine Event Reply}
    (rotated : transition.before.kernel.Rotated trace)
    (leaves : Leaves platform transition.before.kernel transition.event
      (transition.after.kernel, transition.reply))
    (stays : transition.event.isTick = false) :
    transition.after.kernel.Rotated (trace ++ [transition]) := by
  obtain ⟨current, nodes⟩ := leaves.others stays
  simp only at current nodes
  have same (terminal : Fin 3) :
      lastSaved (trace ++ [transition]) terminal = lastSaved trace terminal := by
    have nothing : savedBy terminal transition = none := by
      cases event : transition.event with
      | tick => simp [event, Event.isTick] at stays
      | _ => simp [savedBy, event]
    rw [lastSaved_snoc, nothing, Option.none_or]
  have count : tickCount (trace ++ [transition]) = tickCount trace := by
    rw [tickCount_snoc, stays]
    rfl
  refine ⟨?_, ?_, ?_, ?_, ?_⟩
  · rw [current, count, rotated.turn]
  · intro terminal other pair saved
    rw [current] at other
    rw [same] at saved
    rw [nodes terminal other]
    exact rotated.loaded terminal other pair saved
  · intro terminal other unsaved
    rw [current] at other
    rw [same] at unsaved
    rw [nodes terminal other]
    exact rotated.fresh terminal other unsaved
  · intro terminal
    rw [same, count]
    exact rotated.started terminal
  · intro terminal pair saved
    rw [same] at saved
    exact rotated.onStack terminal pair saved

theorem Rotated.tick {trace : List (Transition Machine Event Reply)}
    {transition : Transition Machine Event Reply} {esp ebp : Int} {mask : BitVec 8}
    (rotated : transition.before.kernel.Rotated trace)
    (event : transition.event = .tick esp ebp) (onStack : kernelAddr ≤ esp)
    (ticked : transition.after.kernel = transition.before.kernel.ticked esp ebp mask) :
    transition.after.kernel.Rotated (trace ++ [transition]) := by
  have turn := rotated.turn
  have current : transition.after.kernel.curSchedTerm =
      transition.before.kernel.curSchedTerm + 1 := by rw [ticked]; rfl
  have out : lastSaved (trace ++ [transition]) transition.before.kernel.curSchedTerm =
      some (esp, ebp) := by
    rw [lastSaved_snoc]
    simp [savedBy, event]
  have others {terminal : Fin 3} (other : terminal ≠ transition.before.kernel.curSchedTerm) :
      lastSaved (trace ++ [transition]) terminal = lastSaved trace terminal := by
    have nothing : savedBy terminal transition = none := by
      simp [savedBy, event, Ne.symm other]
    rw [lastSaved_snoc, nothing, Option.none_or]
  have node {terminal : Fin 3} (other : terminal ≠ transition.before.kernel.curSchedTerm) :
      transition.after.kernel.schedArr terminal =
        transition.before.kernel.schedArr terminal := by
    rw [ticked]
    exact Function.update_of_ne other _ _
  have own : (transition.after.kernel.schedArr
      transition.before.kernel.curSchedTerm).esp = esp ∧
      (transition.after.kernel.schedArr
        transition.before.kernel.curSchedTerm).ebp = ebp := by
    rw [ticked]
    simp [Kernel.ticked]
  have count : tickCount (trace ++ [transition]) = tickCount trace + 1 := by
    rw [tickCount_snoc, event]
    rfl
  refine ⟨?_, ?_, ?_, ?_, ?_⟩
  · rw [current, count, Fin.val_add, turn]
    simp [Nat.add_mod]
  · intro terminal _ pair saved
    by_cases here : terminal = transition.before.kernel.curSchedTerm
    · rw [here, out] at saved
      obtain rfl := Option.some.inj saved
      rw [here]
      exact own
    · rw [others here] at saved
      rw [node here]
      exact rotated.loaded terminal here pair saved
  · intro terminal _ unsaved
    by_cases here : terminal = transition.before.kernel.curSchedTerm
    · rw [here, out] at unsaved
      cases unsaved
    · rw [others here] at unsaved
      rw [node here]
      exact rotated.fresh terminal here unsaved
  · intro terminal
    rw [count]
    by_cases here : terminal = transition.before.kernel.curSchedTerm
    · rw [here, out, turn]
      constructor
      · intro impossible
        cases impossible
      · omega
    · have numbers : terminal.val ≠ transition.before.kernel.curSchedTerm.val :=
        fun same => here (Fin.ext same)
      rw [others here, rotated.started terminal]
      omega
  · intro terminal pair saved
    by_cases here : terminal = transition.before.kernel.curSchedTerm
    · rw [here, out] at saved
      obtain rfl := Option.some.inj saved
      exact onStack
    · rw [others here] at saved
      exact rotated.onStack terminal pair saved

/-! The mask of the timer interrupt. -/

def unmasked (kernel : Kernel) : Prop := kernel.masterMask.getLsbD 0 = false

theorem unmasked_enableIrq (kernel : Kernel) : (kernel.enableIrq 0).unmasked := by
  simp [unmasked, enableIrq]

theorem unmasked_pit (esp ebp : Int) (kernel : Kernel) :
    (kernel.pitInterruptHandler esp ebp).1.unmasked := by
  simp only [pitInterruptHandler]
  split
  · exact unmasked_enableIrq _
  · exact unmasked_enableIrq _

theorem unmasked_key (scanCode : UInt8) (clear : kernel.unmasked) :
    (kernel.keyboardInterruptHandler scanCode).unmasked := by
  have mask : kernel.keyMask.getLsbD 0 = kernel.masterMask.getLsbD 0 := by
    simp [keyMask]
  rw [keyboardInterruptHandler_eq]
  split
  · exact mask.trans clear
  · exact mask.trans clear

theorem Leaves.masterMask {event : Event} {result : Kernel × Reply}
    (leaves : Leaves platform kernel event result) (stays : event.isTick = false)
    (other : ∀ scanCode, event ≠ .key scanCode) :
    result.1.masterMask = kernel.masterMask := by
  cases leaves with
  | serviced _ done =>
      obtain ⟨fdt, console, rtc, memory, rfl⟩ := done
      rfl
  | ticked => cases stays
  | ignored scanCode => exact absurd rfl (other scanCode)
  | typed scanCode => exact absurd rfl (other scanCode)
  | vidmapped | started | ended | restarted | clocked => rfl

theorem Step.unmasked {event : Event} {result : Kernel × Reply}
    (fired : Step platform kernel event result) (sound : kernel.processView.Sound)
    (clear : kernel.unmasked) : result.1.unmasked := by
  have leaves := fired.leaves sound
  cases fired with
  | tick esp ebp => exact unmasked_pit esp ebp kernel
  | key scanCode => exact unmasked_key scanCode clear
  | _ =>
      have same := leaves.masterMask rfl (fun _ key => by cases key)
      rw [Kernel.unmasked, same]
      exact clear

end Kernel

/-- Before `launch` a tick finds the timer unmasked and changes nothing. -/
theorem Booted.unmasked {platform : Platform} {kernel : Kernel}
    (booted : Booted platform kernel) : kernel.unmasked := by
  induction booted with
  | boot memory => exact (by decide : (0xFF#8 &&& ~~~(1#8 <<< 2) &&& ~~~(1#8 <<< 0) &&&
      ~~~(1#8 <<< 1)).getLsbD 0 = false)
  | tick esp ebp => exact Kernel.unmasked_pit esp ebp _
  | key scanCode _ induction => exact Kernel.unmasked_key scanCode induction
  | rtcInterrupt _ induction => exact induction

theorem Booted.tick_eq {platform : Platform} {kernel : Kernel}
    (booted : Booted platform kernel) (esp ebp : Int) :
    kernel.pitInterruptHandler esp ebp = (kernel, .handled) := by
  have clear : kernel.masterMask.getLsbD 0 = false := booted.unmasked
  have mask : (kernel.masterMask ||| 1#8 <<< 0) &&& ~~~(1#8 <<< 0) = kernel.masterMask := by
    apply BitVec.eq_of_getLsbD_eq
    intro i inside
    simp only [BitVec.getLsbD_and, BitVec.getLsbD_or, BitVec.getLsbD_not,
      BitVec.shiftLeft_zero, BitVec.getLsbD_one]
    by_cases first : i = 0
    · rw [first, clear]
      decide
    · simp [first, inside]
  have idle := booted.scheduler.1
  simp only [Kernel.pitInterruptHandler, Kernel.disableIrq, Kernel.enableIrq, Nat.reduceLT,
    if_true, idle, mask]
  rw [← idle]

/-! Whole runs. -/

theorem Launched.rotated {platform : Platform} {machine : Machine}
    (began : Launched platform machine) : machine.kernel.Rotated [] := by
  obtain ⟨kernel, frame, entryPoint, memory, booted, result⟩ := began.eq
  have current : kernel.curSchedTerm = 0 := booted.scheduler.2.1
  have nodes := booted.schedArr_eq
  rw [result]
  refine ⟨?_, ?_, ?_, ?_, ?_⟩
  · simp [Kernel.launched, current, tickCount]
  · intro terminal _ pair saved
    cases saved
  · intro terminal other _
    simp only [Kernel.launched, current] at other
    simp [Kernel.launched, nodes, Kernel.firstNode, other]
  · simp [lastSaved, tickCount]
  · intro terminal pair saved
    cases saved

theorem Launched.unmasked {platform : Platform} {machine : Machine}
    (began : Launched platform machine) : machine.kernel.unmasked := by
  obtain ⟨kernel, frame, entryPoint, memory, booted, result⟩ := began.eq
  rw [result]
  exact booted.unmasked

theorem Kernel.Rotated.step {platform : Platform} {trace : List (Transition Machine Event Reply)}
    {transition : Transition Machine Event Reply}
    (rotated : transition.before.kernel.Rotated trace)
    (leaves : Leaves platform transition.before.kernel transition.event
      (transition.after.kernel, transition.reply))
    (onStack : transition.event.onKernelStack) :
    transition.after.kernel.Rotated (trace ++ [transition]) := by
  cases ticks : transition.event.isTick with
  | false => exact rotated.stay leaves ticks
  | true =>
      obtain ⟨before, event, reply, after⟩ := transition
      cases event with
      | tick esp ebp =>
          obtain ⟨mask, result⟩ := leaves.of_tick
          exact rotated.tick rfl onStack.1 (Prod.mk.inj result).1
      | _ => cases ticks

theorem Launched.rotates {platform : Platform} {start machine : Machine}
    {trace : List (Transition Machine Event Reply)} (began : Launched platform start)
    (run : Run (Machine.step platform) start trace machine)
    (onStack : ∀ transition ∈ trace, transition.event.onKernelStack) :
    machine.kernel.Rotated trace := by
  induction run with
  | nil => exact began.rotated
  | snoc before fired induction =>
      have sound := Reachable.sound ⟨_, _, began, before⟩
      have rotated := induction fun transition member =>
        onStack transition (List.mem_append_left _ member)
      exact rotated.step ((Machine.step_kernel fired).leaves sound)
        (onStack _ List.mem_concat_self)

structure SwitchesContexts (earlier : List (Transition Machine Event Reply))
    (transition : Transition Machine Event Reply) : Prop where
  out : transition.before.kernel.curSchedTerm.val = tickCount earlier % 3
  next : transition.after.kernel.curSchedTerm.val = (tickCount earlier + 1) % 3
  fresh : (∃ eip, transition.reply = .enter eip) ↔ tickCount earlier < 2
  loads : (transition.before.kernel.schedArr transition.after.kernel.curSchedTerm).esp ≠ -1 →
    ∃ esp ebp, lastSaved earlier transition.after.kernel.curSchedTerm = some (esp, ebp) ∧
      transition.reply = .switched esp ebp

theorem Kernel.Rotated.switches {platform : Platform}
    {earlier : List (Transition Machine Event Reply)}
    {transition : Transition Machine Event Reply}
    (rotated : transition.before.kernel.Rotated earlier)
    (leaves : Leaves platform transition.before.kernel transition.event
      (transition.after.kernel, transition.reply))
    (ticks : transition.event.isTick = true) : SwitchesContexts earlier transition := by
  obtain ⟨before, event, reply, after⟩ := transition
  obtain ⟨next, answer⟩ : after.kernel.curSchedTerm = before.kernel.curSchedTerm + 1 ∧
      reply = switchReply (before.kernel.schedArr (before.kernel.curSchedTerm + 1))
        before.kernel.programAddrTest := by
    cases event with
    | tick esp ebp =>
        obtain ⟨mask, result⟩ := leaves.of_tick
        obtain ⟨switched, answer⟩ := Prod.mk.inj result
        simp only at switched answer
        rw [switched, answer]
        exact ⟨rfl, rfl⟩
    | _ => cases ticks
  have turn : before.kernel.curSchedTerm.val = tickCount earlier % 3 := rotated.turn
  have number : (before.kernel.curSchedTerm + 1).val = (tickCount earlier + 1) % 3 := by
    rw [Fin.val_add, turn]
    simp [Nat.add_mod]
  have other := next_ne before.kernel.curSchedTerm
  have started := rotated.started (before.kernel.curSchedTerm + 1)
  cases saved : lastSaved earlier (before.kernel.curSchedTerm + 1) with
  | none =>
      have fresh : (before.kernel.schedArr (before.kernel.curSchedTerm + 1)).esp = -1 :=
        rotated.fresh _ other saved
      have few := started.mp saved
      rw [switchReply, if_pos fresh] at answer
      refine ⟨turn, by rw [next, number], ?_, ?_⟩
      · rw [answer]
        exact ⟨fun _ => by omega, fun _ => ⟨_, rfl⟩⟩
      · intro stored
        rw [next] at stored
        exact absurd fresh stored
  | some pair =>
      obtain ⟨esp, ebp⟩ :
          (before.kernel.schedArr (before.kernel.curSchedTerm + 1)).esp = pair.1 ∧
          (before.kernel.schedArr (before.kernel.curSchedTerm + 1)).ebp = pair.2 :=
        rotated.loaded _ other pair saved
      have high := rotated.onStack _ pair saved
      have many : ¬ tickCount earlier ≤ (before.kernel.curSchedTerm + 1).val := fun few => by
        rw [started.mpr few] at saved
        cases saved
      have kept : (before.kernel.schedArr (before.kernel.curSchedTerm + 1)).esp ≠ -1 := by
        rw [esp]
        simp only [kernelAddr] at high
        omega
      rw [switchReply, if_neg kept, esp, ebp] at answer
      refine ⟨turn, by rw [next, number], ?_, ?_⟩
      · rw [answer]
        constructor
        · rintro ⟨eip, entered⟩
          cases entered
        · omega
      · intro _
        exact ⟨pair.1, pair.2, by rw [next, saved], answer⟩

/-- The scheduler gives every terminal back the stack it left: in strict rotation,
entering a program only at the first two ticks, and with the timer unmasked after
every event.  Ticks before `launch` change nothing. -/
theorem Launched.keepsContexts {platform : Platform} {start machine : Machine}
    {trace : List (Transition Machine Event Reply)} (began : Launched platform start)
    (run : Run (Machine.step platform) start trace machine)
    (onStack : ∀ transition ∈ trace, transition.event.onKernelStack) :
    (∀ kernel esp ebp, Booted platform kernel →
        kernel.pitInterruptHandler esp ebp = (kernel, .handled)) ∧
      (∀ earlier transition later, trace = earlier ++ transition :: later →
        transition.event.isTick = true → SwitchesContexts earlier transition) ∧
      start.kernel.unmasked ∧ ∀ transition ∈ trace, transition.after.kernel.unmasked := by
  refine ⟨fun _ esp ebp booted => booted.tick_eq esp ebp, ?_, began.unmasked, ?_⟩
  · intro earlier transition later whole ticks
    subst whole
    obtain ⟨before, fired⟩ := run.split
    have rotated := began.rotates before fun other member =>
      onStack other (List.mem_append_left _ member)
    exact rotated.switches
      ((Machine.step_kernel fired).leaves (Reachable.sound ⟨_, _, began, before⟩)) ticks
  · intro transition member
    obtain ⟨⟨shorter, before⟩, fired⟩ := run.reached member
    have clear : transition.before.kernel.unmasked := by
      have both : transition.before.kernel.processView.Sound ∧
          transition.before.kernel.unmasked := by
        refine before.invariant
          (fun machine => machine.kernel.processView.Sound ∧ machine.kernel.unmasked) ?_
          ⟨began.sound, began.unmasked⟩
        intro state next event reply holds fired
        have step := Machine.step_kernel fired
        exact ⟨(step.effect holds.1).sound holds.1, step.unmasked holds.1 holds.2⟩
      exact both.2
    exact (Machine.step_kernel fired).unmasked (Reachable.sound ⟨_, _, began, before⟩) clear

theorem keepsContexts_sample :
    ∃ trace, trace.map Transition.event = [Event.tick 0x7FFF00 0x7FFF40,
        .execute shellName Sample.frame, .tick 0x7FDF00 0x7FDF40, .tick 0x7FBF00 0x7FBF40] ∧
      ∀ earlier transition later, trace = earlier ++ transition :: later →
        transition.event.isTick = true → SwitchesContexts earlier transition := by
  obtain ⟨trace, run, events⟩ := Sample.runs [Event.tick 0x7FFF00 0x7FFF40,
    .execute shellName Sample.frame, .tick 0x7FDF00 0x7FDF40, .tick 0x7FBF00 0x7FBF40]
    (by decide +kernel)
  refine ⟨trace, events, (Sample.launched.keepsContexts run ?_).2.1⟩
  intro transition member
  have listed := List.mem_map_of_mem (f := Transition.event) member
  rw [events] at listed
  simp only [List.mem_cons, List.not_mem_nil, or_false] at listed
  rcases listed with event | event | event | event
  all_goals
    rw [event]
    simp [Event.onKernelStack, kernelAddr, eightMb]

end Ece391Os
