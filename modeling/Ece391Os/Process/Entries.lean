import Ece391Os.Files.DescriptorRuns
import Ece391Os.Process.Contexts

namespace Ece391Os

open Data

/-! The environment a program finds at its first instruction. -/

/-- The control block of a program that has not run: stdin and stdout are open,
the other descriptors are free, and the video page is not mapped. -/
structure Pcb.Clean (pcb : Pcb) : Prop where
  stdin : (pcb.fdt 0).flags = 1 ∧ (pcb.fdt 0).jumpPtr = .stdinTable
  stdout : (pcb.fdt 1).flags = 1 ∧ (pcb.fdt 1).jumpPtr = .stdoutTable
  free : ∀ fd, 2 ≤ fd → fd ≤ maxFdNum → (pcb.fdt fd).flags = -1
  vidmem : pcb.vidmem = 0

theorem Pcb.Clean.fresh {pcb : Pcb} {stale : FdTable} (fdt : pcb.fdt = freshFdt stale)
    (vidmem : pcb.vidmem = 0) : pcb.Clean := by
  refine ⟨?_, ?_, ?_, vidmem⟩
  · rw [fdt]
    exact ⟨rfl, rfl⟩
  · rw [fdt]
    exact ⟨rfl, rfl⟩
  · intro fd above below
    rw [fdt, freshFdt, if_neg (by omega), if_neg (by omega), if_pos ⟨above, below⟩]

namespace Kernel

def entered (kernel : Kernel) : Pcb := kernel.pcb kernel.running.processNum

def Waiting (kernel : Kernel) : Prop :=
  ∀ terminal, terminal ≠ kernel.curSchedTerm → (kernel.schedArr terminal).esp = -1 →
    (kernel.pcb (kernel.schedArr terminal).processNum).Clean

variable {platform : Platform} {kernel : Kernel}

theorem processNum_ne_running {terminal : Fin 3} (sound : kernel.processView.Sound)
    (other : terminal ≠ kernel.curSchedTerm) :
    kernel.live (kernel.schedArr terminal).processNum ∧
      (kernel.schedArr terminal).processNum ≠ kernel.running.processNum := by
  obtain ⟨chains, holds, runs⟩ := sound
  have chained : kernel.Chained chains := ⟨holds, runs⟩
  refine ⟨chained.live (chained.top terminal), fun same => other ?_⟩
  have member := chained.top terminal
  rw [same] at member
  exact holds.forest.eq_of_mem member (chained.top kernel.curSchedTerm)

theorem Waiting.step {event : Event} {result : Kernel × Reply} (waiting : kernel.Waiting)
    (leaves : Leaves platform kernel event result) (sound : kernel.processView.Sound)
    (onStack : event.onKernelStack) : result.1.Waiting := by
  cases ticks : event.isTick with
  | false =>
      obtain ⟨current, nodes⟩ := leaves.others ticks
      intro terminal other unsaved
      rw [current] at other
      rw [nodes terminal other] at unsaved ⊢
      obtain ⟨alive, apart⟩ := processNum_ne_running sound other
      rw [leaves.pcb_kept sound alive apart]
      exact waiting terminal other unsaved
  | true =>
      cases event with
      | tick esp ebp =>
          obtain ⟨mask, rfl⟩ := leaves.of_tick
          intro terminal _ unsaved
          by_cases out : terminal = kernel.curSchedTerm
          · subst out
            simp only [ticked, Function.update_self] at unsaved
            have high := onStack.1
            simp only [kernelAddr] at high
            omega
          · simp only [ticked, Function.update_of_ne out] at unsaved ⊢
            exact waiting terminal out unsaved
      | _ => cases ticks

/-- A process entered by `execute` or for the first time by a tick is clean; a base
shell that halts is entered as it is. -/
theorem Leaves.entered {event : Event} {result : Kernel × Reply} {eip : Nat}
    (leaves : Leaves platform kernel event result) (waiting : kernel.Waiting)
    (enters : result.2 = .enter eip) :
    (event.isHalt = false ∧ result.1.entered.Clean) ∨
      (event.isHalt = true ∧ result.1 = kernel) := by
  cases leaves with
  | serviced _ _ returns => exact absurd enters (returns eip)
  | vidmapped _ _ returns => exact absurd enters (returns eip)
  | ended => cases enters
  | restarted => exact .inr ⟨rfl, rfl⟩
  | @started command frame slot memory eip found =>
      refine .inl ⟨rfl, ?_⟩
      have child : ({ kernel with processArray := Function.update kernel.processArray slot 1
          }.started (childPcb frame command (slot + 1) kernel.running.processNum)
            memory).entered = childPcb frame command (slot + 1) kernel.running.processNum := by
        simp [Kernel.entered, pcb, running, Kernel.started, childPcb]
      rw [child]
      exact .fresh rfl rfl
  | ticked esp ebp mask =>
      refine .inl ⟨rfl, ?_⟩
      have other := next_ne kernel.curSchedTerm
      have next : (kernel.ticked esp ebp mask).entered =
          kernel.pcb (kernel.schedArr (kernel.curSchedTerm + 1)).processNum := by
        simp [Kernel.entered, pcb, running, Kernel.ticked, other]
      rw [next]
      apply waiting _ other
      by_contra stored
      simp only [switchReply, if_neg stored] at enters
      cases enters
  | ignored | typed | clocked => cases enters

end Kernel

def Machine.LeavesNothing (machine : Machine) (event : Event) : Prop :=
  event.isHalt = true →
    (∀ fd, 2 ≤ fd → fd ≤ maxFdNum → (machine.callerTable fd).flags = -1) ∧
      machine.kernel.entered.vidmem = 0

theorem Launched.waiting {platform : Platform} {machine : Machine}
    (began : Launched platform machine) : machine.kernel.Waiting := by
  intro terminal other unsaved
  have chained := began.chains
  have base : baseShell terminal = (machine.kernel.schedArr terminal).processNum :=
    Option.some.inj (chained.2.current terminal)
  obtain ⟨kernel, frame, entryPoint, memory, _, result⟩ := began.eq
  rw [← base, result, Kernel.pcb, Kernel.launched_pcb]
  exact .fresh rfl rfl

theorem Launched.entered {platform : Platform} {machine : Machine}
    (began : Launched platform machine) : machine.kernel.entered.Clean := by
  have base : baseShell machine.kernel.curSchedTerm = machine.kernel.running.processNum :=
    Option.some.inj (began.chains.2.current machine.kernel.curSchedTerm)
  obtain ⟨kernel, frame, entryPoint, memory, _, result⟩ := began.eq
  rw [Kernel.entered, ← base, result, Kernel.pcb, Kernel.launched_pcb]
  exact .fresh rfl rfl

theorem Launched.waitingAfter {platform : Platform} {start machine : Machine} {trace : Trace}
    (began : Launched platform start) (run : Run (Machine.step platform) start trace machine)
    (onStack : ∀ transition ∈ trace, transition.event.onKernelStack) :
    machine.kernel.Waiting := by
  induction run with
  | nil => exact began.waiting
  | snoc before fired induction =>
      have sound := Reachable.sound ⟨_, _, began, before⟩
      have waiting := induction fun transition member =>
        onStack transition (List.mem_append_left _ member)
      exact waiting.step ((Machine.step_kernel fired).leaves sound) sound
        (onStack _ List.mem_concat_self)

/-- Every program starts clean, but for a base shell that `halt` restarts with
descriptors still open or the video page still mapped. -/
theorem Launched.entersClean_iff {platform : Platform} {start machine : Machine} {trace : Trace}
    (began : Launched platform start) (run : Run (Machine.step platform) start trace machine)
    (onStack : ∀ transition ∈ trace, transition.event.onKernelStack) :
    start.kernel.entered.Clean ∧
      ∀ transition ∈ trace, (∃ eip, transition.reply = .enter eip) →
        (transition.after.kernel.entered.Clean ↔
          transition.before.LeavesNothing transition.event) := by
  refine ⟨began.entered, ?_⟩
  rintro transition member ⟨eip, enters⟩
  obtain ⟨left, right, rfl⟩ := List.append_of_mem member
  obtain ⟨before, fired⟩ := run.split
  have sound := Reachable.sound ⟨_, _, began, before⟩
  have waiting := began.waitingAfter before fun other inside =>
    onStack other (List.mem_append_left _ inside)
  have valid := (began.descriptorsAfter before (Kernel.live_running sound)).valid
  have leaves := (Machine.step_kernel fired).leaves sound
  rcases leaves.entered waiting enters with ⟨other, clean⟩ | ⟨halts, same⟩
  · exact iff_of_true clean fun halts => by
      rw [other] at halts
      cases halts
  · simp only at same
    rw [same]
    constructor
    · intro clean _
      exact ⟨clean.free, clean.vidmem⟩
    · intro nothing
      obtain ⟨free, vidmem⟩ := nothing halts
      exact ⟨valid.stdin, valid.stdout, free, vidmem⟩

namespace Sample

def entries : List Event :=
  [.tick 0x7FFF00 0x7FFF40, .openFile (some shellName), .close 2, .halt 0,
    .execute shellName frame]

theorem entries_fire : (runEvents (Machine.step platform) start entries).isSome = true := by
  decide +kernel

theorem opens_fires : (start.step platform (.openFile (some shellName))).isSome = true := by
  decide +kernel

theorem restarts_fires :
    ((fire start (.openFile (some shellName)) opens_fires).after.step platform
      (.halt 0)).isSome = true := by
  decide +kernel

end Sample

theorem entersClean_sample :
    ∃ trace : Trace, trace.map Transition.event = Sample.entries ∧
      Sample.start.kernel.entered.Clean ∧
      ∀ transition ∈ trace, (∃ eip, transition.reply = .enter eip) →
        (transition.after.kernel.entered.Clean ↔
          transition.before.LeavesNothing transition.event) := by
  obtain ⟨trace, run, events⟩ := Sample.runs Sample.entries Sample.entries_fire
  refine ⟨trace, events, Sample.launched.entersClean_iff run ?_⟩
  intro transition member
  have listed : transition.event ∈ Sample.entries := events ▸ List.mem_map_of_mem member
  simp only [Sample.entries, List.mem_cons, List.not_mem_nil, or_false] at listed
  rcases listed with event | event | event | event | event
  all_goals
    rw [event]
    simp [Event.onKernelStack, kernelAddr, eightMb]

theorem restarted_unclean :
    ¬ ∀ (platform : Platform) (start machine : Machine) (trace : Trace),
      Launched platform start → Run (Machine.step platform) start trace machine →
      (∀ transition ∈ trace, transition.event.onKernelStack) →
      ∀ transition ∈ trace, (∃ eip, transition.reply = .enter eip) →
        transition.after.kernel.entered.Clean := by
  intro always
  have fired := Sample.fire_eq _ (.halt 0) Sample.restarts_fires
  rw [Machine.step] at fired
  have halted := (Machine.call_eq_some fired).2
  rw [Kernel.halt_base 0 (by decide +kernel)] at halted
  have run := Sample.fire_twice Sample.start (.openFile (some shellName)) (.halt 0)
    Sample.opens_fires Sample.restarts_fires
  have clean := always Sample.platform Sample.start _ _ Sample.launched run (by
    intro transition member
    simp only [List.mem_cons, List.not_mem_nil, or_false] at member
    rcases member with rfl | rfl
    · trivial
    · trivial) _ (List.mem_cons_of_mem _ List.mem_cons_self) ⟨_, (Prod.mk.inj halted).2.symm⟩
  have free := clean.free 2 (by decide) (by decide)
  revert free
  decide +kernel

end Ece391Os
