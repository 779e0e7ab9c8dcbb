import Ece391Os.Process.Invariant

namespace Ece391Os

open Data

/-! What each event leaves, with the answer it gives. -/

def Event.ends : Event → Bool
  | halt _ | exception _ => true
  | _ => false

def Event.isTick : Event → Bool
  | tick _ _ => true
  | _ => false

namespace Kernel

/-- The answer of `switch_process` to a tick: the first instruction of a terminal
that never ran, or the stack the terminal left. -/
def switchReply (node : SchedNode) (eip : Nat) : Reply :=
  if node.esp = -1 then .enter eip else .switched node.esp node.ebp

/-- A sound kernel after an event, and the answer.  A call that is refused is
`serviced` with no change. -/
inductive Leaves (platform : Platform) (kernel : Kernel) : Event → Kernel × Reply → Prop
  | serviced {event : Event} {kernel' : Kernel} {reply : Reply} (call : event.isCall = true)
      (done : Serviced (kernel.currentPcb platform) kernel kernel')
      (returns : ∀ eip, reply ≠ .enter eip) : Leaves platform kernel event (kernel', reply)
  | vidmapped {screenStart : Nat} {reply : Reply} (memory : Memory)
      (accepted : inUserPage screenStart) (returns : ∀ eip, reply ≠ .enter eip) :
      Leaves platform kernel (.vidmap screenStart)
        (kernel.vidmapped (kernel.currentPcb platform) memory, reply)
  | started {command : CString} {frame : StackFrame} {slot : Nat} (memory : Memory)
      (eip : Nat) (found : findSlot kernel.processArray = some slot) :
      Leaves platform kernel (.execute command frame)
        ({ kernel with processArray := Function.update kernel.processArray slot 1 }.started
          (childPcb frame command (slot + 1) kernel.running.processNum) memory, .enter eip)
  | ended {event : Event} (console : Console) (status : Int) (ends : event.ends = true)
      (child : ¬ isBaseShell kernel.running.processNum) :
      Leaves platform kernel event
        (kernel.terminated (kernel.currentPcb platform) console, .resume status)
  | restarted (status : UInt8) (base : isBaseShell kernel.running.processNum) :
      Leaves platform kernel (.halt status) (kernel, .enter kernel.programAddrTest)
  | ticked (esp ebp : Int) (mask : BitVec 8) :
      Leaves platform kernel (.tick esp ebp) (kernel.ticked esp ebp mask,
        switchReply (kernel.schedArr (kernel.curSchedTerm + 1)) kernel.programAddrTest)
  | ignored (scanCode : UInt8) (mask : BitVec 8) :
      Leaves platform kernel (.key scanCode) ({ kernel with masterMask := mask }, .handled)
  | typed (scanCode : UInt8) (mask : BitVec 8) :
      Leaves platform kernel (.key scanCode)
        (kernel.typed (kernel.keyConsole scanCode) mask, .handled)
  | clocked (mask : BitVec 8) :
      Leaves platform kernel .rtcInterrupt
        ({ kernel with rtc := kernel.rtc.interruptHandler, slaveMask := mask }, .handled)

variable {platform : Platform} {kernel : Kernel}

theorem Leaves.of_serviced {event : Event} {result : Kernel × Reply}
    (call : event.isCall = true)
    (done : Serviced (kernel.currentPcb platform) kernel result.1)
    (returns : ∀ eip, result.2 ≠ .enter eip) : Leaves platform kernel event result :=
  .serviced call done returns

theorem Leaves.refused {event : Event} {value : Int} (call : event.isCall = true) :
    Leaves platform kernel event (kernel, .ret value) :=
  .serviced call (.refl _ kernel) fun _ entered => by cases entered

theorem Leaves.of_tick {esp ebp : Int} {result : Kernel × Reply}
    (leaves : Leaves platform kernel (.tick esp ebp) result) :
    ∃ mask, result = (kernel.ticked esp ebp mask,
      switchReply (kernel.schedArr (kernel.curSchedTerm + 1)) kernel.programAddrTest) := by
  cases leaves with
  | serviced call => cases call
  | ended _ _ ends => cases ends
  | ticked _ _ mask => exact ⟨mask, rfl⟩

theorem next_ne (terminal : Fin 3) : terminal + 1 ≠ terminal := by
  revert terminal
  decide

theorem pitInterruptHandler_reply (esp ebp : Int) (active : kernel.prevSchedTerm ≠ none) :
    (kernel.pitInterruptHandler esp ebp).2 =
      switchReply (kernel.schedArr (kernel.curSchedTerm + 1)) kernel.programAddrTest := by
  obtain ⟨previous, active⟩ := Option.ne_none_iff_exists'.mp active
  have other := next_ne kernel.curSchedTerm
  simp only [pitInterruptHandler, disableIrq, enableIrq, Nat.reduceLT, if_true, active,
    switchProcess, switchReply]
  by_cases mapped : (kernel.schedArr (kernel.curSchedTerm + 1)).vidMap = 1 <;>
    split <;>
    simp_all [remapScheduled, running, setPageDirEntry, setPageTable1Entry,
      setPageTable2Entry, setPrintTerminal]

/-! Calls that return to their caller. -/

theorem read_returns (platform : Platform) (fd : Int) (buf : Option Memory) (nbytes : Int)
    (kernel : Kernel) (eip : Nat) : (kernel.read platform fd buf nbytes).2 ≠ .enter eip := by
  simp only [read]
  repeat' split
  all_goals
    intro entered
    cases entered

theorem finishRead_returns {pending : BlockedRead} {result : Kernel × Reply}
    (ready : kernel.finishRead pending = some result) (eip : Nat) : result.2 ≠ .enter eip := by
  intro entered
  obtain ⟨buf, nbytes, -, -, rfl⟩ | ⟨-, -, rfl⟩ := finishRead_cases ready
  · cases entered
  · cases entered

theorem write_returns (platform : Platform) (fd : Int) (buf : Option Memory) (nbytes : Int)
    (kernel : Kernel) (eip : Nat) : (kernel.write platform fd buf nbytes).2 ≠ .enter eip := by
  simp only [write]
  repeat' split
  all_goals
    intro entered
    cases entered

theorem openFile_returns (platform : Platform) (filename : Option CString) (kernel : Kernel)
    (eip : Nat) : (kernel.openFile platform filename).2 ≠ .enter eip := by
  simp only [openFile]
  repeat' split
  all_goals
    intro entered
    cases entered

theorem getargs_returns (platform : Platform) (buf : Nat) (nbytes : Int) (kernel : Kernel)
    (eip : Nat) : (kernel.getargs platform buf nbytes).2 ≠ .enter eip := by
  simp only [getargs]
  repeat' split
  all_goals
    intro entered
    cases entered

/-! Every event. -/

theorem vidmap_leaves (platform : Platform) (screenStart : Nat) (kernel : Kernel) :
    Leaves platform kernel (.vidmap screenStart) (kernel.vidmap platform screenStart) := by
  rcases vidmap_cases platform screenStart kernel with
    refused | ⟨inside, memory, reply, returns, mapped⟩
  · rw [refused]
    exact .refused rfl
  · rw [mapped]
    exact .vidmapped memory inside returns

theorem execute_leaves (command : CString) (frame : StackFrame)
    (sound : kernel.processView.Sound) :
    Leaves platform kernel (.execute command frame)
      (kernel.execute platform command frame) := by
  rcases execute_outcome platform command frame sound with
    refused | ⟨_, _, memory, eip, found, succeeded⟩
  · rw [refused]
    exact .refused rfl
  · rw [succeeded]
    exact .started memory eip found

theorem halt_leaves (status : UInt8) (sound : kernel.processView.Sound) :
    Leaves platform kernel (.halt status) (kernel.halt platform status) := by
  obtain ⟨address, own⟩ := currentPcb_running platform sound
  have named : (kernel.pcbAt (kernel.currentPcb platform)).pid =
      kernel.running.processNum := by
    rw [address]
    exact own
  by_cases base : isBaseShell kernel.running.processNum
  · rw [halt_base status (by rwa [named])]
    exact .restarted status base
  · rw [← named] at base
    obtain ⟨console, _, halted⟩ := halt_eq status base
    rw [named] at base
    rw [halted]
    exact .ended console _ rfl base

theorem exception_leaves (vector : ExceptionVector) (sound : kernel.processView.Sound)
    (child : (kernel.pcbAt (kernel.currentPcb platform)).parentPid ≠ 0) :
    Leaves platform kernel (.exception vector) (kernel.exceptionHandler platform vector) := by
  obtain ⟨console, _, ended⟩ := exceptionHandler_eq platform vector kernel
  rw [(currentPcb_running platform sound).1] at child
  rw [ended]
  exact .ended console _ rfl fun base => child ((running_orphan_iff sound).mpr base)

theorem tick_leaves (esp ebp : Int) (sound : kernel.processView.Sound) :
    Leaves platform kernel (.tick esp ebp) (kernel.pitInterruptHandler esp ebp) := by
  obtain ⟨_, _, runs⟩ := sound
  have reply := pitInterruptHandler_reply esp ebp runs.active
  obtain ⟨mask, switched⟩ := pitInterruptHandler_eq esp ebp runs.active
  have both : kernel.pitInterruptHandler esp ebp = (kernel.ticked esp ebp mask,
      switchReply (kernel.schedArr (kernel.curSchedTerm + 1)) kernel.programAddrTest) :=
    Prod.ext switched reply
  rw [both]
  exact .ticked esp ebp mask

theorem Step.leaves {event : Event} {result : Kernel × Reply}
    (fired : Step platform kernel event result) (sound : kernel.processView.Sound) :
    Leaves platform kernel event result := by
  cases fired with
  | halt status => exact halt_leaves status sound
  | execute command frame => exact execute_leaves command frame sound
  | exception vector child => exact exception_leaves vector sound child
  | tick esp ebp => exact tick_leaves esp ebp sound
  | vidmap screenStart => exact vidmap_leaves platform screenStart kernel
  | read fd buf nbytes =>
      exact .of_serviced rfl (read_serviced ..) (read_returns platform fd buf nbytes kernel)
  | finishRead pending result ready =>
      exact .of_serviced rfl (finishRead_serviced _ ready) (finishRead_returns ready)
  | write fd buf nbytes =>
      exact .of_serviced rfl (write_serviced ..) (write_returns platform fd buf nbytes kernel)
  | openFile filename =>
      exact .of_serviced rfl (openFile_serviced ..) (openFile_returns platform filename kernel)
  | close =>
      exact .of_serviced rfl (close_serviced ..) fun _ entered => by cases entered
  | getargs buf nbytes =>
      exact .of_serviced rfl (getargs_serviced ..) (getargs_returns platform buf nbytes kernel)
  | setHandler => exact .refused rfl
  | sigreturn => exact .refused rfl
  | key scanCode =>
      obtain ⟨mask, ignored | typed⟩ := kernel.keyboardInterruptHandler_cases scanCode
      · rw [ignored]
        exact .ignored scanCode mask
      · rw [typed]
        exact .typed scanCode mask
  | rtcInterrupt => exact .clocked _

/-! The live processes across an event. -/

/-- A new process takes the PCB of no live one. -/
theorem pcb_started {slot : Nat} {pid : Int} {child : Pcb} (slots : Int → Int)
    (memory : Memory) (found : findSlot kernel.processArray = some slot)
    (named : child.pid = slot + 1) (alive : kernel.live pid) :
    ({ kernel with processArray := slots }.started child memory).pcb pid = kernel.pcb pid := by
  obtain ⟨inside, free⟩ := findSlot_some found
  have different : pid ≠ (slot : Int) + 1 := by
    rintro rfl
    exact alive.2 (by simpa using free)
  have upper : (slot : Int) + 1 ≤ 6 := by
    simp only [maxProgs] at inside
    omega
  have apart : pcbAddr pid ≠ pcbAddr child.pid := by
    rw [named]
    exact fun same => different
      (pcbAddr_injective alive.1.1 alive.1.2 (by omega) upper same)
  rw [pcb, started_pcbAt, Function.update_of_ne apart]
  rfl

/-- The PCB of a live process changes only while it runs. -/
theorem Leaves.pcb_kept {event : Event} {result : Kernel × Reply} {pid : Int}
    (leaves : Leaves platform kernel event result) (sound : kernel.processView.Sound)
    (alive : kernel.live pid) (other : pid ≠ kernel.running.processNum) :
    result.1.pcb pid = kernel.pcb pid := by
  have apart : pcbAddr pid ≠ kernel.currentPcb platform := by
    rw [(currentPcb_running platform sound).1]
    exact pcbAddr_ne_of_live alive (live_running sound) other
  cases leaves with
  | serviced _ done =>
      obtain ⟨fdt, console, rtc, memory, rfl⟩ := done
      exact Function.update_of_ne apart _ _
  | vidmapped => exact Function.update_of_ne apart _ _
  | ended => exact Function.update_of_ne apart _ _
  | started memory eip found => exact pcb_started _ memory found rfl alive
  | restarted | ticked | ignored | typed | clocked => rfl

structure Chained (kernel : Kernel) (chains : Fin 3 → List Int) : Prop where
  holds : kernel.processView.Holds chains
  runs : kernel.processView.Runs chains

section Chains

variable {chains : Fin 3 → List Int} {terminal : Fin 3} {pid : Int}

theorem Chained.sound (chained : kernel.Chained chains) : kernel.processView.Sound :=
  ⟨chains, chained.holds, chained.runs⟩

theorem Chained.top (chained : kernel.Chained chains) (terminal : Fin 3) :
    (kernel.schedArr terminal).processNum ∈ chains terminal :=
  List.mem_of_mem_head? (chained.runs.current terminal)

theorem Chained.live (chained : kernel.Chained chains) (member : pid ∈ chains terminal) :
    kernel.live pid :=
  (chained.holds.used pid).mp ⟨terminal, member⟩

theorem Chained.congr {kernel' : Kernel} (chained : kernel.Chained chains)
    (same : kernel'.processView = kernel.processView) : kernel'.Chained chains :=
  ⟨same ▸ chained.holds, same ▸ chained.runs⟩

/-- What an event makes of the chains: a live process stays on its terminal, and
only `execute` adds one. -/
structure Passes (kernel : Kernel) (event : Event) (kernel' : Kernel)
    (chains chains' : Fin 3 → List Int) : Prop where
  chained : kernel'.Chained chains'
  stays : ∀ terminal, ∀ pid ∈ chains terminal, kernel'.live pid → pid ∈ chains' terminal
  comes : ∀ terminal, ∀ pid ∈ chains' terminal, pid ∈ chains terminal ∨
    event.isExecute = true ∧ terminal = kernel.curSchedTerm ∧ pid = kernel'.running.processNum

theorem Passes.same {kernel' : Kernel} {event : Event} (chained : kernel'.Chained chains) :
    Passes kernel event kernel' chains chains :=
  ⟨chained, fun _ _ member _ => member, fun _ _ member => .inl member⟩

theorem started_passes {slot : Nat} (command : CString) (frame : StackFrame) (memory : Memory)
    (chained : kernel.Chained chains) (found : findSlot kernel.processArray = some slot) :
    Passes kernel (.execute command frame)
      ({ kernel with processArray := Function.update kernel.processArray slot 1 }.started
        (childPcb frame command (slot + 1) kernel.running.processNum) memory) chains
      (Function.update chains kernel.curSchedTerm
        (((slot : Int) + 1) :: chains kernel.curSchedTerm)) := by
  have holds := holds_started command frame memory chained.holds
    (chained.runs.current kernel.curSchedTerm) found
  have runs := runs_started command frame memory chained.runs found
  rw [claimSlot_some _ found] at holds runs
  refine ⟨⟨holds, runs⟩, ?_, ?_⟩
  · intro terminal pid member _
    by_cases here : terminal = kernel.curSchedTerm
    · subst here
      rw [Function.update_self]
      exact List.mem_cons_of_mem _ member
    · rwa [Function.update_of_ne here]
  · intro terminal pid member
    by_cases here : terminal = kernel.curSchedTerm
    · subst here
      rw [Function.update_self] at member
      rcases List.mem_cons.mp member with rfl | older
      · exact .inr ⟨rfl, rfl, by simp [running, started, childPcb]⟩
      · exact .inl older
    · rw [Function.update_of_ne here] at member
      exact .inl member

theorem terminated_passes {event : Event} {pid next : Int} {older : List Int}
    (console : Console) (chained : kernel.Chained chains)
    (shape : chains kernel.curSchedTerm = pid :: next :: older) :
    Passes kernel event (kernel.terminated (pcbAddr pid) console) chains
      (Function.update chains kernel.curSchedTerm (next :: older)) := by
  have own : (kernel.pcbAt (pcbAddr pid)).pid = pid :=
    chained.holds.pid kernel.curSchedTerm _ (by simp [shape])
  refine ⟨⟨holds_terminated console chained.holds shape,
    runs_terminated console chained.holds chained.runs shape⟩, ?_, ?_⟩
  · intro terminal other member alive
    by_cases here : terminal = kernel.curSchedTerm
    · subst here
      rw [Function.update_self]
      rw [shape] at member
      rcases List.mem_cons.mp member with rfl | rest
      · refine absurd ?_ alive.2
        simp [terminated, own]
      · exact rest
    · rwa [Function.update_of_ne here]
  · intro terminal other member
    by_cases here : terminal = kernel.curSchedTerm
    · subst here
      rw [Function.update_self] at member
      rw [shape]
      exact .inl (List.mem_cons_of_mem _ member)
    · rw [Function.update_of_ne here] at member
      exact .inl member

theorem Leaves.passes {event : Event} {result : Kernel × Reply}
    (leaves : Leaves platform kernel event result) (chained : kernel.Chained chains) :
    ∃ chains', Passes kernel event result.1 chains chains' := by
  cases leaves with
  | serviced _ done => exact ⟨chains, .same (chained.congr (processView_serviced done))⟩
  | vidmapped memory =>
      exact ⟨chains, .same (chained.congr (processView_vidmapped _ memory kernel))⟩
  | started memory eip found => exact ⟨_, started_passes _ _ memory chained found⟩
  | ended console status ends child =>
      rw [(currentPcb_running platform chained.sound).1]
      obtain ⟨older, shape⟩ :=
        chain_of_child chained.holds (chained.runs.current kernel.curSchedTerm) child
      exact ⟨_, terminated_passes console chained shape⟩
  | ticked esp ebp mask =>
      obtain ⟨holds, runs⟩ := chains_ticked esp ebp mask chained.holds chained.runs
      exact ⟨chains, .same ⟨holds, runs⟩⟩
  | restarted | ignored | typed | clocked => exact ⟨chains, .same (chained.congr rfl)⟩

end Chains

end Kernel

end Ece391Os
