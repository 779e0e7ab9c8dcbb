import Ece391Os.Process.Table

namespace Ece391Os

open Data

/-! The process table over whole runs. -/

def ProcessView.Sound (view : ProcessView) : Prop :=
  ∃ chains, view.Holds chains ∧ view.Runs chains

@[simp] theorem pageDirectory_userProg (virtual physical : Int) (pages : PageTables)
    (same : directorySlot virtual = directorySlot userProg) :
    (pages.setPageDirEntry virtual physical).pageDirectory (directorySlot userProg) =
      BitVec.ofInt 32 physical ||| 0x087#32 := by
  simp [PageTables.setPageDirEntry, same]

namespace Kernel

/-! Events that leave the process table alone. -/

theorem value_update {α β γ : Type} [DecidableEq α] {f : α → β} {place : α} {new : β}
    (value : β → γ) (same : value new = value (f place)) :
    (fun other => value (Function.update f place new other)) =
      fun other => value (f other) := by
  funext other
  by_cases here : other = place
  · rw [here, Function.update_self, same]
  · rw [Function.update_of_ne here]

theorem processView_serviced {kernel kernel' : Kernel} {address : Nat}
    (done : Serviced address kernel kernel') :
    kernel'.processView = kernel.processView := by
  obtain ⟨fdt, console, rtc, memory, rfl⟩ := done
  simp only [processView, serviced]
  congr 1
  · exact value_update Pcb.pid rfl
  · exact value_update Pcb.parentPid rfl
  · exact value_update Pcb.parentEsp rfl
  · exact value_update Pcb.parentEbp rfl

theorem processView_vidmapped (address : Nat) (memory : Memory) (kernel : Kernel) :
    (kernel.vidmapped address memory).processView = kernel.processView := by
  simp only [processView, vidmapped]
  congr 1
  · exact value_update Pcb.pid rfl
  · exact value_update Pcb.parentPid rfl
  · exact value_update Pcb.parentEsp rfl
  · exact value_update Pcb.parentEbp rfl
  · exact value_update SchedNode.processNum rfl

/-! Starting, ending and switching processes. -/

theorem holds_started {kernel : Kernel} {chains : Fin 3 → List Int} {slot : Nat}
    (command : CString) (frame : StackFrame) (memory : Memory)
    (holds : kernel.processView.Holds chains)
    (top : (chains kernel.curSchedTerm).head? = some kernel.running.processNum)
    (found : findSlot kernel.processArray = some slot) :
    ((kernel.claimSlot frame.pcb.pid).2.started
      (childPcb frame command (kernel.claimSlot frame.pcb.pid).1
        kernel.running.processNum) memory).processView.Holds
      (Function.update chains kernel.curSchedTerm
        (((slot : Int) + 1) :: chains kernel.curSchedTerm)) := by
  obtain ⟨inside, free⟩ := findSlot_some found
  rw [claimSlot_some _ found]
  have range : 1 ≤ (slot : Int) + 1 ∧ (slot : Int) + 1 ≤ 6 := by
    simp only [maxProgs] at inside
    omega
  have freeSlot : kernel.processArray ((slot : Int) + 1 - 1) = -1 := by
    simpa using free
  refine holds.start top range freeSlot ?_
    (Function.comp_update Pcb.pid kernel.pcbAt _ _)
    (Function.comp_update Pcb.parentPid kernel.pcbAt _ _)
    (Function.comp_update Pcb.parentEsp kernel.pcbAt _ _)
  simp [processView, started]

theorem runs_started {kernel : Kernel} {chains : Fin 3 → List Int} {slot : Nat}
    (command : CString) (frame : StackFrame) (memory : Memory)
    (runs : kernel.processView.Runs chains)
    (found : findSlot kernel.processArray = some slot) :
    ((kernel.claimSlot frame.pcb.pid).2.started
      (childPcb frame command (kernel.claimSlot frame.pcb.pid).1
        kernel.running.processNum) memory).processView.Runs
      (Function.update chains kernel.curSchedTerm
        (((slot : Int) + 1) :: chains kernel.curSchedTerm)) := by
  obtain ⟨inside, free⟩ := findSlot_some found
  rw [claimSlot_some _ found]
  refine ⟨?_, ?_, ?_, ?_, ?_⟩
  · intro terminal
    by_cases here : terminal = kernel.curSchedTerm
    · subst here
      simp [processView, started, childPcb]
    · simpa [processView, started, childPcb, here] using runs.current terminal
  · simp [processView, started, childPcb]
  · simp [processView, started, childPcb, userEntry]
  · have counted := runs.processNum
    simp only [processView] at counted
    simp [processView, started, usedSlots_take inside free, counted]
  · exact runs.active

theorem sound_started {kernel : Kernel} {frame : StackFrame} (command : CString)
    (memory : Memory) (sound : kernel.processView.Sound)
    (room : usedSlots kernel.processArray < maxProgs) :
    ((kernel.claimSlot frame.pcb.pid).2.started
      (childPcb frame command (kernel.claimSlot frame.pcb.pid).1
        kernel.running.processNum) memory).processView.Sound := by
  obtain ⟨chains, holds, runs⟩ := sound
  obtain ⟨slot, found⟩ := Option.isSome_iff_exists.mp (findSlot_isSome room)
  exact ⟨_, holds_started command frame memory holds (runs.current kernel.curSchedTerm) found,
    runs_started command frame memory runs found⟩

theorem holds_terminated {kernel : Kernel} {chains : Fin 3 → List Int} {pid next : Int}
    {older : List Int} (console : Console) (holds : kernel.processView.Holds chains)
    (shape : chains kernel.curSchedTerm = pid :: next :: older) :
    (kernel.terminated (pcbAddr pid) console).processView.Holds
      (Function.update chains kernel.curSchedTerm (next :: older)) := by
  have inside : pid ∈ chains kernel.curSchedTerm := by simp [shape]
  have own : (kernel.pcbAt (pcbAddr pid)).pid = pid := holds.pid _ _ inside
  refine holds.finish shape ?_ ?_ ?_ ?_
  · simp [processView, terminated, own]
  · exact value_update Pcb.pid rfl
  · exact value_update Pcb.parentPid rfl
  · exact value_update Pcb.parentEsp rfl

theorem chain_of_child {kernel : Kernel} {chains : Fin 3 → List Int} {terminal : Fin 3}
    {pid : Int} (holds : kernel.processView.Holds chains)
    (top : (chains terminal).head? = some pid) (child : ¬ isBaseShell pid) :
    ∃ older, chains terminal = pid :: kernel.parentOf pid :: older := by
  obtain ⟨rest, shape⟩ := List.head?_eq_some_iff.mp top
  have inside : pid ∈ chains terminal := by simp [shape]
  have young : pid ≠ baseShell terminal := fun base =>
    child ((holds.isBaseShell_iff inside).mpr base)
  obtain ⟨older, restShape⟩ := holds.forest.tail_eq shape young
  exact ⟨older, by rw [shape, restShape]; rfl⟩

theorem runs_terminated {kernel : Kernel} {chains : Fin 3 → List Int} {pid next : Int}
    {older : List Int} (console : Console) (holds : kernel.processView.Holds chains)
    (runs : kernel.processView.Runs chains)
    (shape : chains kernel.curSchedTerm = pid :: next :: older) :
    (kernel.terminated (pcbAddr pid) console).processView.Runs
      (Function.update chains kernel.curSchedTerm (next :: older)) := by
  have inside : pid ∈ chains kernel.curSchedTerm := by simp [shape]
  obtain ⟨lower, upper⟩ := holds.range inside
  have own : (kernel.pcbAt (pcbAddr pid)).pid = pid := holds.pid _ _ inside
  have linked := holds.forest.linked kernel.curSchedTerm
  rw [shape] at linked
  have parent : (kernel.pcbAt (pcbAddr pid)).parentPid = next :=
    (List.isChain_cons_cons.mp linked).1
  have young : pid ≠ baseShell kernel.curSchedTerm := by
    rintro rfl
    have orphan : (kernel.pcbAt (pcbAddr (baseShell kernel.curSchedTerm))).parentPid = 0 :=
      holds.orphan _
    have waits : next ∈ chains kernel.curSchedTerm := by simp [shape]
    have range := (holds.range waits).1
    omega
  have parentEsp : (kernel.pcbAt (pcbAddr pid)).parentEsp =
      stackTop (kernel.pcbAt (pcbAddr pid)).parentPid :=
    holds.parentEsp _ _ inside young
  refine ⟨?_, ?_, ?_, ?_, runs.active⟩
  · intro terminal
    by_cases here : terminal = kernel.curSchedTerm
    · subst here
      simp [processView, terminated, parentNode, parent]
    · simpa [processView, terminated, here] using runs.current terminal
  · simp [processView, terminated, parentNode, parentEsp]
  · simp [processView, terminated, parentNode, userEntry]
  · obtain ⟨slot, slotEq⟩ : ∃ slot : Nat, pid - 1 = slot := ⟨(pid - 1).toNat, by omega⟩
    have slotInside : slot < maxProgs := by
      simp only [maxProgs]
      omega
    have used := holds.slot inside
    rw [slotEq] at used
    have counted := runs.processNum
    have freed := usedSlots_free slotInside used
    simp only [processView] at counted freed
    simp only [processView, terminated, own, slotEq, counted]
    omega

theorem sound_terminated {platform : Platform} {kernel : Kernel} (console : Console)
    (sound : kernel.processView.Sound)
    (child : ¬ isBaseShell kernel.running.processNum) :
    (kernel.terminated (kernel.currentPcb platform) console).processView.Sound := by
  obtain ⟨chains, holds, runs⟩ := sound
  have top : (chains kernel.curSchedTerm).head? = some kernel.running.processNum :=
    runs.current kernel.curSchedTerm
  obtain ⟨older, shape⟩ := chain_of_child holds top child
  obtain ⟨lower, upper⟩ := holds.range (List.mem_of_mem_head? top)
  have address : kernel.currentPcb platform = pcbAddr kernel.running.processNum :=
    currentPcb_eq runs.tssEsp0 lower upper
  rw [address]
  exact ⟨_, holds_terminated console holds shape, runs_terminated console holds runs shape⟩

theorem chains_ticked {kernel : Kernel} {chains : Fin 3 → List Int} (esp ebp : Int)
    (mask : BitVec 8) (holds : kernel.processView.Holds chains)
    (runs : kernel.processView.Runs chains) :
    (kernel.ticked esp ebp mask).processView.Holds chains ∧
      (kernel.ticked esp ebp mask).processView.Runs chains := by
  have current : ∀ terminal, ((kernel.ticked esp ebp mask).schedArr terminal).processNum =
      (kernel.schedArr terminal).processNum := by
    intro terminal
    by_cases here : terminal = kernel.curSchedTerm
    · subst here
      simp [ticked, running]
    · simp [ticked, here]
  refine ⟨⟨holds.forest, holds.used, holds.pid, holds.parentEsp, holds.orphan⟩,
    ?_, ?_, ?_, runs.processNum, Option.some_ne_none _⟩
  · intro terminal
    simp only [processView, current]
    exact runs.current terminal
  · simp only [processView, current]
    rfl
  · simp only [processView, current]
    by_cases mapped : (kernel.schedArr (kernel.curSchedTerm + 1)).vidMap = 1 <;>
      simp [ticked, scheduledPages, mapped, PageTables.setPageTable1Entry,
        PageTables.setPageTable2Entry, userEntry]

theorem sound_ticked {kernel : Kernel} (esp ebp : Int) (mask : BitVec 8)
    (sound : kernel.processView.Sound) :
    (kernel.ticked esp ebp mask).processView.Sound := by
  obtain ⟨chains, holds, runs⟩ := sound
  exact ⟨chains, chains_ticked esp ebp mask holds runs⟩

theorem launched_pcb (frame : StackFrame) (entryPoint : Nat) (memory : Memory)
    (kernel : Kernel) (terminal : Fin 3) :
    (kernel.launched frame entryPoint memory).pcbAt (pcbAddr (baseShell terminal)) =
      shellPcb frame terminal.val := by
  have apart : pcbAddr 1 ≠ pcbAddr 2 ∧ pcbAddr 1 ≠ pcbAddr 3 ∧ pcbAddr 2 ≠ pcbAddr 3 := by
    decide
  match terminal with
  | 0 => simp [launched, baseShell, apart]
  | 1 => simp [launched, baseShell, apart]
  | 2 => simp [launched, baseShell]

theorem launched_chains {kernel : Kernel} (frame : StackFrame)
    (entryPoint : Nat) (memory : Memory) (atFirst : kernel.curSchedTerm = 0)
    (current : ∀ terminal : Fin 3, (kernel.schedArr terminal).processNum = terminal.val + 1) :
    (kernel.launched frame entryPoint memory).processView.Holds
        (fun terminal => [baseShell terminal]) ∧
      (kernel.launched frame entryPoint memory).processView.Runs
        (fun terminal => [baseShell terminal]) := by
  have slots : ∀ i : Int, 0 ≤ i → i < 6 →
      ((kernel.launched frame entryPoint memory).processArray i ≠ -1 ↔ i < 3) := by
    intro i lower upper
    obtain rfl | rfl | rfl | rfl | rfl | rfl : i = 0 ∨ i = 1 ∨ i = 2 ∨ i = 3 ∨ i = 4 ∨ i = 5 := by
      omega
    all_goals simp [launched, clearSlots, maxProgs]
  refine ⟨⟨⟨?_, ?_, ?_, ?_⟩, ?_, ?_, ?_, ?_⟩, ?_, ?_, ?_, ?_, ?_⟩
  · exact fun terminal => List.isChain_singleton _
  · exact fun terminal => rfl
  · exact fun terminal => List.nodup_singleton _
  · intro i j different member left right
    obtain rfl := List.mem_singleton.mp left
    have same := List.mem_singleton.mp right
    simp only [baseShell] at same
    exact different (Fin.ext (by omega))
  · intro pid
    constructor
    · rintro ⟨terminal, member⟩
      obtain rfl := List.mem_singleton.mp member
      refine ⟨by simp only [baseShell]; omega, ?_⟩
      exact (slots _ (by simp only [baseShell]; omega) (by simp only [baseShell]; omega)).mpr
        (by simp only [baseShell]; omega)
    · rintro ⟨range, used⟩
      have low := (slots _ (by omega) (by omega)).mp used
      refine ⟨⟨(pid - 1).toNat, by omega⟩, List.mem_singleton.mpr ?_⟩
      simp only [baseShell]
      omega
  · intro terminal member inside
    obtain rfl := List.mem_singleton.mp inside
    rw [ProcessView.pid_eq, launched_pcb]
    rfl
  · intro terminal member inside young
    exact absurd (List.mem_singleton.mp inside) young
  · intro terminal
    rw [ProcessView.parentOf_eq, launched_pcb]
    rfl
  · intro terminal
    simp only [processView, launched, current]
    rfl
  · simp [processView, launched, atFirst, current, stackTop]
  · simp [processView, launched, atFirst, current, userEntry]
  · simp [processView, launched, clearSlots, usedSlots, maxProgs, List.range_succ]
  · exact Option.some_ne_none _

/-! Every event. -/

def live (kernel : Kernel) (pid : Int) : Prop :=
  (1 ≤ pid ∧ pid ≤ maxProgs) ∧ kernel.processArray (pid - 1) ≠ -1

instance (kernel : Kernel) (pid : Int) : Decidable (kernel.live pid) :=
  inferInstanceAs (Decidable (_ ∧ _))

theorem pcbAddr_ne_of_live {left right : Int} {kernel kernel' : Kernel}
    (leftLive : kernel.live left) (rightLive : kernel'.live right)
    (different : left ≠ right) : pcbAddr left ≠ pcbAddr right := fun same =>
  different (pcbAddr_injective leftLive.1.1 leftLive.1.2 rightLive.1.1 rightLive.1.2 same)

theorem live_running {kernel : Kernel} (sound : kernel.processView.Sound) :
    kernel.live kernel.running.processNum := by
  obtain ⟨chains, holds, runs⟩ := sound
  have inside := List.mem_of_mem_head? (runs.current kernel.curSchedTerm)
  exact ⟨holds.range inside, holds.slot inside⟩

theorem currentPcb_running {kernel : Kernel} (platform : Platform)
    (sound : kernel.processView.Sound) :
    kernel.currentPcb platform = pcbAddr kernel.running.processNum ∧
      (kernel.pcb kernel.running.processNum).pid = kernel.running.processNum := by
  obtain ⟨chains, holds, runs⟩ := sound
  have inside := List.mem_of_mem_head? (runs.current kernel.curSchedTerm)
  obtain ⟨lower, upper⟩ := holds.range inside
  exact ⟨currentPcb_eq runs.tssEsp0 lower upper, holds.pid _ _ inside⟩

theorem running_orphan_iff {kernel : Kernel} (sound : kernel.processView.Sound) :
    kernel.parentOf kernel.running.processNum = 0 ↔
      isBaseShell kernel.running.processNum := by
  obtain ⟨chains, holds, runs⟩ := sound
  have inside := List.mem_of_mem_head? (runs.current kernel.curSchedTerm)
  exact (holds.parentOf_eq_zero_iff inside).trans (holds.isBaseShell_iff inside).symm

theorem processNum_pos {kernel : Kernel} (sound : kernel.processView.Sound) :
    kernel.processNum = usedSlots kernel.processArray ∧ 0 < kernel.processNum := by
  obtain ⟨chains, holds, runs⟩ := sound
  have used : kernel.processArray ((0 : Nat) : Int) ≠ -1 :=
    holds.slot (holds.forest.root_mem 0)
  have freed := usedSlots_free (by decide) used
  have counted : kernel.processNum = usedSlots kernel.processArray := runs.processNum
  exact ⟨counted, by omega⟩

inductive PlainEffect (platform : Platform) (kernel : Kernel) : Kernel → Prop
  | serviced {kernel' : Kernel}
      (done : Serviced (kernel.currentPcb platform) kernel kernel') :
      PlainEffect platform kernel kernel'
  | interrupted (rtc : Rtc) (master slave : BitVec 8) :
      PlainEffect platform kernel
        { kernel with rtc := rtc, masterMask := master, slaveMask := slave }
  | vidmapped (memory : Memory) :
      PlainEffect platform kernel (kernel.vidmapped (kernel.currentPcb platform) memory)
  | typed (scanCode : UInt8) (mask : BitVec 8) :
      PlainEffect platform kernel (kernel.typed (kernel.keyConsole scanCode) mask)

/-- All an event can do to the kernel. -/
inductive Effect (platform : Platform) (kernel : Kernel) : Kernel → Prop
  | plain {kernel' : Kernel} (effect : PlainEffect platform kernel kernel') :
      Effect platform kernel kernel'
  | started (command : CString) (frame : StackFrame) (memory : Memory)
      (room : kernel.processNum < maxProgs) :
      Effect platform kernel ((kernel.claimSlot frame.pcb.pid).2.started
        (childPcb frame command (kernel.claimSlot frame.pcb.pid).1
          kernel.running.processNum) memory)
  | terminated (console : Console) (child : ¬ isBaseShell kernel.running.processNum) :
      Effect platform kernel (kernel.terminated (kernel.currentPcb platform) console)
  | ticked (esp ebp : Int) (mask : BitVec 8) :
      Effect platform kernel (kernel.ticked esp ebp mask)

theorem Effect.refl (platform : Platform) (kernel : Kernel) :
    Effect platform kernel kernel :=
  .plain (.serviced (.refl _ kernel))

/-- In a sound state `execute` fails, or finds a free slot for the child. -/
theorem execute_outcome {kernel : Kernel} (platform : Platform) (command : CString)
    (frame : StackFrame) (sound : kernel.processView.Sound) :
    kernel.execute platform command frame = (kernel, .ret (-1)) ∨
    (kernel.processNum < maxProgs ∧ ∃ slot memory eip,
      findSlot kernel.processArray = some slot ∧
      kernel.execute platform command frame =
        ({ kernel with processArray := Function.update kernel.processArray slot 1 }.started
          (childPcb frame command (slot + 1) kernel.running.processNum) memory, .enter eip)) := by
  obtain ⟨counted, populated⟩ := processNum_pos sound
  rcases execute_cases platform command frame (by omega : kernel.processNum ≠ 0) with
    refused | ⟨room, passed⟩
  · exact .inl refused
  · rw [passed]
    rcases executeRest_cases platform command frame kernel with
      ⟨_, failed⟩ | ⟨_, _, memory, _, succeeded⟩
    · exact .inl failed
    · obtain ⟨slot, found⟩ := Option.isSome_iff_exists.mp
        (findSlot_isSome (by omega : usedSlots kernel.processArray < maxProgs))
      rw [claimSlot_some _ found] at succeeded
      exact .inr ⟨room, slot, memory, _, found, succeeded⟩

theorem execute_effect {kernel : Kernel} (platform : Platform) (command : CString)
    (frame : StackFrame) (sound : kernel.processView.Sound) :
    Effect platform kernel (kernel.execute platform command frame).1 := by
  rcases execute_outcome platform command frame sound with
    refused | ⟨room, slot, memory, _, found, succeeded⟩
  · rw [refused]
    exact .refl platform kernel
  · have effect : Effect platform kernel _ := .started command frame memory room
    rw [claimSlot_some _ found] at effect
    rw [succeeded]
    exact effect

theorem halt_effect {kernel : Kernel} (platform : Platform) (status : UInt8)
    (sound : kernel.processView.Sound) :
    Effect platform kernel (kernel.halt platform status).1 := by
  obtain ⟨address, own⟩ := currentPcb_running platform sound
  by_cases base : isBaseShell kernel.running.processNum
  · rw [halt_base]
    · exact .refl platform kernel
    · rwa [address, ← pcb, own]
  · have child : ¬ isBaseShell (kernel.pcbAt (kernel.currentPcb platform)).pid := by
      rwa [address, ← pcb, own]
    obtain ⟨console, _, halted⟩ := halt_eq status child
    rw [halted]
    exact .terminated console base

theorem exception_effect {platform : Platform} {kernel : Kernel}
    (vector : ExceptionVector) (sound : kernel.processView.Sound)
    (child : (kernel.pcbAt (kernel.currentPcb platform)).parentPid ≠ 0) :
    Effect platform kernel (kernel.exceptionHandler platform vector).1 := by
  obtain ⟨console, _, ended⟩ := exceptionHandler_eq platform vector kernel
  rw [(currentPcb_running platform sound).1] at child
  rw [ended]
  exact .terminated console fun base => child ((running_orphan_iff sound).mpr base)

theorem Step.plain_effect {platform : Platform} {kernel : Kernel} {event : Event}
    {result : Kernel × Reply} (fired : Step platform kernel event result)
    (plain : event.isPlain = true) : PlainEffect platform kernel result.1 := by
  cases fired with
  | halt | execute | exception | tick => cases plain
  | read fd buf nbytes => exact .serviced (read_serviced platform fd buf nbytes kernel)
  | finishRead pending result ready => exact .serviced (finishRead_serviced _ ready)
  | write fd buf nbytes => exact .serviced (write_serviced platform fd buf nbytes kernel)
  | openFile filename => exact .serviced (openFile_serviced platform filename kernel)
  | close fd => exact .serviced (close_serviced platform fd kernel)
  | getargs buf nbytes => exact .serviced (getargs_serviced platform buf nbytes kernel)
  | vidmap screenStart =>
      rcases vidmap_cases platform screenStart kernel with
        refused | ⟨_, memory, _, _, mapped⟩
      · rw [refused]
        exact .serviced (.refl _ kernel)
      · rw [mapped]
        exact .vidmapped memory
  | setHandler => exact .serviced (.refl _ kernel)
  | sigreturn => exact .serviced (.refl _ kernel)
  | key scanCode =>
      obtain ⟨mask, ignored | typed⟩ := kernel.keyboardInterruptHandler_cases scanCode
      · rw [ignored]
        exact .interrupted kernel.rtc mask kernel.slaveMask
      · rw [typed]
        exact .typed scanCode mask
  | rtcInterrupt => exact .interrupted _ kernel.masterMask _

theorem Step.effect {platform : Platform} {kernel : Kernel} {event : Event}
    {result : Kernel × Reply} (fired : Step platform kernel event result)
    (sound : kernel.processView.Sound) : Effect platform kernel result.1 := by
  by_cases plain : event.isPlain = true
  · exact .plain (fired.plain_effect plain)
  · cases fired with
    | halt status => exact halt_effect platform status sound
    | execute command frame => exact execute_effect platform command frame sound
    | exception vector child => exact exception_effect vector sound child
    | tick esp ebp =>
        obtain ⟨_, _, runs⟩ := sound
        obtain ⟨mask, switched⟩ := pitInterruptHandler_eq esp ebp runs.active
        rw [switched]
        exact .ticked esp ebp mask
    | _ => exact absurd rfl plain

theorem PlainEffect.processView {platform : Platform} {kernel kernel' : Kernel}
    (effect : PlainEffect platform kernel kernel') :
    kernel'.processView = kernel.processView := by
  cases effect with
  | serviced done => exact processView_serviced done
  | interrupted => rfl
  | vidmapped memory => exact processView_vidmapped _ memory kernel
  | typed => rfl

theorem Effect.sound {platform : Platform} {kernel kernel' : Kernel}
    (effect : Effect platform kernel kernel') (sound : kernel.processView.Sound) :
    kernel'.processView.Sound := by
  cases effect with
  | plain effect => rwa [effect.processView]
  | started command frame memory room =>
      have counted := (processNum_pos sound).1
      exact sound_started command memory sound (by omega)
  | terminated console child => exact sound_terminated console sound child
  | ticked esp ebp mask => exact sound_ticked esp ebp mask sound

end Kernel

theorem Launched.eq {platform : Platform} {machine : Machine}
    (began : Launched platform machine) :
    ∃ kernel frame entryPoint memory, Booted platform kernel ∧
      machine.kernel = kernel.launched frame entryPoint memory := by
  obtain ⟨kernel, frame, booted, success, -⟩ := began
  obtain ⟨entryPoint, memory, result⟩ := Kernel.launch_eq success
  exact ⟨kernel, frame, entryPoint, memory, booted, result⟩

theorem Launched.chains {platform : Platform} {machine : Machine}
    (began : Launched platform machine) :
    machine.kernel.processView.Holds (fun terminal => [baseShell terminal]) ∧
      machine.kernel.processView.Runs fun terminal => [baseShell terminal] := by
  obtain ⟨kernel, frame, entryPoint, memory, booted, result⟩ := began.eq
  rw [result]
  obtain ⟨_, atFirst, current⟩ := booted.scheduler
  exact Kernel.launched_chains frame entryPoint memory atFirst current

theorem Launched.sound {platform : Platform} {machine : Machine}
    (began : Launched platform machine) : machine.kernel.processView.Sound :=
  ⟨_, began.chains⟩

theorem Reachable.sound {platform : Platform} {machine : Machine}
    (reachable : Reachable platform machine) : machine.kernel.processView.Sound :=
  reachable.kernel_invariant (fun kernel => kernel.processView.Sound) Launched.sound
    fun sound fired => (fired.effect sound).sound sound

/-- What holds after `launch` and is kept by every effect on a sound process
table holds in every reachable state. -/
theorem Reachable.effect_invariant {platform : Platform} {machine : Machine}
    (reachable : Reachable platform machine) (holds : Kernel → Prop)
    (launched : ∀ {kernel frame entryPoint memory}, Booted platform kernel →
      holds (kernel.launched frame entryPoint memory))
    (preserved : ∀ {kernel kernel'}, holds kernel → kernel.processView.Sound →
      Kernel.Effect platform kernel kernel' → holds kernel') :
    holds machine.kernel := by
  have both : machine.kernel.processView.Sound ∧ holds machine.kernel := by
    refine reachable.kernel_invariant
      (fun kernel => kernel.processView.Sound ∧ holds kernel) ?_ ?_
    · intro start began
      obtain ⟨kernel, frame, entryPoint, memory, booted, result⟩ := began.eq
      rw [result]
      obtain ⟨_, atFirst, current⟩ := booted.scheduler
      exact ⟨⟨_, Kernel.launched_chains frame entryPoint memory atFirst current⟩, launched booted⟩
    · intro kernel event result before fired
      have effect := fired.effect before.1
      exact ⟨effect.sound before.1, preserved before.2 before.1 effect⟩
  exact both.2

/-- The live processes of each terminal, youngest first: disjoint chains of
parents that end in the base shells and hold the pids whose slots are in use. -/
structure Kernel.LiveChains (kernel : Kernel) (chains : Fin 3 → List Int) : Prop where
  forest : Forest kernel.parentOf (fun terminal => (terminal.val : Int) + 1) chains
  current : ∀ terminal,
    (chains terminal).head? = some (kernel.schedArr terminal).processNum
  used : ∀ pid, (∃ terminal, pid ∈ chains terminal) ↔
    (1 ≤ pid ∧ pid ≤ maxProgs) ∧ kernel.processArray (pid - 1) ≠ -1

theorem Kernel.liveChains {kernel : Kernel} (sound : kernel.processView.Sound) :
    ∃ chains, kernel.LiveChains chains := by
  obtain ⟨chains, holds, runs⟩ := sound
  exact ⟨chains, holds.forest, runs.current, holds.used⟩

/-- The process table of a kernel: the slots in use are counted, they are those
of the live chains, and the processor is set up for the youngest process of the
running terminal. -/
structure Kernel.ProcessTable (platform : Platform) (kernel : Kernel) : Prop where
  counted : kernel.processNum = usedSlots kernel.processArray
  bounded : kernel.processNum ≤ maxProgs
  reaches : ∀ terminal : Fin 3, ∃ steps,
    kernel.parentOf^[steps] (kernel.schedArr terminal).processNum = terminal.val + 1
  chains : ∃ chains, kernel.LiveChains chains
  baseSlots : ∀ terminal : Fin 3, kernel.processArray terminal.val ≠ -1
  search : kernel.processNum < maxProgs → (findSlot kernel.processArray).isSome
  stack : (kernel.tssEsp0 : Int) = eightMb - (kernel.running.processNum - 1) * eightKb
  frame : kernel.pages.pageDirectory (directorySlot userProg) =
    BitVec.ofInt 32 (eightMb + (kernel.running.processNum - 1) * fourMb) ||| 0x087#32
  block : (kernel.pcbAt (kernel.currentPcb platform)).pid = kernel.running.processNum

theorem Reachable.processTable {platform : Platform} {machine : Machine}
    (reachable : Reachable platform machine) :
    machine.kernel.ProcessTable platform := by
  have sound := reachable.sound
  have counted := (Kernel.processNum_pos sound).1
  obtain ⟨address, own⟩ := Kernel.currentPcb_running platform sound
  have live := Kernel.liveChains sound
  obtain ⟨chains, holds, runs⟩ := sound
  have inside := List.mem_of_mem_head? (runs.current machine.kernel.curSchedTerm)
  obtain ⟨lower, upper⟩ := holds.range inside
  refine ⟨counted, ?_, ?_, live, ?_, ?_, ?_, runs.progEntry, ?_⟩
  · have bound := usedSlots_le machine.kernel.processArray
    omega
  · intro terminal
    exact holds.forest.reaches (runs.current terminal)
  · intro terminal
    have used : machine.kernel.processArray (baseShell terminal - 1) ≠ -1 :=
      holds.slot (holds.forest.root_mem terminal)
    simpa [baseShell] using used
  · intro room
    exact findSlot_isSome (by omega)
  · have stack : machine.kernel.tssEsp0 = u32 (stackTop machine.kernel.running.processNum) :=
      runs.tssEsp0
    rw [stack]
    simp only [Kernel.processView] at lower upper
    apply u32_of_bounds
    · simp only [stackTop, eightMb, eightKb, Kernel.running]
      omega
    · simp only [stackTop, eightMb, eightKb, Kernel.running]
      omega
  · rw [address]
    exact own

theorem processTable_sample :
    (Sample.after [.execute shellName Sample.frame, .tick 0 0, .execute shellName Sample.frame,
      .tick 0 0, .tick 0 0, .halt 0] (by decide +kernel)).kernel.ProcessTable
        Sample.platform :=
  (Sample.reachable _ _).processTable

end Ece391Os
