import Ece391Os.Terminal.Keys

namespace Ece391Os

open Data

/-! Three separate consoles: the mapping of the video page follows the running
terminal, whoever is viewed. -/

/-- What selects the page that prints. -/
structure Display where
  page : Nat
  running : Fin 3
  buffers : Fin 3 → Int

def Kernel.display (kernel : Kernel) : Display where
  page := kernel.pages.videoPage
  running := kernel.curSchedTerm
  buffers := fun terminal => (kernel.schedArr terminal).videoBuffer

/-- The running terminal prints, on its own screen. -/
structure Kernel.OwnScreen (kernel : Kernel) : Prop where
  placed : kernel.console.Placed
  pending : kernel.console.Pending
  printing : kernel.console.printTerminal = kernel.curSchedTerm
  page : kernel.pages.videoPage = kernel.console.screenPage kernel.curSchedTerm
  buffers : ∀ terminal, (kernel.schedArr terminal).videoBuffer =
    videoMemAddr + (terminal.val + 1) * pageSize

namespace Kernel

variable {platform : Platform} {kernel kernel' : Kernel}

/-! Calls leave the display alone. -/

theorem display_serviced {address : Nat} (done : Serviced address kernel kernel') :
    kernel'.display = kernel.display := by
  obtain ⟨fdt, console, rtc, memory, rfl⟩ := done
  rfl

theorem display_terminated (address : Nat) (console : Console) (kernel : Kernel) :
    (kernel.terminated address console).display = kernel.display := by
  simp only [display, terminated]
  congr 1
  exact value_update SchedNode.videoBuffer rfl

theorem display_vidmapped (address : Nat) (memory : Memory) (kernel : Kernel) :
    (kernel.vidmapped address memory).display = kernel.display := by
  simp only [display, vidmapped]
  congr 1
  exact value_update SchedNode.videoBuffer rfl

theorem display_started (child : Pcb) (memory : Memory) (kernel : Kernel) :
    (kernel.started child memory).display = kernel.display := by
  simp only [display, started]
  congr 1
  exact value_update SchedNode.videoBuffer rfl

theorem display_execute (command : CString) (frame : StackFrame)
    (sound : kernel.processView.Sound) :
    (kernel.execute platform command frame).1.display = kernel.display := by
  rcases execute_outcome platform command frame sound with
    refused | ⟨_, _, memory, _, _, succeeded⟩
  · rw [refused]
  · rw [succeeded, display_started]
    rfl

theorem display_halt (platform : Platform) (status : UInt8) (kernel : Kernel) :
    (kernel.halt platform status).1.display = kernel.display := by
  by_cases base : isBaseShell (kernel.pcbAt (kernel.currentPcb platform)).pid
  · rw [halt_base status base]
  · obtain ⟨console, -, halted⟩ := halt_eq status base
    rw [halted, display_terminated]

theorem Step.display_eq {event : Event} {result : Kernel × Reply}
    (step : Step platform kernel event result) (sound : kernel.processView.Sound)
    (call : event.isCall = true) : result.1.display = kernel.display := by
  cases step with
  | halt status => exact display_halt platform status kernel
  | execute command frame => exact display_execute command frame sound
  | read => exact display_serviced (read_serviced ..)
  | finishRead pending result ready =>
      exact display_serviced (finishRead_serviced (kernel.currentPcb platform) ready)
  | write => exact display_serviced (write_serviced ..)
  | openFile => exact display_serviced (openFile_serviced ..)
  | close => exact display_serviced (close_serviced ..)
  | getargs => exact display_serviced (getargs_serviced ..)
  | vidmap screenStart =>
      rcases vidmap_cases platform screenStart kernel with
        refused | ⟨_, memory, _, _, mapped⟩
      · rw [refused]
      · rw [mapped, display_vidmapped]
  | setHandler => rfl
  | sigreturn => rfl
  | exception vector =>
      obtain ⟨console, -, ended⟩ := exceptionHandler_eq platform vector kernel
      rw [ended, display_terminated]
  | tick | key | rtcInterrupt => cases call

/-! Remapping the video page. -/

theorem videoPage_buffer (pages : PageTables) (terminal : Fin 3) :
    (pages.setPageTable1Entry videoMemAddr
      (videoMemAddr + (terminal.val + 1) * pageSize)).videoPage =
      (videoMemAddr + (terminal.val + 1) * pageSize).toNat := by
  simp only [PageTables.videoPage, PageTables.setPageTable1Entry, Function.update_self]
  revert terminal
  decide

theorem videoPage_mapped {console : Console} (pages : PageTables) (terminal : Fin 3)
    (buffers : ∀ terminal, (console.terminals terminal).vidMem =
      videoMemAddr + (terminal.val + 1) * pageSize) :
    (pages.setPageTable1Entry videoMemAddr (if terminal = console.curTerminal then videoMemAddr
      else videoMemAddr + (terminal.val + 1) * pageSize)).videoPage =
      console.screenPage terminal := by
  rw [Console.screenPage]
  split
  · exact videoPage_screen pages
  · rw [buffers]
    exact videoPage_buffer pages terminal

end Kernel

namespace Console

variable {console : Console} {change : Shell → Shell}

structure Wrote (terminal : Fin 3) (output : List UInt8) (before after : Console) : Prop where
  placed : after.Placed
  pending : after.Pending
  printTerminal : after.printTerminal = before.printTerminal
  screenPage : ∀ other, after.screenPage other = before.screenPage other
  tty : ∀ other, after.tty other =
    if other = terminal then (before.tty other).putAll output else before.tty other

theorem putAll_wrote {page : Nat} (output : List UInt8) (placed : console.Placed)
    (pending : console.Pending) (mapped : page = console.screenPage console.printTerminal) :
    Wrote console.printTerminal output console (console.putAll page output) := by
  obtain ⟨placedNext, only, result⟩ := putAll_tty output mapped placed
  have ttys : ∀ other, (console.putAll page output).tty other =
      if other = console.printTerminal then (console.tty other).putAll output
      else console.tty other := by
    intro other
    split
    · rename_i here
      rw [here, result]
    · rename_i away
      exact only.tty_eq placed.buffers away
  refine ⟨placedNext, ?_, only.printTerminal, only.screenPage, ttys⟩
  intro other
  obtain ⟨lower, upper, behind⟩ := pending other
  have moved := (placed.inside other).position_putAll output
  rw [bufIndex_putAll, ttys]
  refine ⟨lower, upper, ?_⟩
  split
  · omega
  · exact behind

/-- A change that keeps the screen and at most shortens the line prints nothing. -/
theorem modifyShell_wrote (terminal running : Fin 3) (placed : console.Placed)
    (pending : console.Pending) (keeps : KeepsScreen change)
    (shortens : ∀ shell : Shell, 0 ≤ shell.bufIndex →
      0 ≤ (change shell).bufIndex ∧ (change shell).bufIndex ≤ shell.bufIndex) :
    Wrote running [] console (console.modifyShell terminal change) := by
  have same := tty_modifyShell keeps terminal console
  refine ⟨placed.modifyShell keeps terminal, ?_, rfl,
    (only_modifyShell keeps terminal console).screenPage, ?_⟩
  · intro other
    obtain ⟨lower, upper, behind⟩ := pending other
    rw [same]
    by_cases here : other = terminal
    · subst here
      have shorter := shortens _ lower
      rw [terminals_modifyShell]
      omega
    · simp only [modifyShell, Function.update_of_ne here]
      exact ⟨lower, upper, behind⟩
  · intro other
    rw [same]
    split <;> rfl

end Console

namespace Kernel

variable {kernel kernel' : Kernel}

theorem CallConsole.wrote {output : List UInt8} {console : Console} (mapped : kernel.OwnScreen)
    (left : kernel.CallConsole output console) :
    Console.Wrote kernel.curSchedTerm output kernel.console console := by
  cases left with
  | printed =>
      rw [← mapped.printing]
      apply Console.putAll_wrote output mapped.placed mapped.pending
      rw [mapped.printing, mapped.page]
  | waiting silent =>
      rw [silent]
      exact Console.modifyShell_wrote _ _ mapped.placed mapped.pending
        (fun _ => ⟨rfl, rfl, rfl⟩) fun _ lower => ⟨lower, Int.le_refl _⟩

theorem terminalOpen_wrote (mapped : kernel.OwnScreen) :
    Console.Wrote kernel.curSchedTerm [] kernel.console kernel.console.terminalOpen := by
  have keeps : Console.KeepsScreen fun shell => { shell with bufIndex := 0 } :=
    fun _ => ⟨rfl, rfl, rfl⟩
  exact Console.modifyShell_wrote _ _ mapped.placed mapped.pending keeps
    fun _ lower => ⟨Int.le_refl 0, lower⟩

/-! What each kind of event leaves mapped. -/

theorem OwnScreen.wrote {output : List UInt8} (mapped : kernel.OwnScreen)
    (display : kernel'.display = kernel.display)
    (wrote : Console.Wrote kernel.curSchedTerm output kernel.console kernel'.console) :
    kernel'.OwnScreen := by
  have page : kernel'.pages.videoPage = kernel.pages.videoPage :=
    congrArg Display.page display
  have running : kernel'.curSchedTerm = kernel.curSchedTerm := congrArg Display.running display
  have buffers := congrArg Display.buffers display
  refine ⟨wrote.placed, wrote.pending, ?_, ?_, ?_⟩
  · rw [wrote.printTerminal, mapped.printing, running]
  · rw [page, mapped.page, wrote.screenPage, running]
  · intro terminal
    exact (congrFun buffers terminal).trans (mapped.buffers terminal)

theorem OwnScreen.typed (mapped : kernel.OwnScreen) {handled : Console} (placed : handled.Placed)
    (pending : handled.Pending) (mask : BitVec 8) : (kernel.typed handled mask).OwnScreen := by
  refine ⟨⟨placed.buffers, placed.inside, placed.cursor⟩, pending, rfl, ?_, mapped.buffers⟩
  have page := videoPage_mapped kernel.pages kernel.curSchedTerm placed.buffers
  simp only [Kernel.typed, ite_not, running, mapped.buffers]
  exact page

theorem OwnScreen.ticked (mapped : kernel.OwnScreen) (esp ebp : Int) (mask : BitVec 8) :
    (kernel.ticked esp ebp mask).OwnScreen := by
  refine ⟨⟨mapped.placed.buffers, mapped.placed.inside, mapped.placed.cursor⟩,
    mapped.pending, rfl, ?_, ?_⟩
  · simp only [Kernel.ticked, scheduledPages, mapped.buffers]
    exact videoPage_mapped _ _ mapped.placed.buffers
  · intro terminal
    have same : (fun other => ((kernel.ticked esp ebp mask).schedArr other).videoBuffer) =
        fun other => (kernel.schedArr other).videoBuffer :=
      value_update SchedNode.videoBuffer rfl
    exact (congrFun same terminal).trans (mapped.buffers terminal)

theorem keyConsole_cases (scanCode : UInt8) (mapped : kernel.OwnScreen) :
    (¬ kernel.console.switchesView scanCode ∧
      Console.Handled { kernel.console with printTerminal := kernel.console.curTerminal }
        (kernel.keyConsole scanCode)) ∨
    (kernel.console.switchesView scanCode ∧
      Console.Switched { kernel.console with printTerminal := kernel.console.curTerminal }
        (kernel.keyConsole scanCode) ∧
      (kernel.keyConsole scanCode).curTerminal = Console.selected scanCode) := by
  have placed : Console.Placed
      { kernel.console with printTerminal := kernel.console.curTerminal } :=
    ⟨mapped.placed.buffers, mapped.placed.inside, mapped.placed.cursor⟩
  simp only [keyConsole]
  split
  · by_cases switches : kernel.console.switchesView scanCode
    · exact .inr ⟨switches,
        Console.recentReleaseExec_switched placed mapped.pending switches⟩
    · exact .inl ⟨switches,
        Console.recentReleaseExec_handled placed mapped.pending rfl switches⟩
  · rename_i released
    refine .inl ⟨?_, Console.afterReleaseExec_handled scanCode placed mapped.pending⟩
    rintro ⟨-, rfl | rfl | rfl⟩
    · exact released (by decide)
    · exact released (by decide)
    · exact released (by decide)

theorem OwnScreen.interrupted (mapped : kernel.OwnScreen) (rtc : Rtc) (master slave : BitVec 8) :
    OwnScreen { kernel with rtc := rtc, masterMask := master, slaveMask := slave } :=
  ⟨mapped.placed, mapped.pending, mapped.printing, mapped.page, mapped.buffers⟩

theorem OwnScreen.key (mapped : kernel.OwnScreen) (scanCode : UInt8) :
    (kernel.keyboardInterruptHandler scanCode).OwnScreen := by
  obtain ⟨mask, ignored | typed⟩ := kernel.keyboardInterruptHandler_cases scanCode
  · rw [ignored]
    exact mapped.interrupted _ mask _
  · rw [typed]
    rcases keyConsole_cases scanCode mapped with ⟨-, handled⟩ | ⟨-, switched, -⟩
    · exact mapped.typed handled.placed handled.pending mask
    · exact mapped.typed switched.placed switched.pending mask

end Kernel

/-! Start-up. -/

theorem Console.initShell_placed {console : Console} (first : console.cursor = 0) :
    console.initShell.Placed := by
  refine ⟨fun _ => rfl, fun _ => Tty.valid_corner _, ?_⟩
  simp [Console.tty, Console.initShell, Tty.position, first]

theorem Kernel.videoPage_boot (platform : Platform) (memory : BootMemory) :
    (Kernel.boot platform memory).pages.videoPage = videoMemAddr.toNat := by
  have entry : (PageTables.initPageTable ⟨fun _ => 0#32, fun _ => 0#32,
      fun _ => 0#32⟩).videoPage = videoMemAddr.toNat := by decide
  exact entry

theorem Kernel.boot_mapped (platform : Platform) (memory : BootMemory) :
    (Kernel.boot platform memory).OwnScreen := by
  have page := Kernel.videoPage_boot platform memory
  set fresh := (Kernel.zeroed memory).console.initShell
  have placed : fresh.Placed := Console.initShell_placed rfl
  have outside : SameOutside (fresh.screenPage 0) fresh.video
      (clear videoMemAddr.toNat fresh.video) := clear_outside _ _
  have corner : Tty.Valid ⟨pageView (fresh.screenPage 0)
      (clear videoMemAddr.toNat fresh.video), 0, 0⟩ := Tty.valid_corner _
  have console : (Kernel.boot platform memory).console =
      fresh.drawn 0 (clear videoMemAddr.toNat fresh.video) 0 0 := by
    rw [← page]
    exact fresh.clearScreen_resetScreen _
  have only := Console.only_drawn (x := 0) (y := 0) outside
  have placedNext := placed.drawn outside corner
  refine ⟨?_, ?_, rfl, ?_, fun _ => rfl⟩
  · rw [console]
    exact placedNext
  · intro terminal
    obtain ⟨lower, -⟩ := (placedNext.inside terminal).position_lt
    rw [console, Console.bufIndex_drawn]
    exact ⟨Int.le_refl 0, (by decide : (0 : Int) ≤ 132), lower⟩
  · rw [page, console, only.screenPage]
    rfl

theorem Booted.mapped {platform : Platform} {kernel : Kernel}
    (booted : Booted platform kernel) : kernel.OwnScreen := by
  induction booted with
  | boot memory => exact Kernel.boot_mapped platform memory
  | tick esp ebp before induction =>
      obtain ⟨mask, idle⟩ := Kernel.pitInterruptHandler_idle esp ebp before.scheduler.1
      rw [idle]
      exact induction.interrupted _ mask _
  | key scanCode _ induction => exact induction.key scanCode
  | rtcInterrupt _ induction => exact induction.interrupted _ _ _

theorem Launched.mappedStart {platform : Platform} {machine : Machine}
    (began : Launched platform machine) : machine.kernel.OwnScreen := by
  obtain ⟨kernel, frame, entryPoint, memory, booted, left⟩ := began.eq
  have mapped := booted.mapped
  rw [left]
  exact ⟨mapped.placed, mapped.pending, mapped.printing, mapped.page, mapped.buffers⟩

/-! Every step of a run. -/

/-- Each event works on one console: a call prints its output on the console of
the running terminal as a stand-alone console would, a key works on the console
of the viewed terminal, and neither a switch of the view nor another interrupt
changes any.  The hardware cursor is the one of the viewed terminal. -/
structure SeparateScreens (transition : Transition Machine Event Reply) : Prop where
  calls : transition.event.isCall = true → ∀ terminal,
    transition.after.kernel.console.tty terminal =
      if terminal = transition.before.kernel.curSchedTerm then
        (transition.before.kernel.console.tty terminal).putAll transition.event.output
      else transition.before.kernel.console.tty terminal
  keys : ∀ scanCode, transition.event = .key scanCode →
    ∀ terminal, terminal ≠ transition.before.kernel.console.curTerminal →
      transition.after.kernel.console.tty terminal =
        transition.before.kernel.console.tty terminal
  switches : ∀ scanCode, transition.event = .key scanCode →
    transition.before.kernel.console.switchesView scanCode ∨
      transition.after.kernel.console.curTerminal ≠
        transition.before.kernel.console.curTerminal →
    transition.after.kernel.console.tty = transition.before.kernel.console.tty
  interrupts : transition.event.isCall = false →
    (∀ scanCode, transition.event ≠ .key scanCode) →
    transition.after.kernel.console.tty = transition.before.kernel.console.tty
  cursor : (transition.after.kernel.console.cursor : Int) =
    transition.after.kernel.console.viewed.y * 80 + transition.after.kernel.console.viewed.x

section Steps

variable {platform : Platform} {machine next : Machine} {event : Event} {reply : Reply}

theorem Machine.step_wrote (mapped : machine.kernel.OwnScreen)
    (sound : machine.kernel.processView.Sound) (valid : machine.callerTable.Valid)
    (off : machine.callerTable.offTerminal)
    (fired : machine.step platform event = some (next, reply))
    (call : event.isCall = true) :
    Console.Wrote machine.kernel.curSchedTerm event.output machine.kernel.console
      next.kernel.console := by
  rcases step_console sound valid off fired call with ⟨-, silent, reset⟩ | ⟨-, left⟩
  · rw [silent, reset]
    exact Kernel.terminalOpen_wrote mapped
  · exact left.wrote mapped

theorem Kernel.Step.interrupt_mapped {kernel : Kernel} {result : Kernel × Reply}
    (step : Kernel.Step platform kernel event result) (mapped : kernel.OwnScreen)
    (sound : kernel.processView.Sound) (interrupt : event.isCall = false) :
    result.1.OwnScreen := by
  cases step with
  | tick esp ebp =>
      obtain ⟨chains, -, runs⟩ := sound
      obtain ⟨mask, ticked⟩ := Kernel.pitInterruptHandler_eq esp ebp runs.active
      rw [ticked]
      exact mapped.ticked esp ebp mask
  | key scanCode => exact mapped.key scanCode
  | rtcInterrupt => exact mapped.interrupted _ _ _
  | _ => cases interrupt

theorem Kernel.Step.interrupt_tty {kernel : Kernel} {result : Kernel × Reply}
    (step : Kernel.Step platform kernel event result) (sound : kernel.processView.Sound)
    (interrupt : event.isCall = false) (other : ∀ scanCode, event ≠ .key scanCode) :
    result.1.console.tty = kernel.console.tty := by
  cases step with
  | tick esp ebp =>
      obtain ⟨chains, -, runs⟩ := sound
      obtain ⟨mask, ticked⟩ := Kernel.pitInterruptHandler_eq esp ebp runs.active
      rw [ticked]
      rfl
  | key scanCode => exact absurd rfl (other scanCode)
  | rtcInterrupt => rfl
  | _ => cases interrupt

theorem Kernel.key_tty {kernel : Kernel} (mapped : kernel.OwnScreen) (scanCode : UInt8) :
    (kernel.keyboardInterruptHandler scanCode).console.tty = kernel.console.tty ∨
      (¬ kernel.console.switchesView scanCode ∧
        (kernel.keyboardInterruptHandler scanCode).console.curTerminal =
          kernel.console.curTerminal ∧
        ∀ terminal, terminal ≠ kernel.console.curTerminal →
          (kernel.keyboardInterruptHandler scanCode).console.tty terminal =
            kernel.console.tty terminal) := by
  obtain ⟨mask, ignored | typed⟩ := kernel.keyboardInterruptHandler_cases scanCode
  · rw [ignored]
    exact .inl rfl
  · rw [typed]
    rcases keyConsole_cases scanCode mapped with ⟨stays, handled⟩ | ⟨-, switched, -⟩
    · exact .inr ⟨stays, handled.only.curTerminal, fun terminal away =>
        handled.only.tty_eq mapped.placed.buffers away⟩
    · exact .inl switched.ttys

theorem Machine.step_mapped (mapped : machine.kernel.OwnScreen)
    (sound : machine.kernel.processView.Sound) (valid : machine.callerTable.Valid)
    (off : machine.callerTable.offTerminal)
    (fired : machine.step platform event = some (next, reply)) : next.kernel.OwnScreen := by
  cases call : event.isCall with
  | true =>
      exact mapped.wrote ((step_kernel fired).display_eq sound call)
        (step_wrote mapped sound valid off fired call)
  | false => exact (step_kernel fired).interrupt_mapped mapped sound call

theorem Machine.step_separate (mapped : machine.kernel.OwnScreen)
    (sound : machine.kernel.processView.Sound) (valid : machine.callerTable.Valid)
    (off : machine.callerTable.offTerminal)
    (fired : machine.step platform event = some (next, reply)) :
    SeparateScreens ⟨machine, event, reply, next⟩ := by
  have pressed {scanCode : UInt8} (key : event = .key scanCode) :
      next.kernel = machine.kernel.keyboardInterruptHandler scanCode := by
    subst key
    exact congrArg (fun result => result.1.kernel) (Option.some.inj fired).symm
  refine ⟨?_, ?_, ?_, ?_, ?_⟩
  · intro call
    exact (step_wrote mapped sound valid off fired call).tty
  · intro scanCode key terminal away
    simp only at key away ⊢
    rw [pressed key]
    rcases Kernel.key_tty mapped scanCode with same | ⟨-, -, others⟩
    · rw [same]
    · exact others terminal away
  · intro scanCode key switched
    simp only at key switched ⊢
    rw [pressed key] at switched ⊢
    rcases Kernel.key_tty mapped scanCode with same | ⟨stays, view, -⟩
    · exact same
    · exact absurd view (switched.resolve_left stays)
  · intro interrupt other
    exact (step_kernel fired).interrupt_tty sound interrupt other
  · have cursor := (step_mapped mapped sound valid off fired).placed.cursor
    simp only [cursor, Tty.position, Console.tty, Console.viewed]
    omega

end Steps

theorem Launched.mappedAfter {platform : Platform} {start machine : Machine} {trace : Trace}
    (began : Launched platform start)
    (run : Run (Machine.step platform) start trace machine) : machine.kernel.OwnScreen := by
  induction run with
  | nil => exact began.mappedStart
  | snoc before fired induction =>
      have sound := Reachable.sound ⟨start, _, began, before⟩
      have descriptors := Launched.descriptorsAfter began before (Kernel.live_running sound)
      exact Machine.step_mapped induction sound descriptors.valid descriptors.offTerminal
        fired

/-- Along every run from `launch` the kernel is three consoles side by side. -/
theorem Launched.separateScreens {platform : Platform} {start machine : Machine}
    {trace : Trace} (began : Launched platform start)
    (run : Run (Machine.step platform) start trace machine) :
    ∀ transition ∈ trace, SeparateScreens transition := by
  intro transition member
  obtain ⟨⟨shorter, reached⟩, fired⟩ := run.reached member
  have sound := Reachable.sound ⟨start, shorter, began, reached⟩
  have descriptors := Launched.descriptorsAfter began reached (Kernel.live_running sound)
  exact Machine.step_separate (began.mappedAfter reached) sound descriptors.valid
    descriptors.offTerminal fired

namespace Sample

def screenEvents : List Event :=
  [.write 1 (some fun _ => 65) 3, .key altChar, .key f2Char, .key 30, .tick 0 0,
    .write 1 (some fun _ => 66) 2, .key backSpaceCode, .key ctrlCode, .key lChar]

theorem screenEvents_fire :
    (runEvents (Machine.step platform) start screenEvents).isSome = true := by
  decide +kernel

end Sample

theorem separateScreens_sample :
    ∃ trace : Trace, trace.map Transition.event = Sample.screenEvents ∧
      ∀ transition ∈ trace, SeparateScreens transition := by
  obtain ⟨trace, run, events⟩ :=
    run_of_runEvents (Option.some_get Sample.screenEvents_fire).symm
  exact ⟨trace, events, Sample.launched.separateScreens run⟩

end Ece391Os
