import Ece391Os.Interrupts.Handlers

namespace Ece391Os

open Data

/-! Runs of a board from the return of `i8259_init`. -/

abbrev BoardTrace := List (Transition Board Board.Signal (Option Event))

theorem Console.resetScreen_eq (console : Console) :
    console.resetRow.resetColumn.showCursor = console.resetScreen := by
  simp [resetRow, resetColumn, resetScreen, modifyShell]

namespace Op

/-- What an operation of `entry` alone does to the kernel. -/
def setup : Op → Kernel → Kernel
  | .code .pitTables, kernel => kernel.pitTables
  | .code .initShell, kernel => kernel.changeConsole Console.initShell
  | .code .clear, kernel => kernel.changeConsole (Console.clearScreen kernel.pages.videoPage)
  | .code .resetRow, kernel => kernel.changeConsole Console.resetRow
  | .code .resetColumn, kernel => kernel.changeConsole Console.resetColumn
  | .code .homeCursor, kernel => kernel.changeConsole Console.showCursor
  | _, kernel => kernel

def prepare (ops : List Op) (kernel : Kernel) : Kernel :=
  ops.foldl (fun kernel op => op.setup kernel) kernel

theorem entry_boots (platform : Platform) (memory : BootMemory) :
    prepare (Op.entry.filter isSetup) { Kernel.zeroed memory with
      pages := (Kernel.zeroed memory).pages.initPaging platform }.settled =
      (Kernel.boot platform memory).settled := by
  have codes : Op.entry.filter isSetup = [.code .pitTables, .code .initShell, .code .clear,
      .code .resetRow, .code .resetColumn, .code .homeCursor] := by decide
  rw [codes]
  simp only [prepare, List.foldl_cons, List.foldl_nil, setup, Kernel.changeConsole,
    Console.resetScreen_eq]
  rfl

theorem setup_settled (op : Op) (kernel : Kernel) :
    (op.setup kernel).settled = op.setup kernel.settled := by
  cases op with
  | code code =>
      cases code with
      | _ => rfl
  | _ => rfl

theorem setup_scheduler (op : Op) (kernel : Kernel) :
    (op.setup kernel).curSchedTerm = kernel.curSchedTerm ∧
      (op.setup kernel).prevSchedTerm = kernel.prevSchedTerm ∧
      (op ≠ .code .pitTables → (op.setup kernel).schedArr = kernel.schedArr) := by
  cases op with
  | code code =>
      cases code with
      | pitTables => exact ⟨rfl, rfl, fun other => absurd rfl other⟩
      | clear =>
          unfold setup
          generalize Console.clearScreen = clearScreen
          exact ⟨rfl, rfl, fun _ => rfl⟩
      | _ => exact ⟨rfl, rfl, fun _ => rfl⟩
  | _ => exact ⟨rfl, rfl, fun _ => rfl⟩

theorem setup_rtcInterrupt (op : Op) (kernel : Kernel) :
    op.setup kernel.rtcInterruptHandler = (op.setup kernel).rtcInterruptHandler := by
  cases op with
  | code code =>
      cases code with
      | clear =>
          unfold setup
          generalize Console.clearScreen = clearScreen
          rfl
      | _ => rfl
  | _ => rfl

theorem prepare_rtcInterrupt (ops : List Op) (kernel : Kernel) :
    prepare ops kernel.rtcInterruptHandler = (prepare ops kernel).rtcInterruptHandler := by
  induction ops generalizing kernel with
  | nil => rfl
  | cons op later induction =>
      simp only [prepare, List.foldl_cons] at induction ⊢
      rw [setup_rtcInterrupt, induction]

end Op

namespace Board

variable {platform : Platform} {board next : Board} {frame : Frame} {rest : List Frame}

theorem exec_setup (esp ebp : Int) (op : Op) (setup : op.isSetup = true) :
    board.exec esp ebp frame rest op =
      ((board.setFrames (frame :: rest)).changeKernel op.setup, none) := by
  cases op with
  | code code =>
      cases code with
      | switchProcess | rtcLoop | scanCode => cases setup
      | _ => rfl
  | _ => cases setup

/-- What `entry` still has to prepare. -/
def setup (board : Board) : List Op :=
  board.running.flatMap fun frame => frame.code.filter Op.isSetup

def takes (board : Board) : Signal → Option Nat
  | .interrupt _ => board.hardware.pics.acknowledge.map fun taken => taken.1.toNat - 0x20
  | _ => none

/-- No tick interrupts a `context_switch` while it is on the stack of the last terminal. -/
def Spaced (trace : BoardTrace) : Prop :=
  ∀ transition ∈ trace, transition.before.takes transition.event = some 0 →
    transition.before.stack = transition.before.current

/-- No key interrupts `entry`. -/
def Quiet (trace : BoardTrace) : Prop :=
  ∀ transition ∈ trace, transition.before.takes transition.event = some 1 →
    transition.before.launched = false → transition.before.running = []

def machineEvents (trace : BoardTrace) : List Event :=
  trace.filterMap fun transition => if transition.before.launched then transition.reply else none

theorem machineEvents_snoc (trace : BoardTrace)
    (transition : Transition Board Signal (Option Event)) :
    machineEvents (trace ++ [transition]) = machineEvents trace ++
      (if transition.before.launched then transition.reply else none).toList := by
  rw [machineEvents, List.filterMap_append]
  congr 1

def Handlers (board : Board) : Prop :=
  ∀ terminal, ∀ frame ∈ board.frames terminal, ∀ op ∈ frame.code, op.isSetup = false

inductive Phase (platform : Platform) (trace : BoardTrace) (board : Board) : Prop
  | early (home : board.stack = board.current)
      (scheduler : board.machine.kernel.prevSchedTerm = none ∧
        board.machine.kernel.curSchedTerm = 0)
      (nodes : .code .pitTables ∉ board.setup →
        board.machine.kernel.schedArr = Kernel.firstNode)
      (boots : Quiet trace → Booted platform (Op.prepare board.setup board.settled.kernel))
      (calm : Quiet trace → ∀ frame ∈ board.running, .code .scanCode ∈ frame.code →
        board.setup = [])
      (others : ∀ terminal ≠ board.stack, board.frames terminal = [])
      (off : board.launched = false) (ready : board.machine.blocked = fun _ => none)
      (none : machineEvents trace = [])
  | going (launching : Transition Board Signal (Option Event)) (stackFrame : StackFrame)
      (steps : List (Transition Machine Event Reply))
      (member : launching ∈ trace) (launch : launching.event = .launch stackFrame)
      (began : Quiet trace → Launched platform launching.after.machine)
      (run : Run (Machine.step platform) launching.after.machine steps board.settled)
      (events : steps.map Transition.event = machineEvents trace)
      (sound : board.settled.kernel.processView.Sound)
      (handlers : board.Handlers) (paused : board.Paused) (on : board.launched = true)

structure Inv (platform : Platform) (trace : BoardTrace) (board : Board) : Prop where
  control : board.Control
  phase : Phase platform trace board

variable {trace : BoardTrace} {transition : Transition Board Signal (Option Event)}

theorem Quiet.before (quiet : Quiet (trace ++ [transition])) : Quiet trace :=
  fun each member => quiet each (List.mem_append_left _ member)

/-- What leaves the machine and its frames as they are leaves the phase. -/
theorem Phase.same (phase : Phase platform trace board) (machine : next.machine = board.machine)
    (frames : next.frames = board.frames) (stack : next.stack = board.stack)
    (left : next.left = board.left) (launched : next.launched = board.launched)
    (silent : transition.reply = none) : Phase platform (trace ++ [transition]) next := by
  have events : machineEvents (trace ++ [transition]) = machineEvents trace := by
    rw [machineEvents_snoc, silent]
    simp
  have current : next.current = board.current := congrArg (fun m => m.kernel.curSchedTerm) machine
  have settled : next.settled = board.settled := by rw [settled, machine, settled]
  have running : next.running = board.running := by rw [Board.running, frames, stack, Board.running]
  have setup : next.setup = board.setup := by rw [Board.setup, running, Board.setup]
  cases phase with
  | early home scheduler nodes boots calm others off ready none =>
      refine .early (stack.trans (home.trans current.symm)) ?_ ?_ ?_ ?_ ?_ (launched.trans off) ?_
        (events.trans none)
      · rw [machine]
        exact scheduler
      · rw [setup, machine]
        exact nodes
      · rw [setup, settled]
        exact fun quiet => boots quiet.before
      · rw [setup, running]
        exact fun quiet => calm quiet.before
      · rw [stack, frames]
        exact others
      · rw [machine]
        exact ready
  | going launching stackFrame steps member launch began run labels sound handlers paused on =>
      refine .going launching stackFrame steps (List.mem_append_left _ member) launch
        (fun quiet => began quiet.before) ?_ (labels.trans events.symm) ?_ ?_ ?_
        (launched.trans on)
      · rw [settled]
        exact run
      · rw [settled]
        exact sound
      · rw [Handlers, frames]
        exact handlers
      · rw [Paused, frames, stack, left, current, machine]
        exact paused

theorem irqCode_handler : ∀ irq ∈ usedIrqs, (∀ op ∈ irqCode irq, op.isSetup = false) ∧
    (Op.code .scanCode ∈ irqCode irq → irq = 1) := by
  decide

theorem setFrames_others {chain : List Frame} {terminal : Fin 3} (away : terminal ≠ board.stack) :
    (board.setFrames chain).frames terminal = board.frames terminal :=
  Function.update_of_ne away _ _

theorem Handlers.setFrames {chain : List Frame} (handlers : board.Handlers)
    (fresh : ∀ frame ∈ chain, ∀ op ∈ frame.code, op.isSetup = false) :
    (board.setFrames chain).Handlers := by
  intro terminal frame member
  by_cases here : terminal = board.stack
  · subst here
    simp only [Board.setFrames, Function.update_self] at member
    exact fresh frame member
  · rw [setFrames_others here] at member
    exact handlers terminal frame member

theorem Phase.interrupt {irq : Nat} {pics : PicPair} (stale : Frame)
    (phase : Phase platform trace board) (used : irq ∈ usedIrqs)
    (silent : transition.reply = none)
    (quiet : Quiet (trace ++ [transition]) → irq = 1 → board.launched = false →
      board.running = []) :
    Phase platform (trace ++ [transition]) (board.interrupted stale irq pics) := by
  obtain ⟨handler, key⟩ := irqCode_handler irq used
  have events : machineEvents (trace ++ [transition]) = machineEvents trace := by
    rw [machineEvents_snoc, silent]
    simp
  have running := board.interrupted_running stale irq pics
  have setup : (board.interrupted stale irq pics).setup = board.setup := by
    have nothing : (irqCode irq).filter Op.isSetup = [] := by
      apply List.filter_eq_nil_iff.mpr
      intro op member
      rw [handler op member]
      decide
    rw [Board.setup, running, List.flatMap_cons, nothing, List.nil_append, Board.setup]
  cases phase with
  | early home scheduler nodes boots calm others off ready none =>
      refine .early home scheduler ?_ ?_ ?_ ?_ off ready (events.trans none)
      · rw [setup]
        exact nodes
      · rw [setup]
        exact fun still => boots still.before
      · rw [setup, running]
        intro still frame member scans
        rcases List.mem_cons.mp member with rfl | member
        · rw [Board.setup, quiet still (key scans) off, List.flatMap_nil]
        · exact calm still.before frame member scans
      · intro terminal away
        exact (Function.update_of_ne away _ _).trans (others terminal away)
  | going launching stackFrame steps member launch began run labels sound handlers paused on =>
      refine .going launching stackFrame steps (List.mem_append_left _ member) launch
        (fun still => began still.before) run (labels.trans events.symm) sound ?_ ?_ on
      · apply Handlers.setFrames handlers
        intro frame member
        rcases List.mem_cons.mp member with rfl | member
        · exact handler
        · exact handlers board.stack frame member
      · intro terminal other ran
        obtain ⟨left, waits⟩ := paused terminal other ran
        refine ⟨left, fun away => ?_⟩
        obtain ⟨waiting, one, stopped⟩ := waits away
        exact ⟨waiting, (Function.update_of_ne away _ _).trans one, stopped⟩

/-! One operation of the code under way. -/

theorem exec_kept (esp ebp : Int) (op : Op) :
    (board.exec esp ebp frame rest op).1.launched = board.launched ∧
      (board.exec esp ebp frame rest op).1.machine.blocked = board.machine.blocked := by
  by_cases setup : op.isSetup = true
  · rw [exec_setup esp ebp op setup]
    exact ⟨rfl, rfl⟩
  · cases op with
    | cliAndSave place =>
        cases place with
        | stack => exact ⟨rfl, rfl⟩
        | keyboard => exact ⟨rfl, rfl⟩
    | restoreFlags place =>
        cases place with
        | stack => exact ⟨rfl, rfl⟩
        | keyboard => exact ⟨rfl, rfl⟩
    | code code =>
        cases code with
        | switchProcess =>
            simp only [exec, switchProcess]
            split
            · exact ⟨rfl, rfl⟩
            · exact ⟨rfl, rfl⟩
            · exact ⟨rfl, rfl⟩
        | rtcLoop => exact ⟨rfl, rfl⟩
        | scanCode => exact ⟨rfl, rfl⟩
        | _ => exact absurd rfl setup
    | _ => exact ⟨rfl, rfl⟩

theorem exec_nodes (esp ebp : Int) {op : Op} (other : op ≠ .code .pitTables)
    (same : op = .code .switchProcess → board.machine.kernel.prevSchedTerm = none) :
    (board.exec esp ebp frame rest op).1.machine.kernel.schedArr =
      board.machine.kernel.schedArr := by
  by_cases setup : op.isSetup = true
  · rw [exec_setup esp ebp op setup]
    exact (Op.setup_scheduler op _).2.2 other
  · cases op with
    | cliAndSave place =>
        cases place with
        | stack => rfl
        | keyboard => rfl
    | restoreFlags place =>
        cases place with
        | stack => rfl
        | keyboard => rfl
    | mask irq => exact (board.machine.kernel.disableIrq_alike irq).nodes
    | unmask irq => exact (board.machine.kernel.enableIrq_alike irq).nodes
    | code code =>
        cases code with
        | switchProcess =>
            rw [exec_switch_idle esp ebp (same rfl)]
            rfl
        | scanCode => exact (board.machine.kernel.scanCode_alike _).nodes
        | rtcLoop => rfl
        | _ => exact absurd rfl setup
    | _ => rfl

structure Early (board : Board) (op : Op) (next : Board) : Prop where
  beside : board.Beside next
  others : ∀ terminal ≠ board.stack, next.frames terminal = board.frames terminal
  codes : ∀ later ∈ next.running, ∃ earlier ∈ board.running, later.code ⊆ earlier.code
  setup : board.setup = if op.isSetup then op :: next.setup else next.setup

theorem setup_cons {op : Op}
    (under : board.running = { frame with code := op :: frame.code } :: rest) :
    board.setup = (if op.isSetup then [op] else []) ++ frame.code.filter Op.isSetup ++
      rest.flatMap fun frame => frame.code.filter Op.isSetup := by
  rw [setup, under, List.flatMap_cons, List.filter_cons]
  split
  · rfl
  · rfl

theorem Moves.early {op : Op} {esp ebp : Int} (moves : board.Moves esp ebp op frame rest next)
    (under : board.running = { frame with code := op :: frame.code } :: rest)
    (home : board.stack = board.current) (idle : board.machine.kernel.prevSchedTerm = none) :
    board.Early op next := by
  have now := setup_cons under
  have below (later : Frame) (member : later ∈ rest) :
      ∃ earlier ∈ board.running, later.code ⊆ earlier.code := by
    refine ⟨later, ?_, fun _ inside => inside⟩
    rw [under]
    exact List.mem_cons_of_mem _ member
  cases moves with
  | goes _ _ goes =>
      obtain ⟨after, frames, _⟩ := goes.frames
      obtain ⟨other, running, code, _⟩ := goes.running
      refine ⟨goes.beside, ?_, ?_, ?_⟩
      · intro terminal away
        rw [frames, Function.update_of_ne away]
      · rw [running, under]
        intro later member
        rcases List.mem_cons.mp member with rfl | member
        · refine ⟨_, List.mem_cons_self, ?_⟩
          rw [code]
          exact List.subset_cons_self op frame.code
        · exact ⟨later, List.mem_cons_of_mem _ member, fun _ inside => inside⟩
      · have after : next.setup = frame.code.filter Op.isSetup ++
            rest.flatMap fun frame => frame.code.filter Op.isSetup := by
          rw [setup, running, List.flatMap_cons, code]
        rw [now, after]
        split
        · rfl
        · rfl
  | leaves last done same =>
      subst last same
      have running : { board.setFrames rest with flag := true }.running = rest :=
        Function.update_self ..
      refine ⟨⟨rfl, rfl, rfl⟩, fun terminal away => Function.update_of_ne away _ _, ?_, ?_⟩
      · rw [running]
        exact below
      · rw [now, done, setup, running]
        rfl
  | enters _ _ _ _ _ away => exact absurd home away
  | starts _ active => exact absurd idle active
  | resumes _ active => exact absurd idle active

theorem exec_early (frame : Frame) (rest : List Frame) (esp ebp : Int) (op : Op)
    (idle : board.machine.kernel.prevSchedTerm = none)
    (plain : op.isSetup = false) :
    (board.exec esp ebp frame rest op).1.settled.kernel = board.settled.kernel ∨
      op = .code .rtcLoop ∧ (board.exec esp ebp frame rest op).1.settled.kernel =
        board.settled.kernel.rtcInterruptHandler ∨
      op = .code .scanCode ∧ ∃ code, (board.exec esp ebp frame rest op).1.settled.kernel =
        board.settled.kernel.keyboardInterruptHandler code := by
  cases op with
  | cliAndSave place =>
      cases place with
      | stack => exact .inl rfl
      | keyboard => exact .inl rfl
  | restoreFlags place =>
      cases place with
      | stack => exact .inl rfl
      | keyboard => exact .inl rfl
  | mask irq => exact .inl (Kernel.settled_disableIrq _ irq)
  | unmask irq => exact .inl (Kernel.settled_enableIrq _ irq)
  | code code =>
      cases code with
      | switchProcess =>
          left
          rw [exec_switch_idle esp ebp idle]
          rfl
      | rtcLoop => exact .inr (.inl ⟨rfl, (Kernel.rtcInterruptHandler_settled _).symm⟩)
      | scanCode =>
          exact .inr (.inr ⟨rfl, _, (Kernel.keyboardInterruptHandler_settled _ _).symm⟩)
      | _ => cases plain
  | _ => exact .inl rfl

def advanced (board : Board) (esp ebp : Int) (frame : Frame) (rest : List Frame) (op : Op) :
    Transition Board Signal (Option Event) where
  before := board
  event := .advance esp ebp
  reply := (board.exec esp ebp frame rest op).2
  after := (board.exec esp ebp frame rest op).1

theorem Phase.advance_early {op : Op} (esp ebp : Int) (control : board.Control)
    (under : board.running = { frame with code := op :: frame.code } :: rest)
    (home : board.stack = board.current)
    (scheduler : board.machine.kernel.prevSchedTerm = none ∧
      board.machine.kernel.curSchedTerm = 0)
    (nodes : .code .pitTables ∉ board.setup → board.machine.kernel.schedArr = Kernel.firstNode)
    (boots : Quiet trace → Booted platform (Op.prepare board.setup board.settled.kernel))
    (calm : Quiet trace → ∀ frame ∈ board.running, .code .scanCode ∈ frame.code →
      board.setup = [])
    (others : ∀ terminal ≠ board.stack, board.frames terminal = [])
    (off : board.launched = false) (ready : board.machine.blocked = fun _ => none)
    (none : machineEvents trace = []) :
    Phase platform (trace ++ [board.advanced esp ebp frame rest op])
      (board.exec esp ebp frame rest op).1 := by
  have early : board.Early op (board.exec esp ebp frame rest op).1 :=
    ((control.underWay under).moves esp ebp fun active => absurd scheduler.1 active).early under
      home scheduler.1
  obtain ⟨⟨stack, current, previous⟩, apart, codes, setup⟩ := early
  have first : (board.exec esp ebp frame rest op).1.machine.kernel.curSchedTerm =
      board.machine.kernel.curSchedTerm := current
  refine .early (stack.trans (home.trans current.symm))
    ⟨previous.trans scheduler.1, first.trans scheduler.2⟩ ?_ ?_ ?_ ?_
    ((exec_kept esp ebp op).1.trans off) ((exec_kept esp ebp op).2.trans ready) ?_
  · intro done
    by_cases tables : op = .code .pitTables
    · subst tables
      rfl
    · refine (exec_nodes esp ebp tables fun _ => scheduler.1).trans (nodes ?_)
      rw [setup]
      split
      · exact List.not_mem_cons_of_ne_of_not_mem (Ne.symm tables) done
      · exact done
  · intro quiet
    have booted := boots quiet.before
    rw [setup] at booted
    by_cases plain : op.isSetup = true
    · have settled : (board.exec esp ebp frame rest op).1.settled.kernel =
          op.setup board.settled.kernel := by
        rw [exec_setup esp ebp op plain]
        exact Op.setup_settled op board.machine.kernel
      rw [if_pos plain] at booted
      rw [settled]
      exact booted
    · rw [if_neg plain] at booted
      rcases exec_early frame rest esp ebp op scheduler.1
        ((Bool.not_eq_true _).mp plain) with same | ⟨rfl, clocked⟩ | ⟨rfl, code, typed⟩
      · rw [same]
        exact booted
      · rw [clocked, Op.prepare_rtcInterrupt]
        exact booted.rtcInterrupt
      · have nothing : board.setup = [] := by
          refine calm quiet.before { frame with code := .code .scanCode :: frame.code } ?_
            List.mem_cons_self
          rw [under]
          exact List.mem_cons_self
        rw [if_neg plain] at setup
        rw [← setup, nothing] at booted ⊢
        rw [typed]
        exact booted.key code
  · intro quiet later member scans
    obtain ⟨earlier, inside, fewer⟩ := codes later member
    have nothing := calm quiet.before earlier inside (fewer scans)
    rw [setup] at nothing
    split at nothing
    · cases nothing
    · exact nothing
  · intro terminal away
    rw [stack] at away
    exact (apart terminal away).trans (others terminal away)
  · rw [machineEvents_snoc, none, advanced, off]
    rfl

theorem Handlers.under {op : Op} (handlers : board.Handlers)
    (under : board.running = { frame with code := op :: frame.code } :: rest) :
    op.isSetup = false ∧ (∀ each ∈ frame.code, each.isSetup = false) ∧
      ∀ other ∈ rest, ∀ each ∈ other.code, each.isSetup = false := by
  have own (other : Frame) (member : other ∈ board.running) :
      ∀ each ∈ other.code, each.isSetup = false := handlers board.stack other member
  rw [under] at own
  have first := own _ List.mem_cons_self
  refine ⟨first op List.mem_cons_self, fun each member => first each ?_, ?_⟩
  · exact List.mem_cons_of_mem _ member
  · exact fun other member => own other (List.mem_cons_of_mem _ member)

theorem Moves.handlers {op : Op} {esp ebp : Int} (moves : board.Moves esp ebp op frame rest next)
    (under : board.running = { frame with code := op :: frame.code } :: rest)
    (handlers : board.Handlers) : next.Handlers := by
  obtain ⟨_, first, below⟩ := handlers.under under
  have alone : ∀ other ∈ [frame], ∀ each ∈ other.code, each.isSetup = false := by
    intro other member
    rw [List.mem_singleton.mp member]
    exact first
  have leaving : (board.leaving esp ebp frame).Handlers := handlers.setFrames alone
  cases moves with
  | goes _ _ goes =>
      obtain ⟨after, frames, code, _⟩ := goes.frames
      have set : (board.setFrames (after :: rest)).Handlers := by
        apply handlers.setFrames
        intro other member
        rcases List.mem_cons.mp member with rfl | member
        · rw [code]
          exact first
        · exact below other member
      intro terminal
      rw [frames]
      exact set terminal
  | leaves last done same =>
      subst same
      exact handlers.setFrames below
  | enters last done suspended _ _ _ same =>
      subst same
      have left : Handlers { board.setFrames rest with stack := board.current } :=
        handlers.setFrames below
      have nothing : ∀ frame ∈ ([] : List Frame), ∀ op ∈ frame.code, op.isSetup = false := nofun
      exact left.setFrames nothing
  | starts _ _ _ _ _ _ same =>
      subst same
      apply leaving.setFrames
      intro other member
      rcases List.mem_cons.mp member with rfl | member
      · exact (by decide : ∀ each ∈ Op.firstSwitch, each.isSetup = false)
      · exact alone other member
  | resumes _ _ _ _ _ _ same =>
      subst same
      exact leaving

/-- A machine's run goes on with what an operation is to it. -/
theorem Effects.run {start : Machine} {steps : List (Transition Machine Event Reply)}
    {result : Board × Option Event} (effects : Effects platform board result)
    (run : Run (Machine.step platform) start steps board.settled)
    (sound : board.settled.kernel.processView.Sound) :
    ∃ more, Run (Machine.step platform) start (steps ++ more) result.1.settled ∧
      more.map Transition.event = result.2.toList ∧
      result.1.settled.kernel.processView.Sound := by
  cases effects with
  | silent next same =>
      refine ⟨[], ?_, rfl, ?_⟩
      · rw [List.append_nil, same]
        exact run
      · rw [same]
        exact sound
  | event next event reply interrupt fired =>
      exact ⟨_, run.snoc fired, rfl,
        ((Machine.step_kernel fired).effect sound).sound sound⟩

theorem active_of_sound (sound : board.settled.kernel.processView.Sound) :
    board.machine.kernel.prevSchedTerm ≠ none := by
  obtain ⟨_, _, runs⟩ := sound
  exact runs.active

theorem Phase.paused (phase : Phase platform trace board)
    (active : board.machine.kernel.prevSchedTerm ≠ none) : board.Paused := by
  cases phase with
  | early _ scheduler => exact absurd scheduler.1 active
  | going _ _ _ _ _ _ _ _ _ _ paused => exact paused

theorem Inv.advance {op : Op} (esp ebp : Int) (inv : Inv platform trace board)
    (under : board.running = { frame with code := op :: frame.code } :: rest) :
    Inv platform (trace ++ [board.advanced esp ebp frame rest op])
      (board.exec esp ebp frame rest op).1 := by
  have underWay := inv.control.underWay under
  refine ⟨underWay.control esp ebp inv.phase.paused, ?_⟩
  cases inv.phase with
  | early home scheduler nodes boots calm others off ready none =>
      exact .advance_early esp ebp inv.control under home scheduler nodes boots calm others off
        ready none
  | going launching stackFrame steps member launch began run labels sound handlers paused on =>
      obtain ⟨handler, _⟩ := handlers.under under
      have moves : board.Moves esp ebp op frame rest (board.exec esp ebp frame rest op).1 :=
        underWay.moves esp ebp fun _ => paused
      obtain ⟨more, goes, events, safe⟩ := (exec_effects esp ebp op handler).run run sound
      refine .going launching stackFrame (steps ++ more) (List.mem_append_left _ member) launch
        (fun quiet => began quiet.before) goes ?_ safe (moves.handlers under handlers)
        (moves.paused paused ?_) ((exec_kept esp ebp op).1.trans on)
      · rw [List.map_append, labels, events, machineEvents_snoc, advanced, on]
        rfl
      · apply exec_nodes esp ebp
        rintro rfl
        cases handler

/-! One step of a board. -/

theorem step_advance {reply : Option Event} {esp ebp : Int}
    (fired : board.step platform (.advance esp ebp) = some (next, reply)) :
    ∃ op frame rest, board.running = { frame with code := op :: frame.code } :: rest ∧
      next = (board.exec esp ebp frame rest op).1 ∧
      reply = (board.exec esp ebp frame rest op).2 := by
  simp only [step] at fired
  split at fired
  · rename_i op later eflags flags byte rest under
    obtain ⟨rfl, rfl⟩ := Prod.mk.inj (Option.some.inj fired)
    exact ⟨op, ⟨later, eflags, flags, byte⟩, rest, under, rfl, rfl⟩
  · cases fired

theorem Inv.disturb {reply : Option Event} {disturbance : Disturbance}
    (inv : Inv platform trace board)
    (fired : board.step platform (.disturb disturbance) = some (next, reply)) :
    Inv platform (trace ++ [⟨board, .disturb disturbance, reply, next⟩]) next := by
  obtain ⟨hardware, occurs, same⟩ := Option.map_eq_some_iff.mp fired
  obtain ⟨rfl, rfl⟩ := Prod.mk.inj same
  exact ⟨inv.control.disturb occurs, inv.phase.same rfl rfl rfl rfl rfl rfl⟩

theorem Control.takes {reply : Option Event} {stale : Frame} (control : board.Control)
    (fired : board.step platform (.interrupt stale) = some (next, reply)) :
    board.flag = true ∧ reply = none ∧ ∃ irq ∈ usedIrqs, ∃ pics,
      board.takes (.interrupt stale) = some irq ∧ board.hardware.pics.Taken irq pics ∧
      next = board.interrupted stale irq pics := by
  simp only [step] at fired
  split at fired
  · rename_i on
    obtain ⟨lines, _⟩ := control.lines_of_flag on
    split at fired
    · cases fired
    · rename_i vector pics taken
      obtain ⟨irq, used, number, took⟩ := lines.acknowledge taken
      have interrupted : decide (vector.toNat < numException) = false := by
        rw [decide_eq_false_iff_not, number, numException]
        omega
      rw [interrupted, number, (vector_used irq used).2, Option.map_some, on] at fired
      obtain ⟨rfl, rfl⟩ := Prod.mk.inj (Option.some.inj fired)
      refine ⟨on, rfl, irq, used, pics, ?_, took, rfl⟩
      rw [Board.takes, taken, Option.map_some, number, Nat.add_sub_cancel_left]
  · cases fired

theorem Inv.interrupt {reply : Option Event} {stale : Frame} (inv : Inv platform trace board)
    (spaced : Spaced (trace ++ [⟨board, .interrupt stale, reply, next⟩]))
    (fired : board.step platform (.interrupt stale) = some (next, reply)) :
    Inv platform (trace ++ [⟨board, .interrupt stale, reply, next⟩]) next := by
  obtain ⟨on, rfl, irq, used, pics, takes, took, rfl⟩ := inv.control.takes fired
  constructor
  · apply inv.control.interrupt stale on used took
    rintro rfl
    exact spaced _ List.mem_concat_self takes
  · apply inv.phase.interrupt stale used rfl
    rintro quiet rfl off
    exact quiet _ List.mem_concat_self takes off

theorem Inv.setFlags {reply : Option Event} {flag keyboardFlags : Bool}
    (inv : Inv platform trace board)
    (fired : board.step platform (.setFlags flag keyboardFlags) = some (next, reply)) :
    board.running = [] ∧ next.running = [] ∧ reply = none ∧
      next.hardware = board.hardware ∧
      Inv platform (trace ++ [⟨board, .setFlags flag keyboardFlags, reply, next⟩]) next := by
  simp only [step] at fired
  split at fired
  · rename_i free
    obtain ⟨rfl, rfl⟩ := Prod.mk.inj (Option.some.inj fired)
    have nothing := List.isEmpty_iff.mp free
    exact ⟨nothing, nothing, rfl, rfl, inv.control.setFlags nothing flag keyboardFlags,
      inv.phase.same rfl rfl rfl rfl rfl rfl⟩
  · cases fired

theorem Control.thread {machine : Machine} (control : board.Control) (free : board.running = [])
    (current : machine.kernel.curSchedTerm = board.current)
    (masks : machine.kernel.settled = machine.kernel) (launched flag : Bool) :
    { board with machine := machine, launched := launched, flag := flag }.Control := by
  obtain ⟨home, lines⟩ := control.atRest free
  refine .idle free (home.trans current.symm) ⟨?_, lines.promised⟩
  intro frame
  obtain ⟨_, _, pics, index⟩ := lines.idle frame
  exact ⟨congrArg Kernel.masterMask masks.symm, congrArg Kernel.slaveMask masks.symm, pics,
    index⟩

theorem Control.settled (control : board.Control) (free : board.running = []) :
    board.settled = board.machine ∧ board.stack = board.current := by
  obtain ⟨home, lines⟩ := control.atRest free
  obtain ⟨masterMask, slaveMask, _⟩ := lines.idle ⟨[], false, false, 0⟩
  exact ⟨congrArg (Machine.mk · board.machine.blocked)
    (Kernel.settled_eq _ masterMask slaveMask), home⟩

theorem Inv.launch {reply : Option Event} {stackFrame : StackFrame}
    (inv : Inv platform trace board)
    (fired : board.step platform (.launch stackFrame) = some (next, reply)) :
    board.running = [] ∧ next.running = [] ∧ reply = none ∧
      next.hardware = board.hardware ∧
      Inv platform (trace ++ [⟨board, .launch stackFrame, reply, next⟩]) next := by
  simp only [step] at fired
  split at fired
  · rename_i ready
    obtain ⟨empty, unlaunched⟩ := Bool.and_eq_true _ _ ▸ ready
    have free : board.running = [] := List.isEmpty_iff.mp empty
    obtain ⟨kernel, launched, same⟩ := Option.map_eq_some_iff.mp fired
    obtain ⟨rfl, rfl⟩ := Prod.mk.inj same
    obtain ⟨settled, _⟩ := inv.control.settled free
    cases inv.phase with
    | early home scheduler nodes boots calm others off ready none =>
        have nothing : board.setup = [] := by rw [setup, free, List.flatMap_nil]
        have scheduled : board.machine.kernel.schedArr = Kernel.firstNode :=
          nodes (by rw [nothing]; exact List.not_mem_nil)
        obtain ⟨entryPoint, memory, result⟩ := Kernel.launch_eq launched
        have masks : kernel.settled = kernel := by
          have before := congrArg Machine.kernel settled
          apply Kernel.settled_eq
          · rw [result]
            exact (congrArg Kernel.masterMask before).symm
          · rw [result]
            exact (congrArg Kernel.slaveMask before).symm
        have settledToo : Board.settled { board.setKernel kernel with
            launched := true, flag := true } = { board.machine with kernel := kernel } :=
          congrArg (Machine.mk · board.machine.blocked) masks
        have current : kernel.curSchedTerm = board.current := by
          rw [result]
          rfl
        refine ⟨free, free, rfl, rfl, inv.control.thread free current masks true true, ?_⟩
        refine .going ⟨board, .launch stackFrame, .none, _⟩ stackFrame [] List.mem_concat_self rfl
          ?_ ?_ ?_ ?_ ?_ ?_ rfl
        · intro quiet
          have booted := boots quiet.before
          rw [nothing, settled] at booted
          exact ⟨board.machine.kernel, stackFrame, booted, launched, ready⟩
        · rw [settledToo]
          exact .nil _
        · rw [machineEvents_snoc, none, off]
          rfl
        · rw [settledToo, result]
          have numbers (terminal : Fin 3) :
              (board.machine.kernel.schedArr terminal).processNum = terminal.val + 1 := by
            rw [scheduled]
            rfl
          exact ⟨_, Kernel.launched_chains stackFrame entryPoint memory scheduler.2 numbers⟩
        · intro terminal frame member
          by_cases here : terminal = board.stack
          · subst here
            have among : frame ∈ board.running := member
            rw [free] at among
            cases among
          · have among : frame ∈ board.frames terminal := member
            rw [others terminal here] at among
            cases among
        · intro terminal other ran
          have node : (kernel.schedArr terminal).esp = -1 := by
            have apart : terminal ≠ 0 := by
              rintro rfl
              exact other (current.trans scheduler.2).symm
            rw [result]
            change (board.machine.kernel.schedArr terminal).esp = -1
            rw [scheduled]
            simp [Kernel.firstNode, apart]
          exact absurd node ran
    | going _ _ _ _ _ _ _ _ _ _ _ on =>
        rw [on] at unlaunched
        cases unlaunched
  · cases fired

theorem Inv.call {reply : Option Event} {event : Event} (inv : Inv platform trace board)
    (fired : board.step platform (.call event) = some (next, reply)) :
    board.running = [] ∧ next.running = [] ∧ reply = some event ∧ event.isCall = true ∧
      next.hardware = board.hardware ∧
      Inv platform (trace ++ [⟨board, .call event, reply, next⟩]) next := by
  simp only [step] at fired
  split at fired
  · rename_i ready
    obtain ⟨both, call⟩ := Bool.and_eq_true _ _ ▸ ready
    obtain ⟨empty, launched⟩ := Bool.and_eq_true _ _ ▸ both
    have free : board.running = [] := List.isEmpty_iff.mp empty
    obtain ⟨⟨machine, answer⟩, called, same⟩ := Option.map_eq_some_iff.mp fired
    obtain ⟨rfl, rfl⟩ := Prod.mk.inj same
    obtain ⟨settled, _⟩ := inv.control.settled free
    cases inv.phase with
    | early _ _ _ _ _ _ off =>
        rw [off] at launched
        cases launched
    | going launching stackFrame steps member launch began run labels sound handlers paused on =>
        rw [settled] at run sound
        have kernelStep := Machine.step_kernel called
        have before : board.machine.kernel.settled = board.machine.kernel :=
          congrArg Machine.kernel settled
        have masks := Machine.step_settled called sound before
        have stays : event.isTick = false := by
          cases event with
          | tick => cases call
          | _ => rfl
        obtain ⟨current, nodes⟩ := (kernelStep.leaves sound).others stays
        have settledToo : Board.settled { board with machine := machine } = machine :=
          congrArg (Machine.mk · machine.blocked) masks
        refine ⟨free, free, rfl, call, rfl,
          inv.control.thread free current masks board.launched board.flag, ?_⟩
        refine .going launching stackFrame (steps ++ [⟨board.machine, event, answer, machine⟩])
          (List.mem_append_left _ member) launch (fun quiet => began quiet.before) ?_ ?_ ?_
          handlers ?_ on
        · rw [settledToo]
          exact run.snoc called
        · rw [machineEvents_snoc, List.map_append, labels, on]
          rfl
        · rw [settledToo]
          exact (kernelStep.effect sound).sound sound
        · intro terminal other ran
          have apart : terminal ≠ board.current := fun here => other (here.trans current.symm)
          rw [nodes terminal apart] at ran
          exact paused terminal apart ran
  · cases fired

theorem Inv.step {signal : Signal} {reply : Option Event} (inv : Inv platform trace board)
    (spaced : Spaced (trace ++ [⟨board, signal, reply, next⟩]))
    (fired : board.step platform signal = some (next, reply)) :
    Inv platform (trace ++ [⟨board, signal, reply, next⟩]) next := by
  cases signal with
  | disturb disturbance => exact inv.disturb fired
  | interrupt stale => exact inv.interrupt spaced fired
  | advance esp ebp =>
      obtain ⟨op, frame, rest, under, rfl, rfl⟩ := step_advance fired
      exact inv.advance esp ebp under
  | setFlags flag keyboardFlags =>
      obtain ⟨_, _, _, _, kept⟩ := inv.setFlags fired
      exact kept
  | launch frame =>
      obtain ⟨_, _, _, _, kept⟩ := inv.launch fired
      exact kept
  | call event =>
      obtain ⟨_, _, _, _, _, kept⟩ := inv.call fired
      exact kept

theorem Inv.start (memory : BootMemory) (stale : Frame) (keyboardFlags : Bool)
    {hardware : PcHardware} (cold : hardware.Cold) :
    Inv platform [] (Board.start platform memory stale keyboardFlags hardware) := by
  refine ⟨start_control platform memory stale keyboardFlags cold, ?_⟩
  have setup : (Board.start platform memory stale keyboardFlags hardware).setup =
      Op.entry.filter Op.isSetup := List.append_nil _
  refine .early rfl ⟨rfl, rfl⟩ ?_ ?_ ?_ ?_ rfl rfl rfl
  · intro done
    rw [setup] at done
    exact absurd (by decide) done
  · intro _
    have booted : Booted platform (Kernel.boot platform memory) := .boot memory
    rw [setup]
    have boots := Op.entry_boots platform memory
    rw [booted.settled] at boots
    exact boots ▸ booted
  · intro _ frame member scans
    rcases List.mem_singleton.mp member with rfl
    have among : Op.code .scanCode ∈ Op.entry := scans
    exact absurd among (by decide)
  · intro terminal other
    exact if_neg other

theorem Spaced.before (spaced : Spaced (trace ++ [transition])) : Spaced trace :=
  fun each member => spaced each (List.mem_append_left _ member)

/-- What holds of a board from the return of `i8259_init` on. -/
theorem Inv.run {memory : BootMemory} {stale : Frame} {keyboardFlags : Bool}
    {hardware : PcHardware} (cold : hardware.Cold)
    (run : Run (Board.step platform) (Board.start platform memory stale keyboardFlags hardware)
      trace board) (spaced : Spaced trace) : Inv platform trace board := by
  generalize began : Board.start platform memory stale keyboardFlags hardware = first at run
  induction run with
  | nil =>
      subst began
      exact .start memory stale keyboardFlags cold
  | snoc _ fired induction => exact (induction spaced.before).step spaced fired

end Board

end Ece391Os
