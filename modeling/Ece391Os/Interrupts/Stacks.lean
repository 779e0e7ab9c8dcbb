import Ece391Os.Interrupts.Lines

namespace Ece391Os

open Data

/-! What is under way on the kernel stacks.  A handler runs with the flag off: over a
program, over the end of `entry`, or over a `context_switch` that still is on the stack of
the last terminal.  The last two run with the flag on. -/

namespace Op

theorem checks_cons {op : Op} {later : List Op} {point : Point}
    (checked : Op.checks (op :: later) point = true) :
    point.flag = false ∧ op.allowed later point = true ∧
      (op ≠ .leave → op ≠ .sti → Op.checks later (op.point point) = true) := by
  simp only [Op.checks, Bool.and_eq_true, Bool.not_eq_true', Bool.or_eq_true,
    decide_eq_true_eq] at checked
  obtain ⟨⟨⟨off, allowed⟩, _⟩, goes⟩ := checked
  refine ⟨off, allowed, ?_⟩
  intro returns opens
  exact goes.resolve_left (not_or.mpr ⟨returns, opens⟩)

theorem checks_head {op : Op} {later : List Op} {point : Point}
    (checked : Op.checks (op :: later) point = true) :
    op = .inb 0x60 ↔ later.head? = some (.code .scanCode) := by
  simp only [Op.checks, Bool.and_eq_true, decide_eq_true_eq] at checked
  exact checked.1.2

theorem checks_flag {code : List Op} {point : Point} (checked : Op.checks code point = true) :
    point.flag = false := by
  cases code with
  | nil => cases checked
  | cons op later => exact (checks_cons checked).1

def isReset : Op → Bool
  | .code .resetRow | .code .resetColumn | .code .homeCursor => true
  | _ => false

theorem suffix_resetScreen {op : Op} {later : List Op}
    (suffix : op :: later <:+ Op.resetScreen) :
    op.isReset = true ∧ later <:+ Op.resetScreen ∧ later ≠ [] ∨ op = .leave ∧ later = [] := by
  have shorter : later <:+ Op.resetScreen := (List.suffix_cons op later).trans suffix
  simp only [Op.resetScreen, List.suffix_cons_iff, List.suffix_nil, List.cons.injEq,
    reduceCtorEq, or_false] at suffix
  rcases suffix with ⟨rfl, rfl⟩ | ⟨rfl, rfl⟩ | ⟨rfl, rfl⟩ | ⟨rfl, rfl⟩
  · exact .inl ⟨rfl, shorter, List.cons_ne_nil _ _⟩
  · exact .inl ⟨rfl, shorter, List.cons_ne_nil _ _⟩
  · exact .inl ⟨rfl, shorter, List.cons_ne_nil _ _⟩
  · exact .inr ⟨rfl, rfl⟩

end Op

/-- A frame that waits in the timer's handler for its terminal's turn. -/
structure Frame.Stopped (frame : Frame) : Prop where
  code : frame.code = Op.afterSwitch
  returns : frame.eflags = true
  saved : frame.flags = false

namespace Board

variable {board next : Board} {frame : Frame} {rest : List Frame}

structure Beside (board next : Board) : Prop where
  stack : next.stack = board.stack
  current : next.current = board.current
  previous : next.machine.kernel.prevSchedTerm = board.machine.kernel.prevSchedTerm

theorem Goes.beside {op : Op} (goes : board.Goes frame rest op next) : board.Beside next :=
  ⟨goes.stack, goes.current, goes.previous⟩

/-- Code that runs with the flag on, over `rest`. -/
inductive Opened (board : Board) (frame : Frame) : List Frame → Prop
  | entry (home : board.stack = board.current)
      (early : board.machine.kernel.prevSchedTerm = none) (returns : frame.eflags = true)
      (suffix : frame.code <:+ Op.resetScreen) (more : frame.code ≠ []) : Opened board frame []
  | entering (suspended : Frame) (away : board.stack ≠ board.current)
      (code : frame.code = [.enterProgram]) (stopped : suspended.Stopped) :
      Opened board frame [suspended]

theorem Opened.beside (opened : board.Opened frame rest) (beside : board.Beside next) :
    next.Opened frame rest := by
  obtain ⟨stack, current, previous⟩ := beside
  cases opened with
  | entry home early returns suffix more =>
      exact .entry ((stack.trans home).trans current.symm) (previous.trans early) returns suffix
        more
  | entering suspended away code stopped =>
      refine .entering suspended ?_ code stopped
      rw [stack, current]
      exact away

/-- What is below a handler, or below `entry` or `switch_process` with the flag off, that
has `code` to do. -/
inductive Below (board : Board) (code : List Op) : List Frame → Prop
  | program (home : board.stack = board.current) (enters : .enterProgram ∉ code)
      (early : .sti ∈ code → board.machine.kernel.prevSchedTerm = none) : Below board code []
  | opened (outer : Frame) (rest : List Frame) (opened : board.Opened outer rest)
      (opens : .sti ∉ code) (enters : .enterProgram ∉ code)
      (early : .code .switchProcess ∈ code → board.machine.kernel.prevSchedTerm = none) :
      Below board code (outer :: rest)
  | entering (suspended : Frame) (away : board.stack ≠ board.current)
      (suffix : code <:+ Op.firstSwitch) (stopped : suspended.Stopped) :
      Below board code [suspended]

theorem Below.beside {code : List Op} (below : board.Below code rest)
    (beside : board.Beside next) : next.Below code rest := by
  obtain ⟨stack, current, previous⟩ := beside
  cases below with
  | program home enters early =>
      exact .program ((stack.trans home).trans current.symm) enters
        fun opens => previous.trans (early opens)
  | opened outer rest opened opens enters early =>
      exact .opened outer rest (opened.beside ⟨stack, current, previous⟩) opens enters
        fun switches => previous.trans (early switches)
  | entering suspended away suffix stopped =>
      refine .entering suspended ?_ suffix stopped
      rw [stack, current]
      exact away

theorem Below.later {op : Op} {later : List Op} (below : board.Below (op :: later) rest) :
    board.Below later rest := by
  have fewer (each : Op) (other : each ∉ op :: later) : each ∉ later :=
    fun member => other (List.mem_cons_of_mem op member)
  cases below with
  | program home enters early =>
      exact .program home (fewer _ enters) fun opens => early (List.mem_cons_of_mem op opens)
  | opened outer rest opened opens enters early =>
      exact .opened outer rest opened (fewer _ opens) (fewer _ enters)
        fun switches => early (List.mem_cons_of_mem op switches)
  | entering suspended away suffix stopped =>
      exact .entering suspended away ((List.suffix_cons op later).trans suffix) stopped

/-- Every line in use is open, and a device that waits has made its request. -/
structure LinesOpen (board : Board) : Prop where
  idle : ∀ frame, (board.point frame).Idle
  promised : board.hardware.Promised false false

/-- Nothing is under way, or code that may be interrupted, or code that is safe from where
it is. -/
inductive Control (board : Board) : Prop
  | idle (free : board.running = []) (home : board.stack = board.current)
      (lines : board.LinesOpen)
  | opened (frame : Frame) (rest : List Frame) (under : board.running = frame :: rest)
      (opened : board.Opened frame rest) (on : board.flag = true) (lines : board.LinesOpen)
  | handling (frame : Frame) (rest : List Frame) (under : board.running = frame :: rest)
      (returns : frame.eflags = true) (below : board.Below frame.code rest)
      (checked : Op.checks frame.code (board.point frame) = true)
      (served : board.Served frame.code frame)

theorem Control.lines_of_flag (control : board.Control) (on : board.flag = true) :
    board.LinesOpen ∧ (board.running = [] ∧ board.stack = board.current ∨
      ∃ frame rest, board.running = frame :: rest ∧ board.Opened frame rest) := by
  cases control with
  | idle free home lines => exact ⟨lines, .inl ⟨free, home⟩⟩
  | opened frame rest under opened _ lines => exact ⟨lines, .inr ⟨frame, rest, under, opened⟩⟩
  | handling frame rest under returns below checked served =>
      have off : board.flag = false := Op.checks_flag checked
      rw [on] at off
      cases off

theorem Control.atRest (control : board.Control) (free : board.running = []) :
    board.stack = board.current ∧ board.LinesOpen := by
  cases control with
  | idle _ home lines => exact ⟨home, lines⟩
  | opened frame rest under =>
      rw [free] at under
      cases under
  | handling frame rest under =>
      rw [free] at under
      cases under

theorem LinesOpen.disturb {disturbance : Disturbance} {hardware : PcHardware}
    (lines : board.LinesOpen) (occurs : board.hardware.disturb disturbance = some hardware) :
    { board with hardware := hardware }.LinesOpen := by
  obtain ⟨pics, index⟩ := PcHardware.quiet_disturb occurs
  refine ⟨?_, lines.promised.disturb occurs⟩
  intro frame
  have same : { board with hardware := hardware }.point frame = board.point frame := by
    simp only [point, pics, index]
  rw [same]
  exact lines.idle frame

theorem Control.disturb {disturbance : Disturbance} {hardware : PcHardware}
    (control : board.Control) (occurs : board.hardware.disturb disturbance = some hardware) :
    { board with hardware := hardware }.Control := by
  have beside : board.Beside { board with hardware := hardware } := ⟨rfl, rfl, rfl⟩
  cases control with
  | idle free home lines => exact .idle free home (lines.disturb occurs)
  | opened frame rest under opened on lines =>
      exact .opened frame rest under (opened.beside beside) on (lines.disturb occurs)
  | handling frame rest under returns below checked served =>
      obtain ⟨pics, index⟩ := PcHardware.quiet_disturb occurs
      have same : { board with hardware := hardware }.point frame = board.point frame := by
        simp only [point, pics, index]
      refine .handling frame rest under returns (below.beside beside) ?_ ?_
      · rw [same]
        exact checked
      · rw [Served, same]
        exact served.disturb occurs

theorem Control.setFlags (control : board.Control) (free : board.running = [])
    (flag keyboardFlags : Bool) :
    { board with flag := flag, keyboardFlags := keyboardFlags }.Control := by
  obtain ⟨home, lines⟩ := control.atRest free
  exact .idle free home ⟨lines.idle, lines.promised⟩

/-! The processor takes an interrupt. -/

theorem usedIrqs_of_unmasked : ∀ irq < 16, irq ≠ 2 →
    (configuredPics 0xF8 0xFE).masked irq = false → irq ∈ usedIrqs := by
  decide

theorem masked_quiet (pics : PicPair) (irq : Nat) : pics.quiet.masked irq = pics.masked irq := rfl

theorem vector_quiet (pics : PicPair) (irq : Nat) : pics.quiet.vector irq = pics.vector irq := rfl

theorem vector_used : ∀ irq ∈ usedIrqs,
    ((configuredPics 0xF8 0xFE).vector irq).toNat = 0x20 + irq ∧
      (handlerFor (0x20 + irq)).linkage = some (irqCode irq) := by
  decide

theorem LinesOpen.configured (lines : board.LinesOpen) :
    board.hardware.pics.quiet = configuredPics 0xF8 0xFE :=
  (lines.idle ⟨[], false, false, 0⟩).2.2.1

theorem LinesOpen.acknowledge {vector : BitVec 8} {pics : PicPair} (lines : board.LinesOpen)
    (taken : board.hardware.pics.acknowledge = some (vector, pics)) :
    ∃ irq ∈ usedIrqs, vector.toNat = 0x20 + irq ∧ board.hardware.pics.Taken irq pics := by
  have configured := lines.configured
  have wired : board.hardware.pics.master.wiring.getLsbD 2 = true ∧
      board.hardware.pics.slave.wiring &&& 7 = 2 := by
    have master : board.hardware.pics.master.wiring = 0x04 :=
      congrArg (fun pics => pics.master.wiring) configured
    have slave : board.hardware.pics.slave.wiring = 0x02 :=
      congrArg (fun pics => pics.slave.wiring) configured
    rw [master, slave]
    decide
  have manual : board.hardware.pics.slave.autoEoi = false :=
    congrArg (fun pics => pics.slave.autoEoi) configured
  obtain ⟨irq, rfl, took⟩ := lines.promised.linked.acknowledge wired manual taken
  have used : irq ∈ usedIrqs := by
    apply usedIrqs_of_unmasked irq took.inside took.device
    rw [← configured, masked_quiet]
    exact took.unmasked
  refine ⟨irq, used, ?_, took⟩
  rw [← vector_quiet, configured]
  exact (vector_used irq used).1

theorem irqCode_closed : ∀ irq ∈ usedIrqs, Op.sti ∉ irqCode irq ∧ Op.enterProgram ∉ irqCode irq ∧
    (Op.code .switchProcess ∈ irqCode irq → irq = 0) := by
  decide

def interrupted (board : Board) (stale : Frame) (irq : Nat) (pics : PicPair) : Board :=
  { board.setFrames ({ stale with code := irqCode irq, eflags := true } :: board.running) with
    flag := false, hardware := { board.hardware with pics := pics } }

theorem interrupted_running (stale : Frame) (irq : Nat) (pics : PicPair) :
    (board.interrupted stale irq pics).running =
      { stale with code := irqCode irq, eflags := true } :: board.running :=
  Function.update_self ..

theorem Control.interrupt {irq : Nat} {pics : PicPair} (stale : Frame) (control : board.Control)
    (on : board.flag = true) (used : irq ∈ usedIrqs)
    (took : board.hardware.pics.Taken irq pics)
    (spaced : irq = 0 → board.stack = board.current) :
    (board.interrupted stale irq pics).Control := by
  obtain ⟨lines, under⟩ := control.lines_of_flag on
  obtain ⟨masterMask, slaveMask, configured, index⟩ := lines.idle stale
  have start : (board.interrupted stale irq pics).point
      { stale with code := irqCode irq, eflags := true } =
      takenPoint irq stale.flags board.keyboardFlags board.hardware.clock.index := by
    have quiet : pics.quiet = (configuredPics 0xF8 0xFE).serve irq := by
      rw [took.quiet]
      exact congrArg (PicPair.serve irq) configured
    have masks : board.machine.kernel.masterMask = 0xF8 ∧
        board.machine.kernel.slaveMask = 0xFE := ⟨masterMask, slaveMask⟩
    simp only [point, takenPoint, interrupted, setFrames, quiet, masks]
  have listed : board.hardware.clock.index ∈ [(0x0A : BitVec 7), 0x0C] := by
    have either : board.hardware.clock.index = 0x0A ∨ board.hardware.clock.index = 0x0C := index
    simpa using either
  obtain ⟨checked, key, clock⟩ := irqCode_checks irq used stale.flags board.keyboardFlags _ listed
  obtain ⟨opens, enters, switches⟩ := irqCode_closed irq used
  have beside : board.Beside (board.interrupted stale irq pics) := ⟨rfl, rfl, rfl⟩
  refine .handling _ _ (interrupted_running ..) rfl ?_ ?_ ?_
  · rcases under with ⟨free, home⟩ | ⟨outer, rest, outside, opened⟩
    · rw [free]
      exact .program home enters fun member => absurd member opens
    · rw [outside]
      refine .opened outer rest (opened.beside beside) opens enters ?_
      intro member
      have home := spaced (switches member)
      cases opened with
      | entry _ early => exact early
      | entering suspended away => exact absurd home away
  · rw [start]
    exact checked
  · rw [Served, start, key, clock]
    exact lines.promised.acknowledge took

/-! One operation of the code under way. -/

/-- The terminals that wait for their turn. -/
def Paused (board : Board) : Prop :=
  ∀ terminal ≠ board.current, (board.machine.kernel.schedArr terminal).esp ≠ -1 →
    board.left terminal = (terminal, 1) ∧
      (terminal ≠ board.stack → ∃ frame, board.frames terminal = [frame] ∧ frame.Stopped)

/-- What the code under way satisfies, `op` being next. -/
inductive UnderWay (board : Board) (op : Op) (frame : Frame) (rest : List Frame) : Prop
  | opened (opened : board.Opened { frame with code := op :: frame.code } rest)
      (on : board.flag = true) (lines : board.LinesOpen)
  | handling (returns : frame.eflags = true) (below : board.Below (op :: frame.code) rest)
      (checked : Op.checks (op :: frame.code) (board.point frame) = true)
      (served : board.Served (op :: frame.code) frame)

theorem Control.underWay {op : Op} (control : board.Control)
    (under : board.running = { frame with code := op :: frame.code } :: rest) :
    board.UnderWay op frame rest := by
  cases control with
  | idle free =>
      rw [free] at under
      cases under
  | opened other others same opened on lines =>
      obtain ⟨rfl, rfl⟩ := List.cons.inj (same.symm.trans under)
      exact .opened opened on lines
  | handling other others same returns below checked served =>
      obtain ⟨rfl, rfl⟩ := List.cons.inj (same.symm.trans under)
      exact .handling returns below checked served

def following (board : Board) : Fin 3 := board.current + 1

def arriving (board : Board) : SchedNode := board.machine.kernel.schedArr board.following

theorem following_ne : board.following ≠ board.current := Kernel.next_ne board.current

/-- The board when `switch_process` has left a terminal. -/
def leaving (board : Board) (esp ebp : Int) (frame : Frame) : Board :=
  { (board.setFrames [frame]).setKernel
      (board.machine.kernel.ticked esp ebp board.machine.kernel.masterMask) with
    left := Function.update board.left board.current (board.stack, 1) }

theorem switchProcess_starts (esp ebp : Int)
    (active : board.machine.kernel.prevSchedTerm ≠ none) (fresh : board.arriving.esp = -1) :
    board.switchProcess esp ebp frame [] =
      (board.leaving esp ebp frame).setFrames
        [{ frame with code := Op.firstSwitch }, frame] := by
  have unused : (board.machine.kernel.schedArr (board.machine.kernel.curSchedTerm + 1)).esp = -1 :=
    fresh
  simp only [switchProcess, Kernel.rotate_eq _ esp ebp active, Kernel.switchReply, if_pos unused]
  rfl

theorem switchProcess_resumes (esp ebp : Int)
    (active : board.machine.kernel.prevSchedTerm ≠ none) (ran : board.arriving.esp ≠ -1)
    (home : board.stack = board.current) (paused : board.Paused) :
    board.switchProcess esp ebp frame [] =
      { board.leaving esp ebp frame with stack := board.following } := by
  have stored : (board.machine.kernel.schedArr (board.machine.kernel.curSchedTerm + 1)).esp ≠ -1 :=
    ran
  obtain ⟨left, waits⟩ := paused board.following board.following_ne ran
  have apart : board.following ≠ board.stack := fun same => board.following_ne (same.trans home)
  obtain ⟨stopped, one, _⟩ := waits apart
  have there : (board.leaving esp ebp frame).left board.following = (board.following, 1) :=
    (Function.update_of_ne board.following_ne _ board.left).trans left
  have frames : (board.leaving esp ebp frame).frames board.following = [stopped] :=
    (Function.update_of_ne apart _ board.frames).trans one
  have switched : board.switchProcess esp ebp frame [] =
      (board.leaving esp ebp frame).takeUp
        ((board.leaving esp ebp frame).left board.following).1
        ((board.leaving esp ebp frame).left board.following).2 := by
    simp only [switchProcess, Kernel.rotate_eq _ esp ebp active, Kernel.switchReply,
      if_neg stored]
    rfl
  rw [switched, there, takeUp, frames]
  have kept : Function.update (board.leaving esp ebp frame).frames board.following [stopped] =
      (board.leaving esp ebp frame).frames := by
    rw [← frames, Function.update_eq_self]
  exact congrArg (fun frames => { board.leaving esp ebp frame with
    stack := board.following, frames := frames }) kept

/-- The terminal that is switched to goes on with the frame it waited with. -/
theorem leaving_resumes (frame : Frame) (esp ebp : Int) (ran : board.arriving.esp ≠ -1)
    (home : board.stack = board.current) (paused : board.Paused) :
    ∃ waiting, { board.leaving esp ebp frame with stack := board.following }.running =
      [waiting] ∧ waiting.Stopped := by
  have apart : board.following ≠ board.stack := fun same => board.following_ne (same.trans home)
  obtain ⟨waiting, one, waits⟩ := (paused board.following board.following_ne ran).2 apart
  exact ⟨waiting, (Function.update_of_ne apart _ board.frames).trans one, waits⟩

inductive Moves (board : Board) (esp ebp : Int) (op : Op) (frame : Frame) (rest : List Frame)
    (next : Board) : Prop
  | goes (stays : op ≠ .leave ∧ op ≠ .enterProgram)
      (idle : op = .code .switchProcess → board.machine.kernel.prevSchedTerm = none)
      (goes : board.Goes frame rest op next)
  | leaves (last : op = .leave) (done : frame.code = [])
      (same : next = { board.setFrames rest with flag := true })
  | enters (last : op = .enterProgram) (done : frame.code = []) (suspended : Frame)
      (below : rest = [suspended]) (stopped : suspended.Stopped)
      (away : board.stack ≠ board.current)
      (same : next = { { board.setFrames rest with stack := board.current }.setFrames [] with
        flag := true })
  | starts (switches : op = .code .switchProcess)
      (active : board.machine.kernel.prevSchedTerm ≠ none)
      (home : board.stack = board.current) (alone : rest = []) (stopped : frame.Stopped)
      (fresh : board.arriving.esp = -1)
      (same : next = (board.leaving esp ebp frame).setFrames
        [{ frame with code := Op.firstSwitch }, frame])
  | resumes (switches : op = .code .switchProcess)
      (active : board.machine.kernel.prevSchedTerm ≠ none)
      (home : board.stack = board.current) (alone : rest = []) (stopped : frame.Stopped)
      (ran : board.arriving.esp ≠ -1)
      (same : next = { board.leaving esp ebp frame with stack := board.following })

theorem Below.switches {later : List Op} (below : board.Below (.code .switchProcess :: later) rest)
    (active : board.machine.kernel.prevSchedTerm ≠ none) :
    rest = [] ∧ board.stack = board.current := by
  cases below with
  | program home => exact ⟨rfl, home⟩
  | opened outer rest _ _ _ early => exact absurd (early List.mem_cons_self) active
  | entering suspended away suffix =>
      simp [Op.firstSwitch, Op.enableIrq, Op.contextSwitch, List.suffix_cons_iff] at suffix

theorem exec_switch_idle (esp ebp : Int) (idle : board.machine.kernel.prevSchedTerm = none) :
    (board.exec esp ebp frame rest (.code .switchProcess)).1 = board.setFrames (frame :: rest) := by
  simp only [exec, switchProcess, Kernel.rotate_idle _ esp ebp idle]

theorem goes_idle (esp ebp : Int) (idle : board.machine.kernel.prevSchedTerm = none) :
    board.Goes frame rest (.code .switchProcess)
      (board.exec esp ebp frame rest (.code .switchProcess)).1 := by
  rw [exec_switch_idle esp ebp idle]
  exact ⟨⟨frame, rfl, rfl, rfl, rfl⟩, rfl, rfl, rfl, rfl, rfl⟩

theorem allowed_switch {later : List Op} {point : Point}
    (allowed : Op.allowed later point (.code .switchProcess) = true) :
    point.stackFlags = false ∧ later = Op.afterSwitch ∧
      (Op.point (Op.point point (.unmask 0)) (.outMask 0)).Idle := by
  obtain ⟨both, idle⟩ := Bool.and_eq_true _ _ ▸ allowed
  obtain ⟨off, code⟩ := Bool.and_eq_true _ _ ▸ both
  exact ⟨(Bool.not_eq_true' _).mp off, of_decide_eq_true code, of_decide_eq_true idle⟩

theorem isReset_allowed {op : Op} (later : List Op) (point : Point) (reset : op.isReset = true) :
    op.stays = true ∧ op.allowed later point = true ∧ op ≠ .leave ∧ op ≠ .enterProgram ∧
      op ≠ .code .switchProcess := by
  cases op with
  | code code =>
      cases code with
      | resetRow => exact ⟨rfl, rfl, nofun, nofun, nofun⟩
      | resetColumn => exact ⟨rfl, rfl, nofun, nofun, nofun⟩
      | homeCursor => exact ⟨rfl, rfl, nofun, nofun, nofun⟩
      | _ => cases reset
  | _ => cases reset

theorem UnderWay.moves {op : Op} (esp ebp : Int) (underWay : board.UnderWay op frame rest)
    (paused : board.machine.kernel.prevSchedTerm ≠ none → board.Paused) :
    board.Moves esp ebp op frame rest (board.exec esp ebp frame rest op).1 := by
  cases underWay with
  | opened opened on lines =>
      cases opened with
      | entry home early returns suffix more =>
          rcases Op.suffix_resetScreen suffix with ⟨reset, _, _⟩ | ⟨rfl, done⟩
          · obtain ⟨stays, allowed, returning, entering, switching⟩ :=
              isReset_allowed frame.code (board.point frame) reset
            exact .goes ⟨returning, entering⟩ (fun switches => absurd switches switching)
              (board.exec_goes esp ebp op stays allowed)
          · refine .leaves rfl done ?_
            simp only [exec]
            exact congrArg (fun flag => { board.setFrames [] with flag := flag }) returns
      | entering suspended away code stopped =>
          obtain ⟨rfl, done⟩ := List.cons.inj code
          exact .enters rfl done suspended rfl stopped away rfl
  | handling returns below checked served =>
      obtain ⟨_, allowed, _⟩ := Op.checks_cons checked
      by_cases stays : op.stays = true
      · have other : (op ≠ .leave ∧ op ≠ .enterProgram) ∧ op ≠ .code .switchProcess := by
          refine ⟨⟨?_, ?_⟩, ?_⟩
          all_goals
            rintro rfl
            cases stays
        exact .goes other.1 (fun switches => absurd switches other.2)
          (board.exec_goes esp ebp op stays allowed)
      · cases op with
        | leave =>
            have done : frame.code = [] :=
              List.isEmpty_iff.mp (Bool.and_eq_true _ _ ▸ allowed).1
            refine .leaves rfl done ?_
            exact congrArg (fun flag => { board.setFrames rest with flag := flag }) returns
        | enterProgram => cases allowed
        | code code =>
            cases code with
            | switchProcess =>
                by_cases idle : board.machine.kernel.prevSchedTerm = none
                · exact .goes ⟨by decide, by decide⟩ (fun _ => idle) (goes_idle esp ebp idle)
                · obtain ⟨rfl, home⟩ := below.switches idle
                  obtain ⟨saved, code, _⟩ := allowed_switch allowed
                  have stopped : frame.Stopped := ⟨code, returns, saved⟩
                  by_cases fresh : board.arriving.esp = -1
                  · exact .starts rfl idle home rfl stopped fresh
                      (switchProcess_starts esp ebp idle fresh)
                  · exact .resumes rfl idle home rfl stopped fresh
                      (switchProcess_resumes esp ebp idle fresh home (paused idle))
            | _ => exact absurd rfl stays
        | _ => exact absurd rfl stays

/-! Afterwards the board is under control too. -/

theorem Goes.running {op : Op} (goes : board.Goes frame rest op next) :
    ∃ after, next.running = after :: rest ∧ after.code = frame.code ∧
      after.eflags = frame.eflags ∧ next.point after = op.point (board.point frame) := by
  obtain ⟨after, frames, code, eflags, point⟩ := goes.frames
  refine ⟨after, ?_, code, eflags, point⟩
  rw [Board.running, goes.stack, frames, Function.update_self]

theorem LinesOpen.same {other : Frame} (lines : board.LinesOpen)
    (point : next.point other = board.point frame) (hardware : next.hardware = board.hardware) :
    next.LinesOpen := by
  refine ⟨?_, ?_⟩
  · intro each
    have idle : (next.point other).Idle := by
      rw [point]
      exact lines.idle frame
    exact idle
  · rw [hardware]
    exact lines.promised

theorem exec_reset {op : Op} (frame : Frame) (rest : List Frame) (esp ebp : Int)
    (reset : op.isReset = true) :
    (board.exec esp ebp frame rest op).1.hardware = board.hardware ∧
      (board.exec esp ebp frame rest op).1.flag = board.flag ∧
      op.point (board.point frame) = board.point frame := by
  cases op with
  | code code =>
      cases code with
      | resetRow => exact ⟨rfl, rfl, rfl⟩
      | resetColumn => exact ⟨rfl, rfl, rfl⟩
      | homeCursor => exact ⟨rfl, rfl, rfl⟩
      | _ => cases reset
  | _ => cases reset

theorem Opened.control {op : Op} (esp ebp : Int)
    (opened : board.Opened { frame with code := op :: frame.code } rest)
    (on : board.flag = true) (lines : board.LinesOpen) :
    (board.exec esp ebp frame rest op).1.Control := by
  cases opened with
  | entry home early returns suffix more =>
      rcases Op.suffix_resetScreen suffix with ⟨reset, shorter, ahead⟩ | ⟨rfl, done⟩
      · obtain ⟨stays, allowed, _⟩ := isReset_allowed frame.code (board.point frame) reset
        obtain ⟨hardware, flag, same⟩ := board.exec_reset frame [] esp ebp reset
        have goes : board.Goes frame [] op (board.exec esp ebp frame [] op).1 :=
          board.exec_goes esp ebp op stays allowed
        obtain ⟨after, running, code, eflags, point⟩ := goes.running
        refine .opened after [] running ?_ (flag.trans on) ?_
        · exact .entry (goes.stack.trans (home.trans goes.current.symm))
            (goes.previous.trans early) (eflags.trans returns) (code ▸ shorter) (code ▸ ahead)
        · exact lines.same (point.trans same) hardware
      · exact .idle (Function.update_self ..) home ⟨lines.idle, lines.promised⟩
  | entering suspended away code stopped =>
      obtain ⟨rfl, _⟩ := List.cons.inj code
      exact .idle (Function.update_self ..) rfl ⟨lines.idle, lines.promised⟩

theorem checks_firstSwitch {point : Point} (off : point.flag = false)
    (idle : (Op.point (Op.point point (.unmask 0)) (.outMask 0)).Idle) :
    Op.checks Op.firstSwitch point = true := by
  have still : (Op.point point (.unmask 0)).flag = false := off
  have later : (Op.point (Op.point point (.unmask 0)) (.outMask 0)).flag = false := off
  have opens : Op.allowed [.enterProgram]
      (Op.point (Op.point point (.unmask 0)) (.outMask 0)) .sti = true := by
    rw [Op.allowed, decide_eq_true idle]
    decide
  have mask : Op.allowed [.sti, .enterProgram] (Op.point point (.unmask 0)) (.outMask 0) =
      true := rfl
  have unmask : Op.allowed [.outMask 0, .sti, .enterProgram] point (.unmask 0) = true := rfl
  simp [Op.firstSwitch, Op.enableIrq, Op.contextSwitch, Op.checks, off, still, later, opens, mask,
    unmask]

theorem switch_taken {code : List Op} (either : code = Op.afterSwitch ∨ code = Op.firstSwitch)
    (point : Point) : Op.keyTaken code = false ∧ Op.clockTaken code point = false := by
  rcases either with rfl | rfl
  · refine ⟨by decide, ?_⟩
    simp [Op.afterSwitch, Op.enableIrq, Op.clockTaken]
  · refine ⟨by decide, ?_⟩
    simp [Op.firstSwitch, Op.enableIrq, Op.contextSwitch, Op.clockTaken]

theorem Served.switch (served : board.Served (.code .switchProcess :: frame.code) frame)
    (code : frame.code = Op.afterSwitch) : board.hardware.Promised false false := by
  have promised := served.skip (by simp)
  obtain ⟨key, clock⟩ := switch_taken (.inl code)
    (Op.point (board.point frame) (.code .switchProcess))
  rwa [key, clock] at promised

theorem served_switch {code : List Op} (either : code = Op.afterSwitch ∨ code = Op.firstSwitch)
    (promised : board.hardware.Promised false false) : board.Served code frame := by
  obtain ⟨key, clock⟩ := switch_taken either (board.point frame)
  rw [Served, key, clock]
  exact promised

theorem Below.leaves (below : board.Below [.leave] rest) (lines : board.LinesOpen) :
    { board.setFrames rest with flag := true }.Control := by
  have running : { board.setFrames rest with flag := true }.running = rest :=
    Function.update_self ..
  have same : { board.setFrames rest with flag := true }.LinesOpen :=
    ⟨lines.idle, lines.promised⟩
  cases below with
  | program home => exact .idle running home same
  | opened outer rest opened =>
      exact .opened outer rest running (opened.beside ⟨rfl, rfl, rfl⟩) rfl same
  | entering suspended away suffix =>
      simp [Op.firstSwitch, Op.enableIrq, Op.contextSwitch, List.suffix_cons_iff] at suffix

theorem Below.opens (below : board.Below (.sti :: frame.code) rest) (beside : board.Beside next)
    (either : frame.code = Op.resetScreen ∨ frame.code = [.enterProgram])
    (returns : frame.eflags = true) : next.Opened frame rest := by
  apply Opened.beside _ beside
  cases below with
  | program home enters early =>
      have code : frame.code = Op.resetScreen := by
        refine either.resolve_right ?_
        intro entering
        rw [entering] at enters
        exact enters (by decide)
      refine .entry home (early List.mem_cons_self) returns ?_ ?_
      · exact code ▸ List.suffix_refl _
      · rw [code]
        exact List.cons_ne_nil _ _
  | opened outer rest _ opens => exact absurd List.mem_cons_self opens
  | entering suspended away suffix stopped =>
      refine .entering suspended away (either.resolve_left ?_) stopped
      intro code
      rw [code] at suffix
      exact absurd suffix (by decide)

section Handling

variable {op : Op} (esp ebp : Int) (returns : frame.eflags = true)
  (below : board.Below (op :: frame.code) rest)
  (checked : Op.checks (op :: frame.code) (board.point frame) = true)
  (served : board.Served (op :: frame.code) frame)

include returns below checked in
theorem Goes.control (goes : board.Goes frame rest op next) (last : op ≠ .leave)
    (flag : op = .sti → next.flag = true)
    (promised : next.hardware.Promised (Op.keyTaken frame.code)
      (Op.clockTaken frame.code (op.point (board.point frame)))) : next.Control := by
  obtain ⟨_, allowed, safe⟩ := Op.checks_cons checked
  obtain ⟨after, running, code, eflags, point⟩ := goes.running
  by_cases opens : op = .sti
  · subst opens
    obtain ⟨either, idle⟩ := Bool.and_eq_true _ _ ▸ allowed
    have code' : frame.code = Op.resetScreen ∨ frame.code = [.enterProgram] := by
      simpa using either
    have opened : next.Opened after rest := by
      apply Below.opens _ goes.beside
      · rw [code]
        exact code'
      · exact eflags.trans returns
      · rw [code]
        exact below
    refine .opened after rest running opened (flag rfl) ⟨?_, ?_⟩
    · intro other
      have ready : (next.point after).Idle := by
        rw [point]
        exact of_decide_eq_true idle
      exact ready
    · rcases code' with reset | entering
      · rw [reset] at promised
        exact promised
      · rw [entering] at promised
        exact promised
  · refine .handling after rest running (eflags.trans returns) ?_ ?_ ?_
    · rw [code]
      exact below.later.beside goes.beside
    · rw [code, point]
      exact safe last opens
    · rw [Served, code, point]
      exact promised

include returns below checked served in
theorem exec_control (paused : board.machine.kernel.prevSchedTerm ≠ none → board.Paused) :
    (board.exec esp ebp frame rest op).1.Control := by
  obtain ⟨off, allowed, safe⟩ := Op.checks_cons checked
  have moves : board.Moves esp ebp op frame rest (board.exec esp ebp frame rest op).1 :=
    (UnderWay.handling returns below checked served).moves esp ebp paused
  cases moves with
  | goes stays idle goes =>
      refine goes.control returns below checked stays.1 (fun opens => by rw [opens]; rfl) ?_
      by_cases switches : op = .code .switchProcess
      · subst switches
        rw [exec_switch_idle esp ebp (idle rfl)]
        exact served.skip (by simp)
      · refine exec_promised esp ebp op ?_ allowed served
        cases op with
        | leave => exact absurd rfl stays.1
        | enterProgram => exact absurd rfl stays.2
        | code code =>
            cases code with
            | switchProcess => exact absurd rfl switches
            | _ => rfl
        | _ => rfl
  | leaves last done same =>
      subst last
      rw [same]
      rw [done] at below served
      have promised := served.skip (by simp)
      refine below.leaves ⟨?_, promised⟩
      intro other
      exact of_decide_eq_true (Bool.and_eq_true _ _ ▸ allowed).2
  | enters last =>
      subst last
      cases allowed
  | starts switches active home alone stopped fresh same =>
      subst switches alone
      obtain ⟨_, _, idle⟩ := allowed_switch allowed
      rw [same]
      refine .handling { frame with code := Op.firstSwitch } [frame] (Function.update_self ..)
        returns (.entering frame ?_ (List.suffix_refl _) stopped) ?_ ?_
      · exact fun same => board.following_ne (same.symm.trans home)
      · exact checks_firstSwitch off idle
      · exact served_switch (.inr rfl) (served.switch stopped.code)
  | resumes switches active home alone stopped ran same =>
      subst switches alone
      obtain ⟨waiting, running, waits⟩ :=
        board.leaving_resumes frame esp ebp ran home (paused active)
      rw [same]
      have point : { board.leaving esp ebp frame with stack := board.following }.point waiting =
          board.point frame := by
        simp only [Board.point, waits.saved, stopped.saved]
        rfl
      refine .handling waiting [] running waits.returns (.program rfl ?_ ?_) ?_ ?_
      · rw [waits.code]
        decide
      · intro opens
        rw [waits.code] at opens
        exact absurd opens (by decide)
      · rw [waits.code, point, ← stopped.code]
        exact safe (by simp) (by simp)
      · exact served_switch (.inl waits.code) (served.switch stopped.code)

end Handling

theorem UnderWay.control {op : Op} (esp ebp : Int) (underWay : board.UnderWay op frame rest)
    (paused : board.machine.kernel.prevSchedTerm ≠ none → board.Paused) :
    (board.exec esp ebp frame rest op).1.Control := by
  cases underWay with
  | opened opened on lines => exact opened.control esp ebp on lines
  | handling returns below checked served =>
      exact exec_control esp ebp returns below checked served paused

theorem leaving_waits (esp ebp : Int) (stopped : frame.Stopped)
    (home : board.stack = board.current) (paused : board.Paused) {terminal : Fin 3}
    (ran : ((board.leaving esp ebp frame).machine.kernel.schedArr terminal).esp ≠ -1) :
    (board.leaving esp ebp frame).left terminal = (terminal, 1) ∧
      ∃ waiting, (board.leaving esp ebp frame).frames terminal = [waiting] ∧
        waiting.Stopped := by
  by_cases here : terminal = board.current
  · subst here
    constructor
    · refine (Function.update_self ..).trans ?_
      rw [home]
    · refine ⟨frame, ?_, stopped⟩
      rw [← home]
      exact Function.update_self ..
  · have node : ((board.leaving esp ebp frame).machine.kernel.schedArr terminal) =
        board.machine.kernel.schedArr terminal := Function.update_of_ne here _ _
    rw [node] at ran
    obtain ⟨left, waits⟩ := paused terminal here ran
    have away : terminal ≠ board.stack := fun same => here (same.trans home)
    obtain ⟨waiting, one, waits⟩ := waits away
    refine ⟨?_, waiting, ?_, waits⟩
    · exact (Function.update_of_ne here _ board.left).trans left
    · exact (Function.update_of_ne away _ board.frames).trans one

theorem Moves.paused {op : Op} {esp ebp : Int} (moves : board.Moves esp ebp op frame rest next)
    (paused : board.Paused)
    (nodes : (op = .code .switchProcess → board.machine.kernel.prevSchedTerm = none) →
      next.machine.kernel.schedArr = board.machine.kernel.schedArr) : next.Paused := by
  intro terminal other ran
  have elsewhere (chain : List Frame) (away : terminal ≠ board.stack) :
      (board.setFrames chain).frames terminal = board.frames terminal :=
    Function.update_of_ne away _ _
  cases moves with
  | goes stays idle goes =>
      rw [nodes idle] at ran
      rw [goes.current] at other
      obtain ⟨left, waits⟩ := paused terminal other ran
      obtain ⟨after, frames, _⟩ := goes.frames
      refine ⟨(congrFun goes.left terminal).trans left, ?_⟩
      intro away
      rw [goes.stack] at away
      rw [frames, Function.update_of_ne away]
      exact waits away
  | leaves last done same =>
      subst same
      obtain ⟨left, waits⟩ := paused terminal other ran
      refine ⟨left, ?_⟩
      intro away
      obtain ⟨stopped, one, waiting⟩ := waits away
      exact ⟨stopped, (elsewhere rest away).trans one, waiting⟩
  | enters last done suspended below stopped away same =>
      subst same below
      obtain ⟨left, waits⟩ := paused terminal other ran
      refine ⟨left, fun _ => ?_⟩
      by_cases here : terminal = board.stack
      · subst here
        refine ⟨suspended, ?_, stopped⟩
        exact (Function.update_of_ne other _ _).trans (Function.update_self ..)
      · obtain ⟨waiting, one, waits⟩ := waits here
        refine ⟨waiting, ?_, waits⟩
        exact ((Function.update_of_ne other _ _).trans (elsewhere [suspended] here)).trans one
  | starts switches active home alone stopped fresh same =>
      subst same
      obtain ⟨left, waiting, one, waits⟩ := leaving_waits esp ebp stopped home paused ran
      refine ⟨left, fun away => ⟨waiting, ?_, waits⟩⟩
      exact (Function.update_of_ne away _ _).trans one
  | resumes switches active home alone stopped _ same =>
      subst same
      obtain ⟨left, waits⟩ := leaving_waits esp ebp stopped home paused ran
      exact ⟨left, fun _ => waits⟩

theorem start_control (platform : Platform) (memory : BootMemory) (stale : Frame)
    (keyboardFlags : Bool) {hardware : PcHardware} (cold : hardware.Cold) :
    (Board.start platform memory stale keyboardFlags hardware).Control := by
  have below : (Board.start platform memory stale keyboardFlags hardware).Below Op.entry [] :=
    .program rfl (by decide) fun _ => rfl
  refine .handling { stale with code := Op.entry, eflags := true } [] rfl rfl below ?_ ?_
  · have checked := entry_checks stale.flags keyboardFlags hardware.clock.index
    have point : (Board.start platform memory stale keyboardFlags hardware).point
        { stale with code := Op.entry, eflags := true } =
        ⟨false, stale.flags, keyboardFlags, 0xFF, 0xFF, configuredPics 0xFF 0xFF,
          hardware.clock.index⟩ := by
      simp only [Board.point, Board.start, i8259Init_hardware]
      rfl
    rw [point]
    exact checked
  · have key : Op.keyTaken Op.entry = false := by decide
    have promised : { hardware with pics := configuredPics 0xFF 0xFF }.Promised false
        (Op.clockTaken Op.entry ((Board.start platform memory stale keyboardFlags
          hardware).point { stale with code := Op.entry, eflags := true })) := by
      have linked : (configuredPics 0xFF 0xFF).Linked := by
        unfold PicPair.Linked
        decide
      refine ⟨linked, ?_, ?_, ?_⟩
      · intro _
        have none : (configuredPics 0xFF 0xFF).requested 1 = false := by decide
        exact cold.keyboard.trans none.symm
      · intro taken
        cases taken
      · intro _ up
        rw [ClockChip.line, cold.clock, Bool.and_false] at up
        cases up
    simp only [Board.Served, key]
    simp only [Board.start, i8259Init_hardware] at promised ⊢
    exact promised

end Board

end Ece391Os
