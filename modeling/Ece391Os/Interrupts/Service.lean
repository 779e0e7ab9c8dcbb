import Ece391Os.Interrupts.Turns

namespace Ece391Os

open Data

/-! What the kernel can rely on from the return of `i8259_init` on. -/

/-- Code that may wait below a handler, or be interrupted: the end of `entry`, the end of
`context_switch`, or the handler of a terminal that was left. -/
def Frame.Waits (frame : Frame) : Prop :=
  frame.code <:+ Op.resetScreen ∨ frame.code = [.enterProgram] ∨ frame.code = Op.afterSwitch

namespace Board

variable {board : Board} {frame : Frame} {rest : List Frame}

theorem Opened.waits (opened : board.Opened frame rest) :
    frame.Waits ∧ (∀ below ∈ rest, below.Waits) ∧ rest.length ≤ 1 := by
  cases opened with
  | entry home early returns suffix more => exact ⟨.inl suffix, nofun, Nat.zero_le 1⟩
  | entering suspended away code stopped =>
      refine ⟨.inr (.inl code), ?_, Nat.le_refl 1⟩
      intro below member
      rw [List.mem_singleton.mp member]
      exact .inr (.inr stopped.code)

theorem Below.waits {code : List Op} (below : board.Below code rest) :
    (∀ frame ∈ rest, frame.Waits) ∧ rest.length ≤ 2 := by
  cases below with
  | program => exact ⟨nofun, Nat.zero_le 2⟩
  | opened outer rest opened =>
      obtain ⟨first, others, short⟩ := opened.waits
      refine ⟨?_, Nat.succ_le_succ short⟩
      intro frame member
      rcases List.mem_cons.mp member with rfl | member
      · exact first
      · exact others frame member
  | entering suspended away suffix stopped =>
      refine ⟨?_, Nat.le_succ 1⟩
      intro frame member
      rw [List.mem_singleton.mp member]
      exact .inr (.inr stopped.code)

theorem Control.waits (control : board.Control) :
    board.running.length ≤ 3 ∧ (∀ frame ∈ board.running.tail, frame.Waits) ∧
      (board.flag = true → ∀ frame ∈ board.running, frame.Waits) := by
  cases control with
  | idle free => simp [free]
  | opened frame rest under opened =>
      obtain ⟨first, others, short⟩ := opened.waits
      rw [under]
      refine ⟨Nat.succ_le_succ (Nat.le_succ_of_le short), others, ?_⟩
      intro _ other member
      rcases List.mem_cons.mp member with rfl | member
      · exact first
      · exact others other member
  | handling frame rest under returns below checked =>
      obtain ⟨others, short⟩ := below.waits
      rw [under]
      refine ⟨Nat.succ_le_succ short, others, ?_⟩
      intro on
      have off : board.flag = false := Op.checks_flag checked
      rw [on] at off
      cases off

end Board

theorem Kernel.launch_isSome {platform : Platform} {frame : StackFrame} (kernel : Kernel)
    (opens : (openProgram platform.image shellName frame.elfBuf).isSome = true) :
    (kernel.launch platform frame).isSome = true := by
  obtain ⟨⟨inode, elf⟩, opened⟩ := Option.isSome_iff_exists.mp opens
  have valid := openProgram_valid opened
  obtain ⟨thirdMemory, third⟩ := kernel.clearSlots.loadShell_eq 2 valid
  obtain ⟨secondMemory, second⟩ :=
    (kernel.clearSlots.shellLoaded 2 thirdMemory).loadShell_eq 1 valid
  obtain ⟨memory, first⟩ := ((kernel.clearSlots.shellLoaded 2 thirdMemory).shellLoaded
    1 secondMemory).loadShell_eq 0 valid
  simp only [launch, opened, third, second, first, Option.bind_eq_bind, Option.bind_some]
  rfl

theorem Sample.shell_opens :
    (openProgram platform.image shellName frame.elfBuf).isSome = true := by
  decide +kernel

namespace Board

/-! A board to run: the controllers stuck in the middle of an initialization, the clock
with a tick pending. -/

namespace Bench

def pic : Pic := ⟨0xFF, 0x10, 0, 0x08, 0, .icw3, true, true, true⟩

def hardware : PcHardware where
  pics := ⟨pic, pic⟩
  clock := ⟨0x0D, 0x26, 0x02, true⟩
  timer := ⟨2, 0xFFFF, true⟩
  port := ⟨0xFA, false⟩

theorem cold : hardware.Cold := ⟨rfl, rfl⟩

def stale : Frame := ⟨[], true, true, 0⟩

def start : Board := Board.start Sample.platform Sample.memory stale true hardware

theorem taken_of_takes {trace : BoardTrace} {transition : Transition Board Signal (Option Event)}
    {irq : Nat} (member : transition ∈ trace)
    (takes : transition.before.takes transition.event = some irq) : irq ∈ takenIrqs trace :=
  List.mem_filterMap.mpr ⟨transition, member, takes⟩

theorem switches : ∃ trace board, Run (Board.step Sample.platform) start trace board ∧
    Spaced trace ∧ Quiet trace ∧ board.launched = true ∧ takenIrqs trace = [0, 0] ∧
      board.running = [] ∧ board.flag = true := by
  have inv : Inv Sample.platform [] start := .start Sample.memory stale true cold
  have nothing : Spaced [] := fun _ member => absurd member List.not_mem_nil
  obtain ⟨steps, middle, entered, free, _⟩ := inv.returns nothing rfl
  obtain ⟨kernel, opened⟩ := Option.isSome_iff_exists.mp
    (middle.machine.kernel.launch_isSome Sample.shell_opens)
  have unlaunched : middle.launched = false := entered.launched
  obtain ⟨after, fired, free, on, started⟩ : ∃ after,
      Board.step Sample.platform middle (.launch Sample.frame) = some (after, none) ∧
        after.running = [] ∧ after.flag = true ∧ after.launched = true := by
    refine ⟨{ middle.setKernel kernel with launched := true, flag := true }, ?_, free, rfl, rfl⟩
    simp only [Board.step, free, unlaunched, opened]
    rfl
  have early : takenIrqs (steps ++ [⟨middle, .launch Sample.frame, none, after⟩]) = [] := by
    rw [takenIrqs, List.filterMap_append, ← takenIrqs, entered.taken]
    rfl
  have apart : Spaced (steps ++ [⟨middle, .launch Sample.frame, none, after⟩]) := by
    intro transition member takes
    have taken := taken_of_takes member takes
    rw [early] at taken
    cases taken
  have launched := Inv.step entered.inv apart fired
  obtain ⟨more, finish, turns, done, flag, _⟩ := launched.ticks 2 apart free on started
  have all : takenIrqs ((steps ++ [⟨middle, .launch Sample.frame, none, after⟩]) ++ more) =
      [0, 0] := by
    rw [takenIrqs, List.filterMap_append, ← takenIrqs, ← takenIrqs, early, turns.taken]
    rfl
  refine ⟨_, finish, (entered.run.snoc fired).append turns.run, turns.spaced, ?_,
    turns.launched.trans started, all, done, flag⟩
  intro transition member takes
  have taken := taken_of_takes member takes
  rw [all] at taken
  exact absurd taken (by decide)

end Bench

section PoweredOn

variable {platform : Platform} {memory : BootMemory} {trace : BoardTrace} {board : Board}
  {stale : Frame} {keyboardFlags : Bool} {hardware : PcHardware}

/-- Handlers are atomic: a run of the board is a run of the machine whose events are
the calls of the programs and the handlers' work, each at its place. -/
theorem refinesMachine (cold : hardware.Cold)
    (run : Run (Board.step platform) (Board.start platform memory stale keyboardFlags hardware)
      trace board) (spaced : Spaced trace) (launched : board.launched = true) :
    ∃ launching ∈ trace, (∃ stackFrame, launching.event = .launch stackFrame) ∧
      (Quiet trace → Launched platform launching.after.machine) ∧
      (∃ steps, Run (Machine.step platform) launching.after.machine steps board.settled ∧
        steps.map Transition.event = machineEvents trace) ∧
      (board.running = [] → board.settled = board.machine) := by
  have inv := Inv.run cold run spaced
  cases inv.phase with
  | early _ _ _ _ _ _ off =>
      rw [off] at launched
      cases launched
  | going launching stackFrame steps member launch began machineRun labels =>
      exact ⟨launching, member, ⟨stackFrame, launch⟩, began, ⟨steps, machineRun, labels⟩,
        fun free => (inv.control.settled free).1⟩

theorem refinesMachine_bench : ∃ trace board launching,
    Run (Board.step Sample.platform) Bench.start trace board ∧ takenIrqs trace = [0, 0] ∧
      launching ∈ trace ∧ Launched Sample.platform launching.after.machine ∧
      ∃ steps, Run (Machine.step Sample.platform) launching.after.machine steps board.machine ∧
        steps.map Transition.event = machineEvents trace := by
  obtain ⟨trace, board, run, spaced, quiet, on, taken, free, _⟩ := Bench.switches
  obtain ⟨launching, member, _, began, ⟨steps, refined, events⟩, settled⟩ :=
    refinesMachine Bench.cold run spaced on
  rw [settled free] at refined
  exact ⟨trace, board, launching, run, taken, member, began quiet, steps, refined, events⟩

/-- Handlers do not interrupt each other.  While the flag is on no line is in service, the
controllers have the masks the kernel believes, and the processor takes interrupts of the
timer, the keyboard and the clock only. -/
theorem interruptsSafe (cold : hardware.Cold)
    (run : Run (Board.step platform) (Board.start platform memory stale keyboardFlags hardware)
      trace board) (spaced : Spaced trace) :
    board.running.length ≤ 3 ∧ (∀ frame ∈ board.running.tail, frame.Waits) ∧
      (board.flag = true →
        (∀ frame ∈ board.running, frame.Waits) ∧
        board.hardware.pics.quiet = configuredPics 0xF8 0xFE ∧
        board.machine.kernel.masterMask = 0xF8 ∧ board.machine.kernel.slaveMask = 0xFE ∧
        ∀ vector pics, board.hardware.pics.acknowledge = some (vector, pics) →
          vector ∈ [(0x20 : BitVec 8), 0x21, 0x28]) := by
  have control := (Inv.run cold run spaced).control
  obtain ⟨short, below, waits⟩ := control.waits
  refine ⟨short, below, ?_⟩
  intro on
  obtain ⟨lines, _⟩ := control.lines_of_flag on
  obtain ⟨masterMask, slaveMask, pics, _⟩ := lines.idle ⟨[], false, false, 0⟩
  refine ⟨waits on, pics, masterMask, slaveMask, ?_⟩
  intro vector after taken
  obtain ⟨irq, used, number, _⟩ := lines.acknowledge taken
  have named : ∀ irq ∈ usedIrqs, BitVec.ofNat 8 (0x20 + irq) ∈ [(0x20 : BitVec 8), 0x21, 0x28] := by
    decide
  have vectorOf : vector = BitVec.ofNat 8 (0x20 + irq) := by
    rw [← number, BitVec.ofNat_toNat, BitVec.setWidth_eq]
  rw [vectorOf]
  exact named irq used

theorem interruptsSafe_bench : ∃ trace board,
    Run (Board.step Sample.platform) Bench.start trace board ∧ takenIrqs trace = [0, 0] ∧
      board.hardware.pics.quiet = configuredPics 0xF8 0xFE := by
  obtain ⟨trace, board, run, spaced, _, _, taken, _, on⟩ := Bench.switches
  obtain ⟨_, pics, _⟩ := (interruptsSafe Bench.cold run spaced).2.2 on
  exact ⟨trace, board, run, taken, pics⟩

/-- Scan codes are handled in the order the keyboard put them out, each once, and so are
the interrupts taken; what waits at the keyboard or the clock interrupts as soon as the
flag is on. -/
theorem servedInOrder (cold : hardware.Cold)
    (run : Run (Board.step platform) (Board.start platform memory stale keyboardFlags hardware)
      trace board) (spaced : Spaced trace) :
    scannedCodes trace = handledCodes trace ++ board.inHand ++ board.buffered ∧
      takenIrqs trace = handledIrqs trace ++ board.pendingIrqs ∧
      (board.flag = true →
        board.hardware.port.full = true ∨ board.hardware.clock.line = true →
          board.hardware.pics.acknowledge.isSome = true) := by
  obtain ⟨irqs, codes⟩ := Delivered.run cold run spaced
  refine ⟨codes, irqs, ?_⟩
  intro on waits
  obtain ⟨lines, _⟩ := (Inv.run cold run spaced).control.lines_of_flag on
  have promised := lines.promised
  have configured := lines.configured
  have unmasked (irq : Nat) (used : (configuredPics 0xF8 0xFE).masked irq = false) :
      board.hardware.pics.masked irq = false := by
    rw [← masked_quiet, configured]
    exact used
  have free : board.hardware.pics.master.inService = 0 ∧
      board.hardware.pics.slave.inService = 0 :=
    ⟨congrArg (fun pics => pics.master.inService) configured,
      congrArg (fun pics => pics.slave.inService) configured⟩
  rcases waits with full | up
  · have requested : board.hardware.pics.requested 1 = true := (promised.key rfl).symm.trans full
    exact promised.linked.prompt (by decide) requested (unmasked 1 (by decide))
      (unmasked 2 (by decide)) free
  · exact promised.linked.prompt (by decide) (promised.clock rfl up)
      (unmasked 8 (by decide)) (unmasked 2 (by decide)) free

theorem servedInOrder_bench : ∃ trace board,
    Run (Board.step Sample.platform) Bench.start trace board ∧ takenIrqs trace = [0, 0] ∧
      handledIrqs trace = [0, 0] := by
  obtain ⟨trace, board, run, spaced, _, _, taken, free, _⟩ := Bench.switches
  have served := (servedInOrder Bench.cold run spaced).2.1
  rw [taken, pendingIrqs, free, List.flatMap_nil, List.append_nil] at served
  exact ⟨trace, board, run, taken, served.symm⟩

/-- From wherever a run of the board got, every terminal can have its turn: two ticks are
enough, and nobody else has to do anything. -/
theorem everyTurn (cold : hardware.Cold)
    (run : Run (Board.step platform) (Board.start platform memory stale keyboardFlags hardware)
      trace board) (spaced : Spaced trace) (launched : board.launched = true)
    (terminal : Fin 3) :
    ∃ steps finish, Run (Board.step platform) board steps finish ∧
      (∀ transition ∈ steps, transition.event.isTurn = true) ∧
      (∃ ticks ≤ 2, takenIrqs steps = List.replicate ticks 0) ∧ Spaced (trace ++ steps) ∧
      finish.running = [] ∧ finish.flag = true ∧ finish.current = terminal ∧
      finish.stack = terminal := by
  obtain ⟨_, middle, returned, free, _⟩ := (Inv.run cold run spaced).returns spaced rfl
  -- the program runs with the flag on
  have goesOn : middle.step platform (.setFlags true middle.keyboardFlags) =
      some ({ middle with flag := true }, none) := by
    simp only [Board.step, free, List.isEmpty_nil, if_true]
  have last : Turns platform _ middle 0 _ { middle with flag := true } :=
    .untaken returned.spaced returned.inv goesOn rfl rfl rfl
  have ready := returned.trans last
  obtain ⟨steps, finish, turns, done, on, current⟩ := ready.inv.ticks
    ((terminal.val + 3 - middle.current.val) % 3) ready.spaced free rfl
    (ready.launched.trans launched)
  have all := ready.trans turns
  have reached : finish.current = terminal := by
    apply Fin.ext
    have before : Board.current { middle with flag := true } = middle.current := rfl
    rw [current, before]
    omega
  refine ⟨_, finish, all.run, all.own, ⟨_, ?_, all.taken⟩, all.spaced, done, on, reached, ?_⟩
  · omega
  · exact (all.inv.control.settled done).2.trans reached

theorem everyTurn_bench : ∃ trace board steps finish,
    Run (Board.step Sample.platform) Bench.start trace board ∧
      Run (Board.step Sample.platform) board steps finish ∧ finish.current = 1 ∧
      finish.running = [] := by
  obtain ⟨trace, board, run, spaced, _, on, _⟩ := Bench.switches
  obtain ⟨steps, finish, goes, _, _, _, free, _, current, _⟩ :=
    everyTurn Bench.cold run spaced on 1
  exact ⟨trace, board, steps, finish, run, goes, current, free⟩

end PoweredOn

end Board

end Ece391Os
