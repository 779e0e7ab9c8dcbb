import Ece391Os.Interrupts.Points
import Ece391Os.Process.Contexts

namespace Ece391Os

open Data

namespace Kernel

variable (kernel : Kernel)

theorem rotate_eq (esp ebp : Int) (active : kernel.prevSchedTerm ≠ none) :
    kernel.rotate esp ebp =
      (kernel.ticked esp ebp
        (if (kernel.schedArr (kernel.curSchedTerm + 1)).esp = -1 then
          kernel.masterMask &&& ~~~(1#8 <<< 0)
        else kernel.masterMask),
        switchReply (kernel.schedArr (kernel.curSchedTerm + 1)) kernel.programAddrTest) := by
  obtain ⟨previous, active⟩ := Option.ne_none_iff_exists'.mp active
  have other := next_ne kernel.curSchedTerm
  simp only [rotate, active, switchProcess, switchReply]
  by_cases mapped : (kernel.schedArr (kernel.curSchedTerm + 1)).vidMap = 1 <;>
    split <;>
    simp_all [ticked, scheduledPages, remapScheduled, running, setPageDirEntry,
      setPageTable1Entry, setPageTable2Entry, setPrintTerminal, enableIrq]

theorem rotate_idle (esp ebp : Int) (idle : kernel.prevSchedTerm = none) :
    kernel.rotate esp ebp = (kernel, .handled) := by
  simp only [rotate, idle]

theorem scanCode_eq (code : UInt8) :
    kernel.scanCode code =
      if ignoresCode code then kernel
      else kernel.typed (kernel.keyConsole code) kernel.masterMask := by
  simp only [scanCode]
  by_cases ignored : (capOffset ≤ code ∧ code ≤ upBound) ∨ capOffset + upBound ≤ code
  · have skipped : ignoresCode code := ignored
    rw [if_pos ignored, if_pos skipped]
  · have handled : ¬ ignoresCode code := ignored
    simp only [if_neg ignored, if_neg handled, handleScanCode, setPrintTerminal,
      setPageTable1Entry, videoPage_screen]
    rw [← keyConsole]
    by_cases viewed : kernel.curSchedTerm ≠ (kernel.keyConsole code).curTerminal <;>
      simp [typed, viewed, running, PageTables.setPageTable1Entry]

structure Alike (kernel kernel' : Kernel) : Prop where
  current : kernel'.curSchedTerm = kernel.curSchedTerm
  previous : kernel'.prevSchedTerm = kernel.prevSchedTerm
  nodes : kernel'.schedArr = kernel.schedArr

theorem scanCode_alike (code : UInt8) : kernel.Alike (kernel.scanCode code) := by
  rw [scanCode_eq]
  split
  · exact ⟨rfl, rfl, rfl⟩
  · exact ⟨rfl, rfl, rfl⟩

theorem scanCode_masks (code : UInt8) :
    (kernel.scanCode code).masterMask = kernel.masterMask ∧
      (kernel.scanCode code).slaveMask = kernel.slaveMask := by
  rw [scanCode_eq]
  split
  · exact ⟨rfl, rfl⟩
  · exact ⟨rfl, rfl⟩

theorem enableIrq_alike (irq : Nat) : kernel.Alike (kernel.enableIrq irq) := by
  simp only [enableIrq]
  split
  · exact ⟨rfl, rfl, rfl⟩
  · exact ⟨rfl, rfl, rfl⟩

theorem disableIrq_alike (irq : Nat) : kernel.Alike (kernel.disableIrq irq) := by
  simp only [disableIrq]
  split
  · exact ⟨rfl, rfl, rfl⟩
  · exact ⟨rfl, rfl, rfl⟩

end Kernel

/-! The point of a board follows the code. -/

theorem Board.point_outb (byte : BitVec 8) (port : BitVec 16) (board : Board) (frame : Frame) :
    (board.changeHardware (PcHardware.outb byte port)).point frame =
      (board.point frame).outb byte port := by
  simp only [Board.point, Board.changeHardware, Point.outb, PcHardware.quiet_outb,
    PcHardware.index_outb]

theorem Board.point_disableIrq (irq : Nat) (board : Board) (frame : Frame) :
    (board.changeKernel (Kernel.disableIrq irq)).point frame =
      Op.point (board.point frame) (.mask irq) := by
  simp only [Board.point, Board.changeKernel, Board.setKernel, Kernel.disableIrq, Op.point]
  split
  · rfl
  · rfl

theorem Board.point_enableIrq (irq : Nat) (board : Board) (frame : Frame) :
    (board.changeKernel (Kernel.enableIrq irq)).point frame =
      Op.point (board.point frame) (.unmask irq) := by
  simp only [Board.point, Board.changeKernel, Board.setKernel, Kernel.enableIrq, Op.point]
  split
  · rfl
  · rfl

theorem Board.point_scanCode (code : UInt8) (board : Board) (frame : Frame) :
    (board.changeKernel (Kernel.scanCode code)).point frame = board.point frame := by
  obtain ⟨master, slave⟩ := board.machine.kernel.scanCode_masks code
  simp only [Board.point, Board.changeKernel, Board.setKernel, master, slave]

theorem Point.outb_clock (byte : BitVec 8) (point : Point) : point.outb byte 0x71 = point := by
  simp [Point.outb, PcHardware.devicePorts]

/-- Whether an operation leaves the stacks and the scheduler as they are. -/
def Op.stays : Op → Bool
  | .code .switchProcess | .leave | .enterProgram => false
  | _ => true

namespace Board

variable {board : Board} {frame : Frame} {rest : List Frame}

/-- The board after an operation that stays where it is. -/
structure Goes (board : Board) (frame : Frame) (rest : List Frame) (op : Op) (next : Board) :
    Prop where
  frames : ∃ after : Frame, next.frames =
      Function.update board.frames board.stack (after :: rest) ∧
    after.code = frame.code ∧ after.eflags = frame.eflags ∧
    next.point after = op.point (board.point frame)
  stack : next.stack = board.stack
  left : next.left = board.left
  current : next.current = board.current
  previous : next.machine.kernel.prevSchedTerm = board.machine.kernel.prevSchedTerm
  launched : next.launched = board.launched

theorem exec_goes (esp ebp : Int) {later : List Op} (op : Op) (stays : op.stays = true)
    (allowed : op.allowed later (board.point frame) = true) :
    board.Goes frame rest op (board.exec esp ebp frame rest op).1 := by
  cases op with
  | cliAndSave place =>
      cases place with
      | stack => exact ⟨⟨_, rfl, rfl, rfl, rfl⟩, rfl, rfl, rfl, rfl, rfl⟩
      | keyboard => exact ⟨⟨frame, rfl, rfl, rfl, rfl⟩, rfl, rfl, rfl, rfl, rfl⟩
  | restoreFlags place =>
      cases place with
      | stack => exact ⟨⟨frame, rfl, rfl, rfl, rfl⟩, rfl, rfl, rfl, rfl, rfl⟩
      | keyboard => exact ⟨⟨frame, rfl, rfl, rfl, rfl⟩, rfl, rfl, rfl, rfl, rfl⟩
  | mask irq =>
      have alike := board.machine.kernel.disableIrq_alike irq
      exact ⟨⟨frame, rfl, rfl, rfl, point_disableIrq irq board frame⟩, rfl, rfl, alike.current,
        alike.previous, rfl⟩
  | unmask irq =>
      have alike := board.machine.kernel.enableIrq_alike irq
      exact ⟨⟨frame, rfl, rfl, rfl, point_enableIrq irq board frame⟩, rfl, rfl, alike.current,
        alike.previous, rfl⟩
  | outMask irq => exact ⟨⟨frame, rfl, rfl, rfl, point_outb ..⟩, rfl, rfl, rfl, rfl, rfl⟩
  | outb byte port => exact ⟨⟨frame, rfl, rfl, rfl, point_outb ..⟩, rfl, rfl, rfl, rfl, rfl⟩
  | inb port =>
      obtain ⟨pics, index⟩ := board.hardware.quiet_inb port
      refine ⟨⟨_, rfl, rfl, rfl, ?_⟩, rfl, rfl, rfl, rfl, rfl⟩
      simp [exec, changeHardware, setFrames, point, Op.point, pics, index]
  | outbRead keep set port =>
      obtain rfl : port = 0x71 := of_decide_eq_true allowed
      refine ⟨⟨frame, rfl, rfl, rfl, ?_⟩, rfl, rfl, rfl, rfl, rfl⟩
      simp only [exec, point_outb, Point.outb_clock]
      rfl
  | sti => exact ⟨⟨frame, rfl, rfl, rfl, rfl⟩, rfl, rfl, rfl, rfl, rfl⟩
  | code code =>
      cases code with
      | switchProcess => cases stays
      | scanCode =>
          have alike := board.machine.kernel.scanCode_alike (UInt8.ofBitVec frame.byte)
          exact ⟨⟨frame, rfl, rfl, rfl, point_scanCode _ board frame⟩, rfl, rfl, alike.current,
            alike.previous, rfl⟩
      | clear =>
          -- what the screen becomes does not matter
          unfold exec
          generalize Console.clearScreen = clearScreen
          exact ⟨⟨frame, rfl, rfl, rfl, rfl⟩, rfl, rfl, rfl, rfl, rfl⟩
      | _ => exact ⟨⟨frame, rfl, rfl, rfl, rfl⟩, rfl, rfl, rfl, rfl, rfl⟩
  | leave => cases stays
  | enterProgram => cases stays

/-! The promise of the lines follows it too. -/

theorem level_silent (silent : (board.point frame).silent = true) :
    board.hardware.pics.slave.level = none := by
  apply Pic.level_silent
  simpa [Point.silent, point, PicPair.quiet, Pic.quiet] using silent

theorem promised_outMask {keyTaken clockTaken : Bool} (irq : Nat) {byte : BitVec 8}
    (promised : board.hardware.Promised keyTaken clockTaken)
    (allowed : irq < 8 ∨ (board.point frame).silent = true) :
    (board.hardware.outb byte (maskPort irq)).Promised keyTaken clockTaken := by
  apply promised.outb
  · right
    unfold maskPort
    split
    · decide
    · decide
  · intro second
    rcases allowed with first | silent
    · simp [maskPort, first] at second
    · exact board.level_silent silent

/-- Whether the interrupts of the keyboard and the clock are still to be served. -/
def Served (board : Board) (code : List Op) (frame : Frame) : Prop :=
  board.hardware.Promised (Op.keyTaken code) (Op.clockTaken code (board.point frame))

theorem Served.skip {op : Op} {later : List Op} (served : board.Served (op :: later) frame)
    (other : ∀ port, op ≠ .inb port) :
    board.hardware.Promised (Op.keyTaken later)
      (Op.clockTaken later (op.point (board.point frame))) := by
  have key : Op.keyTaken (op :: later) = Op.keyTaken later := by
    simp only [Op.keyTaken, List.mem_cons, Ne.symm (other 0x60), false_or]
  have clock : Op.clockTaken (op :: later) (board.point frame) =
      Op.clockTaken later (op.point (board.point frame)) := by
    simp only [Op.clockTaken, other 0x71, decide_false, Bool.false_and, Bool.false_or]
  rw [Served, key, clock] at served
  exact served

theorem exec_promised (esp ebp : Int) {later : List Op} (op : Op)
    (stays : op.stays = true) (allowed : op.allowed later (board.point frame) = true)
    (served : board.Served (op :: later) frame) :
    (board.exec esp ebp frame rest op).1.hardware.Promised (Op.keyTaken later)
      (Op.clockTaken later (op.point (board.point frame))) := by
  cases op with
  | outMask irq =>
      apply promised_outMask irq (served.skip (by simp))
      exact (Bool.or_eq_true _ _ ▸ allowed).imp_left of_decide_eq_true
  | outb byte port =>
      obtain ⟨word, quiet⟩ := Bool.and_eq_true _ _ ▸ allowed
      apply (served.skip (by simp)).outb
      · simpa using word
      · intro second
        apply board.level_silent
        rcases Bool.or_eq_true _ _ ▸ quiet with first | silent
        · simp at first
          exact (second.elim first.1 first.2).elim
        · exact silent
  | inb port =>
      rcases Bool.or_eq_true _ _ ▸ allowed with clock | key
      · obtain rfl := of_decide_eq_true clock
        have kept : Op.keyTaken (.inb 0x71 :: later) = Op.keyTaken later := by
          simp [Op.keyTaken]
        rw [Served, kept] at served
        apply served.inbClock
        by_cases last : board.hardware.clock.index = 0x0C
        · exact .inr last
        · left
          have other : (board.point frame).index ≠ 0x0C := last
          simp only [Op.clockTaken, other, decide_false, Bool.and_false, Bool.false_or]
      · obtain ⟨isKey, last⟩ := Bool.and_eq_true _ _ ▸ key
        obtain rfl := of_decide_eq_true isKey
        have taken : Op.keyTaken (.inb 0x60 :: later) = true := by simp [Op.keyTaken]
        have done : Op.keyTaken later = false := by simpa [Op.keyTaken] using last
        have clock : Op.clockTaken (.inb 0x60 :: later) (board.point frame) =
            Op.clockTaken later (board.point frame) := by
          simp [Op.clockTaken, Op.point]
        rw [Served, taken, clock] at served
        rw [done]
        exact served.inbKey
  | outbRead keep set port =>
      obtain rfl := of_decide_eq_true allowed
      change PcHardware.Promised _ _ (board.hardware.outb (frame.byte &&& keep ||| set) 0x71)
      apply PcHardware.Promised.outb (served.skip (by simp))
      · exact .inr (by decide)
      · simp
  | cliAndSave place =>
      cases place with
      | stack => exact served.skip (by simp)
      | keyboard => exact served.skip (by simp)
  | restoreFlags place =>
      cases place with
      | stack => exact served.skip (by simp)
      | keyboard => exact served.skip (by simp)
  | mask irq => exact served.skip (by simp)
  | unmask irq => exact served.skip (by simp)
  | sti => exact served.skip (by simp)
  | code code =>
      cases code with
      | switchProcess => cases stays
      | clear =>
          unfold exec
          generalize Console.clearScreen = clearScreen
          exact served.skip (by simp)
      | _ => exact served.skip (by simp)
  | leave => cases stays
  | enterProgram => cases stays

end Board

/-! The board when `i8259_init` returns. -/

/-- Whatever the controllers were doing, `i8259_init` configures them. -/
theorem i8259Init_pics (pics : PicPair) :
    i8259Init.foldl (fun pics write => pics.write write.1 write.2) pics =
      configuredPics 0xFF 0xFF := by
  simp only [i8259Init, List.foldl_cons, List.foldl_nil]
  generalize (pics.write 0xFF 0x21).write 0xFF 0xA1 = pair
  simp [PicPair.write, PicPair.changeSlave, PicPair.changeMaster, Pic.writeCommand,
    Pic.writeData, Pic.level, Pic.presents, configuredPics]

theorem foldl_outb (writes : List (BitVec 8 × BitVec 16)) (hardware : PcHardware)
    (ports : ∀ write ∈ writes, write.2 ∉ PcHardware.devicePorts) :
    writes.foldl (fun hardware write => hardware.outb write.1 write.2) hardware =
      { hardware with
        pics := writes.foldl (fun pics write => pics.write write.1 write.2) hardware.pics } := by
  induction writes generalizing hardware with
  | nil => rfl
  | cons first rest induction =>
      rw [List.foldl_cons,
        induction _ fun write member => ports write (List.mem_cons_of_mem _ member)]
      have other := ports first List.mem_cons_self
      simp only [PcHardware.devicePorts, List.mem_cons, List.not_mem_nil, or_false,
        not_or] at other
      obtain ⟨index, data, command, counter⟩ := other
      simp only [PcHardware.outb, index, data, command, counter, if_false]
      rfl

theorem i8259Init_hardware (hardware : PcHardware) :
    i8259Init.foldl (fun hardware write => hardware.outb write.1 write.2) hardware =
      { hardware with pics := configuredPics 0xFF 0xFF } := by
  have others : i8259Init.any (fun write => PcHardware.devicePorts.contains write.2) = false := by
    decide
  have ports : ∀ write ∈ i8259Init, write.2 ∉ PcHardware.devicePorts := by
    intro write member device
    exact List.any_eq_false.mp others write member (List.contains_iff_mem.mpr device)
  rw [foldl_outb i8259Init hardware ports, i8259Init_pics]

end Ece391Os
