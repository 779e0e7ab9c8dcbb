import Ece391Os.Interrupts.Stacks
import Ece391Os.Terminal.Modifiers

namespace Ece391Os

open Data

/-! The handlers as events of the machine. -/

namespace Kernel

/-- The kernel with the masks it has between two handlers. -/
def settled (kernel : Kernel) : Kernel :=
  { kernel with masterMask := 0xF8, slaveMask := 0xFE }

variable (kernel : Kernel)

theorem settled_eq (masterMask : kernel.masterMask = 0xF8) (slaveMask : kernel.slaveMask = 0xFE) :
    kernel.settled = kernel := by
  rw [settled, ← masterMask, ← slaveMask]

@[simp] theorem settled_disableIrq (irq : Nat) :
    (kernel.disableIrq irq).settled = kernel.settled := by
  simp only [disableIrq]
  split
  · rfl
  · rfl

@[simp] theorem settled_enableIrq (irq : Nat) :
    (kernel.enableIrq irq).settled = kernel.settled := by
  simp only [enableIrq]
  split
  · rfl
  · rfl

theorem rtcInterruptHandler_settled :
    kernel.settled.rtcInterruptHandler =
      { kernel with rtc := kernel.rtc.interruptHandler }.settled := by
  have mask : ((0xFE : BitVec 8) ||| 1#8 <<< 0) &&& ~~~(1#8 <<< 0) = 0xFE := by decide
  simp only [rtcInterruptHandler, disableIrq, enableIrq, settled, Nat.lt_irrefl, if_false,
    Nat.sub_self, mask]

theorem keyboardInterruptHandler_settled (code : UInt8) :
    kernel.settled.keyboardInterruptHandler code = (kernel.scanCode code).settled := by
  have mask : kernel.settled.keyMask = 0xF8 := by
    change ((0xF8 : BitVec 8) ||| 1#8 <<< 1) &&& ~~~(1#8 <<< 1) = 0xF8
    decide
  rw [keyboardInterruptHandler_eq, scanCode_eq, mask]
  split
  · rfl
  · rfl

theorem pitInterruptHandler_rotate (esp ebp : Int) :
    kernel.pitInterruptHandler esp ebp =
      (((kernel.disableIrq 0).rotate esp ebp).1.enableIrq 0,
        ((kernel.disableIrq 0).rotate esp ebp).2) := by
  cases previous : (kernel.disableIrq 0).prevSchedTerm with
  | none => simp only [pitInterruptHandler, rotate, previous]
  | some terminal => simp only [pitInterruptHandler, rotate, previous]

theorem pitInterruptHandler_settled (esp ebp : Int) :
    (kernel.settled.pitInterruptHandler esp ebp).1 = (kernel.rotate esp ebp).1.settled := by
  have once : ((0xF8 : BitVec 8) ||| 1#8 <<< 0) &&& ~~~(1#8 <<< 0) = 0xF8 := by decide
  have twice : (0xF8 : BitVec 8) &&& ~~~(1#8 <<< 0) = 0xF8 := by decide
  rw [pitInterruptHandler_rotate]
  by_cases idle : kernel.prevSchedTerm = none
  · rw [rotate_idle kernel esp ebp idle, rotate_idle (kernel.settled.disableIrq 0) esp ebp idle]
    simp only [disableIrq, enableIrq, settled, Nat.reduceLT, if_true, once]
  · rw [rotate_eq kernel esp ebp idle, rotate_eq (kernel.settled.disableIrq 0) esp ebp idle]
    simp only [disableIrq, enableIrq, settled, ticked, Nat.reduceLT, if_true]
    split
    · rw [once, twice]
      rfl
    · rw [once]
      rfl

/-! Between two events the masks are the settled ones. -/

variable {kernel}

theorem Leaves.slaveMask {platform : Platform} {event : Event} {result : Kernel × Reply}
    (leaves : Leaves platform kernel event result) (other : event ≠ .rtcInterrupt) :
    result.1.slaveMask = kernel.slaveMask := by
  cases leaves with
  | serviced _ done =>
      obtain ⟨fdt, console, rtc, memory, rfl⟩ := done
      rfl
  | clocked => exact absurd rfl other
  | _ => rfl

theorem Leaves.settled {platform : Platform} {event : Event} {result : Kernel × Reply}
    (leaves : Leaves platform kernel event result) (call : event.isCall = true)
    (before : kernel.settled = kernel) : result.1.settled = result.1 := by
  have masterMask := leaves.masterMask
    (by cases event with
      | tick => cases call
      | _ => rfl)
    (by rintro _ rfl; cases call)
  have slaveMask := leaves.slaveMask (by rintro rfl; cases call)
  apply settled_eq
  · rw [masterMask, ← before]
    rfl
  · rw [slaveMask, ← before]
    rfl

end Kernel

theorem Booted.settled {platform : Platform} {kernel : Kernel}
    (booted : Booted platform kernel) : kernel.settled = kernel := by
  induction booted with
  | boot memory =>
      have masterMask : (0xFF#8 &&& ~~~(1#8 <<< 2) &&& ~~~(1#8 <<< 0) &&& ~~~(1#8 <<< 1)) =
          0xF8#8 := by decide
      have slaveMask : 0xFF#8 &&& ~~~(1#8 <<< (8 - 8)) = 0xFE#8 := by decide
      exact Kernel.settled_eq _ masterMask slaveMask
  | tick esp ebp _ induction =>
      rw [← induction, Kernel.pitInterruptHandler_settled]
      rfl
  | key code _ induction =>
      rw [← induction, Kernel.keyboardInterruptHandler_settled]
      rfl
  | rtcInterrupt _ induction =>
      rw [← induction, Kernel.rtcInterruptHandler_settled]
      rfl

theorem Machine.step_settled {platform : Platform} {machine next : Machine} {event : Event}
    {reply : Reply} (fired : machine.step platform event = some (next, reply))
    (sound : machine.kernel.processView.Sound) (before : machine.kernel.settled = machine.kernel) :
    next.kernel.settled = next.kernel := by
  have leaves := (Machine.step_kernel fired).leaves sound
  cases event with
  | tick esp ebp =>
      obtain ⟨rfl, rfl⟩ := Prod.mk.inj (Option.some.inj fired)
      simp only
      rw [← before, Kernel.pitInterruptHandler_settled]
      rfl
  | key code =>
      obtain ⟨rfl, rfl⟩ := Prod.mk.inj (Option.some.inj fired)
      simp only
      rw [← before, Kernel.keyboardInterruptHandler_settled]
      rfl
  | rtcInterrupt =>
      obtain ⟨rfl, rfl⟩ := Prod.mk.inj (Option.some.inj fired)
      simp only
      rw [← before, Kernel.rtcInterruptHandler_settled]
      rfl
  | _ => exact leaves.settled rfl before

theorem Reachable.settled {platform : Platform} {machine : Machine}
    (reachable : Reachable platform machine) : machine.kernel.settled = machine.kernel := by
  obtain ⟨start, trace, began, run⟩ := reachable
  induction run with
  | nil =>
      obtain ⟨kernel, frame, entryPoint, memory, booted, result⟩ := began.eq
      rw [result]
      have masks := booted.settled
      apply Kernel.settled_eq
      · exact (congrArg Kernel.masterMask masks).symm
      · exact (congrArg Kernel.slaveMask masks).symm
  | snoc before fired induction =>
      exact Machine.step_settled fired (Reachable.sound ⟨_, _, began, before⟩) induction

/-- The machine of a board, with its masks as they are between two handlers. -/
def Board.settled (board : Board) : Machine :=
  { board.machine with kernel := board.machine.kernel.settled }

/-- Operations of `entry` alone. -/
def Op.isSetup : Op → Bool
  | .code .pitTables | .code .initShell | .code .clear | .code .resetRow | .code .resetColumn
  | .code .homeCursor => true
  | _ => false

namespace Board

variable {platform : Platform} {board : Board} {frame : Frame} {rest : List Frame}

/-- What an operation is to the machine: an event, or nothing. -/
inductive Effects (platform : Platform) (board : Board) : Board × Option Event → Prop
  | silent (next : Board) (same : next.settled = board.settled) :
      Effects platform board (next, none)
  | event (next : Board) (event : Event) (reply : Reply) (interrupt : event.isCall = false)
      (fired : board.settled.step platform event = some (next.settled, reply)) :
      Effects platform board (next, some event)

theorem switchProcess_settled (frame : Frame) (rest : List Frame) (esp ebp : Int) :
    (board.switchProcess esp ebp frame rest).settled =
      { board.machine with kernel := (board.machine.kernel.rotate esp ebp).1.settled } := by
  by_cases idle : board.machine.kernel.prevSchedTerm = none
  · simp only [switchProcess, Kernel.rotate_idle _ esp ebp idle]
    rfl
  · simp only [switchProcess, Kernel.rotate_eq _ esp ebp idle, Kernel.switchReply]
    by_cases fresh :
        (board.machine.kernel.schedArr (board.machine.kernel.curSchedTerm + 1)).esp = -1
    · simp only [fresh, if_true]
      rfl
    · simp only [fresh, if_false]
      rfl

theorem exec_effects (esp ebp : Int) (op : Op) (handler : op.isSetup = false) :
    Effects platform board (board.exec esp ebp frame rest op) := by
  cases op with
  | cliAndSave place =>
      cases place with
      | stack => exact .silent _ rfl
      | keyboard => exact .silent _ rfl
  | restoreFlags place =>
      cases place with
      | stack => exact .silent _ rfl
      | keyboard => exact .silent _ rfl
  | mask irq =>
      apply Effects.silent
      exact congrArg (Machine.mk · board.machine.blocked) (Kernel.settled_disableIrq _ irq)
  | unmask irq =>
      apply Effects.silent
      exact congrArg (Machine.mk · board.machine.blocked) (Kernel.settled_enableIrq _ irq)
  | outMask irq => exact .silent _ rfl
  | outb byte port => exact .silent _ rfl
  | inb port => exact .silent _ rfl
  | outbRead keep set port => exact .silent _ rfl
  | sti => exact .silent _ rfl
  | leave => exact .silent _ rfl
  | enterProgram => exact .silent _ rfl
  | code code =>
      cases code with
      | rtcLoop =>
          refine .event _ .rtcInterrupt .handled rfl ?_
          simp only [Machine.step, Board.settled]
          rw [Kernel.rtcInterruptHandler_settled]
          rfl
      | scanCode =>
          refine .event _ (.key _) .handled rfl ?_
          simp only [Machine.step, Board.settled]
          rw [Kernel.keyboardInterruptHandler_settled]
          rfl
      | switchProcess =>
          refine .event _ (.tick esp ebp) (board.settled.kernel.pitInterruptHandler esp ebp).2 rfl ?_
          simp only [Machine.step]
          rw [switchProcess_settled, Board.settled, Kernel.pitInterruptHandler_settled]
      | _ => cases handler

end Board

end Ece391Os
