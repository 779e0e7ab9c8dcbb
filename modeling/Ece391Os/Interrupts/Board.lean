import Ece391Os.Data.Peripherals
import Ece391Os.Interrupts.Gates
import Ece391Os.Kernel.Machine

namespace Ece391Os

open Data

/-! The kernel on its board.  `i8259.c`, the initialization of the devices, the interrupt
handlers and `context_switch` run operation by operation, between which devices do what
they like and, where the interrupt flag allows it, the processor takes interrupts.  A
system call is one step. -/

-- a handler keeps the flags it saved on its stack, that of the keyboard in a global
inductive FlagsAt where
  | stack
  | keyboard
  deriving DecidableEq, Repr

inductive Code where
  | pitTables
  | initShell
  | clear
  | resetRow
  | resetColumn
  | homeCursor
  | switchProcess
  | rtcLoop
  | scanCode
  deriving DecidableEq, Repr

/-- What the code does to ports, masks and flags, and what it does between that. -/
inductive Op where
  | cliAndSave (place : FlagsAt)
  | restoreFlags (place : FlagsAt)
  -- the two halves of `enable_irq` and `disable_irq`
  | mask (irq : Nat)
  | unmask (irq : Nat)
  | outMask (irq : Nat)
  | outb (byte : BitVec 8) (port : BitVec 16)
  | inb (port : BitVec 16)
  -- writes the byte last read, with some of its bits replaced
  | outbRead (keep set : BitVec 8) (port : BitVec 16)
  | code (code : Code)
  -- the `sti` of `entry` and the `popf` of `context_switch`
  | sti
  -- the `iret` of a linkage, and the end of `reset_screen`
  | leave
  -- the `iret` of `context_switch`
  | enterProgram
  deriving DecidableEq, Repr

namespace Op

def enableIrq (irqNum : Nat) : List Op := [.unmask irqNum, .outMask irqNum]

def disableIrq (irqNum : Nat) : List Op := [.mask irqNum, .outMask irqNum]

def sendEoi (irqNum : Nat) : List Op :=
  if 8 ≤ irqNum then
    [.outb (0x60 ||| BitVec.ofNat 8 (irqNum - 8)) 0xA0, .outb (0x60 ||| 0x2) 0x20]
  else [.outb (0x60 ||| BitVec.ofNat 8 irqNum) 0x20]

def rtcInit : List Op :=
  [.outb 0x8B 0x70, .inb 0x71, .outb 0x8B 0x70, .outbRead 0xFF 0x40 0x71, .outb 0x8A 0x70,
    .inb 0x71, .outb 0x8A 0x70, .outbRead 0xF0 0x06 0x71] ++ enableIrq 8

def pitDivisor : BitVec 32 := BitVec.ofNat 32 (1193182 / 100)

def pitInit : List Op :=
  [.code .pitTables, .outb 0x36 0x43, .outb ((pitDivisor &&& 0xFF).setWidth 8) 0x40,
    .outb (((pitDivisor >>> 8) &&& 0xFF).setWidth 8) 0x40] ++ enableIrq 0

def keyboardInit : List Op := enableIrq 1

def resetScreen : List Op :=
  [.code .resetRow, .code .resetColumn, .code .homeCursor, .leave]

-- from the end of `i8259_init` to the call of `launch`
def entry : List Op :=
  enableIrq 2 ++ rtcInit ++ pitInit ++ [.code .initShell] ++ keyboardInit ++
    .code .clear :: .sti :: resetScreen

def rtcLinkage : List Op :=
  .cliAndSave .stack :: disableIrq 8 ++ sendEoi 8 ++
    [.code .rtcLoop, .outb 0x8C 0x70, .inb 0x71] ++ enableIrq 8 ++
    [.restoreFlags .stack, .leave]

def keyboardLinkage : List Op :=
  .cliAndSave .keyboard :: disableIrq 1 ++ sendEoi 1 ++
    [.inb 0x60, .code .scanCode, .restoreFlags .keyboard] ++ enableIrq 1 ++ [.leave]

-- what `pit_interrupt_handler` has left to do when `switch_process` returns
def afterSwitch : List Op := enableIrq 0 ++ [.restoreFlags .stack, .leave]

def pitLinkage : List Op :=
  .cliAndSave .stack :: disableIrq 0 ++ sendEoi 0 ++ .code .switchProcess :: afterSwitch

def contextSwitch : List Op := [.sti, .enterProgram]

-- what `switch_process` does for a terminal that never ran
def firstSwitch : List Op := enableIrq 0 ++ contextSwitch

end Op

-- the other handlers are plain C functions
def Handler.linkage : Handler → Option (List Op)
  | .rtcLinkage => some Op.rtcLinkage
  | .keyboardLinkage => some Op.keyboardLinkage
  | .pitLinkage => some Op.pitLinkage
  | _ => none

def i8259Init : List (BitVec 8 × BitVec 16) :=
  [(0xFF, 0x21), (0xFF, 0xA1),
    (0x11, 0x20), (0x20, 0x21), (0x04, 0x21), (0x01, 0x21),
    (0x11, 0xA0), (0x28, 0xA1), (0x02, 0xA1), (0x01, 0xA1),
    (0xFF, 0x21), (0xFF, 0xA1)]

/-- Code under way: what it has left to do, the interrupt flag it returns with, the one it
saved, and the byte it last read. -/
structure Frame where
  code : List Op
  eflags : Bool
  flags : Bool
  byte : BitVec 8

structure Board where
  machine : Machine
  launched : Bool
  -- what is under way on the kernel stack of each terminal, innermost first
  frames : Fin 3 → List Frame
  -- the kernel stack in use
  stack : Fin 3
  -- the stack that `switch_process` left each terminal on, and the frames it had there
  left : Fin 3 → Fin 3 × Nat
  flag : Bool
  keyboardFlags : Bool
  hardware : PcHardware

namespace Kernel

-- `pit_init` without its port writes
def pitTables (kernel : Kernel) : Kernel :=
  { kernel with
    schedArr := fun terminal =>
      { processNum := terminal.val + 1
        videoBuffer := videoMemAddr + (terminal.val + 1) * pageSize
        vidMap := 0
        esp := if terminal = 0 then eightMb else -1
        ebp := if terminal = 0 then eightMb else -1 } }

def changeConsole (change : Console → Console) (kernel : Kernel) : Kernel :=
  { kernel with console := change kernel.console }

/-- `keyboard_interrupt_handler` after its read of port 0x60. -/
def scanCode (code : UInt8) (kernel : Kernel) : Kernel :=
  if (capOffset ≤ code ∧ code ≤ upBound) ∨ capOffset + upBound ≤ code then kernel
  else kernel.handleScanCode code

/-- `pit_interrupt_handler` after its end of interrupt. -/
def rotate (esp ebp : Int) (kernel : Kernel) : Kernel × Reply :=
  match kernel.prevSchedTerm with
  | none => (kernel, .handled)
  | some _ =>
      { kernel with
        prevSchedTerm := some kernel.curSchedTerm
        curSchedTerm := kernel.curSchedTerm + 1 }.switchProcess kernel.curSchedTerm esp ebp

def irqMask (irq : Nat) (kernel : Kernel) : BitVec 8 :=
  if irq < 8 then kernel.masterMask else kernel.slaveMask

end Kernel

namespace Console

def resetRow (console : Console) : Console :=
  console.modifyShell console.curTerminal fun shell => { shell with y := 0 }

def resetColumn (console : Console) : Console :=
  console.modifyShell console.curTerminal fun shell => { shell with x := 0 }

end Console

def maskPort (irq : Nat) : BitVec 16 := if irq < 8 then 0x21 else 0xA1

namespace Board

variable (board : Board)

def current : Fin 3 := board.machine.kernel.curSchedTerm

def running : List Frame := board.frames board.stack

def setFrames (chain : List Frame) : Board :=
  { board with frames := Function.update board.frames board.stack chain }

def setKernel (kernel : Kernel) : Board :=
  { board with machine := { board.machine with kernel := kernel } }

def changeKernel (change : Kernel → Kernel) : Board :=
  board.setKernel (change board.machine.kernel)

def changeHardware (change : PcHardware → PcHardware) : Board :=
  { board with hardware := change board.hardware }

/-- Frames on the stack in use stay there when another stack is taken up; what lies below
the stack pointer that is taken up gets lost. -/
def takeUp (stack : Fin 3) (depth : Nat) : Board :=
  { board with
    stack := stack
    frames := Function.update board.frames stack
      ((board.frames stack).drop ((board.frames stack).length - depth)) }

/-- `switch_process`, called by `frame`.  The next terminal goes on where it was left, or,
if it never ran, its program is started from here, on the stack of the last one. -/
def switchProcess (esp ebp : Int) (frame : Frame) (rest : List Frame) : Board :=
  let kernel := board.machine.kernel
  let switched := kernel.rotate esp ebp
  let stopped :=
    { board.setFrames (frame :: rest) with
      left := Function.update board.left board.current (board.stack, rest.length + 1) }
  match switched.2 with
  | .enter _ =>
      -- its `enable_irq` is still to come
      (stopped.setKernel { switched.1 with masterMask := kernel.masterMask }).setFrames
        ({ frame with code := Op.firstSwitch } :: frame :: rest)
  | .switched _ _ =>
      let next := stopped.left switched.1.curSchedTerm
      (stopped.setKernel switched.1).takeUp next.1 next.2
  | _ => board.setFrames (frame :: rest)

/-- One operation of the code under way, with the event of the machine it completes. -/
def exec (esp ebp : Int) (frame : Frame) (rest : List Frame) : Op → Board × Option Event
  | .cliAndSave .stack =>
      ({ board.setFrames ({ frame with flags := board.flag } :: rest) with flag := false },
        none)
  | .cliAndSave .keyboard =>
      ({ board.setFrames (frame :: rest) with
        keyboardFlags := board.flag, flag := false }, none)
  | .restoreFlags .stack => ({ board.setFrames (frame :: rest) with flag := frame.flags }, none)
  | .restoreFlags .keyboard =>
      ({ board.setFrames (frame :: rest) with flag := board.keyboardFlags }, none)
  | .mask irq => ((board.setFrames (frame :: rest)).changeKernel (Kernel.disableIrq irq), none)
  | .unmask irq => ((board.setFrames (frame :: rest)).changeKernel (Kernel.enableIrq irq), none)
  | .outMask irq =>
      ((board.setFrames (frame :: rest)).changeHardware
        (PcHardware.outb (board.machine.kernel.irqMask irq) (maskPort irq)), none)
  | .outb byte port =>
      ((board.setFrames (frame :: rest)).changeHardware (PcHardware.outb byte port), none)
  | .inb port =>
      ((board.setFrames ({ frame with byte := (board.hardware.inb port).1 } :: rest))
        |>.changeHardware fun hardware => (hardware.inb port).2, none)
  | .outbRead keep set port =>
      ((board.setFrames (frame :: rest)).changeHardware
        (PcHardware.outb (frame.byte &&& keep ||| set) port), none)
  | .code .pitTables => ((board.setFrames (frame :: rest)).changeKernel Kernel.pitTables, none)
  | .code .initShell =>
      ((board.setFrames (frame :: rest)).changeKernel
        (Kernel.changeConsole Console.initShell), none)
  | .code .clear =>
      ((board.setFrames (frame :: rest)).changeKernel fun kernel =>
        kernel.changeConsole (Console.clearScreen kernel.pages.videoPage), none)
  | .code .resetRow =>
      ((board.setFrames (frame :: rest)).changeKernel
        (Kernel.changeConsole Console.resetRow), none)
  | .code .resetColumn =>
      ((board.setFrames (frame :: rest)).changeKernel
        (Kernel.changeConsole Console.resetColumn), none)
  | .code .homeCursor =>
      ((board.setFrames (frame :: rest)).changeKernel
        (Kernel.changeConsole Console.showCursor), none)
  | .code .switchProcess => (board.switchProcess esp ebp frame rest, some (.tick esp ebp))
  | .code .rtcLoop =>
      ((board.setFrames (frame :: rest)).changeKernel fun kernel =>
        { kernel with rtc := kernel.rtc.interruptHandler }, some .rtcInterrupt)
  | .code .scanCode =>
      ((board.setFrames (frame :: rest)).changeKernel
        (Kernel.scanCode (UInt8.ofBitVec frame.byte)), some (.key (UInt8.ofBitVec frame.byte)))
  | .sti => ({ board.setFrames (frame :: rest) with flag := true }, none)
  | .leave => ({ board.setFrames rest with flag := frame.eflags }, none)
  | .enterProgram =>
      -- the next interrupt finds the stack of the program empty
      ({ { board.setFrames rest with stack := board.current }.setFrames [] with flag := true },
        none)

inductive Signal where
  | disturb (disturbance : Disturbance)
  -- the processor takes an interrupt; `stale` is what its stack held
  | interrupt (stale : Frame)
  | advance (esp ebp : Int)
  -- code outside the handlers may set the interrupt flag and the global of `kb.c`
  | setFlags (flag keyboardFlags : Bool)
  | launch (frame : StackFrame)
  | call (event : Event)

def step (platform : Platform) (board : Board) : Signal → Option (Board × Option Event)
  | .disturb disturbance =>
      (board.hardware.disturb disturbance).map fun hardware =>
        ({ board with hardware := hardware }, none)
  | .interrupt stale =>
      if board.flag then
        match board.hardware.pics.acknowledge with
        | none => none
        | some (vector, pics) =>
            (handlerFor vector.toNat).linkage.map fun code =>
              ({ board.setFrames
                  ({ stale with code := code, eflags := board.flag } :: board.running) with
                flag := vector.toNat < numException
                hardware := { board.hardware with pics := pics } }, none)
      else none
  | .advance esp ebp =>
      match board.running with
      | ⟨op :: later, eflags, flags, byte⟩ :: rest =>
          some (board.exec esp ebp ⟨later, eflags, flags, byte⟩ rest op)
      | _ => none
  | .setFlags flag keyboardFlags =>
      if board.running.isEmpty then
        some ({ board with flag := flag, keyboardFlags := keyboardFlags }, none)
      else none
  | .launch frame =>
      if board.running.isEmpty && !board.launched then
        (board.machine.kernel.launch platform frame).map fun kernel =>
          ({ board.setKernel kernel with launched := true, flag := true }, none)
      else none
  | .call event =>
      if board.running.isEmpty && board.launched && event.isCall then
        (board.machine.step platform event).map fun (machine, _) =>
          ({ board with machine := machine }, some event)
      else none

-- the board when `i8259_init` returns, which runs with the interrupt flag off
def start (platform : Platform) (memory : BootMemory) (stale : Frame) (keyboardFlags : Bool)
    (hardware : PcHardware) : Board where
  machine :=
    { kernel := { Kernel.zeroed memory with
        pages := (Kernel.zeroed memory).pages.initPaging platform }
      blocked := fun _ => none }
  launched := false
  frames := fun terminal =>
    if terminal = 0 then [{ stale with code := Op.entry, eflags := true }] else []
  stack := 0
  left := fun terminal => (terminal, 0)
  flag := false
  keyboardFlags := keyboardFlags
  hardware := i8259Init.foldl (fun hardware write => hardware.outb write.1 write.2) hardware

end Board

end Ece391Os
