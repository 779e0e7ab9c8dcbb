import Ece391Os.Interrupts.Board

namespace Ece391Os

open Data

/-! What the code of a handler does by itself: the flag, the masks in memory and in the
controllers, and the lines in service.  Devices change none of it, so that it can be
computed from the code alone. -/

structure Point where
  flag : Bool
  stackFlags : Bool
  keyboardFlags : Bool
  masterMask : BitVec 8
  slaveMask : BitVec 8
  pics : PicPair
  index : BitVec 7
  deriving DecidableEq

def Board.point (frame : Frame) (board : Board) : Point where
  flag := board.flag
  stackFlags := frame.flags
  keyboardFlags := board.keyboardFlags
  masterMask := board.machine.kernel.masterMask
  slaveMask := board.machine.kernel.slaveMask
  pics := board.hardware.pics.quiet
  index := board.hardware.clock.index

def configuredPics (masterMask slaveMask : BitVec 8) : PicPair where
  master := ⟨0, 0, masterMask, 0x20, 0x04, .ready, true, true, false⟩
  slave := ⟨0, 0, slaveMask, 0x28, 0x02, .ready, true, true, false⟩

namespace Point

/-- Between two handlers: every line in use is open and none is in service. -/
def Idle (point : Point) : Prop :=
  point.masterMask = 0xF8 ∧ point.slaveMask = 0xFE ∧
    point.pics = configuredPics 0xF8 0xFE ∧ (point.index = 0x0A ∨ point.index = 0x0C)

instance : DecidablePred Idle := fun point => by
  unfold Idle
  infer_instance

def silent (point : Point) : Bool :=
  point.pics.slave.mask = 0xFF ∨ point.pics.slave.inService.getLsbD 0

def irqMask (irq : Nat) (point : Point) : BitVec 8 :=
  if irq < 8 then point.masterMask else point.slaveMask

def outb (byte : BitVec 8) (port : BitVec 16) (point : Point) : Point :=
  { point with
    index := if port = 0x70 then byte.setWidth 7 else point.index
    pics := if port ∈ PcHardware.devicePorts then point.pics else point.pics.write byte port }

end Point

namespace Op

def point (point : Point) : Op → Point
  | .cliAndSave .stack => { point with stackFlags := point.flag, flag := false }
  | .cliAndSave .keyboard => { point with keyboardFlags := point.flag, flag := false }
  | .restoreFlags .stack => { point with flag := point.stackFlags }
  | .restoreFlags .keyboard => { point with flag := point.keyboardFlags }
  | .mask irq =>
      if irq < 8 then { point with masterMask := point.masterMask ||| (1#8 <<< irq) }
      else { point with slaveMask := point.slaveMask ||| (1#8 <<< (irq - 8)) }
  | .unmask irq =>
      if irq < 8 then { point with masterMask := point.masterMask &&& ~~~(1#8 <<< irq) }
      else { point with slaveMask := point.slaveMask &&& ~~~(1#8 <<< (irq - 8)) }
  | .outMask irq => point.outb (point.irqMask irq) (maskPort irq)
  | .outb byte port => point.outb byte port
  | .sti => { point with flag := true }
  | .inb _ | .outbRead _ _ _ | .code _ | .leave | .enterProgram => point

/-- Whether an operation is safe at a point, with `later` still to do. -/
def allowed (later : List Op) (point : Point) : Op → Bool
  | .restoreFlags .stack => !point.stackFlags
  | .restoreFlags .keyboard => !point.keyboardFlags
  | .outMask irq => irq < 8 || point.silent
  | .outb byte port =>
      (!byte.getLsbD 4 || (port ≠ 0x20 && port ≠ 0xA0)) &&
        ((port ≠ 0xA0 && port ≠ 0xA1) || point.silent)
  | .inb port => port = 0x71 || (port = 0x60 && .inb 0x60 ∉ later)
  | .outbRead _ _ port => port = 0x71
  | .code .switchProcess =>
      !point.stackFlags && later = afterSwitch &&
        ((Op.outMask 0).point ((Op.unmask 0).point point)).Idle
  | .sti => (later = resetScreen || later = [.enterProgram]) && point.Idle
  | .leave => later.isEmpty && point.Idle
  | .enterProgram => false
  | .cliAndSave _ | .mask _ | .unmask _ => true
  | .code .pitTables | .code .initShell | .code .clear | .code .resetRow | .code .resetColumn
  | .code .homeCursor | .code .rtcLoop | .code .scanCode => true

/-- Code that is safe while the flag is off: it ends with its return, or with the flag on
and every line open.  A scan code is handled right after it is read. -/
def checks : List Op → Point → Bool
  | [], _ => false
  | op :: later, point =>
      !point.flag && op.allowed later point &&
        decide (op = .inb 0x60 ↔ later.head? = some (.code .scanCode)) &&
        (op = .leave || op = .sti || checks later (op.point point))

-- code that still reads the scan code
def keyTaken (code : List Op) : Bool := .inb 0x60 ∈ code

-- code that still reads register C of the clock
def clockTaken : List Op → Point → Bool
  | [], _ => false
  | op :: later, point =>
      (op = .inb 0x71 && point.index = 0x0C) || clockTaken later (op.point point)

end Op

/-! The code of `entry` and of the three handlers is safe. -/

def takenPoint (irq : Nat) (stackFlags keyboardFlags : Bool) (index : BitVec 7) : Point where
  flag := false
  stackFlags := stackFlags
  keyboardFlags := keyboardFlags
  masterMask := 0xF8
  slaveMask := 0xFE
  pics := (configuredPics 0xF8 0xFE).serve irq
  index := index

theorem entry_checks (stackFlags keyboardFlags : Bool) (index : BitVec 7) :
    Op.checks Op.entry
      ⟨false, stackFlags, keyboardFlags, 0xFF, 0xFF, configuredPics 0xFF 0xFF, index⟩ = true := by
  -- `rtc_init` selects a register before anything depends on the one selected
  have selects : Op.checks Op.entry
      ⟨false, stackFlags, keyboardFlags, 0xFF, 0xFF, configuredPics 0xFF 0xFF, index⟩ =
      Op.checks Op.entry
        ⟨false, stackFlags, keyboardFlags, 0xFF, 0xFF, configuredPics 0xFF 0xFF, 0⟩ := rfl
  rw [selects]
  clear selects
  revert stackFlags keyboardFlags
  decide +kernel

def usedIrqs : List Nat := [0, 1, 8]

def irqCode (irq : Nat) : List Op :=
  if irq = 0 then Op.pitLinkage else if irq = 1 then Op.keyboardLinkage else Op.rtcLinkage

theorem irqCode_checks : ∀ irq ∈ usedIrqs, ∀ stackFlags keyboardFlags : Bool,
    ∀ index ∈ [(0x0A : BitVec 7), 0x0C],
      Op.checks (irqCode irq) (takenPoint irq stackFlags keyboardFlags index) = true ∧
        Op.keyTaken (irqCode irq) = decide (irq = 1) ∧
        Op.clockTaken (irqCode irq) (takenPoint irq stackFlags keyboardFlags index) =
          decide (irq = 8) := by
  decide +kernel

end Ece391Os
