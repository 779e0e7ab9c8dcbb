import Ece391Os.Kernel.Paging
import Ece391Os.Kernel.Screen

namespace Ece391Os

open Data

/-! `kb.c`: the line buffer, the keyboard handler and the terminal calls. -/

def newLineCode : UInt8 := 28

def backSpaceCode : UInt8 := 14

def ctrlCode : UInt8 := 29

def capsLockCode : UInt8 := 58

def leftShift : UInt8 := 42

def rightShift : UInt8 := 54

def altChar : UInt8 := 56

def altRelease : UInt8 := 184

def recentRelease : UInt8 := 0x80

def lChar : UInt8 := 38

def f1Char : UInt8 := 59

def f2Char : UInt8 := 60

def f3Char : UInt8 := 61

def capOffset : UInt8 := 90

def upBound : UInt8 := 128

def kbdusLower : List UInt8 :=
  [0, 27, 49, 50, 51, 52, 53, 54, 55, 56, 57, 48, 45, 61, 8, 9,
    113, 119, 101, 114, 116, 121, 117, 105, 111, 112, 91, 93, 10, 0,
    97, 115, 100, 102, 103, 104, 106, 107, 108, 59, 39, 96, 0, 92,
    122, 120, 99, 118, 98, 110, 109, 44, 46, 47, 0, 42, 0, 32, 0,
    0, 0, 0, 0, 0, 0, 0, 0, 0, 0, 0, 0, 0, 0, 0,
    45, 0, 0, 0, 43, 0, 0, 0, 0, 0, 0, 0, 0, 0, 0, 0]

def kbdusUpper : List UInt8 :=
  [0, 27, 33, 64, 35, 36, 37, 94, 38, 42, 40, 41, 95, 43, 8, 9,
    81, 87, 69, 82, 84, 89, 85, 73, 79, 80, 123, 125, 10, 0,
    65, 83, 68, 70, 71, 72, 74, 75, 76, 58, 34, 126, 0, 124,
    90, 88, 67, 86, 66, 78, 77, 60, 62, 63, 0, 42, 0, 32, 0,
    0, 0, 0, 0, 0, 0, 0, 0, 0, 0, 0, 0, 0, 0, 0,
    45, 0, 0, 0, 43, 0, 0, 0, 0, 0, 0, 0, 0, 0, 0, 0]

def kbdus (scanCode : UInt8) : UInt8 :=
  (kbdusLower ++ kbdusUpper).getD scanCode.toNat 0

/-! Accesses to `kb_buf` are not bounded by its 128 bytes.  In `shell_t` the
buffer is followed by `line_buffer_flag`, `buf_index` and the modifier bytes,
and an index past the end reaches them. -/

def byteOf (value : Int) (position : Nat) : UInt8 :=
  UInt8.ofNat (u32 value / 256 ^ position % 256)

def withByte (value : Int) (position : Nat) (byte : UInt8) : Int :=
  i32 ((u32 value : Int) - (byteOf value position).toNat * 256 ^ position +
    byte.toNat * 256 ^ position)

def kbLoad (shell : Shell) (index : Nat) : UInt8 :=
  if index < 128 then shell.kbBuf index
  else if index < 132 then byteOf shell.lineBufferFlag (index - 128)
  else if index < 136 then byteOf shell.bufIndex (index - 132)
  else if index = 136 then shell.shiftPressed
  else if index = 137 then shell.capsLock
  else if index = 138 then shell.ctrlPressed
  else if index = 139 then shell.altPressed
  else 0

def kbStore (shell : Shell) (index : Nat) (byte : UInt8) : Shell :=
  if index < 128 then { shell with kbBuf := Function.update shell.kbBuf index byte }
  else if index < 132 then
    { shell with lineBufferFlag := withByte shell.lineBufferFlag (index - 128) byte }
  else if index < 136 then
    { shell with bufIndex := withByte shell.bufIndex (index - 132) byte }
  else if index = 136 then { shell with shiftPressed := byte }
  else if index = 137 then { shell with capsLock := byte }
  else if index = 138 then { shell with ctrlPressed := byte }
  else if index = 139 then { shell with altPressed := byte }
  else shell

namespace Console

def modifyViewed (console : Console) (change : Shell → Shell) : Console :=
  console.modifyShell console.curTerminal change

def capsAndShift (console : Console) : Prop :=
  console.viewed.capsLock = 1 ∧ console.viewed.shiftPressed = 1

def capsNoShift (console : Console) : Prop :=
  console.viewed.capsLock = 1 ∧ console.viewed.shiftPressed ≠ 1

instance (console : Console) : Decidable console.capsAndShift :=
  inferInstanceAs (Decidable (_ ∧ _))

instance (console : Console) : Decidable console.capsNoShift :=
  inferInstanceAs (Decidable (_ ∧ _))

def inCharRange (scanCode : UInt8) : Prop :=
  (16 ≤ scanCode ∧ scanCode ≤ 25) ∨ (30 ≤ scanCode ∧ scanCode ≤ 38) ∨
    (44 ≤ scanCode ∧ scanCode ≤ 50)

instance (scanCode : UInt8) : Decidable (inCharRange scanCode) :=
  inferInstanceAs (Decidable (_ ∨ _))

def printScancode (page : Nat) (scanCode : UInt8) (console : Console) : Console :=
  if ((bufLength : Int) - 1 ≤ console.viewed.bufIndex ∧ scanCode ≠ newLineCode) ∨
      console.viewed.lineBufferFlag ≠ 0 then
    console
  else
    let shown := console.putc page (kbdus scanCode)
    let stored := shown.modifyViewed fun shell =>
      kbStore shell shell.bufIndex.toNat (kbdus scanCode)
    stored.modifyViewed fun shell => { shell with bufIndex := shell.bufIndex + 1 }

/-- Ctrl-L: clear the screen and print the pending line again. -/
def redraw (page : Nat) (console : Console) : Console :=
  let cleared := (console.clearScreen page).resetScreen
  cleared.putAll page
    ((List.range cleared.viewed.bufIndex.toNat).map (kbLoad cleared.viewed))

def recentReleaseExec (page : Nat) (scanCode : UInt8) (console : Console) :
    Console :=
  if scanCode = ctrlCode then
    console.modifyViewed fun shell => { shell with ctrlPressed := 1 }
  else if console.viewed.altPressed = 1 ∧
      (scanCode = f1Char ∨ scanCode = f2Char ∨ scanCode = f3Char) then
    console.changeShell page
      (if scanCode = f1Char then 0 else if scanCode = f2Char then 1 else 2)
  else if scanCode = lChar ∧ console.viewed.ctrlPressed = 1 then
    console.redraw page
  else if scanCode = backSpaceCode then
    if console.viewed.bufIndex ≤ 0 then console
    else
      (console.modifyViewed fun shell =>
        { shell with bufIndex := shell.bufIndex - 1 }).backSpace page
  else if scanCode = altChar then
    console.modifyViewed fun shell => { shell with altPressed := 1 }
  else if scanCode = newLineCode then
    (console.printScancode page scanCode).modifyViewed fun shell =>
      { shell with lineBufferFlag := 1 }
  else if scanCode = leftShift ∨ scanCode = rightShift then
    console.modifyViewed fun shell => { shell with shiftPressed := 1 }
  else if scanCode = capsLockCode then
    console.modifyViewed fun shell =>
      { shell with capsLock := (shell.capsLock + 1) % 2 }
  else if console.capsAndShift ∧ inCharRange scanCode then
    console.printScancode page scanCode
  else if console.capsNoShift ∧ inCharRange scanCode then
    console.printScancode page (scanCode + capOffset)
  else if console.viewed.shiftPressed = 1 then
    console.printScancode page (scanCode + capOffset)
  else
    console.printScancode page scanCode

def afterReleaseExec (scanCode : UInt8) (console : Console) : Console :=
  if scanCode = leftShift + recentRelease ∨ scanCode = rightShift + recentRelease then
    console.modifyViewed fun shell => { shell with shiftPressed := 0 }
  else if scanCode = ctrlCode + recentRelease then
    console.modifyViewed fun shell => { shell with ctrlPressed := 0 }
  else if scanCode = altRelease then
    console.modifyViewed fun shell => { shell with altPressed := 0 }
  else console

def terminalOpen (console : Console) : Console :=
  console.modifyViewed fun shell => { shell with bufIndex := 0 }

def terminalClose (console : Console) : Console :=
  console.modifyViewed fun shell => { shell with bufIndex := 0 }

/-- `terminal_write`; a `none` buffer is the null pointer. -/
def terminalWrite (page : Nat) (buf : Option Memory) (nbytes : Int)
    (console : Console) : Int × Console :=
  match buf with
  | none => (-1, console)
  | some bytes =>
      if nbytes < 0 then (-1, console)
      else (nbytes, console.putAll page ((List.range nbytes.toNat).map bytes))

/-- `terminal_read` after its wait: the terminal read from is the viewed one. -/
def terminalReadFinish (buf : Memory) (nbytes : Int) (console : Console) :
    Int × Memory × Console :=
  let shell := console.viewed
  let bytesRead := if nbytes < shell.bufIndex then nbytes else shell.bufIndex
  (bytesRead, Memory.blit (kbLoad shell) 0 buf 0 bytesRead.toNat,
    console.modifyViewed fun shell => { shell with bufIndex := 0 })

end Console

namespace Kernel

def enableIrq (irqNum : Nat) (kernel : Kernel) : Kernel :=
  if irqNum < 8 then
    { kernel with masterMask := kernel.masterMask &&& ~~~(1#8 <<< irqNum) }
  else
    { kernel with slaveMask := kernel.slaveMask &&& ~~~(1#8 <<< (irqNum - 8)) }

def disableIrq (irqNum : Nat) (kernel : Kernel) : Kernel :=
  if irqNum < 8 then
    { kernel with masterMask := kernel.masterMask ||| (1#8 <<< irqNum) }
  else
    { kernel with slaveMask := kernel.slaveMask ||| (1#8 <<< (irqNum - 8)) }

def setPrintTerminal (terminal : Fin 3) (kernel : Kernel) : Kernel :=
  { kernel with console := { kernel.console with printTerminal := terminal } }

/-- The body of the keyboard handler for a scan code it does not ignore. -/
def handleScanCode (scanCode : UInt8) (kernel : Kernel) : Kernel :=
  let mapped := (kernel.setPrintTerminal kernel.console.curTerminal)
    |>.setPageTable1Entry videoMemAddr videoMemAddr
  let handled := { mapped with
    console :=
      if scanCode < recentRelease then
        mapped.console.recentReleaseExec mapped.pages.videoPage scanCode
      else mapped.console.afterReleaseExec scanCode }
  let remapped :=
    if handled.curSchedTerm ≠ handled.console.curTerminal then
      handled.setPageTable1Entry videoMemAddr handled.running.videoBuffer
    else handled
  remapped.setPrintTerminal remapped.curSchedTerm

def keyboardInterruptHandler (scanCode : UInt8) (kernel : Kernel) : Kernel :=
  let masked := kernel.disableIrq 1
  let handled :=
    if (capOffset ≤ scanCode ∧ scanCode ≤ upBound) ∨ capOffset + upBound ≤ scanCode then
      masked
    else masked.handleScanCode scanCode
  handled.enableIrq 1

end Kernel

end Ece391Os
