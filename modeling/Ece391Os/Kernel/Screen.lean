import Ece391Os.Kernel.State

namespace Ece391Os

open Data

/-! The screen functions of `lib.c`.  All of them write through the virtual page
`0xB8000`; `page` is the physical page it is mapped to. -/

def numCols : Int := 80

def numRows : Int := 25

def attrib : UInt8 := 0x7

def space : UInt8 := 32

/-- The translation of a video address: the video page goes to `page`, the
three buffer pages to themselves, and the pages around them are absent. -/
def videoPhysical (page : Nat) (linear : Int) : Option Nat :=
  if linear / 4096 = 0xB8 then some (page + (linear % 4096).toNat)
  else if 0xB9 ≤ linear / 4096 ∧ linear / 4096 ≤ 0xBB then some linear.toNat
  else none

def videoLoad (page : Nat) (linear : Int) (video : Memory) : UInt8 :=
  match videoPhysical page linear with
  | some address => video address
  | none => 0

/-- A store to an absent page faults and changes no memory. -/
def videoStore (page : Nat) (linear : Int) (byte : UInt8) (video : Memory) :
    Memory :=
  match videoPhysical page linear with
  | some address => Function.update video address byte
  | none => video

def cellAddr (index : Int) : Int := videoMemAddr + 2 * index

def storeCell (page : Nat) (index : Int) (character : UInt8) (video : Memory) :
    Memory :=
  videoStore page (cellAddr index + 1) attrib
    (videoStore page (cellAddr index) character video)

def clear (page : Nat) (video : Memory) : Memory :=
  (List.range 2000).foldl
    (fun video (i : Nat) => storeCell page i space video) video

def scrollUp (page : Nat) (video : Memory) : Memory :=
  let moved := (List.range 1920).foldl
    (fun video (i : Nat) =>
      storeCell page i (videoLoad page (cellAddr (i + numCols)) video) video)
    video
  (List.range 80).foldl
    (fun video (i : Nat) => storeCell page (1920 + i) space video) moved

def copyPage (page : Nat) (dest src : Int) (video : Memory) : Memory :=
  (List.range 4096).foldl
    (fun video (i : Nat) =>
      videoStore page (dest + i) (videoLoad page (src + i) video) video)
    video

namespace Console

def moveCursor (screenX screenY : Int) (console : Console) : Console :=
  { console with cursor := ((screenY * numCols + screenX) % 65536).toNat }

def showCursor (console : Console) : Console :=
  console.moveCursor console.viewed.x console.viewed.y

def newLine (page : Nat) (console : Console) : Console :=
  if console.printing.y = numRows - 1 then
    ({ console with video := scrollUp page console.video }.modifyShell
      console.printTerminal fun shell => { shell with x := 0 }).showCursor
  else
    (console.modifyShell console.printTerminal fun shell =>
      { shell with y := shell.y + 1, x := 0 }).showCursor

def putc (page : Nat) (character : UInt8) (console : Console) : Console :=
  if character = 10 ∨ character = 13 then
    (console.newLine page).showCursor
  else
    let shell := console.printing
    let written := { console with
      video := storeCell page (numCols * shell.y + shell.x) character console.video }
    let advanced := written.modifyShell console.printTerminal fun shell =>
      { shell with x := shell.x + 1 }
    let wrapped := if advanced.printing.x = numCols then advanced.newLine page
      else advanced
    (wrapped.modifyShell console.printTerminal fun shell =>
      { shell with y := (shell.y + shell.x.tdiv numCols).tmod numRows }).showCursor

/-- Print bytes in order, as `puts` and the loop of `terminal_write` do. -/
def putAll (page : Nat) (bytes : List UInt8) (console : Console) : Console :=
  bytes.foldl (fun console character => console.putc page character) console

def clearScreen (page : Nat) (console : Console) : Console :=
  { console with video := clear page console.video }

def resetScreen (console : Console) : Console :=
  (console.modifyShell console.curTerminal fun shell =>
    { shell with y := 0, x := 0 }).showCursor

def backSpace (page : Nat) (console : Console) : Console :=
  let moved := console.modifyShell console.curTerminal fun shell =>
    if shell.x - 1 < 0 then { shell with x := numCols - 1, y := shell.y - 1 }
    else { shell with x := shell.x - 1 }
  { moved with
    video := videoStore page
      (cellAddr (numCols * moved.viewed.y + moved.viewed.x)) space
      moved.video }.showCursor

def terminalOf (shellNum : Int) : Option (Fin 3) :=
  if shellNum = 0 then some 0
  else if shellNum = 1 then some 1
  else if shellNum = 2 then some 2
  else none

def changeShell (page : Nat) (next : Int) (console : Console) : Console :=
  match terminalOf next with
  | none => console
  | some terminal =>
      let saved := { console with
        video := copyPage page console.viewed.vidMem videoMemAddr console.video }
      let switched := { saved with curTerminal := terminal }
      { switched with
        video := copyPage page videoMemAddr switched.viewed.vidMem
          switched.video }.showCursor

/-- `init_shell`; the line buffers keep their contents. -/
def initShell (console : Console) : Console :=
  { console with
    terminals := fun terminal =>
      { x := 0
        y := 0
        vidMem := videoMemAddr + (terminal.val + 1) * pageSize
        kbBuf := (console.terminals terminal).kbBuf
        lineBufferFlag := 0
        bufIndex := 0
        shiftPressed := 0
        capsLock := 0
        ctrlPressed := 0
        altPressed := 0 } }

end Console

end Ece391Os
