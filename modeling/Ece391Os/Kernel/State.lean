import Ece391Os.Data.Memory
import Ece391Os.Data.X86Paging

namespace Ece391Os

open Data

/-! Sizes and addresses shared by the kernel's files. -/

def maxFdNum : Int := 7

def eightKb : Int := 0x2000

def eightMb : Int := 0x800000

def fourMb : Int := 0x400000

def userProg : Int := 0x8000000

def maxProgs : Nat := 6

def bufLength : Nat := 128

def nameLength : Nat := 32

def pageSize : Int := 4096

def videoMemAddr : Int := 0xB8000

def userVideoMem : Int := 0x4500000

def firstShell : Int := videoMemAddr + pageSize

def secondShell : Int := videoMemAddr + 2 * pageSize

def thirdShell : Int := videoMemAddr + 3 * pageSize

instance threeTerminals : NeZero 3 := ⟨by decide⟩

def u32 (value : Int) : Nat := (value % 4294967296).toNat

def i32 (value : Int) : Int := Int.bmod value 4294967296

/-- A NUL-terminated string: the bytes before its terminator. -/
structure CString where
  bytes : List UInt8
  nonzero : ∀ byte ∈ bytes, byte ≠ 0

namespace CString

def memory (string : CString) : Memory := fun index => string.bytes.getD index 0

def strlen (string : CString) : Nat := string.bytes.length

end CString

/-! The jump tables of `syscalls.c`.  A descriptor that was never opened holds
whatever the stack held, which may be no table at all. -/

inductive JumpTable where
  | rtcTable
  | fileTable
  | dirTable
  | stdinTable
  | stdoutTable
  | wild
  deriving DecidableEq, Repr

structure FileDesc where
  jumpPtr : JumpTable
  inode : Int
  filePosition : Int
  flags : Int
  deriving DecidableEq, Repr

structure Pcb where
  pid : Int
  parentPid : Int
  parentEsp : Int
  parentEbp : Int
  fdt : Int → FileDesc
  args : Memory
  vidmem : Int

structure SchedNode where
  processNum : Int
  videoBuffer : Int
  vidMap : Int
  esp : Int
  ebp : Int
  deriving DecidableEq, Repr

structure Shell where
  vidMem : Int
  x : Int
  y : Int
  kbBuf : Memory
  lineBufferFlag : Int
  bufIndex : Int
  shiftPressed : UInt8
  capsLock : UInt8
  ctrlPressed : UInt8
  altPressed : UInt8

/-- The terminal driver: `terminals`, the viewed and the printing terminal, the
position last sent to the cursor ports, and physical memory below 1 MB. -/
structure Console where
  terminals : Fin 3 → Shell
  curTerminal : Fin 3
  printTerminal : Fin 3
  cursor : Nat
  video : Memory

structure PageTables where
  pageDirectory : Nat → X86.Word
  firstPageTable : Nat → X86.Word
  secondPageTable : Nat → X86.Word

structure Rtc where
  interruptFlags : Fin 3 → Int
  count : Fin 3 → Int
  frequencies : Fin 3 → Int

/-- The kernel's global state.  `pcbAt` holds the process control block stored
at each kernel address and `userMem` physical memory from 8 MB up. -/
structure Kernel where
  processNum : Int
  processArray : Int → Int
  pcbAt : Nat → Pcb
  tssEsp0 : Nat
  programAddrTest : Nat
  schedArr : Fin 3 → SchedNode
  curSchedTerm : Fin 3
  prevSchedTerm : Option (Fin 3)
  pages : PageTables
  console : Console
  rtc : Rtc
  userMem : Memory
  masterMask : BitVec 8
  slaveMask : BitVec 8

/-- What is fixed once the kernel is linked and booted: the file-system image,
the depth of the kernel stack below `tss.esp0` at which system calls run, and
the link addresses of the two page tables. -/
structure Platform where
  image : Memory
  stackDepth : Nat
  stackDepth_pos : 0 < stackDepth
  stackDepth_lt : stackDepth < 4096
  firstTableAddr : X86.Word
  secondTableAddr : X86.Word
  firstTable_aligned : firstTableAddr &&& 0xFFF#32 = 0#32
  secondTable_aligned : secondTableAddr &&& 0xFFF#32 = 0#32
  tables_distinct : firstTableAddr ≠ secondTableAddr

def pcbAddr (pid : Int) : Nat := u32 (eightMb - pid * eightKb)

def stackTop (pid : Int) : Int := eightMb - (pid - 1) * eightKb

def userFrame (pid : Int) : Int := eightMb + (pid - 1) * fourMb

namespace Kernel

def pcb (kernel : Kernel) (pid : Int) : Pcb := kernel.pcbAt (pcbAddr pid)

def parentOf (kernel : Kernel) (pid : Int) : Int := (kernel.pcb pid).parentPid

def running (kernel : Kernel) : SchedNode := kernel.schedArr kernel.curSchedTerm

def modifyPcb (kernel : Kernel) (address : Nat) (change : Pcb → Pcb) : Kernel :=
  { kernel with
    pcbAt := Function.update kernel.pcbAt address (change (kernel.pcbAt address)) }

def modifyRunning (kernel : Kernel) (change : SchedNode → SchedNode) : Kernel :=
  { kernel with
    schedArr := Function.update kernel.schedArr kernel.curSchedTerm
      (change kernel.running) }

end Kernel

namespace Console

def modifyShell (console : Console) (terminal : Fin 3) (change : Shell → Shell) :
    Console :=
  { console with
    terminals := Function.update console.terminals terminal
      (change (console.terminals terminal)) }

def viewed (console : Console) : Shell := console.terminals console.curTerminal

def printing (console : Console) : Shell :=
  console.terminals console.printTerminal

end Console

end Ece391Os
