import Ece391Os.Kernel.State

namespace Ece391Os

open Data

/-! `paging.c`.  `virtual >> PD_OFFSET` and `virtual >> PT_OFFSET` are arithmetic
shifts of a signed address. -/

def rwNotPresent : X86.Word := 0x02#32

def rwPresent : X86.Word := 0x03#32

def userMode : X86.Word := 0x07#32

def kernelAddr : Int := 0x400000

def directorySlot (virtual : Int) : Nat := (virtual >>> (22 : Nat)).toNat

def tableSlot (virtual : Int) : Nat := ((virtual >>> (12 : Nat)) % 1024).toNat

namespace PageTables

def setPageDirEntry (virtual physical : Int) (pages : PageTables) : PageTables :=
  { pages with
    pageDirectory := Function.update pages.pageDirectory (directorySlot virtual)
      (BitVec.ofInt 32 physical ||| 0x087#32) }

def setPageTable1Entry (virtual physical : Int) (pages : PageTables) : PageTables :=
  { pages with
    firstPageTable := Function.update pages.firstPageTable (tableSlot virtual)
      (BitVec.ofInt 32 physical ||| userMode) }

def setPageTable2Entry (virtual physical : Int) (pages : PageTables) : PageTables :=
  { pages with
    secondPageTable := Function.update pages.secondPageTable (tableSlot virtual)
      (BitVec.ofInt 32 physical ||| userMode) }

def initPageDirectory (platform : Platform) (pages : PageTables) : PageTables :=
  let cleared : Nat → X86.Word := fun _ => rwNotPresent
  let first := Function.update cleared 0 (platform.firstTableAddr ||| rwPresent)
  let kernel := Function.update first (directorySlot kernelAddr)
    (BitVec.ofInt 32 kernelAddr ||| 0x083#32)
  { pages with
    pageDirectory := Function.update kernel (directorySlot userVideoMem)
      (platform.secondTableAddr ||| userMode) }

def absentEntry (index : Nat) : X86.Word :=
  BitVec.ofNat 32 (index * 4096) ||| rwNotPresent

def enableEntry (virtual : Int) (table : Nat → X86.Word) : Nat → X86.Word :=
  Function.update table (virtual >>> (12 : Nat)).toNat
    (table (virtual >>> (12 : Nat)).toNat ||| rwPresent)

def initPageTable (pages : PageTables) : PageTables :=
  { pages with
    firstPageTable :=
      enableEntry thirdShell (enableEntry secondShell
        (enableEntry firstShell (enableEntry videoMemAddr absentEntry)))
    secondPageTable := absentEntry }

def initPaging (platform : Platform) (pages : PageTables) : PageTables :=
  (pages.initPageDirectory platform).initPageTable

/-- The page table the hardware finds at a physical address. -/
def tableAt (platform : Platform) (pages : PageTables) (base : X86.Word) :
    Nat → X86.Word :=
  if base = platform.firstTableAddr then pages.firstPageTable
  else if base = platform.secondTableAddr then pages.secondPageTable
  else fun _ => 0#32

def translate (platform : Platform) (pages : PageTables) (linear : X86.Word) :
    Option X86.Translation :=
  X86.walk pages.pageDirectory (pages.tableAt platform) linear

/-- The physical page behind the kernel's video page at `0xB8000`. -/
def videoPage (pages : PageTables) : Nat :=
  (pages.firstPageTable (tableSlot videoMemAddr) &&& 0xFFFFF000#32).toNat

end PageTables

namespace Kernel

def setPageDirEntry (virtual physical : Int) (kernel : Kernel) : Kernel :=
  { kernel with pages := kernel.pages.setPageDirEntry virtual physical }

def setPageTable1Entry (virtual physical : Int) (kernel : Kernel) : Kernel :=
  { kernel with pages := kernel.pages.setPageTable1Entry virtual physical }

def setPageTable2Entry (virtual physical : Int) (kernel : Kernel) : Kernel :=
  { kernel with pages := kernel.pages.setPageTable2Entry virtual physical }

end Kernel

end Ece391Os
