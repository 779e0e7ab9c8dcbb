import Ece391Os.Data.BitFields
import Ece391Os.Data.X86Gates
import Ece391Os.Kernel.Syscalls

namespace Ece391Os

open Data

/-! The descriptors of `x86_desc.h` and `x86_desc.S`, and `initialize_idt` of
`idt_init.c`. -/

def kernelCs : BitVec 16 := 0x0010

def numVec : Nat := 256

def numException : Nat := 32

def sysCallIndex : Nat := 0x80

structure SegDesc where
  segLim15_00 : BitVec 16
  base15_00 : BitVec 16
  base23_16 : BitVec 8
  type : BitVec 4
  sys : BitVec 1
  dpl : BitVec 2
  present : BitVec 1
  segLim19_16 : BitVec 4
  avail : BitVec 1
  reserved : BitVec 1
  opsize : BitVec 1
  granularity : BitVec 1
  base31_24 : BitVec 8

namespace SegDesc

def val (desc : SegDesc) : BitVec 64 :=
  BitField.pack 64
    [⟨16, desc.segLim15_00⟩, ⟨16, desc.base15_00⟩, ⟨8, desc.base23_16⟩, ⟨4, desc.type⟩,
      ⟨1, desc.sys⟩, ⟨2, desc.dpl⟩, ⟨1, desc.present⟩, ⟨4, desc.segLim19_16⟩,
      ⟨1, desc.avail⟩, ⟨1, desc.reserved⟩, ⟨1, desc.opsize⟩, ⟨1, desc.granularity⟩,
      ⟨8, desc.base31_24⟩]

/-- `SET_LDT_PARAMS` and `SET_TSS_PARAMS`. -/
def setParams (addr lim : BitVec 32) (desc : SegDesc) : SegDesc :=
  { desc with
    base31_24 := ((addr &&& 0xFF000000) >>> 24).setWidth 8
    base23_16 := ((addr &&& 0x00FF0000) >>> 16).setWidth 8
    base15_00 := (addr &&& 0x0000FFFF).setWidth 16
    segLim19_16 := ((lim &&& 0x000F0000) >>> 16).setWidth 4
    segLim15_00 := (lim &&& 0x0000FFFF).setWidth 16 }

/-- `the_ldt_desc` of `entry`, over what the stack held. -/
def ldtDesc (stale : SegDesc) (addr lim : BitVec 32) : SegDesc :=
  { stale with
    granularity := 0
    opsize := 1
    reserved := 0
    avail := 0
    present := 1
    dpl := 0
    sys := 0
    type := 2 }.setParams addr lim

def tssDesc (stale : SegDesc) (addr lim : BitVec 32) : SegDesc :=
  { stale with
    granularity := 0
    opsize := 0
    reserved := 0
    avail := 0
    present := 1
    dpl := 0
    sys := 0
    type := 9 }.setParams addr lim

end SegDesc

/-- The table of `x86_desc.S`, indexed as selectors do, with the two entries `entry`
fills in. -/
def gdt (tss ldt : SegDesc) : List (BitVec 64) :=
  [0, 0, 0x00CF9A000000FFFF, 0x00CF92000000FFFF, 0x00CFFA000000FFFF, 0x00CFF2000000FFFF,
    tss.val, ldt.val]

inductive Handler where
  | exceptionFunc
  | exception (vector : ExceptionVector)
  | testInterrupt
  | systemCallHandler
  | pitLinkage
  | keyboardLinkage
  | rtcLinkage
  | irqHandler (irq : Nat)
  deriving DecidableEq, Repr

structure IdtDesc where
  offset15_00 : BitVec 16
  segSelector : BitVec 16
  reserved4 : BitVec 8
  reserved3 : BitVec 1
  reserved2 : BitVec 1
  reserved1 : BitVec 1
  size : BitVec 1
  reserved0 : BitVec 1
  dpl : BitVec 2
  present : BitVec 1
  offset31_16 : BitVec 16

namespace IdtDesc

def val (desc : IdtDesc) : BitVec 64 :=
  BitField.pack 64
    [⟨16, desc.offset15_00⟩, ⟨16, desc.segSelector⟩, ⟨8, desc.reserved4⟩,
      ⟨1, desc.reserved3⟩, ⟨1, desc.reserved2⟩, ⟨1, desc.reserved1⟩, ⟨1, desc.size⟩,
      ⟨1, desc.reserved0⟩, ⟨2, desc.dpl⟩, ⟨1, desc.present⟩, ⟨16, desc.offset31_16⟩]

def setIdtEntry (handler : BitVec 32) (desc : IdtDesc) : IdtDesc :=
  { desc with
    offset31_16 := ((handler &&& 0xFFFF0000) >>> 16).setWidth 16
    offset15_00 := (handler &&& 0xFFFF).setWidth 16 }

def setGate (dpl : BitVec 2) (reserved3 : BitVec 1) (desc : IdtDesc) : IdtDesc :=
  { desc with
    present := 1
    dpl := dpl
    reserved0 := 0
    size := 1
    reserved1 := 1
    reserved2 := 1
    reserved3 := reserved3
    reserved4 := 0
    segSelector := kernelCs }

end IdtDesc

/-- The calls of `SET_IDT_ENTRY` after the loops. -/
def idtEntries : List (Nat × Handler) :=
  [(0, .exception .divideError), (1, .exception .reserved), (2, .exception .nmi),
    (3, .exception .breakpoint), (4, .exception .overflow),
    (5, .exception .boundRangeExceeded), (6, .exception .invalidOpcode),
    (7, .exception .deviceNot), (8, .exception .doubleFault),
    (9, .exception .segmentOverrun), (10, .exception .invalidTss),
    (11, .exception .segmentNotPresent), (12, .exception .stackSegmentFault),
    (13, .exception .generalProtection), (14, .exception .pageFault),
    (16, .exception .mathFault), (17, .exception .alignmentCheck),
    (18, .exception .machineCheck), (19, .exception .simdFloatingPointException),
    (0x28, .rtcLinkage), (0x21, .keyboardLinkage), (0x20, .pitLinkage),
    (0x22, .irqHandler 2), (0x23, .irqHandler 3), (0x24, .irqHandler 4),
    (0x25, .irqHandler 5), (0x26, .irqHandler 6), (0x27, .irqHandler 7),
    (0x29, .irqHandler 9), (0x2A, .irqHandler 10), (0x2B, .irqHandler 11),
    (0x2C, .irqHandler 12), (0x2D, .irqHandler 13), (0x2E, .irqHandler 14),
    (0x2F, .irqHandler 15)]

section Initialize

variable (address : Handler → BitVec 32)

def setException (idt : Nat → IdtDesc) (initCounter : Nat) : Nat → IdtDesc :=
  Function.update idt initCounter
    (((idt initCounter).setGate 0 1).setIdtEntry (address .exceptionFunc))

def setInterrupt (idt : Nat → IdtDesc) (initCounter : Nat) : Nat → IdtDesc :=
  if initCounter = sysCallIndex then idt
  else
    Function.update idt initCounter
      (((idt initCounter).setGate 0 0).setIdtEntry (address .testInterrupt))

def setEntry (idt : Nat → IdtDesc) (entry : Nat × Handler) : Nat → IdtDesc :=
  Function.update idt entry.1 ((idt entry.1).setIdtEntry (address entry.2))

/-- `initialize_idt`, over whatever the table held. -/
def initializeIdt (idt : Nat → IdtDesc) : Nat → IdtDesc :=
  let exceptions := (List.range numException).foldl (setException address) idt
  let interrupts := (List.range' numException (numVec - numException)).foldl
    (setInterrupt address) exceptions
  let systemCall := Function.update interrupts sysCallIndex
    (((interrupts sysCallIndex).setGate 3 0).setIdtEntry (address .systemCallHandler))
  idtEntries.foldl (setEntry address) systemCall

end Initialize

end Ece391Os
