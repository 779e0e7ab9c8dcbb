import Ece391Os.Kernel.X86Desc
import Mathlib.Data.List.Nodup

namespace Ece391Os

open Data

/-! What the processor reads from the descriptor tables. -/

namespace IdtDesc

variable (desc : IdtDesc)

structure Reads (bits : BitVec 64) : Prop where
  offset15_00 : bits.extractLsb' 0 16 = desc.offset15_00
  segSelector : bits.extractLsb' 16 16 = desc.segSelector
  reserved3 : bits.extractLsb' 40 1 = desc.reserved3
  reserved2 : bits.extractLsb' 41 1 = desc.reserved2
  reserved1 : bits.extractLsb' 42 1 = desc.reserved1
  size : bits.extractLsb' 43 1 = desc.size
  reserved0 : bits.extractLsb' 44 1 = desc.reserved0
  dpl : bits.extractLsb' 45 2 = desc.dpl
  present : bits.extractLsb' 47 1 = desc.present
  offset31_16 : bits.extractLsb' 48 16 = desc.offset31_16

theorem reads_val : desc.Reads desc.val := by
  constructor
  · exact BitField.extract_pack [] _ _ rfl (by decide)
  · exact BitField.extract_pack [_] _ _ rfl (by decide)
  · exact BitField.extract_pack [_, _, _] _ _ rfl (by decide)
  · exact BitField.extract_pack [_, _, _, _] _ _ rfl (by decide)
  · exact BitField.extract_pack [_, _, _, _, _] _ _ rfl (by decide)
  · exact BitField.extract_pack [_, _, _, _, _, _] _ _ rfl (by decide)
  · exact BitField.extract_pack [_, _, _, _, _, _, _] _ _ rfl (by decide)
  · exact BitField.extract_pack [_, _, _, _, _, _, _, _] _ _ rfl (by decide)
  · exact BitField.extract_pack [_, _, _, _, _, _, _, _, _] _ _ rfl (by decide)
  · exact BitField.extract_pack [_, _, _, _, _, _, _, _, _, _] _ [] rfl (by decide)

theorem setIdtEntry_offset (handler : BitVec 32) :
    (desc.setIdtEntry handler).offset31_16 ++ (desc.setIdtEntry handler).offset15_00 =
      handler := by
  have high : (desc.setIdtEntry handler).offset31_16 = handler.extractLsb' 16 16 :=
    BitField.masked_eq 16 handler 0xFFFF0000 (by decide)
  have low : (desc.setIdtEntry handler).offset15_00 = handler.extractLsb' 0 16 :=
    BitField.masked_eq 0 handler 0xFFFF (by decide)
  rw [high, low]
  exact BitVec.extractLsb'_append_extractLsb'

/-- An entry whose type fields are those `initialize_idt` sets is the gate of its
other fields. -/
theorem gate_val (dpl : BitVec 2) (reserved3 : BitVec 1) (handler : BitVec 32) :
    X86.gate ((desc.setGate dpl reserved3).setIdtEntry handler).val =
      some ⟨true, dpl.toNat, reserved3 = 1#1, kernelCs, handler⟩ := by
  obtain ⟨offset15_00, segSelector, trap, second, third, size, system, level, present,
    offset31_16⟩ := reads_val ((desc.setGate dpl reserved3).setIdtEntry handler)
  rw [X86.gate, second, third, size, system, present, level, trap, segSelector, offset31_16,
    offset15_00, setIdtEntry_offset]
  rfl

end IdtDesc

namespace SegDesc

variable (desc : SegDesc)

theorem setParams_base (addr lim : BitVec 32) :
    (desc.setParams addr lim).base31_24 ++ (desc.setParams addr lim).base23_16 ++
      (desc.setParams addr lim).base15_00 = addr := by
  have high : (desc.setParams addr lim).base31_24 = addr.extractLsb' 24 8 :=
    BitField.masked_eq 24 addr 0xFF000000 (by decide)
  have middle : (desc.setParams addr lim).base23_16 = addr.extractLsb' 16 8 :=
    BitField.masked_eq 16 addr 0x00FF0000 (by decide)
  have low : (desc.setParams addr lim).base15_00 = addr.extractLsb' 0 16 :=
    BitField.masked_eq 0 addr 0x0000FFFF (by decide)
  have upper : addr.extractLsb' 24 8 ++ addr.extractLsb' 16 8 = addr.extractLsb' 16 16 :=
    BitVec.extractLsb'_append_extractLsb'_eq_extractLsb' rfl
  rw [high, middle, low, upper]
  exact BitVec.extractLsb'_append_extractLsb'

theorem setParams_limit (addr lim : BitVec 32) :
    ((desc.setParams addr lim).segLim19_16 ++ (desc.setParams addr lim).segLim15_00).toNat =
      lim.toNat % 1048576 := by
  have high : (desc.setParams addr lim).segLim19_16 = lim.extractLsb' 16 4 :=
    BitField.masked_eq 16 lim 0x000F0000 (by decide)
  have low : (desc.setParams addr lim).segLim15_00 = lim.extractLsb' 0 16 :=
    BitField.masked_eq 0 lim 0x0000FFFF (by decide)
  have whole : lim.extractLsb' 16 4 ++ lim.extractLsb' 0 16 = lim.extractLsb' 0 20 :=
    BitVec.extractLsb'_append_extractLsb'_eq_extractLsb' rfl
  rw [high, low, whole, BitVec.extractLsb'_toNat]
  rfl

theorem segment_val (fine : desc.granularity = 0) :
    X86.segment desc.val =
      ⟨desc.present = 1#1, desc.dpl.toNat, desc.sys = 1#1, desc.type,
        desc.base31_24 ++ desc.base23_16 ++ desc.base15_00,
        (desc.segLim19_16 ++ desc.segLim15_00).toNat⟩ := by
  have limit15_00 : desc.val.extractLsb' 0 16 = desc.segLim15_00 :=
    BitField.extract_pack [] _ _ rfl (by decide)
  have base15_00 : desc.val.extractLsb' 16 16 = desc.base15_00 :=
    BitField.extract_pack [_] _ _ rfl (by decide)
  have base23_16 : desc.val.extractLsb' 32 8 = desc.base23_16 :=
    BitField.extract_pack [_, _] _ _ rfl (by decide)
  have type : desc.val.extractLsb' 40 4 = desc.type :=
    BitField.extract_pack [_, _, _] _ _ rfl (by decide)
  have sys : desc.val.extractLsb' 44 1 = desc.sys :=
    BitField.extract_pack [_, _, _, _] _ _ rfl (by decide)
  have dpl : desc.val.extractLsb' 45 2 = desc.dpl :=
    BitField.extract_pack [_, _, _, _, _] _ _ rfl (by decide)
  have present : desc.val.extractLsb' 47 1 = desc.present :=
    BitField.extract_pack [_, _, _, _, _, _] _ _ rfl (by decide)
  have limit19_16 : desc.val.extractLsb' 48 4 = desc.segLim19_16 :=
    BitField.extract_pack [_, _, _, _, _, _, _] _ _ rfl (by decide)
  have granularity : desc.val.extractLsb' 55 1 = desc.granularity :=
    BitField.extract_pack [_, _, _, _, _, _, _, _, _, _, _] _ _ rfl (by decide)
  have base31_24 : desc.val.extractLsb' 56 8 = desc.base31_24 :=
    BitField.extract_pack [_, _, _, _, _, _, _, _, _, _, _, _] _ [] rfl (by decide)
  rw [X86.segment, limit15_00, base15_00, base23_16, type, sys, dpl, present, limit19_16,
    granularity, base31_24, fine]
  rfl

end SegDesc

theorem foldl_place {Entry Value : Type} (place : Entry → Nat)
    (change : Entry → Value → Value) (entries : List Entry) (table : Nat → Value)
    (index : Nat) :
    entries.foldl (fun table entry =>
        Function.update table (place entry) (change entry (table (place entry)))) table index =
      (entries.filter fun entry => place entry = index).foldl
        (fun value entry => change entry value) (table index) := by
  induction entries generalizing table with
  | nil => rfl
  | cons first rest induction =>
      rw [List.foldl_cons, induction]
      by_cases here : place first = index
      · rw [List.filter_cons_of_pos (by simpa using here), List.foldl_cons, ← here,
          Function.update_self]
      · rw [List.filter_cons_of_neg (by simpa using here), Function.update_of_ne (Ne.symm here)]

/-! `initialize_idt`. -/

/-- The number by which the processor raises an exception. -/
def ExceptionVector.number : ExceptionVector → Nat
  | .divideError => 0
  | .reserved => 1
  | .nmi => 2
  | .breakpoint => 3
  | .overflow => 4
  | .boundRangeExceeded => 5
  | .invalidOpcode => 6
  | .deviceNot => 7
  | .doubleFault => 8
  | .segmentOverrun => 9
  | .invalidTss => 10
  | .segmentNotPresent => 11
  | .stackSegmentFault => 12
  | .generalProtection => 13
  | .pageFault => 14
  | .mathFault => 16
  | .alignmentCheck => 17
  | .machineCheck => 18
  | .simdFloatingPointException => 19

def exceptionVectors : List ExceptionVector :=
  [.divideError, .reserved, .nmi, .breakpoint, .overflow, .boundRangeExceeded, .invalidOpcode,
    .deviceNot, .doubleFault, .segmentOverrun, .invalidTss, .segmentNotPresent,
    .stackSegmentFault, .generalProtection, .pageFault, .mathFault, .alignmentCheck,
    .machineCheck, .simdFloatingPointException]

def handlerForException (number : Nat) : Handler :=
  match exceptionVectors.find? fun vector => vector.number = number with
  | some vector => .exception vector
  | none => .exceptionFunc

def handlerForIrq : Nat → Handler
  | 0 => .pitLinkage
  | 1 => .keyboardLinkage
  | 8 => .rtcLinkage
  | irq => .irqHandler irq

-- exceptions, then the 16 lines of the interrupt controllers, then the system calls
def handlerFor (vector : Nat) : Handler :=
  if vector < numException then handlerForException vector
  else if vector < 0x30 then handlerForIrq (vector - 0x20)
  else if vector = sysCallIndex then .systemCallHandler
  else .testInterrupt

theorem find_idtEntries {vector : Nat} (beyond : 0x30 ≤ vector) :
    (idtEntries.find? fun entry => entry.1 = vector) = none := by
  have below : ∀ entry ∈ idtEntries, entry.1 < 0x30 := by decide
  apply List.find?_eq_none.mpr
  intro entry member
  have small := below entry member
  rw [decide_eq_true_eq]
  omega

/-- The handlers `initialize_idt` enters are the handlers of their vectors. -/
theorem handlerFor_eq (vector : Nat) :
    handlerFor vector =
      match idtEntries.find? fun entry => entry.1 = vector with
      | some entry => entry.2
      | none =>
          if vector = sysCallIndex then .systemCallHandler
          else if vector < numException then .exceptionFunc
          else .testInterrupt := by
  by_cases listed : vector < 0x30
  · revert vector
    decide
  · rw [find_idtEntries (Nat.not_lt.mp listed), handlerFor, if_neg listed]
    have interrupt : ¬vector < numException := by
      simp only [numException]
      omega
    simp only [if_neg interrupt]

theorem filter_eq_find {Entry : Type} (place : Entry → Nat) (entries : List Entry)
    (distinct : (entries.map place).Nodup) (index : Nat) :
    entries.filter (fun entry => place entry = index) =
      (entries.find? fun entry => place entry = index).toList := by
  induction entries with
  | nil => rfl
  | cons first rest induction =>
      obtain ⟨fresh, distinctRest⟩ := List.nodup_cons.mp distinct
      by_cases here : place first = index
      · rw [List.filter_cons_of_pos (by simpa using here), List.find?_cons_of_pos
          (by simpa using here), Option.toList_some]
        congr 1
        apply List.filter_eq_nil_iff.mpr
        intro other member
        rw [decide_eq_true_eq]
        intro same
        exact fresh (List.mem_map.mpr ⟨other, member, same.trans here.symm⟩)
      · rw [List.filter_cons_of_neg (by simpa using here), List.find?_cons_of_neg
          (by simpa using here), induction distinctRest]

theorem find_of_mem {indices : List Nat} {index : Nat} (listed : index ∈ indices) :
    (indices.find? fun i => i = index) = some index := by
  cases found : indices.find? fun i => i = index with
  | none =>
      have absent := List.find?_eq_none.mp found index listed
      simp at absent
  | some i =>
      have same : i = index := by simpa using List.find?_some found
      rw [same]

theorem foldl_of_mem {Value : Type} (change : Nat → Value → Value) {indices : List Nat}
    (distinct : indices.Nodup) (table : Nat → Value) {index : Nat}
    (listed : index ∈ indices) :
    indices.foldl (fun table i => Function.update table i (change i (table i))) table index =
      change index (table index) := by
  refine (foldl_place (fun i => i) change indices table index).trans ?_
  rw [filter_eq_find (fun i => i) indices (by rwa [List.map_id']), find_of_mem listed]
  rfl

theorem foldl_of_notMem {Value : Type} (change : Nat → Value → Value) {indices : List Nat}
    (table : Nat → Value) {index : Nat} (absent : index ∉ indices) :
    indices.foldl (fun table i => Function.update table i (change i (table i))) table index =
      table index := by
  refine (foldl_place (fun i => i) change indices table index).trans ?_
  have none : indices.filter (fun i => i = index) = [] := by
    apply List.filter_eq_nil_iff.mpr
    intro i member
    rw [decide_eq_true_eq]
    rintro rfl
    exact absent member
  rw [none]
  rfl

/-- The gate of a vector: one the user may call for system calls alone, and one that
keeps interrupts on for exceptions alone. -/
def gateFor (address : Handler → BitVec 32) (vector : Nat) : X86.Gate where
  present := true
  dpl := if vector = sysCallIndex then 3 else 0
  trap := vector < numException
  selector := kernelCs
  offset := address (handlerFor vector)

section Table

variable (address : Handler → BitVec 32) (idt : Nat → IdtDesc) {vector : Nat}

def exceptionGate (desc : IdtDesc) : IdtDesc :=
  (desc.setGate 0 1).setIdtEntry (address .exceptionFunc)

def interruptGate (initCounter : Nat) (desc : IdtDesc) : IdtDesc :=
  if initCounter = sysCallIndex then desc
  else (desc.setGate 0 0).setIdtEntry (address .testInterrupt)

theorem setInterrupt_eq : setInterrupt address = fun table i =>
    Function.update table i (interruptGate address i (table i)) := by
  funext table i
  rw [setInterrupt, interruptGate]
  split
  · exact (Function.update_eq_self i table).symm
  · rfl

theorem setEntries_apply (entries : List (Nat × Handler)) (table : Nat → IdtDesc) :
    entries.foldl (setEntry address) table vector =
      (entries.filter fun entry => entry.1 = vector).foldl
        (fun desc entry => desc.setIdtEntry (address entry.2)) (table vector) :=
  foldl_place Prod.fst (fun entry (desc : IdtDesc) => desc.setIdtEntry (address entry.2))
    entries table vector

def loopedIdt : Nat → IdtDesc :=
  (List.range' numException (numVec - numException)).foldl (setInterrupt address)
    ((List.range numException).foldl (setException address) idt)

def defaultIdt : Nat → IdtDesc :=
  Function.update (loopedIdt address idt) sysCallIndex
    (((loopedIdt address idt sysCallIndex).setGate 3 0).setIdtEntry
      (address .systemCallHandler))

theorem initializeIdt_eq : initializeIdt address idt =
    idtEntries.foldl (setEntry address) (defaultIdt address idt) := rfl

theorem defaultIdt_systemCall : defaultIdt address idt sysCallIndex =
    ((loopedIdt address idt sysCallIndex).setGate 3 0).setIdtEntry
      (address .systemCallHandler) :=
  Function.update_self ..

theorem defaultIdt_exception (below : vector < numException) :
    defaultIdt address idt vector = exceptionGate address (idt vector) := by
  have other : vector ≠ sysCallIndex := by
    simp only [numException, sysCallIndex] at *
    omega
  rw [defaultIdt, Function.update_of_ne other, loopedIdt, setInterrupt_eq,
    foldl_of_notMem (interruptGate address) _ (by rw [List.mem_range'_1]; omega)]
  exact foldl_of_mem (fun _ => exceptionGate address) List.nodup_range idt
    (List.mem_range.mpr below)

theorem defaultIdt_interrupt (lower : numException ≤ vector) (upper : vector < numVec)
    (other : vector ≠ sysCallIndex) :
    defaultIdt address idt vector =
      ((idt vector).setGate 0 0).setIdtEntry (address .testInterrupt) := by
  have listed : vector ∈ List.range' numException (numVec - numException) := by
    rw [List.mem_range'_1]
    simp only [numException, numVec] at *
    omega
  have absent : vector ∉ List.range numException := by
    rw [List.mem_range]
    omega
  have kept : (List.range numException).foldl (setException address) idt vector = idt vector :=
    foldl_of_notMem (fun _ => exceptionGate address) idt absent
  rw [defaultIdt, Function.update_of_ne other, loopedIdt, setInterrupt_eq,
    foldl_of_mem (interruptGate address) List.nodup_range' _ listed, kept, interruptGate,
    if_neg other]

theorem defaultIdt_eq (inside : vector < numVec) :
    ∃ stale dpl trap default, defaultIdt address idt vector =
        (IdtDesc.setGate dpl trap stale).setIdtEntry (address default) ∧
      dpl.toNat = (if vector = sysCallIndex then 3 else 0) ∧
      (trap = 1#1 ↔ vector < numException) ∧
      ((idtEntries.find? fun entry => entry.1 = vector) = none →
        default = handlerFor vector) := by
  by_cases called : vector = sysCallIndex
  · subst called
    refine ⟨_, 3, 0, .systemCallHandler, defaultIdt_systemCall address idt, rfl, by decide, ?_⟩
    intro unlisted
    rw [handlerFor_eq, unlisted]
    rfl
  · by_cases below : vector < numException
    · refine ⟨idt vector, 0, 1, .exceptionFunc, defaultIdt_exception address idt below, ?_, ?_, ?_⟩
      · rw [if_neg called]
        rfl
      · simp [below]
      · intro unlisted
        rw [handlerFor_eq, unlisted]
        simp [called, below]
    · refine ⟨idt vector, 0, 0, .testInterrupt,
        defaultIdt_interrupt address idt (Nat.not_lt.mp below) inside called, ?_, ?_, ?_⟩
      · rw [if_neg called]
        rfl
      · simp [below]
      · intro unlisted
        rw [handlerFor_eq, unlisted]
        simp [called, below]

/-- Every entry is the gate of its vector, whatever the table held. -/
theorem gate_initializeIdt (inside : vector < numVec) :
    X86.gate (initializeIdt address idt vector).val = some (gateFor address vector) := by
  obtain ⟨stale, dpl, trap, default, entry, level, type, unlisted⟩ :=
    defaultIdt_eq address idt inside
  have found : ((IdtDesc.setGate dpl trap stale).setIdtEntry
      (address (handlerFor vector))) = initializeIdt address idt vector := by
    rw [initializeIdt_eq, setEntries_apply, entry,
      filter_eq_find Prod.fst idtEntries (by decide)]
    cases listed : idtEntries.find? fun entry => entry.1 = vector with
    | none =>
        rw [← unlisted listed]
        rfl
    | some handled =>
        rw [handlerFor_eq, listed]
        rfl
  rw [← found, IdtDesc.gate_val, level, gateFor]
  congr 2
  simpa using type

theorem userInterrupt_initializeIdt (inside : vector < numVec) :
    X86.softwareInterrupt (fun index => (initializeIdt address idt index).val) 3 vector =
      if vector = sysCallIndex then
        some ⟨true, 3, false, kernelCs, address .systemCallHandler⟩
      else none := by
  simp only [X86.softwareInterrupt]
  rw [gate_initializeIdt address idt inside]
  by_cases called : vector = sysCallIndex
  · subst called
    rfl
  · rw [if_neg called]
    simp [gateFor, called]

end Table

theorem SegDesc.systemDescs (stale : SegDesc) (addr lim : BitVec 32) :
    X86.segment (SegDesc.tssDesc stale addr lim).val =
        ⟨true, 0, false, 9, addr, lim.toNat % 1048576⟩ ∧
      X86.segment (SegDesc.ldtDesc stale addr lim).val =
        ⟨true, 0, false, 2, addr, lim.toNat % 1048576⟩ := by
  constructor
  · rw [segment_val _ rfl, tssDesc, setParams_base, setParams_limit]
    rfl
  · rw [segment_val _ rfl, ldtDesc, setParams_base, setParams_limit]
    rfl

def selected (tss ldt : SegDesc) (selector : Nat) : Option X86.Segment :=
  ((gdt tss ldt)[selector / 8]?).map X86.segment

def flat (dpl : Nat) (type : BitVec 4) : X86.Segment := ⟨true, dpl, true, type, 0, 0xFFFFFFFF⟩

/-- The processor's view of the tables `entry` loads: flat segments for both levels,
the task segment and the local table where they are linked, and one gate a user
program may call. -/
theorem descriptorTables_decoded (stale : SegDesc × SegDesc) (tss ldt : BitVec 32 × BitVec 32)
    (address : Handler → BitVec 32) (idt : Nat → IdtDesc) :
    (∀ vector < numVec,
      X86.gate (initializeIdt address idt vector).val = some (gateFor address vector) ∧
        ((X86.softwareInterrupt (fun index => (initializeIdt address idt index).val) 3
            vector).isSome = true ↔ vector = sysCallIndex)) ∧
      [0x10, 0x18, 0x23, 0x2B, 0x30, 0x38].map
          (selected (.tssDesc stale.1 tss.1 tss.2) (.ldtDesc stale.2 ldt.1 ldt.2)) =
        [some (flat 0 10), some (flat 0 2), some (flat 3 10), some (flat 3 2),
          some ⟨true, 0, false, 9, tss.1, tss.2.toNat % 1048576⟩,
          some ⟨true, 0, false, 2, ldt.1, ldt.2.toNat % 1048576⟩] := by
  constructor
  · intro vector inside
    refine ⟨gate_initializeIdt address idt inside, ?_⟩
    rw [userInterrupt_initializeIdt address idt inside]
    split
    · rename_i called
      simp [called]
    · rename_i other
      simp [other]
  · have tssSegment := (SegDesc.systemDescs stale.1 tss.1 tss.2).1
    have ldtSegment := (SegDesc.systemDescs stale.2 ldt.1 ldt.2).2
    simp only [List.map_cons, List.map_nil, selected, gdt, List.getElem?_cons_succ,
      List.getElem?_cons_zero, Option.map_some, tssSegment, ldtSegment]
    rfl

end Ece391Os
