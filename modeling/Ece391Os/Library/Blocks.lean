import Ece391Os.Data.Loop
import Ece391Os.Data.Memory
import Mathlib.Data.Nat.Bitwise
import Mathlib.Tactic.Set

namespace Ece391Os

open Data

/-! `memcpy` and `memset` of `lib.c`, instruction by instruction. -/

abbrev Address := BitVec 32

/-- The whole of memory as a processor with flat segments addresses it. -/
abbrev Space := Address → UInt8

structure Work where
  eax : BitVec 32
  esi : Address
  edi : Address
  memory : Space

structure Registers where
  ecx : BitVec 32
  edx : BitVec 32
  work : Work

inductive BlockLabel where
  | top
  | aligned
  | rep
  | bottom
  | done
  deriving DecidableEq, Repr

def byteAt (register : BitVec 32) (index : Nat) : UInt8 :=
  UInt8.ofBitVec ((register >>> (8 * index)).setWidth 8)

def storeDword (memory : Space) (address : Address) (bytes : Nat → UInt8) : Space :=
  Function.update (Function.update (Function.update (Function.update memory
    address (bytes 0)) (address + 1) (bytes 1)) (address + 2) (bytes 2)) (address + 3) (bytes 3)

namespace Work

def loadAl (work : Work) : Work :=
  { work with
    eax := (work.eax &&& 0xFFFFFF00#32) ||| (work.memory work.esi).toBitVec.setWidth 32 }

def storeAl (work : Work) : Work :=
  { work with memory := Function.update work.memory work.edi (byteAt work.eax 0) }

def copyByte (work : Work) : Work :=
  let stored := work.loadAl.storeAl
  { stored with edi := stored.edi + 1, esi := stored.esi + 1 }

def setByte (work : Work) : Work :=
  let stored := work.storeAl
  { stored with edi := stored.edi + 1 }

def movsl (work : Work) : Work :=
  { work with
    memory := storeDword work.memory work.edi fun index =>
      work.memory (work.esi + BitVec.ofNat 32 index)
    edi := work.edi + 4
    esi := work.esi + 4 }

def stosl (work : Work) : Work :=
  { work with
    memory := storeDword work.memory work.edi (byteAt work.eax)
    edi := work.edi + 4 }

end Work

/-- One turn between the labels that the two routines have: bytes up to an aligned
address, then dwords, then the bytes that are left.  The copy of `%ds` to `%es`
changes nothing, and `%edx` is assigned right after it. -/
def blockTurn (byte dword : Work → Work) :
    BlockLabel × Registers → Option (BlockLabel × Registers)
  | (.top, registers) =>
      if registers.ecx = 0 then some (.done, registers)
      else if registers.work.edi &&& 3 = 0 then some (.aligned, registers)
      else some (.top, { registers with work := byte registers.work, ecx := registers.ecx - 1 })
  | (.aligned, registers) =>
      some (.rep, { registers with edx := registers.ecx &&& 3, ecx := registers.ecx >>> 2 })
  | (.rep, registers) =>
      if registers.ecx = 0 then some (.bottom, registers)
      else some (.rep, { registers with work := dword registers.work, ecx := registers.ecx - 1 })
  | (.bottom, registers) =>
      if registers.edx = 0 then some (.done, registers)
      else
        some (.bottom, { registers with work := byte registers.work, edx := registers.edx - 1 })
  | (.done, _) => none

/-- `memcpy`; `eax` and `edx` are what the registers hold before. -/
def memcpy (eax edx : BitVec 32) (dest src : Address) (n : BitVec 32) (memory : Space)
    (fuel : Nat) : Option (Address × Space) :=
  (loop (blockTurn Work.copyByte Work.movsl) fuel
    (.top, ⟨n, edx, ⟨eax, src, dest, memory⟩⟩)).map fun final =>
      (dest, final.2.work.memory)

/-- `memset`; `esi` and `edx` are what the registers hold before. -/
def memset (esi edx : BitVec 32) (s : Address) (c n : BitVec 32) (memory : Space)
    (fuel : Nat) : Option (Address × Space) :=
  let low := c &&& 0xFF
  let eax := low <<< 24 ||| low <<< 16 ||| low <<< 8 ||| low
  (loop (blockTurn Work.setByte Work.stosl) fuel
    (.top, ⟨n, edx, ⟨eax, esi, s, memory⟩⟩)).map fun final =>
      (s, final.2.work.memory)

/-! The plain byte loops. -/

/-- `for (k = 0; k < n; k++) dest[k] = src[k];` -/
def copyBytes (dest src : Address) (memory : Space) : Nat → Space
  | 0 => memory
  | k + 1 =>
      let copied := copyBytes dest src memory k
      Function.update copied (dest + BitVec.ofNat 32 k) (copied (src + BitVec.ofNat 32 k))

def setBytes (s : Address) (byte : UInt8) (memory : Space) : Nat → Space
  | 0 => memory
  | k + 1 => Function.update (setBytes s byte memory k) (s + BitVec.ofNat 32 k) byte

def InBlock (dest : Address) (n : Nat) (address : Address) : Prop :=
  ∃ k < n, address = dest + BitVec.ofNat 32 k

/-! The phases. -/

section Phases

variable {byte dword : Work → Work} {holds : Nat → Work → Prop} {n : Nat}

/-- The moves of a byte and of a dword carry a property of the bytes done so far
from one count to the next. -/
structure Carries (byte dword : Work → Work) (holds : Nat → Work → Prop) (n : Nat) : Prop where
  byte : ∀ k work, k + 1 ≤ n → holds k work → holds (k + 1) (byte work)
  dword : ∀ k work, k + 4 ≤ n → holds k work → holds (k + 4) (dword work)

theorem counts_down {register : BitVec 32} {left : Nat} (small : left + 1 < 2 ^ 32)
    (counts : register = BitVec.ofNat 32 (left + 1)) :
    ¬ register = 0 ∧ register - 1 = BitVec.ofNat 32 left := by
  rw [counts]
  constructor
  · rw [← BitVec.toNat_inj, BitVec.toNat_ofNat, Nat.mod_eq_of_lt small]
    exact Nat.succ_ne_zero left
  · rw [BitVec.ofNat_add]
    exact BitVec.add_sub_cancel ..

theorem Carries.head (carries : Carries byte dword holds n) (small : n < 2 ^ 32)
    (left done : Nat) (registers : Registers) (all : done + left = n)
    (ecx : registers.ecx = BitVec.ofNat 32 left) (here : holds done registers.work) :
    ∃ later : Registers,
      (Steps (blockTurn byte dword) (.top, registers) (.done, later) ∧ holds n later.work) ∨
      ∃ rest done, done + rest = n ∧ later.ecx = BitVec.ofNat 32 rest ∧ holds done later.work ∧
        Steps (blockTurn byte dword) (.top, registers) (.aligned, later) := by
  induction left generalizing done registers with
  | zero =>
      obtain rfl : done = n := all
      exact ⟨registers, .inl ⟨.one (if_pos ecx), here⟩⟩
  | succ left induction =>
      obtain ⟨some, count⟩ := counts_down (by omega) ecx
      by_cases aligned : registers.work.edi &&& 3 = 0
      · exact ⟨registers, .inr ⟨left + 1, done, all, ecx, here,
          .one ((if_neg some).trans (if_pos aligned))⟩⟩
      · have turn : blockTurn byte dword (.top, registers) =
            .some (.top, ⟨registers.ecx - 1, registers.edx, byte registers.work⟩) :=
          (if_neg some).trans (if_neg aligned)
        obtain ⟨later, ⟨steps, final⟩ | ⟨rest, reached, all, ecx, holds, steps⟩⟩ :=
          induction (done + 1) ⟨registers.ecx - 1, registers.edx, byte registers.work⟩ (by omega)
            count (carries.byte done registers.work (by omega) here)
        · exact ⟨later, .inl ⟨(Steps.one turn).trans steps, final⟩⟩
        · exact ⟨later, .inr ⟨rest, reached, all, ecx, holds, (Steps.one turn).trans steps⟩⟩

theorem Carries.body (carries : Carries byte dword holds n) (small : n < 2 ^ 32)
    (left done : Nat) (registers : Registers) (all : done + 4 * left ≤ n)
    (ecx : registers.ecx = BitVec.ofNat 32 left) (here : holds done registers.work) :
    ∃ later : Registers, Steps (blockTurn byte dword) (.rep, registers) (.bottom, later) ∧
      later.edx = registers.edx ∧ holds (done + 4 * left) later.work := by
  induction left generalizing done registers with
  | zero => exact ⟨registers, .one (if_pos ecx), rfl, here⟩
  | succ left induction =>
      obtain ⟨some, count⟩ := counts_down (by omega) ecx
      have turn : blockTurn byte dword (.rep, registers) =
          .some (.rep, ⟨registers.ecx - 1, registers.edx, dword registers.work⟩) :=
        if_neg some
      obtain ⟨later, steps, edx, final⟩ :=
        induction (done + 4) ⟨registers.ecx - 1, registers.edx, dword registers.work⟩ (by omega)
          count (carries.dword done registers.work (by omega) here)
      refine ⟨later, (Steps.one turn).trans steps, edx, ?_⟩
      rw [show done + 4 * (left + 1) = done + 4 + 4 * left by omega]
      exact final

theorem Carries.tail (carries : Carries byte dword holds n) (small : n < 2 ^ 32)
    (left done : Nat) (registers : Registers) (all : done + left = n)
    (edx : registers.edx = BitVec.ofNat 32 left) (here : holds done registers.work) :
    ∃ later : Registers, Steps (blockTurn byte dword) (.bottom, registers) (.done, later) ∧
      holds n later.work := by
  induction left generalizing done registers with
  | zero =>
      obtain rfl : done = n := all
      exact ⟨registers, .one (if_pos edx), here⟩
  | succ left induction =>
      obtain ⟨some, count⟩ := counts_down (by omega) edx
      have turn : blockTurn byte dword (.bottom, registers) =
          .some (.bottom, ⟨registers.ecx, registers.edx - 1, byte registers.work⟩) :=
        if_neg some
      obtain ⟨later, steps, final⟩ :=
        induction (done + 1) ⟨registers.ecx, registers.edx - 1, byte registers.work⟩ (by omega)
          count (carries.byte done registers.work (by omega) here)
      exact ⟨later, (Steps.one turn).trans steps, final⟩

theorem ofNat_split {count : Nat} (small : count < 2 ^ 32) :
    BitVec.ofNat 32 count >>> 2 = BitVec.ofNat 32 (count / 4) ∧
      BitVec.ofNat 32 count &&& 3 = BitVec.ofNat 32 (count % 4) := by
  constructor
  · apply BitVec.eq_of_toNat_eq
    rw [BitVec.toNat_ushiftRight, BitVec.toNat_ofNat, BitVec.toNat_ofNat,
      Nat.mod_eq_of_lt small, Nat.mod_eq_of_lt (by omega), Nat.shiftRight_eq_div_pow]
  · apply BitVec.eq_of_toNat_eq
    have mask : (3 : BitVec 32).toNat = 2 ^ 2 - 1 := rfl
    rw [BitVec.toNat_and, BitVec.toNat_ofNat, BitVec.toNat_ofNat, Nat.mod_eq_of_lt small,
      Nat.mod_eq_of_lt (by omega), mask, Nat.and_two_pow_sub_one_eq_mod]

theorem Carries.ends (carries : Carries byte dword holds n) (small : n < 2 ^ 32)
    (registers : Registers) (ecx : registers.ecx = BitVec.ofNat 32 n)
    (start : holds 0 registers.work) :
    ∃ later : Registers,
      Returns (fun fuel => loop (blockTurn byte dword) fuel (.top, registers)) (.done, later) ∧
      holds n later.work := by
  obtain ⟨middle, ⟨steps, final⟩ | ⟨rest, done, all, ecx, here, steps⟩⟩ :=
    carries.head small n 0 registers (Nat.zero_add n) ecx start
  · exact ⟨middle, steps.returns rfl, final⟩
  · obtain ⟨quarter, residue⟩ := ofNat_split (by omega : rest < 2 ^ 32)
    obtain ⟨later, dwords, edx, here⟩ := carries.body small (rest / 4) done
      ⟨middle.ecx >>> 2, middle.ecx &&& 3, middle.work⟩ (by omega) (by rw [ecx]; exact quarter)
      here
    obtain ⟨last, bytes, final⟩ := carries.tail small (rest % 4) (done + 4 * (rest / 4)) later
      (by omega) (by rw [edx]; simp only [ecx]; exact residue) here
    have turn : Steps (blockTurn byte dword) (.aligned, middle)
        (.rep, ⟨middle.ecx >>> 2, middle.ecx &&& 3, middle.work⟩) := .one rfl
    exact ⟨last, (((steps.trans turn).trans dwords).trans bytes).returns rfl, final⟩

end Phases

/-! The bytes that the moves store. -/

theorem byteAt_loaded (eax : BitVec 32) (byte : UInt8) :
    byteAt ((eax &&& 0xFFFFFF00#32) ||| byte.toBitVec.setWidth 32) 0 = byte := by
  rw [byteAt, ← UInt8.ofBitVec_toBitVec (a := byte)]
  congr 1
  apply BitVec.eq_of_getLsbD_eq
  intro bit inside
  simp [inside]

theorem byteAt_spread (c : BitVec 32) {index : Nat} (inside : index < 4) :
    byteAt ((c &&& 0xFF) <<< 24 ||| (c &&& 0xFF) <<< 16 ||| (c &&& 0xFF) <<< 8 |||
      (c &&& 0xFF)) index = byteAt c 0 := by
  have low : c &&& 0xFF = (c.setWidth 8).setWidth 32 := by
    apply BitVec.eq_of_toNat_eq
    have mask : (0xFF : BitVec 32).toNat = 2 ^ 8 - 1 := rfl
    have bound := c.isLt
    rw [BitVec.toNat_and, mask, Nat.and_two_pow_sub_one_eq_mod, BitVec.toNat_setWidth,
      BitVec.toNat_setWidth]
    omega
  have every : ∀ low : BitVec 8, ∀ index < 4,
      ((low.setWidth 32 <<< 24 ||| low.setWidth 32 <<< 16 ||| low.setWidth 32 <<< 8 |||
        low.setWidth 32 : BitVec 32) >>> (8 * index)).setWidth 8 = low := by
    decide +kernel
  rw [low, byteAt, every _ index inside]
  rfl

structure Apart (dest src : Address) (n : Nat) : Prop where
  destEnd : dest.toNat + n ≤ 2 ^ 32
  srcEnd : src.toNat + n ≤ 2 ^ 32
  disjoint : dest.toNat + n ≤ src.toNat ∨ src.toNat + n ≤ dest.toNat

theorem offset_add (base : Address) (k more : Nat) :
    base + BitVec.ofNat 32 k + BitVec.ofNat 32 more = base + BitVec.ofNat 32 (k + more) := by
  rw [BitVec.ofNat_add, BitVec.add_assoc]

theorem offset_toNat {base : Address} {k n : Nat} (within : base.toNat + n ≤ 2 ^ 32)
    (inside : k < n) : (base + BitVec.ofNat 32 k).toNat = base.toNat + k := by
  rw [BitVec.toNat_add, BitVec.toNat_ofNat, Nat.mod_eq_of_lt (by omega : k < 2 ^ 32)]
  exact Nat.mod_eq_of_lt (by omega)

theorem Apart.ne {dest src : Address} {n : Nat} (apart : Apart dest src n) {i j : Nat}
    (source : i < n) (target : j < n) :
    src + BitVec.ofNat 32 i ≠ dest + BitVec.ofNat 32 j := by
  intro same
  have equal := congrArg BitVec.toNat same
  rw [offset_toNat apart.srcEnd source, offset_toNat apart.destEnd target] at equal
  have disjoint := apart.disjoint
  omega

theorem Apart.source {dest src : Address} {n : Nat} (apart : Apart dest src n)
    (memory : Space) {k i : Nat} (done : k ≤ n) (inside : i < n) :
    copyBytes dest src memory k (src + BitVec.ofNat 32 i) =
      memory (src + BitVec.ofNat 32 i) := by
  induction k with
  | zero => rfl
  | succ k induction =>
      simp only [copyBytes]
      rw [Function.update_of_ne (apart.ne inside (by omega))]
      exact induction (by omega)

/-! Loops that store one byte after another. -/

def StoresFrom (dest : Address) (byte : Nat → UInt8) (stored : Nat → Space) : Prop :=
  ∀ k, stored (k + 1) = Function.update (stored k) (dest + BitVec.ofNat 32 k) (byte k)

section StoresFrom

variable {dest address : Address} {byte : Nat → UInt8} {stored : Nat → Space}

theorem copyBytes_storesFrom (dest src : Address) (memory : Space) :
    StoresFrom dest (fun k => copyBytes dest src memory k (src + BitVec.ofNat 32 k))
      (copyBytes dest src memory) :=
  fun _ => rfl

theorem setBytes_storesFrom (s : Address) (byte : UInt8) (memory : Space) :
    StoresFrom s (fun _ => byte) (setBytes s byte memory) :=
  fun _ => rfl

theorem StoresFrom.outside (stores : StoresFrom dest byte stored) {n : Nat}
    (outside : ¬ InBlock dest n address) : stored n address = stored 0 address := by
  induction n with
  | zero => rfl
  | succ n induction =>
      rw [stores, Function.update_of_ne fun same => outside ⟨n, Nat.lt_succ_self n, same⟩]
      exact induction fun ⟨k, below, same⟩ => outside ⟨k, Nat.lt_succ_of_lt below, same⟩

theorem StoresFrom.dword (stores : StoresFrom dest byte stored) {k : Nat} {bytes : Nat → UInt8}
    (same : ∀ index < 4, bytes index = byte (k + index)) :
    storeDword (stored k) (dest + BitVec.ofNat 32 k) bytes = stored (k + 4) := by
  rw [storeDword, same 0 (by decide), same 1 (by decide), same 2 (by decide), same 3 (by decide),
    stores (k + 3), stores (k + 2), stores (k + 1), stores k, ← offset_add dest k 1,
    ← offset_add dest k 2, ← offset_add dest k 3]
  rfl

end StoresFrom

theorem copyBytes_outside {dest src address : Address} {n : Nat} (memory : Space)
    (outside : ¬ InBlock dest n address) :
    copyBytes dest src memory n address = memory address :=
  (copyBytes_storesFrom dest src memory).outside outside

theorem setBytes_outside {s address : Address} {byte : UInt8} {n : Nat} (memory : Space)
    (outside : ¬ InBlock s n address) : setBytes s byte memory n address = memory address :=
  (setBytes_storesFrom s byte memory).outside outside

theorem copyBytes_inside {dest src : Address} {n k : Nat} (apart : Apart dest src n)
    (memory : Space) (inside : k < n) :
    copyBytes dest src memory n (dest + BitVec.ofNat 32 k) = memory (src + BitVec.ofNat 32 k) := by
  have stored (more : Nat) (within : k + more < n) :
      copyBytes dest src memory (k + more + 1) (dest + BitVec.ofNat 32 k) =
        memory (src + BitVec.ofNat 32 k) := by
    induction more with
    | zero =>
        rw [Nat.add_zero, copyBytes, Function.update_self]
        exact apart.source memory (by omega) inside
    | succ more induction =>
        have different : dest + BitVec.ofNat 32 k ≠ dest + BitVec.ofNat 32 (k + (more + 1)) := by
          intro same
          have equal := congrArg BitVec.toNat same
          rw [offset_toNat apart.destEnd inside, offset_toNat apart.destEnd within] at equal
          omega
        rw [copyBytes, Function.update_of_ne different]
        exact induction (by omega)
  have whole := stored (n - k - 1) (by omega)
  rwa [show k + (n - k - 1) + 1 = n by omega] at whole

def Space.flat (memory : Space) : Memory := fun address => memory (BitVec.ofNat 32 address)

theorem copyBytes_blit {dest src : Address} {n : Nat} (apart : Apart dest src n)
    (memory : Space) (address : Address) :
    copyBytes dest src memory n address =
      Memory.blit memory.flat src.toNat memory.flat dest.toNat n address.toNat := by
  by_cases inside : dest.toNat ≤ address.toNat ∧ address.toNat < dest.toNat + n
  · obtain ⟨k, below, rfl⟩ : ∃ k < n, address = dest + BitVec.ofNat 32 k := by
      refine ⟨address.toNat - dest.toNat, by omega, BitVec.eq_of_toNat_eq ?_⟩
      rw [offset_toNat apart.destEnd (by omega)]
      omega
    rw [copyBytes_inside apart memory below, Memory.blit_inside inside.1 inside.2,
      offset_toNat apart.destEnd below, Nat.add_sub_cancel_left, Space.flat]
    congr 1
    apply BitVec.eq_of_toNat_eq
    have within := apart.srcEnd
    rw [offset_toNat apart.srcEnd below, BitVec.toNat_ofNat, Nat.mod_eq_of_lt (by omega)]
  · have outside : ¬ InBlock dest n address := by
      rintro ⟨k, below, rfl⟩
      rw [offset_toNat apart.destEnd below] at inside
      omega
    rw [copyBytes_outside memory outside, Memory.blit_outside inside, Space.flat,
      BitVec.ofNat_toNat, BitVec.setWidth_eq]

structure Copied (dest src : Address) (memory : Space) (k : Nat) (work : Work) : Prop where
  edi : work.edi = dest + BitVec.ofNat 32 k
  esi : work.esi = src + BitVec.ofNat 32 k
  memory : work.memory = copyBytes dest src memory k

theorem Copied.byte {dest src : Address} {memory : Space} {k : Nat} {work : Work}
    (copied : Copied dest src memory k work) : Copied dest src memory (k + 1) work.copyByte := by
  refine ⟨?_, ?_, ?_⟩
  · simp only [Work.copyByte, Work.storeAl, Work.loadAl, copied.edi]
    exact offset_add dest k 1
  · simp only [Work.copyByte, Work.storeAl, Work.loadAl, copied.esi]
    exact offset_add src k 1
  · simp only [Work.copyByte, Work.storeAl, Work.loadAl, byteAt_loaded, copied.edi, copied.esi,
      copied.memory, copyBytes]

theorem Copied.dword {dest src : Address} {memory : Space} {k n : Nat} {work : Work}
    (apart : Apart dest src n) (room : k + 4 ≤ n) (copied : Copied dest src memory k work) :
    Copied dest src memory (k + 4) work.movsl := by
  refine ⟨?_, ?_, ?_⟩
  · simp only [Work.movsl, copied.edi]
    exact offset_add dest k 4
  · simp only [Work.movsl, copied.esi]
    exact offset_add src k 4
  · have loaded (i : Nat) (inside : i < 4) :
        work.memory (work.esi + BitVec.ofNat 32 i) = memory (src + BitVec.ofNat 32 (k + i)) := by
      rw [copied.memory, copied.esi, offset_add]
      exact apart.source memory (by omega) (by omega)
    have stored : work.movsl.memory = storeDword (copyBytes dest src memory k)
        (dest + BitVec.ofNat 32 k) fun i => work.memory (work.esi + BitVec.ofNat 32 i) := by
      rw [← copied.memory, ← copied.edi]
      rfl
    rw [stored]
    refine (copyBytes_storesFrom dest src memory).dword fun index inside => ?_
    rw [loaded index inside]
    exact (apart.source memory (by omega) (by omega)).symm

structure Filled (s : Address) (value : BitVec 32) (memory : Space) (k : Nat) (work : Work) :
    Prop where
  edi : work.edi = s + BitVec.ofNat 32 k
  eax : work.eax = value
  memory : work.memory = setBytes s (byteAt value 0) memory k

theorem Filled.byte {s : Address} {value : BitVec 32} {memory : Space} {k : Nat} {work : Work}
    (filled : Filled s value memory k work) : Filled s value memory (k + 1) work.setByte := by
  refine ⟨?_, filled.eax, ?_⟩
  · simp only [Work.setByte, Work.storeAl, filled.edi]
    exact offset_add s k 1
  · simp only [Work.setByte, Work.storeAl, filled.edi, filled.eax, filled.memory, setBytes]

theorem Filled.dword {s : Address} {value : BitVec 32} {memory : Space} {k : Nat} {work : Work}
    (spread : ∀ index < 4, byteAt value index = byteAt value 0)
    (filled : Filled s value memory k work) : Filled s value memory (k + 4) work.stosl := by
  refine ⟨?_, filled.eax, ?_⟩
  · simp only [Work.stosl, filled.edi]
    exact offset_add s k 4
  · have stored : work.stosl.memory = storeDword (setBytes s (byteAt value 0) memory k)
        (s + BitVec.ofNat 32 k) (byteAt value) := by
      rw [← filled.memory, ← filled.edi, ← filled.eax]
      rfl
    rw [stored]
    exact (setBytes_storesFrom s (byteAt value 0) memory).dword spread

theorem memcpy_returns (eax edx : BitVec 32) {dest src : Address} {n : BitVec 32}
    (memory : Space) (apart : Apart dest src n.toNat) :
    Returns (memcpy eax edx dest src n memory) (dest, copyBytes dest src memory n.toNat) := by
  have carries : Carries Work.copyByte Work.movsl (Copied dest src memory) n.toNat :=
    ⟨fun _ _ _ copied => copied.byte, fun _ _ room copied => copied.dword apart room⟩
  obtain ⟨later, ends, final⟩ := carries.ends n.isLt ⟨n, edx, ⟨eax, src, dest, memory⟩⟩
    (by simp) ⟨(BitVec.add_zero dest).symm, (BitVec.add_zero src).symm, rfl⟩
  rw [← final.memory]
  exact ends.map fun final => (dest, final.2.work.memory)

theorem memset_returns (esi edx : BitVec 32) (s : Address) (c n : BitVec 32) (memory : Space) :
    Returns (memset esi edx s c n memory) (s, setBytes s (byteAt c 0) memory n.toNat) := by
  set low := c &&& 0xFF with lowDef
  set eax := low <<< 24 ||| low <<< 16 ||| low <<< 8 ||| low with eaxDef
  have spread (index : Nat) (inside : index < 4) : byteAt eax index = byteAt c 0 := by
    rw [eaxDef, lowDef]
    exact byteAt_spread c inside
  have first := spread 0 (by decide)
  have carries : Carries Work.setByte Work.stosl (Filled s eax memory) n.toNat := by
    refine ⟨fun _ _ _ filled => filled.byte, fun _ _ _ filled => filled.dword ?_⟩
    intro index inside
    rw [spread index inside, first]
  obtain ⟨later, ends, final⟩ := carries.ends n.isLt ⟨n, edx, ⟨eax, esi, s, memory⟩⟩ (by simp)
    ⟨(BitVec.add_zero s).symm, rfl, rfl⟩
  rw [← first, ← final.memory]
  exact ends.map fun final => (s, final.2.work.memory)

/-- The routines do what the plain byte loops do, at every alignment and for every
count, and change no byte outside the block. -/
theorem blocks_plain (memory : Space) (dest : Address) (n : BitVec 32) :
    (∀ src eax edx, Apart dest src n.toNat →
      Returns (memcpy eax edx dest src n memory) (dest, copyBytes dest src memory n.toNat)) ∧
    (∀ c esi edx,
      Returns (memset esi edx dest c n memory) (dest, setBytes dest (byteAt c 0) memory n.toNat)) ∧
    ∀ address, ¬ InBlock dest n.toNat address →
      (∀ src, copyBytes dest src memory n.toNat address = memory address) ∧
        ∀ byte, setBytes dest byte memory n.toNat address = memory address := by
  refine ⟨?_, ?_, ?_⟩
  · intro src eax edx apart
    exact memcpy_returns eax edx memory apart
  · intro c esi edx
    exact memset_returns esi edx dest c n memory
  · intro address outside
    exact ⟨fun src => copyBytes_outside memory outside,
      fun byte => setBytes_outside memory outside⟩

theorem blocks_sample :
    Returns (memcpy 0 0 0x1003#32 0x2001#32 7#32 fun _ => 0)
      (0x1003#32, copyBytes 0x1003#32 0x2001#32 (fun _ => 0) 7) := by
  apply (blocks_plain (fun _ => 0) 0x1003#32 7#32).1
  exact ⟨by decide, by decide, by decide⟩

end Ece391Os
