import Mathlib.Data.Nat.Bitwise

namespace Ece391Os.Data.X86

/-! The two-level address translation of 32-bit x86 with 4 kB and 4 MB pages. -/

abbrev Word := BitVec 32

def present (entry : Word) : Bool := entry.getLsbD 0

def writable (entry : Word) : Bool := entry.getLsbD 1

def userAccess (entry : Word) : Bool := entry.getLsbD 2

def largePage (entry : Word) : Bool := entry.getLsbD 7

def directoryIndex (linear : Word) : Nat := (linear >>> 22).toNat

def tableIndex (linear : Word) : Nat := ((linear >>> 12) &&& 0x3FF#32).toNat

structure Translation where
  physical : Word
  user : Bool
  write : Bool
  deriving DecidableEq

def largeTranslation (entry linear : Word) : Translation where
  physical := (entry &&& 0xFFC00000#32) ||| (linear &&& 0x3FFFFF#32)
  user := userAccess entry
  write := writable entry

def smallTranslation (entry page linear : Word) : Translation where
  physical := (page &&& 0xFFFFF000#32) ||| (linear &&& 0xFFF#32)
  user := userAccess entry && userAccess page
  write := writable entry && writable page

/-- Translate a linear address.  `tableAt base` is the page table stored at the
physical address `base`; `none` is a page fault. -/
def walk (directory : Nat → Word) (tableAt : Word → Nat → Word)
    (linear : Word) : Option Translation :=
  let entry := directory (directoryIndex linear)
  if present entry then
    if largePage entry then
      some (largeTranslation entry linear)
    else
      let page := tableAt (entry &&& 0xFFFFF000#32) (tableIndex linear)
      if present page then some (smallTranslation entry page linear) else none
  else
    none

theorem directoryIndex_eq (linear : Word) :
    directoryIndex linear = linear.toNat / 4194304 := by
  simp [directoryIndex, Nat.shiftRight_eq_div_pow]

theorem tableIndex_eq (linear : Word) :
    tableIndex linear = linear.toNat / 4096 % 1024 := by
  have mask : (0x3FF : Nat) = 2 ^ 10 - 1 := rfl
  simp only [tableIndex, BitVec.toNat_and, BitVec.toNat_ushiftRight,
    Nat.shiftRight_eq_div_pow, BitVec.toNat_ofNat]
  rw [show 0x3FF % 2 ^ 32 = 2 ^ 10 - 1 from rfl, Nat.and_two_pow_sub_one_eq_mod]

theorem walk_absent {directory : Nat → Word} {tableAt : Word → Nat → Word}
    {linear : Word} (absent : present (directory (directoryIndex linear)) = false) :
    walk directory tableAt linear = none := by
  simp [walk, absent]

theorem walk_large {directory : Nat → Word} {tableAt : Word → Nat → Word}
    {linear entry : Word} (found : directory (directoryIndex linear) = entry)
    (isPresent : present entry = true) (isLarge : largePage entry = true) :
    walk directory tableAt linear = some (largeTranslation entry linear) := by
  simp [walk, found, isPresent, isLarge]

theorem walk_small {directory : Nat → Word} {tableAt : Word → Nat → Word}
    {linear entry : Word} (found : directory (directoryIndex linear) = entry)
    (isPresent : present entry = true) (isSmall : largePage entry = false) :
    walk directory tableAt linear =
      if present (tableAt (entry &&& 0xFFFFF000#32) (tableIndex linear)) then
        some (smallTranslation entry
          (tableAt (entry &&& 0xFFFFF000#32) (tableIndex linear)) linear)
      else none := by
  simp [walk, found, isPresent, isSmall]

/-! Entries as an aligned base with flag bits below it. -/

section Entries

variable {base flags linear : Word}

theorem getLsbD_or_flags {i : Nat} (aligned : base &&& 0xFFF#32 = 0#32) (low : i < 12) :
    (base ||| flags).getLsbD i = flags.getLsbD i := by
  have masked : ∀ j < 12, (0xFFF#32).getLsbD j = true := by decide
  have clear : (base &&& 0xFFF#32).getLsbD i = false := by simp [aligned]
  rw [BitVec.getLsbD_and, masked i low, Bool.and_true] at clear
  rw [BitVec.getLsbD_or, clear, Bool.false_or]

theorem present_or_flags (aligned : base &&& 0xFFF#32 = 0#32) :
    present (base ||| flags) = present flags :=
  getLsbD_or_flags aligned (by decide)

theorem writable_or_flags (aligned : base &&& 0xFFF#32 = 0#32) :
    writable (base ||| flags) = writable flags :=
  getLsbD_or_flags aligned (by decide)

theorem userAccess_or_flags (aligned : base &&& 0xFFF#32 = 0#32) :
    userAccess (base ||| flags) = userAccess flags :=
  getLsbD_or_flags aligned (by decide)

theorem largePage_or_flags (aligned : base &&& 0xFFF#32 = 0#32) :
    largePage (base ||| flags) = largePage flags :=
  getLsbD_or_flags aligned (by decide)

theorem or_flags_and {keep low : Word} (cover : keep ||| low = BitVec.allOnes 32)
    (aligned : base &&& low = 0#32) (small : flags &&& keep = 0#32) :
    (base ||| flags) &&& keep = base := by
  have whole : base &&& keep = base := by
    calc
      base &&& keep = (base &&& keep) ||| (base &&& low) := by simp [aligned]
      _ = base &&& (keep ||| low) := (BitVec.and_or_distrib_left ..).symm
      _ = base := by rw [cover, BitVec.and_allOnes]
  rw [BitVec.and_or_distrib_right, whole, small, BitVec.or_zero]

theorem and_eq_zero_of_page (aligned : base.toNat % 4096 = 0) :
    base &&& 0xFFF#32 = 0#32 := by
  apply BitVec.eq_of_toNat_eq
  have low := Nat.and_two_pow_sub_one_eq_mod base.toNat 12
  simp only [Nat.reducePow, Nat.reduceSub, aligned] at low
  simpa using low

theorem and_eq_zero_of_large (aligned : base.toNat % 4194304 = 0) :
    base &&& 0x3FFFFF#32 = 0#32 := by
  apply BitVec.eq_of_toNat_eq
  have low := Nat.and_two_pow_sub_one_eq_mod base.toNat 22
  simp only [Nat.reducePow, Nat.reduceSub, aligned] at low
  simpa using low

theorem toNat_or_offset (bits : Nat) (base linear : Word) (width : bits ≤ 32)
    (aligned : base.toNat % 2 ^ bits = 0) :
    (base ||| (linear &&& BitVec.ofNat 32 (2 ^ bits - 1))).toNat =
      base.toNat + linear.toNat % 2 ^ bits := by
  have power : 2 ^ bits ≤ 2 ^ 32 := Nat.pow_le_pow_right (by decide) width
  have positive : 0 < 2 ^ bits := Nat.two_pow_pos bits
  obtain ⟨quotient, shape⟩ := Nat.dvd_of_mod_eq_zero aligned
  rw [BitVec.toNat_or, BitVec.toNat_and, BitVec.toNat_ofNat,
    Nat.mod_eq_of_lt (by omega), Nat.and_two_pow_sub_one_eq_mod, shape,
    Nat.two_pow_add_eq_or_of_lt (Nat.mod_lt _ positive)]

theorem largeTranslation_physical (aligned : base.toNat % 4194304 = 0)
    (small : flags &&& 0xFFC00000#32 = 0#32) :
    (largeTranslation (base ||| flags) linear).physical.toNat =
      base.toNat + linear.toNat % 4194304 := by
  have offset := toNat_or_offset 22 base linear (by decide) aligned
  simp only [Nat.reducePow, Nat.reduceSub] at offset
  simp only [largeTranslation, or_flags_and (by decide) (and_eq_zero_of_large aligned) small, offset]

theorem smallTranslation_physical {entry : Word} (aligned : base.toNat % 4096 = 0)
    (small : flags &&& 0xFFFFF000#32 = 0#32) :
    (smallTranslation entry (base ||| flags) linear).physical.toNat =
      base.toNat + linear.toNat % 4096 := by
  have offset := toNat_or_offset 12 base linear (by decide) aligned
  simp only [Nat.reducePow, Nat.reduceSub] at offset
  simp only [smallTranslation, or_flags_and (by decide) (and_eq_zero_of_page aligned) small, offset]

end Entries

end Ece391Os.Data.X86
