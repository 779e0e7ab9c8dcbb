import Mathlib.Data.Nat.Bitwise

namespace Ece391Os.Data

/-! Descriptors of a 32-bit x86 processor: gates of the interrupt descriptor table and
segments of the global one. -/

namespace X86

structure Gate where
  present : Bool
  dpl : Nat
  /-- A trap gate leaves the interrupt flag alone, an interrupt gate clears it. -/
  trap : Bool
  selector : BitVec 16
  offset : BitVec 32
  deriving DecidableEq, Repr

/-- The gate in eight bytes of the table; `none` if it is not a 32-bit interrupt or
trap gate. -/
def gate (bits : BitVec 64) : Option Gate :=
  if bits.extractLsb' 41 1 = 1#1 ∧ bits.extractLsb' 42 1 = 1#1 ∧
      bits.extractLsb' 43 1 = 1#1 ∧ bits.extractLsb' 44 1 = 0#1 then
    some
      { present := bits.extractLsb' 47 1 = 1#1
        dpl := (bits.extractLsb' 45 2).toNat
        trap := bits.extractLsb' 40 1 = 1#1
        selector := bits.extractLsb' 16 16
        offset := bits.extractLsb' 48 16 ++ bits.extractLsb' 0 16 }
  else none

/-- Where an `int` instruction at privilege level `cpl` goes; `none` is a general
protection fault. -/
def softwareInterrupt (idt : Nat → BitVec 64) (cpl vector : Nat) : Option Gate :=
  match gate (idt vector) with
  | some entry => if entry.present ∧ cpl ≤ entry.dpl then some entry else none
  | none => none

structure Segment where
  present : Bool
  dpl : Nat
  /-- Code and data segments, as opposed to those of the system. -/
  user : Bool
  type : BitVec 4
  base : BitVec 32
  /-- The last offset inside. -/
  limit : Nat
  deriving DecidableEq, Repr

def segment (bits : BitVec 64) : Segment :=
  let limit := (bits.extractLsb' 48 4 ++ bits.extractLsb' 0 16).toNat
  { present := bits.extractLsb' 47 1 = 1#1
    dpl := (bits.extractLsb' 45 2).toNat
    user := bits.extractLsb' 44 1 = 1#1
    type := bits.extractLsb' 40 4
    base := bits.extractLsb' 56 8 ++ bits.extractLsb' 32 8 ++ bits.extractLsb' 16 16
    limit := if bits.extractLsb' 55 1 = 1#1 then limit * 4096 + 4095 else limit }

end X86

end Ece391Os.Data
