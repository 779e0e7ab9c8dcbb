import Mathlib.Logic.Function.Basic

namespace Ece391Os.Data

/-! Byte-addressed memory as a total function of the address. -/

abbrev Memory := Nat → UInt8

namespace Memory

/-- Copy `count` bytes of `source`, from `start` on, to `target`. -/
def blit (source : Memory) (start : Nat) (memory : Memory) (target count : Nat) :
    Memory :=
  fun address =>
    if target ≤ address ∧ address < target + count then
      source (start + (address - target))
    else
      memory address

theorem blit_inside {source memory : Memory} {start target count address : Nat}
    (lower : target ≤ address) (upper : address < target + count) :
    blit source start memory target count address =
      source (start + (address - target)) := by
  simp [blit, lower, upper]

theorem blit_outside {source memory : Memory} {start target count address : Nat}
    (outside : ¬ (target ≤ address ∧ address < target + count)) :
    blit source start memory target count address = memory address := by
  simp [blit, outside]

@[simp] theorem blit_zero (source : Memory) (start : Nat) (memory : Memory)
    (target : Nat) : blit source start memory target 0 = memory := by
  funext address
  rw [blit_outside (by omega)]

theorem blit_append {source other memory : Memory} {start base done more : Nat}
    (agree : ∀ k < more, other (base + k) = source (start + done + k)) :
    blit other base (blit source start memory 0 done) done more =
      blit source start memory 0 (done + more) := by
  funext address
  by_cases early : address < done
  · rw [blit_outside (by omega), blit_inside (by omega) (by omega),
      blit_inside (by omega) (by omega)]
  · by_cases fresh : address < done + more
    · rw [blit_inside (by omega) (by omega), blit_inside (by omega) (by omega),
        agree _ (by omega)]
      congr 1
      omega
    · rw [blit_outside (by omega), blit_outside (by omega),
        blit_outside (by omega)]

/-- One more byte behind those of a block that are stored already. -/
theorem update_stored {memory after : Memory} (byte : Nat → UInt8) {start k : Nat}
    (stored : ∀ address, after address =
      if start ≤ address ∧ address < start + k then byte (address - start)
      else memory address) (address : Nat) :
    Function.update after (start + k) (byte k) address =
      if start ≤ address ∧ address < start + (k + 1) then byte (address - start)
      else memory address := by
  by_cases here : address = start + k
  · rw [here, Function.update_self, if_pos (by omega), Nat.add_sub_cancel_left]
  · rw [Function.update_of_ne here, stored]
    by_cases done : start ≤ address ∧ address < start + k
    · rw [if_pos done, if_pos (by omega)]
    · rw [if_neg done, if_neg (by omega)]

def word (memory : Memory) (address : Nat) : Nat :=
  (memory address).toNat + 256 * (memory (address + 1)).toNat +
    65536 * (memory (address + 2)).toNat +
    16777216 * (memory (address + 3)).toNat

theorem word_lt (memory : Memory) (address : Nat) :
    memory.word address < 4294967296 := by
  have first := (memory address).toNat_lt
  have second := (memory (address + 1)).toNat_lt
  have third := (memory (address + 2)).toNat_lt
  have fourth := (memory (address + 3)).toNat_lt
  simp only [word]
  omega

end Memory

end Ece391Os.Data
