import Ece391Os.Data.Loop
import Ece391Os.Data.Memory
import Ece391Os.Data.Numerals
import Ece391Os.Kernel.Strings
import Mathlib.Tactic.Set

namespace Ece391Os

open Data

/-! `strlen`, `strrev` and `itoa` of `lib.c`. -/

def strlen (memory : Memory) (s fuel : Nat) : Option Nat :=
  loop (fun len => if memory (s + len) = 0 then none else some (len + 1)) fuel 0

structure Reversal where
  beg : Int
  fin : Int
  memory : Memory

def Reversal.turn (s : Nat) (reversal : Reversal) : Option Reversal :=
  if reversal.beg < reversal.fin then
    let last := s + reversal.fin.toNat
    let first := s + reversal.beg.toNat
    let tmp := reversal.memory last
    let moved := Function.update reversal.memory last (reversal.memory first)
    some ⟨reversal.beg + 1, reversal.fin - 1, Function.update moved first tmp⟩
  else none

/-- `strrev`: the pointer it returns and memory. -/
def strrev (memory : Memory) (s fuel : Nat) : Option (Nat × Memory) :=
  (strlen memory s fuel).bind fun len =>
    (loop (Reversal.turn s) fuel ⟨0, (len : Int) - 1, memory⟩).map fun final => (s, final.memory)

/-- `"0123456789ABCDEFGHIJKLMNOPQRSTUVWXYZ"` -/
def lookup : List UInt8 :=
  [48, 49, 50, 51, 52, 53, 54, 55, 56, 57, 65, 66, 67, 68, 69, 70, 71, 72, 73, 74, 75, 76, 77, 78,
    79, 80, 81, 82, 83, 84, 85, 86, 87, 88, 89, 90]

def digitChar (digit : Nat) : UInt8 := lookup.getD digit 0

structure Conversion where
  newbuf : Nat
  newval : BitVec 32
  memory : Memory

/-- One turn of the loop of `itoa`; the signed radix is converted for the unsigned
division. -/
def Conversion.turn (radix : BitVec 32) (conversion : Conversion) : Option Conversion :=
  if 0 < conversion.newval.toNat then
    let i := (conversion.newval % radix).toNat
    some ⟨conversion.newbuf + 1, conversion.newval / radix,
      Function.update conversion.memory conversion.newbuf (digitChar i)⟩
  else none

def itoa (value : BitVec 32) (buf : Nat) (radix : BitVec 32) (memory : Memory) (fuel : Nat) :
    Option (Nat × Memory) :=
  if value = 0 then some (buf, Function.update (Function.update memory buf 48) (buf + 1) 0)
  else
    (loop (Conversion.turn radix) fuel ⟨buf, value, memory⟩).bind fun final =>
      strrev (Function.update final.memory final.newbuf 0) buf fuel

structure Terminated (memory : Memory) (s : Nat) (text : List UInt8) : Prop where
  bytes : ∀ k (inside : k < text.length), memory (s + k) = text[k]
  nonzero : ∀ byte ∈ text, byte ≠ 0
  ends : memory (s + text.length) = 0

/-- A string in the model of the system calls is a text in memory. -/
theorem CString.terminated (string : CString) : Terminated string.memory 0 string.bytes := by
  refine ⟨?_, string.nonzero, ?_⟩
  · intro k inside
    rw [Nat.zero_add]
    exact CString.memory_eq inside
  · rw [Nat.zero_add]
    exact string.memory_strlen

theorem Terminated.strlen {memory : Memory} {s : Nat} {text : List UInt8}
    (terminated : Terminated memory s text) : Returns (strlen memory s) text.length := by
  obtain ⟨len, steps, rfl⟩ := Steps.rounds
    (fun len => if memory (s + len) = 0 then none else some (len + 1))
    (fun k len => len = k) text.length 0 rfl (by
      rintro k below len rfl
      refine ⟨len + 1, if_neg ?_, rfl⟩
      rw [terminated.bytes len below]
      exact terminated.nonzero _ (List.getElem_mem below))
  exact steps.returns (if_pos terminated.ends)

theorem CString.strlen_returns (string : CString) :
    Returns (Ece391Os.strlen string.memory 0) string.strlen :=
  string.terminated.strlen

/-! Reversal in place. -/

def reversedBlock (memory : Memory) (s length : Nat) : Memory := fun address =>
  if s ≤ address ∧ address < s + length then memory (s + (length - 1 - (address - s)))
  else memory address

structure Reversal.Turned (memory : Memory) (s length k : Nat) (reversal : Reversal) : Prop where
  beg : reversal.beg = k
  fin : reversal.fin = (length : Int) - 1 - k
  memory : ∀ address, reversal.memory address =
    if s ≤ address ∧ address < s + length ∧
        (address - s < k ∨ length - 1 - k < address - s) then
      memory (s + (length - 1 - (address - s)))
    else memory address

theorem Reversal.Turned.turn {memory : Memory} {s length k : Nat} {reversal : Reversal}
    (turned : Turned memory s length k reversal) (inside : k < length / 2) :
    ∃ later, reversal.turn s = some later ∧ Turned memory s length (k + 1) later := by
  obtain ⟨beg, fin, bytes⟩ := turned
  have first : reversal.beg.toNat = k := by omega
  have last : reversal.fin.toNat = length - 1 - k := by omega
  refine ⟨_, if_pos (by omega), by simp only [beg]; omega, by simp only [fin]; omega, ?_⟩
  intro address
  simp only [first, last]
  by_cases low : address = s + k
  · rw [low, Function.update_self, bytes, if_neg (by omega), if_pos (by omega)]
    congr 2
    omega
  · rw [Function.update_of_ne low]
    by_cases high : address = s + (length - 1 - k)
    · rw [high, Function.update_self, bytes, if_neg (by omega), if_pos (by omega)]
      congr 2
      omega
    · rw [Function.update_of_ne high, bytes]
      by_cases done : s ≤ address ∧ address < s + length ∧
          (address - s < k ∨ length - 1 - k < address - s)
      · rw [if_pos done, if_pos (by omega)]
      · rw [if_neg done, if_neg (by omega)]

theorem Terminated.strrev {memory : Memory} {s : Nat} {text : List UInt8}
    (terminated : Terminated memory s text) :
    Returns (strrev memory s) (s, reversedBlock memory s text.length) := by
  obtain ⟨final, steps, turned⟩ := Steps.rounds (Reversal.turn s)
    (Reversal.Turned memory s text.length) (text.length / 2)
    ⟨0, (text.length : Int) - 1, memory⟩
    ⟨rfl, by simp, fun address => by rw [if_neg (by omega)]⟩
    fun k below reversal turned => turned.turn below
  obtain ⟨beg, fin, bytes⟩ := turned
  have whole : final.memory = reversedBlock memory s text.length := by
    funext address
    rw [bytes, reversedBlock]
    by_cases inside : s ≤ address ∧ address < s + text.length
    · rw [if_pos inside]
      split
      · rfl
      · -- the byte in the middle of an odd number stays
        congr 1
        omega
    · rw [if_neg inside, if_neg (by omega)]
  rw [← whole]
  exact terminated.strlen.bind
    ((steps.returns (if_neg (by omega))).map fun final => (s, final.memory))

/-! The digits. -/

theorem digitChar_ne_zero {digit : Nat} (small : digit < 36) : digitChar digit ≠ 0 := by
  have every : ∀ digit < 36, digitChar digit ≠ 0 := by decide
  exact every digit small

def digitText (digits : List Nat) : List UInt8 := digits.map digitChar

theorem length_digitText (digits : List Nat) : (digitText digits).length = digits.length :=
  List.length_map ..

theorem digitText_nonzero {radix : Nat} {digits : List Nat} (alphabet : radix ≤ 36)
    (lt : ∀ digit ∈ digits, digit < radix) : ∀ byte ∈ digitText digits, byte ≠ 0 := by
  intro byte member
  obtain ⟨digit, inside, rfl⟩ := List.mem_map.mp member
  exact digitChar_ne_zero (Nat.lt_of_lt_of_le (lt digit inside) alphabet)

structure Conversion.Converted (value radix buf : Nat) (memory : Memory) (k : Nat)
    (conversion : Conversion) : Prop where
  newbuf : conversion.newbuf = buf + k
  newval : conversion.newval.toNat = value / radix ^ k
  memory : ∀ address, conversion.memory address =
    if buf ≤ address ∧ address < buf + k then
      digitChar (value / radix ^ (address - buf) % radix)
    else memory address

theorem Conversion.Converted.turn {value buf k : Nat} {radix : BitVec 32} {memory : Memory}
    {conversion : Conversion}
    (converted : Converted value radix.toNat buf memory k conversion)
    (more : 0 < value / radix.toNat ^ k) :
    ∃ later, conversion.turn radix = some later ∧
      Converted value radix.toNat buf memory (k + 1) later := by
  obtain ⟨newbuf, newval, bytes⟩ := converted
  refine ⟨_, if_pos (by omega), by simp only [newbuf]; omega, ?_, ?_⟩
  · rw [BitVec.toNat_udiv, newval, Nat.div_div_eq_div_mul, Nat.pow_succ]
  · simp only [newbuf, BitVec.toNat_umod, newval]
    exact Memory.update_stored (fun k => digitChar (value / radix.toNat ^ k % radix.toNat)) bytes

structure Converts (radix value buf : Nat) (before after : Memory) : Prop where
  text : Terminated after buf (digitText (numeral radix value))
  outside : ∀ address, address < buf ∨ buf + (numeral radix value).length < address →
    after address = before address

theorem converts_zero (radix buf : Nat) (memory : Memory) :
    Converts radix 0 buf memory
      (Function.update (Function.update memory buf 48) (buf + 1) 0) := by
  have single : digitText (numeral radix 0) = [48] := by
    rw [numeral_zero]
    rfl
  refine ⟨?_, ?_⟩
  · rw [single]
    refine ⟨?_, ?_, Function.update_self ..⟩
    · intro k inside
      obtain rfl : k = 0 := by simpa using inside
      rw [Function.update_of_ne (by omega)]
      exact Function.update_self ..
    · intro byte member
      rw [List.mem_singleton.mp member]
      decide
  · intro address away
    rw [numeral_zero, List.length_singleton] at away
    rw [Function.update_of_ne (by omega), Function.update_of_ne (by omega)]

theorem Conversion.Converted.terminated {value radix buf : Nat} {memory : Memory}
    {conversion : Conversion} (base : 1 < radix) (alphabet : radix ≤ 36) (nonzero : value ≠ 0)
    (converted : Converted value radix buf memory (numeral radix value).length conversion) :
    Terminated (Function.update conversion.memory conversion.newbuf 0) buf
      (digitText (numeral radix value)).reverse := by
  obtain ⟨newbuf, -, bytes⟩ := converted
  refine ⟨?_, ?_, ?_⟩
  · intro k inside
    rw [List.length_reverse, length_digitText] at inside
    rw [Function.update_of_ne (by omega), bytes, if_pos (by omega), List.getElem_reverse,
      Nat.add_sub_cancel_left]
    simp only [digitText, List.getElem_map, List.length_map]
    rw [numeral_getElem base nonzero (by omega),
      show (numeral radix value).length - 1 - ((numeral radix value).length - 1 - k) = k by omega]
  · intro byte member
    exact digitText_nonzero alphabet (numeral_spec base value).lt byte
      (List.mem_reverse.mp member)
  · rw [List.length_reverse, length_digitText, newbuf, Function.update_self]

theorem Terminated.reversed {memory : Memory} {s : Nat} {text : List UInt8}
    (terminated : Terminated memory s text.reverse) :
    Terminated (reversedBlock memory s text.length) s text := by
  obtain ⟨bytes, nonzero, ends⟩ := terminated
  rw [List.length_reverse] at ends
  refine ⟨?_, fun byte member => nonzero byte (List.mem_reverse.mpr member), ?_⟩
  · intro k inside
    rw [reversedBlock, if_pos (by omega), Nat.add_sub_cancel_left,
      bytes _ (by rw [List.length_reverse]; omega), List.getElem_reverse]
    congr 1
    omega
  · rw [reversedBlock, if_neg (by omega)]
    exact ends

theorem itoa_returns (value : BitVec 32) (buf : Nat) (radix : BitVec 32) (memory : Memory)
    (base : 1 < radix.toNat) (alphabet : radix.toNat ≤ 36) :
    ∃ after, Returns (itoa value buf radix memory) (buf, after) ∧
      Converts radix.toNat value.toNat buf memory after := by
  by_cases zero : value = 0
  · subst zero
    exact ⟨_, ⟨0, fun _ _ => if_pos rfl⟩, converts_zero radix.toNat buf memory⟩
  · have nonzero : value.toNat ≠ 0 := fun same => zero (BitVec.eq_of_toNat_eq same)
    set length := (numeral radix.toNat value.toNat).length with lengthDef
    obtain ⟨final, steps, converted⟩ := Steps.rounds (Conversion.turn radix)
      (Conversion.Converted value.toNat radix.toNat buf memory) length ⟨buf, value, memory⟩
      ⟨rfl, by simp, fun address => by rw [if_neg (by omega)]⟩ (by
        intro k below conversion converted
        have more := (lt_length_numeral_iff base nonzero k).mp below
        exact converted.turn (Nat.div_pos more (Nat.pow_pos (by omega))))
    have stored := converted.terminated base alphabet nonzero
    have done : final.newval.toNat = 0 := by
      rw [converted.newval]
      apply Nat.div_eq_of_lt
      have last := (lt_length_numeral_iff base nonzero length).not.mp (Nat.lt_irrefl _)
      omega
    have reversed := stored.strrev
    rw [List.length_reverse, length_digitText] at reversed
    refine ⟨reversedBlock (Function.update final.memory final.newbuf 0) buf length, ?_, ?_, ?_⟩
    · have digits : itoa value buf radix memory = fun fuel =>
          (loop (Conversion.turn radix) fuel ⟨buf, value, memory⟩).bind fun final =>
            strrev (Function.update final.memory final.newbuf 0) buf fuel :=
        funext fun fuel => if_neg zero
      rw [digits]
      exact (steps.returns (if_neg (by omega))).bind reversed
    · have text := stored.reversed
      rwa [length_digitText] at text
    · intro address away
      rw [reversedBlock, if_neg (by omega), Function.update_of_ne, converted.memory,
        if_neg (by omega)]
      rw [converted.newbuf]
      omega

end Ece391Os
