import Mathlib.Data.Nat.Bitwise
import Mathlib.Data.List.Basic

namespace Ece391Os.Data

/-! Two 8259A interrupt controllers in cascade, the second on line 2 of the first.
Lines are edge-triggered and a request stays latched until it is acknowledged. -/

inductive PicStage where
  | ready
  | icw2
  | icw3
  | icw4
  deriving DecidableEq, Repr

structure Pic where
  requests : BitVec 8
  inService : BitVec 8
  mask : BitVec 8
  base : BitVec 8
  wiring : BitVec 8
  stage : PicStage
  cascaded : Bool
  fourth : Bool
  autoEoi : Bool
  deriving DecidableEq, Repr

namespace Pic

/-- A request is presented when its line is not masked and nothing of its priority
or a higher one is in service. -/
def presents (pic : Pic) (line : Nat) : Bool :=
  pic.requests.getLsbD line && !pic.mask.getLsbD line &&
    (List.range (line + 1)).all fun upper => !pic.inService.getLsbD upper

def level (pic : Pic) : Option Nat := (List.range 8).find? pic.presents

def raise (line : Nat) (pic : Pic) : Pic :=
  { pic with requests := pic.requests ||| BitVec.twoPow 8 line }

def accept (line : Nat) (pic : Pic) : Pic :=
  { pic with
    requests := pic.requests &&& ~~~BitVec.twoPow 8 line
    inService :=
      if pic.autoEoi then pic.inService else pic.inService ||| BitVec.twoPow 8 line }

def vector (pic : Pic) (line : Nat) : BitVec 8 := pic.base ||| BitVec.ofNat 8 line

/-- A byte to the even port: the first initialization word or a specific end of
interrupt. -/
def writeCommand (byte : BitVec 8) (pic : Pic) : Pic :=
  if byte.getLsbD 4 then
    { requests := 0
      inService := 0
      mask := 0
      base := pic.base
      wiring := pic.wiring
      stage := .icw2
      cascaded := !byte.getLsbD 1
      fourth := byte.getLsbD 0
      autoEoi := false }
  else if byte &&& 0xF8 = 0x60 then
    { pic with inService := pic.inService &&& ~~~BitVec.twoPow 8 (byte &&& 7).toNat }
  else pic

def writeData (byte : BitVec 8) (pic : Pic) : Pic :=
  match pic.stage with
  | .ready => { pic with mask := byte }
  | .icw2 => { pic with
      base := byte &&& 0xF8
      stage := if pic.cascaded then .icw3 else if pic.fourth then .icw4 else .ready }
  | .icw3 => { pic with
      wiring := byte, stage := if pic.fourth then .icw4 else .ready }
  | .icw4 => { pic with autoEoi := byte.getLsbD 1, stage := .ready }

/-- A controller without its requests: what the processor alone changes. -/
def quiet (pic : Pic) : Pic := { pic with requests := 0 }

variable {pic : Pic} {line : Nat}

theorem presents_iff :
    pic.presents line = true ↔
      pic.requests.getLsbD line = true ∧ pic.mask.getLsbD line = false ∧
        ∀ upper ≤ line, pic.inService.getLsbD upper = false := by
  simp only [presents, Bool.and_eq_true, Bool.not_eq_true', List.all_eq_true, List.mem_range,
    Nat.lt_succ_iff, and_assoc]

theorem level_eq_some_iff :
    pic.level = some line ↔
      line < 8 ∧ pic.presents line = true ∧ ∀ upper < line, pic.presents upper = false := by
  rw [level, List.find?_range_eq_some, List.mem_range]
  simp only [Bool.not_eq_true', and_left_comm]

theorem level_eq_none_iff : pic.level = none ↔ ∀ line < 8, pic.presents line = false := by
  rw [level, List.find?_eq_none]
  simp

theorem level_first (first : pic.presents 0 = true) : pic.level = some 0 := by
  rw [level_eq_some_iff]
  exact ⟨by decide, first, fun line before => absurd before (Nat.not_lt_zero line)⟩

theorem level_isSome_iff :
    pic.level.isSome = true ↔ ∃ line < 8, pic.presents line = true := by
  rw [level, List.find?_isSome]
  simp

theorem level_accept (presented : pic.level = some line) (manual : pic.autoEoi = false) :
    (pic.accept line).level = none := by
  obtain ⟨_, served, first⟩ := level_eq_some_iff.mp presented
  obtain ⟨_, _, free⟩ := presents_iff.mp served
  apply level_eq_none_iff.mpr
  intro other small
  rw [Bool.eq_false_iff]
  intro again
  obtain ⟨requested, unmasked, above⟩ := presents_iff.mp again
  simp only [accept, manual, Bool.false_eq_true, if_false] at requested unmasked above
  have below : other < line := by
    by_contra high
    have busy := above line (Nat.not_lt.mp high)
    have inside : line < 8 := by omega
    simp [inside] at busy
  have requestedBefore : pic.requests.getLsbD other = true := by
    rw [BitVec.getLsbD_and, Bool.and_eq_true] at requested
    exact requested.1
  have presentedToo : pic.presents other = true :=
    presents_iff.mpr ⟨requestedBefore, unmasked, fun upper above =>
      free upper (Nat.le_trans above (Nat.le_of_lt below))⟩
  rw [first other below] at presentedToo
  cases presentedToo

theorem level_silent (silent : pic.mask = 0xFF ∨ pic.inService.getLsbD 0 = true) :
    pic.level = none := by
  apply level_eq_none_iff.mpr
  intro line inside
  rw [Bool.eq_false_iff]
  intro presented
  obtain ⟨_, unmasked, free⟩ := presents_iff.mp presented
  cases silent with
  | inl masked =>
      rw [masked] at unmasked
      have all : ∀ line < 8, (0xFF : BitVec 8).getLsbD line = true := by decide
      rw [all line inside] at unmasked
      cases unmasked
  | inr serving =>
      rw [free 0 (Nat.zero_le line)] at serving
      cases serving

theorem level_noRequests (idle : pic.requests = 0) : pic.level = none := by
  apply level_eq_none_iff.mpr
  intro line _
  simp [presents, idle]

theorem level_raise (presented : pic.level.isSome = true) :
    (pic.raise line).level.isSome = true := by
  obtain ⟨other, inside, before⟩ := level_isSome_iff.mp presented
  obtain ⟨requested, unmasked, free⟩ := presents_iff.mp before
  refine level_isSome_iff.mpr ⟨other, inside, presents_iff.mpr ⟨?_, unmasked, free⟩⟩
  simp [raise, requested]

@[simp] theorem quiet_raise : (pic.raise line).quiet = pic.quiet := rfl

theorem quiet_accept : (pic.accept line).quiet = pic.quiet.accept line := by
  have none : (0 : BitVec 8) &&& ~~~BitVec.twoPow 8 line = 0 := BitVec.zero_and
  simp only [accept, quiet, none]
  rfl

theorem requests_accept (other : Nat) :
    (pic.accept line).requests.getLsbD other =
      (pic.requests.getLsbD other && !decide (other = line)) := by
  by_cases small : other < 8
  · simp [accept, small]
  · simp [BitVec.getLsbD_of_ge _ _ (Nat.not_lt.mp small)]

theorem quiet_writeCommand (byte : BitVec 8) :
    (pic.writeCommand byte).quiet = pic.quiet.writeCommand byte := by
  simp only [writeCommand, quiet]
  split
  · rfl
  · split
    · rfl
    · rfl

theorem quiet_writeData (byte : BitVec 8) :
    (pic.writeData byte).quiet = pic.quiet.writeData byte := by
  simp only [writeData, quiet]
  split
  all_goals rfl

theorem requests_writeData (byte : BitVec 8) :
    (pic.writeData byte).requests = pic.requests := by
  simp only [writeData]
  split
  all_goals rfl

theorem requests_writeCommand {byte : BitVec 8} (later : byte.getLsbD 4 = false) :
    (pic.writeCommand byte).requests = pic.requests := by
  simp only [writeCommand, later, Bool.false_eq_true, if_false]
  split
  all_goals rfl

end Pic

structure PicPair where
  master : Pic
  slave : Pic
  deriving DecidableEq, Repr

namespace PicPair

/-- The output of the second controller is a line of the first: it makes a request
there when it rises. -/
def changeSlave (change : Pic → Pic) (pair : PicPair) : PicPair where
  master :=
    if (change pair.slave).level.isSome && !pair.slave.level.isSome then pair.master.raise 2
    else pair.master
  slave := change pair.slave

def changeMaster (change : Pic → Pic) (pair : PicPair) : PicPair :=
  { pair with master := change pair.master }

def raise (irq : Nat) (pair : PicPair) : PicPair :=
  if irq < 8 then pair.changeMaster (Pic.raise irq)
  else pair.changeSlave (Pic.raise (irq - 8))

def write (byte : BitVec 8) (port : BitVec 16) (pair : PicPair) : PicPair :=
  if port = 0x20 then pair.changeMaster (Pic.writeCommand byte)
  else if port = 0x21 then pair.changeMaster (Pic.writeData byte)
  else if port = 0xA0 then pair.changeSlave (Pic.writeCommand byte)
  else if port = 0xA1 then pair.changeSlave (Pic.writeData byte)
  else pair

/-- The vector the processor gets when it acknowledges an interrupt; line 7 stands
in for a request of the second controller that is gone. -/
def acknowledge (pair : PicPair) : Option (BitVec 8 × PicPair) :=
  match pair.master.level with
  | none => none
  | some line =>
      let accepted := pair.changeMaster (Pic.accept line)
      if line = 2 ∧ pair.master.wiring.getLsbD 2 ∧ pair.slave.wiring &&& 7 = 2 then
        match pair.slave.level with
        | some inner =>
            some (pair.slave.vector inner, accepted.changeSlave (Pic.accept inner))
        | none => some (pair.slave.vector 7, accepted)
      else some (pair.master.vector line, accepted)

def quiet (pair : PicPair) : PicPair := ⟨pair.master.quiet, pair.slave.quiet⟩

/-- The first controller has latched a request exactly while the second makes one. -/
def Linked (pair : PicPair) : Prop :=
  pair.master.requests.getLsbD 2 = pair.slave.level.isSome

variable {pair : PicPair}

theorem Linked.changeMaster {change : Pic → Pic} (linked : pair.Linked)
    (same : (change pair.master).requests.getLsbD 2 = pair.master.requests.getLsbD 2) :
    (pair.changeMaster change).Linked :=
  same.trans linked

theorem Linked.changeSlave {change : Pic → Pic} (linked : pair.Linked)
    (keeps : pair.slave.level.isSome = true → (change pair.slave).level.isSome = true) :
    (pair.changeSlave change).Linked := by
  simp only [Linked, PicPair.changeSlave] at linked ⊢
  cases before : pair.slave.level.isSome with
  | true =>
      rw [keeps before]
      exact linked.trans before
  | false =>
      cases after : (change pair.slave).level.isSome with
      | true => simp [Pic.raise]
      | false => exact linked.trans before

theorem Linked.raise {irq : Nat} (linked : pair.Linked) (device : irq ≠ 2) :
    (pair.raise irq).Linked := by
  unfold PicPair.raise
  split
  · apply linked.changeMaster
    simp [Pic.raise, Ne.symm device]
  · exact linked.changeSlave Pic.level_raise

/-- A byte that starts no initialization and finds the second controller silent if it
is for that one. -/
theorem Linked.write {byte : BitVec 8} {port : BitVec 16} (linked : pair.Linked)
    (later : byte.getLsbD 4 = false ∨ port ≠ 0x20)
    (silent : port = 0xA0 ∨ port = 0xA1 → pair.slave.level = none) :
    (pair.write byte port).Linked := by
  unfold PicPair.write
  split
  · rename_i command
    apply linked.changeMaster
    cases later with
    | inl word => rw [Pic.requests_writeCommand word]
    | inr other => exact absurd command other
  · split
    · apply linked.changeMaster
      rw [Pic.requests_writeData]
    · split
      · rename_i command
        apply linked.changeSlave
        rw [silent (.inl command)]
        intro presented
        cases presented
      · split
        · rename_i data
          apply linked.changeSlave
          rw [silent (.inr data)]
          intro presented
          cases presented
        · exact linked

@[simp] theorem quiet_raise (irq : Nat) : (pair.raise irq).quiet = pair.quiet := by
  simp only [raise, changeMaster, changeSlave]
  split
  · rfl
  · split
    · rfl
    · rfl

theorem quiet_changeSlave {change : Pic → Pic}
    (commutes : ∀ pic : Pic, (change pic).quiet = change pic.quiet) :
    (pair.changeSlave change).quiet = pair.quiet.changeSlave change := by
  have none : (change pair.slave.quiet).level = none := by
    apply Pic.level_noRequests
    rw [← commutes]
    rfl
  simp only [changeSlave, quiet, none, Option.isSome_none, Bool.false_and, Bool.false_eq_true,
    if_false, commutes]
  split
  · rfl
  · rfl

theorem quiet_write (byte : BitVec 8) (port : BitVec 16) :
    (pair.write byte port).quiet = pair.quiet.write byte port := by
  simp only [write]
  split
  · exact congrArg (PicPair.mk · pair.slave.quiet) (Pic.quiet_writeCommand byte)
  · split
    · exact congrArg (PicPair.mk · pair.slave.quiet) (Pic.quiet_writeData byte)
    · split
      · exact quiet_changeSlave fun _ => Pic.quiet_writeCommand byte
      · split
        · exact quiet_changeSlave fun _ => Pic.quiet_writeData byte
        · rfl

/-! Interrupts of the pair, numbered 0 to 15.  Line 2 of the first controller is not a
device's. -/

def requested (pair : PicPair) (irq : Nat) : Bool :=
  if irq < 8 then pair.master.requests.getLsbD irq
  else pair.slave.requests.getLsbD (irq - 8)

def masked (pair : PicPair) (irq : Nat) : Bool :=
  if irq < 8 then pair.master.mask.getLsbD irq else pair.slave.mask.getLsbD (irq - 8)

def vector (pair : PicPair) (irq : Nat) : BitVec 8 :=
  if irq < 8 then pair.master.vector irq else pair.slave.vector (irq - 8)

def serve (irq : Nat) (pair : PicPair) : PicPair :=
  if irq < 8 then ⟨pair.master.accept irq, pair.slave⟩
  else ⟨pair.master.accept 2, pair.slave.accept (irq - 8)⟩

theorem requests_changeSlave (change : Pic → Pic) {line : Nat} (device : line ≠ 2) :
    (pair.changeSlave change).master.requests.getLsbD line =
      pair.master.requests.getLsbD line := by
  simp only [changeSlave]
  split
  · simp [Pic.raise, Ne.symm device]
  · rfl

theorem requested_changeSlave {change : Pic → Pic}
    (same : (change pair.slave).requests = pair.slave.requests) {irq : Nat}
    (device : irq ≠ 2) : (pair.changeSlave change).requested irq = pair.requested irq := by
  simp only [requested]
  split
  · exact requests_changeSlave change device
  · exact congrArg (BitVec.getLsbD · (irq - 8)) same

theorem requested_changeMaster {change : Pic → Pic}
    (same : (change pair.master).requests = pair.master.requests) (irq : Nat) :
    (pair.changeMaster change).requested irq = pair.requested irq := by
  simp only [requested, changeMaster, same]

theorem requested_raise {irq other : Nat} (inside : irq < 16) (device : other ≠ 2) :
    (pair.raise irq).requested other = (pair.requested other || decide (other = irq)) := by
  by_cases first : irq < 8
  · simp only [raise, first, if_true, requested, changeMaster]
    split
    · rename_i low
      simp [Pic.raise, low]
    · rename_i high
      have apart : other ≠ irq := by omega
      simp [apart]
  · have small : irq - 8 < 8 := by omega
    simp only [raise, first, if_false, requested]
    split
    · rename_i low
      have apart : other ≠ irq := by omega
      rw [requests_changeSlave _ device]
      simp [apart]
    · rename_i high
      have shifted : (irq - 8 = other - 8) = (other = irq) := by
        apply propext
        omega
      simp [changeSlave, Pic.raise, BitVec.getLsbD_twoPow, shifted, small]

theorem requested_write {byte : BitVec 8} {port : BitVec 16}
    (later : byte.getLsbD 4 = false ∨ port ≠ 0x20 ∧ port ≠ 0xA0) {irq : Nat}
    (device : irq ≠ 2) : (pair.write byte port).requested irq = pair.requested irq := by
  have word : port = 0x20 ∨ port = 0xA0 → byte.getLsbD 4 = false := by
    intro command
    cases later with
    | inl low => exact low
    | inr other => exact (command.elim other.1 other.2).elim
  unfold PicPair.write
  split
  · rename_i first
    exact requested_changeMaster (Pic.requests_writeCommand (word (.inl first))) irq
  · split
    · exact requested_changeMaster (Pic.requests_writeData byte) irq
    · split
      · rename_i second
        exact requested_changeSlave (Pic.requests_writeCommand (word (.inr second))) device
      · split
        · exact requested_changeSlave (Pic.requests_writeData byte) device
        · rfl

/-- What the processor takes with an interrupt: the request of a device whose line is
not masked, and nothing else. -/
structure Taken (pair : PicPair) (irq : Nat) (after : PicPair) : Prop where
  device : irq ≠ 2
  inside : irq < 16
  unmasked : pair.masked irq = false
  was : pair.requested irq = true
  others : ∀ other ≠ 2, after.requested other = (pair.requested other && !decide (other = irq))
  linked : after.Linked
  quiet : after.quiet = pair.quiet.serve irq

theorem Linked.acknowledge {vector : BitVec 8} {after : PicPair} (linked : pair.Linked)
    (wired : pair.master.wiring.getLsbD 2 = true ∧ pair.slave.wiring &&& 7 = 2)
    (manual : pair.slave.autoEoi = false)
    (taken : pair.acknowledge = some (vector, after)) :
    ∃ irq, vector = pair.vector irq ∧ pair.Taken irq after := by
  simp only [PicPair.acknowledge] at taken
  split at taken
  · cases taken
  · rename_i line presented
    obtain ⟨inside, served, _⟩ := Pic.level_eq_some_iff.mp presented
    obtain ⟨requested, unmasked, _⟩ := Pic.presents_iff.mp served
    by_cases cascade : line = 2
    · subst cascade
      have second : pair.slave.level.isSome = true := linked.symm.trans requested
      obtain ⟨inner, found⟩ := Option.isSome_iff_exists.mp second
      obtain ⟨small, innerServed, _⟩ := Pic.level_eq_some_iff.mp found
      obtain ⟨innerRequested, innerUnmasked, _⟩ := Pic.presents_iff.mp innerServed
      have silent := Pic.level_accept found manual
      rw [if_pos ⟨rfl, wired.1, wired.2⟩, found] at taken
      obtain ⟨rfl, rfl⟩ := Prod.mk.inj (Option.some.inj taken)
      have after : (pair.changeMaster (Pic.accept 2)).changeSlave (Pic.accept inner) =
          ⟨pair.master.accept 2, pair.slave.accept inner⟩ := by
        simp [PicPair.changeSlave, PicPair.changeMaster, silent]
      have high : ¬inner + 8 < 8 := by omega
      refine ⟨inner + 8, by simp [PicPair.vector], ?_⟩
      rw [after]
      refine ⟨by omega, by omega, ?_, ?_, ?_, ?_, ?_⟩
      · simpa [PicPair.masked] using innerUnmasked
      · simpa [PicPair.requested] using innerRequested
      · intro other device
        simp only [PicPair.requested]
        split
        · rename_i low
          have apart : other ≠ inner + 8 := by omega
          rw [Pic.requests_accept]
          simp [device, apart]
        · rename_i upper
          have shifted : (other - 8 = inner) = (other = inner + 8) := by
            apply propext
            omega
          rw [Pic.requests_accept]
          simp only [shifted]
      · rw [Linked, silent, Pic.requests_accept]
        simp
      · simp only [PicPair.quiet, PicPair.serve, high, if_false, Nat.add_sub_cancel,
          Pic.quiet_accept]
    · rw [if_neg fun both => cascade both.1] at taken
      obtain ⟨rfl, rfl⟩ := Prod.mk.inj (Option.some.inj taken)
      refine ⟨line, by simp [PicPair.vector, inside], cascade, by omega, ?_, ?_, ?_, ?_, ?_⟩
      · simpa [PicPair.masked, inside] using unmasked
      · simpa [PicPair.requested, inside] using requested
      · intro other device
        simp only [PicPair.requested, PicPair.changeMaster]
        split
        · exact Pic.requests_accept other
        · rename_i upper
          have apart : other ≠ line := by omega
          simp [apart]
      · apply linked.changeMaster
        rw [Pic.requests_accept]
        simp [Ne.symm cascade]
      · simp only [PicPair.quiet, PicPair.serve, inside, if_true, PicPair.changeMaster,
          Pic.quiet_accept]

theorem acknowledge_isSome (presented : pair.master.level.isSome = true) :
    pair.acknowledge.isSome = true := by
  obtain ⟨line, level⟩ := Option.isSome_iff_exists.mp presented
  simp only [acknowledge, level]
  repeat' split
  all_goals rfl

theorem Linked.prompt {irq : Nat} (linked : pair.Linked) (inside : irq < 16)
    (requested : pair.requested irq = true) (unmasked : pair.masked irq = false)
    (cascade : pair.masked 2 = false)
    (idle : pair.master.inService = 0 ∧ pair.slave.inService = 0) :
    pair.acknowledge.isSome = true := by
  apply acknowledge_isSome
  have open2 : pair.master.mask.getLsbD 2 = false := cascade
  by_cases first : irq < 8
  · simp only [PicPair.requested, PicPair.masked, first, if_true] at requested unmasked
    refine Pic.level_isSome_iff.mpr ⟨irq, first, Pic.presents_iff.mpr ⟨requested, unmasked, ?_⟩⟩
    intro upper _
    simp [idle.1]
  · simp only [PicPair.requested, PicPair.masked, first, if_false] at requested unmasked
    have slave : pair.slave.level.isSome = true := by
      refine Pic.level_isSome_iff.mpr
        ⟨irq - 8, by omega, Pic.presents_iff.mpr ⟨requested, unmasked, ?_⟩⟩
      intro upper _
      simp [idle.2]
    have latched : pair.master.requests.getLsbD 2 = true := Eq.trans linked slave
    refine Pic.level_isSome_iff.mpr ⟨2, by decide, Pic.presents_iff.mpr ⟨latched, open2, ?_⟩⟩
    intro upper _
    simp [idle.1]

theorem acknowledge_first (requested : pair.requested 0 = true) (unmasked : pair.masked 0 = false)
    (idle : pair.master.inService = 0) :
    pair.acknowledge = some (pair.vector 0, pair.changeMaster (Pic.accept 0)) := by
  have level : pair.master.level = some 0 := by
    apply Pic.level_first
    refine Pic.presents_iff.mpr ⟨requested, unmasked, ?_⟩
    intro upper _
    simp [idle]
  simp only [acknowledge, level]
  rfl

end PicPair

end Ece391Os.Data
