import Ece391Os.Data.InterruptController

namespace Ece391Os.Data

/-! The devices of a PC that interrupt: their ports and their interrupt lines. -/

/-- An MC146818 clock: the register its index port selects, registers A and B, and
whether the periodic flag of register C is set. -/
structure ClockChip where
  index : BitVec 7
  registerA : BitVec 8
  registerB : BitVec 8
  periodic : Bool

namespace ClockChip

def enabled (chip : ClockChip) : Bool := chip.registerB.getLsbD 6

def line (chip : ClockChip) : Bool := chip.periodic && chip.enabled

def select (byte : BitVec 8) (chip : ClockChip) : ClockChip :=
  { chip with index := byte.setWidth 7 }

def registerC (chip : ClockChip) : BitVec 8 :=
  (if chip.periodic then 0x40 else 0) ||| (if chip.line then 0x80 else 0)

def readData (chip : ClockChip) : BitVec 8 × ClockChip :=
  if chip.index = 0x0A then (chip.registerA, chip)
  else if chip.index = 0x0B then (chip.registerB, chip)
  else if chip.index = 0x0C then (chip.registerC, { chip with periodic := false })
  else (0, chip)

def writeData (byte : BitVec 8) (chip : ClockChip) : ClockChip :=
  if chip.index = 0x0A then { chip with registerA := byte }
  else if chip.index = 0x0B then { chip with registerB := byte }
  else chip

def tick (chip : ClockChip) : ClockChip := { chip with periodic := true }

/-- Periods of the 32768 Hz oscillator between two ticks, for rates from 3 on. -/
def period (chip : ClockChip) : Nat := 2 ^ ((chip.registerA &&& 0x0F).toNat - 1)

theorem index_writeData (byte : BitVec 8) (chip : ClockChip) :
    (chip.writeData byte).index = chip.index := by
  simp only [writeData]
  split
  · rfl
  · split
    all_goals rfl

theorem index_readData (chip : ClockChip) : chip.readData.2.index = chip.index := by
  simp only [readData]
  repeat' split
  all_goals rfl

theorem line_readData (chip : ClockChip) :
    chip.readData.2.line = (chip.line && !decide (chip.index = 0x0C)) := by
  by_cases last : chip.index = 0x0C
  · simp [readData, line, enabled, last]
  · simp only [readData, last, if_false, decide_false, Bool.not_false, Bool.and_true]
    repeat' split
    all_goals rfl

end ClockChip

/-- A keyboard controller: the last byte it put out and whether that was read.  The
interrupt line is up while it was not. -/
structure KeyPort where
  output : BitVec 8
  full : Bool

namespace KeyPort

def put (byte : BitVec 8) (_ : KeyPort) : KeyPort := ⟨byte, true⟩

def read (port : KeyPort) : BitVec 8 × KeyPort := (port.output, { port with full := false })

end KeyPort

/-- Channel 0 of an interval timer: its mode and the count it reloads, written low byte
first. -/
structure IntervalTimer where
  mode : BitVec 3
  reload : BitVec 16
  high : Bool

namespace IntervalTimer

def writeCommand (byte : BitVec 8) (timer : IntervalTimer) : IntervalTimer :=
  if byte &&& 0xF0 = 0x30 then
    { timer with mode := (byte >>> 1).setWidth 3, high := false }
  else timer

def writeCounter (byte : BitVec 8) (timer : IntervalTimer) : IntervalTimer :=
  { timer with
    reload :=
      if timer.high then byte ++ timer.reload.extractLsb' 0 8
      else timer.reload.extractLsb' 8 8 ++ byte
    high := !timer.high }

end IntervalTimer

structure PcHardware where
  pics : PicPair
  clock : ClockChip
  timer : IntervalTimer
  port : KeyPort

inductive Disturbance where
  | timer
  | clock
  | scan (byte : BitVec 8)
  /-- A request on a line no driver of the system uses. -/
  | noise (irq : Nat)

namespace PcHardware

/-- A PC whose clock does not interrupt yet and whose keyboard has nothing to say. -/
structure Cold (hardware : PcHardware) : Prop where
  clock : hardware.clock.enabled = false
  keyboard : hardware.port.full = false

/-- Lines 0 and 1 belong to the timer and the keyboard, line 8 to the clock, and line 2
to the second controller. -/
def spareIrqs : List Nat := [3, 4, 5, 6, 7, 9, 10, 11, 12, 13, 14, 15]

def changeClock (change : ClockChip → ClockChip) (hardware : PcHardware) : PcHardware :=
  { hardware with
    clock := change hardware.clock
    pics :=
      if (change hardware.clock).line && !hardware.clock.line then hardware.pics.raise 8
      else hardware.pics }

/-- One disturbance.  The keyboard holds a scan code back until the last one was read. -/
def disturb (hardware : PcHardware) : Disturbance → Option PcHardware
  | .timer => some { hardware with pics := hardware.pics.raise 0 }
  | .clock => some (hardware.changeClock ClockChip.tick)
  | .scan byte =>
      if hardware.port.full then none
      else some { hardware with
        port := hardware.port.put byte, pics := hardware.pics.raise 1 }
  | .noise irq =>
      if irq ∈ spareIrqs then some { hardware with pics := hardware.pics.raise irq }
      else none

def outb (byte : BitVec 8) (port : BitVec 16) (hardware : PcHardware) : PcHardware :=
  if port = 0x70 then { hardware with clock := hardware.clock.select byte }
  else if port = 0x71 then hardware.changeClock (ClockChip.writeData byte)
  else if port = 0x43 then { hardware with timer := hardware.timer.writeCommand byte }
  else if port = 0x40 then { hardware with timer := hardware.timer.writeCounter byte }
  else { hardware with pics := hardware.pics.write byte port }

def devicePorts : List (BitVec 16) := [0x70, 0x71, 0x43, 0x40]

def inb (port : BitVec 16) (hardware : PcHardware) : BitVec 8 × PcHardware :=
  if port = 0x60 then
    (hardware.port.read.1, { hardware with port := hardware.port.read.2 })
  else if port = 0x71 then
    (hardware.clock.readData.1, { hardware with clock := hardware.clock.readData.2 })
  else (0, hardware)

variable (hardware : PcHardware)

@[simp] theorem quiet_changeClock (change : ClockChip → ClockChip) :
    (hardware.changeClock change).pics.quiet = hardware.pics.quiet := by
  simp only [changeClock]
  split
  · exact PicPair.quiet_raise 8
  · rfl

theorem index_outb (byte : BitVec 8) (port : BitVec 16) :
    (hardware.outb byte port).clock.index =
      if port = 0x70 then byte.setWidth 7 else hardware.clock.index := by
  simp only [outb]
  split
  · rfl
  · split
    · exact ClockChip.index_writeData byte _
    · repeat' split
      all_goals rfl

theorem quiet_outb (byte : BitVec 8) (port : BitVec 16) :
    (hardware.outb byte port).pics.quiet =
      if port ∈ devicePorts then hardware.pics.quiet
      else hardware.pics.quiet.write byte port := by
  by_cases device : port ∈ devicePorts
  · rw [if_pos device]
    simp only [outb]
    rcases List.mem_cons.mp device with rfl | device
    · rfl
    · rcases List.mem_cons.mp device with rfl | device
      · exact quiet_changeClock hardware _
      · rcases List.mem_cons.mp device with rfl | device
        · rfl
        · obtain rfl := List.mem_singleton.mp device
          rfl
  · rw [if_neg device]
    simp only [devicePorts, List.mem_cons, List.not_mem_nil, or_false, not_or] at device
    obtain ⟨index, data, command, counter⟩ := device
    simp only [outb, index, data, command, counter, if_false]
    exact PicPair.quiet_write byte port

theorem quiet_inb (port : BitVec 16) :
    (hardware.inb port).2.pics = hardware.pics ∧
      (hardware.inb port).2.clock.index = hardware.clock.index := by
  simp only [inb]
  split
  · exact ⟨rfl, rfl⟩
  · split
    · exact ⟨rfl, ClockChip.index_readData _⟩
    · exact ⟨rfl, rfl⟩

theorem quiet_disturb {hardware after : PcHardware} {disturbance : Disturbance}
    (occurs : hardware.disturb disturbance = some after) :
    after.pics.quiet = hardware.pics.quiet ∧ after.clock.index = hardware.clock.index := by
  cases disturbance with
  | timer =>
      obtain rfl := Option.some.inj occurs
      exact ⟨PicPair.quiet_raise 0, rfl⟩
  | clock =>
      obtain rfl := Option.some.inj occurs
      exact ⟨quiet_changeClock hardware _, rfl⟩
  | scan byte =>
      simp only [disturb] at occurs
      split at occurs
      · cases occurs
      · obtain rfl := Option.some.inj occurs
        exact ⟨PicPair.quiet_raise 1, rfl⟩
  | noise irq =>
      simp only [disturb] at occurs
      split at occurs
      · obtain rfl := Option.some.inj occurs
        exact ⟨PicPair.quiet_raise irq, rfl⟩
      · cases occurs

/-! The promise behind edge-triggered lines: a line that is up has made a request that
is still there, unless somebody has taken on to take it down.  `keyTaken` and
`clockTaken` say that somebody has. -/

structure Promised (keyTaken clockTaken : Bool) (hardware : PcHardware) : Prop where
  linked : hardware.pics.Linked
  key : keyTaken = false → hardware.port.full = hardware.pics.requested 1
  keyServed : keyTaken = true →
    hardware.port.full = true ∧ hardware.pics.requested 1 = false
  clock : clockTaken = false → hardware.clock.line = true → hardware.pics.requested 8 = true

namespace Promised

variable {hardware : PcHardware} {keyTaken clockTaken : Bool}

theorem raise {irq : Nat} (promised : hardware.Promised keyTaken clockTaken)
    (inside : irq < 16) (device : irq ≠ 2) (other : irq ≠ 1) :
    { hardware with pics := hardware.pics.raise irq }.Promised keyTaken clockTaken := by
  have key : (hardware.pics.raise irq).requested 1 = hardware.pics.requested 1 := by
    simp [PicPair.requested_raise inside, Ne.symm other]
  refine ⟨promised.linked.raise device, ?_, ?_, ?_⟩
  · intro free
    exact (promised.key free).trans key.symm
  · intro taken
    exact ⟨(promised.keyServed taken).1, key.trans (promised.keyServed taken).2⟩
  · intro free up
    rw [PicPair.requested_raise inside (by decide), promised.clock free up, Bool.true_or]

theorem changeClock (change : ClockChip → ClockChip)
    (promised : hardware.Promised keyTaken clockTaken) :
    (hardware.changeClock change).Promised keyTaken clockTaken := by
  simp only [PcHardware.changeClock]
  split
  · have raised := promised.raise (by decide : 8 < 16) (by decide) (by decide)
    refine ⟨raised.linked, raised.key, raised.keyServed, ?_⟩
    intro _ _
    simp [PicPair.requested_raise]
  · rename_i flat
    refine ⟨promised.linked, promised.key, promised.keyServed, ?_⟩
    intro free up
    apply promised.clock free
    rw [Bool.and_eq_true, Bool.not_eq_true', not_and, Bool.not_eq_false] at flat
    exact flat up

theorem disturb {after : PcHardware} {disturbance : Disturbance}
    (promised : hardware.Promised keyTaken clockTaken)
    (occurs : hardware.disturb disturbance = some after) :
    after.Promised keyTaken clockTaken := by
  cases disturbance with
  | timer =>
      obtain rfl := Option.some.inj occurs
      exact promised.raise (by decide) (by decide) (by decide)
  | clock =>
      obtain rfl := Option.some.inj occurs
      exact promised.changeClock _
  | scan byte =>
      simp only [PcHardware.disturb] at occurs
      split at occurs
      · cases occurs
      · rename_i waiting
        obtain rfl := Option.some.inj occurs
        have untaken : keyTaken = false := by
          rw [← Bool.not_eq_true]
          intro taken
          exact waiting (promised.keyServed taken).1
        refine ⟨promised.linked.raise (by decide), ?_, ?_, ?_⟩
        · intro _
          simp [KeyPort.put, PicPair.requested_raise]
        · intro taken
          rw [untaken] at taken
          cases taken
        · intro free up
          rw [PicPair.requested_raise (by decide) (by decide), promised.clock free up,
            Bool.true_or]
  | noise irq =>
      simp only [PcHardware.disturb] at occurs
      split at occurs
      · rename_i spare
        obtain rfl := Option.some.inj occurs
        have apart : ∀ irq ∈ spareIrqs, irq < 16 ∧ irq ≠ 2 ∧ irq ≠ 1 := by decide
        obtain ⟨inside, device, other⟩ := apart irq spare
        exact promised.raise inside device other
      · cases occurs

theorem outb {byte : BitVec 8} {port : BitVec 16}
    (promised : hardware.Promised keyTaken clockTaken)
    (later : byte.getLsbD 4 = false ∨ port ≠ 0x20 ∧ port ≠ 0xA0)
    (silent : port = 0xA0 ∨ port = 0xA1 → hardware.pics.slave.level = none) :
    (hardware.outb byte port).Promised keyTaken clockTaken := by
  have word : byte.getLsbD 4 = false ∨ port ≠ 0x20 := later.imp_right And.left
  have requests (irq : Nat) (device : irq ≠ 2) :
      (hardware.pics.write byte port).requested irq = hardware.pics.requested irq :=
    PicPair.requested_write later device
  unfold PcHardware.outb
  split
  · exact ⟨promised.linked, promised.key, promised.keyServed, promised.clock⟩
  · split
    · exact promised.changeClock _
    · split
      · exact ⟨promised.linked, promised.key, promised.keyServed, promised.clock⟩
      · split
        · exact ⟨promised.linked, promised.key, promised.keyServed, promised.clock⟩
        · refine ⟨promised.linked.write word silent, ?_, ?_, ?_⟩
          · intro free
            exact (promised.key free).trans (requests 1 (by decide)).symm
          · intro taken
            exact ⟨(promised.keyServed taken).1,
              (requests 1 (by decide)).trans (promised.keyServed taken).2⟩
          · intro free up
            exact (requests 8 (by decide)).trans (promised.clock free up)

theorem inbClock (promised : hardware.Promised keyTaken clockTaken)
    (after : Bool) (served : after = clockTaken ∨ hardware.clock.index = 0x0C) :
    (hardware.inb 0x71).2.Promised keyTaken after := by
  refine ⟨promised.linked, promised.key, promised.keyServed, ?_⟩
  intro free up
  have line : (hardware.clock.line && !decide (hardware.clock.index = 0x0C)) = true :=
    (ClockChip.line_readData _).symm.trans up
  rw [Bool.and_eq_true, Bool.not_eq_true', decide_eq_false_iff_not] at line
  rcases served with rfl | last
  · exact promised.clock free line.1
  · exact absurd last line.2

theorem inbKey (promised : hardware.Promised true clockTaken) :
    (hardware.inb 0x60).2.Promised false clockTaken :=
  ⟨promised.linked, fun _ => (promised.keyServed rfl).2.symm, nofun,
    promised.clock⟩

theorem acknowledge {pics : PicPair} {irq : Nat}
    (promised : hardware.Promised false false) (taken : hardware.pics.Taken irq pics) :
    { hardware with pics := pics }.Promised (decide (irq = 1)) (decide (irq = 8)) := by
  refine ⟨taken.linked, ?_, ?_, ?_⟩
  · intro other
    have apart : 1 ≠ irq := Ne.symm (of_decide_eq_false other)
    rw [taken.others 1 (by decide), decide_eq_false apart, Bool.not_false, Bool.and_true]
    exact promised.key rfl
  · intro key
    obtain rfl := of_decide_eq_true key
    refine ⟨(promised.key rfl).trans taken.was, ?_⟩
    rw [taken.others 1 (by decide)]
    simp
  · intro other up
    have apart : 8 ≠ irq := Ne.symm (of_decide_eq_false other)
    rw [taken.others 8 (by decide), decide_eq_false apart, Bool.not_false, Bool.and_true]
    exact promised.clock rfl up

end Promised

end PcHardware

end Ece391Os.Data
