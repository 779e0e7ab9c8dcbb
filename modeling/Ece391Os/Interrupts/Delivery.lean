import Ece391Os.Interrupts.Runs

namespace Ece391Os

open Data

/-! What becomes of an interrupt and of a scan code. -/

def Op.irq : Op → Option Nat
  | .code .switchProcess => some 0
  | .code .scanCode => some 1
  | .code .rtcLoop => some 8
  | _ => none

def Event.irq : Event → Option Nat
  | .tick _ _ => some 0
  | .key _ => some 1
  | .rtcInterrupt => some 8
  | _ => none

def Event.keyCode : Event → Option UInt8
  | .key scanCode => some scanCode
  | _ => none

namespace Op

/-- Code that has no interrupt left to handle. -/
def Calm (code : List Op) : Prop := code.filterMap irq = []

theorem Calm.suffix {code later : List Op} (calm : Calm code) (suffix : later <:+ code) :
    Calm later := by
  apply List.filterMap_eq_nil_iff.mpr
  intro op member
  exact List.filterMap_eq_nil_iff.mp calm op (suffix.subset member)

theorem Calm.head {code : List Op} (calm : Calm code) : code.head? ≠ some (.code .scanCode) := by
  intro scans
  have handled := List.filterMap_eq_nil_iff.mp calm _ (List.mem_of_head? scans)
  cases handled

theorem calm_switch {code : List Op} (either : code = afterSwitch ∨ code = firstSwitch) :
    Calm code := by
  rcases either with rfl | rfl
  · rfl
  · rfl

end Op

namespace Board

def Signal.scanned : Signal → Option UInt8
  | .disturb (.scan byte) => some (UInt8.ofBitVec byte)
  | _ => none

def takenIrqs (trace : BoardTrace) : List Nat :=
  trace.filterMap fun transition => transition.before.takes transition.event

def handledIrqs (trace : BoardTrace) : List Nat :=
  trace.filterMap fun transition => transition.reply.bind Event.irq

def scannedCodes (trace : BoardTrace) : List UInt8 :=
  trace.filterMap fun transition => transition.event.scanned

def handledCodes (trace : BoardTrace) : List UInt8 :=
  trace.filterMap fun transition => transition.reply.bind Event.keyCode

def pendingIrqs (board : Board) : List Nat :=
  board.running.flatMap fun frame => frame.code.filterMap Op.irq

def inHand (board : Board) : List UInt8 :=
  board.running.flatMap fun frame =>
    if frame.code.head? = some (.code .scanCode) then [UInt8.ofBitVec frame.byte] else []

def buffered (board : Board) : List UInt8 :=
  if board.hardware.port.full then [UInt8.ofBitVec board.hardware.port.output] else []

structure Delivered (trace : BoardTrace) (board : Board) : Prop where
  irqs : takenIrqs trace = handledIrqs trace ++ board.pendingIrqs
  codes : scannedCodes trace = handledCodes trace ++ board.inHand ++ board.buffered

variable {platform : Platform} {memory : BootMemory} {trace : BoardTrace} {board next : Board}
  {frame : Frame} {rest : List Frame} {op : Op}

section Idle

variable {signal : Signal} {reply : Option Event}

theorem Delivered.snoc (delivered : Delivered trace board)
    (irqs : board.pendingIrqs ++ (board.takes signal).toList =
      (reply.bind Event.irq).toList ++ next.pendingIrqs)
    (codes : board.inHand ++ board.buffered ++ signal.scanned.toList =
      (reply.bind Event.keyCode).toList ++ next.inHand ++ next.buffered) :
    Delivered (trace ++ [⟨board, signal, reply, next⟩]) next := by
  constructor
  · rw [takenIrqs, handledIrqs, List.filterMap_append, List.filterMap_append, ← takenIrqs,
      ← handledIrqs, delivered.irqs, List.append_assoc, List.append_assoc]
    exact congrArg (handledIrqs trace ++ ·) irqs
  · rw [scannedCodes, handledCodes, List.filterMap_append, List.filterMap_append,
      ← scannedCodes, ← handledCodes, delivered.codes]
    simp only [List.append_assoc] at codes ⊢
    exact congrArg (handledCodes trace ++ ·) codes

theorem Delivered.free (delivered : Delivered trace board) (before : board.running = [])
    (after : next.running = []) (port : next.hardware.port = board.hardware.port)
    (takes : board.takes signal = none) (scans : signal.scanned = none)
    (quiet : reply.bind Event.irq = none ∧ reply.bind Event.keyCode = none) :
    Delivered (trace ++ [⟨board, signal, reply, next⟩]) next := by
  apply delivered.snoc
  · simp [pendingIrqs, before, after, takes, quiet.1]
  · simp [inHand, buffered, before, after, port, scans, quiet.2]

end Idle

/-! One operation of a handler. -/

theorem port_outb (byte : BitVec 8) (port : BitVec 16) (hardware : PcHardware) :
    (hardware.outb byte port).port = hardware.port := by
  simp only [PcHardware.outb]
  repeat' split
  all_goals rfl

/-- Only the read of the scan code touches the keyboard controller. -/
theorem exec_port (esp ebp : Int) (other : op ≠ .inb 0x60) :
    (board.exec esp ebp frame rest op).1.hardware.port = board.hardware.port := by
  cases op with
  | cliAndSave place =>
      cases place with
      | stack => rfl
      | keyboard => rfl
  | restoreFlags place =>
      cases place with
      | stack => rfl
      | keyboard => rfl
  | outMask irq => exact port_outb ..
  | outb byte port => exact port_outb ..
  | outbRead keep set port => exact port_outb ..
  | inb port =>
      have elsewhere : port ≠ 0x60 := fun key => other (congrArg Op.inb key)
      simp only [exec, changeHardware, PcHardware.inb, elsewhere, if_false]
      split
      all_goals rfl
  | code code =>
      cases code with
      | switchProcess =>
          simp only [exec, switchProcess]
          split
          · rfl
          · rfl
          · rfl
      | _ => rfl
  | _ => rfl

theorem exec_reply (esp ebp : Int) :
    (board.exec esp ebp frame rest op).2.bind Event.irq = op.irq ∧
      (board.exec esp ebp frame rest op).2.bind Event.keyCode =
        if op = .code .scanCode then some (UInt8.ofBitVec frame.byte) else none := by
  cases op with
  | cliAndSave place =>
      cases place with
      | stack => exact ⟨rfl, rfl⟩
      | keyboard => exact ⟨rfl, rfl⟩
  | restoreFlags place =>
      cases place with
      | stack => exact ⟨rfl, rfl⟩
      | keyboard => exact ⟨rfl, rfl⟩
  | code code =>
      cases code with
      | _ => exact ⟨rfl, rfl⟩
  | _ => exact ⟨rfl, rfl⟩

theorem Opened.calm (opened : board.Opened frame rest) :
    Op.Calm frame.code ∧ ∀ below ∈ rest, Op.Calm below.code := by
  cases opened with
  | entry home early returns suffix more =>
      have calm : Op.Calm Op.resetScreen := rfl
      exact ⟨calm.suffix suffix, nofun⟩
  | entering suspended away code stopped =>
      constructor
      · rw [code]
        rfl
      · intro below member
        rw [List.mem_singleton.mp member]
        exact Op.calm_switch (.inl stopped.code)

theorem Opened.notKey (opened : board.Opened { frame with code := op :: frame.code } rest) :
    op ≠ .inb 0x60 := by
  rintro rfl
  cases opened with
  | entry home early returns suffix more =>
      rcases Op.suffix_resetScreen suffix with ⟨reset, _⟩ | ⟨last, _⟩
      · cases reset
      · cases last
  | entering suspended away code stopped => cases code

theorem Control.calm (control : board.Control) (on : board.flag = true) :
    ∀ frame ∈ board.running, Op.Calm frame.code := by
  intro frame member
  rcases (control.lines_of_flag on).2 with ⟨free, _⟩ | ⟨first, rest, under, opened⟩
  · rw [free] at member
    cases member
  · obtain ⟨calm, others⟩ := opened.calm
    rw [under] at member
    rcases List.mem_cons.mp member with rfl | member
    · exact calm
    · exact others frame member

theorem Below.calm {code : List Op} (below : board.Below code rest) :
    ∀ frame ∈ rest, Op.Calm frame.code := by
  cases below with
  | program => exact nofun
  | opened outer rest opened =>
      obtain ⟨first, others⟩ := opened.calm
      intro frame member
      rcases List.mem_cons.mp member with rfl | member
      · exact first
      · exact others frame member
  | entering suspended away suffix stopped =>
      intro frame member
      rw [List.mem_singleton.mp member]
      exact Op.calm_switch (.inl stopped.code)

theorem UnderWay.calm (underWay : board.UnderWay op frame rest) :
    ∀ below ∈ rest, Op.Calm below.code := by
  cases underWay with
  | opened opened => exact opened.calm.2
  | handling returns below => exact below.calm

/-- A scan code is handled right after it is read. -/
theorem UnderWay.head (underWay : board.UnderWay op frame rest) :
    op = .inb 0x60 ↔ frame.code.head? = some (.code .scanCode) := by
  cases underWay with
  | opened opened =>
      have calm := opened.calm.1
      have later : Op.Calm frame.code := calm.suffix (List.suffix_cons op frame.code)
      constructor
      · exact fun reads => absurd reads opened.notKey
      · exact fun scans => absurd scans later.head
  | handling returns below checked => exact Op.checks_head checked

theorem calm_nothing {chain : List Frame} (calm : ∀ frame ∈ chain, Op.Calm frame.code) :
    chain.flatMap (fun frame => frame.code.filterMap Op.irq) = [] ∧
      chain.flatMap (fun frame => if frame.code.head? = some (.code .scanCode) then
        [UInt8.ofBitVec frame.byte] else []) = [] := by
  constructor
  · exact List.flatMap_eq_nil_iff.mpr calm
  · apply List.flatMap_eq_nil_iff.mpr
    exact fun frame member => if_neg (calm frame member).head

/-- After an operation its handler, or the handler switched to, has left to do what it
had. -/
theorem Moves.left {esp ebp : Int} (moves : board.Moves esp ebp op frame rest next)
    (paused : board.machine.kernel.prevSchedTerm ≠ none → board.Paused)
    (calm : ∀ below ∈ rest, Op.Calm below.code) :
    (∃ after, next.running = after :: rest ∧ after.code = frame.code) ∨
      Op.Calm frame.code ∧ ∀ later ∈ next.running, Op.Calm later.code := by
  cases moves with
  | goes _ _ goes =>
      obtain ⟨after, running, code, _⟩ := goes.running
      exact .inl ⟨after, running, code⟩
  | leaves last done same =>
      refine .inr ⟨by rw [done]; rfl, ?_⟩
      rw [same]
      intro later member
      have among : later ∈ Function.update board.frames board.stack rest board.stack := member
      rw [Function.update_self] at among
      exact calm later among
  | enters last done suspended below stopped away same =>
      refine .inr ⟨by rw [done]; rfl, ?_⟩
      rw [same]
      intro later member
      have running : { { board.setFrames rest with stack := board.current }.setFrames [] with
        flag := true }.running = [] := Function.update_self ..
      rw [running] at member
      cases member
  | starts _ _ _ alone stopped _ same =>
      refine .inr ⟨Op.calm_switch (.inl stopped.code), ?_⟩
      rw [same]
      intro later member
      have running : ((board.leaving esp ebp frame).setFrames
          [{ frame with code := Op.firstSwitch }, frame]).running =
            [{ frame with code := Op.firstSwitch }, frame] := Function.update_self ..
      rw [running] at member
      rcases List.mem_cons.mp member with rfl | member
      · exact Op.calm_switch (.inr rfl)
      · rw [List.mem_singleton.mp member]
        exact Op.calm_switch (.inl stopped.code)
  | resumes _ active home alone stopped ran same =>
      refine .inr ⟨Op.calm_switch (.inl stopped.code), ?_⟩
      rw [same]
      intro later member
      obtain ⟨waiting, running, waits⟩ :=
        board.leaving_resumes frame esp ebp ran home (paused active)
      rw [running] at member
      rw [List.mem_singleton.mp member]
      exact Op.calm_switch (.inl waits.code)

theorem pendingIrqs_cons (under : board.running = { frame with code := op :: frame.code } :: rest)
    (calm : ∀ below ∈ rest, Op.Calm below.code) :
    board.pendingIrqs = op.irq.toList ++ frame.code.filterMap Op.irq := by
  rw [pendingIrqs, under, List.flatMap_cons, (calm_nothing calm).1, List.append_nil,
    List.filterMap_cons]
  cases op.irq with
  | none => rfl
  | some irq => rfl

theorem Moves.pendingIrqs {esp ebp : Int} (moves : board.Moves esp ebp op frame rest next)
    (paused : board.machine.kernel.prevSchedTerm ≠ none → board.Paused)
    (calm : ∀ below ∈ rest, Op.Calm below.code) :
    next.pendingIrqs = frame.code.filterMap Op.irq := by
  rcases moves.left paused calm with ⟨after, running, code⟩ | ⟨done, quiet⟩
  · rw [Board.pendingIrqs, running, List.flatMap_cons, (calm_nothing calm).1, code,
      List.append_nil]
  · rw [Board.pendingIrqs, (calm_nothing quiet).1]
    exact done.symm

theorem Moves.inHand {esp ebp : Int} (moves : board.Moves esp ebp op frame rest next)
    (paused : board.machine.kernel.prevSchedTerm ≠ none → board.Paused)
    (calm : ∀ below ∈ rest, Op.Calm below.code)
    (head : frame.code.head? ≠ some (.code .scanCode)) : next.inHand = [] := by
  rcases moves.left paused calm with ⟨after, running, code⟩ | ⟨_, quiet⟩
  · have first : after.code.head? ≠ some (.code .scanCode) := by
      rw [code]
      exact head
    rw [Board.inHand, running, List.flatMap_cons, if_neg first, (calm_nothing calm).2]
    rfl
  · exact (calm_nothing quiet).2

/-- The keyboard's handler reads a byte that is there. -/
theorem UnderWay.full (underWay : board.UnderWay (.inb 0x60) frame rest) :
    board.hardware.port.full = true := by
  cases underWay with
  | opened opened => exact absurd rfl opened.notKey
  | handling returns below checked served =>
      have taken : Op.keyTaken (.inb 0x60 :: frame.code) = true := by simp [Op.keyTaken]
      exact (served.keyServed taken).1

theorem Delivered.advance (esp ebp : Int) (delivered : Delivered trace board)
    (underWay : board.UnderWay op frame rest)
    (paused : board.machine.kernel.prevSchedTerm ≠ none → board.Paused)
    (under : board.running = { frame with code := op :: frame.code } :: rest) :
    Delivered (trace ++ [board.advanced esp ebp frame rest op])
      (board.exec esp ebp frame rest op).1 := by
  have calm := underWay.calm
  have moves := underWay.moves esp ebp paused
  have noCodes := (calm_nothing calm).2
  apply delivered.snoc
  · rw [(exec_reply esp ebp).1, moves.pendingIrqs paused calm, pendingIrqs_cons under calm]
    exact List.append_nil _
  · by_cases reads : op = .inb 0x60
    · subst reads
      have head := underWay.head.mp rfl
      have full := underWay.full
      have running : (board.exec esp ebp frame rest (.inb 0x60)).1.running =
          { frame with byte := board.hardware.port.output } :: rest := Function.update_self ..
      have emptied : (board.exec esp ebp frame rest (.inb 0x60)).1.hardware.port.full = false :=
        rfl
      have silent : (board.exec esp ebp frame rest (.inb 0x60)).2 = none := rfl
      simp only [inHand, buffered, under, running, List.flatMap_cons, noCodes, emptied, silent,
        Signal.scanned, full]
      simp [head]
    · have port : (board.exec esp ebp frame rest op).1.hardware.port = board.hardware.port :=
        exec_port esp ebp reads
      have head : frame.code.head? ≠ some (.code .scanCode) :=
        fun scans => reads (underWay.head.mpr scans)
      rw [(exec_reply esp ebp).2, moves.inHand paused calm head]
      simp only [inHand, buffered, under, List.flatMap_cons, noCodes, port, Signal.scanned]
      by_cases scan : op = .code .scanCode
      · simp [scan]
      · simp [scan]

/-! Whole runs. -/

theorem irqCode_irq : ∀ irq ∈ usedIrqs, (irqCode irq).filterMap Op.irq = [irq] ∧
    (irqCode irq).head? ≠ some (.code .scanCode) := by
  decide

theorem Delivered.disturb {disturbance : Disturbance} {reply : Option Event}
    (delivered : Delivered trace board)
    (fired : board.step platform (.disturb disturbance) = some (next, reply)) :
    Delivered (trace ++ [⟨board, .disturb disturbance, reply, next⟩]) next := by
  obtain ⟨hardware, occurs, same⟩ := Option.map_eq_some_iff.mp fired
  obtain ⟨rfl, rfl⟩ := Prod.mk.inj same
  apply delivered.snoc
  · exact List.append_nil _
  · have hand : inHand { board with hardware := hardware } = board.inHand := rfl
    rw [hand, List.append_assoc]
    apply congrArg (board.inHand ++ ·)
    cases disturbance with
    | timer =>
        obtain rfl := Option.some.inj occurs
        exact List.append_nil _
    | clock =>
        obtain rfl := Option.some.inj occurs
        exact List.append_nil _
    | noise irq =>
        simp only [PcHardware.disturb] at occurs
        split at occurs
        · obtain rfl := Option.some.inj occurs
          exact List.append_nil _
        · cases occurs
    | scan byte =>
        simp only [PcHardware.disturb] at occurs
        split at occurs
        · cases occurs
        · rename_i empty
          obtain rfl := Option.some.inj occurs
          simp [buffered, empty, Signal.scanned, KeyPort.put]

theorem Delivered.step {signal : Signal} {reply : Option Event}
    (delivered : Delivered trace board) (inv : Inv platform trace board)
    (fired : board.step platform signal = some (next, reply)) :
    Delivered (trace ++ [⟨board, signal, reply, next⟩]) next := by
  cases signal with
  | disturb disturbance => exact delivered.disturb fired
  | interrupt stale =>
      obtain ⟨on, rfl, irq, used, pics, takes, _, rfl⟩ := inv.control.takes fired
      obtain ⟨pending, head⟩ := irqCode_irq irq used
      have running := board.interrupted_running stale irq pics
      have port : (board.interrupted stale irq pics).hardware.port = board.hardware.port := rfl
      -- what is interrupted has nothing in hand
      obtain ⟨noIrqs, noCodes⟩ := calm_nothing (inv.control.calm on)
      apply delivered.snoc
      · simp only [pendingIrqs, running, List.flatMap_cons, noIrqs, takes, pending]
        rfl
      · simp only [inHand, buffered, running, List.flatMap_cons, noCodes, if_neg head, port,
          Signal.scanned]
        simp
  | advance esp ebp =>
      obtain ⟨op, frame, rest, under, rfl, rfl⟩ := step_advance fired
      exact delivered.advance esp ebp (inv.control.underWay under) inv.phase.paused under
  | setFlags flag keyboardFlags =>
      obtain ⟨before, after, rfl, hardware, _⟩ := inv.setFlags fired
      exact delivered.free before after (congrArg PcHardware.port hardware) rfl rfl ⟨rfl, rfl⟩
  | launch stackFrame =>
      obtain ⟨before, after, rfl, hardware, _⟩ := inv.launch fired
      exact delivered.free before after (congrArg PcHardware.port hardware) rfl rfl ⟨rfl, rfl⟩
  | call event =>
      obtain ⟨before, after, rfl, call, hardware, _⟩ := inv.call fired
      refine delivered.free before after (congrArg PcHardware.port hardware) rfl rfl ?_
      cases event with
      | tick | key | rtcInterrupt => cases call
      | _ => exact ⟨rfl, rfl⟩

theorem Delivered.run {stale : Frame} {keyboardFlags : Bool} {hardware : PcHardware}
    (cold : hardware.Cold)
    (run : Run (Board.step platform) (Board.start platform memory stale keyboardFlags hardware)
      trace board) (spaced : Spaced trace) : Delivered trace board := by
  generalize began : Board.start platform memory stale keyboardFlags hardware = first at run
  induction run with
  | nil =>
      subst began
      constructor
      · rfl
      · simp only [inHand, buffered, Board.start, i8259Init_hardware, cold.keyboard]
        rfl
  | snoc before fired induction =>
      subst began
      exact (induction spaced.before).step (.run cold before spaced.before) fired

end Board

end Ece391Os
