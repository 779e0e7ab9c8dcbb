import Ece391Os.Data.Divider
import Ece391Os.Process.Rates
import Ece391Os.Terminal.OneLine

namespace Ece391Os

open Data

/-! The virtual clock: which frequencies `rtc_write` takes, and how often the
handler of the real clock then raises the flag of a terminal. -/

def PowerOfTwo (value : Int) : Prop := ∃ exponent : Nat, value = 2 ^ exponent

namespace Rtc

theorem rate_spec {freq : Int} (valid : freq ∈ validFreqs) :
    rateOf freq = some (maxFreq / freq) ∧ 0 ≤ freq ∧ maxFreq / freq * freq = 1024 ∧
      0 < maxFreq / freq ∧ maxFreq / freq ≤ maxFreq / 2 := by
  have every : ∀ freq ∈ validFreqs, rateOf freq = some (maxFreq / freq) ∧ 0 ≤ freq ∧
      maxFreq / freq * freq = 1024 ∧ 0 < maxFreq / freq ∧ maxFreq / freq ≤ maxFreq / 2 := by
    decide
  exact every freq valid

/-- One power of two is missing from the `switch` of `rtc_write`. -/
theorem powerOfTwo_iff (freq : Int) :
    PowerOfTwo freq ∧ 2 ≤ freq ∧ freq ≤ 1024 ↔ freq ∈ validFreqs ∨ freq = 256 := by
  constructor
  · rintro ⟨⟨exponent, rfl⟩, lower, upper⟩
    have small : exponent < 11 := by
      by_contra large
      have above : (2 : Int) ^ 11 ≤ 2 ^ exponent := pow_le_pow_right₀ (by decide) (by omega)
      omega
    have every : ∀ exponent < 11, 2 ≤ (2 : Int) ^ exponent →
        2 ^ exponent ∈ validFreqs ∨ (2 : Int) ^ exponent = 256 := by decide
    exact every exponent small lower
  · intro known
    have listed : ∀ freq ∈ validFreqs ++ [256], ∃ exponent < 11,
        freq = 2 ^ exponent ∧ 2 ≤ freq ∧ freq ≤ 1024 := by decide
    obtain ⟨exponent, _, power, range⟩ := listed freq (by simpa using known)
    exact ⟨⟨exponent, power⟩, range⟩

structure WritesExactly (rtc : Rtc) (terminal : Fin 3) (buf : Option Memory)
    (nbytes : Int) : Prop where
  accepts : (rtc.rtcWrite terminal buf nbytes).1 = 0 ↔
    nbytes = 4 ∧ ∃ bytes, buf = some bytes ∧
      PowerOfTwo (i32 (bytes.word 0)) ∧ 2 ≤ i32 (bytes.word 0) ∧ i32 (bytes.word 0) ≤ 1024
  refuses : (rtc.rtcWrite terminal buf nbytes).1 ≠ 0 →
    (rtc.rtcWrite terminal buf nbytes).1 = -1
  rate : ∀ bytes, buf = some bytes → (rtc.rtcWrite terminal buf nbytes).1 = 0 →
    (rtc.rtcWrite terminal buf nbytes).2.frequencies terminal * i32 (bytes.word 0) = 1024
  others : ∀ other, other ≠ terminal →
    (rtc.rtcWrite terminal buf nbytes).2.frequencies other = rtc.frequencies other
  failed : (rtc.rtcWrite terminal buf nbytes).1 ≠ 0 →
    (rtc.rtcWrite terminal buf nbytes).2.frequencies = rtc.frequencies

variable {rtc : Rtc} {terminal : Fin 3} {buf : Option Memory} {nbytes : Int}

theorem rtcWrite_taken {bytes : Memory} (valid : i32 (bytes.word 0) ∈ validFreqs) :
    rtc.rtcWrite terminal (some bytes) 4 =
      (0, rtc.setRate terminal (maxFreq / i32 (bytes.word 0))) := by
  rw [rtcWrite, if_neg (by decide), (rate_spec valid).1]

theorem rtcWrite_refused
    (invalid : ¬ (nbytes = 4 ∧ ∃ bytes, buf = some bytes ∧ i32 (bytes.word 0) ∈ validFreqs)) :
    rtc.rtcWrite terminal buf nbytes = (-1, rtc) := by
  cases buf with
  | none => rfl
  | some bytes =>
      rw [rtcWrite]
      split
      · rfl
      · rename_i whole
        cases known : rateOf (i32 (bytes.word 0)) with
        | none => rfl
        | some rate =>
            exact absurd ⟨not_not.mp whole, bytes, rfl, (rateOf_some known).2⟩ invalid

theorem writesExactly_taken {bytes : Memory} (valid : i32 (bytes.word 0) ∈ validFreqs) :
    rtc.WritesExactly terminal (some bytes) 4 := by
  obtain ⟨power, range⟩ := (powerOfTwo_iff _).mpr (.inl valid)
  constructor
  · rw [rtcWrite_taken valid]
    exact iff_of_true rfl ⟨rfl, bytes, rfl, power, range⟩
  · rw [rtcWrite_taken valid]
    exact fun failed => absurd rfl failed
  · intro given same _
    obtain rfl := Option.some.inj same
    rw [rtcWrite_taken valid]
    simp only [setRate, Function.update_self]
    exact (rate_spec valid).2.2.1
  · intro other apart
    rw [rtcWrite_taken valid]
    exact Function.update_of_ne apart ..
  · rw [rtcWrite_taken valid]
    exact fun failed => absurd rfl failed

theorem writesExactly_refused
    (invalid : ¬ (nbytes = 4 ∧ ∃ bytes, buf = some bytes ∧ i32 (bytes.word 0) ∈ validFreqs))
    (present : ¬ (nbytes = 4 ∧ ∃ bytes, buf = some bytes ∧ i32 (bytes.word 0) = 256)) :
    rtc.WritesExactly terminal buf nbytes := by
  have refused : rtc.rtcWrite terminal buf nbytes = (-1, rtc) := rtcWrite_refused invalid
  constructor
  · rw [refused]
    refine iff_of_false (fun accepted => nomatch accepted) ?_
    rintro ⟨whole, bytes, given, power⟩
    rcases (powerOfTwo_iff _).mp power with known | missing
    · exact invalid ⟨whole, bytes, given, known⟩
    · exact present ⟨whole, bytes, given, missing⟩
  · intro _
    rw [refused]
  · intro _ _ accepted
    rw [refused] at accepted
    cases accepted
  · intro _ _
    rw [refused]
  · intro _
    rw [refused]

/-- `rtc_write` follows the law except on 256. -/
theorem writesExactly_iff (rtc : Rtc) (terminal : Fin 3) (buf : Option Memory) (nbytes : Int) :
    rtc.WritesExactly terminal buf nbytes ↔
      ¬ (nbytes = 4 ∧ ∃ bytes, buf = some bytes ∧ i32 (bytes.word 0) = 256) := by
  constructor
  · rintro exact ⟨rfl, bytes, rfl, missing⟩
    have accepted := exact.accepts.mpr ⟨rfl, bytes, rfl, (powerOfTwo_iff _).mpr (.inr missing)⟩
    have unlisted : (256 : Int) ∉ validFreqs := by decide
    rw [rtcWrite_refused] at accepted
    · cases accepted
    · rintro ⟨-, given, same, valid⟩
      obtain rfl := Option.some.inj same
      exact unlisted (missing ▸ valid)
  · intro present
    by_cases valid : nbytes = 4 ∧ ∃ bytes, buf = some bytes ∧ i32 (bytes.word 0) ∈ validFreqs
    · obtain ⟨rfl, bytes, rfl, valid⟩ := valid
      exact writesExactly_taken valid
    · exact writesExactly_refused valid present

theorem writes256_refused :
    ¬ WritesExactly ⟨fun _ => 0, fun _ => 0, fun _ => 0⟩ 0
      (some fun position => if position = 1 then 1 else 0) 4 := by
  intro exact
  have accepted := exact.accepts.mpr ⟨rfl, _, rfl, ⟨8, by decide⟩, by decide, by decide⟩
  revert accepted
  decide

end Rtc

/-! The ticks of the real clock and the virtual interrupts they bring. -/

namespace Rtc

/-- The handler stores 1 in the flag of a terminal: it leaves a 1 where there was
none. -/
def raises (terminal : Fin 3) (rtc : Rtc) : Bool :=
  ({ rtc with interruptFlags := fun _ => 0 } : Rtc).interruptHandler.interruptFlags terminal == 1

theorem raises_iff (rtc : Rtc) (terminal : Fin 3) :
    rtc.raises terminal = true ↔ rtc.frequencies terminal - 1 ≤ rtc.count terminal := by
  rw [raises, beq_iff_eq, (interruptHandler_at _ terminal).1]
  constructor
  · intro set
    by_contra early
    rw [if_neg early] at set
    cases set
  · exact fun late => if_pos late

theorem interruptHandler_flag (rtc : Rtc) (terminal : Fin 3) :
    rtc.interruptHandler.interruptFlags terminal =
      if rtc.raises terminal = true then 1 else rtc.interruptFlags terminal := by
  rw [(rtc.interruptHandler_at terminal).1]
  simp only [raises_iff]

structure Counts (rtc : Rtc) (terminal : Fin 3) (period count : Nat) : Prop where
  period : rtc.frequencies terminal = period
  count : rtc.count terminal = count

theorem Counts.raises {rtc : Rtc} {terminal : Fin 3} {period count : Nat}
    (counts : rtc.Counts terminal period count) :
    rtc.raises terminal = true ↔ Divider.reached period count := by
  rw [raises_iff, counts.period, counts.count, Divider.reached]
  omega

theorem Counts.interruptHandler {rtc : Rtc} {terminal : Fin 3} {period count : Nat}
    (counts : rtc.Counts terminal period count) :
    rtc.interruptHandler.Counts terminal period (Divider.next period count) := by
  refine ⟨counts.period, ?_⟩
  rw [(rtc.interruptHandler_at terminal).2]
  simp only [← raises_iff, counts.raises, Divider.next]
  split
  · rfl
  · rw [counts.count]
    rfl

structure Bounded (rtc : Rtc) : Prop where
  rates : ∀ terminal, rtc.frequencies terminal ≤ maxFreq / 2
  counts : ∀ terminal, 0 ≤ rtc.count terminal ∧ rtc.count terminal < maxFreq / 2

theorem Bounded.interruptHandler {rtc : Rtc} (bounded : rtc.Bounded) :
    rtc.interruptHandler.Bounded := by
  refine ⟨bounded.rates, fun terminal => ?_⟩
  have rate := bounded.rates terminal
  have count := bounded.counts terminal
  rw [(rtc.interruptHandler_at terminal).2]
  split
  · exact ⟨le_rfl, by decide⟩
  · omega

end Rtc

namespace Kernel

variable {platform : Platform} {kernel : Kernel}

theorem Step.count {event : Event} {result : Kernel × Reply}
    (fired : Step platform kernel event result) (sound : kernel.processView.Sound)
    (other : event ≠ .rtcInterrupt) : result.1.rtc.count = kernel.rtc.count := by
  by_cases moves : movesClock event = true
  · cases fired with
    | rtcInterrupt => exact absurd rfl other
    | openFile filename =>
        simp only [Kernel.openFile]
        repeat' split
        all_goals rfl
    | write fd buf nbytes =>
        simp only [Kernel.write, Rtc.rtcWrite]
        repeat' split
        all_goals rfl
    | _ => cases moves
  · exact (fired.clock_kept sound (Bool.eq_false_iff.mpr moves)).2

end Kernel

def SessionEvent.isTick : SessionEvent → Bool
  | .fire .rtcInterrupt => true
  | _ => false

theorem SessionEvent.isTick_iff (event : SessionEvent) :
    event.isTick = true ↔ event = .fire .rtcInterrupt := by
  constructor
  · intro tick
    unfold isTick at tick
    split at tick
    · rfl
    · cases tick
  · rintro rfl
    rfl

namespace Session

variable {platform : Platform} {session next : Session} {event : SessionEvent} {reply : Reply}

def rtc (session : Session) : Rtc := session.machine.kernel.rtc

/-- The frequency to which a call on a terminal sets its clock. -/
def asksOn (platform : Platform) (terminal : Fin 3) (session : Session) :
    SessionEvent → Option Int
  | .fire event => session.machine.asksOn platform terminal event
  | _ => none

theorem asksOn_valid {terminal : Fin 3} {freq : Int}
    (asks : session.asksOn platform terminal event = some freq) : freq ∈ Rtc.validFreqs := by
  cases event with
  | fire event => exact Machine.asksOn_valid asks
  | launch | terminalOpen | terminalClose => cases asks

inductive Clocked (platform : Platform) (session next : Session) : SessionEvent → Prop
  | ticked (handled : next.rtc = session.rtc.interruptHandler) :
      Clocked platform session next (.fire .rtcInterrupt)
  | called {event : SessionEvent} (other : event ≠ .fire .rtcInterrupt)
      (count : next.rtc.count = session.rtc.count)
      (rates : ∀ terminal, next.rtc.frequencies terminal =
        (session.asksOn platform terminal event).elim (session.rtc.frequencies terminal)
          (Rtc.maxFreq / ·)) :
      Clocked platform session next event

theorem Clocked.kept (other : event ≠ .fire .rtcInterrupt) (same : next.rtc = session.rtc)
    (silent : ∀ terminal, session.asksOn platform terminal event = none) :
    Clocked platform session next event := by
  refine .called other (by rw [same]) fun terminal => ?_
  rw [silent, same]
  rfl

theorem booting_clocked {machine : Machine} {event : Event}
    (booted : Booted platform session.machine.kernel) (interrupt : event.isCall = false)
    (moved : session.machine.step platform event = some (machine, reply)) :
    Clocked platform session { session with machine := machine } (.fire event) := by
  have silent (terminal : Fin 3) : session.asksOn platform terminal (.fire event) = none := by
    cases event with
    | tick | key | rtcInterrupt => exact ite_self _
    | _ => cases interrupt
  have fired := Machine.step_kernel moved
  cases event with
  | rtcInterrupt =>
      obtain ⟨rfl, rfl⟩ := Prod.mk.inj (Option.some.inj moved)
      exact .ticked rfl
  | tick esp ebp =>
      obtain ⟨mask, idle⟩ := Kernel.pitInterruptHandler_idle esp ebp booted.scheduler.1
      obtain ⟨rfl, rfl⟩ := Prod.mk.inj (Option.some.inj moved)
      refine .kept (fun same => nomatch same) ?_ silent
      simp only [rtc]
      rw [idle]
  | key scanCode =>
      obtain ⟨mask, ignored | typed⟩ :=
        session.machine.kernel.keyboardInterruptHandler_cases scanCode
      · obtain ⟨rfl, rfl⟩ := Prod.mk.inj (Option.some.inj moved)
        refine .kept (fun same => nomatch same) ?_ silent
        simp only [rtc]
        rw [ignored]
      · obtain ⟨rfl, rfl⟩ := Prod.mk.inj (Option.some.inj moved)
        refine .kept (fun same => nomatch same) ?_ silent
        simp only [rtc]
        rw [typed]
        rfl
  | _ => cases interrupt

theorem Sound.clocked (sound : session.Sound platform)
    (fired : session.step platform event = some (next, reply)) :
    Clocked platform session next event := by
  cases moves fired with
  | launch frame booting success =>
      obtain ⟨entryPoint, memory, rfl⟩ := Kernel.launch_eq success
      exact .kept (fun same => nomatch same) rfl fun _ => rfl
  | @fire event machine reply running moved =>
      by_cases launched : session.launched = true
      · have processes := (sound.wellKept launched).processes
        by_cases tick : event = .rtcInterrupt
        · subst tick
          obtain ⟨rfl, rfl⟩ := Prod.mk.inj (Option.some.inj moved)
          exact .ticked rfl
        · refine .called (fun same => tick (SessionEvent.fire.inj same)) ?_ fun terminal => ?_
          · exact (Machine.step_kernel moved).count processes tick
          · exact Machine.frequencies_step terminal processes moved
      · have booting := Bool.eq_false_iff.mpr launched
        exact booting_clocked (sound.booted booting) (running.resolve_left launched) moved
  | driver direct running =>
      rcases direct with rfl | rfl
      · exact .kept (fun same => nomatch same) rfl fun _ => rfl
      · exact .kept (fun same => nomatch same) rfl fun _ => rfl

theorem Clocked.rate_asked (clocked : Clocked platform session next event) {terminal : Fin 3}
    {freq : Int} (asks : session.asksOn platform terminal event = some freq) :
    next.rtc.frequencies terminal = Rtc.maxFreq / freq := by
  cases clocked with
  | ticked =>
      have silent : session.asksOn platform terminal (.fire .rtcInterrupt) = none := ite_self _
      rw [silent] at asks
      cases asks
  | called _ _ rates =>
      rw [rates, asks]
      rfl

theorem Clocked.flag (clocked : Clocked platform session next (.fire .rtcInterrupt))
    (terminal : Fin 3) : next.rtc.interruptFlags terminal =
      if session.rtc.raises terminal = true then 1 else session.rtc.interruptFlags terminal := by
  cases clocked with
  | ticked handled =>
      rw [handled]
      exact session.rtc.interruptHandler_flag terminal
  | called other => exact absurd rfl other

theorem Clocked.bounded (clocked : Clocked platform session next event)
    (bounded : session.rtc.Bounded) : next.rtc.Bounded := by
  cases clocked with
  | ticked handled =>
      rw [handled]
      exact bounded.interruptHandler
  | called _ count rates =>
      refine ⟨fun terminal => ?_, fun terminal => ?_⟩
      · rw [rates]
        cases asks : session.asksOn platform terminal event with
        | none => exact bounded.rates terminal
        | some freq => exact (Rtc.rate_spec (asksOn_valid asks)).2.2.2.2
      · rw [count]
        exact bounded.counts terminal

theorem bounded_run {memory : BootMemory}
    {trace : List (Transition Session SessionEvent Reply)}
    (run : Run (step platform) (atBoot platform memory) trace session) : session.rtc.Bounded := by
  have both : session.Sound platform ∧ session.rtc.Bounded :=
    run.invariant (fun session => session.Sound platform ∧ session.rtc.Bounded)
      (fun both fired => ⟨both.1.step fired, (both.1.clocked fired).bounded both.2⟩)
      ⟨.boot memory, fun _ => (by decide : (0 : Int) ≤ Rtc.maxFreq / 2),
        fun _ => (by decide : (0 : Int) ≤ 0 ∧ (0 : Int) < Rtc.maxFreq / 2)⟩
  exact both.2

def ticks (terminal : Fin 3) (trace : List (Transition Session SessionEvent Reply)) :
    List Bool :=
  (trace.filter fun transition => transition.event.isTick).map fun transition =>
    transition.before.rtc.raises terminal

theorem ticks_tick (terminal : Fin 3) (trace : List (Transition Session SessionEvent Reply))
    {transition : Transition Session SessionEvent Reply}
    (tick : transition.event.isTick = true) :
    ticks terminal (trace ++ [transition]) =
      ticks terminal trace ++ [transition.before.rtc.raises terminal] := by
  simp only [ticks, List.filter_append, List.map_append, List.filter_singleton, tick,
    cond_true, List.map_singleton]

theorem ticks_other (terminal : Fin 3) (trace : List (Transition Session SessionEvent Reply))
    {transition : Transition Session SessionEvent Reply}
    (other : ¬ transition.event.isTick = true) :
    ticks terminal (trace ++ [transition]) = ticks terminal trace := by
  simp only [ticks, List.filter_append, List.filter_singleton, other,
    cond_false, List.append_nil]

/-- While the rate is kept, the ticks step a divider and their interrupts are its
pulses. -/
theorem counted_run {start : Session} {trace : List (Transition Session SessionEvent Reply)}
    {terminal : Fin 3} {period count : Nat}
    (run : Run (step platform) start trace session) (sound : start.Sound platform)
    (positive : 0 < period) (counts : start.rtc.Counts terminal period count)
    (kept : ∀ transition ∈ trace, transition.after.rtc.frequencies terminal =
      transition.before.rtc.frequencies terminal) :
    session.rtc.Counts terminal period
        ((Divider.next period)^[(ticks terminal trace).length] count) ∧
      Strobe (Divider.first period count) period (ticks terminal trace) := by
  induction run with
  | nil => exact ⟨counts, Strobe.nil _ _⟩
  | @snoc state next event reply trace before fired induction =>
      obtain ⟨here, strobe⟩ := induction fun transition member =>
        kept transition (List.mem_append_left _ member)
      have same : next.rtc.frequencies terminal = state.rtc.frequencies terminal :=
        kept _ List.mem_concat_self
      have reached := before.invariant (Session.Sound platform)
        (fun sound fired => sound.step fired) sound
      cases reached.clocked fired with
      | ticked handled =>
          rw [ticks_tick terminal trace rfl, List.length_append, List.length_singleton,
            Function.iterate_succ_apply', handled]
          refine ⟨here.interruptHandler, strobe.snoc ?_⟩
          rw [here.raises]
          exact Divider.reached_iterate positive count _
      | called other kept =>
          rw [ticks_other terminal trace fun tick =>
            other ((SessionEvent.isTick_iff event).mp tick)]
          exact ⟨⟨same.trans here.period, (congrFun kept terminal).trans here.count⟩, strobe⟩

/-- The virtual interrupts of a terminal since a call that set its clock. -/
structure VirtualRate (terminal : Fin 3) (freq : Int)
    (set : Transition Session SessionEvent Reply)
    (later : List (Transition Session SessionEvent Reply)) : Prop where
  rate : set.after.rtc.frequencies terminal = Rtc.maxFreq / freq
  raised : ∀ transition ∈ later, transition.event = .fire .rtcInterrupt →
    transition.after.rtc.interruptFlags terminal =
      if transition.before.rtc.raises terminal = true then 1
      else transition.before.rtc.interruptFlags terminal
  periodic : ∃ first < (Rtc.maxFreq / freq).toNat,
    Strobe first (Rtc.maxFreq / freq).toNat (ticks terminal later) ∧
      ∀ before window after, ticks terminal later = before ++ window ++ after →
        first ≤ before.length → window.length = 1024 → (window.count true : Int) = freq

/-- The counters of the virtual clock are bounded, and a clock that is set to a
frequency interrupts at that frequency until it is set again. -/
theorem virtualRate_run {memory : BootMemory}
    {trace : List (Transition Session SessionEvent Reply)}
    (run : Run (step platform) (atBoot platform memory) trace session) :
    (∀ terminal, 0 ≤ session.rtc.count terminal ∧ session.rtc.count terminal < 512) ∧
      ∀ earlier set later terminal freq, trace = earlier ++ set :: later →
        set.before.asksOn platform terminal set.event = some freq →
        (∀ transition ∈ later, transition.after.rtc.frequencies terminal =
          transition.before.rtc.frequencies terminal) →
        VirtualRate terminal freq set later := by
  refine ⟨(bounded_run run).counts, ?_⟩
  rintro earlier set later terminal freq rfl asks kept
  obtain ⟨middle, before, since⟩ := run.parts
  obtain ⟨rfl, fired, since⟩ := since.first
  obtain ⟨-, nonneg, whole, positive, -⟩ := Rtc.rate_spec (asksOn_valid asks)
  have sound := (soundAfter before).step fired
  have rate : set.after.rtc.frequencies terminal = Rtc.maxFreq / freq :=
    ((soundAfter before).clocked fired).rate_asked asks
  have bounded := bounded_run (before.snoc fired)
  have counts : set.after.rtc.Counts terminal (Rtc.maxFreq / freq).toNat
      (set.after.rtc.count terminal).toNat :=
    ⟨rate.trans (Int.toNat_of_nonneg positive.le).symm,
      (Int.toNat_of_nonneg (bounded.counts terminal).1).symm⟩
  have strobe := (counted_run since sound (by omega) counts kept).2
  refine ⟨rate, ?_, _, Divider.first_lt (by omega) _, strobe, ?_⟩
  · intro transition member tick
    obtain ⟨⟨_, reached⟩, fires⟩ := since.reached member
    have here := reached.invariant (Session.Sound platform)
      (fun sound fired => sound.step fired) sound
    rw [tick] at fires
    exact (here.clocked fires).flag terminal
  · intro before window after parts begun length
    have product : (freq.toNat : Int) * (Rtc.maxFreq / freq).toNat = 1024 := by
      rw [Int.toNat_of_nonneg nonneg, Int.toNat_of_nonneg positive.le, Int.mul_comm]
      exact whole
    rw [parts] at strobe
    rw [strobe.count_window (by omega) begun (by omega : window.length = freq.toNat * _)]
    exact Int.toNat_of_nonneg nonneg

end Session

namespace Sample

theorem opensClock_answers : (launching.after.step platform (.fire opensClock)).isSome = true := by
  decide +kernel

def openingClock : Transition Session SessionEvent Reply :=
  .fire (Session.step platform) launching.after (.fire opensClock) opensClock_answers

theorem setsClock_answers :
    (openingClock.after.step platform (.fire setsClock)).isSome = true := by
  decide +kernel

def settingClock : Transition Session SessionEvent Reply :=
  .fire (Session.step platform) openingClock.after (.fire setsClock) setsClock_answers

theorem settingClock_run : Run (Session.step platform) (.atBoot platform memory)
    [launching, openingClock, settingClock] settingClock.after :=
  (((Run.nil (Session.atBoot platform memory)).fire _ launches).fire _
    opensClock_answers).fire _ setsClock_answers

/-- The second shell opens its clock, and the real clock ticks for one period and a second. -/
def clockTicks : List SessionEvent :=
  .fire (.tick 0 0) :: .fire opensClock :: List.replicate (32 + 1024) (.fire .rtcInterrupt)

def keepsRate (transition : Transition Session SessionEvent Reply) : Bool :=
  transition.after.rtc.frequencies 0 = transition.before.rtc.frequencies 0

theorem clockTicks_answers :
    (runChecked (Session.step platform) keepsRate settingClock.after clockTicks).isSome =
      true := by
  decide +kernel

theorem length_ticks {trace : List (Transition Session SessionEvent Reply)}
    (events : trace.map Transition.event = clockTicks) :
    (Session.ticks 0 trace).length = 32 + 1024 := by
  have filtered : (trace.filter fun transition => transition.event.isTick).map Transition.event =
      clockTicks.filter SessionEvent.isTick := by
    rw [← events, List.filter_map]
    rfl
  rw [Session.ticks, List.length_map, ← List.length_map Transition.event, filtered]
  decide +kernel

end Sample

theorem virtualRate_sample :
    ∃ later session, Run (Session.step Sample.platform) Sample.settingClock.after later session ∧
      later.map Transition.event = Sample.clockTicks ∧
      Session.VirtualRate 0 32 Sample.settingClock later ∧
      ((Session.ticks 0 later).drop 32).count true = 32 := by
  obtain ⟨later, since, events, checked⟩ :=
    run_of_runChecked (Option.some_get Sample.clockTicks_answers).symm
  have rate : Session.VirtualRate 0 32 Sample.settingClock later :=
    (Session.virtualRate_run (Sample.settingClock_run.append since)).2
      [Sample.launching, Sample.openingClock] _ _ 0 32 rfl (by decide +kernel)
      fun transition member => of_decide_eq_true (checked transition member)
  refine ⟨later, _, since, events, rate, ?_⟩
  obtain ⟨first, early, -, counts⟩ := rate.periodic
  have length := Sample.length_ticks events
  have period : (Rtc.maxFreq / 32).toNat = 32 := by decide
  refine Int.ofNat_inj.mp (counts ((Session.ticks 0 later).take 32) _ [] ?_ ?_ ?_)
  · rw [List.append_nil, List.take_append_drop]
  · rw [List.length_take]
    omega
  · rw [List.length_drop]
    omega

end Ece391Os
