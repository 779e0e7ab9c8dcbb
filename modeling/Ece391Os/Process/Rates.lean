import Ece391Os.Files.DescriptorRuns
import Ece391Os.Process.Steps

namespace Ece391Os

open Data

/-! The rate at which the clock wakes the readers of a terminal. -/

namespace Rtc

def restarted (terminal : Fin 3) (rtc : Rtc) : Rtc :=
  { rtc with
    interruptFlags := Function.update rtc.interruptFlags terminal 0
    count := Function.update rtc.count terminal 0 }

/-- A read that begins there waits for so many hardware ticks. -/
def WaitsFor (rtc : Rtc) (terminal : Fin 3) (ticks : Nat) : Prop :=
  ∀ k, ((interruptHandler^[k] (rtc.restarted terminal)).interruptFlags terminal = 1 ↔
    ticks ≤ k)

theorem tick_self (rtc : Rtc) (terminal : Fin 3) :
    (rtc.tick terminal).interruptFlags terminal =
        (if rtc.frequencies terminal - 1 ≤ rtc.count terminal then 1
          else rtc.interruptFlags terminal) ∧
      (rtc.tick terminal).count terminal =
        if rtc.frequencies terminal - 1 ≤ rtc.count terminal then 0
        else rtc.count terminal + 1 := by
  refine ⟨?_, Function.update_self ..⟩
  simp only [tick]
  split
  · exact Function.update_self ..
  · rfl

theorem tick_other (rtc : Rtc) {terminal other : Fin 3} (apart : terminal ≠ other) :
    (rtc.tick other).interruptFlags terminal = rtc.interruptFlags terminal ∧
      (rtc.tick other).count terminal = rtc.count terminal := by
  refine ⟨?_, Function.update_of_ne apart ..⟩
  simp only [tick]
  split
  · exact Function.update_of_ne apart ..
  · rfl

theorem interruptHandler_frequencies (rtc : Rtc) :
    rtc.interruptHandler.frequencies = rtc.frequencies := rfl

theorem interruptHandler_at (rtc : Rtc) (terminal : Fin 3) :
    rtc.interruptHandler.interruptFlags terminal =
        (if rtc.frequencies terminal - 1 ≤ rtc.count terminal then 1
          else rtc.interruptFlags terminal) ∧
      rtc.interruptHandler.count terminal =
        if rtc.frequencies terminal - 1 ≤ rtc.count terminal then 0
        else rtc.count terminal + 1 := by
  have first (terminal : Fin 3) (apart : terminal ≠ 0) := rtc.tick_other apart
  have second (terminal : Fin 3) (apart : terminal ≠ 1) := (rtc.tick 0).tick_other apart
  have third (terminal : Fin 3) (apart : terminal ≠ 2) :=
    ((rtc.tick 0).tick 1).tick_other apart
  match terminal with
  | 0 =>
      rw [interruptHandler, (third 0 (by decide)).1, (third 0 (by decide)).2,
        (second 0 (by decide)).1, (second 0 (by decide)).2]
      exact rtc.tick_self 0
  | 1 =>
      rw [interruptHandler, (third 1 (by decide)).1, (third 1 (by decide)).2,
        ← (first 1 (by decide)).1, ← (first 1 (by decide)).2]
      exact (rtc.tick 0).tick_self 1
  | 2 =>
      rw [interruptHandler, ← (first 2 (by decide)).1, ← (first 2 (by decide)).2,
        ← (second 2 (by decide)).1, ← (second 2 (by decide)).2]
      exact ((rtc.tick 0).tick 1).tick_self 2

theorem iterate_frequencies (k : Nat) (rtc : Rtc) :
    (interruptHandler^[k] rtc).frequencies = rtc.frequencies := by
  induction k with
  | zero => rfl
  | succ k induction => rw [Function.iterate_succ_apply', interruptHandler_frequencies, induction]

theorem restarted_iterate {rtc : Rtc} {terminal : Fin 3} (k : Nat)
    (before : (k : Int) < rtc.frequencies terminal) :
    (interruptHandler^[k] (rtc.restarted terminal)).interruptFlags terminal = 0 ∧
      (interruptHandler^[k] (rtc.restarted terminal)).count terminal = k := by
  induction k with
  | zero => exact ⟨Function.update_self .., Function.update_self ..⟩
  | succ k induction =>
      obtain ⟨flag, count⟩ := induction (by omega)
      have rate := congrFun (iterate_frequencies k (rtc.restarted terminal)) terminal
      have running : ¬ (interruptHandler^[k] (rtc.restarted terminal)).frequencies terminal - 1 ≤
          (interruptHandler^[k] (rtc.restarted terminal)).count terminal := by
        rw [rate, count]
        simp only [restarted]
        omega
      obtain ⟨nextFlag, nextCount⟩ :=
        (interruptHandler^[k] (rtc.restarted terminal)).interruptHandler_at terminal
      rw [Function.iterate_succ_apply', nextFlag, nextCount, if_neg running, if_neg running]
      exact ⟨flag, by rw [count]; rfl⟩

theorem interruptFlags_raised {rtc : Rtc} {terminal : Fin 3} (k : Nat)
    (positive : 1 ≤ rtc.frequencies terminal)
    (elapsed : rtc.frequencies terminal ≤ k) :
    (interruptHandler^[k] (rtc.restarted terminal)).interruptFlags terminal = 1 := by
  induction k with
  | zero => omega
  | succ k induction =>
      have rate := congrFun (iterate_frequencies k (rtc.restarted terminal)) terminal
      rw [Function.iterate_succ_apply', (interruptHandler_at _ terminal).1]
      split
      · rfl
      · rename_i early
        apply induction
        by_contra last
        have count := (restarted_iterate k (by omega : (k : Int) < rtc.frequencies terminal)).2
        rw [rate, count] at early
        simp only [restarted] at early
        omega

theorem waitsFor_iff {rtc : Rtc} {terminal : Fin 3} (ticks : Nat)
    (positive : 1 ≤ rtc.frequencies terminal) :
    rtc.WaitsFor terminal ticks ↔ rtc.frequencies terminal = ticks := by
  have raised (k : Nat) :
      (interruptHandler^[k] (rtc.restarted terminal)).interruptFlags terminal = 1 ↔
        rtc.frequencies terminal ≤ k := by
    constructor
    · intro flag
      by_contra early
      rw [(restarted_iterate k (by omega)).1] at flag
      cases flag
    · exact interruptFlags_raised k positive
  constructor
  · intro waits
    have reached := (raised ticks).mp ((waits ticks).mpr le_rfl)
    have within := (waits (rtc.frequencies terminal).toNat).mp
      ((raised _).mpr (by omega))
    omega
  · intro same k
    rw [raised, same]
    omega

def validFreqs : List Int := [2, 4, 8, 16, 32, 64, 128, 512, 1024]

theorem rateOf_some {freq rate : Int} (known : rateOf freq = some rate) :
    rate = maxFreq / freq ∧ freq ∈ validFreqs := by
  unfold rateOf at known
  repeat' split at known
  all_goals cases known
  all_goals
    subst_vars
    exact ⟨rfl, by simp [validFreqs]⟩

theorem period_iff {freq other : Int} (valid : freq ∈ validFreqs)
    (otherValid : other ∈ validFreqs) :
    1 ≤ maxFreq / other ∧
      (maxFreq / other = ((maxFreq / freq).toNat : Int) ↔ other = freq) := by
  have every : ∀ freq ∈ validFreqs, ∀ other ∈ validFreqs, 1 ≤ maxFreq / other ∧
      (maxFreq / other = ((maxFreq / freq).toNat : Int) ↔ other = freq) := by
    decide
  exact every freq valid other otherValid

end Rtc

namespace Kernel

/-- The frequency to which a call of the running process sets the clock. -/
def asksFrequency (platform : Platform) (kernel : Kernel) : Event → Option Int
  | .openFile (some name) =>
      if FdTable.skipsDisk name then none
      else
        match readDentryByName platform.image name,
            findDesc (kernel.pcbAt (kernel.currentPcb platform)).fdt with
        | some dentry, some _ => if dentry.fileType = 0 then some 2 else none
        | _, _ => none
  | .write fd (some bytes) nbytes =>
      let desc := (kernel.pcbAt (kernel.currentPcb platform)).fdt fd
      if 0 ≤ fd ∧ fd ≤ maxFdNum ∧ desc.flags ≠ -1 ∧ desc.jumpPtr = .rtcTable ∧
          nbytes = 4 ∧ (Rtc.rateOf (i32 (bytes.word 0))).isSome then
        some (i32 (bytes.word 0))
      else none
  | _ => none

/-- The frequencies after an event: the terminal of the caller has what it asked
for. -/
def ratesAfter (kernel : Kernel) (asked : Option Int) : Fin 3 → Int :=
  match asked with
  | none => kernel.rtc.frequencies
  | some freq =>
      Function.update kernel.rtc.frequencies kernel.curSchedTerm (Rtc.maxFreq / freq)

variable {platform : Platform} {kernel : Kernel}

theorem openDesc_frequencies (platform : Platform) (dentry : Dentry) (fd : Int)
    (kernel : Kernel) :
    (match openDesc dentry ((kernel.pcbAt (kernel.currentPcb platform)).fdt fd) with
      | none => (kernel, (.ret (-1) : Reply))
      | some desc =>
          ((if dentry.fileType = 0 then
              { kernel with rtc := kernel.rtc.rtcOpen kernel.curSchedTerm }
            else kernel).setDesc (kernel.currentPcb platform) fd desc, .ret fd)).1.rtc.frequencies =
      kernel.ratesAfter (if dentry.fileType = 0 then some 2 else none) := by
  by_cases clock : dentry.fileType = 0
  · simp only [openDesc, clock, if_true]
    rfl
  · rw [if_neg clock, if_neg clock]
    split
    · rfl
    · rfl

theorem openFile_frequencies (platform : Platform) (filename : Option CString)
    (kernel : Kernel) :
    (kernel.openFile platform filename).1.rtc.frequencies =
      kernel.ratesAfter (kernel.asksFrequency platform (.openFile filename)) := by
  cases filename with
  | none => rfl
  | some name =>
      simp only [openFile, asksFrequency]
      split
      · rename_i empty
        rw [if_pos (.inl empty)]
        rfl
      · rename_i named
        split
        · rename_i stdin
          rw [if_pos (.inr (.inl stdin))]
          rfl
        · rename_i notStdin
          split
          · rename_i stdout
            rw [if_pos (.inr (.inr stdout))]
            rfl
          · rename_i notStdout
            have disk : ¬ FdTable.skipsDisk name := by
              rintro (empty | stdin | stdout)
              · exact named empty
              · exact notStdin stdin
              · exact notStdout stdout
            rw [if_neg disk]
            cases found : readDentryByName platform.image name with
            | none => rfl
            | some dentry =>
                cases free : findDesc (kernel.pcbAt (kernel.currentPcb platform)).fdt with
                | none => rfl
                | some fd => exact openDesc_frequencies platform dentry fd kernel

theorem write_frequencies (platform : Platform) (fd : Int) (buf : Option Memory)
    (nbytes : Int) (kernel : Kernel) :
    (kernel.write platform fd buf nbytes).1.rtc.frequencies =
      kernel.ratesAfter (kernel.asksFrequency platform (.write fd buf nbytes)) := by
  cases buf with
  | none =>
      simp only [write]
      repeat' split
      all_goals rfl
  | some bytes =>
      simp only [write, asksFrequency]
      split
      · rename_i outside
        rw [if_neg (by omega)]
        rfl
      · rename_i inside
        split
        · rename_i closed
          rw [if_neg fun asks => asks.2.2.1 closed]
          rfl
        · rename_i used
          cases table : ((kernel.pcbAt (kernel.currentPcb platform)).fdt fd).jumpPtr with
          | rtcTable =>
              simp only [Rtc.rtcWrite]
              split
              · rename_i short
                rw [if_neg fun asks => short asks.2.2.2.2.1]
                rfl
              · rename_i whole
                cases rate : Rtc.rateOf (i32 (bytes.word 0)) with
                | none =>
                    rw [if_neg fun asks => by cases asks.2.2.2.2.2]
                    rfl
                | some divisor =>
                    rw [if_pos ⟨by omega, by omega, used, trivial, not_not.mp whole, rfl⟩,
                      (Rtc.rateOf_some rate).1]
                    rfl
          | _ =>
              rw [if_neg fun asks => by cases asks.2.2.2.1]
              rfl

def movesClock : Event → Bool
  | .rtcInterrupt | .openFile _ | .write .. => true
  | _ => false

theorem Step.clock_kept {event : Event} {result : Kernel × Reply}
    (fired : Step platform kernel event result) (sound : kernel.processView.Sound)
    (still : movesClock event = false) :
    result.1.rtc.frequencies = kernel.rtc.frequencies ∧
      result.1.rtc.count = kernel.rtc.count := by
  cases fired with
  | openFile | write | rtcInterrupt => cases still
  | read fd buf nbytes =>
      simp only [Kernel.read]
      repeat' split
      all_goals exact ⟨rfl, rfl⟩
  | finishRead pending result ready =>
      obtain ⟨buf, nbytes, -, -, rfl⟩ | ⟨-, -, rfl⟩ := finishRead_cases ready
      · exact ⟨rfl, rfl⟩
      · exact ⟨rfl, rfl⟩
  | close fd =>
      obtain ⟨console, _, closed⟩ := closeAt_eq (kernel.currentPcb platform) fd kernel
      simp only [Kernel.close, closed]
      exact ⟨rfl, rfl⟩
  | getargs buf nbytes =>
      simp only [Kernel.getargs]
      repeat' split
      all_goals exact ⟨rfl, rfl⟩
  | vidmap screenStart =>
      simp only [Kernel.vidmap]
      repeat' split
      all_goals exact ⟨rfl, rfl⟩
  | setHandler | sigreturn => exact ⟨rfl, rfl⟩
  | key scanCode =>
      obtain ⟨mask, ignored | typed⟩ := kernel.keyboardInterruptHandler_cases scanCode
      · rw [ignored]
        exact ⟨rfl, rfl⟩
      · rw [typed]
        exact ⟨rfl, rfl⟩
  | tick esp ebp =>
      obtain ⟨_, _, runs⟩ := sound
      obtain ⟨mask, switched⟩ := pitInterruptHandler_eq esp ebp runs.active
      rw [switched]
      exact ⟨rfl, rfl⟩
  | exception vector child =>
      obtain ⟨console, _, ended⟩ := exceptionHandler_eq platform vector kernel
      rw [ended]
      exact ⟨rfl, rfl⟩
  | halt status =>
      by_cases base : isBaseShell (kernel.pcbAt (kernel.currentPcb platform)).pid
      · rw [halt_base status base]
        exact ⟨rfl, rfl⟩
      · obtain ⟨console, _, halted⟩ := halt_eq status base
        rw [halted]
        exact ⟨rfl, rfl⟩
  | execute command frame =>
      rcases execute_outcome platform command frame sound with
        refused | ⟨_, _, memory, _, _, succeeded⟩
      · rw [refused]
        exact ⟨rfl, rfl⟩
      · rw [succeeded]
        exact ⟨rfl, rfl⟩

theorem asksFrequency_still {event : Event} (still : movesClock event = false) :
    kernel.asksFrequency platform event = none := by
  cases event with
  | openFile | write => cases still
  | _ => rfl

theorem Step.frequencies {event : Event} {result : Kernel × Reply}
    (fired : Step platform kernel event result) (sound : kernel.processView.Sound) :
    result.1.rtc.frequencies = kernel.ratesAfter (kernel.asksFrequency platform event) := by
  by_cases moves : movesClock event = true
  · cases fired with
    | openFile filename => exact openFile_frequencies platform filename kernel
    | write fd buf nbytes => exact write_frequencies platform fd buf nbytes kernel
    | rtcInterrupt => rfl
    | _ => cases moves
  · have still := Bool.eq_false_iff.mpr moves
    rw [asksFrequency_still still, (fired.clock_kept sound still).1]
    rfl

theorem Chained.staysOn {machine machine' : Machine} {trace : Trace} {chains : Fin 3 → List Int}
    {terminal : Fin 3} {pid : Int} (chained : machine.kernel.Chained chains)
    (member : pid ∈ chains terminal) (run : Run (Machine.step platform) machine trace machine')
    (alive : ∀ transition ∈ trace, transition.after.kernel.live pid) :
    ∃ chains', machine'.kernel.Chained chains' ∧ pid ∈ chains' terminal := by
  induction run with
  | nil => exact ⟨chains, chained, member⟩
  | snoc before fired induction =>
      obtain ⟨middle, chained, member⟩ := induction fun transition inside =>
        alive transition (List.mem_append_left _ inside)
      have leaves := (Machine.step_kernel fired).leaves chained.sound
      obtain ⟨chains', passes⟩ := leaves.passes chained
      exact ⟨chains', passes.chained,
        passes.stays terminal pid member (alive _ List.mem_concat_self)⟩

end Kernel

def Machine.asksOn (platform : Platform) (terminal : Fin 3) (machine : Machine)
    (event : Event) : Option Int :=
  if machine.kernel.curSchedTerm = terminal then machine.kernel.asksFrequency platform event
  else none

/-- A process has set the clock to a frequency, and not set it again since. -/
structure LastSet (platform : Platform) (pid freq : Int)
    (set : Transition Machine Event Reply) (later : Trace) : Prop where
  caller : set.before.caller = pid
  asks : set.before.kernel.asksFrequency platform set.event = some freq
  last : ∀ transition ∈ later, transition.before.caller = pid →
    transition.before.kernel.asksFrequency platform transition.event = none
  alive : ∀ transition ∈ set :: later, transition.after.kernel.live pid

theorem Kernel.asksFrequency_valid {platform : Platform} {kernel : Kernel} {event : Event}
    {freq : Int} (asks : kernel.asksFrequency platform event = some freq) :
    freq ∈ Rtc.validFreqs := by
  unfold asksFrequency at asks
  split at asks
  · repeat' split at asks
    all_goals cases asks
    exact List.mem_cons_self
  · simp only at asks
    split at asks
    · rename_i accepted
      obtain ⟨rate, known⟩ := Option.isSome_iff_exists.mp accepted.2.2.2.2.2
      obtain rfl := Option.some.inj asks
      exact (Rtc.rateOf_some known).2
    · cases asks
  · cases asks

theorem Machine.asksOn_valid {platform : Platform} {terminal : Fin 3} {machine : Machine}
    {event : Event} {freq : Int} (asks : machine.asksOn platform terminal event = some freq) :
    freq ∈ Rtc.validFreqs := by
  unfold Machine.asksOn at asks
  split at asks
  · exact Kernel.asksFrequency_valid asks
  · cases asks

/-- The process is still where it was when it set the clock. -/
theorem LastSet.terminal {platform : Platform} {pid freq : Int} {terminal : Fin 3}
    {set : Transition Machine Event Reply} {later : Trace} {machine : Machine}
    (lastSet : LastSet platform pid freq set later)
    (sound : set.before.kernel.processView.Sound)
    (since : Run (Machine.step platform) set.before (set :: later) machine)
    (current : (machine.kernel.schedArr terminal).processNum = pid) :
    set.before.kernel.curSchedTerm = terminal := by
  obtain ⟨chains, holds, runs⟩ := sound
  have chained : set.before.kernel.Chained chains := ⟨holds, runs⟩
  have member : pid ∈ chains set.before.kernel.curSchedTerm := by
    rw [← lastSet.caller]
    exact chained.top _
  obtain ⟨chains', chained', stays⟩ := chained.staysOn member since lastSet.alive
  have top := chained'.top terminal
  rw [current] at top
  exact chained'.holds.forest.eq_of_mem stays top

theorem Machine.frequencies_step {platform : Platform} {machine machine' : Machine}
    {event : Event} {reply : Reply} (terminal : Fin 3)
    (sound : machine.kernel.processView.Sound)
    (fired : machine.step platform event = some (machine', reply)) :
    machine'.kernel.rtc.frequencies terminal =
      (machine.asksOn platform terminal event).elim (machine.kernel.rtc.frequencies terminal)
        (Rtc.maxFreq / ·) := by
  rw [(Machine.step_kernel fired).frequencies sound, Machine.asksOn]
  cases asks : machine.kernel.asksFrequency platform event with
  | none => simp [Kernel.ratesAfter]
  | some freq =>
      simp only [Kernel.ratesAfter]
      split
      · rename_i here
        rw [← here, Function.update_self]
        rfl
      · rename_i other
        rw [Function.update_of_ne (Ne.symm other)]
        rfl

/-- The period of a process's reads is that of the frequency it last set, unless
another process of its terminal has since set a different one. -/
theorem Launched.ownRate_iff {platform : Platform} {start machine : Machine}
    {earlier later : Trace} {set : Transition Machine Event Reply} {pid freq : Int}
    {terminal : Fin 3} (began : Launched platform start)
    (run : Run (Machine.step platform) start (earlier ++ set :: later) machine)
    (lastSet : LastSet platform pid freq set later)
    (current : (machine.kernel.schedArr terminal).processNum = pid) :
    machine.kernel.rtc.WaitsFor terminal (Rtc.maxFreq / freq).toNat ↔
      ∀ other, lastWrite (Machine.asksOn platform terminal) later = some other →
        other = freq := by
  obtain ⟨middle, before, since⟩ := run.parts
  obtain ⟨rfl, _, _⟩ := since.first
  have here : set.before.kernel.curSchedTerm = terminal :=
    lastSet.terminal (Reachable.sound ⟨_, _, began, before⟩) since current
  have rate := run.lastWrite_eq (fun machine => machine.kernel.rtc.frequencies terminal)
    (Machine.asksOn platform terminal) (Rtc.maxFreq / ·) fun transition member => by
      obtain ⟨⟨_, reached⟩, fired⟩ := run.reached member
      exact Machine.frequencies_step terminal (Reachable.sound ⟨_, _, began, reached⟩) fired
  have own : set.before.asksOn platform terminal set.event = some freq := by
    rw [Machine.asksOn, if_pos here]
    exact lastSet.asks
  have valid := Kernel.asksFrequency_valid lastSet.asks
  rw [lastWrite_append, lastWrite_cons, own] at rate
  cases asked : lastWrite (Machine.asksOn platform terminal) later with
  | none =>
      rw [asked] at rate
      have rate : machine.kernel.rtc.frequencies terminal = Rtc.maxFreq / freq := rate
      have period := Rtc.period_iff valid valid
      rw [Rtc.waitsFor_iff _ (rate ▸ period.1), rate]
      exact iff_of_true (period.2.mpr rfl) fun _ none => by cases none
  | some other =>
      rw [asked] at rate
      have rate : machine.kernel.rtc.frequencies terminal = Rtc.maxFreq / other := rate
      obtain ⟨transition, _, asks⟩ := mem_of_lastWrite asked
      have period := Rtc.period_iff valid (Machine.asksOn_valid asks)
      rw [Rtc.waitsFor_iff _ (rate ▸ period.1), rate, period.2]
      constructor
      · intro same latest found
        rw [← Option.some.inj found]
        exact same
      · intro same
        exact same other rfl

namespace Sample

theorem rtcName_nonzero : ∀ byte ∈ ([114, 116, 99] : List UInt8), byte ≠ 0 := by
  simp

def rtcName : CString := ⟨[114, 116, 99], rtcName_nonzero⟩

def opensClock : Event := .openFile (some rtcName)

def setsClock : Event := .write 2 (some (byteOf 32)) 4

theorem opensClock_fires : (start.step platform opensClock).isSome = true := rfl

def clockOpen : Machine := (fire start opensClock opensClock_fires).after

theorem setsClock_fires : (clockOpen.step platform setsClock).isSome = true := rfl

def clockSet : Machine := (fire clockOpen setsClock setsClock_fires).after

def runsChild : Event := .execute shellName frame

theorem runsChild_fires : (clockSet.step platform runsChild).isSome = true := rfl

def clockChild : Machine := (fire clockSet runsChild runsChild_fires).after

theorem reopens_fires : (clockChild.step platform opensClock).isSome = true := rfl

def clockReopened : Machine := (fire clockChild opensClock reopens_fires).after

theorem childHalts_fires : (clockReopened.step platform (.halt 0)).isSome = true := by
  decide +kernel

def clockLost : Machine := (fire clockReopened (.halt 0) childHalts_fires).after

theorem interrupts_fires : (clockSet.step platform .rtcInterrupt).isSome = true := rfl

theorem setsClock_asks :
    clockOpen.kernel.asksFrequency platform setsClock = some 32 := by
  decide +kernel

theorem clockSet_alive :
    (fire clockOpen setsClock setsClock_fires).after.kernel.live 1 := by
  decide +kernel

theorem clockSet_run : Run (Machine.step platform) start
    [fire start opensClock opensClock_fires, fire clockOpen setsClock setsClock_fires]
    clockSet :=
  fire_twice start opensClock setsClock opensClock_fires setsClock_fires

def childUse : Trace :=
  [fire clockSet runsChild runsChild_fires, fire clockChild opensClock reopens_fires,
    fire clockReopened (.halt 0) childHalts_fires]

theorem childUse_run : Run (Machine.step platform) start
    ([fire start opensClock opensClock_fires] ++
      fire clockOpen setsClock setsClock_fires :: childUse) clockLost := by
  have started : Run (Machine.step platform) start _ clockChild :=
    fire_snoc clockSet_run runsChild runsChild_fires
  have reopened : Run (Machine.step platform) start _ clockReopened :=
    fire_snoc started opensClock reopens_fires
  have halted : Run (Machine.step platform) start _ clockLost :=
    fire_snoc reopened (.halt 0) childHalts_fires
  simpa only [childUse, List.cons_append, List.nil_append] using halted

theorem childUse_lastSet :
    LastSet platform 1 32 (fire clockOpen setsClock setsClock_fires) childUse := by
  refine ⟨by decide +kernel, setsClock_asks, ?_, ?_⟩
  · intro transition member caller
    simp only [childUse, List.mem_cons, List.not_mem_nil, or_false] at member
    rcases member with rfl | rfl | rfl
    · rfl
    · revert caller
      decide +kernel
    · rfl
  · intro transition member
    simp only [childUse, List.mem_cons, List.not_mem_nil, or_false] at member
    rcases member with rfl | rfl | rfl | rfl
    · exact clockSet_alive
    · decide +kernel
    · decide +kernel
    · decide +kernel

end Sample

theorem ownRate_sample :
    (Sample.fire Sample.clockSet .rtcInterrupt Sample.interrupts_fires).after.kernel.rtc.WaitsFor
      0 32 := by
  have run : Run (Machine.step Sample.platform) Sample.start
      ([Sample.fire Sample.start Sample.opensClock Sample.opensClock_fires] ++
        Sample.fire Sample.clockOpen Sample.setsClock Sample.setsClock_fires ::
          [Sample.fire Sample.clockSet .rtcInterrupt Sample.interrupts_fires]) _ :=
    Sample.fire_snoc Sample.clockSet_run .rtcInterrupt Sample.interrupts_fires
  have lastSet : LastSet Sample.platform 1 32
      (Sample.fire Sample.clockOpen Sample.setsClock Sample.setsClock_fires)
      [Sample.fire Sample.clockSet .rtcInterrupt Sample.interrupts_fires] := by
    refine ⟨by decide +kernel, Sample.setsClock_asks, ?_, ?_⟩
    · intro transition member _
      obtain rfl := List.mem_singleton.mp member
      rfl
    · intro transition member
      simp only [List.mem_cons, List.not_mem_nil, or_false] at member
      rcases member with rfl | rfl
      · exact Sample.clockSet_alive
      · decide +kernel
  have current : ((Sample.fire Sample.clockSet .rtcInterrupt
      Sample.interrupts_fires).after.kernel.schedArr 0).processNum = 1 := by
    decide +kernel
  apply (Sample.launched.ownRate_iff run lastSet current).mpr
  intro other asked
  cases asked

/-- A shell sets the clock to 32 Hz and runs a program that opens the clock: after
that the shell's reads wait for 512 ticks. -/
theorem childRate_kept :
    ¬ ∀ (platform : Platform) (start machine : Machine) (earlier later : Trace)
      (set : Transition Machine Event Reply) (pid freq : Int) (terminal : Fin 3),
      Launched platform start →
      Run (Machine.step platform) start (earlier ++ set :: later) machine →
      LastSet platform pid freq set later →
      (machine.kernel.schedArr terminal).processNum = pid →
      machine.kernel.rtc.WaitsFor terminal (Rtc.maxFreq / freq).toNat := by
  intro always
  have current : (Sample.clockLost.kernel.schedArr 0).processNum = 1 := by decide +kernel
  have waits := always _ _ _ _ _ _ _ _ _ Sample.launched Sample.childUse_run
    Sample.childUse_lastSet current
  have period := (Rtc.waitsFor_iff _ (by decide +kernel)).mp waits
  revert period
  decide +kernel

end Ece391Os
