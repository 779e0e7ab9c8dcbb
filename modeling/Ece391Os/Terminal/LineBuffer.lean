import Ece391Os.Terminal.Typing

namespace Ece391Os

open Data

/-! The bounds of the line buffers. -/

namespace Console

variable {console : Console} {code : UInt8}

/-- Where a key that is pressed stores in the `kb_buf` of the viewed terminal. -/
def storeIndex (code : UInt8) (console : Console) : Option Int :=
  match console.printedCode code with
  | none => none
  | some table =>
      if ((bufLength : Int) - 1 ≤ console.viewed.bufIndex ∧ table ≠ newLineCode) ∨
          console.viewed.lineBufferFlag ≠ 0 then
        none
      else some console.viewed.bufIndex

theorem printedCode_enter (console : Console) :
    console.printedCode newLineCode = some newLineCode := by
  have others : newLineCode ≠ ctrlCode ∧ newLineCode ≠ lChar ∧ newLineCode ≠ backSpaceCode ∧
      newLineCode ≠ altChar ∧ ¬ (newLineCode = f1Char ∨ newLineCode = f2Char ∨
        newLineCode = f3Char) := by decide
  obtain ⟨ctrl, letter, back, alt, function⟩ := others
  rw [printedCode, if_neg ctrl, if_neg fun both => function both.2,
    if_neg fun both => letter both.1, if_neg back, if_neg alt, if_pos rfl]

theorem kbBuf_lineStore {shell : Shell} (character : UInt8) {k : Nat}
    (away : (k : Int) ≠ shell.bufIndex) (lower : 0 ≤ shell.bufIndex) :
    (lineStore character shell).kbBuf k = shell.kbBuf k := by
  have apart : k ≠ shell.bufIndex.toNat := by omega
  simp only [lineStore, kbStore]
  repeat' split
  · exact Function.update_of_ne apart _ _
  all_goals rfl

theorem Keyed.storeIndex_eq {line : Line} {tty : Tty} {k : Nat}
    (keyed : console.Keyed code line tty) (lower : 0 ≤ console.viewed.bufIndex)
    (changed : line.kbBuf k ≠ console.viewed.kbBuf k) : console.storeIndex code = some (k : Int) := by
  have stored {character : UInt8}
      (changed : (lineStore character console.viewed).kbBuf k ≠ console.viewed.kbBuf k) :
      console.viewed.bufIndex = k := by
    by_contra away
    exact changed (kbBuf_lineStore character (fun same => away same.symm) lower)
  cases keyed with
  | typed letter other printed room waiting =>
      rw [storeIndex, printed]
      simp only
      rw [if_neg, stored changed]
      rintro (⟨full, -⟩ | complete)
      · simp only [bufLength] at full
        omega
      · exact complete waiting
  | entered enter waiting =>
      rw [enter, storeIndex, printedCode_enter]
      simp only
      rw [if_neg, stored changed]
      rintro (⟨-, other⟩ | complete)
      · exact other rfl
      · exact complete waiting
  | kept | redrawn | erased | refused => exact absurd rfl changed

theorem bufIndex_lineStore_eq (character : UInt8) {shell : Shell} (room : shell.bufIndex < 132) :
    (lineStore character shell).bufIndex = shell.bufIndex + 1 := by
  simp only [lineStore, kbStore]
  split
  · rfl
  · rw [if_pos (by omega)]

def InBuffers (console : Console) : Prop :=
  ∀ terminal, 0 ≤ (console.lines terminal).bufIndex ∧ (console.lines terminal).bufIndex ≤ bufLength

/-- Enter at the end of a line that fills the buffer already, and that a reader
waits for. -/
def overruns (code : UInt8) (console : Console) : Prop :=
  code = newLineCode ∧ console.viewed.lineBufferFlag = 0 ∧ console.viewed.bufIndex = bufLength

instance (code : UInt8) (console : Console) : Decidable (console.overruns code) :=
  inferInstanceAs (Decidable (_ ∧ _ ∧ _))

theorem Keyed.inBuffer_iff {line : Line} {tty : Tty} (keyed : console.Keyed code line tty)
    (lower : 0 ≤ console.viewed.bufIndex) (upper : console.viewed.bufIndex ≤ bufLength) :
    (0 ≤ line.bufIndex ∧ line.bufIndex ≤ bufLength) ↔ ¬ console.overruns code := by
  have same : console.viewed.line.bufIndex = console.viewed.bufIndex := rfl
  simp only [overruns, bufLength] at upper ⊢
  cases keyed with
  | kept other => exact iff_of_true ⟨lower, upper⟩ fun overrun => other overrun.1
  | redrawn letter =>
      refine iff_of_true ⟨lower, upper⟩ fun overrun => ?_
      rw [letter] at overrun
      exact absurd overrun.1 (by decide)
  | erased back some =>
      refine iff_of_true ⟨by simp only; omega, by simp only; omega⟩ fun overrun => ?_
      rw [back] at overrun
      exact absurd overrun.1 (by decide)
  | typed letter other printed room waiting =>
      rename_i table
      have grown := bufIndex_lineStore_eq (kbdus table) (by omega : console.viewed.bufIndex < 132)
      refine iff_of_true ?_ fun overrun => other overrun.1
      simp only [Shell.line, grown]
      omega
  | entered enter waiting =>
      have grown := bufIndex_lineStore_eq 10 (by omega : console.viewed.bufIndex < 132)
      simp only [Shell.line, grown, enter, waiting, true_and]
      omega
  | refused enter complete =>
      exact iff_of_true ⟨lower, upper⟩ fun overrun => complete overrun.2.1

end Console

theorem Line.Served.inBuffer {line line' : Line} (served : line.Served line')
    (inside : 0 ≤ line.bufIndex ∧ line.bufIndex ≤ bufLength) :
    0 ≤ line'.bufIndex ∧ line'.bufIndex ≤ bufLength := by
  cases served with
  | kept => exact inside
  | awaited => exact inside
  | reset => exact ⟨Int.le_refl 0, by simp only [bufLength]; omega⟩

namespace Session

variable {platform : Platform} {session next : Session} {event : SessionEvent} {reply : Reply}

/-- Where an event stores in the `kb_buf` of the viewed terminal. -/
def storeIndex (session : Session) : SessionEvent → Option Int
  | .fire (.key code) =>
      if Kernel.ignoresCode code ∨ ¬ code < recentRelease then none
      else session.console.storeIndex code
  | _ => none

structure KeepsBuffers (transition : Transition Session SessionEvent Reply) : Prop where
  stores : ∀ index, transition.before.storeIndex transition.event = some index →
    0 ≤ index ∧ index < bufLength
  inside : transition.after.console.InBuffers

def Overruns (session : Session) : SessionEvent → Prop
  | .fire (.key code) => session.console.overruns code
  | _ => False

theorem key_inBuffers_iff {code : UInt8} (sound : session.Sound platform)
    (inside : session.console.InBuffers)
    (fired : session.step platform (.fire (.key code)) = some (next, reply)) :
    next.console.InBuffers ↔ ¬ session.console.overruns code := by
  obtain rfl := key_eq_some fired
  have keyed := Kernel.key_keyed sound.mapped code
  obtain ⟨lower, upper⟩ := inside session.console.curTerminal
  refine Iff.trans ?_ (keyed.inBuffer_iff lower upper)
  constructor
  · intro after
    exact after session.console.curTerminal
  · intro viewed terminal
    by_cases here : terminal = session.console.curTerminal
    · rw [here]
      exact viewed
    · have same := (Kernel.key_others sound.mapped code here).1
      rw [console, same]
      exact inside terminal

theorem inBuffers_iff (sound : session.Sound platform) (inside : session.console.InBuffers)
    (fired : session.step platform event = some (next, reply)) :
    next.console.InBuffers ↔ ¬ session.Overruns event := by
  rcases event.isKey_cases with ⟨code, rfl⟩ | other
  · exact key_inBuffers_iff sound inside fired
  · have served := (sound.unkeyed fired other).served
    have harmless : ¬ session.Overruns event := by
      intro overrun
      cases event with
      | fire event =>
          cases event with
          | key code => cases other
          | _ => exact overrun
      | _ => exact overrun
    exact iff_of_true (fun terminal => (served terminal).inBuffer (inside terminal)) harmless

theorem storeIndex_lt {index : Int} (inside : session.console.InBuffers)
    (within : ¬ session.Overruns event) (stores : session.storeIndex event = some index) :
    0 ≤ index ∧ index < bufLength := by
  rcases event.isKey_cases with ⟨code, rfl⟩ | other
  · simp only [storeIndex] at stores
    split at stores
    · cases stores
    · rename_i pressed
      simp only [not_or, Decidable.not_not] at pressed
      simp only [Console.storeIndex] at stores
      split at stores
      · cases stores
      · rename_i table printed
        split at stores
        · cases stores
        · rename_i accepted
          simp only [not_or, not_and, ne_eq, Decidable.not_not] at accepted
          obtain rfl := Option.some.inj stores
          obtain ⟨lower, upper⟩ := inside session.console.curTerminal
          refine ⟨lower, lt_of_le_of_ne upper fun full => within ⟨?_, accepted.2, full⟩⟩
          by_contra other
          have letter := Kernel.accepted_letter pressed.1 pressed.2
          refine (Console.printedCode_letter letter other printed).1 (accepted.1 ?_)
          rw [full]
          decide
  · cases event with
    | fire event =>
        cases event with
        | key code => cases other
        | _ => cases stores
    | _ => cases stores

theorem keepsBuffers_iff (sound : session.Sound platform) (inside : session.console.InBuffers)
    (fired : session.step platform event = some (next, reply)) :
    KeepsBuffers ⟨session, event, reply, next⟩ ↔ ¬ session.Overruns event := by
  rw [← inBuffers_iff sound inside fired]
  constructor
  · exact KeepsBuffers.inside
  · intro after
    refine ⟨fun index stores => ?_, after⟩
    exact storeIndex_lt inside ((inBuffers_iff sound inside fired).mp after) stores

theorem atBoot_inBuffers (platform : Platform) (memory : BootMemory) :
    (atBoot platform memory).console.InBuffers := by
  intro terminal
  have line : (atBoot platform memory).console.lines terminal =
      (Kernel.zeroed memory).console.initShell.lines terminal :=
    Console.part_resetScreen (fun _ _ _ => rfl) _ terminal
  rw [line]
  exact ⟨Int.le_refl 0, (by decide : (0 : Int) ≤ bufLength)⟩

/-- From boot on, every store into a line buffer is inside it and every line
fits its buffer after every event, exactly when no event overruns. -/
theorem keepsBuffers_run_iff {memory : BootMemory}
    {trace : List (Transition Session SessionEvent Reply)}
    (run : Run (Session.step platform) (atBoot platform memory) trace session) :
    (∀ transition ∈ trace, KeepsBuffers transition) ↔
      ∀ transition ∈ trace, ¬ transition.before.Overruns transition.event := by
  have step {transition : Transition Session SessionEvent Reply} (member : transition ∈ trace) :
      transition.before.Sound platform ∧ transition.before.step platform transition.event =
        some (transition.after, transition.reply) := by
    obtain ⟨⟨_, before⟩, fired⟩ := run.reached member
    exact ⟨soundAfter before, fired⟩
  have within := run.kept_iff (fun session => session.console.InBuffers)
    (fun session event => ¬ session.Overruns event) (atBoot_inBuffers platform memory)
    fun transition member inside => inBuffers_iff (step member).1 inside (step member).2
  constructor
  · intro keeps
    exact within.mp fun transition member => (keeps transition member).inside
  · intro allowed transition member
    have inside := (run.guarded (fun session => session.Sound platform ∧ session.console.InBuffers)
      (fun session event => ¬ session.Overruns event)
      (fun holds allowed fired => ⟨holds.1.step fired,
        (inBuffers_iff holds.1 holds.2 fired).mpr allowed⟩)
      ⟨.boot memory, atBoot_inBuffers platform memory⟩ allowed).2 transition member
    exact (keepsBuffers_iff inside.1 inside.2 (step member).2).mpr (allowed transition member)

end Session

namespace Sample

def session : Session := .atBoot platform memory

/-- The first shell reads a line of 127 letters and Enter, which fills the buffer; the next
letter starts another. -/
def readLine : List SessionEvent :=
  .launch frame :: .fire (.read 0 (some fun _ => 0) 128) ::
    List.replicate 127 (.fire (.key 30)) ++
      [.fire (.key newLineCode), .fire .finishRead, .fire (.key 30)]

def fits (transition : Transition Session SessionEvent Reply) : Bool :=
  match transition.event with
  | .fire (.key code) => !decide (transition.before.console.overruns code)
  | _ => true

theorem fits_within {transition : Transition Session SessionEvent Reply}
    (checked : fits transition = true) : ¬ transition.before.Overruns transition.event := by
  obtain ⟨before, event, reply, after⟩ := transition
  cases event with
  | fire event =>
      cases event with
      | key code =>
          have within : (!decide (before.console.overruns code)) = true := checked
          rw [Bool.not_eq_true', decide_eq_false_iff_not] at within
          exact within
      | _ => exact id
  | _ => exact id

theorem readLine_fires :
    (runChecked (Session.step platform) fits session readLine).isSome = true := by
  decide +kernel

/-- A line of 127 letters and Enter fills the buffer; a shell that starts to read
clears the flag of the line, and Enter is pressed again. -/
def fullLine : List SessionEvent :=
  .launch frame :: List.replicate 127 (.fire (.key 30)) ++
    [.fire (.key newLineCode), .fire (.read 0 (some fun _ => 0) 128), .fire (.key newLineCode)]

theorem fullLine_fires :
    (runEvents (Session.step platform) session fullLine).isSome = true := by
  decide +kernel

def overrun : Session := (runEvents (Session.step platform) session fullLine).get fullLine_fires

end Sample

theorem keepsBuffers_sample :
    ∃ trace finish, Run (Session.step Sample.platform) (.atBoot Sample.platform Sample.memory)
        trace finish ∧ trace.map Transition.event = Sample.readLine ∧
      ∀ transition ∈ trace, Session.KeepsBuffers transition := by
  obtain ⟨trace, run, events, checked⟩ :=
    run_of_runChecked (Option.some_get Sample.readLine_fires).symm
  exact ⟨trace, _, run, events, (Session.keepsBuffers_run_iff run).mpr fun transition member =>
    Sample.fits_within (checked transition member)⟩

theorem buffer_overrun :
    ¬ ∀ (platform : Platform) (memory : BootMemory)
      (trace : List (Transition Session SessionEvent Reply)) (session : Session),
      Run (Session.step platform) (.atBoot platform memory) trace session →
      ∀ transition ∈ trace, Session.KeepsBuffers transition := by
  intro always
  obtain ⟨trace, run, -⟩ := run_of_runEvents (Option.some_get Sample.fullLine_fires).symm
  have inside := run.last_holds (fun session => session.console.InBuffers)
    (Session.atBoot_inBuffers _ _) fun transition member =>
      (always _ _ _ _ run transition member).inside
  have index : (Sample.overrun.console.lines 0).bufIndex = 129 := by decide +kernel
  have upper := (inside 0).2
  change (Sample.overrun.console.lines 0).bufIndex ≤ bufLength at upper
  rw [index] at upper
  exact absurd upper (by decide)

end Ece391Os
