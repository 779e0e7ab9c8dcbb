import Ece391Os.Terminal.Calls

namespace Ece391Os

open Data

/-! The line typed on each terminal, and who may touch it. -/

structure Line where
  kbBuf : Memory
  bufIndex : Int
  lineBufferFlag : Int

def Shell.line (shell : Shell) : Line :=
  ⟨shell.kbBuf, shell.bufIndex, shell.lineBufferFlag⟩

def Shell.typed (shell : Shell) : List UInt8 :=
  (List.range shell.bufIndex.toNat).map (kbLoad shell)

namespace Console

/-! Parts of a terminal's record that hold no position of the cursor: printing
leaves them alone. -/

section Parts

variable {Part : Type} {part : Shell → Part} {change : Shell → Shell}

theorem part_modifyShell_at {console : Console} {terminal : Fin 3}
    (keeps : part (change (console.terminals terminal)) = part (console.terminals terminal))
    (other : Fin 3) :
    part ((console.modifyShell terminal change).terminals other) =
      part (console.terminals other) := by
  simp only [modifyShell]
  by_cases here : other = terminal
  · rw [here, Function.update_self, keeps]
  · rw [Function.update_of_ne here]

theorem part_modifyShell (keeps : ∀ shell, part (change shell) = part shell)
    (terminal : Fin 3) (console : Console) (other : Fin 3) :
    part ((console.modifyShell terminal change).terminals other) =
      part (console.terminals other) :=
  part_modifyShell_at (keeps _) other

variable (moves : ∀ (shell : Shell) (x y : Int), part { shell with x := x, y := y } = part shell)

include moves

theorem part_newLine (page : Nat) (console : Console) (terminal : Fin 3) :
    part ((console.newLine page).terminals terminal) = part (console.terminals terminal) := by
  simp only [newLine]
  split
  · exact part_modifyShell (fun shell => moves shell 0 shell.y) ..
  · exact part_modifyShell (fun shell => moves shell 0 (shell.y + 1)) ..

theorem part_putc (page : Nat) (character : UInt8) (console : Console) (terminal : Fin 3) :
    part ((console.putc page character).terminals terminal) =
      part (console.terminals terminal) := by
  simp only [putc]
  split
  · exact part_newLine moves page console terminal
  · refine (part_modifyShell (fun shell => moves shell shell.x _) ..).trans ?_
    split
    · exact (part_newLine moves page _ terminal).trans
        (part_modifyShell (fun shell => moves shell (shell.x + 1) shell.y) ..)
    · exact part_modifyShell (fun shell => moves shell (shell.x + 1) shell.y) ..

theorem part_putAll (page : Nat) (bytes : List UInt8) (console : Console) (terminal : Fin 3) :
    part ((console.putAll page bytes).terminals terminal) = part (console.terminals terminal) := by
  induction bytes generalizing console with
  | nil => rfl
  | cons character rest induction =>
      exact (induction (console.putc page character)).trans
        (part_putc moves page character console terminal)

theorem part_resetScreen (console : Console) (terminal : Fin 3) :
    part (console.resetScreen.terminals terminal) = part (console.terminals terminal) :=
  part_modifyShell (fun shell => moves shell 0 0) ..

theorem part_backSpace (page : Nat) (console : Console) (terminal : Fin 3) :
    part ((console.backSpace page).terminals terminal) = part (console.terminals terminal) := by
  have keeps (shell : Shell) : part (if shell.x - 1 < 0 then
      { shell with x := numCols - 1, y := shell.y - 1 } else { shell with x := shell.x - 1 }) =
      part shell := by
    split
    · exact moves shell (numCols - 1) (shell.y - 1)
    · exact moves shell (shell.x - 1) shell.y
  exact part_modifyShell keeps ..

end Parts

def lines (console : Console) (terminal : Fin 3) : Line := (console.terminals terminal).line

theorem lines_putAll (page : Nat) (bytes : List UInt8) (console : Console) :
    (console.putAll page bytes).lines = console.lines :=
  funext (part_putAll (fun _ _ _ => rfl) page bytes console)

theorem lines_terminalOpen (terminal : Fin 3) (console : Console) :
    console.terminalOpen.lines terminal =
      if terminal = console.curTerminal then { console.viewed.line with bufIndex := 0 }
      else console.lines terminal := by
  simp only [terminalOpen, modifyViewed, modifyShell, lines]
  split
  · rename_i here
    rw [here, Function.update_self]
    rfl
  · rename_i other
    rw [Function.update_of_ne other]

end Console

theorem Kernel.CallConsole.lines {kernel : Kernel} {console : Console} {output : List UInt8}
    (left : kernel.CallConsole output console) {terminal : Fin 3}
    (other : terminal ≠ kernel.curSchedTerm) :
    console.lines terminal = kernel.console.lines terminal := by
  cases left with
  | printed => rw [Console.lines_putAll]
  | waiting =>
      simp only [Console.lines, Console.modifyShell]
      rw [Function.update_of_ne other]

/-- A call of a process leaves the lines of the other terminals alone, and a
`terminal_read` that ends answers with bytes typed on the caller's terminal. -/
structure KeepsLines (transition : Transition Machine Event Reply) : Prop where
  others : ∀ terminal, terminal ≠ transition.before.kernel.curSchedTerm →
    transition.after.kernel.console.lines terminal =
      transition.before.kernel.console.lines terminal
  bytes : ∀ buf nbytes value filled, transition.event = .finishRead →
    transition.before.blocked transition.before.kernel.curSchedTerm =
      some (.terminal buf nbytes) →
    transition.reply = .read value filled →
    (List.range value.toNat).map filled <+:
      (transition.before.kernel.console.terminals
        transition.before.kernel.curSchedTerm).typed

/-- A call that resets the line of the viewed terminal is made from there, or
finds that line empty. -/
def Machine.Confined (machine : Machine) (event : Event) : Prop :=
  machine.resetsLine event →
    machine.kernel.console.curTerminal = machine.kernel.curSchedTerm ∨
      machine.kernel.console.viewed.bufIndex = 0

section Steps

variable {platform : Platform} {machine next : Machine} {event : Event} {reply : Reply}

theorem map_range_prefix {left right : Nat → UInt8} {short long : Nat} (below : short ≤ long)
    (agree : ∀ k < short, left k = right k) :
    (List.range short).map left <+: (List.range long).map right := by
  have same : (List.range short).map left = (List.range short).map right :=
    List.map_congr_left fun k member => agree k (List.mem_range.mp member)
  have cut : List.range short = (List.range long).take short := by
    rw [List.take_range, Nat.min_eq_left below]
  rw [same, cut, List.map_take]
  exact List.take_prefix _ _

theorem Console.terminalReadFinish_copies (buf : Memory) (nbytes : Int) (console : Console) :
    (List.range (console.terminalReadFinish buf nbytes).1.toNat).map
      (console.terminalReadFinish buf nbytes).2.1 <+: console.viewed.typed := by
  apply map_range_prefix
  · simp only [terminalReadFinish]
    split <;> omega
  · intro k below
    simp only [terminalReadFinish] at below ⊢
    rw [Memory.blit_inside (by omega) (by omega)]
    simp

theorem Machine.finishRead_bytes {buf filled : Memory} {nbytes value : Int}
    (waiting : machine.blocked machine.kernel.curSchedTerm = some (.terminal buf nbytes))
    (fired : machine.step platform .finishRead = some (next, .read value filled)) :
    (List.range value.toNat).map filled <+: machine.kernel.console.viewed.typed := by
  obtain ⟨pending, same, finished⟩ := wake_eq_some fired
  obtain rfl := Option.some.inj (waiting.symm.trans same)
  obtain ⟨line, count, entered, -, ended⟩ | ⟨asleep, -, -⟩ := Kernel.finishRead_cases finished
  · obtain ⟨rfl, rfl⟩ := BlockedRead.terminal.inj entered
    obtain ⟨rfl, rfl⟩ := Outcome.read.inj (Prod.mk.inj ended).2
    exact machine.kernel.console.terminalReadFinish_copies buf nbytes
  · cases asleep

theorem Machine.step_keepsLines_iff (sound : machine.kernel.processView.Sound)
    (valid : machine.callerTable.Valid) (off : machine.callerTable.offTerminal)
    (fired : machine.step platform event = some (next, reply))
    (call : event.isCall = true) :
    KeepsLines ⟨machine, event, reply, next⟩ ↔ machine.Confined event := by
  rcases step_console sound valid off fired call with
    ⟨resets, -, reset⟩ | ⟨keeps, left⟩
  · constructor
    · intro kept _
      by_contra outside
      obtain ⟨away, typed⟩ := not_or.mp outside
      have unchanged := kept.others machine.kernel.console.curTerminal away
      simp only at unchanged
      rw [reset, Console.lines_terminalOpen, if_pos rfl] at unchanged
      exact typed (congrArg Line.bufIndex unchanged).symm
    · intro confined
      have unchanged : ∀ terminal, terminal ≠ machine.kernel.curSchedTerm →
          next.kernel.console.lines terminal = machine.kernel.console.lines terminal := by
        intro terminal other
        rw [reset, Console.lines_terminalOpen]
        split
        · rename_i viewed
          rcases confined resets with own | empty
          · exact absurd (viewed.trans own) other
          · rw [viewed, ← empty]
            rfl
        · rfl
      refine ⟨unchanged, ?_⟩
      intro buf nbytes value filled finishes waiting answer
      simp only at finishes waiting answer ⊢
      subst finishes answer
      have viewed := finishRead_bytes waiting fired
      rcases confined resets with own | empty
      · rwa [Console.viewed, own] at viewed
      · rw [Shell.typed, empty] at viewed
        rw [List.prefix_nil.mp viewed]
        exact List.nil_prefix
  · refine ⟨fun _ resets => absurd resets keeps, fun _ => ⟨?_, ?_⟩⟩
    · exact fun terminal other => left.lines other
    · intro buf nbytes value filled finishes waiting _
      simp only at finishes waiting
      subst finishes
      exact absurd ⟨buf, nbytes, waiting⟩ keeps

end Steps

/-- Along every run from `launch`, a call keeps the lines of the other terminals
exactly when it is confined. -/
theorem Launched.keepsLines_iff {platform : Platform} {start machine : Machine}
    {trace : Trace} (began : Launched platform start)
    (run : Run (Machine.step platform) start trace machine) :
    ∀ transition ∈ trace, transition.event.isCall = true →
      (KeepsLines transition ↔ transition.before.Confined transition.event) := by
  intro transition member call
  obtain ⟨⟨shorter, reached⟩, fired⟩ := run.reached member
  have sound := Reachable.sound ⟨start, shorter, began, reached⟩
  have descriptors := Launched.descriptorsAfter began reached (Kernel.live_running sound)
  exact Machine.step_keepsLines_iff sound descriptors.valid descriptors.offTerminal fired
    call

namespace Sample

def viewMoves : List Event :=
  [.read 0 (some fun _ => 0) 10, .key newLineCode, .key altChar, .key f2Char, .key 30]

theorem viewMoves_fire :
    (runEvents (Machine.step platform) start viewMoves).isSome = true := by
  decide +kernel

def viewMoved : Machine := after viewMoves viewMoves_fire

theorem viewMoved_finishes : (viewMoved.step platform .finishRead).isSome = true := by
  decide +kernel

/-- The first shell reads a line of one letter, answered while it is in view, and opens the
terminal again. -/
def answered : List Event :=
  [.read 0 (some fun _ => 0) 10, .key 30, .key newLineCode, .finishRead,
    .openFile (some stdinName)]

/-- Whether a call is made from the viewed terminal, and a read answered with a letter and
the end of the line. -/
def inView (transition : Transition Machine Event Reply) : Bool :=
  transition.before.kernel.console.curTerminal = transition.before.kernel.curSchedTerm &&
    match transition.event, transition.reply with
    | .finishRead, .read value _ => value = 2
    | .finishRead, _ => false
    | _, _ => true

theorem answered_fires :
    (runChecked (Machine.step platform) inView start answered).isSome = true := by
  decide +kernel

end Sample

theorem keepsLines_sample :
    ∃ trace : Trace, trace.map Transition.event = Sample.answered ∧
      (∀ transition ∈ trace, transition.event = .finishRead →
        ∃ filled, transition.reply = .read 2 filled) ∧
      ∀ transition ∈ trace, transition.event.isCall = true → KeepsLines transition := by
  obtain ⟨trace, run, events, checked⟩ :=
    run_of_runChecked (Option.some_get Sample.answered_fires).symm
  refine ⟨trace, events, ?_, ?_⟩
  · intro transition member finishes
    have answer := (Bool.and_eq_true _ _ ▸ checked transition member).2
    rw [finishes] at answer
    cases reply : transition.reply with
    | read value filled =>
        rw [reply] at answer
        exact ⟨filled, congrArg (Outcome.read · filled) (of_decide_eq_true answer)⟩
    | _ =>
        rw [reply] at answer
        cases answer
  · intro transition member call
    have own := (Bool.and_eq_true _ _ ▸ checked transition member).1
    exact (Sample.launched.keepsLines_iff run transition member call).mpr
      fun _ => .inl (of_decide_eq_true own)

theorem stolen_line :
    ¬ ∀ (platform : Platform) (start machine : Machine) (trace : Trace),
      Launched platform start → Run (Machine.step platform) start trace machine →
      ∀ transition ∈ trace, transition.event.isCall = true → KeepsLines transition := by
  intro isolated
  obtain ⟨trace, run, -⟩ := run_of_runEvents (Option.some_get Sample.viewMoves_fire).symm
  have fired : Sample.viewMoved.step Sample.platform .finishRead =
      some ((Sample.viewMoved.step Sample.platform .finishRead).get
        Sample.viewMoved_finishes) := (Option.some_get _).symm
  have kept := isolated Sample.platform Sample.start _ _ Sample.launched (run.snoc fired)
    _ List.mem_concat_self rfl
  have line := congrArg Line.bufIndex (kept.others 1 (by decide +kernel))
  exact absurd line (by decide +kernel)

end Ece391Os
