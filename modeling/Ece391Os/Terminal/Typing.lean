import Ece391Os.Terminal.Session

namespace Ece391Os

open Data

/-! What a key does to the line and to the screen of the viewed terminal. -/

namespace Line

def text (line : Line) : List UInt8 := (List.range line.bufIndex.toNat).map line.kbBuf

def store (character : UInt8) (line : Line) : Line :=
  { line with
    kbBuf := Function.update line.kbBuf line.bufIndex.toNat character
    bufIndex := line.bufIndex + 1 }

theorem text_store (character : UInt8) {line : Line} (lower : 0 ≤ line.bufIndex) :
    (line.store character).text = line.text ++ [character] := by
  have longer : (line.bufIndex + 1).toNat = line.bufIndex.toNat + 1 := by omega
  simp only [text, store, longer, List.range_succ, List.map_append, List.map_singleton,
    Function.update_self]
  congr 1
  apply List.map_congr_left
  intro k member
  exact Function.update_of_ne (Nat.ne_of_lt (List.mem_range.mp member)) _ _

theorem text_erased {line : Line} (typed : 0 < line.bufIndex) :
    line.text = { line with bufIndex := line.bufIndex - 1 }.text ++
      [line.kbBuf (line.bufIndex - 1).toNat] := by
  have longer : line.bufIndex.toNat = (line.bufIndex - 1).toNat + 1 := by omega
  rw [text, longer, List.range_succ, List.map_append, List.map_singleton]
  rfl

theorem length_text (line : Line) : line.text.length = line.bufIndex.toNat := by
  rw [text, List.length_map, List.length_range]

end Line

theorem Shell.typed_eq {shell : Shell} (inside : shell.bufIndex ≤ 128) :
    shell.typed = shell.line.text := by
  apply List.map_congr_left
  intro k member
  have below := List.mem_range.mp member
  exact if_pos (by omega)

theorem Console.lineStore_line (character : UInt8) {shell : Shell}
    (inside : shell.bufIndex < 128) :
    (lineStore character shell).line = shell.line.store character := by
  have index : shell.bufIndex.toNat < 128 := by omega
  simp only [lineStore, kbStore, if_pos index]
  rfl

/-! Characters. -/

def plain (character : UInt8) : Prop := ¬ (character = 10 ∨ character = 13)

instance (character : UInt8) : Decidable (plain character) := inferInstanceAs (Decidable (¬ _))

theorem kbdus_plain_below : ∀ code < 90, code ≠ 28 →
    plain (kbdus (UInt8.ofNat code)) ∧ plain (kbdus (UInt8.ofNat code + capOffset)) := by
  decide

/-- Enter is the only key with a line end in the table. -/
theorem kbdus_plain {code : UInt8} (letter : code < capOffset) (other : code ≠ newLineCode) :
    plain (kbdus code) ∧ plain (kbdus (code + capOffset)) := by
  have below : code.toNat < 90 := UInt8.lt_iff_toNat_lt.mp letter
  have apart : code.toNat ≠ 28 := fun same => other (UInt8.toNat_inj.mp same)
  have entries := kbdus_plain_below code.toNat below apart
  rwa [UInt8.ofNat_toNat] at entries

namespace Console

/-- What a key leaves of the line and of the screen of the terminal that was
viewed. -/
inductive Keyed (console : Console) (code : UInt8) : Line → Tty → Prop
  | kept (other : code ≠ newLineCode)
      (nothing : code = backSpaceCode → console.viewed.bufIndex ≤ 0)
      (full : code < capOffset → console.printedCode code ≠ none →
        127 ≤ console.viewed.bufIndex ∨ console.viewed.lineBufferFlag ≠ 0) :
      Keyed console code console.viewed.line (console.tty console.curTerminal)
  | redrawn (letter : code = lChar) (control : console.viewed.ctrlPressed = 1) :
      Keyed console code console.viewed.line
        ((Tty.cleared (console.tty console.curTerminal).screen).putAll console.viewed.typed)
  | erased (back : code = backSpaceCode) (some : 0 < console.viewed.bufIndex) :
      Keyed console code
        { console.viewed.line with bufIndex := console.viewed.bufIndex - 1 }
        (console.tty console.curTerminal).erase
  | typed {table : UInt8} (letter : code < capOffset) (other : code ≠ newLineCode)
      (printed : console.printedCode code = some table)
      (room : console.viewed.bufIndex < 127) (waiting : console.viewed.lineBufferFlag = 0) :
      Keyed console code (lineStore (kbdus table) console.viewed).line
        ((console.tty console.curTerminal).putc (kbdus table))
  | entered (enter : code = newLineCode) (waiting : console.viewed.lineBufferFlag = 0) :
      Keyed console code { (lineStore 10 console.viewed).line with lineBufferFlag := 1 }
        ((console.tty console.curTerminal).putc 10)
  | refused (enter : code = newLineCode) (complete : console.viewed.lineBufferFlag ≠ 0) :
      Keyed console code { console.viewed.line with lineBufferFlag := 1 }
        (console.tty console.curTerminal)

/-- What the driver has left of a console, seen from one of its terminals. -/
def LeavesAt (terminal : Fin 3) (line : Line) (tty : Tty) (after : Console) : Prop :=
  after.lines terminal = line ∧ after.tty terminal = tty

section Keys

variable {console : Console} {code : UInt8} {change : Shell → Shell}

theorem modifyViewed_leaves (console : Console) (keeps : KeepsScreen change) :
    LeavesAt console.curTerminal (change console.viewed).line
      (console.tty console.curTerminal) (console.modifyViewed change) := by
  refine ⟨?_, congrFun (tty_modifyShell keeps _ _) _⟩
  rw [lines, modifyViewed, terminals_modifyShell]
  rfl

theorem redraw_leaves (placed : console.Placed)
    (printing : console.printTerminal = console.curTerminal) :
    LeavesAt console.curTerminal console.viewed.line
      ((Tty.cleared (console.tty console.curTerminal).screen).putAll console.viewed.typed)
      (console.redraw videoMemAddr.toNat) := by
  have outside : SameOutside (console.screenPage console.curTerminal) console.video
      (clear videoMemAddr.toNat console.video) := by
    rw [screenPage_viewed]
    exact clear_outside _ _
  simp only [redraw, clearScreen_resetScreen]
  set blank := console.drawn console.curTerminal (clear videoMemAddr.toNat console.video) 0 0
    with blankDef
  have drawn : Only console.curTerminal console blank := only_drawn outside
  have mapped : videoMemAddr.toNat = blank.screenPage blank.printTerminal := by
    rw [drawn.screenPage, drawn.printTerminal, printing, screenPage_viewed]
  have screen : pageView videoMemAddr.toNat console.video =
      (console.tty console.curTerminal).screen := by
    rw [tty, screenPage_viewed]
  have top : blank.tty console.curTerminal =
      Tty.cleared (console.tty console.curTerminal).screen := by
    rw [tty_drawn, screenPage_viewed, pageView_clear, screen]
    rfl
  have shell : blank.viewed = { console.viewed with x := 0, y := 0 } := Function.update_self ..
  have line : blank.viewed.typed = console.viewed.typed := by
    rw [shell]
    rfl
  obtain ⟨-, only, result⟩ := putAll_tty blank.viewed.typed mapped (placed.drawn outside
    (Tty.valid_corner _))
  rw [drawn.printTerminal, printing, top] at result
  refine ⟨?_, result.trans (by rw [line])⟩
  rw [lines_putAll]
  exact (congrArg Shell.line shell).trans rfl

theorem erase_leaves (placed : console.Placed) (pending : console.Pending)
    (some : 0 < console.viewed.bufIndex) :
    LeavesAt console.curTerminal
      { console.viewed.line with bufIndex := console.viewed.bufIndex - 1 }
      (console.tty console.curTerminal).erase
      ((console.modifyViewed fun shell =>
        { shell with bufIndex := shell.bufIndex - 1 }).backSpace videoMemAddr.toNat) := by
  have keeps : KeepsScreen fun shell => { shell with bufIndex := shell.bufIndex - 1 } :=
    fun _ => ⟨rfl, rfl, rfl⟩
  set shorter := console.modifyViewed fun shell => { shell with bufIndex := shell.bufIndex - 1 }
    with shorterDef
  have shell : shorter.viewed = { console.viewed with bufIndex := console.viewed.bufIndex - 1 } :=
    Function.update_self ..
  have printed : 0 < (console.tty console.curTerminal).position :=
    Int.lt_of_lt_of_le some (pending console.curTerminal).2.2
  obtain ⟨valid, -⟩ := (placed.inside console.curTerminal).erase printed
  have below := valid.position_lt
  constructor
  · have same := @part_backSpace _ Shell.line (fun _ _ _ => rfl) videoMemAddr.toNat shorter
      console.curTerminal
    exact same.trans (congrArg Shell.line shell)
  · have screen : pageView videoMemAddr.toNat shorter.video =
        (console.tty console.curTerminal).screen := by
      rw [tty, screenPage_viewed]
      rfl
    have draws {index x y : Int} (cell : index = 80 * y + x)
        (inside : 0 ≤ index ∧ index < 2000) :
        (shorter.drawn console.curTerminal (videoStore videoMemAddr.toNat (cellAddr index) space
          shorter.video) x y).tty console.curTerminal =
        ⟨Function.update (console.tty console.curTerminal).screen
          (2 * (80 * y + x).toNat) Tty.blank, x, y⟩ := by
      have page : shorter.screenPage console.curTerminal = videoMemAddr.toNat :=
        screenPage_viewed shorter
      rw [tty_drawn, page, pageView_videoStore _ _ inside.1 inside.2, screen, cell]
      rfl
    have column : shorter.viewed.x = (console.tty console.curTerminal).x := by rw [shell]; rfl
    have row : shorter.viewed.y = (console.tty console.curTerminal).y := by rw [shell]; rfl
    obtain ⟨left, right, top, bottom⟩ := placed.inside console.curTerminal
    rw [backSpace_drawn, column, row]
    simp only [Tty.erase, Tty.position] at below ⊢
    split
    · rename_i start
      rw [if_pos (by omega)] at below ⊢
      exact draws rfl below
    · rename_i inner
      rw [if_neg (by omega)] at below ⊢
      exact draws rfl below

theorem lineStore_moved (character : UInt8) (shell : Shell) (x y : Int) :
    (lineStore character { shell with x := x, y := y }).line =
      (lineStore character shell).line := by
  simp only [lineStore, kbStore]
  repeat' split
  all_goals rfl

theorem printScancode_leaves (placed : console.Placed)
    (printing : console.printTerminal = console.curTerminal) {table : UInt8}
    (accepted : ¬ (((bufLength : Int) - 1 ≤ console.viewed.bufIndex ∧ table ≠ newLineCode) ∨
      console.viewed.lineBufferFlag ≠ 0)) :
    LeavesAt console.curTerminal (lineStore (kbdus table) console.viewed).line
      ((console.tty console.curTerminal).putc (kbdus table))
      (console.printScancode videoMemAddr.toNat table) := by
  have mapped : videoMemAddr.toNat = console.screenPage console.printTerminal := by
    rw [printing, screenPage_viewed]
  obtain ⟨-, only, result⟩ := putAll_tty [kbdus table] mapped placed
  rw [printing] at result
  rw [printScancode_eq, if_neg accepted]
  obtain ⟨line, tty⟩ := modifyViewed_leaves
    (console.putAll videoMemAddr.toNat [kbdus table]) (keepsScreen_lineStore (kbdus table))
  rw [only.curTerminal] at line tty
  refine ⟨line.trans ?_, tty.trans result⟩
  have same := @part_putAll _ (fun shell => (lineStore (kbdus table) shell).line)
    (lineStore_moved (kbdus table)) videoMemAddr.toNat [kbdus table] console console.curTerminal
  rw [viewed, only.curTerminal]
  exact same

theorem Keyed.flagged (keeps : KeepsScreen change)
    (line : ∀ shell, (change shell).line = shell.line)
    (other : code ≠ newLineCode) (forward : code ≠ backSpaceCode)
    (silent : code < capOffset → console.printedCode code = none) :
    console.Keyed code ((console.modifyViewed change).lines console.curTerminal)
      ((console.modifyViewed change).tty console.curTerminal) := by
  obtain ⟨lines, tty⟩ := modifyViewed_leaves console keeps
  rw [lines, tty, line]
  exact .kept other (fun back => absurd back forward)
    fun letter printed => absurd (silent letter) printed

theorem printedCode_letter {table : UInt8} (letter : code < capOffset)
    (other : code ≠ newLineCode) (printed : console.printedCode code = some table) :
    table ≠ newLineCode ∧ plain (kbdus table) := by
  obtain ⟨lower, upper⟩ := kbdus_plain letter other
  have shifted : code + capOffset ≠ newLineCode := by
    intro same
    have below := UInt8.lt_iff_toNat_lt.mp letter
    have sum := congrArg UInt8.toNat same
    rw [UInt8.toNat_add] at sum
    simp only [capOffset, newLineCode, UInt8.reduceToNat] at below sum
    omega
  rcases printedCode_table printed with rfl | rfl
  · exact ⟨other, lower⟩
  · exact ⟨shifted, upper⟩

theorem Keyed.prints {table : UInt8} (placed : console.Placed)
    (printing : console.printTerminal = console.curTerminal) (letter : code < capOffset)
    (other : code ≠ newLineCode) (forward : code ≠ backSpaceCode)
    (printed : console.printedCode code = some table) :
    console.Keyed code
      ((console.printScancode videoMemAddr.toNat table).lines console.curTerminal)
      ((console.printScancode videoMemAddr.toNat table).tty console.curTerminal) := by
  by_cases accepted : ((bufLength : Int) - 1 ≤ console.viewed.bufIndex ∧ table ≠ newLineCode) ∨
      console.viewed.lineBufferFlag ≠ 0
  · rw [printScancode_eq, if_pos accepted]
    refine .kept other (fun back => absurd back forward) fun _ _ => ?_
    rcases accepted with ⟨full, -⟩ | complete
    · simp only [bufLength] at full
      exact .inl (by omega)
    · exact .inr complete
  · obtain ⟨line, tty⟩ := printScancode_leaves placed printing accepted
    rw [line, tty]
    simp only [bufLength, not_or, not_and, ne_eq, Decidable.not_not] at accepted
    refine .typed letter other printed ?_ accepted.2
    by_contra full
    exact (printedCode_letter letter other printed).1 (accepted.1 (by omega))

theorem Keyed.enters (placed : console.Placed) (pending : console.Pending)
    (printing : console.printTerminal = console.curTerminal) (enter : code = newLineCode) :
    console.Keyed code
      (((console.printScancode videoMemAddr.toNat newLineCode).modifyViewed fun shell =>
        { shell with lineBufferFlag := 1 }).lines console.curTerminal)
      (((console.printScancode videoMemAddr.toNat newLineCode).modifyViewed fun shell =>
        { shell with lineBufferFlag := 1 }).tty console.curTerminal) := by
  have keeps : KeepsScreen fun shell => { shell with lineBufferFlag := 1 } :=
    fun _ => ⟨rfl, rfl, rfl⟩
  by_cases complete : console.viewed.lineBufferFlag = 0
  · have accepted : ¬ (((bufLength : Int) - 1 ≤ console.viewed.bufIndex ∧
        newLineCode ≠ newLineCode) ∨ console.viewed.lineBufferFlag ≠ 0) := by
      rintro (⟨-, other⟩ | other)
      · exact other rfl
      · exact other complete
    obtain ⟨line, tty⟩ := printScancode_leaves placed printing accepted
    set printed := console.printScancode videoMemAddr.toNat newLineCode
    have view : printed.curTerminal = console.curTerminal :=
      (printScancode_handled newLineCode placed pending printing).only.curTerminal
    obtain ⟨ended, screen⟩ := modifyViewed_leaves printed keeps
    rw [view] at ended screen
    rw [ended, screen, tty]
    have whole : Shell.line { printed.viewed with lineBufferFlag := 1 } =
        { (lineStore 10 console.viewed).line with lineBufferFlag := 1 } := by
      rw [viewed, view]
      exact congrArg (fun line : Line => { line with lineBufferFlag := 1 }) line
    rw [whole]
    exact .entered enter complete
  · have refused : console.printScancode videoMemAddr.toNat newLineCode = console := by
      rw [printScancode_eq, if_pos (.inr complete)]
    rw [refused]
    obtain ⟨ended, screen⟩ := modifyViewed_leaves console keeps
    rw [ended, screen]
    exact .refused enter complete

/-- Every branch of the driver on a key that is pressed. -/
theorem recentReleaseExec_keyed (placed : console.Placed) (pending : console.Pending)
    (printing : console.printTerminal = console.curTerminal) (letter : code < capOffset) :
    console.Keyed code
      ((console.recentReleaseExec videoMemAddr.toNat code).lines console.curTerminal)
      ((console.recentReleaseExec videoMemAddr.toNat code).tty console.curTerminal) := by
  by_cases switches : console.switchesView code
  · have others : code ≠ ctrlCode ∧ code ≠ newLineCode ∧ code ≠ backSpaceCode := by
      rcases switches.2 with rfl | rfl | rfl
      all_goals decide
    have ttys := (recentReleaseExec_switched placed pending switches).1.ttys
    have silent : console.printedCode code = none :=
      (if_neg others.1).trans (if_pos switches)
    rw [ttys, lines, terminals_recentReleaseExec _ _ switches]
    exact .kept others.2.1 (fun back => absurd back others.2.2)
      fun _ printed => absurd silent printed
  · have pressed := recentReleaseExec_pressed videoMemAddr.toNat switches
    generalize console.recentReleaseExec videoMemAddr.toNat code = after at pressed ⊢
    cases pressed with
    | ctrl key silent | alt key silent | capsLock key silent =>
        exact .flagged (fun _ => ⟨rfl, rfl, rfl⟩) (fun _ => rfl) (by rw [key]; decide)
          (by rw [key]; decide) fun _ => silent
    | shift key silent =>
        have others : code ≠ newLineCode ∧ code ≠ backSpaceCode := by
          rcases key with rfl | rfl
          all_goals decide
        exact .flagged (fun _ => ⟨rfl, rfl, rfl⟩) (fun _ => rfl) others.1 others.2
          fun _ => silent
    | redraws control =>
        obtain ⟨line, tty⟩ := redraw_leaves placed printing
        rw [line, tty]
        exact .redrawn control.1 control.2
    | nothing back empty silent =>
        exact .kept (by rw [back]; decide) (fun _ => empty)
          fun _ printed => absurd silent printed
    | erases back some =>
        obtain ⟨line, tty⟩ := erase_leaves placed pending some
        rw [line, tty]
        exact .erased back some
    | enters enter =>
        have entered := Keyed.enters placed pending printing enter
        rw [enter] at entered ⊢
        exact entered
    | prints _ _ _ forward other printed =>
        exact Keyed.prints placed printing letter other forward printed

theorem afterReleaseExec_keyed (console : Console) (released : ¬ code < recentRelease) :
    console.Keyed code ((console.afterReleaseExec code).lines console.curTerminal)
      ((console.afterReleaseExec code).tty console.curTerminal) := by
  have other : code ≠ newLineCode := by
    rintro rfl
    exact released (by decide)
  have forward : code ≠ backSpaceCode := by
    rintro rfl
    exact released (by decide)
  have above : ¬ code < capOffset := fun letter =>
    released (UInt8.lt_trans letter (by decide))
  obtain ⟨change, keeps, line, cleared⟩ := console.afterReleaseExec_flagged code
  rw [cleared]
  exact .flagged keeps line other forward fun letter => absurd letter above

/-- Which terminal prints says nothing about the terminal that is viewed. -/
theorem Keyed.of_printing {terminal : Fin 3} {line : Line} {tty : Tty}
    (keyed : Keyed { console with printTerminal := terminal } code line tty) :
    console.Keyed code line tty := by
  cases keyed with
  | kept other nothing full => exact .kept other nothing full
  | redrawn letter control => exact .redrawn letter control
  | erased back some => exact .erased back some
  | typed letter other printed room waiting => exact .typed letter other printed room waiting
  | entered enter waiting => exact .entered enter waiting
  | refused enter complete => exact .refused enter complete

end Keys

end Console

namespace Kernel

variable {kernel : Kernel}

theorem accepted_letter {code : UInt8} (accepted : ¬ ignoresCode code)
    (make : code < recentRelease) : code < capOffset := by
  by_contra above
  refine accepted (.inl ⟨UInt8.not_lt.mp above, ?_⟩)
  exact UInt8.le_of_lt make

theorem ignored_letter {code : UInt8} (ignored : ignoresCode code) : ¬ code < capOffset := by
  intro letter
  rcases ignored with ⟨lower, -⟩ | lower
  · exact UInt8.not_lt.mpr lower letter
  · exact UInt8.not_lt.mpr lower (UInt8.lt_trans letter (by decide))

theorem key_keyed (mapped : kernel.OwnScreen) (code : UInt8) :
    kernel.console.Keyed code
      ((kernel.keyboardInterruptHandler code).console.lines kernel.console.curTerminal)
      ((kernel.keyboardInterruptHandler code).console.tty kernel.console.curTerminal) := by
  rw [keyboardInterruptHandler_eq]
  split
  · rename_i ignored
    have other : code ≠ newLineCode := by
      rintro rfl
      exact absurd ignored (by decide)
    have forward : code ≠ backSpaceCode := by
      rintro rfl
      exact absurd ignored (by decide)
    have above := ignored_letter ignored
    exact .kept other (fun back => absurd back forward) fun letter => absurd letter above
  · rename_i accepted
    have placed : Console.Placed
        { kernel.console with printTerminal := kernel.console.curTerminal } :=
      ⟨mapped.placed.buffers, mapped.placed.inside, mapped.placed.cursor⟩
    have keyed : kernel.console.Keyed code ((kernel.keyConsole code).lines
        kernel.console.curTerminal) ((kernel.keyConsole code).tty kernel.console.curTerminal) := by
      simp only [keyConsole]
      split
      · rename_i make
        have letter := accepted_letter accepted make
        exact .of_printing (Console.recentReleaseExec_keyed placed mapped.pending rfl letter)
      · rename_i released
        exact .of_printing (Console.afterReleaseExec_keyed _ released)
    exact keyed

theorem key_others (mapped : kernel.OwnScreen) (code : UInt8) {terminal : Fin 3}
    (away : terminal ≠ kernel.console.curTerminal) :
    (kernel.keyboardInterruptHandler code).console.lines terminal =
        kernel.console.lines terminal ∧
      (kernel.keyboardInterruptHandler code).console.tty terminal =
        kernel.console.tty terminal := by
  constructor
  · obtain ⟨mask, ignored | typed⟩ := kernel.keyboardInterruptHandler_cases code
    · rw [ignored]
    · rw [typed]
      rcases keyConsole_cases code mapped with ⟨-, handled⟩ | ⟨switches, -⟩
      · exact congrArg Shell.line (handled.only.others terminal away)
      · exact congrArg (fun terminals => Shell.line (terminals terminal))
          (terminals_keyConsole switches)
  · rcases key_tty mapped code with same | ⟨-, -, others⟩
    · rw [same]
    · exact others terminal away

theorem key_view (mapped : kernel.OwnScreen) (code : UInt8) :
    (kernel.keyboardInterruptHandler code).console.curTerminal = kernel.console.curTerminal ∨
      (kernel.console.switchesView code ∧
        (kernel.keyboardInterruptHandler code).console.curTerminal = Console.selected code) := by
  obtain ⟨mask, ignored | typed⟩ := kernel.keyboardInterruptHandler_cases code
  · rw [ignored]
    exact .inl rfl
  · rw [typed]
    rcases keyConsole_cases code mapped with ⟨-, handled⟩ | ⟨switches, -, selected⟩
    · exact .inl handled.only.curTerminal
    · exact .inr ⟨switches, selected⟩

end Kernel

/-! Everything but keys. -/

/-- What the other events may do to a line: a process starts to wait for its end,
or it is reset. -/
inductive Line.Served (line : Line) : Line → Prop
  | kept : Served line line
  | awaited : Served line { line with lineBufferFlag := 0 }
  | reset : Served line { line with bufIndex := 0 }

theorem Console.terminalOpen_served (console : Console) (terminal : Fin 3) :
    (console.lines terminal).Served (console.terminalOpen.lines terminal) := by
  rw [lines_terminalOpen]
  split
  · rename_i here
    rw [here]
    exact .reset
  · exact .kept

theorem Kernel.CallConsole.served {kernel : Kernel} {output : List UInt8} {console : Console}
    (left : kernel.CallConsole output console) (terminal : Fin 3) :
    (kernel.console.lines terminal).Served (console.lines terminal) := by
  by_cases here : terminal = kernel.curSchedTerm
  · cases left with
    | printed =>
        rw [Console.lines_putAll]
        exact .kept
    | waiting =>
        simp only [here, Console.lines, Console.terminals_modifyShell]
        exact .awaited
  · rw [left.lines here]
    exact .kept

def Event.isKey : Event → Bool
  | key _ => true
  | _ => false

def SessionEvent.isKey : SessionEvent → Bool
  | fire event => event.isKey
  | _ => false

theorem SessionEvent.isKey_cases (event : SessionEvent) :
    (∃ code, event = .fire (.key code)) ∨ event.isKey = false := by
  cases event with
  | fire event =>
      cases event with
      | key code => exact .inl ⟨code, rfl⟩
      | _ => exact .inr rfl
  | _ => exact .inr rfl

namespace Session

variable {platform : Platform} {session next : Session} {event : SessionEvent} {reply : Reply}

/-- The console after an event that is no key. -/
inductive Unkeyed (session : Session) : SessionEvent → Console → Prop
  | kept {event : SessionEvent} (terminal : Fin 3) :
      Unkeyed session event { session.console with printTerminal := terminal }
  | reset {event : SessionEvent} : Unkeyed session event session.console.terminalOpen
  | called {event : Event} {console : Console}
      (left : session.machine.kernel.CallConsole event.output console) :
      Unkeyed session (.fire event) console

theorem Sound.unkeyed (sound : session.Sound platform)
    (fired : session.step platform event = some (next, reply)) (other : event.isKey = false) :
    session.Unkeyed event next.console := by
  have same {event : SessionEvent} : session.Unkeyed event session.console :=
    .kept session.console.printTerminal
  cases moves fired with
  | launch frame booting success =>
      obtain ⟨entryPoint, memory, rfl⟩ := Kernel.launch_eq success
      exact same
  | driver => exact .reset
  | fire running moved =>
      rename_i event machine
      cases call : event.isCall with
      | true =>
          have kept := sound.wellKept (running.resolve_right (by rw [call]; decide))
          obtain ⟨valid, off⟩ := kept.caller
          rcases Machine.step_console kept.processes valid off moved call with
            ⟨-, -, reset⟩ | ⟨-, left⟩
          · rw [console, reset]
            exact .reset
          · exact .called left
      | false =>
          cases event with
          | tick esp ebp =>
              obtain ⟨terminal, ticked⟩ := sound.ticked esp ebp
              obtain ⟨rfl, rfl⟩ := Prod.mk.inj (Option.some.inj moved)
              rw [console, ticked]
              exact .kept terminal
          | key code => cases other
          | rtcInterrupt =>
              obtain ⟨rfl, rfl⟩ := Prod.mk.inj (Option.some.inj moved)
              exact same
          | _ => cases call

theorem Unkeyed.served {console : Console} (unkeyed : session.Unkeyed event console)
    (terminal : Fin 3) : (session.console.lines terminal).Served (console.lines terminal) := by
  cases unkeyed with
  | kept => exact .kept
  | reset => exact Console.terminalOpen_served _ terminal
  | called left => exact left.served terminal

theorem key_eq_some {code : UInt8}
    (fired : session.step platform (.fire (.key code)) = some (next, reply)) :
    next = { session with machine := { session.machine with
      kernel := session.machine.kernel.keyboardInterruptHandler code } } := by
  cases moves fired with
  | fire running moved =>
      obtain ⟨rfl, rfl⟩ := Prod.mk.inj (Option.some.inj moved)
      rfl
  | driver direct => rcases direct with direct | direct <;> cases direct

end Session

namespace Sample

def press (code : UInt8) (session : Session) : Session :=
  { session with machine := { session.machine with
      kernel := session.machine.kernel.keyboardInterruptHandler code } }

theorem presses (code : UInt8) (session : Session) :
    session.step platform (.fire (.key code)) = some (press code session, .handled) := rfl

end Sample

end Ece391Os
