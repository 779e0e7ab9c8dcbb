import Ece391Os.Terminal.Screens

namespace Ece391Os

open Data

/-! What the keyboard driver does to the screens.  It prints through the video
page, mapped to the screen of the viewed terminal. -/

namespace Console

/-- A pending line is shorter than what lies before the cursor, so that deleting
it never leaves the screen. -/
def Pending (console : Console) : Prop :=
  ∀ terminal, 0 ≤ (console.terminals terminal).bufIndex ∧
    (console.terminals terminal).bufIndex ≤ 132 ∧
    (console.terminals terminal).bufIndex ≤ (console.tty terminal).position

structure Handled (before after : Console) : Prop where
  placed : after.Placed
  pending : after.Pending
  only : Only before.curTerminal before after

structure Switched (before after : Console) : Prop where
  placed : after.Placed
  pending : after.Pending
  ttys : after.tty = before.tty

section Keys

variable {console after : Console} {change : Shell → Shell}

theorem Handled.of_only (placed : after.Placed) (pending : console.Pending)
    (buffers : ∀ terminal, (console.terminals terminal).vidMem =
      videoMemAddr + (terminal.val + 1) * pageSize)
    (only : Only console.curTerminal console after)
    (lower : 0 ≤ (after.terminals console.curTerminal).bufIndex)
    (upper : (after.terminals console.curTerminal).bufIndex ≤ 132)
    (behind : (after.terminals console.curTerminal).bufIndex ≤
      (after.tty console.curTerminal).position) : Handled console after := by
  refine ⟨placed, ?_, only⟩
  intro terminal
  by_cases here : terminal = console.curTerminal
  · rw [here]
    exact ⟨lower, upper, behind⟩
  · rw [only.tty_eq buffers here, only.others terminal here]
    exact pending terminal

theorem Handled.refl (placed : console.Placed) (pending : console.Pending) :
    Handled console console := ⟨placed, pending, .refl _ _⟩

def KeepsScreen (change : Shell → Shell) : Prop :=
  ∀ shell, (change shell).vidMem = shell.vidMem ∧ (change shell).x = shell.x ∧
    (change shell).y = shell.y

theorem tty_modifyShell (keeps : KeepsScreen change) (terminal : Fin 3) (console : Console) :
    (console.modifyShell terminal change).tty = console.tty := by
  funext other
  by_cases here : other = terminal
  · obtain ⟨vidMem, x, y⟩ := keeps (console.terminals terminal)
    simp [tty, screenPage, modifyShell, here, vidMem, x, y]
  · simp [tty, screenPage, modifyShell, here]

theorem terminals_modifyShell (terminal : Fin 3) (console : Console) :
    (console.modifyShell terminal change).terminals terminal =
      change (console.terminals terminal) := by
  simp [modifyShell]

theorem Placed.modifyShell (placed : console.Placed) (keeps : KeepsScreen change)
    (terminal : Fin 3) : (console.modifyShell terminal change).Placed := by
  have same := tty_modifyShell keeps terminal console
  refine ⟨?_, ?_, ?_⟩
  · intro other
    by_cases here : other = terminal
    · rw [here, terminals_modifyShell, (keeps _).1, placed.buffers]
    · simp only [Console.modifyShell, Function.update_of_ne here]
      exact placed.buffers other
  · intro other
    rw [same]
    exact placed.inside other
  · rw [same]
    exact placed.cursor

theorem only_modifyShell (keeps : KeepsScreen change) (terminal : Fin 3) (console : Console) :
    Only terminal console (console.modifyShell terminal change) := by
  refine ⟨rfl, rfl, ?_, ?_, .refl _ _⟩
  · intro other different
    simp only [modifyShell, Function.update_of_ne different]
  · rw [terminals_modifyShell]
    exact (keeps _).1

theorem Handled.modifyViewed (placed : console.Placed) (pending : console.Pending)
    (keeps : KeepsScreen change) (line : ∀ shell, (change shell).bufIndex = shell.bufIndex) :
    Handled console (console.modifyViewed change) := by
  obtain ⟨lower, upper, behind⟩ := pending console.curTerminal
  rw [Console.modifyViewed]
  refine .of_only (placed.modifyShell keeps _) pending placed.buffers
    (only_modifyShell keeps _ _) ?_ ?_ ?_
  · rwa [terminals_modifyShell, line]
  · rwa [terminals_modifyShell, line]
  · rwa [terminals_modifyShell, line, tty_modifyShell keeps]

/-! Printing keys. -/

theorem screenPage_viewed (console : Console) :
    console.screenPage console.curTerminal = videoMemAddr.toNat := if_pos rfl

theorem bufIndex_putAll (page : Nat) (bytes : List UInt8) (terminal : Fin 3)
    (console : Console) :
    ((console.putAll page bytes).terminals terminal).bufIndex =
      (console.terminals terminal).bufIndex :=
  congrArg Line.bufIndex (congrFun (lines_putAll page bytes console) terminal)

def lineStore (character : UInt8) (shell : Shell) : Shell :=
  { kbStore shell shell.bufIndex.toNat character with
    bufIndex := (kbStore shell shell.bufIndex.toNat character).bufIndex + 1 }

theorem keepsScreen_lineStore (character : UInt8) : KeepsScreen (lineStore character) := by
  intro shell
  simp only [lineStore, kbStore]
  repeat' split
  all_goals exact ⟨rfl, rfl, rfl⟩

/-- A line grows by one, or starts over when it runs into its own length. -/
theorem bufIndex_lineStore {character : UInt8} {shell : Shell} (lower : 0 ≤ shell.bufIndex)
    (upper : shell.bufIndex ≤ 132) (full : shell.bufIndex = 132 → character = 10) :
    0 ≤ (lineStore character shell).bufIndex ∧
      (lineStore character shell).bufIndex ≤ 132 ∧
      (lineStore character shell).bufIndex ≤ shell.bufIndex + 1 := by
  by_cases room : shell.bufIndex < 132
  · have same : (kbStore shell shell.bufIndex.toNat character).bufIndex = shell.bufIndex := by
      simp only [kbStore]
      split
      · rfl
      · rw [if_pos (by omega)]
    simp only [lineStore, same]
    omega
  · have last : shell.bufIndex = 132 := by omega
    have again : (kbStore shell shell.bufIndex.toNat character).bufIndex = 10 := by
      have index : Int.toNat 132 = 132 := rfl
      rw [full last]
      simp only [kbStore, last, index]
      rw [if_neg (by decide), if_neg (by decide), if_pos (by decide)]
      exact (by decide : withByte 132 (132 - 132) 10 = 10)
    simp only [lineStore, again]
    omega

theorem printScancode_eq (page : Nat) (scanCode : UInt8) (console : Console) :
    console.printScancode page scanCode =
      if ((bufLength : Int) - 1 ≤ console.viewed.bufIndex ∧ scanCode ≠ newLineCode) ∨
          console.viewed.lineBufferFlag ≠ 0 then console
      else (console.putAll page [kbdus scanCode]).modifyViewed (lineStore (kbdus scanCode)) := by
  have composed (shown : Console) : ((shown.modifyViewed fun shell =>
        kbStore shell shell.bufIndex.toNat (kbdus scanCode)).modifyViewed fun shell =>
      { shell with bufIndex := shell.bufIndex + 1 }) =
      shown.modifyViewed (lineStore (kbdus scanCode)) := by
    simp [modifyViewed, modifyShell, lineStore]
  simp only [printScancode, composed]
  rfl

theorem printScancode_handled (scanCode : UInt8) (placed : console.Placed)
    (pending : console.Pending) (printing : console.printTerminal = console.curTerminal) :
    Handled console (console.printScancode videoMemAddr.toNat scanCode) := by
  rw [printScancode_eq]
  split
  · exact .refl placed pending
  · rename_i accepted
    have mapped : videoMemAddr.toNat = console.screenPage console.printTerminal := by
      rw [printing, screenPage_viewed]
    obtain ⟨placedNext, only, result⟩ := putAll_tty [kbdus scanCode] mapped placed
    set shown := console.putAll videoMemAddr.toNat [kbdus scanCode] with shownDef
    rw [printing] at only result
    rw [modifyViewed, only.curTerminal]
    have keeps := keepsScreen_lineStore (kbdus scanCode)
    have index : (shown.terminals console.curTerminal).bufIndex =
        (console.terminals console.curTerminal).bufIndex := bufIndex_putAll _ _ _ _
    obtain ⟨lower, upper, behind⟩ := pending console.curTerminal
    have enter : (shown.terminals console.curTerminal).bufIndex = 132 →
        kbdus scanCode = 10 := by
      intro full
      have code : scanCode = newLineCode := by
        by_contra other
        apply accepted
        refine .inl ⟨?_, other⟩
        simp only [viewed, bufLength]
        omega
      rw [code]
      decide
    obtain ⟨lower', upper', grown⟩ := bufIndex_lineStore (by omega) (by omega) enter
    have moved := (placed.inside console.curTerminal).position_putAll [kbdus scanCode]
    rw [← result] at moved
    refine .of_only (placedNext.modifyShell keeps _) pending placed.buffers
      (only.trans (only_modifyShell keeps _ _)) ?_ ?_ ?_
    · rw [terminals_modifyShell]
      exact lower'
    · rw [terminals_modifyShell]
      exact upper'
    · rw [terminals_modifyShell, tty_modifyShell keeps]
      simp only [List.length_singleton] at moved
      omega

theorem redraw_handled (placed : console.Placed) (pending : console.Pending)
    (printing : console.printTerminal = console.curTerminal) :
    Handled console (console.redraw videoMemAddr.toNat) := by
  have outside : SameOutside (console.screenPage console.curTerminal) console.video
      (clear videoMemAddr.toNat console.video) := by
    rw [screenPage_viewed]
    exact clear_outside _ _
  have corner : Tty.Valid ⟨pageView (console.screenPage console.curTerminal)
      (clear videoMemAddr.toNat console.video), 0, 0⟩ := Tty.valid_corner _
  simp only [redraw, clearScreen_resetScreen]
  set blank := console.drawn console.curTerminal (clear videoMemAddr.toNat console.video) 0 0
  have drawn : Only console.curTerminal console blank := only_drawn outside
  have index : (blank.terminals console.curTerminal).bufIndex =
      (console.terminals console.curTerminal).bufIndex := bufIndex_drawn ..
  have mapped : videoMemAddr.toNat = blank.screenPage blank.printTerminal := by
    rw [drawn.screenPage, drawn.printTerminal, printing, screenPage_viewed]
  set line := (List.range blank.viewed.bufIndex.toNat).map (kbLoad blank.viewed) with lineDef
  obtain ⟨placedNext, only, result⟩ := putAll_tty line mapped (placed.drawn outside corner)
  rw [drawn.printTerminal, printing] at only result
  have top : blank.tty console.curTerminal = ⟨pageView (console.screenPage
      console.curTerminal) (clear videoMemAddr.toNat console.video), 0, 0⟩ :=
    tty_drawn console console.curTerminal _ 0 0
  have moved := corner.position_putAll line
  rw [← top, ← result, top] at moved
  have length : line.length = (console.terminals console.curTerminal).bufIndex.toNat := by
    rw [lineDef, List.length_map, List.length_range, viewed, drawn.curTerminal, index]
  obtain ⟨lower, upper, -⟩ := pending console.curTerminal
  have kept := bufIndex_putAll videoMemAddr.toNat line console.curTerminal blank
  rw [index] at kept
  refine .of_only placedNext pending placed.buffers (drawn.trans only) ?_ ?_ ?_
  · omega
  · omega
  · simp only [Tty.position] at moved ⊢
    omega

theorem backSpace_drawn (page : Nat) (console : Console) :
    console.backSpace page =
      if console.viewed.x - 1 < 0 then
        console.drawn console.curTerminal (videoStore page
          (cellAddr (numCols * (console.viewed.y - 1) + (numCols - 1))) space console.video)
          (numCols - 1) (console.viewed.y - 1)
      else
        console.drawn console.curTerminal (videoStore page
          (cellAddr (numCols * console.viewed.y + (console.viewed.x - 1))) space
            console.video)
          (console.viewed.x - 1) console.viewed.y := by
  by_cases first : console.viewed.x - 1 < 0
  · have start : (console.terminals console.curTerminal).x - 1 < 0 := first
    rw [if_pos first]
    simp only [backSpace, drawn, modifyShell, viewed, Function.update_self, if_pos start]
  · have start : ¬ (console.terminals console.curTerminal).x - 1 < 0 := first
    rw [if_neg first]
    simp only [backSpace, drawn, modifyShell, viewed, Function.update_self, if_neg start]

theorem videoStore_outside {page : Nat} {index : Int} (byte : UInt8) (video : Memory)
    (lower : 0 ≤ index) (upper : index < 2000) :
    SameOutside page video (videoStore page (cellAddr index) byte video) := by
  intro address outside
  rw [videoStore, (videoPhysical_cell page lower upper).1]
  simp only
  rw [Function.update_of_ne (by omega)]

theorem deletion_handled (placed : console.Placed) (pending : console.Pending)
    (typed : 0 < console.viewed.bufIndex) :
    Handled console ((console.modifyViewed fun shell =>
      { shell with bufIndex := shell.bufIndex - 1 }).backSpace videoMemAddr.toNat) := by
  have keeps : KeepsScreen fun shell => { shell with bufIndex := shell.bufIndex - 1 } :=
    fun _ => ⟨rfl, rfl, rfl⟩
  set shorter := console.modifyViewed fun shell =>
    { shell with bufIndex := shell.bufIndex - 1 } with shorterDef
  have placedNext : shorter.Placed := placed.modifyShell keeps _
  have only : Only console.curTerminal console shorter := only_modifyShell keeps _ _
  have index_ : (shorter.terminals console.curTerminal).bufIndex =
      (console.terminals console.curTerminal).bufIndex - 1 := by
    rw [shorterDef, modifyViewed, terminals_modifyShell]
  have same : shorter.tty = console.tty := tty_modifyShell keeps _ _
  obtain ⟨lower, upper, behind⟩ := pending console.curTerminal
  obtain ⟨left, right, top, bottom⟩ := placedNext.inside console.curTerminal
  have draws {index x y : Int} (cell : index = 80 * y + x)
      (back : index = (console.tty console.curTerminal).position - 1)
      (inside : 0 ≤ x ∧ x < 80 ∧ 0 ≤ y ∧ y < 25) :
      Handled console (shorter.drawn console.curTerminal
        (videoStore videoMemAddr.toNat (cellAddr index) space shorter.video) x y) := by
    obtain ⟨left, right, top, bottom⟩ := inside
    have outside : SameOutside (shorter.screenPage console.curTerminal) shorter.video
        (videoStore videoMemAddr.toNat (cellAddr index) space shorter.video) := by
      rw [only.screenPage, screenPage_viewed]
      exact videoStore_outside space shorter.video (by omega) (by omega)
    have kept : ((shorter.drawn console.curTerminal (videoStore videoMemAddr.toNat
        (cellAddr index) space shorter.video) x y).terminals
          console.curTerminal).bufIndex = console.viewed.bufIndex - 1 := by
      rw [bufIndex_drawn, index_, viewed]
    refine .of_only (placedNext.drawn outside ⟨left, right, top, bottom⟩) pending placed.buffers
      (only.trans (only_drawn outside)) ?_ ?_ ?_
    · rw [kept]
      omega
    · rw [kept]
      simp only [viewed]
      omega
    · rw [kept, tty_drawn]
      simp only [viewed, Tty.position] at *
      omega
  have position : (console.tty console.curTerminal).position =
      80 * shorter.viewed.y + shorter.viewed.x := by
    rw [← same]
    rfl
  have column : shorter.viewed.x = (shorter.tty console.curTerminal).x := rfl
  have row : shorter.viewed.y = (shorter.tty console.curTerminal).y := rfl
  simp only [viewed] at typed
  rw [backSpace_drawn]
  split
  · rename_i start
    refine draws rfl ?_ ⟨by decide, by decide, by omega, by omega⟩
    simp only [numCols]
    omega
  · rename_i inside
    refine draws rfl ?_ ⟨by omega, by omega, by omega, by omega⟩
    simp only [numCols]
    omega

/-! Switching the view. -/

theorem screen_physical {i : Nat} (inside : i < 4096) :
    videoPhysical videoMemAddr.toNat (videoMemAddr + i) = some (videoMemAddr.toNat + i) := by
  rw [videoPhysical, if_pos (by simp only [videoMemAddr]; omega)]
  simp only [videoMemAddr]
  congr 2
  omega

theorem buffer_physical (placed : console.Placed) (terminal : Fin 3) {i : Nat}
    (inside : i < 4096) :
    videoPhysical videoMemAddr.toNat ((console.terminals terminal).vidMem + i) =
      some ((console.terminals terminal).vidMem.toNat + i) := by
  rw [placed.buffers, videoPhysical, if_neg (by simp only [videoMemAddr, pageSize]; omega),
    if_pos (by simp only [videoMemAddr, pageSize]; omega)]
  rfl

theorem Placed.buffer_apart (placed : console.Placed) (terminal other : Fin 3) :
    videoMemAddr.toNat + 4096 ≤ (console.terminals terminal).vidMem.toNat ∧
      (terminal ≠ other →
        (console.terminals terminal).vidMem.toNat + 4096 ≤
            (console.terminals other).vidMem.toNat ∨
          (console.terminals other).vidMem.toNat + 4096 ≤
            (console.terminals terminal).vidMem.toNat) := by
  rw [placed.buffers, placed.buffers]
  simp only [videoMemAddr, pageSize]
  refine ⟨by omega, fun different => ?_⟩
  have numbers : terminal.val ≠ other.val := fun same => different (Fin.ext same)
  omega

/-- The memory `change_shell` leaves: the screen in the buffer of the terminal
viewed before, and the buffer of the next on the screen. -/
def swapped (console : Console) (terminal : Fin 3) : Memory :=
  let saved := Memory.blit console.video videoMemAddr.toNat console.video
    console.viewed.vidMem.toNat 4096
  Memory.blit saved (console.terminals terminal).vidMem.toNat saved videoMemAddr.toNat 4096

theorem changeShell_eq {next : Int} {terminal : Fin 3} (placed : console.Placed)
    (accepted : terminalOf next = some terminal) :
    console.changeShell videoMemAddr.toNat next =
      { console with
        curTerminal := terminal
        video := console.swapped terminal }.showCursor := by
  have old := (placed.buffer_apart console.curTerminal terminal).1
  have new := (placed.buffer_apart terminal terminal).1
  have save (video : Memory) : copyPage videoMemAddr.toNat console.viewed.vidMem
      videoMemAddr video = Memory.blit video videoMemAddr.toNat video
        console.viewed.vidMem.toNat 4096 :=
    copyPage_eq (fun i inside => buffer_physical placed _ inside)
      (fun i inside => screen_physical inside) (.inl old) video
  have load (video : Memory) : copyPage videoMemAddr.toNat videoMemAddr
      (console.terminals terminal).vidMem video = Memory.blit video
        (console.terminals terminal).vidMem.toNat video videoMemAddr.toNat 4096 :=
    copyPage_eq (fun i inside => screen_physical inside)
      (fun i inside => buffer_physical placed _ inside) (.inr new) video
  simp only [changeShell, accepted]
  rw [save]
  simp only [viewed] at load ⊢
  rw [load]
  rfl

/-- Every logical screen is where it was, or where it was copied to. -/
theorem pageView_swapped (placed : console.Placed) (terminal other : Fin 3) :
    pageView (if other = terminal then videoMemAddr.toNat
        else (console.terminals other).vidMem.toNat) (console.swapped terminal) =
      pageView (console.screenPage other) console.video := by
  set saved := Memory.blit console.video videoMemAddr.toNat console.video
    console.viewed.vidMem.toNat 4096 with savedDef
  have stored : pageView (console.terminals other).vidMem.toNat saved =
      pageView (console.screenPage other) console.video := by
    by_cases here : other = console.curTerminal
    · rw [here, screenPage_viewed]
      exact pageView_blit
    · rw [screenPage, if_neg here]
      exact blit_sameOutside.pageView_eq ((placed.buffer_apart other _).2 here)
  by_cases next : other = terminal
  · rw [if_pos next, ← stored, next]
    exact pageView_blit
  · rw [if_neg next, ← stored]
    exact blit_sameOutside.pageView_eq (.inr (placed.buffer_apart other other).1)

theorem changeShell_switched {next : Int} {terminal : Fin 3} (placed : console.Placed)
    (pending : console.Pending) (accepted : terminalOf next = some terminal) :
    Switched console (console.changeShell videoMemAddr.toNat next) ∧
      (console.changeShell videoMemAddr.toNat next).curTerminal = terminal := by
  rw [changeShell_eq placed accepted]
  set switched := { console with
    curTerminal := terminal
    video := console.swapped terminal }
  have ttys : switched.tty = console.tty := by
    funext other
    exact congrArg (fun screen =>
        (⟨screen, (console.terminals other).x, (console.terminals other).y⟩ : Tty))
      (pageView_swapped placed terminal other)
  have inside : ∀ other, (switched.tty other).Valid := by
    rw [ttys]
    exact placed.inside
  refine ⟨⟨⟨placed.buffers, inside, cursor_showCursor (inside _)⟩, ?_, ttys⟩, rfl⟩
  intro other
  have line := pending other
  rw [← ttys] at line
  exact line

/-! The keyboard driver. -/

def switchesView (scanCode : UInt8) (console : Console) : Prop :=
  console.viewed.altPressed = 1 ∧
    (scanCode = f1Char ∨ scanCode = f2Char ∨ scanCode = f3Char)

/-- The terminal a function key selects. -/
def selected (scanCode : UInt8) : Fin 3 :=
  if scanCode = f1Char then 0 else if scanCode = f2Char then 1 else 2

/-- The entry of `kbdus` that a key prints, when the driver takes it for a
character. -/
def printedCode (scanCode : UInt8) (console : Console) : Option UInt8 :=
  if scanCode = ctrlCode then none
  else if console.viewed.altPressed = 1 ∧
      (scanCode = f1Char ∨ scanCode = f2Char ∨ scanCode = f3Char) then none
  else if scanCode = lChar ∧ console.viewed.ctrlPressed = 1 then none
  else if scanCode = backSpaceCode then none
  else if scanCode = altChar then none
  else if scanCode = newLineCode then some scanCode
  else if scanCode = leftShift ∨ scanCode = rightShift then none
  else if scanCode = capsLockCode then none
  else if console.capsAndShift ∧ inCharRange scanCode then some scanCode
  else if console.capsNoShift ∧ inCharRange scanCode then some (scanCode + capOffset)
  else if console.viewed.shiftPressed = 1 then some (scanCode + capOffset)
  else some scanCode

theorem printedCode_table {code table : UInt8} (printed : console.printedCode code = some table) :
    table = code ∨ table = code + capOffset := by
  simp only [printedCode, Option.ite_none_left_eq_some] at printed
  grind

theorem printedCode_control {code : UInt8} (control : code = lChar ∧ console.viewed.ctrlPressed = 1) :
    console.printedCode code = none := by
  have others : code ≠ ctrlCode ∧ ¬ (code = f1Char ∨ code = f2Char ∨ code = f3Char) := by
    rw [control.1]
    decide
  rw [printedCode, if_neg others.1, if_neg fun both => others.2 both.2, if_pos control]

theorem printedCode_back {code : UInt8} (back : code = backSpaceCode) :
    console.printedCode code = none := by
  have others : code ≠ ctrlCode ∧ ¬ (code = f1Char ∨ code = f2Char ∨ code = f3Char) ∧
      code ≠ lChar := by
    rw [back]
    decide
  rw [printedCode, if_neg others.1, if_neg fun both => others.2.1 both.2,
    if_neg fun both => others.2.2 both.1, if_pos back]

/-- What a key does that leaves the view alone, branch by branch. -/
inductive Pressed (page : Nat) (code : UInt8) (console : Console) : Console → Prop
  | ctrl (key : code = ctrlCode) (silent : console.printedCode code = none) :
      Pressed page code console
        (console.modifyViewed fun shell => { shell with ctrlPressed := 1 })
  | redraws (control : code = lChar ∧ console.viewed.ctrlPressed = 1)
      (silent : console.printedCode code = none) :
      Pressed page code console (console.redraw page)
  | nothing (back : code = backSpaceCode) (empty : console.viewed.bufIndex ≤ 0)
      (silent : console.printedCode code = none) : Pressed page code console console
  | erases (back : code = backSpaceCode) (some : 0 < console.viewed.bufIndex)
      (silent : console.printedCode code = none) :
      Pressed page code console
        ((console.modifyViewed fun shell =>
          { shell with bufIndex := shell.bufIndex - 1 }).backSpace page)
  | alt (key : code = altChar) (silent : console.printedCode code = none) :
      Pressed page code console
        (console.modifyViewed fun shell => { shell with altPressed := 1 })
  | enters (enter : code = newLineCode) (printed : console.printedCode code = some code) :
      Pressed page code console
        ((console.printScancode page code).modifyViewed fun shell =>
          { shell with lineBufferFlag := 1 })
  | shift (key : code = leftShift ∨ code = rightShift)
      (silent : console.printedCode code = none) :
      Pressed page code console
        (console.modifyViewed fun shell => { shell with shiftPressed := 1 })
  | capsLock (key : code = capsLockCode) (silent : console.printedCode code = none) :
      Pressed page code console
        (console.modifyViewed fun shell =>
          { shell with capsLock := (shell.capsLock + 1) % 2 })
  | prints {table : UInt8} (notCtrl : code ≠ ctrlCode) (notAlt : code ≠ altChar)
      (notShift : ¬ (code = leftShift ∨ code = rightShift)) (forward : code ≠ backSpaceCode)
      (other : code ≠ newLineCode)
      (printed : console.printedCode code = some table) :
      Pressed page code console (console.printScancode page table)

theorem recentReleaseExec_pressed (page : Nat) {code : UInt8}
    (stays : ¬ console.switchesView code) :
    Pressed page code console (console.recentReleaseExec page code) := by
  simp only [switchesView] at stays
  simp only [recentReleaseExec, if_neg stays]
  split
  · rename_i ctrl
    exact .ctrl ctrl (if_pos ctrl)
  · rename_i notCtrl
    split
    · rename_i control
      exact .redraws control (printedCode_control control)
    · rename_i notControl
      split
      · rename_i back
        have silent := console.printedCode_back back
        split
        · rename_i empty
          exact .nothing back empty silent
        · rename_i some
          exact .erases back (Int.not_le.mp some) silent
      · rename_i forward
        have rest : console.printedCode code = _ :=
          (if_neg notCtrl).trans <| (if_neg stays).trans <|
            (if_neg notControl).trans (if_neg forward)
        split
        · rename_i alt
          exact .alt alt (rest.trans (if_pos alt))
        · rename_i notAlt
          replace rest := rest.trans (if_neg notAlt)
          split
          · rename_i enter
            exact .enters enter (rest.trans (if_pos enter))
          · rename_i other
            replace rest := rest.trans (if_neg other)
            split
            · rename_i shift
              exact .shift shift (rest.trans (if_pos shift))
            · rename_i notShift
              replace rest := rest.trans (if_neg notShift)
              split
              · rename_i caps
                exact .capsLock caps (rest.trans (if_pos caps))
              · rename_i notCaps
                replace rest := rest.trans (if_neg notCaps)
                have prints {table : UInt8} := @Pressed.prints page code console table notCtrl
                  notAlt notShift forward other
                split
                · rename_i both
                  exact prints (rest.trans (if_pos both))
                · rename_i notBoth
                  replace rest := rest.trans (if_neg notBoth)
                  split
                  · rename_i upper
                    exact prints (rest.trans (if_pos upper))
                  · rename_i notUpper
                    replace rest := rest.trans (if_neg notUpper)
                    split
                    · rename_i shifted
                      exact prints (rest.trans (if_pos shifted))
                    · rename_i plain
                      exact prints (rest.trans (if_neg plain))

theorem recentReleaseExec_switched {scanCode : UInt8} (placed : console.Placed)
    (pending : console.Pending) (switches : console.switchesView scanCode) :
    Switched console (console.recentReleaseExec videoMemAddr.toNat scanCode) ∧
      (console.recentReleaseExec videoMemAddr.toNat scanCode).curTerminal =
        selected scanCode := by
  have other : scanCode ≠ ctrlCode := by
    rcases switches.2 with rfl | rfl | rfl
    · decide
    · decide
    · decide
  simp only [switchesView] at switches
  rw [recentReleaseExec, if_neg other, if_pos switches]
  rcases switches.2 with rfl | rfl | rfl
  · exact changeShell_switched placed pending (rfl : terminalOf _ = some 0)
  · exact changeShell_switched placed pending (rfl : terminalOf _ = some 1)
  · exact changeShell_switched placed pending (rfl : terminalOf _ = some 2)

theorem recentReleaseExec_handled {scanCode : UInt8} (placed : console.Placed)
    (pending : console.Pending) (printing : console.printTerminal = console.curTerminal)
    (stays : ¬ console.switchesView scanCode) :
    Handled console (console.recentReleaseExec videoMemAddr.toNat scanCode) := by
  have flag {change : Shell → Shell} (keeps : KeepsScreen change)
      (line : ∀ shell, (change shell).bufIndex = shell.bufIndex) :
      Handled console (console.modifyViewed change) := .modifyViewed placed pending keeps line
  have prints (code : UInt8) := printScancode_handled code placed pending printing
  have pressed := recentReleaseExec_pressed videoMemAddr.toNat stays
  generalize console.recentReleaseExec videoMemAddr.toNat scanCode = after at pressed ⊢
  cases pressed with
  | ctrl | alt | shift | capsLock => exact flag (fun _ => ⟨rfl, rfl, rfl⟩) fun _ => rfl
  | redraws => exact redraw_handled placed pending printing
  | nothing => exact .refl placed pending
  | erases _ some => exact deletion_handled placed pending some
  | enters =>
      have printed := prints scanCode
      have ended : Handled _ ((console.printScancode videoMemAddr.toNat
          scanCode).modifyViewed fun shell => { shell with lineBufferFlag := 1 }) :=
        .modifyViewed printed.placed printed.pending (fun _ => ⟨rfl, rfl, rfl⟩) fun _ => rfl
      have only := ended.only
      rw [printed.only.curTerminal] at only
      exact ⟨ended.placed, ended.pending, printed.only.trans only⟩
  | prints => exact prints _

/-- A release clears a flag at most. -/
theorem afterReleaseExec_flagged (scanCode : UInt8) (console : Console) :
    ∃ change, KeepsScreen change ∧ (∀ shell, (change shell).line = shell.line) ∧
      console.afterReleaseExec scanCode = console.modifyViewed change := by
  simp only [afterReleaseExec]
  split
  · exact ⟨fun shell => { shell with shiftPressed := 0 },
      fun _ => ⟨rfl, rfl, rfl⟩, fun _ => rfl, rfl⟩
  · split
    · exact ⟨fun shell => { shell with ctrlPressed := 0 },
        fun _ => ⟨rfl, rfl, rfl⟩, fun _ => rfl, rfl⟩
    · split
      · exact ⟨fun shell => { shell with altPressed := 0 },
          fun _ => ⟨rfl, rfl, rfl⟩, fun _ => rfl, rfl⟩
      · refine ⟨id, fun _ => ⟨rfl, rfl, rfl⟩, fun _ => rfl, ?_⟩
        rw [modifyViewed, modifyShell, id, Function.update_eq_self]

theorem afterReleaseExec_handled (scanCode : UInt8) (placed : console.Placed)
    (pending : console.Pending) : Handled console (console.afterReleaseExec scanCode) := by
  obtain ⟨change, keeps, line, released⟩ := console.afterReleaseExec_flagged scanCode
  rw [released]
  exact .modifyViewed placed pending keeps fun shell => congrArg Line.bufIndex (line shell)

end Keys

end Console

end Ece391Os
