import Ece391Os.Terminal.Input
import Ece391Os.Terminal.Video

namespace Ece391Os

open Data

/-! The logical screens: the viewed terminal's is the video page, the others' are
their buffers. -/

namespace Console

def screenPage (console : Console) (terminal : Fin 3) : Nat :=
  if terminal = console.curTerminal then videoMemAddr.toNat
  else (console.terminals terminal).vidMem.toNat

def tty (console : Console) (terminal : Fin 3) : Tty where
  screen := pageView (console.screenPage terminal) console.video
  x := (console.terminals terminal).x
  y := (console.terminals terminal).y

/-- The buffers are the three pages after the video page, every cursor is on its
screen, and the hardware cursor is that of the viewed terminal. -/
structure Placed (console : Console) : Prop where
  buffers : ∀ terminal, (console.terminals terminal).vidMem =
    videoMemAddr + (terminal.val + 1) * pageSize
  inside : ∀ terminal, (console.tty terminal).Valid
  cursor : console.cursor = (console.tty console.curTerminal).position

structure Only (terminal : Fin 3) (before after : Console) : Prop where
  curTerminal : after.curTerminal = before.curTerminal
  printTerminal : after.printTerminal = before.printTerminal
  others : ∀ other, other ≠ terminal → after.terminals other = before.terminals other
  vidMem : (after.terminals terminal).vidMem = (before.terminals terminal).vidMem
  video : SameOutside (before.screenPage terminal) before.video after.video

section Screens

variable {console before middle after : Console} {terminal other : Fin 3}

theorem Only.refl (terminal : Fin 3) (console : Console) : Only terminal console console :=
  ⟨rfl, rfl, fun _ _ => rfl, rfl, .refl _ _⟩

theorem Only.screenPage (only : Only terminal before after) (other : Fin 3) :
    after.screenPage other = before.screenPage other := by
  by_cases here : other = terminal
  · rw [Console.screenPage, only.curTerminal, here, only.vidMem, Console.screenPage]
  · rw [Console.screenPage, only.curTerminal, only.others other here, Console.screenPage]

theorem Only.trans (first : Only terminal before middle)
    (second : Only terminal middle after) : Only terminal before after := by
  refine ⟨second.curTerminal.trans first.curTerminal,
    second.printTerminal.trans first.printTerminal, ?_, second.vidMem.trans first.vidMem, ?_⟩
  · intro other different
    rw [second.others other different, first.others other different]
  · have rest := second.video
    rw [first.screenPage] at rest
    exact first.video.trans rest

theorem screenPage_apart
    (buffers : ∀ terminal, (console.terminals terminal).vidMem =
      videoMemAddr + (terminal.val + 1) * pageSize) (different : other ≠ terminal) :
    console.screenPage other + 4096 ≤ console.screenPage terminal ∨
      console.screenPage terminal + 4096 ≤ console.screenPage other := by
  have numbers : other.val ≠ terminal.val := fun same => different (Fin.ext same)
  simp only [screenPage, buffers, videoMemAddr, pageSize]
  split
  · rw [if_neg (by omega)]
    omega
  · split <;> omega

theorem Only.tty_eq (only : Only terminal before after)
    (buffers : ∀ terminal, (before.terminals terminal).vidMem =
      videoMemAddr + (terminal.val + 1) * pageSize) (different : other ≠ terminal) :
    after.tty other = before.tty other := by
  rw [tty, only.screenPage other, only.others other different,
    only.video.pageView_eq (screenPage_apart buffers different), tty]

/-! Drawing on one terminal. -/

def drawn (console : Console) (terminal : Fin 3) (video : Memory) (x y : Int) : Console :=
  ({ console with video := video }.modifyShell terminal fun shell =>
    { shell with x := x, y := y }).showCursor

variable {video : Memory} {x y : Int}

theorem tty_drawn (console : Console) (terminal : Fin 3) (video : Memory) (x y : Int) :
    (console.drawn terminal video x y).tty terminal =
      ⟨pageView (console.screenPage terminal) video, x, y⟩ := by
  simp [drawn, tty, screenPage, modifyShell, showCursor, moveCursor]

theorem only_drawn (same : SameOutside (console.screenPage terminal) console.video video) :
    Only terminal console (console.drawn terminal video x y) := by
  refine ⟨rfl, rfl, ?_, ?_, same⟩
  · intro other different
    simp only [drawn, showCursor, moveCursor, modifyShell]
    rw [Function.update_of_ne different]
  · simp [drawn, showCursor, moveCursor, modifyShell]

theorem bufIndex_drawn (console : Console) (terminal other : Fin 3) (video : Memory)
    (x y : Int) : ((console.drawn terminal video x y).terminals other).bufIndex =
      (console.terminals other).bufIndex := by
  have keeps (shell : Shell) : Shell.bufIndex { shell with x := x, y := y } = shell.bufIndex :=
    rfl
  exact part_modifyShell keeps ..

theorem clearScreen_resetScreen (page : Nat) (console : Console) :
    (console.clearScreen page).resetScreen =
      console.drawn console.curTerminal (clear page console.video) 0 0 := by
  simp only [clearScreen, resetScreen, drawn]

theorem cursor_showCursor
    (valid : (console.tty console.curTerminal).Valid) :
    (console.showCursor.cursor : Int) = (console.tty console.curTerminal).position := by
  have range := valid.position_lt
  simp only [Tty.position, tty] at range
  simp only [showCursor, moveCursor, viewed, numCols, Tty.position, tty]
  omega

theorem Placed.drawn (placed : console.Placed)
    (same : SameOutside (console.screenPage terminal) console.video video)
    (valid : Tty.Valid ⟨pageView (console.screenPage terminal) video, x, y⟩) :
    (console.drawn terminal video x y).Placed := by
  have only := only_drawn (x := x) (y := y) same
  have inside : ∀ other, ((console.drawn terminal video x y).tty other).Valid := by
    intro other
    by_cases here : other = terminal
    · rw [here, tty_drawn]
      exact valid
    · rw [only.tty_eq placed.buffers here]
      exact placed.inside other
  refine ⟨?_, inside, cursor_showCursor (inside _)⟩
  intro other
  by_cases here : other = terminal
  · rw [here, only.vidMem, placed.buffers]
  · rw [only.others other here, placed.buffers]

def Draws (page : Nat) (console after : Console) (result : Tty) : Prop :=
  ∃ video, SameOutside page console.video video ∧ pageView page video = result.screen ∧
    after = console.drawn console.printTerminal video result.x result.y

theorem newLine_draws (page : Nat) (console : Console) (screen : Memory)
    (shown : screen = pageView page console.video) :
    Draws page console (console.newLine page)
      (Tty.newLine ⟨screen, console.printing.x, console.printing.y⟩) := by
  subst shown
  simp only [newLine, Tty.newLine]
  by_cases last : console.printing.y = 24
  · have bottom : console.printing.y = numRows - 1 := last
    rw [if_pos bottom, if_pos last]
    refine ⟨scrollUp page console.video, scrollUp_outside page _, pageView_scrollUp page _, ?_⟩
    simp [drawn, modifyShell, printing]
  · have above : ¬ console.printing.y = numRows - 1 := last
    rw [if_neg above, if_neg last]
    refine ⟨console.video, .refl _ _, rfl, ?_⟩
    simp [drawn, modifyShell, printing]

/-- The last assignment of `putc` does nothing to a cursor on the screen. -/
theorem wrapped_row (left : 0 ≤ x) (right : x < 80) (top : 0 ≤ y) (bottom : y < 25) :
    (y + x.tdiv numCols).tmod numRows = y := by
  have column : x.tdiv numCols = 0 := Int.tdiv_eq_zero_of_lt left right
  rw [column, Int.add_zero]
  exact Int.tmod_eq_of_lt top bottom

theorem settled_drawn (wraps : (y + x.tdiv numCols).tmod numRows = y) :
    ((console.drawn terminal video x y).modifyShell terminal fun shell =>
      { shell with y := (shell.y + shell.x.tdiv numCols).tmod numRows }).showCursor =
      console.drawn terminal video x y := by
  simp [drawn, modifyShell, showCursor, moveCursor, viewed, wraps]

def through (page : Nat) (console : Console) : Tty where
  screen := pageView page console.video
  x := console.printing.x
  y := console.printing.y

/-- `putc` draws what a stand-alone console would. -/
theorem putc_through {page : Nat} (character : UInt8)
    (valid : (console.through page).Valid) :
    Draws page console (console.putc page character)
      ((console.through page).putc character) := by
  obtain ⟨left, right, top, bottom⟩ := valid
  have cell := Tty.Valid.position_lt ⟨left, right, top, bottom⟩
  have shown : (console.through page).screen = pageView page console.video := rfl
  simp only [putc, Tty.putc]
  by_cases breaks : character = 10 ∨ character = 13
  · rw [if_pos breaks, if_pos breaks]
    obtain ⟨video, outside, view, result⟩ := newLine_draws page console _ shown
    exact ⟨video, outside, view, by rw [result]; rfl⟩
  · rw [if_neg breaks, if_neg breaks]
    set index := numCols * console.printing.y + console.printing.x
    have where_ : index = (console.through page).position := rfl
    have range : 0 ≤ index ∧ index < 2000 := where_ ▸ cell
    set written := storeCell page index character console.video with writtenDef
    have outside : SameOutside page console.video written :=
      storeCell_outside character console.video range.1 range.2
    have view : pageView page written =
        ((console.through page).write character).screen := by
      rw [writtenDef, pageView_storeCell character console.video range.1 range.2, ← shown]
      rfl
    set advanced := { console with video := written }.modifyShell console.printTerminal
      fun shell => { shell with x := shell.x + 1 } with advancedDef
    have moved : advanced.printing = { console.printing with x := console.printing.x + 1 } := by
      simp [advancedDef, printing, modifyShell]
    by_cases full : (console.through page).x + 1 = 80
    · rw [if_pos (by rw [moved]; exact full), if_pos full]
      obtain ⟨video, more, final, result⟩ := newLine_draws page advanced _ view.symm
      have same : (⟨((console.through page).write character).screen,
          advanced.printing.x, advanced.printing.y⟩ : Tty) =
          (console.through page).write character := by
        rw [moved]
        rfl
      rw [same] at final result
      have redrawn (x y : Int) : advanced.drawn advanced.printTerminal video x y =
          console.drawn console.printTerminal video x y := by
        simp [advancedDef, drawn, modifyShell]
      have valid : ((console.through page).write character).newLine.Valid :=
        Tty.newLine_valid top bottom
      refine ⟨video, outside.trans more, final, ?_⟩
      rw [result, redrawn,
        settled_drawn (wrapped_row valid.left valid.right valid.top valid.bottom)]
    · rw [if_neg (by rw [moved]; exact full), if_neg full]
      refine ⟨written, outside, view, ?_⟩
      have wraps := wrapped_row (by omega : 0 ≤ (console.through page).x + 1)
        (by omega) top bottom
      simp only [through, printing] at wraps
      simp [advancedDef, drawn, modifyShell, showCursor, moveCursor, viewed, through, printing,
        Tty.write, wraps]

theorem putc_draws {page : Nat} (character : UInt8)
    (mapped : page = console.screenPage console.printTerminal)
    (valid : (console.tty console.printTerminal).Valid) :
    Draws page console (console.putc page character)
      ((console.tty console.printTerminal).putc character) := by
  have same : console.tty console.printTerminal = console.through page := by
    rw [mapped]
    rfl
  rw [same] at valid ⊢
  exact putc_through character valid

theorem tty_eta (tty : Tty) {screen : Memory} (same : screen = tty.screen) :
    (⟨screen, tty.x, tty.y⟩ : Tty) = tty := by
  subst same
  rfl

theorem Draws.placed {page : Nat} {result : Tty} (draws : Draws page console after result)
    (mapped : page = console.screenPage console.printTerminal) (placed : console.Placed)
    (valid : result.Valid) :
    after.Placed ∧ Only console.printTerminal console after ∧
      after.tty console.printTerminal = result := by
  obtain ⟨video, outside, view, rfl⟩ := draws
  rw [mapped] at outside view
  refine ⟨placed.drawn outside ?_, only_drawn outside, ?_⟩
  · rwa [tty_eta result view]
  · rw [tty_drawn, tty_eta result view]

/-- Printing through the page of the printing terminal is printing on a
stand-alone console, and touches nothing else. -/
theorem putAll_tty {page : Nat} (bytes : List UInt8)
    (mapped : page = console.screenPage console.printTerminal) (placed : console.Placed) :
    (console.putAll page bytes).Placed ∧
      Only console.printTerminal console (console.putAll page bytes) ∧
      (console.putAll page bytes).tty console.printTerminal =
        (console.tty console.printTerminal).putAll bytes := by
  induction bytes generalizing console with
  | nil => exact ⟨placed, .refl _ _, rfl⟩
  | cons character rest induction =>
      have valid := placed.inside console.printTerminal
      obtain ⟨placedNext, only, result⟩ := (putc_draws character mapped valid).placed mapped
        placed (valid.putc character)
      have mappedNext : page = (console.putc page character).screenPage
          (console.putc page character).printTerminal := by
        rw [only.printTerminal, only.screenPage, mapped]
      obtain ⟨last, others, final⟩ := induction mappedNext placedNext
      rw [only.printTerminal] at others final
      refine ⟨last, only.trans others, ?_⟩
      rw [result] at final
      exact final

end Screens

end Console

end Ece391Os
