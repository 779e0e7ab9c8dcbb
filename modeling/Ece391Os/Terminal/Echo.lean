import Ece391Os.Terminal.Typing

namespace Ece391Os

open Data

/-! What is shown before the cursor is what has been typed. -/

/-- A line that nobody has ended, shown before the cursor of a screen. -/
structure Echo (line : Line) (tty : Tty) : Prop where
  lower : 0 ≤ line.bufIndex
  upper : line.bufIndex ≤ 127
  waiting : line.lineBufferFlag = 0
  letters : ∀ character ∈ line.text, plain character
  shows : tty.Shows line.text

namespace Echo

variable {line line' : Line} {tty : Tty}

theorem empty (valid : tty.Valid) (start : line.bufIndex = 0)
    (waiting : line.lineBufferFlag = 0) : Echo line tty := by
  have text : line.text = [] := by
    rw [Line.text, start]
    rfl
  refine ⟨by omega, by omega, waiting, ?_, ?_⟩
  · intro character member
    rw [text] at member
    cases member
  · rw [text]
    exact Tty.shows_nil valid

theorem short (echo : Echo line tty) : line.text.length ≤ 127 := by
  have upper := echo.upper
  rw [Line.length_text]
  omega

theorem type {character : UInt8} (echo : Echo line tty) (valid : tty.Valid)
    (letter : plain character) (room : line.bufIndex < 127) :
    Echo (line.store character) (tty.putc character) := by
  have short := echo.short
  have text := Line.text_store character echo.lower
  refine ⟨?_, ?_, echo.waiting, ?_, ?_⟩
  · have lower := echo.lower
    simp only [Line.store]
    omega
  · simp only [Line.store]
    omega
  · intro other member
    rw [text] at member
    rcases List.mem_append.mp member with before | last
    · exact echo.letters other before
    · rw [List.mem_singleton.mp last]
      exact letter
  · rw [text]
    exact echo.shows.putc valid letter (by omega)

theorem erase (echo : Echo line tty) (valid : tty.Valid) (typed : 0 < line.bufIndex) :
    Echo { line with bufIndex := line.bufIndex - 1 } tty.erase := by
  have text := Line.text_erased typed
  have upper := echo.upper
  refine ⟨by simp only; omega, by simp only; omega, echo.waiting, ?_, ?_⟩
  · intro character member
    apply echo.letters
    rw [text]
    exact List.mem_append_left _ member
  · have shows := echo.shows
    rw [text] at shows
    exact shows.erase valid

theorem redraw (echo : Echo line tty) (screen : Memory) :
    Echo line ((Tty.cleared screen).putAll line.text) := by
  have short := echo.short
  refine ⟨echo.lower, echo.upper, echo.waiting, echo.letters, ?_⟩
  have corner : (Tty.cleared screen).Valid := Tty.valid_corner _
  have shown := (Tty.shows_nil corner).putAll corner echo.letters
    (by simp only [List.length_nil]; omega)
  rwa [List.nil_append] at shown

theorem served (echo : Echo line tty) (valid : tty.Valid) (served : line.Served line') :
    Echo line' tty := by
  cases served with
  | kept => exact echo
  | awaited => exact ⟨echo.lower, echo.upper, rfl, echo.letters, echo.shows⟩
  | reset => exact .empty valid rfl echo.waiting

end Echo

namespace Console

variable {console : Console} {terminal : Fin 3} {code : UInt8} {line : Line} {tty : Tty}

theorem Keyed.echo (keyed : console.Keyed code line tty) (other : code ≠ newLineCode)
    (valid : (console.tty console.curTerminal).Valid)
    (echo : Echo console.viewed.line (console.tty console.curTerminal)) : Echo line tty := by
  have inside : console.viewed.bufIndex < 128 := Int.lt_add_one_of_le echo.upper
  cases keyed with
  | kept => exact echo
  | redrawn =>
      rw [Shell.typed_eq (Int.le_of_lt inside)]
      exact echo.redraw _
  | erased back some => exact echo.erase valid some
  | typed letter other printed room waiting =>
      rw [lineStore_line _ inside]
      exact echo.type valid (printedCode_letter letter other printed).2 room
  | entered enter => exact absurd enter other
  | refused enter => exact absurd enter other

theorem Keyed.full (keyed : console.Keyed code line tty) (other : code ≠ newLineCode)
    (character : console.printedCode code ≠ none) (full : console.viewed.bufIndex = 127) :
    line = console.viewed.line ∧ tty = console.tty console.curTerminal := by
  cases keyed with
  | kept => exact ⟨rfl, rfl⟩
  | redrawn letter control => exact absurd (printedCode_control ⟨letter, control⟩) character
  | erased back => exact absurd (printedCode_back back) character
  | typed _ _ _ room => omega
  | entered enter => exact absurd enter other
  | refused enter => exact absurd enter other

/-- The cells before the cursor hold `kb_buf[0..buf_index)`. -/
structure ShowsTyped (terminal : Fin 3) (console : Console) : Prop where
  upper : (console.terminals terminal).bufIndex ≤ 127
  behind : (console.terminals terminal).bufIndex ≤ (console.tty terminal).position
  cells : (console.tty terminal).before (console.terminals terminal).bufIndex.toNat =
    (List.range (console.terminals terminal).bufIndex.toNat).map
      (console.terminals terminal).kbBuf

theorem showsTyped (echo : Echo (console.lines terminal) (console.tty terminal)) :
    console.ShowsTyped terminal := by
  obtain ⟨behind, cells⟩ := echo.shows
  have lower : 0 ≤ (console.terminals terminal).bufIndex := echo.lower
  have length : (console.lines terminal).text.length =
      (console.terminals terminal).bufIndex.toNat := Line.length_text _
  rw [length] at behind cells
  exact ⟨echo.upper, by omega, cells⟩

end Console

theorem Machine.WellKept.drawn {machine : Machine} {video : Memory} {x y : Int}
    (kept : machine.WellKept) (empty : machine.kernel.console.viewed.bufIndex = 0)
    (elsewhere : SameOutside videoMemAddr.toNat machine.kernel.console.video video)
    (valid : Tty.Valid ⟨pageView videoMemAddr.toNat video, x, y⟩) :
    WellKept { machine with kernel := { machine.kernel with
      console := machine.kernel.console.drawn machine.kernel.console.curTerminal video x y } } := by
  obtain ⟨placed, pending, printing, page, buffers⟩ := kept.mapped
  set console := machine.kernel.console
  have outside : SameOutside (console.screenPage console.curTerminal) console.video video := by
    rwa [Console.screenPage_viewed]
  have inside : Tty.Valid ⟨pageView (console.screenPage console.curTerminal) video, x, y⟩ := by
    rwa [Console.screenPage_viewed]
  have only := Console.only_drawn (x := x) (y := y) outside
  refine ⟨kept.processes, kept.tables, placed.drawn outside inside, ?_, printing, ?_, buffers⟩
  · intro terminal
    simp only [Console.bufIndex_drawn]
    by_cases here : terminal = console.curTerminal
    · have start : (console.terminals console.curTerminal).bufIndex = 0 := empty
      rw [here, Console.tty_drawn, start]
      exact ⟨Int.le_refl 0, by decide, inside.position_lt.1⟩
    · rw [only.tty_eq placed.buffers here]
      exact pending terminal
  · exact page.trans (only.screenPage _).symm

namespace Session

variable {platform : Platform} {session next : Session} {event : SessionEvent} {reply : Reply}
  {terminal : Fin 3}

def Quiet (terminal : Fin 3) (session : Session) : SessionEvent → Prop
  | .fire (.key code) => session.console.curTerminal = terminal → code ≠ newLineCode
  | .fire event => session.machine.kernel.curSchedTerm = terminal → event.output = []
  | _ => True

def RefusesMore (terminal : Fin 3) (transition : Transition Session SessionEvent Reply) : Prop :=
  ∀ code, transition.event = .fire (.key code) →
    transition.before.console.curTerminal = terminal →
    transition.before.console.printedCode code ≠ none →
    (transition.before.console.terminals terminal).bufIndex = 127 →
    transition.after.console.lines terminal = transition.before.console.lines terminal ∧
      transition.after.console.tty terminal = transition.before.console.tty terminal

theorem Sound.tty_eq (sound : session.Sound platform)
    (fired : session.step platform event = some (next, reply)) (other : event.isKey = false)
    (quiet : session.Quiet terminal event) :
    next.console.tty terminal = session.console.tty terminal := by
  have unkeyed := sound.unkeyed fired other
  generalize next.console = after at unkeyed ⊢
  cases unkeyed with
  | kept => rfl
  | reset =>
      have keeps : Console.KeepsScreen fun shell => { shell with bufIndex := 0 } :=
        fun _ => ⟨rfl, rfl, rfl⟩
      exact congrFun (Console.tty_modifyShell keeps session.console.curTerminal _) terminal
  | called left =>
      rename_i event
      have silent : session.machine.kernel.curSchedTerm = terminal → event.output = [] := by
        cases event with
        | key code => cases other
        | _ => exact quiet
      refine ((left.wrote sound.mapped).tty terminal).trans ?_
      split
      · rename_i here
        rw [silent here.symm]
        rfl
      · rfl

theorem Sound.echo (sound : session.Sound platform)
    (fired : session.step platform event = some (next, reply))
    (quiet : session.Quiet terminal event)
    (echo : Echo (session.console.lines terminal) (session.console.tty terminal)) :
    Echo (next.console.lines terminal) (next.console.tty terminal) := by
  have valid := sound.mapped.placed.inside terminal
  rcases event.isKey_cases with ⟨code, rfl⟩ | other
  · obtain rfl := key_eq_some fired
    by_cases here : terminal = session.console.curTerminal
    · subst here
      exact (Kernel.key_keyed sound.mapped code).echo (quiet rfl) valid echo
    · obtain ⟨line, tty⟩ := Kernel.key_others sound.mapped code here
      simp only [console]
      rw [line, tty]
      exact echo
  · rw [sound.tty_eq fired other quiet]
    exact echo.served valid ((sound.unkeyed fired other).served terminal)

theorem Sound.refusesMore (sound : session.Sound platform)
    (fired : session.step platform event = some (next, reply))
    (quiet : session.Quiet terminal event) :
    RefusesMore terminal ⟨session, event, reply, next⟩ := by
  rintro code rfl rfl character full
  obtain rfl := key_eq_some fired
  exact (Kernel.key_keyed sound.mapped code).full (quiet rfl) character full

/-- From any state of a running computer in which the line of the viewed terminal
is empty: while Enter is not pressed there and no program prints there, the
terminal shows what has been typed. -/
theorem showsTyped_run {start : Session} {trace : List (Transition Session SessionEvent Reply)}
    (sound : start.Sound platform) (empty : start.console.viewed.bufIndex = 0)
    (waiting : start.console.viewed.lineBufferFlag = 0)
    (run : Run (Session.step platform) start trace session)
    (quiet : ∀ transition ∈ trace,
      transition.before.Quiet start.console.curTerminal transition.event) :
    session.console.ShowsTyped start.console.curTerminal ∧
      ∀ transition ∈ trace, RefusesMore start.console.curTerminal transition := by
  set terminal := start.console.curTerminal
  have initially : Echo (start.console.lines terminal) (start.console.tty terminal) :=
    .empty (sound.mapped.placed.inside terminal) empty waiting
  obtain ⟨holds, before⟩ := run.guarded
    (fun session => session.Sound platform ∧
      Echo (session.console.lines terminal) (session.console.tty terminal))
    (fun session event => session.Quiet terminal event)
    (fun holds quiet fired => ⟨holds.1.step fired, holds.1.echo fired quiet holds.2⟩)
    ⟨sound, initially⟩ quiet
  refine ⟨Console.showsTyped holds.2, ?_⟩
  intro transition member
  exact (before transition member).1.refusesMore (run.reached member).2 (quiet transition member)

end Session

namespace Sample

def lastCell : Session where
  machine := { start with kernel := { start.kernel with
    console := start.kernel.console.drawn start.kernel.console.curTerminal
      start.kernel.console.video 79 24 } }
  launched := true

theorem lastCell_sound : lastCell.Sound platform :=
  launched.wellKept.drawn (by decide +kernel) (.refl _ _)
    ⟨by decide, by decide, by decide, by decide⟩

def wrapping : List (Transition Session SessionEvent Reply) :=
  [⟨lastCell, .fire (.key 30), .handled, press 30 lastCell⟩,
    ⟨press 30 lastCell, .fire (.key 31), .handled, press 31 (press 30 lastCell)⟩]

theorem wrapping_run : Run (Session.step platform) lastCell wrapping
    (press 31 (press 30 lastCell)) :=
  .snoc (.snoc (.nil lastCell) (presses 30 lastCell)) (presses 31 _)

end Sample

/-- A letter fills the last row, which scrolls, and a second one follows it. -/
theorem showsTyped_sample : Console.ShowsTyped Sample.lastCell.console.curTerminal
    (Sample.press 31 (Sample.press 30 Sample.lastCell)).console := by
  refine (Session.showsTyped_run Sample.lastCell_sound (by decide +kernel) (by decide +kernel)
    Sample.wrapping_run ?_).1
  intro transition member
  simp only [Sample.wrapping, List.mem_cons, List.not_mem_nil, or_false] at member
  rcases member with rfl | rfl
  · exact fun _ => by decide
  · exact fun _ => by decide

end Ece391Os
