import Ece391Os.Terminal.Typing

namespace Ece391Os

open Data

/-! Which cells of the screen `putc`, `back_space` and `scroll_up` store to. -/

def touches (page : Nat) (cell : Int) (address : Nat) : Prop :=
  videoPhysical page (cellAddr cell) = some address ∨
    videoPhysical page (cellAddr cell + 1) = some address

/-- Memory that differs at most where some cells are. -/
def ChangesAt (page : Nat) (cells : List Int) (before after : Memory) : Prop :=
  ∀ address, after address ≠ before address → ∃ cell ∈ cells, touches page cell address

namespace ChangesAt

variable {page : Nat} {cells more : List Int} {before middle after : Memory}

theorem refl (page : Nat) (cells : List Int) (video : Memory) : ChangesAt page cells video video :=
  fun _ changed => absurd rfl changed

theorem trans (first : ChangesAt page cells before middle)
    (second : ChangesAt page more middle after) :
    ChangesAt page (cells ++ more) before after := by
  intro address changed
  by_cases same : middle address = before address
  · obtain ⟨cell, member, touched⟩ := second address (by rwa [same])
    exact ⟨cell, List.mem_append_right cells member, touched⟩
  · obtain ⟨cell, member, touched⟩ := first address same
    exact ⟨cell, List.mem_append_left more member, touched⟩

end ChangesAt

theorem videoStore_changed {page address : Nat} {linear : Int} {byte : UInt8} {video : Memory}
    (changed : videoStore page linear byte video address ≠ video address) :
    videoPhysical page linear = some address := by
  cases physical : videoPhysical page linear with
  | none =>
      simp only [videoStore, physical] at changed
      exact absurd rfl changed
  | some stored =>
      simp only [videoStore, physical] at changed
      by_contra away
      exact changed (Function.update_of_ne (fun same => away (by rw [same])) _ _)

theorem storeCell_changesAt (page : Nat) (cell : Int) (character : UInt8) (video : Memory) :
    ChangesAt page [cell] video (storeCell page cell character video) := by
  intro address changed
  refine ⟨cell, List.mem_singleton_self cell, ?_⟩
  by_cases same : videoStore page (cellAddr cell) character video address = video address
  · rw [← same] at changed
    exact .inr (videoStore_changed changed)
  · exact .inl (videoStore_changed same)

theorem loop_changesAt {page : Nat} (cell : Nat → Int) (value : Nat → Memory → UInt8)
    (rounds : List Nat) (video : Memory) :
    ChangesAt page (rounds.map cell) video
      (rounds.foldl (fun video i => storeCell page (cell i) (value i video) video) video) := by
  induction rounds generalizing video with
  | nil => exact .refl page [] video
  | cons first rest induction =>
      exact (storeCell_changesAt page (cell first) (value first video) video).trans (induction _)

def clearCells : List Int := (List.range 2000).map fun (i : Nat) => (i : Int)

def scrollUpCells : List Int :=
  (List.range 1920).map (fun (i : Nat) => (i : Int)) ++
    (List.range 80).map fun (i : Nat) => 1920 + (i : Int)

theorem clear_changesAt (page : Nat) (video : Memory) :
    ChangesAt page clearCells video (clear page video) :=
  loop_changesAt (fun i => (i : Int)) (fun _ _ => space) _ video

theorem scrollUp_changesAt (page : Nat) (video : Memory) :
    ChangesAt page scrollUpCells video (scrollUp page video) :=
  (loop_changesAt (fun i => (i : Int))
    (fun i video => videoLoad page (cellAddr (i + numCols)) video) _ video).trans
    (loop_changesAt (fun i => 1920 + (i : Int)) (fun _ _ => space) _ _)

def onScreen (cell : Int) : Prop := 0 ≤ cell ∧ cell < numRows * numCols

theorem clearCells_onScreen : ∀ cell ∈ clearCells, onScreen cell := by
  intro cell member
  obtain ⟨i, below, rfl⟩ := List.mem_map.mp member
  have inside := List.mem_range.mp below
  simp only [onScreen, numRows, numCols]
  omega

theorem scrollUpCells_onScreen : ∀ cell ∈ scrollUpCells, onScreen cell := by
  intro cell member
  rcases List.mem_append.mp member with above | last
  · obtain ⟨i, below, rfl⟩ := List.mem_map.mp above
    have inside := List.mem_range.mp below
    simp only [onScreen, numRows, numCols]
    omega
  · obtain ⟨i, below, rfl⟩ := List.mem_map.mp last
    have inside := List.mem_range.mp below
    simp only [onScreen, numRows, numCols]
    omega

namespace Console

def newLineCells (console : Console) : List Int :=
  if console.printing.y = numRows - 1 then scrollUpCells else []

def putcCells (character : UInt8) (console : Console) : List Int :=
  if character = 10 ∨ character = 13 then console.newLineCells
  else
    (numCols * console.printing.y + console.printing.x) ::
      if console.printing.x + 1 = numCols then console.newLineCells else []

def putAllCells (page : Nat) : List UInt8 → Console → List Int
  | [], _ => []
  | character :: rest, console =>
      console.putcCells character ++ putAllCells page rest (console.putc page character)

def backSpaceCells (console : Console) : List Int :=
  [if console.viewed.x - 1 < 0 then numCols * (console.viewed.y - 1) + (numCols - 1)
    else numCols * console.viewed.y + (console.viewed.x - 1)]

/-- The cells a key that is pressed stores to, but for `change_shell`. -/
def keyCells (page : Nat) (code : UInt8) (console : Console) : List Int :=
  match console.printedCode code with
  | some table =>
      if ((bufLength : Int) - 1 ≤ console.viewed.bufIndex ∧ table ≠ newLineCode) ∨
          console.viewed.lineBufferFlag ≠ 0 then
        []
      else console.putcCells (kbdus table)
  | none =>
      if code = lChar ∧ console.viewed.ctrlPressed = 1 then
        clearCells ++ ((console.clearScreen page).resetScreen).putAllCells page console.viewed.typed
      else if code = backSpaceCode ∧ 0 < console.viewed.bufIndex then console.backSpaceCells
      else []

/-! The lists above are complete. -/

theorem newLine_changesAt (page : Nat) (console : Console) :
    ChangesAt page console.newLineCells console.video (console.newLine page).video := by
  simp only [newLine, newLineCells]
  split
  · exact scrollUp_changesAt page console.video
  · exact .refl page [] console.video

theorem putc_changesAt (page : Nat) (character : UInt8) (console : Console) :
    ChangesAt page (console.putcCells character) console.video
      (console.putc page character).video := by
  simp only [putc, putcCells]
  split
  · exact newLine_changesAt page console
  · set written := { console with
      video := storeCell page (numCols * console.printing.y + console.printing.x) character
        console.video }
    set advanced := written.modifyShell console.printTerminal fun shell =>
      { shell with x := shell.x + 1 } with advancedDef
    have shell : advanced.printing = { console.printing with x := console.printing.x + 1 } :=
      Function.update_self ..
    have row : advanced.newLineCells = console.newLineCells := by
      rw [newLineCells, shell]
      rfl
    have stored : ChangesAt page [numCols * console.printing.y + console.printing.x]
        console.video advanced.video := storeCell_changesAt _ _ _ _
    rw [shell, ← row]
    split
    · exact stored.trans (newLine_changesAt page advanced)
    · exact stored

theorem putAll_changesAt (page : Nat) (bytes : List UInt8) (console : Console) :
    ChangesAt page (putAllCells page bytes console) console.video
      (console.putAll page bytes).video := by
  induction bytes generalizing console with
  | nil => exact .refl page [] console.video
  | cons character rest induction =>
      exact (putc_changesAt page character console).trans (induction _)

theorem backSpace_changesAt (page : Nat) (console : Console) :
    ChangesAt page console.backSpaceCells console.video (console.backSpace page).video := by
  intro address changed
  rw [backSpace_drawn] at changed
  refine ⟨_, List.mem_singleton_self _, .inl ?_⟩
  split
  · rename_i start
    rw [if_pos start] at changed
    exact videoStore_changed changed
  · rename_i inner
    rw [if_neg inner] at changed
    exact videoStore_changed changed

theorem recentReleaseExec_video {page : Nat} {code : UInt8} {console : Console}
    (stays : ¬ console.switchesView code) :
    (console.recentReleaseExec page code).video =
      match console.printedCode code with
      | some table => (console.printScancode page table).video
      | none =>
          if code = lChar ∧ console.viewed.ctrlPressed = 1 then (console.redraw page).video
          else if code = backSpaceCode ∧ 0 < console.viewed.bufIndex then
            ((console.modifyViewed fun shell =>
              { shell with bufIndex := shell.bufIndex - 1 }).backSpace page).video
          else console.video := by
  have pressed := recentReleaseExec_pressed page stays
  generalize console.recentReleaseExec page code = after at pressed ⊢
  cases pressed with
  | ctrl key silent | alt key silent | capsLock key silent =>
      rw [silent, key]
      rfl
  | shift key silent =>
      rw [silent]
      rcases key with rfl | rfl
      all_goals rfl
  | redraws control silent =>
      rw [silent]
      exact (if_pos control).symm
  | nothing back empty silent =>
      rw [silent, back]
      exact (if_neg fun both => Int.not_lt.mpr empty both.2).symm
  | erases back some silent =>
      rw [silent, back]
      exact (if_pos ⟨rfl, some⟩).symm
  | enters _ printed =>
      rw [printed]
      rfl
  | prints _ _ _ _ _ printed => rw [printed]

theorem video_drawn (console : Console) (terminal : Fin 3) (video : Memory) (x y : Int) :
    (console.drawn terminal video x y).video = video := rfl

theorem recentReleaseExec_changesAt {page : Nat} {code : UInt8} {console : Console}
    (stays : ¬ console.switchesView code) :
    ChangesAt page (console.keyCells page code) console.video
      (console.recentReleaseExec page code).video := by
  rw [recentReleaseExec_video stays]
  simp only [keyCells]
  split
  · rename_i table _
    rw [printScancode_eq]
    split
    · exact .refl page [] console.video
    · exact putc_changesAt page (kbdus table) console
  · split
    · simp only [redraw, clearScreen_resetScreen]
      set blank := console.drawn console.curTerminal (clear page console.video) 0 0
      have shell : blank.viewed = { console.viewed with x := 0, y := 0 } := Function.update_self ..
      have line : blank.viewed.typed = console.viewed.typed := by
        rw [shell]
        rfl
      have cleared : ChangesAt page clearCells console.video blank.video := by
        rw [video_drawn]
        exact clear_changesAt page console.video
      have printed := putAll_changesAt page blank.viewed.typed blank
      rw [line] at printed
      rw [← Shell.typed, line]
      exact cleared.trans printed
    · split
      · have shorter := backSpace_changesAt page (console.modifyViewed fun shell =>
          { shell with bufIndex := shell.bufIndex - 1 })
        have shell : (console.modifyViewed fun shell =>
            { shell with bufIndex := shell.bufIndex - 1 }).viewed =
              { console.viewed with bufIndex := console.viewed.bufIndex - 1 } :=
          Function.update_self ..
        rw [backSpaceCells, shell] at shorter
        exact shorter
      · exact .refl page [] console.video

/-! With the cursors on their screens, so are the cells. -/

section Bounds

variable {console : Console} {page : Nat}

theorem newLineCells_onScreen (console : Console) :
    ∀ cell ∈ console.newLineCells, onScreen cell := by
  intro cell member
  simp only [newLineCells] at member
  split at member
  · exact scrollUpCells_onScreen cell member
  · cases member

theorem putcCells_onScreen (character : UInt8)
    (valid : (console.tty console.printTerminal).Valid) :
    ∀ cell ∈ console.putcCells character, onScreen cell := by
  intro cell member
  simp only [putcCells] at member
  split at member
  · exact console.newLineCells_onScreen cell member
  · rcases List.mem_cons.mp member with rfl | wrapped
    · exact valid.position_lt
    · split at wrapped
      · exact console.newLineCells_onScreen cell wrapped
      · cases wrapped

theorem putAllCells_onScreen (bytes : List UInt8)
    (mapped : page = console.screenPage console.printTerminal) (placed : console.Placed) :
    ∀ cell ∈ putAllCells page bytes console, onScreen cell := by
  induction bytes generalizing console with
  | nil => exact fun cell member => absurd member List.not_mem_nil
  | cons character rest induction =>
      intro cell member
      obtain ⟨placedNext, only, -⟩ := putAll_tty [character] mapped placed
      have shown : console.putAll page [character] = console.putc page character := rfl
      rw [shown] at placedNext only
      rcases List.mem_append.mp member with first | later
      · exact putcCells_onScreen character (placed.inside _) cell first
      · refine induction ?_ placedNext cell later
        rw [only.screenPage, only.printTerminal, ← mapped]

theorem backSpaceCells_onScreen (valid : (console.tty console.curTerminal).Valid)
    (printed : 0 < (console.tty console.curTerminal).position) :
    ∀ cell ∈ console.backSpaceCells, onScreen cell := by
  intro cell member
  have last := List.mem_singleton.mp member
  have left : 0 ≤ console.viewed.x := valid.left
  have right : console.viewed.x < 80 := valid.right
  have top : 0 ≤ console.viewed.y := valid.top
  have bottom : console.viewed.y < 25 := valid.bottom
  have position : 0 < 80 * console.viewed.y + console.viewed.x := printed
  simp only [onScreen, numRows, numCols] at last ⊢
  split at last
  · omega
  · omega

theorem keyCells_onScreen (code : UInt8) (placed : console.Placed) (pending : console.Pending)
    (printing : console.printTerminal = console.curTerminal) :
    ∀ cell ∈ console.keyCells videoMemAddr.toNat code, onScreen cell := by
  intro cell member
  simp only [keyCells] at member
  split at member
  · split at member
    · cases member
    · exact putcCells_onScreen _ (placed.inside _) cell member
  · split at member
    · rcases List.mem_append.mp member with blanked | printed
      · exact clearCells_onScreen cell blanked
      · rw [clearScreen_resetScreen] at printed
        have outside : SameOutside (console.screenPage console.curTerminal) console.video
            (clear videoMemAddr.toNat console.video) := by
          rw [screenPage_viewed]
          exact clear_outside _ _
        have only := only_drawn (x := 0) (y := 0) outside
        refine putAllCells_onScreen _ ?_ (placed.drawn outside (Tty.valid_corner _)) cell printed
        rw [only.screenPage, only.printTerminal, printing, screenPage_viewed]
    · split at member
      · rename_i deletes
        have printed := Int.lt_of_lt_of_le deletes.2 (pending console.curTerminal).2.2
        exact backSpaceCells_onScreen (placed.inside _) printed cell member
      · cases member

end Bounds

end Console

theorem Kernel.CallConsole.changesAt {kernel : Kernel} {output : List UInt8} {console : Console}
    (left : kernel.CallConsole output console) :
    ChangesAt kernel.pages.videoPage
      (Console.putAllCells kernel.pages.videoPage output kernel.console) kernel.console.video
      console.video := by
  cases left with
  | printed => exact Console.putAll_changesAt _ _ _
  | waiting => exact .refl _ _ _

namespace Session

variable {platform : Platform} {session next : Session} {event : SessionEvent} {reply : Reply}

/-- The cells that `putc`, `back_space`, `scroll_up` and `clear` store to during an
event. -/
def storedCells (session : Session) : SessionEvent → List Int
  | .fire (.key code) =>
      if Kernel.ignoresCode code ∨ ¬ code < recentRelease then []
      else { session.console with printTerminal := session.console.curTerminal }.keyCells
        videoMemAddr.toNat code
  | .fire event =>
      Console.putAllCells session.machine.kernel.pages.videoPage event.output session.console
  | _ => []

def storedPage (session : Session) : SessionEvent → Nat
  | .fire (.key _) => videoMemAddr.toNat
  | _ => session.machine.kernel.pages.videoPage

/-- `change_shell` is called, which copies whole pages. -/
def switches (session : Session) : SessionEvent → Prop
  | .fire (.key code) => session.console.switchesView code
  | _ => False

def takesBack (session : Session) : SessionEvent → Prop
  | .fire (.key code) => code = backSpaceCode ∧ 0 < session.console.viewed.bufIndex
  | _ => False

def cursorsInside (session : Session) : Prop :=
  ∀ terminal, 0 ≤ (session.console.terminals terminal).x ∧
    (session.console.terminals terminal).x < numCols ∧
    0 ≤ (session.console.terminals terminal).y ∧
    (session.console.terminals terminal).y < numRows

structure StaysOnScreen (transition : Transition Session SessionEvent Reply) : Prop where
  listed : ¬ transition.before.switches transition.event →
    ChangesAt (transition.before.storedPage transition.event)
      (transition.before.storedCells transition.event)
      transition.before.console.video transition.after.console.video
  cells : ∀ cell ∈ transition.before.storedCells transition.event, onScreen cell
  corner : transition.before.takesBack transition.event →
    ¬ (transition.before.console.viewed.x = 0 ∧ transition.before.console.viewed.y = 0)
  cursors : transition.after.cursorsInside

theorem Sound.cursorsInside (sound : session.Sound platform) : session.cursorsInside := by
  intro terminal
  obtain ⟨left, right, top, bottom⟩ := sound.mapped.placed.inside terminal
  exact ⟨left, right, top, bottom⟩

theorem Sound.storedCells (sound : session.Sound platform) :
    ∀ cell ∈ session.storedCells event, onScreen cell := by
  have mapped := sound.mapped
  have placed : Console.Placed
      { session.console with printTerminal := session.console.curTerminal } :=
    ⟨mapped.placed.buffers, mapped.placed.inside, mapped.placed.cursor⟩
  have page : session.machine.kernel.pages.videoPage =
      session.console.screenPage session.console.printTerminal := by
    rw [mapped.page, ← mapped.printing]
    rfl
  intro cell member
  cases event with
  | fire event =>
      cases event with
      | key code =>
          simp only [Session.storedCells] at member
          split at member
          · cases member
          · exact Console.keyCells_onScreen code placed mapped.pending rfl cell member
      | _ => exact Console.putAllCells_onScreen _ page mapped.placed cell member
  | _ => cases member

theorem storedCells_fire {event : Event} (other : event.isKey = false) (session : Session) :
    session.storedCells (.fire event) =
        Console.putAllCells session.machine.kernel.pages.videoPage event.output session.console ∧
      session.storedPage (.fire event) = session.machine.kernel.pages.videoPage := by
  cases event with
  | key code => cases other
  | _ => exact ⟨rfl, rfl⟩

theorem key_changesAt {code : UInt8} (stays : ¬ session.switches (.fire (.key code))) :
    ChangesAt videoMemAddr.toNat (session.storedCells (.fire (.key code))) session.console.video
      (session.machine.kernel.keyboardInterruptHandler code).console.video := by
  rw [Kernel.keyboardInterruptHandler_eq]
  simp only [storedCells]
  by_cases ignored : Kernel.ignoresCode code
  · rw [if_pos ignored]
    exact .refl _ _ _
  · rw [if_neg ignored]
    by_cases make : code < recentRelease
    · rw [if_neg fun either => either.elim ignored fun released => released make]
      simp only [Kernel.typed, Kernel.keyConsole, if_pos make]
      exact Console.recentReleaseExec_changesAt stays
    · rw [if_pos (.inr make)]
      have video : (session.machine.kernel.keyConsole code).video = session.console.video := by
        rw [Kernel.keyConsole, if_neg make]
        obtain ⟨change, -, -, cleared⟩ := Console.afterReleaseExec_flagged code
          { session.machine.kernel.console with
            printTerminal := session.machine.kernel.console.curTerminal }
        rw [cleared]
        rfl
      simp only [Kernel.typed, video]
      exact .refl _ _ _

theorem Sound.changesAt (sound : session.Sound platform)
    (fired : session.step platform event = some (next, reply))
    (stays : ¬ session.switches event) :
    ChangesAt (session.storedPage event) (session.storedCells event) session.console.video
      next.console.video := by
  rcases event.isKey_cases with ⟨code, rfl⟩ | other
  · obtain rfl := key_eq_some fired
    exact key_changesAt stays
  · have unkeyed := sound.unkeyed fired other
    generalize next.console = after at unkeyed ⊢
    cases unkeyed with
    | kept => exact .refl _ _ _
    | reset => exact .refl _ _ _
    | called left =>
        obtain ⟨cells, page⟩ := storedCells_fire other session
        rw [cells, page]
        exact left.changesAt

theorem Sound.corner (sound : session.Sound platform) (takes : session.takesBack event) :
    ¬ (session.console.viewed.x = 0 ∧ session.console.viewed.y = 0) := by
  rintro ⟨left, top⟩
  cases event with
  | fire event =>
      cases event with
      | key code =>
          have behind : session.console.viewed.bufIndex ≤
              80 * session.console.viewed.y + session.console.viewed.x :=
            (sound.mapped.pending session.console.curTerminal).2.2
          have typed : 0 < session.console.viewed.bufIndex := takes.2
          omega
      | _ => exact takes
  | _ => exact takes

/-- From boot on every cursor is on its screen, and the terminal driver stores
to cells of the screen only. -/
theorem staysOnScreen_run {memory : BootMemory}
    {trace : List (Transition Session SessionEvent Reply)}
    (run : Run (Session.step platform) (atBoot platform memory) trace session) :
    session.cursorsInside ∧ ∀ transition ∈ trace, StaysOnScreen transition := by
  refine ⟨(soundAfter run).cursorsInside, ?_⟩
  intro transition member
  obtain ⟨⟨_, before⟩, fired⟩ := run.reached member
  have sound := soundAfter before
  exact ⟨sound.changesAt fired, sound.storedCells, sound.corner,
    (sound.step fired).cursorsInside⟩

end Session

namespace Sample

def screenUse : List SessionEvent :=
  [.launch frame, .fire (.write 1 (some fun _ => 65) 3), .fire (.key 30),
    .fire (.key backSpaceCode), .terminalClose, .fire (.key ctrlCode), .fire (.key lChar)]

theorem screenUse_fires : (runEvents (Session.step platform)
    (.atBoot platform memory) screenUse).isSome = true := by
  decide +kernel

end Sample

theorem staysOnScreen_sample : ∃ (trace : List (Transition Session SessionEvent Reply))
    (session : Session), trace.map Transition.event = Sample.screenUse ∧
      session.cursorsInside ∧ ∀ transition ∈ trace, Session.StaysOnScreen transition := by
  obtain ⟨trace, run, events⟩ :=
    run_of_runEvents (Option.some_get Sample.screenUse_fires).symm
  exact ⟨trace, _, events, Session.staysOnScreen_run run⟩

end Ece391Os
