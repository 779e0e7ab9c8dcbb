import Ece391Os.Interrupts.Delivery

namespace Ece391Os

open Data

/-! From wherever a run of the board gets, ticks alone bring every terminal its turn. -/

namespace Board

/-- What the kernel and the timer do without a program, a key or the clock. -/
def Signal.isTurn : Signal → Bool
  | .advance _ _ | .interrupt _ | .disturb .timer | .setFlags true _ => true
  | _ => false

/-- Operations until the code under way is done. -/
def toDo : List Frame → Nat
  | [] => 0
  | frame :: rest =>
      frame.code.length + if .enterProgram ∈ frame.code then 0 else toDo rest

def turn (board : Board) : Fin 3 :=
  if 0 ∈ board.pendingIrqs then board.following else board.current

variable {platform : Platform} {trace steps more : BoardTrace}
  {board middle next finish : Board} {frame : Frame} {rest : List Frame} {op : Op}

structure Turns (platform : Platform) (trace : BoardTrace) (board : Board) (ticks : Nat)
    (steps : BoardTrace) (finish : Board) : Prop where
  run : Run (Board.step platform) board steps finish
  own : ∀ transition ∈ steps, transition.event.isTurn = true
  taken : takenIrqs steps = List.replicate ticks 0
  spaced : Spaced (trace ++ steps)
  inv : Inv platform (trace ++ steps) finish
  launched : finish.launched = board.launched

namespace Turns

theorem refl (spaced : Spaced trace) (inv : Inv platform trace board) :
    Turns platform trace board 0 [] board := by
  refine ⟨.nil board, fun _ member => absurd member List.not_mem_nil, rfl, ?_, ?_, rfl⟩
  · rw [List.append_nil]
    exact spaced
  · rw [List.append_nil]
    exact inv

theorem trans {ticks later : Nat} (first : Turns platform trace board ticks steps middle)
    (second : Turns platform (trace ++ steps) middle later more finish) :
    Turns platform trace board (ticks + later) (steps ++ more) finish := by
  refine ⟨first.run.append second.run, ?_, ?_, ?_, ?_, second.launched.trans first.launched⟩
  · intro transition member
    rcases List.mem_append.mp member with earlier | after
    · exact first.own transition earlier
    · exact second.own transition after
  · rw [takenIrqs, List.filterMap_append, ← takenIrqs, ← takenIrqs, first.taken, second.taken,
      List.replicate_append_replicate]
  · rw [← List.append_assoc]
    exact second.spaced
  · rw [← List.append_assoc]
    exact second.inv

theorem step {ticks : Nat} {signal : Signal} {reply : Option Event} (spaced : Spaced trace)
    (inv : Inv platform trace board)
    (fired : board.step platform signal = some (next, reply)) (own : signal.isTurn = true)
    (taken : (board.takes signal).toList = List.replicate ticks 0)
    (home : board.takes signal = some 0 → board.stack = board.current)
    (launched : next.launched = board.launched) :
    Turns platform trace board ticks [⟨board, signal, reply, next⟩] next := by
  have apart : Spaced (trace ++ [⟨board, signal, reply, next⟩]) := by
    intro transition member takes
    rcases List.mem_append.mp member with earlier | last
    · exact spaced transition earlier takes
    · obtain rfl := List.mem_singleton.mp last
      exact home takes
  refine ⟨.snoc (.nil board) fired, ?_, ?_, apart, inv.step apart fired, launched⟩
  · intro transition member
    rw [List.mem_singleton.mp member]
    exact own
  · rw [← taken, takenIrqs, List.filterMap_cons, List.filterMap_nil]
    cases board.takes signal with
    | none => rfl
    | some irq => rfl

theorem untaken {signal : Signal} {reply : Option Event} (spaced : Spaced trace)
    (inv : Inv platform trace board)
    (fired : board.step platform signal = some (next, reply)) (own : signal.isTurn = true)
    (nothing : board.takes signal = none) (launched : next.launched = board.launched) :
    Turns platform trace board 0 [⟨board, signal, reply, next⟩] next := by
  refine .step spaced inv fired own ?_ ?_ launched
  · rw [nothing]
    rfl
  · intro takes
    rw [nothing] at takes
    cases takes

end Turns

/-! The code under way comes to its end. -/

theorem irq_tick (handles : op.irq = some 0) : op = .code .switchProcess := by
  cases op with
  | code code =>
      cases code with
      | switchProcess => rfl
      | _ => cases handles
  | _ => cases handles

theorem Moves.turn {esp ebp : Int} (moves : board.Moves esp ebp op frame rest next)
    (active : board.machine.kernel.prevSchedTerm ≠ none) (paused : board.Paused)
    (under : board.running = { frame with code := op :: frame.code } :: rest)
    (calm : ∀ below ∈ rest, Op.Calm below.code) : next.turn = board.turn := by
  have before := pendingIrqs_cons under calm
  have after := moves.pendingIrqs (fun _ => paused) calm
  have same (other : op.irq ≠ some 0) (current : next.current = board.current) :
      next.turn = board.turn := by
    have handled : 0 ∈ op.irq.toList ↔ False := by
      rw [Option.mem_toList]
      exact ⟨other, False.elim⟩
    simp only [Board.turn, before, after, List.mem_append, handled, false_or, following, current]
  have switched (switches : op = .code .switchProcess) (stopped : frame.Stopped)
      (current : next.current = board.following) : next.turn = board.turn := by
    subst switches
    have done : frame.code.filterMap Op.irq = [] := Op.calm_switch (.inl stopped.code)
    rw [done] at before after
    simp [Board.turn, before, after, current, Op.irq]
  cases moves with
  | goes stays idle goes =>
      refine same ?_ goes.current
      intro handles
      exact active (idle (irq_tick handles))
  | leaves last done next_eq =>
      subst last next_eq
      exact same nofun rfl
  | enters last done suspended below stopped away next_eq =>
      subst last next_eq
      exact same nofun rfl
  | starts switches _ home alone stopped fresh next_eq =>
      subst next_eq
      exact switched switches stopped rfl
  | resumes switches _ home alone stopped ran next_eq =>
      subst next_eq
      exact switched switches stopped rfl

theorem Moves.toDo {esp ebp : Int} (moves : board.Moves esp ebp op frame rest next)
    (paused : board.machine.kernel.prevSchedTerm ≠ none → board.Paused)
    (under : board.running = { frame with code := op :: frame.code } :: rest) :
    toDo next.running + 1 = toDo board.running ∧ (next.running = [] → next.flag = true) := by
  rw [under]
  cases moves with
  | goes stays idle goes =>
      obtain ⟨after, running, code, _⟩ := goes.running
      have other : Op.enterProgram ≠ op := Ne.symm stays.2
      constructor
      · rw [running]
        simp only [Board.toDo, code, List.length_cons, List.mem_cons, other, false_or]
        omega
      · rw [running]
        exact fun nothing => absurd nothing (List.cons_ne_nil _ _)
  | leaves last done same =>
      subst last same
      have running : { board.setFrames rest with flag := true }.running = rest :=
        Function.update_self ..
      refine ⟨?_, fun _ => rfl⟩
      rw [running]
      simp [Board.toDo, done, Nat.add_comm]
  | enters last done suspended below stopped away same =>
      subst last same
      have running : { { board.setFrames rest with stack := board.current }.setFrames [] with
        flag := true }.running = [] := Function.update_self ..
      refine ⟨?_, fun _ => rfl⟩
      rw [running]
      simp [Board.toDo, done]
  | starts switches _ home alone stopped fresh same =>
      subst switches alone same
      have running : ((board.leaving esp ebp frame).setFrames
          [{ frame with code := Op.firstSwitch }, frame]).running =
            [{ frame with code := Op.firstSwitch }, frame] := Function.update_self ..
      rw [running]
      refine ⟨?_, fun nothing => absurd nothing (List.cons_ne_nil _ _)⟩
      simp only [Board.toDo, stopped.code]
      rfl
  | resumes switches active home alone stopped ran same =>
      subst switches alone same
      obtain ⟨waiting, running, waits⟩ :=
        board.leaving_resumes frame esp ebp ran home (paused active)
      rw [running]
      refine ⟨?_, fun nothing => absurd nothing (List.cons_ne_nil _ _)⟩
      simp only [Board.toDo, stopped.code, waits.code]
      rfl

theorem Control.advances (control : board.Control) (busy : board.running ≠ []) :
    ∃ (op : Op) (frame : Frame) (rest : List Frame),
      board.running = { frame with code := op :: frame.code } :: rest := by
  have first : ∃ frame rest, board.running = frame :: rest ∧ frame.code ≠ [] := by
    cases control with
    | idle free => exact absurd free busy
    | opened frame rest under opened =>
        refine ⟨frame, rest, under, ?_⟩
        cases opened with
        | entry _ _ _ _ more => exact more
        | entering _ _ code =>
            rw [code]
            exact List.cons_ne_nil _ _
    | handling frame rest under _ _ checked =>
        refine ⟨frame, rest, under, ?_⟩
        intro nothing
        rw [nothing] at checked
        cases checked
  obtain ⟨⟨code, eflags, flags, byte⟩, rest, under, more⟩ := first
  obtain ⟨op, later, rfl⟩ := List.exists_cons_of_ne_nil more
  exact ⟨op, ⟨later, eflags, flags, byte⟩, rest, under⟩

theorem Phase.active (phase : Phase platform trace board) (launched : board.launched = true) :
    board.machine.kernel.prevSchedTerm ≠ none := by
  cases phase with
  | early _ _ _ _ _ _ off =>
      rw [off] at launched
      cases launched
  | going _ _ _ _ _ _ _ _ sound => exact active_of_sound sound

/-- The code under way comes to its end by itself. -/
theorem Inv.returns {length : Nat} (inv : Inv platform trace board) (spaced : Spaced trace)
    (left : toDo board.running = length) :
    ∃ steps finish, Turns platform trace board 0 steps finish ∧ finish.running = [] ∧
      ((board.running = [] → board.flag = true) → finish.flag = true) ∧
      (board.launched = true → finish.current = board.turn) := by
  induction length generalizing trace board with
  | zero =>
      by_cases free : board.running = []
      · refine ⟨[], board, .refl spaced inv, free, fun on => on free, ?_⟩
        intro _
        have nothing : board.pendingIrqs = [] := by rw [pendingIrqs, free, List.flatMap_nil]
        rw [turn, nothing]
        rfl
      · obtain ⟨op, frame, rest, under⟩ := inv.control.advances free
        rw [under] at left
        simp [toDo] at left
  | succ length induction =>
      have busy : board.running ≠ [] := by
        intro free
        rw [free] at left
        cases left
      obtain ⟨op, frame, rest, under⟩ := inv.control.advances busy
      have underWay := inv.control.underWay under
      have moves := underWay.moves 0 0 inv.phase.paused
      obtain ⟨shorter, on⟩ := moves.toDo inv.phase.paused under
      have fired : board.step platform (.advance 0 0) = some
          ((board.exec 0 0 frame rest op).1, (board.exec 0 0 frame rest op).2) := by
        simp only [Board.step, under]
      have launched : (board.exec 0 0 frame rest op).1.launched = board.launched :=
        (exec_kept 0 0 op).1
      have first : Turns platform trace board 0 _ (board.exec 0 0 frame rest op).1 :=
        .untaken spaced inv fired rfl rfl launched
      obtain ⟨steps, finish, turns, free, flag, current⟩ :=
        induction first.inv first.spaced (by omega)
      refine ⟨_, finish, first.trans turns, free, fun _ => flag on, ?_⟩
      intro started
      have active := inv.phase.active started
      rw [current (launched.trans started)]
      exact moves.turn active (inv.phase.paused active) under underWay.calm

/-! A tick. -/

theorem LinesOpen.tick (lines : board.LinesOpen) :
    ∃ pics, (board.hardware.pics.raise 0).acknowledge = some (0x20, pics) := by
  have configured : (board.hardware.pics.raise 0).quiet = configuredPics 0xF8 0xFE :=
    (PicPair.quiet_raise 0).trans lines.configured
  have requested : (board.hardware.pics.raise 0).requested 0 = true := by
    rw [PicPair.requested_raise (by decide) (by decide)]
    simp
  have unmasked : (board.hardware.pics.raise 0).masked 0 = false := by
    rw [← masked_quiet, configured]
    decide
  have free : (board.hardware.pics.raise 0).master.inService = 0 :=
    congrArg (fun pics => pics.master.inService) configured
  have vector : (board.hardware.pics.raise 0).vector 0 = 0x20 := by
    rw [← vector_quiet, configured]
    rfl
  exact ⟨_, vector ▸ PicPair.acknowledge_first requested unmasked free⟩

def ticking (board : Board) : Board :=
  { board with hardware := { board.hardware with pics := board.hardware.pics.raise 0 } }

theorem Inv.tick (inv : Inv platform trace board) (spaced : Spaced trace)
    (free : board.running = []) (on : board.flag = true) (launched : board.launched = true) :
    ∃ steps finish, Turns platform trace board 1 steps finish ∧ finish.running = [] ∧
      finish.flag = true ∧ finish.current = board.following := by
  have home := (inv.control.settled free).2
  have ticks : board.step platform (.disturb .timer) = some (board.ticking, none) := rfl
  have ticked : Turns platform trace board 0 _ board.ticking :=
    .untaken spaced inv ticks rfl rfl rfl
  obtain ⟨lines, _⟩ := inv.control.lines_of_flag on
  obtain ⟨pics, acknowledged⟩ := lines.tick
  have acknowledges : board.ticking.hardware.pics.acknowledge = some (0x20, pics) := acknowledged
  have taken : board.ticking.takes (.interrupt ⟨[], false, false, 0⟩) = some 0 := by
    rw [takes, acknowledges]
    rfl
  have interrupts : board.ticking.step platform (.interrupt ⟨[], false, false, 0⟩) =
      some (board.ticking.interrupted ⟨[], false, false, 0⟩ 0 pics, none) := by
    have still : board.ticking.flag = true := on
    simp only [Board.step, acknowledges, still, if_true]
    rfl
  have last : Turns platform _ board.ticking 1 _
      (board.ticking.interrupted ⟨[], false, false, 0⟩ 0 pics) :=
    .step ticked.spaced ticked.inv interrupts rfl (congrArg Option.toList taken) (fun _ => home)
      rfl
  have interrupted := ticked.trans last
  have under := board.ticking.interrupted_running ⟨[], false, false, 0⟩ 0 pics
  have pending : (board.ticking.interrupted ⟨[], false, false, 0⟩ 0 pics).pendingIrqs = [0] := by
    have nothing : board.ticking.running = [] := free
    rw [pendingIrqs, under, nothing]
    rfl
  obtain ⟨steps, finish, returned, done, flag, current⟩ :=
    interrupted.inv.returns interrupted.spaced rfl
  refine ⟨_, finish, interrupted.trans returned, done, flag ?_, ?_⟩
  · rw [under]
    exact fun nothing => absurd nothing (List.cons_ne_nil _ _)
  · rw [current launched, turn, pending]
    rfl

theorem Inv.ticks (count : Nat) (inv : Inv platform trace board) (spaced : Spaced trace)
    (free : board.running = []) (on : board.flag = true) (launched : board.launched = true) :
    ∃ steps finish, Turns platform trace board count steps finish ∧ finish.running = [] ∧
      finish.flag = true ∧ finish.current.val = (board.current.val + count) % 3 := by
  induction count generalizing trace board with
  | zero =>
      exact ⟨[], board, .refl spaced inv, free, on, (Nat.mod_eq_of_lt board.current.isLt).symm⟩
  | succ count induction =>
      obtain ⟨steps, middle, turns, free', on', current⟩ := inv.tick spaced free on launched
      obtain ⟨more, finish, rest, done, flag, reached⟩ :=
        induction turns.inv turns.spaced free' on' (turns.launched.trans launched)
      refine ⟨steps ++ more, finish, ?_, done, flag, ?_⟩
      · rw [Nat.add_comm]
        exact turns.trans rest
      · have next : board.following.val = (board.current.val + 1) % 3 := rfl
        rw [reached, current, next]
        omega

end Board

end Ece391Os
