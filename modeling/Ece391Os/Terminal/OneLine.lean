import Ece391Os.Terminal.LineReads

namespace Ece391Os

open Data

/-! One read, one line: a terminal that stays viewed, somebody who types on it,
and the processes that read from it. -/

theorem Console.terminalReadFinish_whole (buf : Memory) {nbytes : Int} {console : Console}
    (enough : console.viewed.bufIndex ≤ nbytes) :
    (List.range (console.terminalReadFinish buf nbytes).1.toNat).map
      (console.terminalReadFinish buf nbytes).2.1 = console.viewed.typed := by
  apply (terminalReadFinish_copies buf nbytes console).eq_of_length
  have count : (console.terminalReadFinish buf nbytes).1 = console.viewed.bufIndex :=
    if_neg (Int.not_lt.mpr enough)
  rw [count, List.length_map, List.length_range, Shell.typed, List.length_map, List.length_range]

namespace Session

def line (session : Session) : Line := session.console.lines 0

def reading (session : Session) : Option (Memory × Int) := session.machine.reads 0

/-- The view stays on the first terminal, its processes ask for whole lines, and
nobody opens or closes a terminal. -/
def OneTerminal (session : Session) : SessionEvent → Prop
  | .fire (.key code) => session.console.switchesView code → Console.selected code = 0
  | .fire (.read fd (some _) nbytes) =>
      fd = 0 → session.machine.kernel.curSchedTerm = 0 → (bufLength : Int) ≤ nbytes
  | .fire (.openFile (some name)) => ¬ Kernel.namesTerminal name
  | .terminalOpen | .terminalClose => False
  | _ => True

/-- No read starts while the buffer holds a line that is complete already, and
nothing is erased from a complete line that a reader is about to get. -/
def Orderly (session : Session) : SessionEvent → Prop
  | .fire (.key code) => code = backSpaceCode → 0 < session.line.bufIndex →
      ¬ (session.reading.isSome = true ∧ session.line.lineBufferFlag ≠ 0)
  | .fire (.read fd (some _) _) =>
      fd = 0 → session.machine.kernel.curSchedTerm = 0 → session.line.text.getLast? ≠ some 10
  | _ => True

def completes (session : Session) (lines : List (List UInt8)) :
    SessionEvent → List (List UInt8)
  | .fire (.key code) =>
      if code = newLineCode ∧ session.line.lineBufferFlag = 0 then
        lines ++ [LineDiscipline.lastLine 10 session.line.text ++ [10]]
      else if code = backSpaceCode ∧ session.line.text.getLast? = some 10 then lines.dropLast
      else lines
  | _ => lines

def completed (trace : List (Transition Session SessionEvent Reply)) : List (List UInt8) :=
  trace.foldl (fun lines transition => transition.before.completes lines transition.event) []

def answer (transition : Transition Session SessionEvent Reply) : Option (List UInt8) :=
  match transition.event, transition.reply with
  | .fire .finishRead, .read value filled =>
      if transition.before.machine.kernel.curSchedTerm = 0 then
        some ((List.range value.toNat).map filled)
      else none
  | _, _ => none

def answers (trace : List (Transition Session SessionEvent Reply)) : List (List UInt8) :=
  trace.filterMap answer

/-- What the typist and the reader see of a session. -/
def discipline (trace : List (Transition Session SessionEvent Reply)) (session : Session) :
    LineDiscipline UInt8 where
  text := session.line.text
  complete := decide (session.line.lineBufferFlag ≠ 0)
  waiting := session.reading.isSome
  completed := completed trace
  returned := answers trace

section Ghosts

variable (trace : List (Transition Session SessionEvent Reply))
  (transition : Transition Session SessionEvent Reply)

theorem completed_snoc : completed (trace ++ [transition]) =
    transition.before.completes (completed trace) transition.event := by
  simp only [completed, List.foldl_append, List.foldl_cons, List.foldl_nil]

theorem answers_snoc : answers (trace ++ [transition]) =
    answers trace ++ (answer transition).toList := by
  have last : [transition].filterMap answer = (answer transition).toList := by
    cases found : answer transition with
    | none => exact List.filterMap_cons_none found
    | some bytes => exact List.filterMap_cons_some found
  simp only [answers, List.filterMap_append, last]

end Ghosts

variable {platform : Platform} {session next : Session} {event : SessionEvent} {reply : Reply}
  {trace : List (Transition Session SessionEvent Reply)}

structure Viewing (session : Session) : Prop where
  view : session.console.curTerminal = 0
  others : ∀ terminal, terminal ≠ 0 → (session.console.lines terminal).lineBufferFlag = 0
  enough : ∀ bytes nbytes, session.reading = some (bytes, nbytes) → (bufLength : Int) ≤ nbytes
  booting : session.launched = false → session.reading = none

theorem Viewing.viewed_line (viewing : session.Viewing) :
    session.console.viewed.line = session.line := by
  rw [Console.viewed, viewing.view]
  rfl

theorem Sound.serves {event : Event} {machine : Machine} (sound : session.Sound platform)
    (running : session.launched = true ∨ event.isCall = false)
    (moved : session.machine.step platform event = some (machine, reply))
    (other : event.isKey = false)
    (opens : ∀ name, event = .openFile (some name) → ¬ Kernel.namesTerminal name) :
    Machine.Serves session.machine event machine reply := by
  cases launched : session.launched with
  | true => exact (sound.wellKept launched).serves moved other opens
  | false =>
      have interrupt := running.resolve_left (by rw [launched]; decide)
      cases event with
      | tick esp ebp =>
          obtain ⟨terminal, ticked⟩ := sound.ticked esp ebp
          obtain ⟨rfl, rfl⟩ := Prod.mk.inj (Option.some.inj moved)
          refine .kept ?_ rfl fun finish => by cases finish
          simp only
          rw [ticked]
          rfl
      | key => cases other
      | rtcInterrupt =>
          obtain ⟨rfl, rfl⟩ := Prod.mk.inj (Option.some.inj moved)
          exact .kept rfl rfl fun finish => by cases finish
      | _ => cases interrupt

theorem OneTerminal.opens {event : Event} (scope : session.OneTerminal (.fire event)) :
    ∀ name, event = .openFile (some name) → ¬ Kernel.namesTerminal name := by
  rintro name rfl
  exact scope

theorem answer_key (code : UInt8) (reply : Reply) (session next : Session) :
    answer ⟨session, .fire (.key code), reply, next⟩ = none := rfl

def keyedDiscipline (trace : List (Transition Session SessionEvent Reply)) (session : Session)
    (code : UInt8) (after : Line) : LineDiscipline UInt8 where
  text := after.text
  complete := decide (after.lineBufferFlag ≠ 0)
  waiting := session.reading.isSome
  completed := session.completes (completed trace) (.fire (.key code))
  returned := answers trace

theorem discipline_key {code : UInt8} {after : Line} (left : next.line = after)
    (reading : next.reading = session.reading) :
    discipline (trace ++ [⟨session, .fire (.key code), reply, next⟩]) next =
      keyedDiscipline trace session code after := by
  simp only [discipline, keyedDiscipline, left, reading, completed_snoc, answers_snoc, answer_key,
    Option.toList_none, List.append_nil]

theorem completes_same {code : UInt8} {lines : List (List UInt8)}
    (enter : ¬ (code = newLineCode ∧ session.line.lineBufferFlag = 0))
    (back : ¬ (code = backSpaceCode ∧ session.line.text.getLast? = some 10)) :
    session.completes lines (.fire (.key code)) = lines := by
  simp only [completes, if_neg enter, if_neg back]

theorem keyedDiscipline_same {code : UInt8}
    (enter : ¬ (code = newLineCode ∧ session.line.lineBufferFlag = 0))
    (back : ¬ (code = backSpaceCode ∧ session.line.text.getLast? = some 10)) :
    keyedDiscipline trace session code session.line = discipline trace session := by
  rw [keyedDiscipline, completes_same enter back]
  rfl

section Keys

variable {code : UInt8}

theorem erase_simulates (back : code = backSpaceCode) (some : 0 < session.line.bufIndex)
    (orderly : session.Orderly (.fire (.key code))) :
    LineDiscipline.Step 10 127 (discipline trace session)
      (keyedDiscipline trace session code
        { session.line with bufIndex := session.line.bufIndex - 1 }) := by
  have text := Line.text_erased some
  have calm : ¬ ((discipline trace session).waiting = true ∧
      (discipline trace session).complete = true) := by
    simp only [discipline, decide_eq_true_eq]
    exact orderly back some
  have lines : session.completes (completed trace) (.fire (.key code)) =
      if session.line.kbBuf (session.line.bufIndex - 1).toNat = 10 then
        (completed trace).dropLast
      else completed trace := by
    have other : code ≠ newLineCode := by
      rw [back]
      decide
    simp only [completes]
    rw [if_neg fun both => other both.1, text, List.getLast?_concat]
    simp only [back, true_and, Option.some.injEq]
  rw [keyedDiscipline, lines]
  exact .erase text calm

theorem type_simulates {character : UInt8} (lower : 0 ≤ session.line.bufIndex)
    (room : session.line.bufIndex < 127) (waiting : session.line.lineBufferFlag = 0)
    (typed : character ≠ 10) (other : code ≠ newLineCode) (forward : code ≠ backSpaceCode) :
    LineDiscipline.Step 10 127 (discipline trace session)
      (keyedDiscipline trace session code (session.line.store character)) := by
  have short : (discipline trace session).text.length < 127 := by
    simp only [discipline, Line.length_text]
    omega
  have incomplete : (discipline trace session).complete = false := by
    simp [discipline, waiting]
  rw [keyedDiscipline, Line.text_store _ lower,
    completes_same (fun both => other both.1) fun both => forward both.1]
  exact .type character typed short incomplete

theorem enter_simulates (lower : 0 ≤ session.line.bufIndex) (enter : code = newLineCode)
    (waiting : session.line.lineBufferFlag = 0) :
    LineDiscipline.Step 10 127 (discipline trace session)
      (keyedDiscipline trace session code { session.line.store 10 with lineBufferFlag := 1 }) := by
  have incomplete : (discipline trace session).complete = false := by
    simp [discipline, waiting]
  have lines : session.completes (completed trace) (.fire (.key code)) =
      completed trace ++ [LineDiscipline.lastLine 10 session.line.text ++ [10]] := by
    simp only [completes, if_pos (And.intro enter waiting)]
  have text : Line.text { session.line.store 10 with lineBufferFlag := 1 } =
      session.line.text ++ [10] := Line.text_store 10 lower
  rw [keyedDiscipline, lines, text]
  exact .enter incomplete

/-- A key, as a step of the discipline. -/
theorem key_simulates {after : Line} {tty : Tty} (viewing : session.Viewing)
    (lower : 0 ≤ session.line.bufIndex)
    (invariant : LineDiscipline.Invariant 10 127 (discipline trace session))
    (orderly : session.Orderly (.fire (.key code)))
    (keyed : session.console.Keyed code after tty) :
    LineDiscipline.Step 10 127 (discipline trace session)
      (keyedDiscipline trace session code after) := by
  have viewed := viewing.viewed_line
  have index : session.console.viewed.bufIndex = session.line.bufIndex :=
    congrArg Line.bufIndex viewed
  have flag : session.console.viewed.lineBufferFlag = session.line.lineBufferFlag :=
    congrArg Line.lineBufferFlag viewed
  cases keyed with
  | kept other nothing full =>
      rw [viewed]
      refine .stay (keyedDiscipline_same (fun both => other both.1) ?_)
      rintro ⟨back, last⟩
      have empty : session.line.bufIndex.toNat = 0 := by
        have none := nothing back
        omega
      rw [Line.text, empty] at last
      cases last
  | redrawn letter control =>
      have others : code ≠ newLineCode ∧ code ≠ backSpaceCode := by
        rw [letter]
        decide
      rw [viewed]
      exact .stay (keyedDiscipline_same (fun both => others.1 both.1) fun both => others.2 both.1)
  | erased back some =>
      rw [index] at some
      rw [viewed, index]
      exact erase_simulates back some orderly
  | @typed table letter other printed room waiting =>
      rw [index] at room
      rw [flag] at waiting
      have forward : code ≠ backSpaceCode := by
        intro back
        rw [Console.printedCode_back back] at printed
        cases printed
      have typed : kbdus table ≠ 10 := fun same =>
        (Console.printedCode_letter letter other printed).2 (.inl same)
      rw [Console.lineStore_line _ (by omega), viewed]
      exact type_simulates lower room waiting typed other forward
  | entered enter waiting =>
      rw [flag] at waiting
      have incomplete : (discipline trace session).complete = false := by
        simp [discipline, waiting]
      have short := (invariant.open_text incomplete).2
      simp only [discipline, Line.length_text] at short
      rw [Console.lineStore_line _ (by omega), viewed]
      exact enter_simulates lower enter waiting
  | refused enter complete =>
      rw [flag] at complete
      have forward : code ≠ backSpaceCode := by
        rw [enter]
        decide
      rw [viewed]
      apply LineDiscipline.Step.stay
      rw [← keyedDiscipline_same (fun both => complete both.2) fun both => forward both.1]
      simp only [keyedDiscipline, LineDiscipline.mk.injEq, and_true]
      refine ⟨rfl, ?_⟩
      rw [decide_eq_true complete]
      rfl

end Keys

theorem completes_other {lines : List (List UInt8)} (other : event.isKey = false) :
    session.completes lines event = lines := by
  cases event with
  | fire event =>
      cases event with
      | key code => cases other
      | _ => rfl
  | _ => rfl

theorem answer_none {event : Event}
    (other : event = .finishRead → ∀ value filled, reply ≠ .read value filled) :
    answer ⟨session, .fire event, reply, next⟩ = none := by
  simp only [answer]
  split
  · rename_i value filled finish
    exact absurd rfl (other (SessionEvent.fire.inj finish) value filled)
  · rfl

theorem discipline_other {after : Line} {pending : Option (Memory × Int)}
    {answered : Option (List UInt8)} (line : next.line = after) (reading : next.reading = pending)
    (other : event.isKey = false) (answers : answer ⟨session, event, reply, next⟩ = answered) :
    discipline (trace ++ [⟨session, event, reply, next⟩]) next =
      { text := after.text
        complete := decide (after.lineBufferFlag ≠ 0)
        waiting := pending.isSome
        completed := completed trace
        returned := Session.answers trace ++ answered.toList } := by
  simp only [discipline, line, reading, completed_snoc, answers_snoc, answers,
    completes_other other]

theorem discipline_same (line : next.line = session.line)
    (reading : next.reading = session.reading) (other : event.isKey = false)
    (silent : answer ⟨session, event, reply, next⟩ = none) :
    discipline (trace ++ [⟨session, event, reply, next⟩]) next = discipline trace session := by
  rw [discipline_other line reading other silent, Option.toList_none, List.append_nil]
  rfl

theorem answer_whole {bytes : Memory} {nbytes : Int} (viewing : session.Viewing)
    (invariant : LineDiscipline.Invariant 10 127 (discipline trace session))
    (here : session.machine.kernel.curSchedTerm = 0)
    (waited : session.reading = some (bytes, nbytes))
    (value : reply = .read (session.console.terminalReadFinish bytes nbytes).1
      (session.console.terminalReadFinish bytes nbytes).2.1) :
    answer ⟨session, .fire .finishRead, reply, next⟩ = some session.line.text := by
  have room := viewing.enough bytes nbytes waited
  have short : session.line.text.length ≤ 128 := by
    rcases invariant.text with ⟨-, short⟩ | ⟨-, short, -⟩
    · exact Nat.le_succ_of_le short
    · exact short
  have index : session.console.viewed.bufIndex = session.line.bufIndex :=
    congrArg Line.bufIndex viewing.viewed_line
  rw [Line.length_text] at short
  simp only [bufLength] at room
  simp only [value, answer, here, if_true]
  rw [Console.terminalReadFinish_whole bytes (by omega), Shell.typed_eq (by omega),
    viewing.viewed_line]

theorem serves_simulates {event : Event} {machine : Machine} (viewing : session.Viewing)
    (invariant : LineDiscipline.Invariant 10 127 (discipline trace session))
    (other : event.isKey = false) (orderly : session.Orderly (.fire event))
    (serves : Machine.Serves session.machine event machine reply) :
    LineDiscipline.Step 10 127 (discipline trace session)
      (discipline (trace ++ [⟨session, .fire event, reply, { session with machine := machine }⟩])
        { session with machine := machine }) := by
  have notKey : SessionEvent.isKey (.fire event) = false := other
  cases serves with
  | kept lines reads noAnswer =>
      exact .stay (discipline_same (congrFun lines 0) (congrFun reads 0) notKey
        (answer_none noAnswer))
  | @asked bytes nbytes asks console reads =>
      subst asks
      have left := (congrArg (fun console => console.lines 0) console).trans
        (Kernel.lines_asked _ 0)
      by_cases here : session.machine.kernel.curSchedTerm = 0
      · have fresh : (discipline trace session).text.getLast? ≠ some 10 := orderly rfl here
        have line : Session.line { session with machine := machine } =
            { session.line with lineBufferFlag := 0 } := left.trans (if_pos here.symm)
        have reading : Session.reading { session with machine := machine } =
            some (bytes, nbytes) := by
          rw [Session.reading, reads, here, Function.update_self]
        have silent : answer ⟨session, .fire (.read 0 (some bytes) nbytes), reply,
            { session with machine := machine }⟩ = none := rfl
        rw [discipline_other line reading notKey silent, Option.toList_none, List.append_nil]
        exact .ask fresh
      · have away : (0 : Fin 3) ≠ session.machine.kernel.curSchedTerm := fun same => here same.symm
        refine .stay (discipline_same (left.trans (if_neg away)) ?_ notKey rfl)
        exact (congrFun reads 0).trans (Function.update_of_ne away _ _)
  | @answered bytes nbytes finish waited ended console reads value =>
      subst finish
      have here : session.machine.kernel.curSchedTerm = 0 := by
        by_contra away
        exact ended (viewing.others _ away)
      rw [here] at waited ended reads
      have line : Session.line { session with machine := machine } =
          { session.line with bufIndex := 0 } := by
        have left := (congrArg (fun console => console.lines 0) console).trans
          (Console.lines_terminalOpen 0 _)
        rw [← viewing.viewed_line]
        exact left.trans (if_pos viewing.view.symm)
      have reading : Session.reading { session with machine := machine } = none := by
        rw [Session.reading, reads, Function.update_self]
      have bytesRead : answer ⟨session, .fire .finishRead, reply,
          { session with machine := machine }⟩ = some session.line.text :=
        answer_whole viewing invariant here waited value
      have waits : (discipline trace session).waiting = true := by
        simp only [discipline, Session.reading, waited, Option.isSome_some]
      rw [discipline_other line reading notKey bytesRead]
      exact .answer waits (decide_eq_true ended)

theorem Viewing.enough_update {machine : Machine} {pending : Option (Memory × Int)}
    (viewing : session.Viewing)
    (reads : machine.reads =
      Function.update session.machine.reads session.machine.kernel.curSchedTerm pending)
    (room : session.machine.kernel.curSchedTerm = 0 → ∀ bytes nbytes,
      pending = some (bytes, nbytes) → (bufLength : Int) ≤ nbytes) (bytes : Memory) (nbytes : Int)
    (waits : Session.reading { session with machine := machine } = some (bytes, nbytes)) :
    (bufLength : Int) ≤ nbytes := by
  rw [reading, reads] at waits
  by_cases here : session.machine.kernel.curSchedTerm = 0
  · rw [here, Function.update_self] at waits
    exact room here bytes nbytes waits
  · rw [Function.update_of_ne fun same => here same.symm] at waits
    exact viewing.enough bytes nbytes waits

theorem Viewing.serves {event : Event} {machine : Machine} (viewing : session.Viewing)
    (scope : session.OneTerminal (.fire event))
    (running : session.launched = true ∨ event.isCall = false)
    (view : machine.kernel.console.curTerminal = session.console.curTerminal)
    (serves : Machine.Serves session.machine event machine reply) :
    Viewing { session with machine := machine } := by
  have launched (call : event.isCall = true) : session.launched = true :=
    running.resolve_right (by rw [call]; decide)
  cases serves with
  | kept lines reads =>
      have reading : Session.reading { session with machine := machine } = session.reading :=
        congrFun reads 0
      refine ⟨view.trans viewing.view, ?_, ?_, ?_⟩
      · intro terminal away
        exact (congrArg Line.lineBufferFlag (congrFun lines terminal)).trans
          (viewing.others terminal away)
      · rw [reading]
        exact viewing.enough
      · rw [reading]
        exact viewing.booting
  | @asked bytes nbytes asks console reads =>
      subst asks
      refine ⟨view.trans viewing.view, ?_, ?_, ?_⟩
      · intro terminal away
        have left := (congrArg (fun console => console.lines terminal) console).trans
          (Kernel.lines_asked _ terminal)
        simp only [Session.console, left]
        split
        · rfl
        · exact viewing.others terminal away
      · refine viewing.enough_update reads ?_
        rintro here other count same
        cases same
        exact scope rfl here
      · intro booting
        exact absurd (launched rfl) (by rw [booting]; decide)
  | @answered bytes nbytes finish waited ended console reads value =>
      subst finish
      refine ⟨view.trans viewing.view, ?_, ?_, ?_⟩
      · intro terminal away
        have left := (congrArg (fun console => console.lines terminal) console).trans
          (Console.lines_terminalOpen terminal _)
        have elsewhere : terminal ≠ session.machine.kernel.console.curTerminal := by
          rw [show session.machine.kernel.console.curTerminal = 0 from viewing.view]
          exact away
        rw [if_neg elsewhere] at left
        exact (congrArg Line.lineBufferFlag left).trans (viewing.others terminal away)
      · refine viewing.enough_update reads ?_
        rintro _ other count same
        cases same
      · intro booting
        exact absurd (launched rfl) (by rw [booting]; decide)

theorem Unkeyed.view {console : Console} (sound : session.Sound platform)
    (unkeyed : session.Unkeyed event console) :
    console.curTerminal = session.console.curTerminal := by
  cases unkeyed with
  | kept => rfl
  | reset => rfl
  | called left => exact (left.keepsFlags sound.mapped).view

theorem key_viewing {code : UInt8} (sound : session.Sound platform) (viewing : session.Viewing)
    (scope : session.OneTerminal (.fire (.key code))) : Viewing { session with
      machine := { session.machine with
        kernel := session.machine.kernel.keyboardInterruptHandler code } } := by
  refine ⟨?_, ?_, viewing.enough, viewing.booting⟩
  · rcases Kernel.key_view sound.mapped code with same | ⟨switches, selected⟩
    · exact same.trans viewing.view
    · exact selected.trans (scope switches)
  · intro terminal away
    have elsewhere : terminal ≠ session.machine.kernel.console.curTerminal := by
      rw [show session.machine.kernel.console.curTerminal = 0 from viewing.view]
      exact away
    exact (congrArg Line.lineBufferFlag (Kernel.key_others sound.mapped code elsewhere).1).trans
      (viewing.others terminal away)

theorem simulates (sound : session.Sound platform) (viewing : session.Viewing)
    (invariant : LineDiscipline.Invariant 10 127 (discipline trace session))
    (scope : session.OneTerminal event) (orderly : session.Orderly event)
    (fired : session.step platform event = some (next, reply)) :
    next.Viewing ∧ LineDiscipline.Step 10 127 (discipline trace session)
      (discipline (trace ++ [⟨session, event, reply, next⟩]) next) := by
  rcases event.isKey_cases with ⟨code, rfl⟩ | other
  · have left := key_eq_some fired
    have line : next.line =
        (session.machine.kernel.keyboardInterruptHandler code).console.lines 0 := by
      rw [left]
      rfl
    have reading : next.reading = session.reading := by
      rw [left]
      rfl
    have lower := (sound.mapped.pending 0).1
    have keyed := Kernel.key_keyed sound.mapped code
    have view : session.machine.kernel.console.curTerminal = 0 := viewing.view
    rw [view] at keyed
    rw [discipline_key line reading]
    refine ⟨?_, key_simulates viewing lower invariant orderly keyed⟩
    rw [left]
    exact key_viewing sound viewing scope
  · have unkeyed := sound.unkeyed fired other
    cases moves fired with
    | launch frame booting success =>
        obtain ⟨entryPoint, memory, rfl⟩ := Kernel.launch_eq success
        refine ⟨⟨viewing.view, viewing.others, ?_, fun _ => rfl⟩, .stay (discipline_same rfl ?_
          rfl rfl)⟩
        · intro bytes nbytes waits
          cases waits
        · exact (viewing.booting booting).symm
    | fire running moved =>
        have serves := sound.serves running moved other scope.opens
        exact ⟨viewing.serves scope running (unkeyed.view sound) serves,
          serves_simulates viewing invariant other orderly serves⟩
    | driver direct =>
        rcases direct with rfl | rfl
        · exact scope.elim
        · exact scope.elim

theorem atBoot_viewing (platform : Platform) (memory : BootMemory) :
    (atBoot platform memory).Viewing := by
  have lines (terminal : Fin 3) : (atBoot platform memory).console.lines terminal =
      (Kernel.zeroed memory).console.initShell.lines terminal :=
    Console.part_resetScreen (fun _ _ _ => rfl) _ terminal
  refine ⟨rfl, ?_, ?_, fun _ => rfl⟩
  · intro terminal _
    rw [lines]
    rfl
  · intro bytes nbytes waits
    cases waits

def heldLines (session : Session) : List (List UInt8) :=
  if session.line.text.getLast? = some 10 then [session.line.text] else []

/-- Every answer is one line; the lines ended and not taken back are the answers
in order, and then the one still in the buffer; and a process that waits gets
that one as soon as it runs. -/
structure OneLineEach (platform : Platform)
    (trace : List (Transition Session SessionEvent Reply)) (session : Session) : Prop where
  oneLine : ∀ bytes ∈ answers trace, ∃ line, 10 ∉ line ∧ bytes = line ++ [10]
  eachOnce : completed trace = answers trace ++ session.heldLines
  delivers : session.heldLines ≠ [] → session.reading.isSome = true →
    session.machine.kernel.curSchedTerm = 0 →
    (session.step platform (.fire .finishRead)).isSome = true

theorem atBoot_invariant (platform : Platform) (memory : BootMemory) :
    LineDiscipline.Invariant 10 127 (discipline [] (atBoot platform memory)) := by
  have line : (atBoot platform memory).line =
      (Kernel.zeroed memory).console.initShell.lines 0 :=
    Console.part_resetScreen (fun _ _ _ => rfl) _ 0
  have start : discipline [] (atBoot platform memory) = ⟨[], false, false, [], []⟩ := by
    rw [discipline, line]
    rfl
  rw [start]
  exact .start false false (by decide)

theorem disciplined_run {memory : BootMemory}
    (run : Run (Session.step platform) (atBoot platform memory) trace session)
    (scope : ∀ transition ∈ trace, transition.before.OneTerminal transition.event)
    (orderly : ∀ transition ∈ trace, transition.before.Orderly transition.event) :
    session.Viewing ∧ LineDiscipline.Invariant 10 127 (discipline trace session) := by
  induction run with
  | nil => exact ⟨atBoot_viewing platform memory, atBoot_invariant platform memory⟩
  | snoc before fired induction =>
      obtain ⟨viewing, invariant⟩ := induction
        (fun transition member => scope transition (List.mem_append_left _ member))
        (fun transition member => orderly transition (List.mem_append_left _ member))
      obtain ⟨viewingNext, step⟩ := simulates (soundAfter before) viewing invariant
        (scope _ List.mem_concat_self) (orderly _ List.mem_concat_self) fired
      exact ⟨viewingNext, invariant.step step⟩

theorem delivers (viewing : session.Viewing)
    (invariant : LineDiscipline.Invariant 10 127 (discipline trace session))
    (held : session.heldLines ≠ []) (waits : session.reading.isSome = true)
    (here : session.machine.kernel.curSchedTerm = 0) :
    (session.step platform (.fire .finishRead)).isSome = true := by
  have ended : session.line.lineBufferFlag ≠ 0 := by
    rcases invariant.text with ⟨none, -⟩ | ⟨-, -, complete⟩
    · exact absurd (LineDiscipline.held_of_notMem none) held
    · exact of_decide_eq_true complete
  have launched : session.launched = true := by
    by_contra booting
    rw [viewing.booting (Bool.eq_false_iff.mpr booting)] at waits
    cases waits
  have blocked : ∃ bytes nbytes, session.machine.blocked session.machine.kernel.curSchedTerm =
      some (.terminal bytes nbytes) := by
    rw [here]
    simp only [reading, Machine.reads] at waits
    cases pending : session.machine.blocked 0 with
    | none =>
        rw [pending] at waits
        cases waits
    | some read =>
        cases read with
        | terminal bytes nbytes => exact ⟨bytes, nbytes, rfl⟩
        | rtc =>
            rw [pending] at waits
            cases waits
  obtain ⟨bytes, nbytes, blocked⟩ := blocked
  have flag : (session.machine.kernel.console.terminals
      session.machine.kernel.curSchedTerm).lineBufferFlag ≠ 0 := by
    rw [here]
    exact ended
  simp only [step, Event.isCall, launched, Machine.step, Machine.wake, blocked,
    Kernel.finishRead, if_neg flag]
  rfl

/-- From boot on, as long as one terminal is viewed and the events are orderly. -/
theorem oneLineEach_run {memory : BootMemory}
    (run : Run (Session.step platform) (atBoot platform memory) trace session)
    (scope : ∀ transition ∈ trace, transition.before.OneTerminal transition.event)
    (orderly : ∀ transition ∈ trace, transition.before.Orderly transition.event) :
    OneLineEach platform trace session := by
  obtain ⟨viewing, invariant⟩ := disciplined_run run scope orderly
  exact ⟨invariant.oneLine, invariant.eachOnce, delivers viewing invariant⟩

end Session

namespace Sample

theorem launches : ((Session.atBoot platform memory).step platform
    (.launch frame)).isSome = true := by
  decide +kernel

def launching : Transition Session SessionEvent Reply :=
  .fire (Session.step platform) (.atBoot platform memory) (.launch frame) launches

theorem asks_first : (launching.after.step platform
    (.fire (.read 0 (some fun _ => 0) 128))).isSome = true := by
  decide +kernel

/-- It asks for a line, which is then typed: the letter A and Enter. -/
def asking : Transition Session SessionEvent Reply :=
  .fire (Session.step platform) launching.after (.fire (.read 0 (some fun _ => 0) 128)) asks_first

def lineDone : Session := press newLineCode (press 30 asking.after)

theorem line_answered : (lineDone.step platform (.fire .finishRead)).isSome = true := by
  decide +kernel

def answering : Transition Session SessionEvent Reply :=
  .fire (Session.step platform) lineDone (.fire .finishRead) line_answered

def orderlyRead : List (Transition Session SessionEvent Reply) :=
  [launching, asking, ⟨asking.after, .fire (.key 30), .handled, press 30 asking.after⟩,
    ⟨press 30 asking.after, .fire (.key newLineCode), .handled, lineDone⟩, answering]

theorem orderlyRead_run : Run (Session.step platform) (.atBoot platform memory) orderlyRead
    answering.after := by
  have typed := ((((Run.nil (Session.atBoot platform memory)).fire _ launches).fire _
    asks_first).snoc (presses 30 asking.after)).snoc (presses newLineCode (press 30 asking.after))
  exact typed.fire _ line_answered

def early : Session := press newLineCode (press 30 launching.after)

theorem asks_late : (early.step platform
    (.fire (.read 0 (some fun _ => 0) 128))).isSome = true := by
  decide +kernel

def askingLate : Transition Session SessionEvent Reply :=
  .fire (Session.step platform) early (.fire (.read 0 (some fun _ => 0) 128)) asks_late

def twoLines : Session := press newLineCode (press 48 askingLate.after)

theorem two_answered : (twoLines.step platform (.fire .finishRead)).isSome = true := by
  decide +kernel

def answeringTwo : Transition Session SessionEvent Reply :=
  .fire (Session.step platform) twoLines (.fire .finishRead) two_answered

def hastyRead : List (Transition Session SessionEvent Reply) :=
  [launching, ⟨launching.after, .fire (.key 30), .handled, press 30 launching.after⟩,
    ⟨press 30 launching.after, .fire (.key newLineCode), .handled, early⟩, askingLate,
    ⟨askingLate.after, .fire (.key 48), .handled, press 48 askingLate.after⟩,
    ⟨press 48 askingLate.after, .fire (.key newLineCode), .handled, twoLines⟩, answeringTwo]

theorem hastyRead_run : Run (Session.step platform) (.atBoot platform memory) hastyRead
    answeringTwo.after := by
  have typed := (((Run.nil (Session.atBoot platform memory)).fire _ launches).snoc
    (presses 30 launching.after)).snoc (presses newLineCode (press 30 launching.after))
  have again := ((typed.fire _ asks_late).snoc (presses 48 askingLate.after)).snoc
    (presses newLineCode (press 48 askingLate.after))
  exact again.fire _ two_answered

end Sample

theorem oneLineEach_sample : Session.answers Sample.orderlyRead = [[97, 10]] ∧
    Session.OneLineEach Sample.platform Sample.orderlyRead Sample.answering.after := by
  refine ⟨by decide +kernel, Session.oneLineEach_run Sample.orderlyRead_run ?_ ?_⟩
  · intro transition member
    simp only [Sample.orderlyRead, List.mem_cons, List.not_mem_nil, or_false] at member
    rcases member with rfl | rfl | rfl | rfl | rfl
    · exact trivial
    · exact fun _ _ => (by decide : (bufLength : Int) ≤ 128)
    · exact fun switches => absurd switches.2 (by decide)
    · exact fun switches => absurd switches.2 (by decide)
    · exact trivial
  · intro transition member
    simp only [Sample.orderlyRead, List.mem_cons, List.not_mem_nil, or_false] at member
    rcases member with rfl | rfl | rfl | rfl | rfl
    · exact trivial
    · exact fun _ _ => (by decide +kernel :
        Sample.launching.after.line.text.getLast? ≠ some 10)
    · exact fun back => absurd back (by decide)
    · exact fun back => absurd back (by decide)
    · exact trivial

/-- A read that starts while a line is there answers with two lines. -/
theorem twoLines_answered :
    ¬ ∀ (platform : Platform) (memory : BootMemory)
      (trace : List (Transition Session SessionEvent Reply)) (session : Session),
      Run (Session.step platform) (.atBoot platform memory) trace session →
      (∀ transition ∈ trace, transition.before.OneTerminal transition.event) →
      Session.OneLineEach platform trace session := by
  intro always
  have scope : ∀ transition ∈ Sample.hastyRead,
      transition.before.OneTerminal transition.event := by
    intro transition member
    simp only [Sample.hastyRead, List.mem_cons, List.not_mem_nil, or_false] at member
    rcases member with rfl | rfl | rfl | rfl | rfl | rfl | rfl
    · exact trivial
    · exact fun switches => absurd switches.2 (by decide)
    · exact fun switches => absurd switches.2 (by decide)
    · exact fun _ _ => (by decide : (bufLength : Int) ≤ 128)
    · exact fun switches => absurd switches.2 (by decide)
    · exact fun switches => absurd switches.2 (by decide)
    · exact trivial
  have answers : Session.answers Sample.hastyRead = [[97, 10, 98, 10]] := by decide +kernel
  obtain ⟨line, none, bytes⟩ := (always _ _ _ _ Sample.hastyRead_run scope).oneLine
    [97, 10, 98, 10] (by rw [answers]; exact List.mem_singleton_self _)
  have first : line = [97, 10, 98] :=
    (List.append_inj' (show line ++ [10] = [97, 10, 98] ++ [10] from bytes.symm) rfl).1
  rw [first] at none
  exact none (by decide)

end Ece391Os
