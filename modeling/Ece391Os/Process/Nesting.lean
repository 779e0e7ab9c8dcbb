import Ece391Os.Process.CallTree
import Ece391Os.Process.Pointers

namespace Ece391Os

open Data

/-! `execute` as a procedure call: the caller waits, untouched, while the child and
everything the child starts run, and goes on where it called. -/

def Event.storesThrough : Event → Bool
  | execute _ _ | getargs _ _ | vidmap _ => true
  | _ => false

namespace Kernel

variable {platform : Platform} {kernel : Kernel} {event : Event} {result : Kernel × Reply}
  {pid : Int}

theorem storeUser_other {start count address : Nat} {owner : Int} (bytes : Memory)
    (page : kernel.userPage = (userFrame owner).toNat) (positive : 1 ≤ owner)
    (other : pid ≠ owner) (inside : inRegion (userFrame pid) fourMb address) :
    (kernel.storeUser start count bytes).userMem address = kernel.userMem address := by
  have outside := userFrame_apart other inside
  simp only [storeUser]
  apply if_neg
  rintro ⟨lower, upper, -⟩
  apply outside
  simp only [inRegion, userFrame, eightMb, fourMb] at *
  omega

theorem execute_memory (command : CString) (frame : StackFrame)
    (sound : kernel.processView.Sound) (alive : kernel.live pid) {address : Nat}
    (inside : inRegion (userFrame pid) fourMb address) :
    (kernel.execute platform command frame).1.userMem address = kernel.userMem address := by
  obtain ⟨counted, populated⟩ := processNum_pos sound
  rcases execute_cases platform command frame (by omega : kernel.processNum ≠ 0) with
    refused | ⟨room, passed⟩
  · rw [refused]
  · rw [passed]
    cases opened : openProgram platform.image (commandName command) frame.elfBuf with
    | none => simp [executeRest, opened]
    | some program =>
        obtain ⟨inode, elf⟩ := program
        obtain ⟨slot, found⟩ := Option.isSome_iff_exists.mp
          (findSlot_isSome (by omega : usedSlots kernel.processArray < maxProgs))
        obtain ⟨below, free⟩ := findSlot_some found
        have range : 1 ≤ (slot : Int) + 1 ∧ (slot : Int) + 1 ≤ 6 := by
          simp only [maxProgs] at below
          omega
        have different : pid ≠ (slot : Int) + 1 := by
          intro same
          apply alive.2
          rw [same, Int.add_sub_cancel]
          exact free
        rw [executeRest_some kernel opened, claimSlot_some _ found]
        by_contra changed
        exact userFrame_apart different inside
          (loadedMemory_changed (openProgram_valid opened) range changed)

/-- The calls that give bytes to their caller do so by their answer, or store them
through a pointer of the caller. -/
theorem Step.memory_same (fired : Step platform kernel event result)
    (sound : kernel.processView.Sound) (plain : event.storesThrough = false) :
    result.1.userMem = kernel.userMem := by
  cases fired with
  | execute | getargs | vidmap => cases plain
  | halt status =>
      by_cases base : isBaseShell (kernel.pcbAt (kernel.currentPcb platform)).pid
      · rw [halt_base status base]
      · obtain ⟨console, _, halted⟩ := halt_eq status base
        rw [halted]
        rfl
  | exception vector =>
      obtain ⟨console, _, ended⟩ := exceptionHandler_eq platform vector kernel
      rw [ended]
      rfl
  | tick esp ebp =>
      obtain ⟨_, _, runs⟩ := sound
      obtain ⟨mask, switched⟩ := pitInterruptHandler_eq esp ebp runs.active
      rw [switched]
      rfl
  | read fd buf nbytes =>
      simp only [Kernel.read]
      repeat' split
      all_goals rfl
  | finishRead pending result ready =>
      obtain ⟨_, _, _, _, rfl⟩ | ⟨_, _, rfl⟩ := finishRead_cases ready
      · rfl
      · rfl
  | write fd buf nbytes =>
      simp only [Kernel.write]
      repeat' split
      all_goals rfl
  | openFile filename =>
      simp only [Kernel.openFile]
      repeat' split
      all_goals rfl
  | close fd =>
      obtain ⟨console, _, closed⟩ := closeAt_eq (kernel.currentPcb platform) fd kernel
      simp only [Kernel.close, closed]
      rfl
  | key scanCode =>
      obtain ⟨mask, ignored | typed⟩ := kernel.keyboardInterruptHandler_cases scanCode
      · rw [ignored]
      · rw [typed]
        rfl
  | setHandler | sigreturn | rtcInterrupt => rfl

/-- The kernel writes to the memory of a live process only while that runs, and
not even then to start another. -/
theorem Step.memory_kept (fired : Step platform kernel event result)
    (sound : kernel.processView.Sound) (alive : kernel.live pid)
    (other : pid ≠ kernel.running.processNum ∨ event.isExecute = true) {address : Nat}
    (inside : inRegion (userFrame pid) fourMb address) :
    result.1.userMem address = kernel.userMem address := by
  have memory := fired.memory_same sound
  have page := userPage_running sound
  have positive := (live_running sound).1.1
  cases fired with
  | execute command frame => exact execute_memory command frame sound alive inside
  | getargs buf nbytes =>
      have elsewhere := other.resolve_right Bool.false_ne_true
      rcases getargs_cases platform buf nbytes kernel with refused | ⟨_, bytes, stored⟩
      · rw [refused]
      · split at stored
        · rw [stored]
          exact storeUser_other bytes page positive elsewhere inside
        · rw [stored]
          exact storeUser_other bytes page positive elsewhere inside
  | vidmap screenStart =>
      have elsewhere := other.resolve_right Bool.false_ne_true
      simp only [Kernel.vidmap]
      split
      · rfl
      · split
        · rfl
        · exact storeUser_other _ page positive elsewhere inside
  | _ => exact congrFun (memory rfl) address

theorem Leaves.field_kept {β : Type} (leaves : Leaves platform kernel event result)
    (alive : kernel.live pid) (field : Pcb → β)
    (descriptors : ∀ pcb fdt, field { pcb with fdt := fdt } = field pcb)
    (mapping : ∀ pcb, field { pcb with vidmem := 1 } = field pcb) :
    field (result.1.pcb pid) = field (kernel.pcb pid) := by
  have keeps {address : Nat} {changed : Pcb}
      (same : field changed = field (kernel.pcbAt address)) :
      field (Function.update kernel.pcbAt address changed (pcbAddr pid)) =
        field (kernel.pcb pid) :=
    congrFun (value_update field same) (pcbAddr pid)
  cases leaves with
  | serviced _ done =>
      obtain ⟨fdt, console, rtc, memory, rfl⟩ := done
      exact keeps (descriptors _ fdt)
  | vidmapped => exact keeps (mapping _)
  | ended => exact keeps (descriptors _ _)
  | started memory eip found => rw [pcb_started _ memory found rfl alive]
  | restarted | ticked | ignored | typed | clocked => rfl

/-- While `child` runs for `caller`: what stood below the call on its stack, and
`caller`, are as they were in `before`. -/
structure Waits (before : Kernel) (older : List Int) (child ebp : Int) (kernel : Kernel) :
    Prop where
  stacked : ∃ tree newer, kernel.Follows tree ∧
    tree.chains before.curSchedTerm = newer ++ child :: before.running.processNum :: older
  block : kernel.pcb before.running.processNum = before.pcb before.running.processNum
  memory : ∀ address : Nat, inRegion (userFrame before.running.processNum) fourMb address →
    kernel.userMem address = before.userMem address
  returnEbp : (kernel.pcb child).parentEbp = ebp

namespace Waits

variable {before : Kernel} {older : List Int} {child ebp : Int}

theorem suspended (waits : Waits before older child ebp kernel) :
    kernel.live before.running.processNum ∧
      kernel.running.processNum ≠ before.running.processNum := by
  obtain ⟨tree, newer, follows, shape⟩ := waits.stacked
  constructor
  · exact (follows.live_iff _).mpr ⟨before.curSchedTerm, by simp [shape]⟩
  · intro runs
    refine follows.distinct.waits shape List.mem_cons_self tree.turn ?_
    rw [follows.top, runs]

theorem child_live (waits : Waits before older child ebp kernel) : kernel.live child := by
  obtain ⟨tree, newer, follows, shape⟩ := waits.stacked
  exact (follows.live_iff _).mpr ⟨before.curSchedTerm, by simp [shape]⟩

theorem sound (waits : Waits before older child ebp kernel) : kernel.processView.Sound := by
  obtain ⟨_, _, follows, _⟩ := waits.stacked
  exact follows.chained.sound

theorem step (waits : Waits before older child ebp kernel)
    (fired : Step platform kernel event result) (alive : result.1.live child) :
    Waits before older child ebp result.1 := by
  obtain ⟨tree, newer, follows, shape⟩ := waits.stacked
  obtain ⟨fits, follows'⟩ := fired.follows follows
  obtain ⟨terminal, stays⟩ := (follows'.live_iff child).mp alive
  obtain ⟨newer', shape'⟩ := fits.keeps_below follows.distinct shape stays
  have leaves := fired.leaves waits.sound
  have other := waits.suspended.2.symm
  refine ⟨⟨_, newer', follows', shape'⟩, ?_, ?_, ?_⟩
  · exact (leaves.pcb_kept waits.sound waits.suspended.1 other).trans waits.block
  · intro address inside
    exact (fired.memory_kept waits.sound waits.suspended.1 (.inl other) inside).trans
      (waits.memory address inside)
  · exact (leaves.field_kept waits.child_live Pcb.parentEbp (fun _ _ => rfl) fun _ => rfl).trans
      waits.returnEbp

end Waits

theorem Follows.waits {tree : CallTree} {command : CString} {frame : StackFrame} {eip : Nat}
    (follows : kernel.Follows tree)
    (fired : Step platform kernel (.execute command frame) result)
    (entered : result.2 = .enter eip) :
    ∃ older, Waits kernel older result.1.running.processNum frame.ebp result.1 := by
  have sound := follows.chained.sound
  have alive := live_running sound
  obtain ⟨-, follows'⟩ := fired.follows follows
  have memory (address : Nat)
      (inside : inRegion (userFrame kernel.running.processNum) fourMb address) :=
    fired.memory_kept sound alive (.inr rfl) inside
  obtain ⟨older, shape⟩ := follows.shape
  rw [← follows.turn] at shape
  have answer : result = kernel.execute platform command frame := by
    cases fired
    rfl
  obtain refused | ⟨-, slot, filled, entry, found, started⟩ :=
    execute_outcome platform command frame sound
  · rw [answer, refused] at entered
    cases entered
  · rw [started] at answer
    rw [entered] at follows'
    have child : result.1.running.processNum = (slot : Int) + 1 := by
      rw [answer]
      simp [running, Kernel.started, childPcb]
    have block : (result.1.pcb ((slot : Int) + 1)).parentEbp = frame.ebp := by
      rw [answer]
      simp [pcb, Kernel.started, childPcb]
    refine ⟨older, ⟨_, [], follows', ?_⟩, ?_, memory, by rw [child]; exact block⟩
    · have called : tree.move (.execute command frame) (.enter eip) =
          .call tree.turn ((slot : Int) + 1) := by
        simp [CallTree.move, lowestFree_eq follows.chained found]
      simp only [CallTree.after, called, child]
      rw [← follows.turn, Move.apply, Function.update_self, shape]
      rfl
    · rw [answer]
      exact pcb_started _ filled found rfl alive

/-- What the end of `child` gives back: the terminal, the processor and the stack of
`before`, with the answer that `execute` returns. -/
structure Returns (before : Kernel) (child ebp : Int) (kernel : Kernel) (event : Event)
    (result : Kernel × Reply) : Prop where
  ends : kernel.running.processNum = child ∧ kernel.curSchedTerm = before.curSchedTerm
  answers : (∃ status, event = .halt status ∧ result.2 = .resume status.toNat) ∨
    ∃ vector, event = .exception vector ∧ result.2 = .resume 256
  terminal : result.1.curSchedTerm = before.curSchedTerm
  caller : result.1.running.processNum = before.running.processNum
  stack : result.1.running.esp = stackTop before.running.processNum ∧
    result.1.running.ebp = ebp
  kernelStack : result.1.tssEsp0 = before.tssEsp0
  userPage : result.1.pages.pageDirectory (directorySlot userProg) =
    before.pages.pageDirectory (directorySlot userProg)
  block : result.1.pcb before.running.processNum = before.pcb before.running.processNum
  memory : ∀ address : Nat, inRegion (userFrame before.running.processNum) fourMb address →
    result.1.userMem address = before.userMem address

theorem Step.left {tree : CallTree} {host : Fin 3} (fired : Step platform kernel event result)
    (left : tree.move event result.2 = .leave host) :
    host = tree.turn ∧ ((∃ status, event = .halt status ∧ result.2 = .resume status.toNat) ∨
      ∃ vector, event = .exception vector ∧ result.2 = .resume 256) ∧
      ∃ console, result.1 = kernel.terminated (kernel.currentPcb platform) console := by
  cases fired with
  | halt status =>
      by_cases base : isBaseShell (kernel.pcbAt (kernel.currentPcb platform)).pid
      · rw [halt_base status base] at left
        cases left
      · obtain ⟨console, _, halted⟩ := halt_eq status base
        rw [halted] at left ⊢
        exact ⟨(Move.leave.inj left).symm, .inl ⟨status, rfl, rfl⟩, console, rfl⟩
  | exception vector =>
      obtain ⟨console, _, ended⟩ := exceptionHandler_eq platform vector kernel
      rw [ended] at left ⊢
      exact ⟨(Move.leave.inj left).symm, .inr ⟨vector, rfl, rfl⟩, console, rfl⟩
  | execute command frame =>
      generalize (Kernel.execute platform command frame kernel).2 = reply at left
      cases reply with
      | enter eip =>
          simp only [CallTree.move] at left
          cases free : lowestFree tree.chains with
          | none =>
              rw [free] at left
              cases left
          | some pid =>
              rw [free] at left
              cases left
      | _ => cases left
  | _ => cases left

theorem Waits.returns {before : Kernel} {beforeTree : CallTree} {older : List Int}
    {child ebp : Int} (waits : Waits before older child ebp kernel)
    (began : before.Follows beforeTree) (fired : Step platform kernel event result)
    (gone : ¬ result.1.live child) : Returns before child ebp kernel event result := by
  obtain ⟨tree, newer, follows, shape⟩ := waits.stacked
  obtain ⟨fits, follows'⟩ := fired.follows follows
  obtain ⟨left, full, popped⟩ := fits.uncovers shape fun inside =>
    gone ((follows'.live_iff child).mpr ⟨_, inside⟩)
  obtain ⟨host, answers, console, ended⟩ := fired.left left
  have other := waits.suspended.2.symm
  have turn : kernel.curSchedTerm = before.curSchedTerm := follows.turn.trans host.symm
  have runs : kernel.running.processNum = child := by
    have top := follows.top
    rw [← host, full] at top
    exact (Option.some.inj top).symm
  have terminal : result.1.curSchedTerm = before.curSchedTerm := by
    rw [ended]
    exact turn
  have caller : result.1.running.processNum = before.running.processNum := by
    have top := follows'.top
    rw [← follows'.turn, terminal] at top
    simp only [CallTree.after, popped, Function.update_self] at top
    exact (Option.some.inj top).symm
  have address : kernel.currentPcb platform = pcbAddr child := by
    rw [(currentPcb_running platform follows.chained.sound).1, runs]
  have node : result.1.running = parentNode (kernel.pcb child) kernel.running := by
    rw [ended, address]
    exact Function.update_self kernel.curSchedTerm _ kernel.schedArr
  have link : kernel.parentOf child = before.running.processNum := by
    rw [node] at caller
    exact caller
  have young : child ≠ baseShell before.curSchedTerm := by
    intro base
    have orphan : kernel.parentOf child = 0 := by
      rw [base]
      exact follows.chained.holds.orphan _
    have positive := waits.suspended.1.1.1
    omega
  have esp : (kernel.pcb child).parentEsp = stackTop (kernel.parentOf child) :=
    follows.chained.holds.parentEsp before.curSchedTerm child (by simp [full]) young
  have stack : result.1.tssEsp0 = u32 (stackTop result.1.running.processNum) :=
    follows'.chained.runs.tssEsp0
  have entry : result.1.pages.pageDirectory (directorySlot userProg) =
      userEntry result.1.running.processNum := follows'.chained.runs.progEntry
  have leaves := fired.leaves waits.sound
  refine ⟨⟨runs, turn⟩, answers, terminal, caller, ⟨?_, ?_⟩, ?_, ?_, ?_, ?_⟩
  · rw [node, ← link]
    exact esp
  · rw [node]
    exact waits.returnEbp
  · rw [stack, caller]
    exact began.chained.runs.tssEsp0.symm
  · rw [entry, caller]
    exact began.chained.runs.progEntry.symm
  · exact (leaves.pcb_kept waits.sound waits.suspended.1 other).trans waits.block
  · intro address inside
    exact (fired.memory_kept waits.sound waits.suspended.1 (.inl other) inside).trans
      (waits.memory address inside)

theorem Waits.run {before : Kernel} {older : List Int} {child ebp : Int}
    {first last : Machine} {trace : List (Transition Machine Event Reply)}
    (waits : Waits before older child ebp first.kernel)
    (run : Run (Machine.step platform) first trace last)
    (stays : ∀ transition ∈ trace, transition.after.kernel.live child) :
    Waits before older child ebp last.kernel ∧
      ∀ transition ∈ trace, Waits before older child ebp transition.before.kernel := by
  refine run.guarded (fun machine => Waits before older child ebp machine.kernel)
    (fun machine event => ∀ next reply, machine.step platform event = some (next, reply) →
      next.kernel.live child) ?_ waits ?_
  · intro state next event reply holds keeps fired
    exact holds.step (Machine.step_kernel fired) (keeps next reply fired)
  · intro transition member next reply fired
    have same := (run.reached member).2.symm.trans fired
    obtain ⟨rfl, -⟩ := Prod.mk.inj (Option.some.inj same)
    exact stays transition member

end Kernel

/-- An `execute` that starts a child returns exactly when the child ends: to the same
terminal and stack, with the caller's control block and memory as they were, and
with the caller on no terminal in between. -/
theorem Launched.execute_returns {platform : Platform} {start machine : Machine}
    {earlier middle later : List (Transition Machine Event Reply)}
    {call finish : Transition Machine Event Reply} {command : CString} {frame : StackFrame}
    {eip : Nat} (began : Launched platform start)
    (run : Run (Machine.step platform) start (earlier ++ call :: (middle ++ finish :: later))
      machine)
    (calls : call.event = .execute command frame) (entered : call.reply = .enter eip)
    (stays : ∀ transition ∈ middle,
      transition.after.kernel.live call.after.kernel.running.processNum)
    (gone : ¬ finish.after.kernel.live call.after.kernel.running.processNum) :
    Kernel.Returns call.before.kernel call.after.kernel.running.processNum frame.ebp
        finish.before.kernel finish.event (finish.after.kernel, finish.reply) ∧
      ∀ transition ∈ middle, ∀ terminal,
        (transition.before.kernel.schedArr terminal).processNum ≠
          call.before.kernel.running.processNum := by
  obtain ⟨middleStart, before, after⟩ := run.parts
  obtain ⟨rfl, fired, rest⟩ := after.first
  obtain ⟨inner, ended⟩ := rest.split
  have follows := began.follows_run before
  have step := Machine.step_kernel fired
  rw [calls, entered] at step
  obtain ⟨older, waits⟩ := follows.waits step rfl
  obtain ⟨last, between⟩ := waits.run inner stays
  refine ⟨last.returns follows (Machine.step_kernel ended) gone, ?_⟩
  intro transition member terminal current
  obtain ⟨tree, newer, followed, shape⟩ := (between transition member).stacked
  refine followed.distinct.waits shape List.mem_cons_self terminal ?_
  rw [← current]
  exact followed.chained.runs.current terminal

namespace Sample

/-! A shell starts a shell that starts another; the last two halt. -/

def again : Event := .execute shellName frame

theorem called_fires : (start.step platform again).isSome = true := by decide +kernel

def called : Transition Machine Event Reply := fire start again called_fires

theorem nested_fires : (called.after.step platform again).isSome = true := by decide +kernel

def nested : Transition Machine Event Reply := fire called.after again nested_fires

theorem unnested_fires : (nested.after.step platform (.halt 7)).isSome = true := by
  decide +kernel

def unnested : Transition Machine Event Reply := fire nested.after (.halt 7) unnested_fires

theorem finished_fires : (unnested.after.step platform (.halt 9)).isSome = true := by
  decide +kernel

def finished : Transition Machine Event Reply := fire unnested.after (.halt 9) finished_fires

theorem called_enters : ∃ eip, called.reply = .enter eip := by
  have fired : start.call (Kernel.execute platform shellName frame) = _ :=
    fire_eq start again called_fires
  have body := (Machine.call_eq_some fired).2
  obtain refused | ⟨-, slot, memory, eip, -, started⟩ :=
    Kernel.execute_outcome platform shellName frame launched.sound
  · have same : called.after.kernel.processNum = start.kernel.processNum :=
      congrArg (fun result => result.1.processNum) (body.symm.trans refused)
    exact absurd same (by decide +kernel)
  · exact ⟨eip, congrArg Prod.snd (body.symm.trans started)⟩

end Sample

theorem execute_returns_sample :
    Kernel.Returns Sample.start.kernel Sample.called.after.kernel.running.processNum 0
      Sample.unnested.after.kernel (.halt 9)
      (Sample.finished.after.kernel, Sample.finished.reply) := by
  obtain ⟨eip, entered⟩ := Sample.called_enters
  have run : Run (Machine.step Sample.platform) Sample.start
      ([] ++ Sample.called :: ([Sample.nested, Sample.unnested] ++ Sample.finished :: []))
      Sample.finished.after :=
    ((Sample.fire_twice Sample.start Sample.again Sample.again Sample.called_fires
      Sample.nested_fires).snoc (Sample.fire_eq _ _ Sample.unnested_fires)).snoc
        (Sample.fire_eq _ _ Sample.finished_fires)
  refine (Sample.launched.execute_returns run rfl entered ?_ (by decide +kernel)).1
  intro transition member
  simp only [List.mem_cons, List.not_mem_nil, or_false] at member
  rcases member with rfl | rfl
  · decide +kernel
  · decide +kernel

end Ece391Os
