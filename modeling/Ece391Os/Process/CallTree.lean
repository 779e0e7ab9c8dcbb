import Ece391Os.Data.CallStack
import Ece391Os.Process.Steps

namespace Ece391Os

open Data

/-! The process manager in its own terms: three stacks of programs, of which a
program starts by being called and ends by returning to its caller.  It sees the
calls and their answers, and nothing of the kernel's tables. -/

structure CallTree where
  chains : Fin 3 → List Int
  turn : Fin 3

/-- The least pid that no program has. -/
def lowestFree (chains : Fin 3 → List Int) : Option Int :=
  ((List.range maxProgs).find? fun (i : Nat) =>
    ∀ terminal, (i : Int) + 1 ∉ chains terminal).map fun i => (i : Int) + 1

namespace CallTree

def launched : CallTree := ⟨fun terminal => [baseShell terminal], 0⟩

def move (tree : CallTree) : Event → Reply → Move (Fin 3) Int
  | .execute _ _, .enter _ => (lowestFree tree.chains).elim .stay (.call tree.turn)
  | .halt _, .resume _ | .exception _, .resume _ => .leave tree.turn
  | _, _ => .stay

def after (tree : CallTree) (event : Event) (reply : Reply) : CallTree where
  chains := (tree.move event reply).apply tree.chains
  turn := if event.isTick then tree.turn + 1 else tree.turn

def replay (trace : List (Transition Machine Event Reply)) : CallTree :=
  trace.foldl (fun tree transition => tree.after transition.event transition.reply) launched

theorem replay_snoc (trace : List (Transition Machine Event Reply))
    (transition : Transition Machine Event Reply) :
    replay (trace ++ [transition]) =
      (replay trace).after transition.event transition.reply :=
  List.foldl_concat ..

end CallTree

theorem lowestFree_eq {kernel : Kernel} {chains : Fin 3 → List Int} {slot : Nat}
    (chained : kernel.Chained chains) (found : findSlot kernel.processArray = some slot) :
    lowestFree chains = some ((slot : Int) + 1) := by
  have taken {i : Nat} (inside : i < maxProgs) :
      (∀ terminal, (i : Int) + 1 ∉ chains terminal) ↔ kernel.processArray i = -1 := by
    have small : i < 6 := inside
    have used := chained.holds.used ((i : Int) + 1)
    rw [Int.add_sub_cancel] at used
    constructor
    · intro free
      by_contra occupied
      obtain ⟨terminal, member⟩ := used.mpr ⟨by omega, occupied⟩
      exact free terminal member
    · intro free terminal member
      exact (used.mp ⟨terminal, member⟩).2 free
  obtain ⟨free, inside, earlier⟩ := List.find?_range_eq_some.mp found
  have below := List.mem_range.mp inside
  have least : ((List.range maxProgs).find? fun (i : Nat) =>
      ∀ terminal, (i : Int) + 1 ∉ chains terminal) = some slot := by
    refine List.find?_range_eq_some.mpr ⟨?_, inside, ?_⟩
    · simpa [taken below] using free
    · intro i smaller
      simpa only [taken (Nat.lt_trans smaller below)] using earlier i smaller
  rw [lowestFree, least]
  rfl

/-- The tables of a kernel hold what a call tree says. -/
structure Kernel.Follows (kernel : Kernel) (tree : CallTree) : Prop where
  chained : kernel.Chained tree.chains
  turn : kernel.curSchedTerm = tree.turn

namespace Kernel.Follows

variable {platform : Platform} {kernel kernel' : Kernel} {tree : CallTree} {event : Event}
  {reply : Reply}

theorem distinct (follows : kernel.Follows tree) : Move.Distinct tree.chains :=
  ⟨follows.chained.holds.forest.nodup, follows.chained.holds.forest.disjoint⟩

theorem live_iff (follows : kernel.Follows tree) (pid : Int) :
    kernel.live pid ↔ ∃ terminal, pid ∈ tree.chains terminal :=
  (follows.chained.holds.used pid).symm

theorem top (follows : kernel.Follows tree) :
    (tree.chains tree.turn).head? = some kernel.running.processNum := by
  rw [← follows.turn]
  exact follows.chained.runs.current kernel.curSchedTerm

theorem shape (follows : kernel.Follows tree) :
    ∃ older, tree.chains tree.turn = kernel.running.processNum :: older :=
  List.head?_eq_some_iff.mp follows.top

theorem stay (follows : kernel.Follows tree) (effect : PlainEffect platform kernel kernel')
    (ticks : event.isTick = false)
    (still : tree.move event reply = .stay) :
    (tree.move event reply).Fits tree.chains ∧ kernel'.Follows (tree.after event reply) := by
  refine ⟨by rw [still]; exact .stay, ?_, ?_⟩
  · simp only [CallTree.after, still, Move.apply]
    exact follows.chained.congr effect.processView
  · simp only [CallTree.after, ticks]
    exact (congrArg ProcessView.curSchedTerm effect.processView).trans follows.turn

theorem execute (follows : kernel.Follows tree) (command : CString) (frame : StackFrame) :
    (tree.move (.execute command frame) (kernel.execute platform command frame).2).Fits
        tree.chains ∧
      (kernel.execute platform command frame).1.Follows
        (tree.after (.execute command frame) (kernel.execute platform command frame).2) := by
  rcases execute_outcome platform command frame follows.chained.sound with
    refused | ⟨_, slot, memory, eip, found, succeeded⟩
  · rw [refused]
    exact ⟨.stay, follows.chained, follows.turn⟩
  · have lowest := lowestFree_eq follows.chained found
    have called : tree.move (.execute command frame) (.enter eip) =
        .call tree.turn ((slot : Int) + 1) := by
      simp [CallTree.move, lowest]
    have free := (findSlot_some found).2
    have passes := started_passes command frame memory follows.chained found
    rw [succeeded]
    refine ⟨?_, ?_, follows.turn⟩
    · rw [called]
      refine .call fun terminal member => ?_
      have used := ((follows.live_iff _).mpr ⟨terminal, member⟩).2
      rw [Int.add_sub_cancel] at used
      exact used free
    · simp only [CallTree.after, called]
      rw [← follows.turn]
      exact passes.chained

theorem terminated (follows : kernel.Follows tree) (console : Console)
    (child : ¬ isBaseShell kernel.running.processNum) (ticks : event.isTick = false)
    (leaves : tree.move event reply = .leave tree.turn) :
    (tree.move event reply).Fits tree.chains ∧
      (kernel.terminated (kernel.currentPcb platform) console).Follows
        (tree.after event reply) := by
  obtain ⟨older, full⟩ := chain_of_child follows.chained.holds
    (follows.chained.runs.current kernel.curSchedTerm) child
  have passes : Passes kernel event _ _ _ := terminated_passes console follows.chained full
  rw [(currentPcb_running platform follows.chained.sound).1, leaves, ← follows.turn]
  refine ⟨.leave full, ?_, ?_⟩
  · simp only [CallTree.after, leaves, ← follows.turn, Move.apply, full, List.tail_cons]
    exact passes.chained
  · simp only [CallTree.after, ticks]
    exact follows.turn

theorem halt (follows : kernel.Follows tree) (status : UInt8) :
    (tree.move (.halt status) (kernel.halt platform status).2).Fits tree.chains ∧
      (kernel.halt platform status).1.Follows
        (tree.after (.halt status) (kernel.halt platform status).2) := by
  obtain ⟨address, own⟩ := currentPcb_running platform follows.chained.sound
  have named : (kernel.pcbAt (kernel.currentPcb platform)).pid =
      kernel.running.processNum := by
    rw [address]
    exact own
  by_cases base : isBaseShell kernel.running.processNum
  · rw [halt_base status (by rwa [named])]
    exact ⟨.stay, follows.chained, follows.turn⟩
  · rw [← named] at base
    obtain ⟨console, _, halted⟩ := halt_eq status base
    rw [named] at base
    rw [halted]
    exact follows.terminated console base rfl rfl

theorem tick (follows : kernel.Follows tree) (esp ebp : Int) :
    (tree.move (.tick esp ebp) (kernel.pitInterruptHandler esp ebp).2).Fits tree.chains ∧
      (kernel.pitInterruptHandler esp ebp).1.Follows
        (tree.after (.tick esp ebp) (kernel.pitInterruptHandler esp ebp).2) := by
  obtain ⟨mask, switched⟩ := pitInterruptHandler_eq esp ebp follows.chained.runs.active
  obtain ⟨holds, runs⟩ := chains_ticked esp ebp mask follows.chained.holds follows.chained.runs
  rw [switched]
  refine ⟨.stay, ⟨holds, runs⟩, ?_⟩
  rw [CallTree.after, ← follows.turn]
  rfl

end Kernel.Follows

theorem Kernel.Step.follows {platform : Platform} {kernel : Kernel} {tree : CallTree}
    {event : Event} {result : Kernel × Reply} (fired : Step platform kernel event result)
    (follows : kernel.Follows tree) :
    (tree.move event result.2).Fits tree.chains ∧
      result.1.Follows (tree.after event result.2) := by
  have effect := fired.plain_effect
  cases fired with
  | halt status => exact follows.halt status
  | execute command frame => exact follows.execute command frame
  | exception vector child =>
      obtain ⟨console, _, ended⟩ := exceptionHandler_eq platform vector kernel
      rw [(currentPcb_running platform follows.chained.sound).1] at child
      rw [ended]
      exact follows.terminated console
        (fun base => child ((running_orphan_iff follows.chained.sound).mpr base)) rfl rfl
  | tick esp ebp => exact follows.tick esp ebp
  | _ => exact follows.stay (effect rfl) rfl rfl

theorem Launched.follows {platform : Platform} {machine : Machine}
    (began : Launched platform machine) : machine.kernel.Follows .launched := by
  obtain ⟨holds, runs⟩ := began.chains
  obtain ⟨kernel, frame, entryPoint, memory, booted, result⟩ := began.eq
  refine ⟨⟨holds, runs⟩, ?_⟩
  rw [result]
  exact booted.scheduler.2.1

theorem Launched.follows_run {platform : Platform} {start machine : Machine}
    {trace : List (Transition Machine Event Reply)} (began : Launched platform start)
    (run : Run (Machine.step platform) start trace machine) :
    machine.kernel.Follows (CallTree.replay trace) := by
  induction run with
  | nil => exact began.follows
  | snoc before fired induction =>
      rw [CallTree.replay_snoc]
      exact ((Machine.step_kernel fired).follows induction).2

/-- The process manager refines the call tree: whatever happened, the tables are
those the answers given so far determine, every program was started under a pid
that none had, and none ended without a caller to return to. -/
theorem Launched.refinesCallTree {platform : Platform} {start machine : Machine}
    {trace : List (Transition Machine Event Reply)} (began : Launched platform start)
    (run : Run (Machine.step platform) start trace machine) :
    machine.kernel.Follows (CallTree.replay trace) ∧
      ∀ earlier transition later, trace = earlier ++ transition :: later →
        ((CallTree.replay earlier).move transition.event transition.reply).Fits
          (CallTree.replay earlier).chains := by
  refine ⟨began.follows_run run, ?_⟩
  intro earlier transition later whole
  subst whole
  obtain ⟨before, fired⟩ := run.split
  exact ((Machine.step_kernel fired).follows (began.follows_run before)).1

theorem refinesCallTree_sample :
    ∃ trace, trace.map Transition.event = [Event.execute shellName Sample.frame, .tick 0 0,
        .execute shellName Sample.frame, .tick 0 0, .tick 0 0, .halt 3] ∧
      (Sample.after [.execute shellName Sample.frame, .tick 0 0,
        .execute shellName Sample.frame, .tick 0 0, .tick 0 0, .halt 3]
        (by decide +kernel)).kernel.Follows (CallTree.replay trace) := by
  obtain ⟨trace, run, events⟩ := Sample.runs [Event.execute shellName Sample.frame, .tick 0 0,
    .execute shellName Sample.frame, .tick 0 0, .tick 0 0, .halt 3] (by decide +kernel)
  exact ⟨trace, events, (Sample.launched.refinesCallTree run).1⟩

end Ece391Os
