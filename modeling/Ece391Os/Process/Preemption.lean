import Ece391Os.Process.Admission

namespace Ece391Os

open Data

/-! `halt` under preemption.  Interrupts stay enabled all through it, so each of
its statements is a step of its own, with anything the other terminals do
between two of them. -/

inductive HaltStatement where
  | closeAll
  | dropProcess
  | freeSlot
  | restoreTss
  | restorePid
  | restoreEsp
  | restoreEbp
  | remapParent
  | releaseVidmap
  | resume
  deriving DecidableEq, Repr

namespace HaltStatement

def rank : HaltStatement → Nat
  | closeAll => 0
  | dropProcess => 1
  | freeSlot => 2
  | restoreTss => 3
  | restorePid => 4
  | restoreEsp => 5
  | restoreEbp => 6
  | remapParent => 7
  | releaseVidmap => 8
  | resume => 9

def next : HaltStatement → Option HaltStatement
  | closeAll => some dropProcess
  | dropProcess => some freeSlot
  | freeSlot => some restoreTss
  | restoreTss => some restorePid
  | restorePid => some restoreEsp
  | restoreEsp => some restoreEbp
  | restoreEbp => some remapParent
  | remapParent => some releaseVidmap
  | releaseVidmap => some resume
  | resume => none

/-- Execute one statement; `resume` only leaves for the parent's stack. -/
def run (address : Nat) : HaltStatement → Kernel → Kernel
  | closeAll => Kernel.closeAll address
  | dropProcess => Kernel.dropProcess
  | freeSlot => Kernel.freeSlot address
  | restoreTss => Kernel.restoreTss address
  | restorePid => Kernel.restorePid address
  | restoreEsp => Kernel.restoreEsp address
  | restoreEbp => Kernel.restoreEbp address
  | remapParent => Kernel.remapParent address
  | releaseVidmap => Kernel.releaseVidmap address
  | resume => id

/-- The statements in order are `halt`. -/
theorem halt_eq_run {platform : Platform} {kernel : Kernel} (status : UInt8)
    (child : ¬ Kernel.isBaseShell (kernel.pcbAt (kernel.currentPcb platform)).pid) :
    (kernel.halt platform status).1 =
      [closeAll, dropProcess, freeSlot, restoreTss, restorePid, restoreEsp, restoreEbp,
        remapParent, releaseVidmap, resume].foldl
        (fun after statement => statement.run (kernel.currentPcb platform) after)
        kernel := by
  rw [Kernel.halt, if_neg child]
  rfl

end HaltStatement

/-- A `halt` under way: its `cur_pcb`, the next statement, and, as a record of
what it should read, the control block when it began. -/
structure Halting where
  status : UInt8
  address : Nat
  next : HaltStatement
  entry : Pcb

def Halting.advance (halting : Halting) : Option Halting :=
  halting.next.next.map fun statement => { halting with next := statement }

structure Preemption where
  admission : Admission
  halting : Fin 3 → Option Halting

namespace Preemption

inductive Event where
  | haltBegin (status : UInt8)
  | haltStep
  | other (event : Admission.Event)

def kernel (state : Preemption) : Kernel := state.admission.kernel

def current (state : Preemption) : Option Halting :=
  state.halting state.kernel.curSchedTerm

def setCurrent (halting : Option Halting) (state : Preemption) : Preemption :=
  { state with
    halting := Function.update state.halting state.kernel.curSchedTerm halting }

def withKernel (kernel : Kernel) (state : Preemption) : Preemption :=
  { state with
    admission := { state.admission with
      machine := { state.admission.machine with kernel := kernel } } }

/-- `halt` up to its first statement, which a base shell never reaches. -/
def haltBegin (platform : Platform) (status : UInt8) (state : Preemption) :
    Option (Preemption × Option Reply) :=
  let kernel := state.kernel
  let address := kernel.currentPcb platform
  if (state.admission.machine.blocked kernel.curSchedTerm).isSome ∨
      state.admission.pending.isSome ∨ state.current.isSome then
    none
  else if Kernel.isBaseShell (kernel.pcbAt address).pid then
    some (state, some (.enter kernel.programAddrTest))
  else
    some (state.setCurrent
      (some ⟨status, address, .closeAll, kernel.pcbAt address⟩), none)

def haltStep (state : Preemption) : Option (Preemption × Option Reply) :=
  match state.current with
  | none => none
  | some halting =>
      some ((state.setCurrent halting.advance).withKernel
          (halting.next.run halting.address state.kernel),
        if halting.next = .resume then some (.resume halting.status.toNat) else none)

def other (platform : Platform) (event : Admission.Event) (state : Preemption) :
    Option (Preemption × Option Reply) :=
  if event.isHalt ∨ (event.isCall ∧ state.current.isSome) then none
  else
    match state.admission.step platform event with
    | none => none
    | some (admission, reply) => some ({ state with admission := admission }, reply)

def step (platform : Platform) (state : Preemption) :
    Event → Option (Preemption × Option Reply)
  | .haltBegin status => state.haltBegin platform status
  | .haltStep => state.haltStep
  | .other event => state.other platform event

end Preemption

/-! What holds between two statements of any `halt`. -/

def ProcessView.Block (view : ProcessView) (address : Nat) (entry : Pcb) : Prop :=
  view.pid address = entry.pid ∧ view.parentPid address = entry.parentPid ∧
    view.parentEsp address = entry.parentEsp ∧ view.parentEbp address = entry.parentEbp

theorem ProcessView.Block.congr {view view' : ProcessView} {address : Nat} {entry : Pcb}
    (own : view.Block address entry) (pid : view'.pid = view.pid)
    (parentPid : view'.parentPid = view.parentPid)
    (parentEsp : view'.parentEsp = view.parentEsp)
    (parentEbp : view'.parentEbp = view.parentEbp) : view'.Block address entry := by
  simpa only [Block, pid, parentPid, parentEsp, parentEbp] using own

/-- A `halt` under way in a terminal with the given processes and scheduler
entry.  Until its slot is freed the process counts as the terminal's youngest;
from then on its parent does. -/
structure Halting.Holds (view : ProcessView) (chain : List Int) (current : Int)
    (halting : Halting) : Prop where
  address : halting.address = pcbAddr halting.entry.pid
  range : 1 ≤ halting.entry.pid ∧ halting.entry.pid ≤ 6
  own : view.Block halting.address halting.entry
  parentEsp : halting.entry.parentEsp = stackTop halting.entry.parentPid
  live : halting.next.rank ≤ 2 →
    ∃ older, chain = halting.entry.pid :: halting.entry.parentPid :: older
  freed : 2 < halting.next.rank → chain.head? = some halting.entry.parentPid ∧
    view.processArray (halting.entry.pid - 1) = -1
  current : current =
    if halting.next.rank ≤ 4 then halting.entry.pid else halting.entry.parentPid

/-- The process whose kernel stack `tss.esp0` names.  Between its assignments of
`tss.esp0` and of the scheduler's pid, `halt` is ahead of the scheduler. -/
def stackOwner (halting : Option Halting) (current : Int) : Int :=
  match halting with
  | none => current
  | some halting =>
      if halting.next = .restorePid then halting.entry.parentPid else current

/-- How many of a terminal's processes `process_num` counts. -/
def weight (chain : List Int) (halting : Option Halting) : Int :=
  match halting with
  | none => chain.length
  | some halting => chain.length - if halting.next = .freeSlot then 1 else 0

/-- The processor is set up for the running terminal; `halt` maps the parent's
page only after it has switched the scheduler's pid. -/
structure ProcessView.Ready (view : ProcessView) (halting : Option Halting) : Prop where
  stack : view.tssEsp0 =
    u32 (stackTop (stackOwner halting (view.current view.curSchedTerm)))
  page : view.progEntry = userEntry (view.current view.curSchedTerm) ∨
    ∃ under, halting = some under ∧ 5 ≤ under.next.rank ∧ under.next.rank ≤ 7 ∧
      view.progEntry = userEntry under.entry.pid

structure ProcessView.Preempted (view : ProcessView) (halting : Fin 3 → Option Halting)
    (chains : Fin 3 → List Int) : Prop where
  holds : view.Holds chains
  active : view.prevSchedTerm ≠ none
  idle : ∀ terminal, halting terminal = none →
    (chains terminal).head? = some (view.current terminal)
  busy : ∀ terminal under, halting terminal = some under →
    under.Holds view (chains terminal) (view.current terminal)
  window : ∀ terminal under, halting terminal = some under →
    under.next = .restorePid → terminal = view.curSchedTerm
  ready : view.Ready (halting view.curSchedTerm)
  counted : view.processNum = weight (chains 0) (halting 0) +
    weight (chains 1) (halting 1) + weight (chains 2) (halting 2)

namespace ProcessView.Preempted

variable {view view' : ProcessView} {halting : Fin 3 → Option Halting}
  {chains chains' : Fin 3 → List Int}

theorem weight_pos (preempted : view.Preempted halting chains) (terminal : Fin 3) :
    0 < weight (chains terminal) (halting terminal) := by
  have member := preempted.holds.forest.root_mem terminal
  have length : 0 < (chains terminal).length := List.length_pos_of_mem member
  cases found : halting terminal with
  | none =>
      simp only [weight]
      omega
  | some under =>
      simp only [weight]
      split
      · rename_i dropping
        have rank : under.next.rank ≤ 2 := by
          rw [dropping]
          decide
        obtain ⟨older, shape⟩ := (preempted.busy terminal under found).live rank
        rw [shape]
        simp only [List.length_cons]
        omega
      · omega

theorem processNum_pos (preempted : view.Preempted halting chains) :
    0 < view.processNum := by
  have first := preempted.weight_pos 0
  have second := preempted.weight_pos 1
  have third := preempted.weight_pos 2
  have counted := preempted.counted
  omega

theorem ready_busy {under : Halting} (preempted : view.Preempted halting chains)
    (busy : halting view.curSchedTerm = some under) : view.Ready (some under) := by
  have ready := preempted.ready
  rwa [busy] at ready

theorem sum_replace {before after : Fin 3 → Int} (place : Fin 3)
    (same : ∀ other, other ≠ place → after other = before other) :
    after 0 + after 1 + after 2 =
      before 0 + before 1 + before 2 + after place - before place := by
  match place with
  | 0 =>
      rw [same 1 (by decide), same 2 (by decide)]
      omega
  | 1 =>
      rw [same 0 (by decide), same 2 (by decide)]
      omega
  | 2 =>
      rw [same 0 (by decide), same 1 (by decide)]
      omega

/-- A step of the running terminal that keeps what the halts of the others read. -/
theorem modify (preempted : view.Preempted halting chains) {new : Option Halting}
    (holds : view'.Holds chains')
    (running : view'.curSchedTerm = view.curSchedTerm)
    (active : view'.prevSchedTerm = view.prevSchedTerm)
    (others : ∀ terminal, terminal ≠ view.curSchedTerm →
      chains' terminal = chains terminal ∧ view'.current terminal = view.current terminal)
    (blocks : ∀ terminal under, terminal ≠ view.curSchedTerm →
      halting terminal = some under → view'.Block under.address under.entry)
    (slots : ∀ terminal under, terminal ≠ view.curSchedTerm →
      halting terminal = some under → view.processArray (under.entry.pid - 1) = -1 →
      view'.processArray (under.entry.pid - 1) = -1)
    (idle : new = none → (chains' view.curSchedTerm).head? =
      some (view'.current view.curSchedTerm))
    (busy : ∀ under, new = some under → under.Holds view' (chains' view.curSchedTerm)
      (view'.current view.curSchedTerm))
    (ready : view'.Ready new)
    (counted : view'.processNum = view.processNum +
      weight (chains' view.curSchedTerm) new -
        weight (chains view.curSchedTerm) (halting view.curSchedTerm)) :
    view'.Preempted (Function.update halting view.curSchedTerm new) chains' := by
  refine ⟨holds, active ▸ preempted.active, ?_, ?_, ?_, ?_, ?_⟩
  · intro terminal absent
    by_cases here : terminal = view.curSchedTerm
    · subst here
      exact idle (by rwa [Function.update_self] at absent)
    · rw [Function.update_of_ne here] at absent
      rw [(others terminal here).1, (others terminal here).2]
      exact preempted.idle terminal absent
  · intro terminal under found
    by_cases here : terminal = view.curSchedTerm
    · subst here
      exact busy under (by rwa [Function.update_self] at found)
    · rw [Function.update_of_ne here] at found
      have old := preempted.busy terminal under found
      rw [(others terminal here).1, (others terminal here).2]
      exact ⟨old.address, old.range, blocks terminal under here found, old.parentEsp,
        old.live, fun late => ⟨(old.freed late).1,
          slots terminal under here found (old.freed late).2⟩, old.current⟩
  · intro terminal under found atWindow
    by_cases here : terminal = view.curSchedTerm
    · rw [here, running]
    · rw [Function.update_of_ne here] at found
      exact absurd (preempted.window terminal under found atWindow) here
  · rw [running, Function.update_self]
    exact ready
  · have total := sum_replace view.curSchedTerm
      (fun terminal different => by
        rw [(others terminal different).1, Function.update_of_ne different] :
        ∀ terminal, terminal ≠ view.curSchedTerm →
          weight (chains' terminal)
              (Function.update halting view.curSchedTerm new terminal) =
            weight (chains terminal) (halting terminal))
    simp only [Function.update_self] at total
    have before := preempted.counted
    omega

end ProcessView.Preempted

/-! What each step keeps. -/

namespace Kernel

variable {kernel : Kernel} {halting : Fin 3 → Option Halting}
  {chains : Fin 3 → List Int}

theorem block_congr {kernel' : Kernel} {address : Nat} {entry : Pcb}
    (same : kernel'.pcbAt address = kernel.pcbAt address)
    (own : kernel.processView.Block address entry) :
    kernel'.processView.Block address entry := by
  simpa only [ProcessView.Block, processView, same] using own

theorem preempted_started {frame : StackFrame} {slot : Nat} (command : CString)
    (memory : Memory) (preempted : kernel.processView.Preempted halting chains)
    (found : findSlot kernel.processArray = some slot)
    (free : halting kernel.curSchedTerm = none)
    (unclaimed : ∀ terminal under, halting terminal = some under →
      under.entry.pid ≠ slot + 1) :
    ∃ chains', ((kernel.claimSlot frame.pcb.pid).2.started
      (childPcb frame command (kernel.claimSlot frame.pcb.pid).1
        kernel.running.processNum) memory).processView.Preempted halting chains' := by
  have top := preempted.idle _ free
  have holds := holds_started command frame memory preempted.holds top found
  obtain ⟨inside, -⟩ := findSlot_some found
  rw [claimSlot_some _ found] at holds ⊢
  have unchanged : halting = Function.update halting kernel.curSchedTerm none := by
    rw [← free, Function.update_eq_self]
  rw [unchanged]
  refine ⟨_, preempted.modify holds rfl rfl ?_ ?_ ?_ ?_ ?_ ?_ ?_⟩
  · intro terminal here
    have apart : terminal ≠ kernel.curSchedTerm := here
    simp [processView, started, apart]
  · intro terminal under here busy
    have old := preempted.busy terminal under busy
    have range := old.range
    have apart : under.address ≠
        pcbAddr (childPcb frame command (slot + 1) kernel.running.processNum).pid := by
      rw [old.address]
      intro same
      have bounds : 1 ≤ (slot : Int) + 1 ∧ (slot : Int) + 1 ≤ 6 := by
        simp only [maxProgs] at inside
        omega
      exact unclaimed terminal under busy
        (pcbAddr_injective range.1 range.2 bounds.1 bounds.2 same)
    refine block_congr ?_ old.own
    rw [started_pcbAt, Function.update_of_ne apart]
  · intro terminal under here busy freed
    have different : under.entry.pid - 1 ≠ slot := by
      have := unclaimed terminal under busy
      omega
    simpa [processView, started, different] using freed
  · intro _
    simp [processView, started, childPcb]
  · intro _ impossible
    cases impossible
  · refine ⟨?_, .inl ?_⟩
    · simp [processView, started, childPcb, stackOwner]
    · simp [processView, started, childPcb, userEntry]
  · have counted : weight (Function.update chains kernel.curSchedTerm
          (((slot : Int) + 1) :: chains kernel.curSchedTerm) kernel.curSchedTerm) none =
        weight (chains kernel.curSchedTerm) (halting kernel.curSchedTerm) + 1 := by
      rw [free, Function.update_self]
      simp [weight]
    simp only [processView, started]
    omega

theorem preempted_ticked (esp ebp : Int) (mask : BitVec 8)
    (preempted : kernel.processView.Preempted halting chains)
    (outside : ∀ under, halting kernel.curSchedTerm = some under →
      under.next ≠ .restorePid) :
    (kernel.ticked esp ebp mask).processView.Preempted halting chains := by
  have current : (kernel.ticked esp ebp mask).processView.current =
      kernel.processView.current := value_update SchedNode.processNum rfl
  have settled : ∀ terminal under, halting terminal = some under →
      under.next ≠ .restorePid := by
    intro terminal under found atWindow
    obtain rfl := preempted.window terminal under found atWindow
    exact outside under found atWindow
  refine ⟨⟨preempted.holds.forest, preempted.holds.used, preempted.holds.pid,
    preempted.holds.parentEsp, preempted.holds.orphan⟩, Option.some_ne_none _, ?_, ?_, ?_,
    ⟨?_, ?_⟩, preempted.counted⟩
  · intro terminal absent
    rw [current]
    exact preempted.idle terminal absent
  · intro terminal under found
    have old := preempted.busy terminal under found
    rw [current]
    exact ⟨old.address, old.range, old.own, old.parentEsp, old.live, old.freed, old.current⟩
  · intro terminal under found atWindow
    exact absurd atWindow (settled terminal under found)
  · have owner : stackOwner (halting (kernel.curSchedTerm + 1))
          (kernel.processView.current (kernel.curSchedTerm + 1)) =
        kernel.processView.current (kernel.curSchedTerm + 1) := by
      cases found : halting (kernel.curSchedTerm + 1) with
      | none => rfl
      | some under => simp [stackOwner, settled _ under found]
    rw [current]
    exact congrArg (fun pid => u32 (stackTop pid)) owner.symm
  · left
    rw [current]
    by_cases mapped : (kernel.schedArr (kernel.curSchedTerm + 1)).vidMap = 1 <;>
      simp [processView, ticked, scheduledPages, mapped, PageTables.setPageTable1Entry,
        PageTables.setPageTable2Entry, userEntry]

theorem preempted_free (platform : Platform)
    (preempted : kernel.processView.Preempted halting chains)
    (free : halting kernel.curSchedTerm = none) :
    (chains kernel.curSchedTerm).head? = some kernel.running.processNum ∧
      kernel.currentPcb platform = pcbAddr kernel.running.processNum ∧
      1 ≤ kernel.running.processNum ∧ kernel.running.processNum ≤ 6 := by
  have top : (chains kernel.curSchedTerm).head? = some kernel.running.processNum :=
    preempted.idle _ free
  obtain ⟨lower, upper⟩ := preempted.holds.range (List.mem_of_mem_head? top)
  have stack := preempted.ready.stack
  have owner : halting kernel.processView.curSchedTerm = none := free
  rw [owner] at stack
  exact ⟨top, currentPcb_eq stack lower upper, lower, upper⟩

theorem preempted_terminated {platform : Platform} (console : Console)
    (preempted : kernel.processView.Preempted halting chains)
    (free : halting kernel.curSchedTerm = none)
    (child : ¬ isBaseShell kernel.running.processNum) :
    ∃ chains', (kernel.terminated (kernel.currentPcb platform)
      console).processView.Preempted halting chains' := by
  obtain ⟨top, address, lower, upper⟩ := preempted_free platform preempted free
  set pid := kernel.running.processNum with pidDef
  obtain ⟨older, shape⟩ := chain_of_child preempted.holds top child
  have inside : pid ∈ chains kernel.curSchedTerm := by simp [shape]
  have own : (kernel.pcbAt (pcbAddr pid)).pid = pid := preempted.holds.pid _ _ inside
  have young : pid ≠ baseShell kernel.curSchedTerm := fun base =>
    child ((preempted.holds.isBaseShell_iff inside).mpr base)
  have parentEsp : (kernel.pcbAt (pcbAddr pid)).parentEsp =
      stackTop (kernel.pcbAt (pcbAddr pid)).parentPid :=
    preempted.holds.parentEsp _ _ inside young
  have unchanged : halting = Function.update halting kernel.curSchedTerm none := by
    rw [← free, Function.update_eq_self]
  rw [unchanged, address]
  refine ⟨_, preempted.modify (holds_terminated console preempted.holds shape) rfl rfl
    ?_ ?_ ?_ ?_ ?_ ?_ ?_⟩
  · intro terminal here
    have apart : terminal ≠ kernel.curSchedTerm := here
    simp [processView, terminated, apart]
  · intro terminal under here busy
    exact (preempted.busy terminal under busy).own.congr (value_update Pcb.pid rfl)
      (value_update Pcb.parentPid rfl) (value_update Pcb.parentEsp rfl)
      (value_update Pcb.parentEbp rfl)
  · intro terminal under here busy freed
    by_cases same : under.entry.pid - 1 = pid - 1
    · simp [processView, terminated, own, same]
    · simpa [processView, terminated, own, same] using freed
  · intro _
    simp [processView, terminated, parentNode, parentOf, pcb]
  · intro _ impossible
    cases impossible
  · refine ⟨?_, .inl ?_⟩
    · simp [processView, terminated, parentNode, parentEsp, stackOwner]
    · simp [processView, terminated, parentNode, userEntry]
  · have counted : weight (Function.update chains kernel.curSchedTerm
          (kernel.parentOf pid :: older) kernel.curSchedTerm) none + 1 =
        weight (chains kernel.curSchedTerm) (halting kernel.curSchedTerm) := by
      rw [free, Function.update_self, shape]
      simp [weight]
    simp only [processView, terminated]
    omega

theorem preempted_begin {platform : Platform} (status : UInt8)
    (preempted : kernel.processView.Preempted halting chains)
    (free : halting kernel.curSchedTerm = none)
    (child : ¬ isBaseShell (kernel.pcbAt (kernel.currentPcb platform)).pid) :
    kernel.processView.Preempted
      (Function.update halting kernel.curSchedTerm
        (some ⟨status, kernel.currentPcb platform, .closeAll,
          kernel.pcbAt (kernel.currentPcb platform)⟩)) chains := by
  obtain ⟨top, address, range⟩ := preempted_free platform preempted free
  rw [address] at child ⊢
  have inside := List.mem_of_mem_head? top
  have own : (kernel.pcbAt (pcbAddr kernel.running.processNum)).pid =
      kernel.running.processNum := preempted.holds.pid _ _ inside
  rw [own] at child
  obtain ⟨older, shape⟩ := chain_of_child preempted.holds top child
  have young : kernel.running.processNum ≠ baseShell kernel.curSchedTerm := fun base =>
    child ((preempted.holds.isBaseShell_iff inside).mpr base)
  have stack := preempted.ready.stack
  have page := preempted.ready.page
  have atFree : halting kernel.processView.curSchedTerm = none := free
  rw [atFree] at stack page
  refine preempted.modify preempted.holds rfl rfl (fun _ _ => ⟨rfl, rfl⟩) ?_ ?_ ?_ ?_ ?_ ?_
  · exact fun terminal under _ busy => (preempted.busy terminal under busy).own
  · exact fun _ _ _ _ freed => freed
  · intro impossible
    cases impossible
  · intro under began
    obtain rfl := Option.some.inj began
    refine ⟨?_, ?_, ⟨rfl, rfl, rfl, rfl⟩, preempted.holds.parentEsp _ _ inside young, ?_, ?_, ?_⟩
    · simp only [own]
    · simp only [own]
      exact range
    · intro _
      simp only [own]
      exact ⟨older, shape⟩
    · exact fun late => absurd late (by simp [HaltStatement.rank])
    · simp only [own]
      rfl
  · refine ⟨stack, .inl ?_⟩
    rcases page with current | ⟨_, impossible, _⟩
    · exact current
    · cases impossible
  · rw [atFree]
    simp [weight]

/-! The statements of `halt`.  Five of them leave the process table alone. -/

theorem processView_closeAll (address : Nat) (kernel : Kernel) :
    (kernel.closeAll address).processView = kernel.processView := by
  obtain ⟨console, _, closed⟩ := closeAll_eq address kernel
  exact processView_serviced ⟨_, console, kernel.rtc, kernel.userMem, closed⟩

theorem processView_modifyRunning {change : SchedNode → SchedNode} (kernel : Kernel)
    (same : ∀ node, (change node).processNum = node.processNum) :
    (kernel.modifyRunning change).processView = kernel.processView := by
  simp only [processView, modifyRunning]
  congr 1
  exact value_update SchedNode.processNum (same _)

theorem processView_releaseVidmap (address : Nat) (kernel : Kernel) :
    (kernel.releaseVidmap address).processView = kernel.processView := by
  simp only [releaseVidmap]
  split
  · exact processView_modifyRunning kernel fun _ => rfl
  · rfl

theorem preempted_advance {under : Halting} {statement : HaltStatement}
    {view : ProcessView}
    (preempted : view.Preempted halting chains)
    (busy : halting view.curSchedTerm = some under)
    (sameSlot : statement.rank ≤ 2 ↔ under.next.rank ≤ 2)
    (samePid : statement.rank ≤ 4 ↔ under.next.rank ≤ 4)
    (sameCount : statement = .freeSlot ↔ under.next = .freeSlot)
    (ready : view.Ready (some { under with next := statement })) :
    view.Preempted (Function.update halting view.curSchedTerm
      (some { under with next := statement })) chains := by
  have old := preempted.busy _ under busy
  refine preempted.modify preempted.holds rfl rfl (fun _ _ => ⟨rfl, rfl⟩) ?_ ?_ ?_ ?_ ready ?_
  · exact fun terminal other _ found => (preempted.busy terminal other found).own
  · exact fun _ _ _ _ freed => freed
  · intro impossible
    cases impossible
  · intro advanced equal
    obtain rfl := Option.some.inj equal
    refine ⟨old.address, old.range, old.own, old.parentEsp, ?_, ?_, ?_⟩
    · exact fun early => old.live (sameSlot.mp early)
    · intro late
      simp only at late
      exact old.freed (by omega)
    · rw [old.current]
      simp only [samePid]
  · simp only [busy, weight, sameCount]
    omega

theorem ready_advance {view : ProcessView} {under : Halting} {statement : HaltStatement}
    (ready : view.Ready (some under)) (before : under.next ≠ .restorePid)
    (after : statement ≠ .restorePid)
    (page : under.next.rank ≤ 4 ∨ 8 ≤ under.next.rank ∨
      (5 ≤ statement.rank ∧ statement.rank ≤ 7)) :
    view.Ready (some { under with next := statement }) := by
  refine ⟨?_, ?_⟩
  · have stack := ready.stack
    simp only [stackOwner, before, after, if_false] at stack ⊢
    exact stack
  · rcases ready.page with current | ⟨same, found, lower, upper, entry⟩
    · exact .inl current
    · obtain rfl := Option.some.inj found
      exact .inr ⟨_, rfl, by simp only; omega, by simp only; omega, entry⟩

theorem preempted_dropProcess {under : Halting}
    (preempted : kernel.processView.Preempted halting chains)
    (busy : halting kernel.curSchedTerm = some under) (here : under.next = .dropProcess) :
    kernel.dropProcess.processView.Preempted (Function.update halting kernel.curSchedTerm
      (some { under with next := .freeSlot })) chains := by
  have old := preempted.busy _ under busy
  have holds := preempted.holds
  have current : kernel.running.processNum = under.entry.pid := by
    have current := old.current
    rwa [here] at current
  have advanced : kernel.processView.Ready (some { under with next := .freeSlot }) :=
    ready_advance (preempted.ready_busy busy) (by simp [here]) (by decide)
      (.inl (by simp [here, HaltStatement.rank]))
  refine preempted.modify ⟨holds.forest, holds.used, holds.pid, holds.parentEsp, holds.orphan⟩
    rfl rfl (fun _ _ => ⟨rfl, rfl⟩) ?_ ?_ ?_ ?_ ⟨advanced.stack, advanced.page⟩ ?_
  · exact fun terminal other _ found => (preempted.busy terminal other found).own
  · exact fun _ _ _ _ freed => freed
  · intro impossible
    cases impossible
  · intro next equal
    obtain rfl := Option.some.inj equal
    refine ⟨old.address, old.range, old.own, old.parentEsp, ?_, ?_, ?_⟩
    · exact fun _ => old.live (by simp [here, HaltStatement.rank])
    · exact fun late => absurd late (by simp [HaltStatement.rank])
    · exact current
  · have counted : weight (chains kernel.curSchedTerm) (halting kernel.curSchedTerm) =
        (chains kernel.curSchedTerm).length := by
      rw [busy]
      simp [weight, here]
    simp only [processView, dropProcess, weight, if_true] at counted ⊢
    omega

theorem preempted_freeSlot {under : Halting}
    (preempted : kernel.processView.Preempted halting chains)
    (busy : halting kernel.curSchedTerm = some under) (here : under.next = .freeSlot) :
    ∃ chains', (kernel.freeSlot under.address).processView.Preempted
      (Function.update halting kernel.curSchedTerm
        (some { under with next := .restoreTss })) chains' := by
  have old := preempted.busy _ under busy
  have current : kernel.running.processNum = under.entry.pid := by
    have current := old.current
    rwa [here] at current
  obtain ⟨older, shape⟩ := old.live (by simp [here, HaltStatement.rank])
  have own : (kernel.pcbAt under.address).pid = under.entry.pid := old.own.1
  have slots : (kernel.freeSlot under.address).processArray =
      Function.update kernel.processArray (under.entry.pid - 1) (-1) := by
    simp only [freeSlot, own]
  have advanced : kernel.processView.Ready (some { under with next := .restoreTss }) :=
    ready_advance (preempted.ready_busy busy) (by simp [here]) (by decide)
      (.inl (by simp [here, HaltStatement.rank]))
  refine ⟨_, preempted.modify (preempted.holds.finish shape slots rfl rfl rfl) rfl rfl
    ?_ ?_ ?_ ?_ ?_ ⟨advanced.stack, advanced.page⟩ ?_⟩
  · intro terminal apart
    exact ⟨Function.update_of_ne apart _ _, rfl⟩
  · exact fun terminal other _ found => (preempted.busy terminal other found).own
  · intro terminal other _ found freed
    have slots' : (kernel.freeSlot under.address).processView.processArray =
      Function.update kernel.processArray (under.entry.pid - 1) (-1) := slots
    rw [slots']
    by_cases same : other.entry.pid - 1 = under.entry.pid - 1
    · rw [same, Function.update_self]
    · rwa [Function.update_of_ne same]
  · intro impossible
    cases impossible
  · intro next equal
    obtain rfl := Option.some.inj equal
    refine ⟨old.address, old.range, old.own, old.parentEsp, ?_, ?_, current⟩
    · exact fun early => absurd early (by simp [HaltStatement.rank])
    · intro _
      refine ⟨congrArg List.head? (Function.update_self kernel.curSchedTerm _ chains), ?_⟩
      exact (congrFun slots _).trans (Function.update_self ..)
  · have counted : weight (chains kernel.curSchedTerm) (halting kernel.curSchedTerm) =
        older.length + 1 := by
      rw [busy, shape]
      simp [weight, here]
    have after : weight (Function.update chains kernel.curSchedTerm
        (under.entry.parentPid :: older) kernel.curSchedTerm)
          (some { under with next := .restoreTss }) = older.length + 1 := by
      rw [Function.update_self]
      simp [weight]
    simp only [processView, freeSlot] at counted after ⊢
    omega

theorem preempted_restoreTss {under : Halting}
    (preempted : kernel.processView.Preempted halting chains)
    (busy : halting kernel.curSchedTerm = some under) (here : under.next = .restoreTss) :
    (kernel.restoreTss under.address).processView.Preempted
      (Function.update halting kernel.curSchedTerm
        (some { under with next := .restorePid })) chains := by
  have old := preempted.busy _ under busy
  have holds := preempted.holds
  have current : kernel.running.processNum = under.entry.pid := by
    have current := old.current
    rwa [here] at current
  have parentEsp : (kernel.pcbAt under.address).parentEsp =
      stackTop under.entry.parentPid := old.own.2.2.1.trans old.parentEsp
  refine preempted.modify ⟨holds.forest, holds.used, holds.pid, holds.parentEsp, holds.orphan⟩
    rfl rfl (fun _ _ => ⟨rfl, rfl⟩) ?_ ?_ ?_ ?_ ⟨?_, ?_⟩ ?_
  · exact fun terminal other _ found => (preempted.busy terminal other found).own
  · exact fun _ _ _ _ freed => freed
  · intro impossible
    cases impossible
  · intro next equal
    obtain rfl := Option.some.inj equal
    refine ⟨old.address, old.range, old.own, old.parentEsp, ?_, ?_, current⟩
    · exact fun early => absurd early (by simp [HaltStatement.rank])
    · exact fun _ => old.freed (by simp [here, HaltStatement.rank])
  · simp [processView, restoreTss, parentEsp, stackOwner]
  · rcases (preempted.ready_busy busy).page with entry | ⟨same, found, lower, _⟩
    · exact .inl entry
    · obtain rfl := Option.some.inj found
      rw [here] at lower
      exact absurd lower (by decide)
  · have counted : weight (chains kernel.curSchedTerm) (halting kernel.curSchedTerm) =
        (chains kernel.curSchedTerm).length := by
      rw [busy]
      simp [weight, here]
    simp only [processView, restoreTss, weight, reduceCtorEq, if_false] at counted ⊢
    omega

theorem preempted_restorePid {under : Halting}
    (preempted : kernel.processView.Preempted halting chains)
    (busy : halting kernel.curSchedTerm = some under) (here : under.next = .restorePid) :
    (kernel.restorePid under.address).processView.Preempted
      (Function.update halting kernel.curSchedTerm
        (some { under with next := .restoreEsp })) chains := by
  have old := preempted.busy _ under busy
  have holds := preempted.holds
  have parentPid : (kernel.pcbAt under.address).parentPid = under.entry.parentPid :=
    old.own.2.1
  have current : (kernel.restorePid under.address).processView.current =
      Function.update kernel.processView.current kernel.curSchedTerm
        under.entry.parentPid := by
    rw [← parentPid]
    exact Function.comp_update SchedNode.processNum kernel.schedArr kernel.curSchedTerm _
  have now : (kernel.restorePid under.address).processView.current kernel.curSchedTerm =
      under.entry.parentPid := by
    rw [current, Function.update_self]
  have ready := preempted.ready_busy busy
  refine preempted.modify ⟨holds.forest, holds.used, holds.pid, holds.parentEsp, holds.orphan⟩
    rfl rfl ?_ ?_ ?_ ?_ ?_ ⟨?_, .inr ⟨_, rfl, ?_, ?_, ?_⟩⟩ ?_
  · intro terminal apart
    refine ⟨rfl, ?_⟩
    rw [current]
    exact Function.update_of_ne apart _ _
  · exact fun terminal other _ found => (preempted.busy terminal other found).own
  · exact fun _ _ _ _ freed => freed
  · intro impossible
    cases impossible
  · intro next equal
    obtain rfl := Option.some.inj equal
    refine ⟨old.address, old.range, old.own, old.parentEsp, ?_, ?_, now⟩
    · exact fun early => absurd early (by simp [HaltStatement.rank])
    · exact fun _ => old.freed (by simp [here, HaltStatement.rank])
  · have stack := ready.stack
    simp only [stackOwner, here, if_true] at stack
    exact stack.trans (congrArg (fun pid => u32 (stackTop pid)) now.symm)
  · simp [HaltStatement.rank]
  · simp [HaltStatement.rank]
  · rcases ready.page with entry | ⟨same, found, lower, _⟩
    · have before := old.current
      rw [here] at before
      exact entry.trans (congrArg userEntry before)
    · obtain rfl := Option.some.inj found
      rw [here] at lower
      exact absurd lower (by decide)
  · have counted : weight (chains kernel.curSchedTerm) (halting kernel.curSchedTerm) =
        (chains kernel.curSchedTerm).length := by
      rw [busy]
      simp [weight, here]
    simp only [processView, restorePid, modifyRunning, weight, reduceCtorEq,
      if_false] at counted ⊢
    omega

theorem preempted_remapParent {under : Halting}
    (preempted : kernel.processView.Preempted halting chains)
    (busy : halting kernel.curSchedTerm = some under) (here : under.next = .remapParent) :
    (kernel.remapParent under.address).processView.Preempted
      (Function.update halting kernel.curSchedTerm
        (some { under with next := .releaseVidmap })) chains := by
  have old := preempted.busy _ under busy
  have holds := preempted.holds
  have parentPid : (kernel.pcbAt under.address).parentPid = under.entry.parentPid :=
    old.own.2.1
  have current : kernel.running.processNum = under.entry.parentPid := by
    have current := old.current
    rwa [here] at current
  have stack := (preempted.ready_busy busy).stack
  refine preempted.modify ⟨holds.forest, holds.used, holds.pid, holds.parentEsp, holds.orphan⟩
    rfl rfl (fun _ _ => ⟨rfl, rfl⟩) ?_ ?_ ?_ ?_ ⟨?_, .inl ?_⟩ ?_
  · exact fun terminal other _ found => (preempted.busy terminal other found).own
  · exact fun _ _ _ _ freed => freed
  · intro impossible
    cases impossible
  · intro next equal
    obtain rfl := Option.some.inj equal
    refine ⟨old.address, old.range, old.own, old.parentEsp, ?_, ?_, current⟩
    · exact fun early => absurd early (by simp [HaltStatement.rank])
    · exact fun _ => old.freed (by simp [here, HaltStatement.rank])
  · simp only [stackOwner, here, reduceCtorEq, if_false] at stack ⊢
    exact stack
  · have entry : (kernel.remapParent under.address).processView.progEntry =
        userEntry (kernel.pcbAt under.address).parentPid := by
      simp [processView, remapParent, setPageDirEntry, userEntry]
    rw [entry, parentPid, ← current]
    rfl
  · have counted : weight (chains kernel.curSchedTerm) (halting kernel.curSchedTerm) =
        (chains kernel.curSchedTerm).length := by
      rw [busy]
      simp [weight, here]
    simp only [processView, remapParent, setPageDirEntry, weight, reduceCtorEq,
      if_false] at counted ⊢
    omega

theorem preempted_resume {under : Halting}
    (preempted : kernel.processView.Preempted halting chains)
    (busy : halting kernel.curSchedTerm = some under) (here : under.next = .resume) :
    kernel.processView.Preempted (Function.update halting kernel.curSchedTerm none)
      chains := by
  have old := preempted.busy _ under busy
  have ready := preempted.ready_busy busy
  have current : kernel.running.processNum = under.entry.parentPid := by
    have current := old.current
    rwa [here] at current
  refine preempted.modify preempted.holds rfl rfl (fun _ _ => ⟨rfl, rfl⟩) ?_ ?_ ?_ ?_
    ⟨?_, .inl ?_⟩ ?_
  · exact fun terminal other _ found => (preempted.busy terminal other found).own
  · exact fun _ _ _ _ freed => freed
  · intro _
    have top := (old.freed (by simp [here, HaltStatement.rank])).1
    rw [← current] at top
    exact top
  · intro _ impossible
    cases impossible
  · have stack := ready.stack
    simp only [stackOwner, here, reduceCtorEq, if_false] at stack ⊢
    exact stack
  · rcases ready.page with entry | ⟨same, found, _, upper, _⟩
    · exact entry
    · obtain rfl := Option.some.inj found
      rw [here] at upper
      exact absurd upper (by decide)
  · have counted : weight (chains kernel.curSchedTerm) (halting kernel.curSchedTerm) =
        (chains kernel.curSchedTerm).length := by
      rw [busy]
      simp [weight, here]
    simp only [processView, weight] at counted ⊢
    omega

theorem preempted_run {under : Halting}
    (preempted : kernel.processView.Preempted halting chains)
    (busy : halting kernel.curSchedTerm = some under) :
    ∃ chains', (under.next.run under.address kernel).processView.Preempted
      (Function.update halting kernel.curSchedTerm under.advance) chains' := by
  have ready := preempted.ready_busy busy
  cases here : under.next with
  | closeAll =>
      simp only [HaltStatement.run, Halting.advance, here, HaltStatement.next,
        processView_closeAll]
      exact ⟨chains, preempted_advance preempted busy (by simp [here, HaltStatement.rank])
        (by simp [here, HaltStatement.rank]) (by simp [here])
        (ready_advance ready (by simp [here]) (by decide)
          (.inl (by simp [here, HaltStatement.rank])))⟩
  | dropProcess =>
      simp only [HaltStatement.run, Halting.advance, here, HaltStatement.next]
      exact ⟨chains, preempted_dropProcess preempted busy here⟩
  | freeSlot =>
      simp only [HaltStatement.run, Halting.advance, here, HaltStatement.next]
      exact preempted_freeSlot preempted busy here
  | restoreTss =>
      simp only [HaltStatement.run, Halting.advance, here, HaltStatement.next]
      exact ⟨chains, preempted_restoreTss preempted busy here⟩
  | restorePid =>
      simp only [HaltStatement.run, Halting.advance, here, HaltStatement.next]
      exact ⟨chains, preempted_restorePid preempted busy here⟩
  | restoreEsp =>
      simp only [HaltStatement.run, Halting.advance, here, HaltStatement.next, restoreEsp]
      rw [processView_modifyRunning]
      · exact ⟨chains, preempted_advance preempted busy (by simp [here, HaltStatement.rank])
          (by simp [here, HaltStatement.rank]) (by simp [here])
          (ready_advance ready (by simp [here]) (by decide) (.inr (.inr (by decide))))⟩
      · exact fun _ => rfl
  | restoreEbp =>
      simp only [HaltStatement.run, Halting.advance, here, HaltStatement.next, restoreEbp]
      rw [processView_modifyRunning]
      · exact ⟨chains, preempted_advance preempted busy (by simp [here, HaltStatement.rank])
          (by simp [here, HaltStatement.rank]) (by simp [here])
          (ready_advance ready (by simp [here]) (by decide) (.inr (.inr (by decide))))⟩
      · exact fun _ => rfl
  | remapParent =>
      simp only [HaltStatement.run, Halting.advance, here, HaltStatement.next]
      exact ⟨chains, preempted_remapParent preempted busy here⟩
  | releaseVidmap =>
      simp only [HaltStatement.run, Halting.advance, here, HaltStatement.next,
        processView_releaseVidmap]
      exact ⟨chains, preempted_advance preempted busy (by simp [here, HaltStatement.rank])
        (by simp [here, HaltStatement.rank]) (by simp [here])
        (ready_advance ready (by simp [here]) (by decide)
          (.inr (.inl (by simp [here, HaltStatement.rank]))))⟩
  | resume =>
      simp only [HaltStatement.run, Halting.advance, here, HaltStatement.next]
      exact ⟨chains, preempted_resume preempted busy here⟩

end Kernel

end Ece391Os
