import Mathlib.Logic.Relation
import Ece391Os.Process.Contexts

namespace Ece391Os

open Data

/-! The flag by which the scheduler remaps the video page of a terminal. -/

namespace Kernel

def Ancestor (kernel : Kernel) : Int → Int → Prop :=
  Relation.TransGen fun child parent => kernel.parentOf child = parent ∧ parent ≠ 0

/-- The process of every terminal that mapped the video page has it remapped. -/
def VidmapsKept (kernel : Kernel) : Prop :=
  ∀ terminal, (kernel.pcb (kernel.schedArr terminal).processNum).vidmem = 1 →
    (kernel.schedArr terminal).vidMap = 1

structure Vidmapped (kernel : Kernel) (chains : Fin 3 → List Int) : Prop where
  chained : kernel.Chained chains
  flag : ∀ terminal, ∀ pid ∈ chains terminal, (kernel.pcb pid).vidmem = 1 →
    (kernel.schedArr terminal).vidMap = 1

variable {platform : Platform} {kernel : Kernel} {chains : Fin 3 → List Int}

theorem Vidmapped.kept (mapped : kernel.Vidmapped chains) : kernel.VidmapsKept :=
  fun terminal => mapped.flag terminal _ (mapped.chained.top terminal)

theorem Chained.ancestor {terminal : Fin 3} {head pid : Int} {tail : List Int}
    (chained : kernel.Chained chains) (shape : chains terminal = head :: tail)
    (member : pid ∈ tail) : kernel.Ancestor head pid := by
  have linked := chained.holds.forest.linked terminal
  have positive : ∀ other ∈ chains terminal, other ≠ 0 := by
    intro other inside
    have range := (chained.holds.range inside).1
    omega
  rw [shape] at linked positive
  clear shape
  induction tail generalizing head with
  | nil => simp at member
  | cons next older induction =>
      obtain ⟨link, rest⟩ := List.isChain_cons_cons.mp linked
      have first : kernel.parentOf head = next ∧ next ≠ 0 :=
        ⟨link, positive next (by simp)⟩
      rcases List.mem_cons.mp member with rfl | later
      · exact .single first
      · exact .head first (induction later rest fun other inside =>
          positive other (List.mem_cons_of_mem _ inside))

theorem Vidmapped.congr {kernel' : Kernel} (mapped : kernel.Vidmapped chains)
    (chained : kernel'.Chained chains)
    (vidmem : ∀ address, (kernel'.pcbAt address).vidmem = (kernel.pcbAt address).vidmem)
    (vidMap : ∀ terminal, (kernel'.schedArr terminal).vidMap =
      (kernel.schedArr terminal).vidMap) : kernel'.Vidmapped chains := by
  refine ⟨chained, ?_⟩
  intro terminal pid member own
  rw [pcb, vidmem] at own
  rw [vidMap]
  exact mapped.flag terminal pid member own

theorem Vidmapped.vidmap (mapped : kernel.Vidmapped chains) (memory : Memory) :
    (kernel.vidmapped (kernel.currentPcb platform) memory).Vidmapped chains := by
  have chained := mapped.chained
  refine ⟨chained.congr (processView_vidmapped _ memory kernel), ?_⟩
  intro terminal pid member own
  by_cases here : terminal = kernel.curSchedTerm
  · subst here
    simp [vidmapped]
  · have other : pid ≠ kernel.running.processNum := by
      rintro rfl
      exact here (chained.holds.forest.eq_of_mem member (chained.top kernel.curSchedTerm))
    have apart : pcbAddr pid ≠ kernel.currentPcb platform := by
      rw [(currentPcb_running platform chained.sound).1]
      exact pcbAddr_ne_of_live (chained.live member) (live_running chained.sound) other
    simp only [pcb, vidmapped, Function.update_of_ne apart] at own
    simp only [vidmapped, Function.update_of_ne here]
    exact mapped.flag terminal pid member own

theorem Vidmapped.start {slot : Nat} (command : CString) (frame : StackFrame)
    (memory : Memory) (mapped : kernel.Vidmapped chains)
    (found : findSlot kernel.processArray = some slot) :
    ({ kernel with processArray := Function.update kernel.processArray slot 1 }.started
      (childPcb frame command (slot + 1) kernel.running.processNum) memory).Vidmapped
      (Function.update chains kernel.curSchedTerm
        (((slot : Int) + 1) :: chains kernel.curSchedTerm)) := by
  have passes := started_passes command frame memory mapped.chained found
  refine ⟨passes.chained, ?_⟩
  intro terminal pid member own
  have vidMap : (({ kernel with processArray := Function.update kernel.processArray slot 1
      }.started (childPcb frame command (slot + 1) kernel.running.processNum)
        memory).schedArr terminal).vidMap = (kernel.schedArr terminal).vidMap := by
    simp only [started]
    by_cases here : terminal = kernel.curSchedTerm
    · subst here
      rw [Function.update_self]
      rfl
    · rw [Function.update_of_ne here]
  rw [vidMap]
  rcases passes.comes terminal pid member with before | ⟨_, _, new⟩
  · rw [pcb_started _ memory found rfl (mapped.chained.live before)] at own
    exact mapped.flag terminal pid before own
  · have fresh : pid = (slot : Int) + 1 := by
      rw [new]
      simp [running, started, childPcb]
    simp [pcb, started, fresh, childPcb] at own

/-- The end of a process clears the flag only when nobody else relies on it. -/
theorem Vidmapped.finish (console : Console) (mapped : kernel.Vidmapped chains)
    (child : ¬ isBaseShell kernel.running.processNum)
    (last : (kernel.pcb kernel.running.processNum).vidmem ≠ 0 →
      ∀ older, kernel.Ancestor kernel.running.processNum older →
        (kernel.pcb older).vidmem ≠ 1) :
    ∃ chains', (kernel.terminated (kernel.currentPcb platform) console).Vidmapped chains' := by
  have chained := mapped.chained
  rw [(currentPcb_running platform chained.sound).1]
  obtain ⟨older, shape⟩ :=
    chain_of_child chained.holds (chained.runs.current kernel.curSchedTerm) child
  have passes : Passes kernel .sigreturn _ chains _ := terminated_passes console chained shape
  refine ⟨_, passes.chained, ?_⟩
  intro terminal pid member own
  have vidmem : (fun place =>
        ((kernel.terminated (pcbAddr kernel.running.processNum) console).pcbAt place).vidmem) =
      fun place => (kernel.pcbAt place).vidmem := value_update Pcb.vidmem rfl
  have own : (kernel.pcb pid).vidmem = 1 := (congrFun vidmem (pcbAddr pid)).symm.trans own
  by_cases here : terminal = kernel.curSchedTerm
  · subst here
    rw [Function.update_self] at member
    have flag := mapped.flag kernel.curSchedTerm pid
      (by rw [shape]; exact List.mem_cons_of_mem _ member) own
    by_cases maps : (kernel.pcb kernel.running.processNum).vidmem ≠ 0
    · exact absurd own (last maps pid (chained.ancestor shape member))
    · have unmapped : ¬ (kernel.pcbAt (pcbAddr kernel.running.processNum)).vidmem ≠ 0 := maps
      simp only [terminated, Function.update_self, parentNode, if_neg unmapped]
      exact flag
  · rw [Function.update_of_ne here] at member
    simp only [terminated, Function.update_of_ne here]
    exact mapped.flag terminal pid member own

theorem Leaves.vidmaps {event : Event} {result : Kernel × Reply}
    (leaves : Leaves platform kernel event result) (mapped : kernel.Vidmapped chains)
    (last : event.ends = true → (kernel.pcb kernel.running.processNum).vidmem ≠ 0 →
      ∀ older, kernel.Ancestor kernel.running.processNum older →
        (kernel.pcb older).vidmem ≠ 1) :
    ∃ chains', result.1.Vidmapped chains' := by
  cases leaves with
  | serviced _ done =>
      refine ⟨chains, mapped.congr (mapped.chained.congr (processView_serviced done)) ?_ ?_⟩
      · obtain ⟨fdt, console, rtc, memory, rfl⟩ := done
        exact congrFun (value_update Pcb.vidmem rfl)
      · obtain ⟨fdt, console, rtc, memory, rfl⟩ := done
        exact fun _ => rfl
  | vidmapped memory => exact ⟨chains, mapped.vidmap memory⟩
  | started memory eip found => exact ⟨_, mapped.start _ _ memory found⟩
  | ended console status ends child => exact mapped.finish console child (last ends)
  | ticked esp ebp mask =>
      obtain ⟨holds, runs⟩ := chains_ticked esp ebp mask mapped.chained.holds
        mapped.chained.runs
      exact ⟨chains, mapped.congr ⟨holds, runs⟩ (fun _ => rfl)
        (congrFun (value_update SchedNode.vidMap rfl))⟩
  | restarted | ignored | typed | clocked =>
      exact ⟨chains, mapped.congr (mapped.chained.congr rfl) (fun _ => rfl) fun _ => rfl⟩

end Kernel

/-- A process that mapped the video page ends only after those that wait for it
no longer have it mapped. -/
def Machine.LastVidmap (machine : Machine) (event : Event) : Prop :=
  event.ends = true →
    (machine.kernel.pcb machine.kernel.running.processNum).vidmem ≠ 0 →
    ∀ older, machine.kernel.Ancestor machine.kernel.running.processNum older →
      (machine.kernel.pcb older).vidmem ≠ 1

theorem Launched.vidmapped {platform : Platform} {machine : Machine}
    (began : Launched platform machine) :
    machine.kernel.Vidmapped fun terminal => [baseShell terminal] := by
  obtain ⟨holds, runs⟩ := began.chains
  refine ⟨⟨holds, runs⟩, ?_⟩
  intro terminal pid member own
  obtain rfl := List.mem_singleton.mp member
  obtain ⟨kernel, frame, entryPoint, memory, _, result⟩ := began.eq
  rw [result, Kernel.pcb, Kernel.launched_pcb] at own
  simp [Kernel.shellPcb] at own

theorem Launched.vidmappedAfter {platform : Platform} {start machine : Machine}
    {trace : List (Transition Machine Event Reply)} (began : Launched platform start)
    (run : Run (Machine.step platform) start trace machine)
    (last : ∀ transition ∈ trace, transition.before.LastVidmap transition.event) :
    (∃ chains, machine.kernel.Vidmapped chains) ∧
      ∀ transition ∈ trace, ∃ chains, transition.before.kernel.Vidmapped chains :=
  run.guarded (fun machine => ∃ chains, machine.kernel.Vidmapped chains) Machine.LastVidmap
    (fun holds allowed fired => by
      obtain ⟨chains, mapped⟩ := holds
      exact ((Machine.step_kernel fired).leaves mapped.chained.sound).vidmaps mapped allowed)
    ⟨_, began.vidmapped⟩ last

/-- Along every run in which no process that mapped the video page ends before
those that wait for it, the flag is set wherever a process relies on it. -/
theorem Launched.vidmapsKept {platform : Platform} {start machine : Machine}
    {trace : List (Transition Machine Event Reply)} (began : Launched platform start)
    (run : Run (Machine.step platform) start trace machine)
    (last : ∀ transition ∈ trace, transition.before.LastVidmap transition.event) :
    machine.kernel.VidmapsKept ∧
      ∀ transition ∈ trace, transition.before.kernel.VidmapsKept := by
  obtain ⟨⟨_, final⟩, earlier⟩ := began.vidmappedAfter run last
  refine ⟨final.kept, ?_⟩
  intro transition member
  obtain ⟨_, mapped⟩ := earlier transition member
  exact mapped.kept

namespace Sample

def maps : Event := .vidmap 0x8000010

theorem maps_fires : (start.step platform maps).isSome = true := by decide +kernel

def mapped : Machine := (fire start maps maps_fires).after

def runsShell : Event := .execute shellName frame

theorem runsShell_fires : (mapped.step platform runsShell).isSome = true := by
  decide +kernel

def child : Machine := (fire mapped runsShell runsShell_fires).after

theorem ends_fires : (child.step platform (.halt 0)).isSome = true := by decide +kernel

end Sample

theorem vidmapsKept_sample :
    (Sample.fire Sample.child (.halt 0) Sample.ends_fires).after.kernel.VidmapsKept := by
  have run := (Sample.fire_twice Sample.start Sample.maps Sample.runsShell Sample.maps_fires
    Sample.runsShell_fires).snoc (Sample.fire_eq Sample.child (.halt 0) Sample.ends_fires)
  refine (Sample.launched.vidmapsKept run ?_).1
  intro transition member
  have unmapped : (Sample.child.kernel.pcb Sample.child.kernel.running.processNum).vidmem = 0 := by
    decide +kernel
  simp only [List.cons_append, List.nil_append, List.mem_cons, List.not_mem_nil,
    or_false] at member
  rcases member with rfl | rfl | rfl
  · intro ends
    cases ends
  · intro ends
    cases ends
  · intro _ maps
    exact absurd unmapped maps

theorem vidmap_lost : Reachable Sample.platform
      (Sample.after [Sample.maps, Sample.runsShell, Sample.maps, .halt 0] (by decide +kernel)) ∧
    ¬ (Sample.after [Sample.maps, Sample.runsShell, Sample.maps, .halt 0]
      (by decide +kernel)).kernel.VidmapsKept := by
  refine ⟨Sample.reachable _ _, fun kept => ?_⟩
  have flag := kept 0 (by decide +kernel)
  revert flag
  decide +kernel

end Ece391Os
