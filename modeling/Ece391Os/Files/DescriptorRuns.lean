import Ece391Os.Files.Descriptors

namespace Ece391Os

open Data

/-! Descriptor tables along a run: which `open` each descriptor in use comes
from, and what the calls answer. -/

abbrev Trace := List (Transition Machine Event Reply)

def Machine.caller (machine : Machine) : Int := machine.kernel.running.processNum

def Machine.callerTable (machine : Machine) : FdTable :=
  machine.kernel.table machine.caller

/-- Descriptor `fd` of a process was opened by one step of the run and has been
in use ever since; it has the jump table of the type of the file that step
found, and the inode of a regular file. -/
structure OpenedBy (image : Memory) (pid fd : Int) (desc : FileDesc)
    (opened : Transition Machine Event Reply) (later : Trace) : Prop where
  caller : opened.before.caller = pid
  reply : opened.reply = .ret fd
  file : ∃ name dentry, opened.event = .openFile (some name) ∧
    readDentryByName image name = some dentry ∧
    FdTable.typeTable dentry.fileType = some desc.jumpPtr ∧
    (dentry.fileType = 2 → desc.inode = i32 dentry.inodeNum)
  since : ∀ transition ∈ later, transition.after.kernel.live pid ∧
    (transition.after.kernel.table pid fd).flags = 1

def OpenedOn (image : Memory) (pid fd : Int) (desc : FileDesc) (trace : Trace) : Prop :=
  ∃ earlier opened later, trace = earlier ++ opened :: later ∧
    OpenedBy image pid fd desc opened later

structure DescriptorsOf (platform : Platform) (trace : Trace) (kernel : Kernel)
    (pid : Int) : Prop where
  valid : (kernel.table pid).Valid
  opened : ∀ fd, 2 ≤ fd → fd ≤ maxFdNum → (kernel.table pid fd).flags = 1 →
    OpenedOn platform.image pid fd (kernel.table pid fd) trace

namespace FdTable

variable {image : Memory} {fdt : FdTable} {event : Event} {fd : Int}

theorem after_kept (used : (fdt fd).flags = 1)
    (still : (fdt.after image event fd).flags = 1) :
    (fdt.after image event fd).jumpPtr = (fdt fd).jumpPtr ∧
      (fdt.after image event fd).inode = (fdt fd).inode := by
  cases event with
  | openFile filename =>
      simp only [after]
      rcases openFile_cases image filename fdt with
        ⟨same, _⟩ | ⟨name, dentry, slot, desc, _, _, free, _, result⟩
      · rw [same]
        exact ⟨rfl, rfl⟩
      · have other : fd ≠ slot := by
          rintro rfl
          have := (findDesc_some free).2.1
          omega
        rw [result]
        simp only [Function.update_of_ne other, and_self]
  | close slot =>
      simp only [after, close]
      split
      · by_cases here : fd = slot
        · simp only [here, Function.update_self, and_self]
        · simp only [Function.update_of_ne here, and_self]
      · exact ⟨rfl, rfl⟩
  | read slot buf nbytes =>
      simp only [after]
      obtain ⟨position, moved⟩ := read_position image slot buf nbytes fdt
      rw [moved]
      by_cases here : fd = slot
      · rw [here, Function.update_self]
        exact ⟨rfl, rfl⟩
      · rw [Function.update_of_ne here]
        exact ⟨rfl, rfl⟩
  | _ => exact ⟨rfl, rfl⟩

theorem after_opened (unused : (fdt fd).flags ≠ 1)
    (used : (fdt.after image event fd).flags = 1) :
    ∃ name dentry, event = .openFile (some name) ∧
      (fdt.openFile image (some name)).2 = fd ∧
      readDentryByName image name = some dentry ∧
      typeTable dentry.fileType = some (fdt.after image event fd).jumpPtr ∧
      (dentry.fileType = 2 →
        (fdt.after image event fd).inode = i32 dentry.inodeNum) := by
  cases event with
  | openFile filename =>
      simp only [after] at used ⊢
      rcases openFile_cases image filename fdt with
        ⟨same, _⟩ | ⟨name, dentry, slot, desc, rfl, found, free, opened, result⟩
      · rw [same] at used
        exact absurd used unused
      · have here : fd = slot := by
          by_contra other
          rw [result] at used
          simp only [Function.update_of_ne other] at used
          exact unused used
        obtain ⟨-, -, type, inode⟩ := openDesc_some opened
        rw [result, here]
        simp only [Function.update_self]
        exact ⟨name, dentry, rfl, by rw [result], found, type, inode⟩
  | close slot =>
      simp only [after, close] at used
      split at used
      · by_cases here : fd = slot
        · simp only [here, Function.update_self] at used
          exact absurd used (by decide : (-1 : Int) ≠ 1)
        · simp only [Function.update_of_ne here] at used
          exact absurd used unused
      · exact absurd used unused
  | read slot buf nbytes =>
      simp only [after] at used
      obtain ⟨position, moved⟩ := read_position image slot buf nbytes fdt
      rw [moved] at used
      by_cases here : fd = slot
      · rw [here, Function.update_self] at used
        rw [here] at unused
        exact absurd used unused
      · rw [Function.update_of_ne here] at used
        exact absurd used unused
  | _ => exact absurd used unused

end FdTable

section Runs

variable {platform : Platform} {machine next : Machine} {event : Event} {reply : Reply}
  {trace : Trace} {pid fd : Int}

theorem Machine.step_table (sound : machine.kernel.processView.Sound)
    (fired : machine.step platform event = some (next, reply))
    (alive : machine.kernel.live pid) (still : next.kernel.live pid) :
    next.kernel.table pid =
      if pid = machine.caller then (machine.kernel.table pid).after platform.image event
      else machine.kernel.table pid :=
  (Machine.step_kernel fired).table sound alive still

theorem OpenedOn.extend {desc desc' : FileDesc} {transition : Transition Machine Event Reply}
    (opened : OpenedOn platform.image pid fd desc trace)
    (jumpPtr : desc'.jumpPtr = desc.jumpPtr) (inode : desc'.inode = desc.inode)
    (alive : transition.after.kernel.live pid)
    (used : (transition.after.kernel.table pid fd).flags = 1) :
    OpenedOn platform.image pid fd desc' (trace ++ [transition]) := by
  obtain ⟨earlier, first, later, rfl, record⟩ := opened
  refine ⟨earlier, first, later ++ [transition], by simp, ?_⟩
  refine ⟨record.caller, record.reply, ?_, ?_⟩
  · rw [jumpPtr, inode]
    exact record.file
  · intro step member
    rcases List.mem_append.mp member with before | last
    · exact record.since step before
    · obtain rfl := List.mem_singleton.mp last
      exact ⟨alive, used⟩

theorem Machine.openFile_reply {filename : Option CString}
    (sound : machine.kernel.processView.Sound)
    (fired : machine.step platform (.openFile filename) = some (next, reply)) :
    reply = .ret (machine.callerTable.openFile platform.image filename).2 := by
  have answered := (call_eq_some fired).2
  have own := (Kernel.openFile_table platform filename machine.kernel).2
  rw [answered, (Kernel.currentPcb_running platform sound).1] at own
  exact own

theorem DescriptorsOf.step (sound : machine.kernel.processView.Sound)
    (fired : machine.step platform event = some (next, reply))
    (before : DescriptorsOf platform trace machine.kernel pid)
    (alive : machine.kernel.live pid) (still : next.kernel.live pid) :
    DescriptorsOf platform (trace ++ [⟨machine, event, reply, next⟩]) next.kernel pid := by
  have moved := Machine.step_table sound fired alive still
  by_cases own : pid = machine.caller
  · rw [if_pos own] at moved
    refine ⟨moved ▸ before.valid.after event, ?_⟩
    intro fd above below used
    by_cases earlier : (machine.kernel.table pid fd).flags = 1
    · obtain ⟨jumpPtr, inode⟩ := FdTable.after_kept earlier (moved ▸ used)
      exact (before.opened fd above below earlier).extend (by rw [moved, jumpPtr])
        (by rw [moved, inode]) still used
    · obtain ⟨name, dentry, rfl, answer, found, type, inode⟩ :=
        FdTable.after_opened earlier (moved ▸ used)
      refine ⟨trace, _, [], rfl, own.symm, ?_, ?_, fun _ member => nomatch member⟩
      · rw [Machine.openFile_reply sound fired, Machine.callerTable, ← own, answer]
      · rw [moved]
        exact ⟨name, dentry, rfl, found, type, inode⟩
  · rw [if_neg own] at moved
    refine ⟨moved ▸ before.valid, ?_⟩
    intro fd above below used
    rw [moved] at used
    exact (before.opened fd above below used).extend (by rw [moved]) (by rw [moved]) still
      (by rw [moved]; exact used)

theorem DescriptorsOf.fresh {kernel : Kernel} {stale : FdTable}
    (new : kernel.table pid = freshFdt stale) :
    DescriptorsOf platform trace kernel pid := by
  refine ⟨new ▸ FdTable.Valid.fresh stale, ?_⟩
  intro fd above below used
  rw [new] at used
  simp only [freshFdt] at used
  rw [if_neg (by omega), if_neg (by omega), if_pos ⟨above, below⟩] at used
  exact absurd used (by decide : (-1 : Int) ≠ 1)

theorem Launched.table_fresh (began : Launched platform machine)
    (alive : machine.kernel.live pid) :
    ∃ stale, machine.kernel.table pid = freshFdt stale := by
  obtain ⟨terminal, member⟩ := (began.chains.1.used pid).mpr alive
  obtain rfl := List.mem_singleton.mp member
  obtain ⟨kernel, frame, entryPoint, memory, _, result⟩ := began.eq
  refine ⟨frame.pcb.fdt, ?_⟩
  rw [result, Kernel.table, Kernel.pcb, Kernel.launched_pcb]
  rfl

theorem Launched.descriptorsOf (began : Launched platform machine)
    (alive : machine.kernel.live pid) : DescriptorsOf platform trace machine.kernel pid := by
  obtain ⟨stale, new⟩ := began.table_fresh alive
  exact .fresh new

theorem Launched.descriptorsAfter {start : Machine} (began : Launched platform start)
    (run : Run (Machine.step platform) start trace machine)
    (alive : machine.kernel.live pid) : DescriptorsOf platform trace machine.kernel pid := by
  induction run with
  | nil => exact began.descriptorsOf alive
  | snoc before fired induction =>
      rename_i state next event reply earlier
      have sound : state.kernel.processView.Sound :=
        Reachable.sound ⟨start, earlier, began, before⟩
      by_cases already : state.kernel.live pid
      · exact (induction already).step sound fired already alive
      · obtain ⟨stale, new⟩ := ((Machine.step_kernel fired).effect sound).table_new sound
          already alive
        exact .fresh new

section Tables

variable (holds : FdTable → Prop) (fresh : ∀ stale, holds (freshFdt stale))
  (after : ∀ {fdt : FdTable} (event : Event), holds fdt → holds (fdt.after platform.image event))
include fresh after

/-- One event keeps what a fresh table has and every call of its process keeps. -/
theorem Machine.step_tables (sound : machine.kernel.processView.Sound)
    (before : ∀ pid, machine.kernel.live pid → holds (machine.kernel.table pid))
    (fired : machine.step platform event = some (next, reply))
    (alive : next.kernel.live pid) : holds (next.kernel.table pid) := by
  by_cases already : machine.kernel.live pid
  · rw [step_table sound fired already alive]
    split
    · exact after event (before pid already)
    · exact before pid already
  · obtain ⟨stale, new⟩ := ((step_kernel fired).effect sound).table_new sound already alive
    rw [new]
    exact fresh stale

theorem Reachable.table_invariant (reachable : Reachable platform machine)
    (alive : machine.kernel.live pid) : holds (machine.kernel.table pid) := by
  obtain ⟨start, trace, began, run⟩ := reachable
  induction run generalizing pid with
  | nil =>
      obtain ⟨stale, new⟩ := began.table_fresh alive
      rw [new]
      exact fresh stale
  | snoc before fired induction =>
      have sound := Reachable.sound ⟨start, _, began, before⟩
      exact Machine.step_tables holds fresh after sound (fun _ => induction) fired alive

end Tables

end Runs

/-! What the calls answer. -/

def FdTable.lowestFree (fdt : FdTable) (fd : Int) : Prop :=
  (2 ≤ fd ∧ fd ≤ maxFdNum) ∧ (fdt fd).flags = -1 ∧
    ∀ lower, 2 ≤ lower → lower < fd → (fdt lower).flags = 1

structure OpenSpec (image : Memory) (filename : Option CString) (fdt fdt' : FdTable)
    (reply : Reply) : Prop where
  answer : (reply = .ret (-1) ∨ reply = .ret 0 ∨ reply = .ret 1) ∧ fdt' = fdt ∨
    ∃ fd desc, reply = .ret fd ∧ fdt.lowestFree fd ∧ desc.flags = 1 ∧
      desc.filePosition = 0 ∧ fdt' = Function.update fdt fd desc
  room : ∀ name dentry, filename = some name → ¬ FdTable.skipsDisk name →
    readDentryByName image name = some dentry →
    (FdTable.typeTable dentry.fileType).isSome →
    (reply = .ret (-1) ↔ fdt.held = 6)

def CloseSpec (fd : Int) (fdt fdt' : FdTable) (reply : Reply) : Prop :=
  ((2 ≤ fd ∧ fd ≤ maxFdNum) ∧ (fdt fd).flags = 1 ∧ reply = .ret 0 ∧
    fdt' = Function.update fdt fd { fdt fd with flags := -1 }) ∨
  (¬ ((2 ≤ fd ∧ fd ≤ maxFdNum) ∧ (fdt fd).flags = 1) ∧ reply = .ret (-1) ∧ fdt' = fdt)

/-- The contract of one step of a run: `open`, `close`, `read` and `write` on the
table of the process that calls, and no change to any other table. -/
structure CallSpec (platform : Platform) (transition : Transition Machine Event Reply) :
    Prop where
  opens : ∀ filename, transition.event = .openFile filename →
    OpenSpec platform.image filename transition.before.callerTable
      (transition.after.kernel.table transition.before.caller) transition.reply
  closes : ∀ fd, transition.event = .close fd →
    CloseSpec fd transition.before.callerTable
      (transition.after.kernel.table transition.before.caller) transition.reply
  refuses : ∀ fd buf nbytes,
    transition.event = .read fd buf nbytes ∨ transition.event = .write fd buf nbytes →
    ¬ transition.before.callerTable.inUse fd →
    transition.reply = .ret (-1) ∧ transition.after = transition.before
  reads : ∀ fd buf nbytes, transition.event = .read fd buf nbytes →
    ∃ position, transition.after.kernel.table transition.before.caller =
      Function.update transition.before.callerTable fd
        { transition.before.callerTable fd with filePosition := position }
  keeps : (transition.event = .finishRead ∨
      ∃ fd buf nbytes, transition.event = .write fd buf nbytes) →
    transition.after.kernel.table transition.before.caller = transition.before.callerTable
  others : ∀ pid, pid ≠ transition.before.caller → transition.before.kernel.live pid →
    transition.after.kernel.live pid →
    transition.after.kernel.table pid = transition.before.kernel.table pid

namespace FdTable

variable {image : Memory} {fdt : FdTable}

theorem Valid.openSpec (valid : fdt.Valid) (filename : Option CString) :
    OpenSpec image filename fdt (fdt.openFile image filename).1
      (.ret (fdt.openFile image filename).2) := by
  constructor
  · rcases openFile_cases image filename fdt with
      ⟨same, answer⟩ | ⟨name, dentry, fd, desc, _, _, free, opened, result⟩
    · refine .inl ⟨?_, same⟩
      rcases answer with refused | stdin | stdout
      · exact .inl (congrArg _ refused)
      · exact .inr (.inl (congrArg _ stdin))
      · exact .inr (.inr (congrArg _ stdout))
    · obtain ⟨range, unused, lower⟩ := findDesc_some free
      obtain ⟨used, position, -, -⟩ := openDesc_some opened
      rw [result]
      refine .inr ⟨fd, desc, rfl, ⟨range, unused, ?_⟩, used, position, rfl⟩
      intro other above below
      exact (valid.flags other (by omega) (by omega)).resolve_right (lower other above below)
  · intro name dentry named disk found known
    obtain rfl := named
    rw [← valid.full_iff, ← openFile_fails_iff disk found known]
    constructor
    · intro failed
      exact Outcome.ret.inj failed
    · intro failed
      rw [failed]

theorem closeSpec (fd : Int) (fdt : FdTable) :
    CloseSpec fd fdt (fdt.close fd).1 (.ret (fdt.close fd).2) := by
  by_cases used : (2 ≤ fd ∧ fd ≤ maxFdNum) ∧ (fdt fd).flags = 1
  · refine .inl ⟨used.1, used.2, ?_⟩
    rw [close, if_pos used]
    exact ⟨rfl, rfl⟩
  · refine .inr ⟨used, ?_⟩
    rw [close, if_neg used]
    exact ⟨rfl, rfl⟩

end FdTable

theorem Machine.call_refused {machine next : Machine} {body : Kernel → Kernel × Reply}
    {reply : Reply} {value : Int} (fired : machine.call body = some (next, reply))
    (refused : body machine.kernel = (machine.kernel, .ret value)) :
    reply = .ret value ∧ next = machine := by
  simp only [call, refused] at fired
  split at fired
  · cases fired
  · obtain ⟨rfl, rfl⟩ := Prod.mk.inj (Option.some.inj fired)
    exact ⟨rfl, rfl⟩

section Contract

variable {platform : Platform} {kernel : Kernel} {fdt : FdTable} {fd : Int}

theorem Kernel.read_refused (buf : Option Memory) (nbytes : Int)
    (valid : (kernel.pcbAt (kernel.currentPcb platform)).fdt = fdt) (whole : fdt.Valid)
    (unused : ¬ fdt.inUse fd) :
    kernel.read platform fd buf nbytes = (kernel, .ret (-1)) := by
  simp only [Kernel.read, valid]
  split
  · rfl
  · rename_i range
    have free := whole.flags fd (by omega) (by omega)
    rw [if_pos (free.resolve_left fun used => unused ⟨by omega, by omega, used⟩)]

theorem Kernel.write_refused (buf : Option Memory) (nbytes : Int)
    (valid : (kernel.pcbAt (kernel.currentPcb platform)).fdt = fdt) (whole : fdt.Valid)
    (unused : ¬ fdt.inUse fd) :
    kernel.write platform fd buf nbytes = (kernel, .ret (-1)) := by
  simp only [Kernel.write, valid]
  split
  · rfl
  · rename_i range
    have free := whole.flags fd (by omega) (by omega)
    rw [if_pos (free.resolve_left fun used => unused ⟨by omega, by omega, used⟩)]

theorem Machine.step_callSpec {machine next : Machine} {event : Event} {reply : Reply}
    (sound : machine.kernel.processView.Sound) (valid : machine.callerTable.Valid)
    (fired : machine.step platform event = some (next, reply)) :
    CallSpec platform ⟨machine, event, reply, next⟩ := by
  have address := (Kernel.currentPcb_running platform sound).1
  have own : (machine.kernel.pcbAt (machine.kernel.currentPcb platform)).fdt =
      machine.callerTable := by
    rw [address]
    rfl
  have alive : machine.kernel.live machine.caller := Kernel.live_running sound
  have table (plain : event.isPlain = true) :
      next.kernel.table machine.caller =
        machine.callerTable.after platform.image event := by
    have still := ((Machine.step_kernel fired).plain_effect plain).live_iff.mpr alive
    exact (step_table sound fired alive still).trans (if_pos rfl)
  constructor
  · rintro filename rfl
    simp only at table ⊢
    rw [table rfl, openFile_reply sound fired]
    exact valid.openSpec filename
  · rintro fd rfl
    simp only [step] at fired
    have answered := (call_eq_some fired).2
    have replied := (Kernel.close_table platform fd machine.kernel).2
    rw [answered, own] at replied
    simp only at table replied ⊢
    rw [table rfl, replied]
    exact FdTable.closeSpec fd machine.callerTable
  · intro fd buf nbytes call unused
    rcases call with rfl | rfl
    · exact call_refused fired (Kernel.read_refused buf nbytes own valid unused)
    · exact call_refused fired (Kernel.write_refused buf nbytes own valid unused)
  · rintro fd buf nbytes rfl
    simp only at table ⊢
    rw [table rfl]
    exact FdTable.read_position platform.image fd buf nbytes machine.callerTable
  · rintro (rfl | ⟨fd, buf, nbytes, rfl⟩)
    · exact table rfl
    · exact table rfl
  · intro pid other alive still
    exact (step_table sound fired alive still).trans (if_neg other)

end Contract

/-- Along every run from `launch`, every process has a valid table whose
descriptors in use are on the files they were opened on, and every call keeps
the contract. -/
theorem Launched.descriptors {platform : Platform} {start machine : Machine} {trace : Trace}
    (began : Launched platform start)
    (run : Run (Machine.step platform) start trace machine) :
    (∀ pid, machine.kernel.live pid → DescriptorsOf platform trace machine.kernel pid) ∧
      ∀ transition ∈ trace, CallSpec platform transition := by
  refine ⟨fun pid alive => Launched.descriptorsAfter began run alive, ?_⟩
  intro transition member
  obtain ⟨⟨shorter, reached⟩, fired⟩ := run.reached member
  have sound := Reachable.sound ⟨start, shorter, began, reached⟩
  have valid := (Launched.descriptorsAfter began reached (Kernel.live_running sound)).valid
  exact Machine.step_callSpec sound valid fired

namespace Sample

def fileEvents : List Event :=
  [.openFile (some shellName), .read 2 (some fun _ => 0) 8, .openFile (some stdinName),
    .close 2, .openFile (some ⟨[114, 116, 99], by simp⟩), .read 3 none 1]

theorem fileEvents_fire :
    (runEvents (Machine.step platform) start fileEvents).isSome = true := by
  decide +kernel

end Sample

theorem descriptors_sample :
    ∃ trace, trace.map Transition.event = Sample.fileEvents ∧
      ((Sample.after Sample.fileEvents Sample.fileEvents_fire).kernel.table 1 2).flags = 1 ∧
      DescriptorsOf Sample.platform trace
        (Sample.after Sample.fileEvents Sample.fileEvents_fire).kernel 1 ∧
      ∀ transition ∈ trace, CallSpec Sample.platform transition := by
  obtain ⟨trace, run, events⟩ :=
    run_of_runEvents (Option.some_get Sample.fileEvents_fire).symm
  obtain ⟨tables, calls⟩ := Sample.launched.descriptors run
  refine ⟨trace, events, by decide +kernel, ?_, calls⟩
  exact tables 1 ⟨by decide, by decide +kernel⟩

end Ece391Os
