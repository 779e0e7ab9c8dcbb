import Ece391Os.Files.DescriptorRuns

namespace Ece391Os

open Data

/-! One descriptor that a process holds, while it and the others go on. -/

/-- The process stays and does not close the descriptor. -/
structure KeepsOpen (pid fd : Int) (transition : Transition Machine Event Reply) :
    Prop where
  alive : transition.after.kernel.live pid
  keeps : transition.before.caller = pid → transition.event ≠ .close fd

structure FdRead where
  buf : Option Memory
  nbytes : Int
  reply : Reply

def FdRead.ofStep (pid fd : Int) (transition : Transition Machine Event Reply) :
    Option FdRead :=
  if transition.before.caller = pid then
    match transition.event with
    | .read other buf nbytes =>
        if other = fd then some ⟨buf, nbytes, transition.reply⟩ else none
    | _ => none
  else none

def fdReads (pid fd : Int) (trace : Trace) : List FdRead :=
  trace.filterMap (FdRead.ofStep pid fd)

theorem fdReads_snoc (pid fd : Int) (trace : Trace)
    (transition : Transition Machine Event Reply) :
    fdReads pid fd (trace ++ [transition]) =
      fdReads pid fd trace ++ (FdRead.ofStep pid fd transition).toList := by
  rw [fdReads, List.filterMap_append]
  rfl

theorem FdTable.after_other {image : Memory} {fdt : FdTable} {fd : Int} {event : Event}
    (used : (fdt fd).flags = 1) (keeps : event ≠ .close fd)
    (unread : ∀ buf nbytes, event ≠ .read fd buf nbytes) :
    fdt.after image event fd = fdt fd := by
  cases event with
  | openFile filename =>
      simp only [after]
      rcases openFile_cases image filename fdt with
        ⟨same, _⟩ | ⟨name, dentry, slot, desc, _, _, free, _, result⟩
      · rw [same]
      · have other : fd ≠ slot := by
          rintro rfl
          have := (findDesc_some free).2.1
          omega
        rw [result]
        exact Function.update_of_ne other _ _
  | close slot =>
      have other : fd ≠ slot := fun same => keeps (by rw [same])
      simp only [after, close]
      split
      · exact Function.update_of_ne other _ _
      · rfl
  | read slot buf nbytes =>
      have other : fd ≠ slot := fun same => unread buf nbytes (by rw [same])
      obtain ⟨position, moved⟩ := read_position image slot buf nbytes fdt
      simp only [after]
      rw [moved, Function.update_of_ne other]
  | _ => rfl

section Held

variable {platform : Platform} {machine next : Machine} {event : Event} {reply : Reply}
  {trace : Trace} {pid fd : Int}

theorem Machine.read_reply {buf : Option Memory} {nbytes : Int}
    (sound : machine.kernel.processView.Sound)
    (fired : machine.step platform (.read fd buf nbytes) = some (next, reply)) :
    reply = (machine.callerTable.read platform.image fd buf nbytes).2 := by
  have answered := (call_eq_some fired).2
  have own := (Kernel.read_table platform fd buf nbytes machine.kernel).2
  rw [answered, (Kernel.currentPcb_running platform sound).1] at own
  exact own

/-- An account of a held descriptor in terms of its reads so far, kept by every
read with a count that is allowed. -/
structure Accounts (image : Memory) (fd : Int) (allowed : Int → Prop)
    (account : FileDesc → List FdRead → Prop) : Prop where
  used : ∀ {desc reads}, account desc reads → desc.flags = 1
  read : ∀ {fdt : FdTable} {reads : List FdRead} (buf : Option Memory) {nbytes : Int},
    account (fdt fd) reads → allowed nbytes →
    account ((fdt.read image fd buf nbytes).1 fd)
      (reads ++ [⟨buf, nbytes, (fdt.read image fd buf nbytes).2⟩])

variable {allowed : Int → Prop} {account : FileDesc → List FdRead → Prop}

theorem Accounts.step (accounts : Accounts platform.image fd allowed account)
    (sound : machine.kernel.processView.Sound) (alive : machine.kernel.live pid)
    (fired : machine.step platform event = some (next, reply))
    (keeps : KeepsOpen pid fd ⟨machine, event, reply, next⟩)
    (within : ∀ read ∈ FdRead.ofStep pid fd ⟨machine, event, reply, next⟩,
      allowed read.nbytes)
    (before : account (machine.kernel.table pid fd) (fdReads pid fd trace)) :
    account (next.kernel.table pid fd)
      (fdReads pid fd (trace ++ [⟨machine, event, reply, next⟩])) := by
  have moved := Machine.step_table sound fired alive keeps.alive
  rw [fdReads_snoc]
  by_cases own : pid = machine.caller
  · rw [if_pos own] at moved
    rw [moved]
    by_cases reads : ∃ buf nbytes, event = .read fd buf nbytes
    · obtain ⟨buf, nbytes, rfl⟩ := reads
      have answered := Machine.read_reply sound fired
      rw [Machine.callerTable, ← own] at answered
      have call : FdRead.ofStep pid fd ⟨machine, .read fd buf nbytes, reply, next⟩ =
          some ⟨buf, nbytes, reply⟩ := by
        simp [FdRead.ofStep, own]
      rw [call, answered]
      exact accounts.read buf before (within _ call)
    · have unread : ∀ buf nbytes, event ≠ .read fd buf nbytes := fun buf nbytes read =>
        reads ⟨buf, nbytes, read⟩
      have silent : FdRead.ofStep pid fd ⟨machine, event, reply, next⟩ = none := by
        simp only [FdRead.ofStep, if_pos own.symm]
        split
        · rename_i other buf nbytes
          exact if_neg fun same => unread buf nbytes (by rw [same])
        · rfl
      rw [FdTable.after_other (accounts.used before) (keeps.keeps own.symm) unread, silent]
      simpa using before
  · rw [if_neg own] at moved
    have silent : FdRead.ofStep pid fd ⟨machine, event, reply, next⟩ = none :=
      if_neg fun same => own same.symm
    rw [moved, silent]
    simpa using before

theorem Accounts.run {start opened : Machine} {earlier : Trace}
    (accounts : Accounts platform.image fd allowed account)
    (began : Launched platform start)
    (before : Run (Machine.step platform) start earlier opened)
    (alive : opened.kernel.live pid) (first : account (opened.kernel.table pid fd) [])
    (later : Run (Machine.step platform) opened trace machine)
    (keeps : ∀ transition ∈ trace, KeepsOpen pid fd transition)
    (within : ∀ read ∈ fdReads pid fd trace, allowed read.nbytes) :
    machine.kernel.live pid ∧
      account (machine.kernel.table pid fd) (fdReads pid fd trace) := by
  induction later with
  | nil => exact ⟨alive, first⟩
  | snoc shorter fired induction =>
      rw [fdReads_snoc] at within
      obtain ⟨still, accounted⟩ := induction
        (fun transition member => keeps transition (List.mem_append_left _ member))
        (fun read member => within read (List.mem_append_left _ member))
      have last := keeps _ List.mem_concat_self
      have sound := Reachable.sound ⟨start, _, began, before.append shorter⟩
      refine ⟨last.alive, accounts.step sound still fired last ?_ accounted⟩
      intro read call
      exact within read (List.mem_append_right _ (Option.mem_toList.mpr call))

theorem Machine.opened_desc {name : CString} {dentry : Dentry}
    (sound : machine.kernel.processView.Sound)
    (opens : machine.step platform (.openFile (some name)) = some (next, .ret fd))
    (onDisk : 2 ≤ fd) (found : readDentryByName platform.image name = some dentry) :
    fd ≤ maxFdNum ∧ next.kernel.live machine.caller ∧
      openDesc dentry (machine.callerTable fd) =
        some (next.kernel.table machine.caller fd) := by
  have alive : machine.kernel.live machine.caller := Kernel.live_running sound
  have still := ((Machine.step_kernel opens).plain_effect rfl).live_iff.mpr alive
  have moved := Machine.step_table sound opens alive still
  rw [if_pos rfl] at moved
  have answered := Outcome.ret.inj (Machine.openFile_reply sound opens)
  rcases FdTable.openFile_cases platform.image (some name) machine.callerTable with
    ⟨_, low⟩ | ⟨_, _, slot, desc, same, again, free, opened, result⟩
  · omega
  · obtain rfl := Option.some.inj same
    obtain rfl := Option.some.inj (found.symm.trans again)
    obtain rfl : fd = slot := by
      rw [answered, result]
    refine ⟨(FdTable.findDesc_some free).1.2, still, ?_⟩
    rw [opened, moved]
    simp only [FdTable.after]
    rw [Machine.callerTable] at result
    rw [result]
    simp only [Function.update_self]

end Held

namespace Sample

theorem caller_start : start.caller = 1 := by
  decide +kernel

theorem opens {name : CString}
    (fires : (start.step platform (.openFile (some name))).isSome = true)
    (answer : (start.callerTable.openFile platform.image (some name)).2 = 2) :
    start.step platform (.openFile (some name)) =
      some ((fire start (.openFile (some name)) fires).after, .ret 2) := by
  have fired := fire_eq start (.openFile (some name)) fires
  have replied := Machine.openFile_reply launched.sound fired
  rw [answer] at replied
  rwa [replied] at fired

theorem read_keeps {state : Machine} {buf : Option Memory} {nbytes : Int}
    (fires : (state.step platform (.read 2 buf nbytes)).isSome = true)
    (alive : (fire state (.read 2 buf nbytes) fires).after.kernel.live 1) :
    KeepsOpen 1 2 (fire state (.read 2 buf nbytes) fires) :=
  ⟨alive, fun _ => Event.noConfusion⟩

end Sample

end Ece391Os
