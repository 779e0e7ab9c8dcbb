import Ece391Os.Process.Invariant

namespace Ece391Os

open Data

/-! The descriptor table of a process.  What a call of the process does to its
table, and what it answers, depends on the table and the image alone. -/

abbrev FdTable := Int → FileDesc

namespace FdTable

def openFile (image : Memory) (filename : Option CString) (fdt : FdTable) : FdTable × Int :=
  match filename with
  | none => (fdt, -1)
  | some name =>
      if strncmp name.memory emptyName.memory name.strlen = 0 then (fdt, -1)
      else if strncmp name.memory stdinName.memory name.strlen = 0 then (fdt, 0)
      else if strncmp name.memory stdoutName.memory name.strlen = 0 then (fdt, 1)
      else
        match readDentryByName image name with
        | none => (fdt, -1)
        | some dentry =>
            match findDesc fdt with
            | none => (fdt, -1)
            | some fd =>
                match openDesc dentry (fdt fd) with
                | none => (fdt, -1)
                | some desc => (Function.update fdt fd desc, fd)

def close (fd : Int) (fdt : FdTable) : FdTable × Int :=
  if (2 ≤ fd ∧ fd ≤ maxFdNum) ∧ (fdt fd).flags = 1 then
    (Function.update fdt fd { fdt fd with flags := -1 }, 0)
  else (fdt, -1)

/-- A read of a file or directory; a null buffer faults at the first byte. -/
def deliver (fd : Int) (buf : Option Memory) (answer : Memory → ReadResult)
    (fdt : FdTable) : FdTable × Reply :=
  match buf with
  | none =>
      if (answer fun _ => 0).ret ≠ 0 ∧ (answer fun _ => 0).ret ≠ -1 then (fdt, .fault)
      else (Function.update fdt fd (answer fun _ => 0).desc, .ret (answer fun _ => 0).ret)
  | some bytes =>
      (Function.update fdt fd (answer bytes).desc,
        .read (answer bytes).ret (answer bytes).buf)

def read (image : Memory) (fd : Int) (buf : Option Memory) (nbytes : Int)
    (fdt : FdTable) : FdTable × Reply :=
  if fd < 0 ∨ maxFdNum < fd then (fdt, .ret (-1))
  else if (fdt fd).flags = -1 then (fdt, .ret (-1))
  else
    match (fdt fd).jumpPtr with
    | .stdinTable =>
        match buf with
        | none => (fdt, .ret (-1))
        | some bytes =>
            if nbytes < 0 then (fdt, .ret (-1)) else (fdt, .wait (.terminal bytes nbytes))
    | .rtcTable => (fdt, .wait .rtc)
    | .fileTable =>
        fdt.deliver fd buf fun bytes => fileRead image (fdt fd) bytes nbytes
    | .dirTable => fdt.deliver fd buf fun bytes => dirRead image (fdt fd) bytes
    | .stdoutTable => (fdt, .ret (-1))
    | .wild => (fdt, .fault)

def after (image : Memory) (event : Event) (fdt : FdTable) : FdTable :=
  match event with
  | .openFile filename => (fdt.openFile image filename).1
  | .close fd => (fdt.close fd).1
  | .read fd buf nbytes => (fdt.read image fd buf nbytes).1
  | _ => fdt

end FdTable

namespace Kernel

variable {platform : Platform} {kernel : Kernel}

def table (kernel : Kernel) (pid : Int) : FdTable := (kernel.pcb pid).fdt

theorem openFile_table (platform : Platform) (filename : Option CString)
    (kernel : Kernel) :
    ((kernel.openFile platform filename).1.pcbAt (kernel.currentPcb platform)).fdt =
        (FdTable.openFile platform.image filename
          (kernel.pcbAt (kernel.currentPcb platform)).fdt).1 ∧
      (kernel.openFile platform filename).2 =
        .ret (FdTable.openFile platform.image filename
          (kernel.pcbAt (kernel.currentPcb platform)).fdt).2 := by
  cases filename with
  | none => exact ⟨rfl, rfl⟩
  | some name =>
      simp only [openFile, FdTable.openFile]
      split
      · exact ⟨rfl, rfl⟩
      · split
        · exact ⟨rfl, rfl⟩
        · split
          · exact ⟨rfl, rfl⟩
          · cases readDentryByName platform.image name with
            | none => exact ⟨rfl, rfl⟩
            | some dentry =>
                simp only
                cases findDesc (kernel.pcbAt (kernel.currentPcb platform)).fdt with
                | none => exact ⟨rfl, rfl⟩
                | some fd =>
                    simp only
                    cases openDesc dentry
                        ((kernel.pcbAt (kernel.currentPcb platform)).fdt fd) with
                    | none => exact ⟨rfl, rfl⟩
                    | some desc =>
                        refine ⟨?_, rfl⟩
                        simp only
                        split <;> simp [setDesc, modifyPcb]

theorem close_table (platform : Platform) (fd : Int) (kernel : Kernel) :
    ((kernel.close platform fd).1.pcbAt (kernel.currentPcb platform)).fdt =
        (FdTable.close fd (kernel.pcbAt (kernel.currentPcb platform)).fdt).1 ∧
      (kernel.close platform fd).2 =
        .ret (FdTable.close fd (kernel.pcbAt (kernel.currentPcb platform)).fdt).2 := by
  simp only [close, closeAt, FdTable.close]
  by_cases inside : 2 ≤ fd ∧ fd ≤ maxFdNum
  · rw [if_neg (by omega : ¬ (fd < 2 ∨ maxFdNum < fd))]
    by_cases used : ((kernel.pcbAt (kernel.currentPcb platform)).fdt fd).flags = 1
    · rw [if_pos used, if_pos ⟨inside, used⟩]
      refine ⟨?_, rfl⟩
      cases ((kernel.pcbAt (kernel.currentPcb platform)).fdt fd).jumpPtr <;>
        simp [callClose, setDesc, modifyPcb]
    · rw [if_neg used, if_neg fun both => used both.2]
      exact ⟨rfl, rfl⟩
  · rw [if_pos (by omega : fd < 2 ∨ maxFdNum < fd), if_neg fun both => inside both.1]
    exact ⟨rfl, rfl⟩

theorem read_table (platform : Platform) (fd : Int) (buf : Option Memory) (nbytes : Int)
    (kernel : Kernel) :
    ((kernel.read platform fd buf nbytes).1.pcbAt (kernel.currentPcb platform)).fdt =
        (FdTable.read platform.image fd buf nbytes
          (kernel.pcbAt (kernel.currentPcb platform)).fdt).1 ∧
      (kernel.read platform fd buf nbytes).2 =
        (FdTable.read platform.image fd buf nbytes
          (kernel.pcbAt (kernel.currentPcb platform)).fdt).2 := by
  simp only [read, FdTable.read]
  split
  · exact ⟨rfl, rfl⟩
  · split
    · exact ⟨rfl, rfl⟩
    · cases ((kernel.pcbAt (kernel.currentPcb platform)).fdt fd).jumpPtr with
      | stdinTable =>
          cases buf with
          | none => exact ⟨rfl, rfl⟩
          | some bytes =>
              simp only
              split <;> exact ⟨rfl, rfl⟩
      | fileTable =>
          cases buf with
          | none =>
              simp only [FdTable.deliver]
              split
              · exact ⟨rfl, rfl⟩
              · exact ⟨by simp [setDesc, modifyPcb], rfl⟩
          | some bytes => exact ⟨by simp [setDesc, modifyPcb, FdTable.deliver], rfl⟩
      | dirTable =>
          cases buf with
          | none =>
              simp only [FdTable.deliver]
              split
              · exact ⟨rfl, rfl⟩
              · exact ⟨by simp [setDesc, modifyPcb], rfl⟩
          | some bytes => exact ⟨by simp [setDesc, modifyPcb, FdTable.deliver], rfl⟩
      | rtcTable | stdoutTable | wild => exact ⟨rfl, rfl⟩

/-! The tables of the other processes, and calls that touch no table. -/

theorem table_serviced {kernel' : Kernel} {pid : Int} (sound : kernel.processView.Sound)
    (done : Serviced (kernel.currentPcb platform) kernel kernel') (alive : kernel.live pid)
    (other : pid ≠ kernel.running.processNum) : kernel'.table pid = kernel.table pid := by
  obtain ⟨fdt, console, rtc, memory, rfl⟩ := done
  have apart := pcbAddr_ne_of_live alive (live_running sound) other
  rw [← (currentPcb_running platform sound).1] at apart
  simp only [table, pcb, serviced]
  rw [Function.update_of_ne apart]

theorem table_terminated {pid : Int} (console : Console)
    (sound : kernel.processView.Sound)
    (still : (kernel.terminated (kernel.currentPcb platform) console).live pid) :
    (kernel.terminated (kernel.currentPcb platform) console).table pid =
      kernel.table pid := by
  obtain ⟨address, own⟩ := currentPcb_running platform sound
  have other : pid ≠ kernel.running.processNum := by
    rintro rfl
    apply still.2
    simp only [terminated, address]
    rw [← pcb, own, Function.update_self]
  have apart := pcbAddr_ne_of_live still (live_running sound) other
  simp only [table, pcb, terminated, address]
  rw [Function.update_of_ne apart]

theorem table_started {pid : Int} {slot : Nat} {child : Pcb} (memory : Memory)
    (slots : Int → Int) (alive : kernel.live pid)
    (inside : slot < maxProgs) (free : kernel.processArray slot = -1)
    (childPid : child.pid = slot + 1) :
    ({ kernel with processArray := slots }.started child memory).table pid =
      kernel.table pid := by
  have different : pid ≠ slot + 1 := by
    rintro rfl
    exact alive.2 (by simpa using free)
  have apart : pcbAddr pid ≠ pcbAddr child.pid := by
    rw [childPid]
    intro same
    simp only [maxProgs] at inside
    exact different (pcbAddr_injective alive.1.1 alive.1.2 (by omega) (by omega) same)
  simp only [table, pcb, started_pcbAt]
  rw [Function.update_of_ne apart]

theorem table_execute {pid : Int} (command : CString) (frame : StackFrame)
    (sound : kernel.processView.Sound) (alive : kernel.live pid) :
    (kernel.execute platform command frame).1.table pid = kernel.table pid := by
  rcases execute_outcome platform command frame sound with
    refused | ⟨_, slot, memory, _, found, succeeded⟩
  · rw [refused]
  · obtain ⟨inside, free⟩ := findSlot_some found
    rw [succeeded]
    exact table_started memory _ alive inside free rfl

theorem table_halt {pid : Int} (status : UInt8) (sound : kernel.processView.Sound)
    (still : (kernel.halt platform status).1.live pid) :
    (kernel.halt platform status).1.table pid = kernel.table pid := by
  by_cases base : isBaseShell (kernel.pcbAt (kernel.currentPcb platform)).pid
  · rw [halt_base status base]
  · obtain ⟨console, _, halted⟩ := halt_eq status base
    rw [halted] at still ⊢
    exact table_terminated console sound still

theorem pcbAt_write (platform : Platform) (fd : Int) (buf : Option Memory) (nbytes : Int)
    (kernel : Kernel) : (kernel.write platform fd buf nbytes).1.pcbAt = kernel.pcbAt := by
  simp only [write]
  repeat' split
  all_goals rfl

theorem pcbAt_getargs (platform : Platform) (buf : Nat) (nbytes : Int) (kernel : Kernel) :
    (kernel.getargs platform buf nbytes).1.pcbAt = kernel.pcbAt := by
  simp only [getargs]
  repeat' split
  all_goals rfl

theorem pcbAt_finishRead {pending : BlockedRead} {result : Kernel × Reply}
    (ready : kernel.finishRead pending = some result) :
    result.1.pcbAt = kernel.pcbAt := by
  obtain ⟨buf, nbytes, -, -, rfl⟩ | ⟨-, -, rfl⟩ := finishRead_cases ready
  · rfl
  · rfl

theorem table_vidmap (platform : Platform) (screenStart : Nat) (pid : Int)
    (kernel : Kernel) :
    (kernel.vidmap platform screenStart).1.table pid = kernel.table pid := by
  rcases vidmap_cases platform screenStart kernel with
    refused | ⟨_, memory, _, _, mapped⟩
  · rw [refused]
  · have kept : (fun place =>
          ((kernel.vidmapped (kernel.currentPcb platform) memory).pcbAt place).fdt) =
        fun place => (kernel.pcbAt place).fdt := value_update Pcb.fdt rfl
    rw [mapped]
    exact congrFun kept (pcbAddr pid)

/-- What an event does to the table of a process that stays: a call of its own
does what the table functions say, and nothing else touches it. -/
theorem Step.table {event : Event} {result : Kernel × Reply} {pid : Int}
    (fired : Step platform kernel event result) (sound : kernel.processView.Sound)
    (alive : kernel.live pid) (still : result.1.live pid) :
    result.1.table pid =
      if pid = kernel.running.processNum then (kernel.table pid).after platform.image event
      else kernel.table pid := by
  have address := (currentPcb_running platform sound).1
  have called {kernel' : Kernel} {event : Event}
      (done : Serviced (kernel.currentPcb platform) kernel kernel')
      (own : (kernel'.pcbAt (kernel.currentPcb platform)).fdt =
        FdTable.after platform.image event (kernel.pcbAt (kernel.currentPcb platform)).fdt) :
      kernel'.table pid =
        if pid = kernel.running.processNum then (kernel.table pid).after platform.image event
        else kernel.table pid := by
    by_cases here : pid = kernel.running.processNum
    · rw [if_pos here, here]
      rw [address] at own
      exact own
    · rw [if_neg here]
      exact table_serviced sound done alive here
  cases fired with
  | openFile filename =>
      exact called (openFile_serviced platform filename kernel)
        (openFile_table platform filename kernel).1
  | close fd =>
      exact called (close_serviced platform fd kernel)
        (close_table platform fd kernel).1
  | read fd buf nbytes =>
      exact called (read_serviced platform fd buf nbytes kernel)
        (read_table platform fd buf nbytes kernel).1
  | halt status => exact (table_halt status sound still).trans (ite_self _).symm
  | execute command frame =>
      exact (table_execute command frame sound alive).trans (ite_self _).symm
  | exception vector child =>
      obtain ⟨console, _, ended⟩ := exceptionHandler_eq platform vector kernel
      rw [ended] at still ⊢
      exact (table_terminated console sound still).trans (ite_self _).symm
  | write fd buf nbytes =>
      have same : (kernel.write platform fd buf nbytes).1.table pid = kernel.table pid := by
        simp only [Kernel.table, pcb, pcbAt_write]
      exact same.trans (ite_self _).symm
  | getargs buf nbytes =>
      have same : (kernel.getargs platform buf nbytes).1.table pid = kernel.table pid := by
        simp only [Kernel.table, pcb, pcbAt_getargs]
      exact same.trans (ite_self _).symm
  | finishRead pending result ready =>
      have same : result.1.table pid = kernel.table pid := by
        simp only [Kernel.table, pcb, pcbAt_finishRead ready]
      exact same.trans (ite_self _).symm
  | vidmap screenStart =>
      exact (table_vidmap platform screenStart pid kernel).trans (ite_self _).symm
  | tick esp ebp =>
      have active : kernel.prevSchedTerm ≠ none := by
        obtain ⟨_, _, runs⟩ := sound
        exact runs.active
      obtain ⟨mask, switched⟩ := pitInterruptHandler_eq esp ebp active
      rw [switched]
      exact (ite_self _).symm
  | key scanCode =>
      obtain ⟨mask, ignored | typed⟩ := kernel.keyboardInterruptHandler_cases scanCode
      · rw [ignored]
        exact (ite_self _).symm
      · rw [typed]
        exact (ite_self _).symm
  | setHandler | sigreturn | rtcInterrupt => exact (ite_self _).symm

theorem live_congr {kernel' : Kernel} {pid : Int}
    (same : kernel'.processArray = kernel.processArray) :
    kernel'.live pid ↔ kernel.live pid := by
  simp only [live, same]

theorem PlainEffect.live_iff {kernel' : Kernel} {pid : Int}
    (effect : PlainEffect platform kernel kernel') :
    kernel'.live pid ↔ kernel.live pid :=
  live_congr (congrArg ProcessView.processArray effect.processView)

theorem Effect.table_new {kernel' : Kernel} {pid : Int}
    (effect : Effect platform kernel kernel') (sound : kernel.processView.Sound)
    (dead : ¬ kernel.live pid) (born : kernel'.live pid) :
    ∃ stale, kernel'.table pid = freshFdt stale := by
  cases effect with
  | plain effect => exact absurd (effect.live_iff.mp born) dead
  | started command frame memory room =>
      have counted := (processNum_pos sound).1
      obtain ⟨slot, found⟩ := Option.isSome_iff_exists.mp
        (findSlot_isSome (by omega : usedSlots kernel.processArray < maxProgs))
      rw [claimSlot_some _ found] at born ⊢
      have child : pid = slot + 1 := by
        by_contra other
        apply dead
        refine ⟨born.1, ?_⟩
        have used := born.2
        simp only [Kernel.started] at used
        rwa [Function.update_of_ne (by omega)] at used
      refine ⟨frame.pcb.fdt, ?_⟩
      have own : pcbAddr pid =
          pcbAddr (childPcb frame command (slot + 1) kernel.running.processNum).pid := by
        rw [child]
        rfl
      simp only [Kernel.table, pcb, started_pcbAt, own, Function.update_self]
      rfl
  | terminated console child =>
      refine absurd ⟨born.1, ?_⟩ dead
      have used := born.2
      simp only [Kernel.terminated] at used
      intro free
      apply used
      by_cases here : pid - 1 = (kernel.pcbAt (kernel.currentPcb platform)).pid - 1
      · rw [here, Function.update_self]
      · rwa [Function.update_of_ne here]
  | ticked esp ebp mask => exact absurd born dead

end Kernel

/-! Tables in themselves. -/

namespace FdTable

variable {image : Memory} {fdt : FdTable}

def typeTable : Nat → Option JumpTable
  | 0 => some .rtcTable
  | 1 => some .dirTable
  | 2 => some .fileTable
  | _ => none

theorem openDesc_some {dentry : Dentry} {stale desc : FileDesc}
    (opened : openDesc dentry stale = some desc) :
    desc.flags = 1 ∧ desc.filePosition = 0 ∧
      typeTable dentry.fileType = some desc.jumpPtr ∧
      (dentry.fileType = 2 → desc.inode = i32 dentry.inodeNum) := by
  simp only [openDesc] at opened
  split at opened
  · rename_i type
    obtain rfl := Option.some.inj opened
    simp [type, typeTable]
  · rename_i type
    obtain rfl := Option.some.inj opened
    simp [type, typeTable]
  · rename_i type
    obtain rfl := Option.some.inj opened
    simp [type, typeTable]
  · cases opened

theorem openDesc_isSome (dentry : Dentry) (stale : FileDesc) :
    (openDesc dentry stale).isSome = (typeTable dentry.fileType).isSome := by
  simp only [openDesc, typeTable]
  split <;> simp [*]

theorem findDesc_some {fd : Int} (found : findDesc fdt = some fd) :
    (2 ≤ fd ∧ fd ≤ maxFdNum) ∧ (fdt fd).flags = -1 ∧
      ∀ lower, 2 ≤ lower → lower < fd → (fdt lower).flags ≠ -1 := by
  obtain ⟨free, before, after, split, skipped⟩ := List.find?_eq_some_iff_append.mp found
  have sorted : (before ++ fd :: after).Pairwise (· < ·) := split ▸ (by decide)
  have listed : fd ∈ [2, 3, 4, 5, 6, (7 : Int)] := split ▸ (by simp)
  have range : 2 ≤ fd ∧ fd ≤ 7 := by
    simp only [List.mem_cons, List.not_mem_nil, or_false] at listed
    omega
  refine ⟨range, by simpa using free, ?_⟩
  intro lower above below
  have earlier : lower ∈ before ++ fd :: after := by
    rw [← split]
    simp only [List.mem_cons, List.not_mem_nil, or_false]
    omega
  rcases List.mem_append.mp earlier with skip | rest
  · simpa using skipped lower skip
  · rcases List.mem_cons.mp rest with same | later
    · omega
    · have := List.rel_of_pairwise_cons (List.pairwise_append.mp sorted).2.1 later
      omega

theorem findDesc_none_iff :
    findDesc fdt = none ↔ ∀ fd, 2 ≤ fd → fd ≤ maxFdNum → (fdt fd).flags ≠ -1 := by
  simp only [findDesc, List.find?_eq_none, decide_eq_true_eq]
  constructor
  · intro none fd above below
    apply none fd
    simp only [maxFdNum] at below
    simp only [List.mem_cons, List.not_mem_nil, or_false]
    omega
  · intro none fd listed
    simp only [List.mem_cons, List.not_mem_nil, or_false] at listed
    exact none fd (by omega) (by simp only [maxFdNum]; omega)

/-- Names `open` takes for the terminal or refuses before it looks at the disk. -/
def skipsDisk (name : CString) : Prop :=
  strncmp name.memory emptyName.memory name.strlen = 0 ∨
    strncmp name.memory stdinName.memory name.strlen = 0 ∨
    strncmp name.memory stdoutName.memory name.strlen = 0

instance (name : CString) : Decidable (skipsDisk name) :=
  inferInstanceAs (Decidable (_ ∨ _))

theorem openFile_cases (image : Memory) (filename : Option CString) (fdt : FdTable) :
    ((fdt.openFile image filename).1 = fdt ∧
      ((fdt.openFile image filename).2 = -1 ∨ (fdt.openFile image filename).2 = 0 ∨
        (fdt.openFile image filename).2 = 1)) ∨
    ∃ name dentry fd desc, filename = some name ∧
      readDentryByName image name = some dentry ∧ findDesc fdt = some fd ∧
      openDesc dentry (fdt fd) = some desc ∧
      fdt.openFile image filename = (Function.update fdt fd desc, fd) := by
  cases filename with
  | none => exact .inl ⟨rfl, .inl rfl⟩
  | some name =>
      simp only [openFile]
      split
      · exact .inl ⟨rfl, .inl rfl⟩
      · split
        · exact .inl ⟨rfl, .inr (.inl rfl)⟩
        · split
          · exact .inl ⟨rfl, .inr (.inr rfl)⟩
          · cases found : readDentryByName image name with
            | none => exact .inl ⟨rfl, .inl rfl⟩
            | some dentry =>
                cases free : findDesc fdt with
                | none => exact .inl ⟨rfl, .inl rfl⟩
                | some fd =>
                    cases opened : openDesc dentry (fdt fd) with
                    | none =>
                        simp only [opened]
                        exact .inl ⟨trivial, .inl trivial⟩
                    | some desc =>
                        simp only [opened]
                        exact .inr ⟨name, dentry, fd, desc, rfl, found, rfl, opened, rfl⟩

theorem openFile_fails_iff {name : CString} {dentry : Dentry} (disk : ¬ skipsDisk name)
    (found : readDentryByName image name = some dentry)
    (known : (typeTable dentry.fileType).isSome) :
    (fdt.openFile image (some name)).2 = -1 ↔ findDesc fdt = none := by
  simp only [skipsDisk, not_or] at disk
  simp only [openFile, if_neg disk.1, if_neg disk.2.1, if_neg disk.2.2, found]
  cases free : findDesc fdt with
  | none => simp
  | some fd =>
      rw [← openDesc_isSome dentry (fdt fd)] at known
      obtain ⟨desc, opened⟩ := Option.isSome_iff_exists.mp known
      have range := (findDesc_some free).1
      simp only [opened]
      constructor
      · intro failed
        omega
      · intro impossible
        cases impossible

/-! Reading moves a position and nothing else. -/

theorem fileRead_desc (image : Memory) (desc : FileDesc) (buf : Memory) (nbytes : Int) :
    ∃ position, (fileRead image desc buf nbytes).desc =
      { desc with filePosition := position } := by
  simp only [fileRead]
  split
  · exact ⟨desc.filePosition, rfl⟩
  · split
    · exact ⟨desc.filePosition, rfl⟩
    · exact ⟨_, rfl⟩

theorem dirRead_desc (image : Memory) (desc : FileDesc) (buf : Memory) :
    ∃ position, (dirRead image desc buf).desc = { desc with filePosition := position } := by
  simp only [dirRead]
  split
  · exact ⟨desc.filePosition, rfl⟩
  · split
    · exact ⟨desc.filePosition, rfl⟩
    · split
      · exact ⟨desc.filePosition, rfl⟩
      · exact ⟨_, rfl⟩

theorem deliver_position {answer : Memory → ReadResult} (fd : Int) (buf : Option Memory)
    (moves : ∀ bytes, ∃ position, (answer bytes).desc =
      { fdt fd with filePosition := position }) :
    ∃ position, (fdt.deliver fd buf answer).1 =
      Function.update fdt fd { fdt fd with filePosition := position } := by
  have unmoved : fdt = Function.update fdt fd
      { fdt fd with filePosition := (fdt fd).filePosition } :=
    (Function.update_eq_self fd fdt).symm
  cases buf with
  | none =>
      simp only [deliver]
      split
      · exact ⟨_, unmoved⟩
      · obtain ⟨position, moved⟩ := moves fun _ => 0
        exact ⟨position, by rw [moved]⟩
  | some bytes =>
      obtain ⟨position, moved⟩ := moves bytes
      exact ⟨position, by simp only [deliver]; rw [moved]⟩

theorem read_position (image : Memory) (fd : Int) (buf : Option Memory) (nbytes : Int)
    (fdt : FdTable) :
    ∃ position, (fdt.read image fd buf nbytes).1 =
      Function.update fdt fd { fdt fd with filePosition := position } := by
  have unmoved : fdt = Function.update fdt fd
      { fdt fd with filePosition := (fdt fd).filePosition } :=
    (Function.update_eq_self fd fdt).symm
  simp only [read]
  split
  · exact ⟨_, unmoved⟩
  · split
    · exact ⟨_, unmoved⟩
    · split
      · split
        · exact ⟨_, unmoved⟩
        · split <;> exact ⟨_, unmoved⟩
      · exact ⟨_, unmoved⟩
      · exact deliver_position fd buf fun bytes => fileRead_desc image _ bytes nbytes
      · exact deliver_position fd buf fun bytes => dirRead_desc image _ bytes
      · exact ⟨_, unmoved⟩
      · exact ⟨_, unmoved⟩

def inUse (fdt : FdTable) (fd : Int) : Prop :=
  0 ≤ fd ∧ fd ≤ maxFdNum ∧ (fdt fd).flags = 1

def held (fdt : FdTable) : Nat :=
  [2, 3, 4, 5, 6, 7].countP fun fd => (fdt fd).flags = 1

structure Valid (fdt : FdTable) : Prop where
  stdin : (fdt 0).flags = 1 ∧ (fdt 0).jumpPtr = .stdinTable
  stdout : (fdt 1).flags = 1 ∧ (fdt 1).jumpPtr = .stdoutTable
  flags : ∀ fd, 0 ≤ fd → fd ≤ maxFdNum → (fdt fd).flags = 1 ∨ (fdt fd).flags = -1

theorem Valid.fresh (stale : FdTable) : Valid (freshFdt stale) := by
  refine ⟨⟨rfl, rfl⟩, ⟨rfl, rfl⟩, ?_⟩
  intro fd above below
  simp only [freshFdt]
  split
  · exact .inl rfl
  · split
    · exact .inl rfl
    · rw [if_pos (by omega)]
      exact .inr rfl

theorem Valid.update {fd : Int} {desc : FileDesc} (valid : fdt.Valid)
    (changed : desc.flags = 1 ∨ desc.flags = -1)
    (kept : 2 ≤ fd ∨ desc.flags = (fdt fd).flags ∧ desc.jumpPtr = (fdt fd).jumpPtr) :
    Valid (Function.update fdt fd desc) := by
  have low {at_ : Int} (bound : at_ < 2) :
      (Function.update fdt fd desc at_).flags = (fdt at_).flags ∧
        (Function.update fdt fd desc at_).jumpPtr = (fdt at_).jumpPtr := by
    by_cases here : at_ = fd
    · rw [← here] at kept ⊢
      rw [Function.update_self]
      exact kept.resolve_left (by omega)
    · rw [Function.update_of_ne here]
      exact ⟨rfl, rfl⟩
  refine ⟨?_, ?_, ?_⟩
  · rw [(low (by omega)).1, (low (by omega)).2]
    exact valid.stdin
  · rw [(low (by omega)).1, (low (by omega)).2]
    exact valid.stdout
  · intro other above below
    by_cases here : other = fd
    · rw [here, Function.update_self]
      exact changed
    · rw [Function.update_of_ne here]
      exact valid.flags other above below

theorem Valid.openFile (valid : fdt.Valid) (filename : Option CString) :
    (fdt.openFile image filename).1.Valid := by
  rcases openFile_cases image filename fdt with
    ⟨same, _⟩ | ⟨name, dentry, fd, desc, _, _, free, opened, result⟩
  · rwa [same]
  · rw [result]
    exact valid.update (.inl (openDesc_some opened).1) (.inl (findDesc_some free).1.1)

theorem Valid.close (valid : fdt.Valid) (fd : Int) : (fdt.close fd).1.Valid := by
  simp only [FdTable.close]
  split
  · rename_i open_
    exact valid.update (.inr rfl) (.inl open_.1.1)
  · exact valid

theorem Valid.read (valid : fdt.Valid) (fd : Int) (buf : Option Memory) (nbytes : Int) :
    (fdt.read image fd buf nbytes).1.Valid := by
  by_cases range : fd < 0 ∨ maxFdNum < fd
  · simpa only [FdTable.read, if_pos range] using valid
  · obtain ⟨position, moved⟩ := read_position image fd buf nbytes fdt
    rw [moved]
    exact valid.update (valid.flags fd (by omega) (by omega)) (.inr ⟨rfl, rfl⟩)

theorem Valid.after (valid : fdt.Valid) (event : Event) : (fdt.after image event).Valid := by
  cases event with
  | openFile filename => exact valid.openFile filename
  | close fd => exact valid.close fd
  | read fd buf nbytes => exact valid.read fd buf nbytes
  | _ => exact valid

theorem Valid.full_iff (valid : fdt.Valid) : findDesc fdt = none ↔ fdt.held = 6 := by
  rw [findDesc_none_iff]
  have counted : fdt.held = 6 ↔ ∀ fd ∈ [2, 3, 4, 5, 6, (7 : Int)],
      decide ((fdt fd).flags = 1) = true := List.countP_eq_length
  rw [counted]
  simp only [decide_eq_true_eq]
  constructor
  · intro full fd listed
    simp only [List.mem_cons, List.not_mem_nil, or_false] at listed
    have below : fd ≤ maxFdNum := by
      simp only [maxFdNum]
      omega
    exact (valid.flags fd (by omega) below).resolve_right (full fd (by omega) below)
  · intro full fd above below
    have listed : fd ∈ [2, 3, 4, 5, 6, (7 : Int)] := by
      simp only [maxFdNum] at below
      simp only [List.mem_cons, List.not_mem_nil, or_false]
      omega
    rw [full fd listed]
    decide

end FdTable

end Ece391Os
