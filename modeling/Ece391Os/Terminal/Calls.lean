import Ece391Os.Files.DescriptorRuns

namespace Ece391Os

open Data

/-! What the calls of a process do to the terminal driver. -/

def FdTable.offTerminal (fdt : FdTable) : Prop :=
  ∀ fd, 2 ≤ fd → fd ≤ maxFdNum → (fdt fd).flags = 1 →
    (fdt fd).jumpPtr ≠ .stdinTable ∧ (fdt fd).jumpPtr ≠ .stdoutTable

theorem FdTable.typeTable_ne {fileType : Nat} {table : JumpTable}
    (known : typeTable fileType = some table) :
    table ≠ .stdinTable ∧ table ≠ .stdoutTable := by
  simp only [typeTable] at known
  split at known
  · obtain rfl := Option.some.inj known
    decide
  · obtain rfl := Option.some.inj known
    decide
  · obtain rfl := Option.some.inj known
    decide
  · cases known

theorem DescriptorsOf.offTerminal {platform : Platform} {trace : Trace} {kernel : Kernel}
    {pid : Int} (descriptors : DescriptorsOf platform trace kernel pid) :
    (kernel.table pid).offTerminal := by
  intro fd above below used
  obtain ⟨_, _, _, _, record⟩ := descriptors.opened fd above below used
  obtain ⟨_, _, _, _, known, _⟩ := record.file
  exact FdTable.typeTable_ne known

theorem FdTable.offTerminal.closeDesc {fdt : FdTable} (off : fdt.offTerminal) (fd : Int) :
    FdTable.offTerminal (Ece391Os.closeDesc fdt fd) := by
  intro other above below used
  simp only [Ece391Os.closeDesc] at used ⊢
  split at used
  · rename_i closes
    rw [if_pos closes]
    by_cases here : other = fd
    · rw [here, Function.update_self] at used
      exact absurd used (by decide : (-1 : Int) ≠ 1)
    · rw [Function.update_of_ne here] at used ⊢
      exact off other above below used
  · rename_i keeps
    rw [if_neg keeps]
    exact off other above below used

namespace Kernel

variable {platform : Platform} {kernel : Kernel} {address : Nat}

theorem closeAt_console (fd : Int)
    (off : FdTable.offTerminal (kernel.pcbAt address).fdt) :
    (kernel.closeAt address fd).2.console = kernel.console := by
  simp only [closeAt]
  split
  · rfl
  · rename_i range
    split
    · rename_i used
      obtain ⟨stdin, stdout⟩ := off fd (by omega) (by omega) used
      cases table : ((kernel.pcbAt address).fdt fd).jumpPtr with
      | stdinTable => exact absurd table stdin
      | stdoutTable => exact absurd table stdout
      | rtcTable | fileTable | dirTable | wild => rfl
    · rfl

theorem closeList_console (fds : List Int)
    (off : FdTable.offTerminal (kernel.pcbAt address).fdt) :
    (fds.foldl (fun kernel fd => (kernel.closeAt address fd).2) kernel).console =
      kernel.console := by
  induction fds generalizing kernel with
  | nil => rfl
  | cons fd rest induction =>
      obtain ⟨console, _, first⟩ := closeAt_eq address fd kernel
      have still : FdTable.offTerminal ((kernel.closeAt address fd).2.pcbAt address).fdt := by
        rw [first]
        simp only [withFdt, Function.update_self]
        exact off.closeDesc fd
      rw [List.foldl_cons, induction still, closeAt_console fd off]

theorem releaseVidmap_console (address : Nat) (kernel : Kernel) :
    (kernel.releaseVidmap address).console = kernel.console := by
  simp only [releaseVidmap]
  split <;> rfl

theorem halt_console (status : UInt8)
    (off : FdTable.offTerminal (kernel.pcbAt (kernel.currentPcb platform)).fdt) :
    (kernel.halt platform status).1.console = kernel.console := by
  simp only [halt]
  split
  · rfl
  · rw [releaseVidmap_console]
    exact closeList_console _ off

theorem ending_console (off : FdTable.offTerminal (kernel.pcbAt address).fdt) :
    (kernel.dropProcess |>.freeSlot address |>.restorePid address
      |>.restoreEsp address |>.restoreEbp address |>.remapParent address
      |>.releaseVidmap address |>.closeAll address |>.restoreTss address).console =
      kernel.console := by
  set before := kernel.dropProcess |>.freeSlot address |>.restorePid address
    |>.restoreEsp address |>.restoreEbp address |>.remapParent address
  have blocks : (before.releaseVidmap address).pcbAt = kernel.pcbAt := by
    simp only [releaseVidmap]
    split <;> rfl
  have closed : ((before.releaseVidmap address).closeAll address).console =
      (before.releaseVidmap address).console :=
    closeList_console _ (by rw [blocks]; exact off)
  simp only [restoreTss]
  rw [closed, releaseVidmap_console]
  rfl

theorem exceptionHandler_console (vector : ExceptionVector)
    (off : FdTable.offTerminal (kernel.pcbAt (kernel.currentPcb platform)).fdt) :
    (kernel.exceptionHandler platform vector).1.console = kernel.printException vector := by
  simp only [exceptionHandler]
  rw [ending_console, printException]
  exact off

theorem execute_console (command : CString) (frame : StackFrame)
    (sound : kernel.processView.Sound) :
    (kernel.execute platform command frame).1.console = kernel.console := by
  rcases execute_outcome platform command frame sound with
    refused | ⟨_, _, memory, _, _, succeeded⟩
  · rw [refused]
  · rw [succeeded]
    rfl

end Kernel

/-- What a call prints: a `write` to the standard output its bytes, an exception
its message. -/
def Event.output : Event → List UInt8
  | .write fd (some bytes) nbytes =>
      if fd = 1 then (List.range nbytes.toNat).map bytes else []
  | .exception vector => ascii "Exception: " ++ ascii vector.message ++ [10]
  | _ => []

namespace Kernel

variable {platform : Platform} {kernel : Kernel}

/-- The consoles that calls leave when they do not reset the line of the viewed
terminal: with their output printed, or with the caller waiting for Enter. -/
inductive CallConsole (kernel : Kernel) (output : List UInt8) : Console → Prop
  | printed : CallConsole kernel output (kernel.console.putAll kernel.pages.videoPage output)
  | waiting (silent : output = []) :
      CallConsole kernel output (kernel.console.modifyShell kernel.curSchedTerm fun shell =>
        { shell with lineBufferFlag := 0 })

theorem CallConsole.kept (kernel : Kernel) : CallConsole kernel [] kernel.console := .printed

theorem read_console (platform : Platform) (fd : Int) (buf : Option Memory) (nbytes : Int)
    (kernel : Kernel) :
    CallConsole kernel [] (kernel.read platform fd buf nbytes).1.console := by
  simp only [read]
  repeat' split
  all_goals first
    | exact .kept kernel
    | exact .waiting rfl

theorem write_console (fd : Int) (buf : Option Memory) (nbytes : Int)
    (valid : FdTable.Valid (kernel.pcbAt (kernel.currentPcb platform)).fdt)
    (off : FdTable.offTerminal (kernel.pcbAt (kernel.currentPcb platform)).fdt) :
    (kernel.write platform fd buf nbytes).1.console =
      kernel.console.putAll kernel.pages.videoPage (Event.write fd buf nbytes).output := by
  by_cases stdout : fd = 1
  · subst stdout
    simp only [write, valid.stdout.1, valid.stdout.2, Console.terminalWrite]
    cases buf with
    | none => rfl
    | some bytes =>
        by_cases negative : nbytes < 0
        · have nothing : nbytes.toNat = 0 := by omega
          simp [Event.output, nothing, negative, maxFdNum, Console.putAll]
        · simp [Event.output, negative, maxFdNum]
  · have silent : (Event.write fd buf nbytes).output = [] := by
      cases buf with
      | none => rfl
      | some bytes => simp [Event.output, stdout]
    rw [silent]
    simp only [write]
    split
    · rfl
    · rename_i range
      split
      · rfl
      · rename_i used
        have used : ((kernel.pcbAt (kernel.currentPcb platform)).fdt fd).flags = 1 :=
          (valid.flags fd (by omega) (by omega)).resolve_right used
        split
        · rename_i table
          by_cases first : fd = 0
          · rw [first, valid.stdin.2] at table
            cases table
          · exact absurd table (off fd (by omega) (by omega) used).2
        all_goals rfl

theorem getargs_console (platform : Platform) (buf : Nat) (nbytes : Int) (kernel : Kernel) :
    (kernel.getargs platform buf nbytes).1.console = kernel.console := by
  simp only [getargs]
  repeat' split
  all_goals rfl

theorem vidmap_console (platform : Platform) (screenStart : Nat) (kernel : Kernel) :
    (kernel.vidmap platform screenStart).1.console = kernel.console := by
  rcases vidmap_cases platform screenStart kernel with
    refused | ⟨_, memory, _, _, mapped⟩
  · rw [refused]
  · rw [mapped]
    rfl

def namesTerminal (name : CString) : Prop :=
  name.bytes ≠ [] ∧ (name.bytes <+: stdinName.bytes ∨ name.bytes <+: stdoutName.bytes)

theorem openFile_console (platform : Platform) (name : CString) (kernel : Kernel) :
    (namesTerminal name ∧
      (kernel.openFile platform (some name)).1.console = kernel.console.terminalOpen) ∨
    (¬ namesTerminal name ∧
      (kernel.openFile platform (some name)).1.console = kernel.console) := by
  simp only [openFile, strncmp_strlen_eq_zero, namesTerminal]
  split
  · rename_i empty
    exact .inr ⟨fun named => named.1 (List.prefix_nil.mp empty), rfl⟩
  · rename_i nonempty
    have some_ : name.bytes ≠ [] := fun empty => nonempty (empty ▸ List.nil_prefix)
    split
    · rename_i stdin
      exact .inl ⟨⟨some_, .inl stdin⟩, rfl⟩
    · rename_i stdin
      split
      · rename_i stdout
        exact .inl ⟨⟨some_, .inr stdout⟩, rfl⟩
      · rename_i stdout
        refine .inr ⟨fun named => named.2.elim stdin stdout, ?_⟩
        repeat' split
        all_goals rfl

end Kernel

/-- The calls that set `buf_index` of the viewed terminal to zero: the end of a
`terminal_read` and the `open` of a terminal. -/
def Machine.resetsLine (machine : Machine) : Event → Prop
  | .finishRead => ∃ buf nbytes,
      machine.blocked machine.kernel.curSchedTerm = some (.terminal buf nbytes)
  | .openFile (some name) => Kernel.namesTerminal name
  | _ => False

section Steps

variable {platform : Platform} {machine next : Machine} {event : Event} {reply : Reply}

theorem Machine.called_kernel {body : Kernel → Kernel × Reply}
    (fired : machine.call body = some (next, reply)) :
    next.kernel = (body machine.kernel).1 :=
  (congrArg Prod.fst (call_eq_some fired).2).symm

def Event.isRead : Event → Bool
  | read _ _ _ => true
  | _ => false

/-- Every call but `read` resets the line of the viewed terminal or prints its
output. -/
theorem Machine.step_prints (sound : machine.kernel.processView.Sound)
    (valid : machine.callerTable.Valid) (off : machine.callerTable.offTerminal)
    (fired : machine.step platform event = some (next, reply))
    (call : event.isCall = true) (other : event.isRead = false) :
    (machine.resetsLine event ∧ event.output = [] ∧
      next.kernel.console = machine.kernel.console.terminalOpen) ∨
    (¬ machine.resetsLine event ∧ next.kernel.console =
      machine.kernel.console.putAll machine.kernel.pages.videoPage event.output) := by
  have address := (Kernel.currentPcb_running platform sound).1
  have ownOff : FdTable.offTerminal
      (machine.kernel.pcbAt (machine.kernel.currentPcb platform)).fdt := by
    rw [address]
    exact off
  have ownValid : FdTable.Valid
      (machine.kernel.pcbAt (machine.kernel.currentPcb platform)).fdt := by
    rw [address]
    exact valid
  have quiet (nothing : ¬ machine.resetsLine event) (silent : event.output = [])
      (same : next.kernel.console = machine.kernel.console) :
      (machine.resetsLine event ∧ event.output = [] ∧
        next.kernel.console = machine.kernel.console.terminalOpen) ∨
      (¬ machine.resetsLine event ∧ next.kernel.console =
        machine.kernel.console.putAll machine.kernel.pages.videoPage event.output) := by
    rw [same, silent]
    exact .inr ⟨nothing, rfl⟩
  cases event with
  | finishRead =>
      obtain ⟨pending, waiting, finished⟩ := wake_eq_some fired
      obtain ⟨buf, nbytes, rfl, -, ended⟩ | ⟨rfl, -, ended⟩ :=
        Kernel.finishRead_cases finished
      · exact .inl ⟨⟨buf, nbytes, waiting⟩, rfl,
          congrArg Kernel.console (Prod.mk.inj ended).1⟩
      · refine quiet ?_ rfl (congrArg Kernel.console (Prod.mk.inj ended).1)
        rintro ⟨buf, nbytes, terminal⟩
        rw [waiting] at terminal
        cases terminal
  | openFile filename =>
      cases filename with
      | none =>
          simp only [step] at fired
          exact quiet id rfl (by rw [called_kernel fired]; rfl)
      | some name =>
          have left := called_kernel fired
          rcases Kernel.openFile_console platform name machine.kernel with
            ⟨terminal, reset⟩ | ⟨file, same⟩
          · exact .inl ⟨terminal, rfl, by rw [left, reset]⟩
          · exact quiet file rfl (by rw [left, same])
  | halt status =>
      exact quiet id rfl (by rw [called_kernel fired, Kernel.halt_console status ownOff])
  | execute command frame =>
      exact quiet id rfl (by
        rw [called_kernel fired, Kernel.execute_console command frame sound])
  | write fd buf nbytes =>
      rw [called_kernel fired, Kernel.write_console fd buf nbytes ownValid ownOff]
      exact .inr ⟨id, rfl⟩
  | close fd =>
      simp only [step] at fired
      exact quiet id rfl (by rw [called_kernel fired]; exact Kernel.closeAt_console fd ownOff)
  | getargs buf nbytes =>
      exact quiet id rfl (by rw [called_kernel fired, Kernel.getargs_console])
  | vidmap screenStart =>
      exact quiet id rfl (by rw [called_kernel fired, Kernel.vidmap_console])
  | setHandler =>
      simp only [step] at fired
      exact quiet id rfl (by rw [called_kernel fired]; rfl)
  | sigreturn =>
      simp only [step] at fired
      exact quiet id rfl (by rw [called_kernel fired]; rfl)
  | exception vector =>
      simp only [step] at fired
      split at fired
      · cases fired
      · rw [called_kernel fired, Kernel.exceptionHandler_console vector ownOff]
        exact .inr ⟨id, rfl⟩
  | read => cases other
  | tick | key | rtcInterrupt => cases call

theorem Machine.step_console (sound : machine.kernel.processView.Sound)
    (valid : machine.callerTable.Valid) (off : machine.callerTable.offTerminal)
    (fired : machine.step platform event = some (next, reply))
    (call : event.isCall = true) :
    (machine.resetsLine event ∧ event.output = [] ∧
      next.kernel.console = machine.kernel.console.terminalOpen) ∨
    (¬ machine.resetsLine event ∧
      machine.kernel.CallConsole event.output next.kernel.console) := by
  cases read : event.isRead with
  | true =>
      cases event with
      | read fd buf nbytes =>
          rw [called_kernel fired]
          exact .inr ⟨id, Kernel.read_console platform fd buf nbytes machine.kernel⟩
      | _ => cases read
  | false =>
      refine (step_prints sound valid off fired call read).imp_right fun prints => ⟨prints.1, ?_⟩
      rw [prints.2]
      exact .printed

end Steps

end Ece391Os
