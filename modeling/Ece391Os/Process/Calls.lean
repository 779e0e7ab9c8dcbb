import Ece391Os.Files.ReadData
import Ece391Os.Kernel.Machine

namespace Ece391Os

open Data

/-! What the calls that create, end and switch processes leave, as one record
update each. -/

theorem getPcbAdd_eq (esp : Nat) : getPcbAdd esp = esp / 8192 % 1024 * 8192 := by
  have mask : (0x7FE000 : Nat) = (2 ^ 10 - 1) * 2 ^ 13 := rfl
  have target : esp / 8192 % 1024 * 8192 = esp / 2 ^ 13 % 2 ^ 10 * 2 ^ 13 := rfl
  rw [getPcbAdd, mask, target]
  apply Nat.eq_of_testBit_eq
  intro i
  rw [Nat.testBit_and, Nat.testBit_mul_two_pow, Nat.testBit_mul_two_pow,
    Nat.testBit_two_pow_sub_one, Nat.testBit_mod_two_pow, Nat.testBit_div_two_pow]
  by_cases high : 13 ≤ i
  · have shifted : i - 13 + 13 = i := by omega
    simp only [high, decide_true, Bool.true_and, shifted]
    rw [Bool.and_comm]
  · simp [high]

/-- A system call of the process whose stack `tss.esp0` points to finds that
process's control block. -/
theorem currentPcb_eq {platform : Platform} {kernel : Kernel} {pid : Int}
    (stack : kernel.tssEsp0 = u32 (stackTop pid)) (lower : 1 ≤ pid) (upper : pid ≤ 6) :
    kernel.currentPcb platform = pcbAddr pid := by
  have positive := platform.stackDepth_pos
  have small := platform.stackDepth_lt
  rw [Kernel.currentPcb, getPcbAdd_eq, stack]
  simp only [u32, stackTop, pcbAddr, eightMb, eightKb]
  omega

theorem pcbAddr_injective {left right : Int} (leftLower : 1 ≤ left) (leftUpper : left ≤ 6)
    (rightLower : 1 ≤ right) (rightUpper : right ≤ 6)
    (equal : pcbAddr left = pcbAddr right) : left = right := by
  simp only [pcbAddr, u32, eightMb, eightKb] at equal
  omega

/-! Closing descriptors. -/

def closeDesc (fdt : Int → FileDesc) (fd : Int) : Int → FileDesc :=
  if (2 ≤ fd ∧ fd ≤ maxFdNum) ∧ (fdt fd).flags = 1 then
    Function.update fdt fd { fdt fd with flags := -1 }
  else fdt

def closedFdt (fdt : Int → FileDesc) : Int → FileDesc :=
  [0, 1, 2, 3, 4, 5, 6, 7].foldl closeDesc fdt

def ClosedConsole (before after : Console) : Prop :=
  after = before ∨ after = before.terminalClose

theorem Console.terminalClose_idem (console : Console) :
    console.terminalClose.terminalClose = console.terminalClose := by
  simp [Console.terminalClose, Console.modifyViewed, Console.modifyShell]

theorem ClosedConsole.trans {first second third : Console}
    (left : ClosedConsole first second) (right : ClosedConsole second third) :
    ClosedConsole first third := by
  rcases left with rfl | rfl
  · exact right
  · rcases right with rfl | rfl
    · exact .inr rfl
    · exact .inr (Console.terminalClose_idem first)

namespace Kernel

def withFdt (address : Nat) (fdt : Int → FileDesc) (console : Console)
    (kernel : Kernel) : Kernel :=
  { kernel with
    pcbAt := Function.update kernel.pcbAt address
      { kernel.pcbAt address with fdt := fdt }
    console := console }

theorem withFdt_self (address : Nat) (kernel : Kernel) :
    kernel.withFdt address (kernel.pcbAt address).fdt kernel.console = kernel := by
  simp [withFdt, Function.update_eq_self]

theorem closeAt_eq (address : Nat) (fd : Int) (kernel : Kernel) :
    ∃ console, ClosedConsole kernel.console console ∧
      (kernel.closeAt address fd).2 =
        kernel.withFdt address (closeDesc (kernel.pcbAt address).fdt fd) console := by
  simp only [closeAt, closeDesc]
  by_cases range : fd < 2 ∨ maxFdNum < fd
  · have outside : ¬ (2 ≤ fd ∧ fd ≤ maxFdNum) := by omega
    refine ⟨kernel.console, .inl rfl, ?_⟩
    simp only [range, outside, false_and, if_true, if_false]
    exact (withFdt_self address kernel).symm
  · have inside : 2 ≤ fd ∧ fd ≤ maxFdNum := by omega
    by_cases used : ((kernel.pcbAt address).fdt fd).flags = 1
    · simp only [range, inside, used, and_self, if_true, if_false]
      cases table : ((kernel.pcbAt address).fdt fd).jumpPtr with
      | stdinTable | stdoutTable => exact ⟨_, .inr rfl, rfl⟩
      | rtcTable | fileTable | dirTable | wild => exact ⟨_, .inl rfl, rfl⟩
    · refine ⟨kernel.console, .inl rfl, ?_⟩
      simp only [range, used, and_false, if_false]
      exact (withFdt_self address kernel).symm

theorem closeList_eq (address : Nat) (fds : List Int) (kernel : Kernel) :
    ∃ console, ClosedConsole kernel.console console ∧
      fds.foldl (fun kernel fd => (kernel.closeAt address fd).2) kernel =
        kernel.withFdt address (fds.foldl closeDesc (kernel.pcbAt address).fdt)
          console := by
  induction fds generalizing kernel with
  | nil => exact ⟨kernel.console, .inl rfl, (withFdt_self address kernel).symm⟩
  | cons fd rest induction =>
      obtain ⟨middle, closed, first⟩ := closeAt_eq address fd kernel
      obtain ⟨console, closedRest, others⟩ :=
        induction (kernel.closeAt address fd).2
      rw [first] at closedRest others
      refine ⟨console, closed.trans closedRest, ?_⟩
      simp only [List.foldl_cons]
      rw [first, others]
      simp [withFdt]

theorem closeAll_eq (address : Nat) (kernel : Kernel) :
    ∃ console, ClosedConsole kernel.console console ∧
      kernel.closeAll address =
        kernel.withFdt address (closedFdt (kernel.pcbAt address).fdt) console :=
  closeList_eq address _ kernel

/-! Ending a process. -/

def parentNode (pcb : Pcb) (node : SchedNode) : SchedNode :=
  { node with
    processNum := pcb.parentPid
    esp := pcb.parentEsp
    ebp := pcb.parentEbp
    vidMap := if pcb.vidmem ≠ 0 then 0 else node.vidMap }

def terminated (address : Nat) (console : Console) (kernel : Kernel) : Kernel :=
  let pcb := kernel.pcbAt address
  { kernel with
    processNum := kernel.processNum - 1
    processArray := Function.update kernel.processArray (pcb.pid - 1) (-1)
    pcbAt := Function.update kernel.pcbAt address { pcb with fdt := closedFdt pcb.fdt }
    tssEsp0 := u32 pcb.parentEsp
    schedArr := Function.update kernel.schedArr kernel.curSchedTerm
      (parentNode pcb kernel.running)
    pages := kernel.pages.setPageDirEntry userProg (userFrame pcb.parentPid)
    console := console }

theorem halt_eq {platform : Platform} {kernel : Kernel} (status : UInt8)
    (child : ¬ isBaseShell (kernel.pcbAt (kernel.currentPcb platform)).pid) :
    ∃ console, ClosedConsole kernel.console console ∧
      kernel.halt platform status =
        (kernel.terminated (kernel.currentPcb platform) console,
          .resume status.toNat) := by
  obtain ⟨console, closed, closedAll⟩ :=
    closeAll_eq (kernel.currentPcb platform) kernel
  refine ⟨console, closed, ?_⟩
  simp only [halt, child, if_false, closedAll]
  by_cases mapped : (kernel.pcbAt (kernel.currentPcb platform)).vidmem ≠ 0 <;>
    simp [terminated, parentNode, releaseVidmap, remapParent, restoreEbp, restoreEsp,
      restorePid, restoreTss, freeSlot, dropProcess, withFdt, modifyRunning, running,
      setPageDirEntry, mapped]

theorem halt_base {platform : Platform} {kernel : Kernel} (status : UInt8)
    (base : isBaseShell (kernel.pcbAt (kernel.currentPcb platform)).pid) :
    kernel.halt platform status = (kernel, .enter kernel.programAddrTest) := by
  simp [halt, base]

def printException (vector : ExceptionVector) (kernel : Kernel) : Console :=
  kernel.console.putAll kernel.pages.videoPage
    (ascii "Exception: " ++ ascii vector.message ++ [10])

theorem exceptionHandler_eq (platform : Platform) (vector : ExceptionVector)
    (kernel : Kernel) :
    ∃ console, ClosedConsole (kernel.printException vector) console ∧
      kernel.exceptionHandler platform vector =
        (kernel.terminated (kernel.currentPcb platform) console, .resume 256) := by
  set address := kernel.currentPcb platform with addressDef
  set before := { kernel with console := kernel.printException vector }
    |>.dropProcess |>.freeSlot address |>.restorePid address
    |>.restoreEsp address |>.restoreEbp address |>.remapParent address
    |>.releaseVidmap address with beforeDef
  obtain ⟨console, closed, closedAll⟩ := closeAll_eq address before
  have printed : before.console = kernel.printException vector := by
    rw [beforeDef]
    by_cases mapped : (kernel.pcbAt address).vidmem ≠ 0 <;>
      simp [releaseVidmap, remapParent, restoreEbp, restoreEsp, restorePid, freeSlot,
        dropProcess, modifyRunning, setPageDirEntry, mapped]
  rw [printed] at closed
  refine ⟨console, closed, ?_⟩
  have whole : kernel.exceptionHandler platform vector =
      ((before.closeAll address).restoreTss address, .resume 256) := rfl
  rw [whole, closedAll, beforeDef]
  by_cases mapped : (kernel.pcbAt address).vidmem ≠ 0 <;>
    simp [terminated, parentNode, releaseVidmap, remapParent, restoreEbp, restoreEsp,
      restorePid, restoreTss, freeSlot, dropProcess, withFdt, modifyRunning, running,
      setPageDirEntry, mapped]

/-! Starting a process. -/

theorem openProgram_valid {image : Memory} {filename : CString} {elfBuf elf : Memory}
    {inode : Nat} (opened : openProgram image filename elfBuf = some (inode, elf)) :
    inode < numInodes image := by
  simp only [openProgram] at opened
  split at opened
  · cases opened
  · rename_i dentry found
    split at opened
    · cases opened
    · rename_i succeeded
      split at opened
      · cases opened
      · obtain ⟨rfl, -⟩ := Prod.mk.inj (Option.some.inj opened)
        by_contra invalid
        rw [readData_invalid _ _ _ (Nat.not_lt.mp invalid)] at succeeded
        exact succeeded rfl

theorem loadProgram_eq {platform : Platform} {inode : Nat} (kernel : Kernel)
    (valid : inode < numInodes platform.image) :
    (kernel.loadProgram platform inode).1 ≠ -1 ∧
      ∃ memory, (kernel.loadProgram platform inode).2 =
        { kernel with userMem := memory } :=
  ⟨readData_ret_ne _ valid (by decide) (by decide), _, rfl⟩

def started (child : Pcb) (memory : Memory) (kernel : Kernel) : Kernel :=
  { kernel with
    processNum := kernel.processNum + 1
    pcbAt := Function.update kernel.pcbAt (pcbAddr child.pid) child
    tssEsp0 := u32 (stackTop child.pid)
    schedArr := Function.update kernel.schedArr kernel.curSchedTerm
      { kernel.running with processNum := child.pid }
    pages := kernel.pages.setPageDirEntry userProg (userFrame child.pid)
    userMem := memory }

theorem started_pcbAt (child : Pcb) (memory : Memory) (kernel : Kernel) :
    (kernel.started child memory).pcbAt =
      Function.update kernel.pcbAt (pcbAddr child.pid) child := rfl

theorem claimSlot_some {kernel : Kernel} {i : Nat} (stalePid : Int)
    (found : findSlot kernel.processArray = some i) :
    kernel.claimSlot stalePid = ((i : Int) + 1, { kernel with
      processArray := Function.update kernel.processArray i 1 }) := by
  simp [claimSlot, found]

theorem claimSlot_snd (stalePid : Int) (kernel : Kernel) :
    ∃ slots, (kernel.claimSlot stalePid).2 = { kernel with processArray := slots } := by
  simp only [claimSlot]
  split
  · exact ⟨_, rfl⟩
  · exact ⟨kernel.processArray, rfl⟩

/-- Memory with a program in the frame of process `pid`. -/
def loadedMemory (platform : Platform) (inode : Nat) (pid : Int) (kernel : Kernel) : Memory :=
  ((kernel.setPageDirEntry userProg (userFrame pid)).loadProgram platform inode).2.userMem

theorem executeRest_some {platform : Platform} {command : CString} {frame : StackFrame}
    {inode : Nat} {elf : Memory} (kernel : Kernel)
    (opened : openProgram platform.image (commandName command) frame.elfBuf = some (inode, elf)) :
    kernel.executeRest platform command frame =
      ((kernel.claimSlot frame.pcb.pid).2.started
        (childPcb frame command (kernel.claimSlot frame.pcb.pid).1 kernel.running.processNum)
        ((kernel.claimSlot frame.pcb.pid).2.loadedMemory platform inode
          (kernel.claimSlot frame.pcb.pid).1), .enter (elf.word 24)) := by
  have parent : (kernel.claimSlot frame.pcb.pid).2.running = kernel.running := by
    obtain ⟨slots, claimed⟩ := claimSlot_snd frame.pcb.pid kernel
    rw [claimed]
    rfl
  set claimed := kernel.claimSlot frame.pcb.pid with claimedDef
  have succeeds := (loadProgram_eq (claimed.2.setPageDirEntry userProg (userFrame claimed.1))
    (openProgram_valid opened)).1
  simp only [executeRest, opened, ← claimedDef, succeeds, if_false]
  rw [← parent]
  rfl

/-- Past its check `execute` either fails and changes nothing, or starts the
named program. -/
theorem executeRest_cases (platform : Platform) (command : CString)
    (frame : StackFrame) (kernel : Kernel) :
    (openProgram platform.image (commandName command) frame.elfBuf = none ∧
      kernel.executeRest platform command frame = (kernel, .ret (-1))) ∨
    ∃ inode elf memory,
      openProgram platform.image (commandName command) frame.elfBuf = some (inode, elf) ∧
      kernel.executeRest platform command frame =
        ((kernel.claimSlot frame.pcb.pid).2.started
          (childPcb frame command (kernel.claimSlot frame.pcb.pid).1
            kernel.running.processNum) memory, .enter (elf.word 24)) := by
  cases opened : openProgram platform.image (commandName command) frame.elfBuf with
  | none => exact .inl ⟨rfl, by simp [executeRest, opened]⟩
  | some program => exact .inr ⟨_, _, _, rfl, executeRest_some kernel opened⟩

theorem execute_cases (platform : Platform) (command : CString) (frame : StackFrame)
    {kernel : Kernel} (started : kernel.processNum ≠ 0) :
    kernel.execute platform command frame = (kernel, .ret (-1)) ∨
      (kernel.processNum < maxProgs ∧
        kernel.execute platform command frame =
          kernel.executeRest platform command frame) := by
  simp only [execute, started, if_false]
  split
  · exact .inl rfl
  · rename_i room
    exact .inr ⟨by omega, rfl⟩

/-! Calls that work on descriptors, devices and user memory. -/

/-- The kernel after a call that changed at most the descriptors of the calling
process, the console, the clock and user memory. -/
def serviced (address : Nat) (fdt : Int → FileDesc) (console : Console) (rtc : Rtc)
    (memory : Memory) (kernel : Kernel) : Kernel :=
  { kernel with
    pcbAt := Function.update kernel.pcbAt address
      { kernel.pcbAt address with fdt := fdt }
    console := console
    rtc := rtc
    userMem := memory }

def Serviced (address : Nat) (before after : Kernel) : Prop :=
  ∃ fdt console rtc memory, after = before.serviced address fdt console rtc memory

theorem Serviced.devices (address : Nat) (console : Console) (rtc : Rtc)
    (memory : Memory) (kernel : Kernel) :
    Serviced address kernel
      { kernel with console := console, rtc := rtc, userMem := memory } :=
  ⟨(kernel.pcbAt address).fdt, console, rtc, memory, by
    simp [serviced, Function.update_eq_self]⟩

theorem Serviced.refl (address : Nat) (kernel : Kernel) : Serviced address kernel kernel :=
  .devices address kernel.console kernel.rtc kernel.userMem kernel

theorem Serviced.setDesc (address : Nat) (fd : Int) (desc : FileDesc) (rtc : Rtc)
    (kernel : Kernel) :
    Serviced address kernel ({ kernel with rtc := rtc }.setDesc address fd desc) :=
  ⟨_, kernel.console, rtc, kernel.userMem, rfl⟩

theorem read_serviced (platform : Platform) (fd : Int) (buf : Option Memory)
    (nbytes : Int) (kernel : Kernel) :
    Serviced (kernel.currentPcb platform) kernel
      (kernel.read platform fd buf nbytes).1 := by
  simp only [read]
  repeat' split
  all_goals first
    | exact .refl _ kernel
    | exact .devices _ _ kernel.rtc kernel.userMem kernel
    | exact .devices _ kernel.console _ kernel.userMem kernel
    | exact .setDesc _ _ _ kernel.rtc kernel

/-- A waiting `terminal_read` ends with the line of the viewed terminal taken, a
waiting `rtc_read` with nothing changed. -/
theorem finishRead_cases {pending : BlockedRead} {kernel : Kernel}
    {result : Kernel × Reply} (ready : kernel.finishRead pending = some result) :
    (∃ buf nbytes, pending = .terminal buf nbytes ∧
      (kernel.console.terminals kernel.curSchedTerm).lineBufferFlag ≠ 0 ∧
      result = ({ kernel with console := kernel.console.terminalOpen },
        .read (kernel.console.terminalReadFinish buf nbytes).1
          (kernel.console.terminalReadFinish buf nbytes).2.1)) ∨
    (pending = .rtc ∧ kernel.rtc.interruptFlags kernel.curSchedTerm ≠ 0 ∧
      result = (kernel, .ret 0)) := by
  cases pending with
  | terminal buf nbytes =>
      simp only [finishRead] at ready
      split at ready
      · cases ready
      · rename_i entered
        exact .inl ⟨buf, nbytes, rfl, entered, (Option.some.inj ready).symm⟩
  | rtc =>
      simp only [finishRead] at ready
      split at ready
      · cases ready
      · rename_i raised
        exact .inr ⟨rfl, raised, (Option.some.inj ready).symm⟩

theorem finishRead_serviced {pending : BlockedRead} {kernel : Kernel}
    {result : Kernel × Reply} (address : Nat)
    (ready : kernel.finishRead pending = some result) :
    Serviced address kernel result.1 := by
  obtain ⟨buf, nbytes, -, -, rfl⟩ | ⟨-, -, rfl⟩ := finishRead_cases ready
  · exact .devices address _ kernel.rtc kernel.userMem kernel
  · exact .refl address kernel

theorem write_serviced (platform : Platform) (fd : Int) (buf : Option Memory)
    (nbytes : Int) (kernel : Kernel) :
    Serviced (kernel.currentPcb platform) kernel
      (kernel.write platform fd buf nbytes).1 := by
  simp only [write]
  repeat' split
  all_goals first
    | exact .refl _ kernel
    | exact .devices _ _ kernel.rtc kernel.userMem kernel
    | exact .devices _ kernel.console _ kernel.userMem kernel

theorem openFile_serviced (platform : Platform) (filename : Option CString)
    (kernel : Kernel) :
    Serviced (kernel.currentPcb platform) kernel
      (kernel.openFile platform filename).1 := by
  simp only [openFile]
  repeat' split
  all_goals first
    | exact .refl _ kernel
    | exact .devices _ _ kernel.rtc kernel.userMem kernel
    | exact .setDesc _ _ _ _ kernel

theorem close_serviced (platform : Platform) (fd : Int) (kernel : Kernel) :
    Serviced (kernel.currentPcb platform) kernel (kernel.close platform fd).1 := by
  obtain ⟨console, _, closed⟩ := closeAt_eq (kernel.currentPcb platform) fd kernel
  refine ⟨_, console, kernel.rtc, kernel.userMem, closed⟩

theorem getargs_serviced (platform : Platform) (buf : Nat) (nbytes : Int)
    (kernel : Kernel) :
    Serviced (kernel.currentPcb platform) kernel
      (kernel.getargs platform buf nbytes).1 := by
  simp only [getargs]
  repeat' split
  all_goals first
    | exact .refl _ kernel
    | exact .devices _ kernel.console kernel.rtc _ kernel

def vidmapped (address : Nat) (memory : Memory) (kernel : Kernel) : Kernel :=
  { kernel with
    pcbAt := Function.update kernel.pcbAt address
      { kernel.pcbAt address with vidmem := 1 }
    schedArr := Function.update kernel.schedArr kernel.curSchedTerm
      { kernel.running with vidMap := 1 }
    pages := kernel.pages.setPageTable2Entry userVideoMem videoMemAddr
    userMem := memory }

theorem vidmap_cases (platform : Platform) (screenStart : Nat) (kernel : Kernel) :
    kernel.vidmap platform screenStart = (kernel, .ret (-1)) ∨
      (inUserPage screenStart ∧ ∃ memory reply, (∀ eip, reply ≠ .enter eip) ∧
        kernel.vidmap platform screenStart =
          (kernel.vidmapped (kernel.currentPcb platform) memory, reply)) := by
  simp only [vidmap]
  split
  · exact .inl rfl
  · rename_i accepted
    have inside : inUserPage screenStart := by
      by_contra outside
      exact accepted (.inr outside)
    split
    · refine .inr ⟨inside, kernel.userMem, .fault, ?_, rfl⟩
      intro eip entered
      cases entered
    · refine .inr ⟨inside, _, .ret 0, ?_, rfl⟩
      intro eip entered
      cases entered

/-! Switching processes, and the keyboard. -/

def scheduledPages (kernel : Kernel) (terminal : Fin 3) : PageTables :=
  let node := kernel.schedArr terminal
  let target := if terminal = kernel.console.curTerminal then videoMemAddr
    else node.videoBuffer
  let user := kernel.pages.setPageDirEntry userProg (userFrame node.processNum)
  (if node.vidMap = 1 then user.setPageTable2Entry userVideoMem target
    else user).setPageTable1Entry videoMemAddr target

def ticked (esp ebp : Int) (mask : BitVec 8) (kernel : Kernel) : Kernel :=
  let next := kernel.curSchedTerm + 1
  { kernel with
    tssEsp0 := u32 (stackTop (kernel.schedArr next).processNum)
    schedArr := Function.update kernel.schedArr kernel.curSchedTerm
      { kernel.running with esp := esp, ebp := ebp }
    curSchedTerm := next
    prevSchedTerm := some kernel.curSchedTerm
    pages := kernel.scheduledPages next
    console := { kernel.console with printTerminal := next }
    masterMask := mask }

theorem pitInterruptHandler_idle {kernel : Kernel} (esp ebp : Int)
    (idle : kernel.prevSchedTerm = none) :
    ∃ mask, kernel.pitInterruptHandler esp ebp =
      ({ kernel with masterMask := mask }, .handled) := by
  simp only [pitInterruptHandler, disableIrq, enableIrq, Nat.reduceLT, if_true, idle]
  exact ⟨_, rfl⟩

theorem pitInterruptHandler_eq {kernel : Kernel} (esp ebp : Int)
    (active : kernel.prevSchedTerm ≠ none) :
    ∃ mask, (kernel.pitInterruptHandler esp ebp).1 = kernel.ticked esp ebp mask := by
  obtain ⟨previous, active⟩ := Option.ne_none_iff_exists'.mp active
  simp only [pitInterruptHandler, disableIrq, enableIrq, Nat.reduceLT, if_true, active,
    switchProcess]
  by_cases mapped : (kernel.schedArr (kernel.curSchedTerm + 1)).vidMap = 1 <;>
    split <;>
    simp [ticked, scheduledPages, remapScheduled, running, mapped, setPageDirEntry,
      setPageTable1Entry, setPageTable2Entry, setPrintTerminal]

/-- The console after the keyboard driver handled a scan code for the viewed
terminal, with the video page mapped to the screen. -/
def keyConsole (scanCode : UInt8) (kernel : Kernel) : Console :=
  let console := { kernel.console with printTerminal := kernel.console.curTerminal }
  if scanCode < recentRelease then
    console.recentReleaseExec videoMemAddr.toNat scanCode
  else console.afterReleaseExec scanCode

/-- The kernel after the keyboard handler gave the console and the video page
back to the running terminal. -/
def typed (handled : Console) (mask : BitVec 8) (kernel : Kernel) : Kernel :=
  { kernel with
    console := { handled with printTerminal := kernel.curSchedTerm }
    pages := kernel.pages.setPageTable1Entry videoMemAddr
      (if kernel.curSchedTerm ≠ handled.curTerminal then kernel.running.videoBuffer
        else videoMemAddr)
    masterMask := mask }

theorem videoPage_screen (pages : PageTables) :
    (pages.setPageTable1Entry videoMemAddr videoMemAddr).videoPage =
      videoMemAddr.toNat := by
  simp only [PageTables.videoPage, PageTables.setPageTable1Entry, Function.update_self]
  decide

/-- Scan codes the handler returns on at once. -/
def ignoresCode (scanCode : UInt8) : Prop :=
  (capOffset ≤ scanCode ∧ scanCode ≤ upBound) ∨ capOffset + upBound ≤ scanCode

instance (scanCode : UInt8) : Decidable (ignoresCode scanCode) :=
  inferInstanceAs (Decidable (_ ∨ _))

def keyMask (kernel : Kernel) : BitVec 8 :=
  (kernel.masterMask ||| 1#8 <<< 1) &&& ~~~(1#8 <<< 1)

theorem keyboardInterruptHandler_eq (scanCode : UInt8) (kernel : Kernel) :
    kernel.keyboardInterruptHandler scanCode =
      if ignoresCode scanCode then { kernel with masterMask := kernel.keyMask }
      else kernel.typed (kernel.keyConsole scanCode) kernel.keyMask := by
  simp only [keyboardInterruptHandler, disableIrq, enableIrq, Nat.reduceLT, if_true]
  by_cases ignored : (capOffset ≤ scanCode ∧ scanCode ≤ upBound) ∨ capOffset + upBound ≤ scanCode
  · have skipped : ignoresCode scanCode := ignored
    simp only [if_pos ignored, if_pos skipped]
    rfl
  · have handled : ¬ ignoresCode scanCode := ignored
    simp only [if_neg ignored, if_neg handled, handleScanCode, setPrintTerminal,
      setPageTable1Entry, videoPage_screen]
    rw [← keyConsole]
    by_cases viewed : kernel.curSchedTerm ≠ (kernel.keyConsole scanCode).curTerminal <;>
      simp [typed, viewed, running, keyMask, PageTables.setPageTable1Entry]

theorem keyboardInterruptHandler_cases (scanCode : UInt8) (kernel : Kernel) :
    ∃ mask, kernel.keyboardInterruptHandler scanCode = { kernel with masterMask := mask } ∨
      kernel.keyboardInterruptHandler scanCode =
        kernel.typed (kernel.keyConsole scanCode) mask := by
  refine ⟨kernel.keyMask, ?_⟩
  rw [keyboardInterruptHandler_eq]
  split
  · exact .inl rfl
  · exact .inr rfl

/-! The state `launch` leaves. -/

def shellLoaded (i : Int) (memory : Memory) (kernel : Kernel) : Kernel :=
  { kernel with
    processArray := Function.update kernel.processArray i 1
    pages := kernel.pages.setPageDirEntry userProg (eightMb + i * fourMb)
    userMem := memory }

theorem loadShell_eq {platform : Platform} {inode : Nat} (kernel : Kernel) (i : Int)
    (valid : inode < numInodes platform.image) :
    ∃ memory, kernel.loadShell platform inode i = some (kernel.shellLoaded i memory) := by
  obtain ⟨succeeds, memory, loaded⟩ := loadProgram_eq
    (kernel.setPageDirEntry userProg (eightMb + i * fourMb)) valid
  refine ⟨memory, ?_⟩
  simp only [loadShell, succeeds, if_false, loaded]
  rfl

def launched (frame : StackFrame) (entryPoint : Nat) (memory : Memory)
    (kernel : Kernel) : Kernel :=
  { kernel with
    processNum := 3
    processArray := Function.update (Function.update (Function.update
      kernel.clearSlots.processArray 2 1) 1 1) 0 1
    pcbAt := Function.update (Function.update (Function.update
      kernel.pcbAt (pcbAddr 1) (shellPcb frame 0))
        (pcbAddr 2) (shellPcb frame 1)) (pcbAddr 3) (shellPcb frame 2)
    tssEsp0 := u32 eightMb
    programAddrTest := entryPoint
    prevSchedTerm := some 0
    pages := kernel.pages.setPageDirEntry userProg (userFrame 1)
    userMem := memory }

theorem launch_eq {platform : Platform} {frame : StackFrame} {kernel kernel' : Kernel}
    (success : kernel.launch platform frame = some kernel') :
    ∃ entryPoint memory, kernel' = kernel.launched frame entryPoint memory := by
  cases opened : openProgram platform.image shellName frame.elfBuf with
  | none => simp [launch, opened] at success
  | some program =>
      obtain ⟨inode, elf⟩ := program
      have valid := openProgram_valid opened
      obtain ⟨thirdMemory, third⟩ := kernel.clearSlots.loadShell_eq 2 valid
      obtain ⟨secondMemory, second⟩ :=
        (kernel.clearSlots.shellLoaded 2 thirdMemory).loadShell_eq 1 valid
      obtain ⟨memory, first⟩ := ((kernel.clearSlots.shellLoaded 2 thirdMemory).shellLoaded
        1 secondMemory).loadShell_eq 0 valid
      simp only [launch, opened, third, second, first, Option.bind_eq_bind,
        Option.bind_some] at success
      refine ⟨elf.word 24, memory, (Option.some.inj success).symm.trans ?_⟩
      simp [launched, shellLoaded, placePcb, shellPcb, clearSlots,
        PageTables.setPageDirEntry, userFrame]

end Kernel

theorem Booted.scheduler {platform : Platform} {kernel : Kernel}
    (booted : Booted platform kernel) :
    kernel.prevSchedTerm = none ∧ kernel.curSchedTerm = 0 ∧
      ∀ terminal : Fin 3, (kernel.schedArr terminal).processNum = terminal.val + 1 := by
  induction booted with
  | boot memory => exact ⟨rfl, rfl, fun _ => rfl⟩
  | tick esp ebp _ induction =>
      obtain ⟨mask, idle⟩ := Kernel.pitInterruptHandler_idle esp ebp induction.1
      rw [idle]
      exact induction
  | @key kernel scanCode _ induction =>
      obtain ⟨mask, ignored | typed⟩ := kernel.keyboardInterruptHandler_cases scanCode
      · rw [ignored]
        exact induction
      · rw [typed]
        exact induction
  | rtcInterrupt _ induction => exact induction

/-- The scheduler entries `pit_init` writes. -/
def Kernel.firstNode (terminal : Fin 3) : SchedNode where
  processNum := terminal.val + 1
  videoBuffer := videoMemAddr + (terminal.val + 1) * pageSize
  vidMap := 0
  esp := if terminal = 0 then eightMb else -1
  ebp := if terminal = 0 then eightMb else -1

theorem Booted.schedArr_eq {platform : Platform} {kernel : Kernel}
    (booted : Booted platform kernel) : kernel.schedArr = Kernel.firstNode := by
  induction booted with
  | boot memory => rfl
  | tick esp ebp before induction =>
      obtain ⟨mask, idle⟩ := Kernel.pitInterruptHandler_idle esp ebp before.scheduler.1
      rw [idle]
      exact induction
  | @key kernel scanCode _ induction =>
      obtain ⟨mask, ignored | typed⟩ := kernel.keyboardInterruptHandler_cases scanCode
      · rw [ignored]
        exact induction
      · rw [typed]
        exact induction
  | rtcInterrupt _ induction => exact induction

end Ece391Os
