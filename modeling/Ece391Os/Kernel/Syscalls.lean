import Ece391Os.Kernel.FileSystem
import Ece391Os.Kernel.Scheduler

namespace Ece391Os

open Data

/-! `syscalls.c` and the exception handlers of `idt_init.c`. -/

def progOffset : Int := 0x48000

def maxProgSize : Nat := 0x3B8000

/-- `esp & (EIGHT_MB - EIGHT_KB)`. -/
def getPcbAdd (esp : Nat) : Nat := esp &&& 0x7FE000

def ascii (text : String) : List UInt8 := text.toList.map fun c => c.toNat.toUInt8

/-- Uninitialised locals of a system call and its frame pointer. -/
structure StackFrame where
  pcb : Pcb
  elfBuf : Memory
  args : Memory
  ebp : Int

inductive ExceptionVector where
  | divideError
  | reserved
  | nmi
  | breakpoint
  | overflow
  | boundRangeExceeded
  | invalidOpcode
  | deviceNot
  | doubleFault
  | segmentOverrun
  | invalidTss
  | segmentNotPresent
  | stackSegmentFault
  | generalProtection
  | pageFault
  | mathFault
  | alignmentCheck
  | machineCheck
  | simdFloatingPointException
  deriving DecidableEq, Repr

def ExceptionVector.message : ExceptionVector → String
  | divideError => "Divide Error"
  | reserved => "RESERVED"
  | nmi => "NMI"
  | breakpoint => "Breakpoint"
  | overflow => "Overflow"
  | boundRangeExceeded => "BOUND Range Exceeded"
  | invalidOpcode => "Invalid OPCODE"
  | deviceNot => "Device Not Available"
  | doubleFault => "Double Fault"
  | segmentOverrun => "Coprocessor Segment Overrun"
  | invalidTss => "Invalid TSS"
  | segmentNotPresent => "Segment Not Present"
  | stackSegmentFault => "Stack Segment Fault"
  | generalProtection => "General Protection"
  | pageFault => "Page Fault"
  | mathFault => "x87 FPU Floating-Point Error(Math Fault)"
  | alignmentCheck => "Alignment Check"
  | machineCheck => "Machine Check"
  | simdFloatingPointException => "SIMD Floating-point exception"

/-- The descriptor table of a new process over what the stack held. -/
def freshFdt (stale : Int → FileDesc) : Int → FileDesc := fun fd =>
  if fd = 0 then { stale fd with jumpPtr := .stdinTable, flags := 1 }
  else if fd = 1 then { stale fd with jumpPtr := .stdoutTable, flags := 1 }
  else if 2 ≤ fd ∧ fd ≤ maxFdNum then { stale fd with flags := -1 }
  else stale fd

/-! The program named by a command. -/

def commandLength (command : CString) : Nat :=
  ((command.bytes.takeWhile (· ≠ space)).take nameLength).length

def commandName (command : CString) : CString where
  bytes := command.bytes.take (commandLength command)
  nonzero := fun byte member =>
    command.nonzero byte (List.mem_of_mem_take member)

def commandArgs (command : CString) : List UInt8 :=
  (command.bytes.drop (commandLength command)).dropWhile (· = space)

def argsBuf (stale : Memory) (rest : List UInt8) : Memory :=
  let j := min rest.length bufLength
  let copied := Memory.blit (fun k => rest.getD k 0) 0
    (Function.update stale 0 0) 0 j
  let terminated := if j < bufLength then Function.update copied j 0 else copied
  Function.update terminated (bufLength - 1) 0

/-- The checks `launch` and `execute` make on an executable: the inode of the
named file and the header read from it. -/
def openProgram (image : Memory) (filename : CString) (elfBuf : Memory) :
    Option (Nat × Memory) :=
  match readDentryByName image filename with
  | none => none
  | some dentry =>
      let header := readData image dentry.inodeNum 0 elfBuf nameLength
      if header.1 = -1 then none
      else if header.2 0 ≠ 0x7F ∨ header.2 1 ≠ 0x45 ∨ header.2 2 ≠ 0x4C ∨
          header.2 3 ≠ 0x46 then none
      else some (dentry.inodeNum, header.2)

def shellName : CString := ⟨[115, 104, 101, 108, 108], by simp⟩

def stdinName : CString := ⟨[115, 116, 100, 105, 110], by simp⟩

def stdoutName : CString := ⟨[115, 116, 100, 111, 117, 116], by simp⟩

def emptyName : CString := ⟨[], by simp⟩

def findSlot (processArray : Int → Int) : Option Nat :=
  (List.range maxProgs).find? fun i => processArray i = -1

def findDesc (fdt : Int → FileDesc) : Option Int :=
  [2, 3, 4, 5, 6, 7].find? fun fd => (fdt fd).flags = -1

def openDesc (dentry : Dentry) (stale : FileDesc) : Option FileDesc :=
  match dentry.fileType with
  | 0 => some { stale with jumpPtr := .rtcTable, inode := 0, flags := 1, filePosition := 0 }
  | 1 => some { stale with jumpPtr := .dirTable, inode := 0, flags := 1, filePosition := 0 }
  | 2 => some { stale with
      jumpPtr := .fileTable, inode := i32 dentry.inodeNum, flags := 1, filePosition := 0 }
  | _ => none

namespace Kernel

def userPage (kernel : Kernel) : Nat :=
  (kernel.pages.pageDirectory (directorySlot userProg) &&& 0xFFC00000#32).toNat

/-- The control block a system call of the running process finds: its stack
starts at `tss.esp0`. -/
def currentPcb (platform : Platform) (kernel : Kernel) : Nat :=
  getPcbAdd (kernel.tssEsp0 - platform.stackDepth)

def loadProgram (platform : Platform) (inode : Nat) (kernel : Kernel) : Int × Kernel :=
  let base := kernel.userPage + progOffset.toNat
  let loaded := readData platform.image inode 0 (fun k => kernel.userMem (base + k))
    maxProgSize
  (loaded.1, { kernel with
    userMem := fun address =>
      if base ≤ address then loaded.2 (address - base) else kernel.userMem address })

def callClose (table : JumpTable) (kernel : Kernel) : Kernel :=
  match table with
  | .stdinTable | .stdoutTable =>
      { kernel with console := kernel.console.terminalClose }
  | .rtcTable | .fileTable | .dirTable | .wild => kernel

def setDesc (address : Nat) (fd : Int) (desc : FileDesc) (kernel : Kernel) : Kernel :=
  kernel.modifyPcb address fun pcb =>
    { pcb with fdt := Function.update pcb.fdt fd desc }

def closeAt (address : Nat) (fd : Int) (kernel : Kernel) : Int × Kernel :=
  let desc := (kernel.pcbAt address).fdt fd
  if fd < 2 ∨ maxFdNum < fd then (-1, kernel)
  else if desc.flags = 1 then
    (0, (kernel.callClose desc.jumpPtr).setDesc address fd { desc with flags := -1 })
  else (-1, kernel)

/-! The statements `halt` and the exception handlers are made of; `address` is
`cur_pcb`. -/

def closeAll (address : Nat) (kernel : Kernel) : Kernel :=
  [0, 1, 2, 3, 4, 5, 6, 7].foldl (fun kernel fd => (kernel.closeAt address fd).2) kernel

def dropProcess (kernel : Kernel) : Kernel :=
  { kernel with processNum := kernel.processNum - 1 }

def freeSlot (address : Nat) (kernel : Kernel) : Kernel :=
  { kernel with
    processArray := Function.update kernel.processArray
      ((kernel.pcbAt address).pid - 1) (-1) }

def restoreTss (address : Nat) (kernel : Kernel) : Kernel :=
  { kernel with tssEsp0 := u32 (kernel.pcbAt address).parentEsp }

def restorePid (address : Nat) (kernel : Kernel) : Kernel :=
  kernel.modifyRunning fun node =>
    { node with processNum := (kernel.pcbAt address).parentPid }

def restoreEsp (address : Nat) (kernel : Kernel) : Kernel :=
  kernel.modifyRunning fun node =>
    { node with esp := (kernel.pcbAt address).parentEsp }

def restoreEbp (address : Nat) (kernel : Kernel) : Kernel :=
  kernel.modifyRunning fun node =>
    { node with ebp := (kernel.pcbAt address).parentEbp }

def remapParent (address : Nat) (kernel : Kernel) : Kernel :=
  kernel.setPageDirEntry userProg (userFrame (kernel.pcbAt address).parentPid)

def releaseVidmap (address : Nat) (kernel : Kernel) : Kernel :=
  if (kernel.pcbAt address).vidmem ≠ 0 then
    kernel.modifyRunning fun node => { node with vidMap := 0 }
  else kernel

def isBaseShell (pid : Int) : Prop := pid = 1 ∨ pid = 2 ∨ pid = 3

instance (pid : Int) : Decidable (isBaseShell pid) :=
  inferInstanceAs (Decidable (_ ∨ _))

def halt (platform : Platform) (status : UInt8) (kernel : Kernel) :
    Kernel × Outcome BlockedRead :=
  let address := kernel.currentPcb platform
  if isBaseShell (kernel.pcbAt address).pid then
    (kernel, .enter kernel.programAddrTest)
  else
    (kernel.closeAll address |>.dropProcess |>.freeSlot address
      |>.restoreTss address |>.restorePid address |>.restoreEsp address
      |>.restoreEbp address |>.remapParent address |>.releaseVidmap address,
      .resume status.toNat)

/-- The handler `EXCEPTION_MAKER` defines. -/
def exceptionHandler (platform : Platform) (vector : ExceptionVector)
    (kernel : Kernel) : Kernel × Outcome BlockedRead :=
  let address := kernel.currentPcb platform
  let printed := { kernel with
    console := kernel.console.putAll kernel.pages.videoPage
      (ascii "Exception: " ++ ascii vector.message ++ [10]) }
  (printed.dropProcess |>.freeSlot address |>.restorePid address
    |>.restoreEsp address |>.restoreEbp address |>.remapParent address
    |>.releaseVidmap address |>.closeAll address |>.restoreTss address,
    .resume 256)

def clearSlots (kernel : Kernel) : Kernel :=
  { kernel with
    processArray := fun i =>
      if 0 ≤ i ∧ i < maxProgs then -1 else kernel.processArray i }

def loadShell (platform : Platform) (inode : Nat) (kernel : Kernel) (i : Int) :
    Option Kernel :=
  let loaded := (kernel.setPageDirEntry userProg (eightMb + i * fourMb)).loadProgram
    platform inode
  if loaded.1 = -1 then none
  else some { loaded.2 with
    processArray := Function.update loaded.2.processArray i 1 }

def shellPcb (frame : StackFrame) (i : Int) : Pcb :=
  { frame.pcb with
    pid := i + 1
    parentPid := 0
    fdt := freshFdt frame.pcb.fdt
    args := strncpy frame.pcb.args emptyName.memory bufLength
    vidmem := 0 }

def placePcb (pcb : Pcb) (kernel : Kernel) : Kernel :=
  { kernel with pcbAt := Function.update kernel.pcbAt (pcbAddr pcb.pid) pcb }

/-- `launch`; `none` is its failure return. -/
def launch (platform : Platform) (frame : StackFrame) (kernel : Kernel) :
    Option Kernel := do
  let (inode, elf) ← openProgram platform.image shellName frame.elfBuf
  let third ← kernel.clearSlots.loadShell platform inode 2
  let second ← third.loadShell platform inode 1
  let first ← second.loadShell platform inode 0
  let placed := { first with processNum := 3 }.placePcb (shellPcb frame 0)
    |>.placePcb (shellPcb frame 1) |>.placePcb (shellPcb frame 2)
  some { placed with
    tssEsp0 := u32 eightMb
    programAddrTest := elf.word 24
    prevSchedTerm := some 0 }

def childPcb (frame : StackFrame) (command : CString) (pid parentPid : Int) : Pcb :=
  { frame.pcb with
    pid := pid
    parentPid := parentPid
    parentEsp := stackTop parentPid
    parentEbp := frame.ebp
    fdt := freshFdt frame.pcb.fdt
    args := strncpy frame.pcb.args (argsBuf frame.args (commandArgs command)) bufLength
    vidmem := 0 }

/-- Mark a free slot as in use and take its pid.  The search has no failure
branch: without a free slot `pcb.pid` stays what the stack held. -/
def claimSlot (stalePid : Int) (kernel : Kernel) : Int × Kernel :=
  match findSlot kernel.processArray with
  | some i => (i + 1, { kernel with
      processArray := Function.update kernel.processArray i 1 })
  | none => (stalePid, kernel)

/-- `execute` from its `cli()` on. -/
def executeRest (platform : Platform) (command : CString) (frame : StackFrame)
    (kernel : Kernel) : Kernel × Outcome BlockedRead :=
  match openProgram platform.image (commandName command) frame.elfBuf with
  | none => (kernel, .ret (-1))
  | some (inode, elf) =>
      let claimed := kernel.claimSlot frame.pcb.pid
      let pid := claimed.1
      let loaded := (claimed.2.setPageDirEntry userProg (userFrame pid)).loadProgram
        platform inode
      if loaded.1 = -1 then (loaded.2, .ret (-1))
      else
        let child := childPcb frame command pid loaded.2.running.processNum
        let counted := { loaded.2 with processNum := loaded.2.processNum + 1 }
        let scheduled := counted.modifyRunning fun node => { node with processNum := pid }
        ({ scheduled.placePcb child with tssEsp0 := u32 (stackTop pid) },
          .enter (elf.word 24))

def execute (platform : Platform) (command : CString) (frame : StackFrame)
    (kernel : Kernel) : Kernel × Outcome BlockedRead :=
  if maxProgs ≤ kernel.processNum then (kernel, .ret (-1))
  else
    (if kernel.processNum = 0 then kernel.clearSlots else kernel).executeRest
      platform command frame

/-- `read`.  The buffer is memory of the caller: its contents stand for it, and what is
stored there is in the answer. -/
def read (platform : Platform) (fd : Int) (buf : Option Memory) (nbytes : Int)
    (kernel : Kernel) : Kernel × Outcome BlockedRead :=
  if fd < 0 ∨ maxFdNum < fd then (kernel, .ret (-1))
  else
    let address := kernel.currentPcb platform
    let desc := (kernel.pcbAt address).fdt fd
    if desc.flags = -1 then (kernel, .ret (-1))
    else
      match desc.jumpPtr with
      | .stdinTable =>
          match buf with
          | none => (kernel, .ret (-1))
          | some bytes =>
              if nbytes < 0 then (kernel, .ret (-1))
              else
                ({ kernel with
                    console := kernel.console.modifyShell kernel.curSchedTerm
                      fun shell => { shell with lineBufferFlag := 0 } },
                  .wait (.terminal bytes nbytes))
      | .rtcTable =>
          ({ kernel with rtc := kernel.rtc.rtcReadStart kernel.curSchedTerm },
            .wait .rtc)
      | .fileTable =>
          match buf with
          | none =>
              let answer := fileRead platform.image desc (fun _ => 0) nbytes
              if answer.ret ≠ 0 ∧ answer.ret ≠ -1 then (kernel, .fault)
              else (kernel.setDesc address fd answer.desc, .ret answer.ret)
          | some bytes =>
              let answer := fileRead platform.image desc bytes nbytes
              (kernel.setDesc address fd answer.desc, .read answer.ret answer.buf)
      | .dirTable =>
          match buf with
          | none =>
              let answer := dirRead platform.image desc (fun _ => 0)
              if answer.ret ≠ 0 ∧ answer.ret ≠ -1 then (kernel, .fault)
              else (kernel.setDesc address fd answer.desc, .ret answer.ret)
          | some bytes =>
              let answer := dirRead platform.image desc bytes
              (kernel.setDesc address fd answer.desc, .read answer.ret answer.buf)
      | .stdoutTable => (kernel, .ret (-1))
      | .wild => (kernel, .fault)

/-- The end of a read that had to wait, once its device is ready. -/
def finishRead (blocked : BlockedRead) (kernel : Kernel) :
    Option (Kernel × Outcome BlockedRead) :=
  match blocked with
  | .terminal buf nbytes =>
      if (kernel.console.terminals kernel.curSchedTerm).lineBufferFlag = 0 then none
      else
        let (ret, bytes, console) := kernel.console.terminalReadFinish buf nbytes
        some ({ kernel with console := console }, .read ret bytes)
  | .rtc =>
      if kernel.rtc.interruptFlags kernel.curSchedTerm = 0 then none
      else some (kernel, .ret 0)

def write (platform : Platform) (fd : Int) (buf : Option Memory) (nbytes : Int)
    (kernel : Kernel) : Kernel × Outcome BlockedRead :=
  if fd < 0 ∨ maxFdNum < fd then (kernel, .ret (-1))
  else
    let desc := (kernel.pcbAt (kernel.currentPcb platform)).fdt fd
    if desc.flags = -1 then (kernel, .ret (-1))
    else
      match desc.jumpPtr with
      | .stdoutTable =>
          let written := kernel.console.terminalWrite kernel.pages.videoPage buf nbytes
          ({ kernel with console := written.2 }, .ret written.1)
      | .rtcTable =>
          let written := kernel.rtc.rtcWrite kernel.curSchedTerm buf nbytes
          ({ kernel with rtc := written.2 }, .ret written.1)
      | .stdinTable | .fileTable | .dirTable => (kernel, .ret (-1))
      | .wild => (kernel, .fault)

/-- `open`; a `none` filename is the null pointer. -/
def openFile (platform : Platform) (filename : Option CString) (kernel : Kernel) :
    Kernel × Outcome BlockedRead :=
  match filename with
  | none => (kernel, .ret (-1))
  | some name =>
      if strncmp name.memory emptyName.memory name.strlen = 0 then (kernel, .ret (-1))
      else if strncmp name.memory stdinName.memory name.strlen = 0 then
        ({ kernel with console := kernel.console.terminalOpen }, .ret 0)
      else if strncmp name.memory stdoutName.memory name.strlen = 0 then
        ({ kernel with console := kernel.console.terminalOpen }, .ret 1)
      else
        match readDentryByName platform.image name with
        | none => (kernel, .ret (-1))
        | some dentry =>
            let address := kernel.currentPcb platform
            match findDesc (kernel.pcbAt address).fdt with
            | none => (kernel, .ret (-1))
            | some fd =>
                match openDesc dentry ((kernel.pcbAt address).fdt fd) with
                | none => (kernel, .ret (-1))
                | some desc =>
                    let opened := if dentry.fileType = 0 then
                        { kernel with rtc := kernel.rtc.rtcOpen kernel.curSchedTerm }
                      else kernel
                    (opened.setDesc address fd desc, .ret fd)

def close (platform : Platform) (fd : Int) (kernel : Kernel) :
    Kernel × Outcome BlockedRead :=
  let closed := kernel.closeAt (kernel.currentPcb platform) fd
  (closed.2, .ret closed.1)

/-- Store `count` bytes at a user address; the part outside the user page
faults. -/
def storeUser (start count : Nat) (bytes : Memory) (kernel : Kernel) : Kernel :=
  { kernel with
    userMem := fun address =>
      let linear := address - kernel.userPage + userProg.toNat
      if kernel.userPage ≤ address ∧ address < kernel.userPage + fourMb.toNat ∧
          start ≤ linear ∧ linear < start + count then
        bytes (linear - start)
      else kernel.userMem address }

def inUserPage (pointer : Nat) : Prop :=
  userProg ≤ pointer ∧ (pointer : Int) < userProg + fourMb

instance (pointer : Nat) : Decidable (inUserPage pointer) :=
  inferInstanceAs (Decidable (_ ∧ _))

/-- `strlen` of an argument buffer, which always holds a terminator. -/
def argsLength (args : Memory) : Nat :=
  ((List.range bufLength).find? fun i => args i = 0).getD bufLength

def getargs (platform : Platform) (buf : Nat) (nbytes : Int) (kernel : Kernel) :
    Kernel × Outcome BlockedRead :=
  let args := (kernel.pcbAt (kernel.currentPcb platform)).args
  if u32 nbytes < argsLength args + 1 ∨ buf = 0 ∨ args 0 = 0 ∨ ¬ inUserPage buf then
    (kernel, .ret (-1))
  else
    let copied := strncpy (fun _ => 0) args (u32 nbytes)
    let stored := kernel.storeUser buf (u32 nbytes) copied
    if userProg + fourMb < buf + u32 nbytes then (stored, .fault) else (stored, .ret 0)

def vidmap (platform : Platform) (screenStart : Nat) (kernel : Kernel) :
    Kernel × Outcome BlockedRead :=
  if screenStart = 0 ∨ ¬ inUserPage screenStart then (kernel, .ret (-1))
  else
    let marked := (kernel.modifyPcb (kernel.currentPcb platform) fun pcb =>
      { pcb with vidmem := 1 }).modifyRunning fun node => { node with vidMap := 1 }
    let mapped := marked.setPageTable2Entry userVideoMem videoMemAddr
    if userProg + fourMb < screenStart + 4 then (mapped, .fault)
    else
      (mapped.storeUser screenStart 4 (byteOf userVideoMem), .ret 0)

def setHandler (kernel : Kernel) : Kernel × Outcome BlockedRead := (kernel, .ret (-1))

def sigreturn (kernel : Kernel) : Kernel × Outcome BlockedRead := (kernel, .ret (-1))

end Kernel

end Ece391Os
