import Ece391Os.Data.Transition
import Ece391Os.Kernel.Syscalls

namespace Ece391Os

open Data

/-! The kernel as a transition system.  An event is a system call or an
exception of the running process, the end of a read it was waiting in, or an
interrupt; each runs to completion. -/

structure Machine where
  kernel : Kernel
  blocked : Fin 3 → Option BlockedRead

abbrev Reply := Outcome BlockedRead

inductive Event where
  | halt (status : UInt8)
  | execute (command : CString) (frame : StackFrame)
  | read (fd : Int) (buf : Option Memory) (nbytes : Int)
  | finishRead
  | write (fd : Int) (buf : Option Memory) (nbytes : Int)
  | openFile (filename : Option CString)
  | close (fd : Int)
  | getargs (buf : Nat) (nbytes : Int)
  | vidmap (screenStart : Nat)
  | setHandler
  | sigreturn
  | exception (vector : ExceptionVector)
  | tick (esp ebp : Int)
  | key (scanCode : UInt8)
  | rtcInterrupt

def Event.isCall : Event → Bool
  | tick _ _ | key _ | rtcInterrupt => false
  | _ => true

def Event.isPlain : Event → Bool
  | halt _ | execute _ _ | exception _ | tick _ _ => false
  | _ => true

def Event.isExecute : Event → Bool
  | execute _ _ => true
  | _ => false

def Event.isHalt : Event → Bool
  | halt _ => true
  | _ => false

namespace Machine

/-- A call of the running process, which must not be waiting in another. -/
def call (machine : Machine) (body : Kernel → Kernel × Reply) :
    Option (Machine × Reply) :=
  match machine.blocked machine.kernel.curSchedTerm with
  | some _ => none
  | none =>
      let result := body machine.kernel
      match result.2 with
      | .wait pending =>
          some (⟨result.1, Function.update machine.blocked
            machine.kernel.curSchedTerm (some pending)⟩, result.2)
      | _ => some ({ machine with kernel := result.1 }, result.2)

def wake (machine : Machine) : Option (Machine × Reply) :=
  match machine.blocked machine.kernel.curSchedTerm with
  | none => none
  | some pending =>
      match machine.kernel.finishRead pending with
      | none => none
      | some (kernel, reply) =>
          some (⟨kernel, Function.update machine.blocked
            machine.kernel.curSchedTerm none⟩, reply)

/-- One event.  Exceptions are those of a process with a parent. -/
def step (platform : Platform) (machine : Machine) :
    Event → Option (Machine × Reply)
  | .halt status => machine.call (Kernel.halt platform status)
  | .execute command frame => machine.call (Kernel.execute platform command frame)
  | .read fd buf nbytes => machine.call (Kernel.read platform fd buf nbytes)
  | .finishRead => machine.wake
  | .write fd buf nbytes => machine.call (Kernel.write platform fd buf nbytes)
  | .openFile filename => machine.call (Kernel.openFile platform filename)
  | .close fd => machine.call (Kernel.close platform fd)
  | .getargs buf nbytes => machine.call (Kernel.getargs platform buf nbytes)
  | .vidmap screenStart => machine.call (Kernel.vidmap platform screenStart)
  | .setHandler => machine.call Kernel.setHandler
  | .sigreturn => machine.call Kernel.sigreturn
  | .exception vector =>
      if (machine.kernel.pcbAt (machine.kernel.currentPcb platform)).parentPid = 0 then
        none
      else machine.call (Kernel.exceptionHandler platform vector)
  | .tick esp ebp =>
      let ticked := machine.kernel.pitInterruptHandler esp ebp
      some ({ machine with kernel := ticked.1 }, ticked.2)
  | .key scanCode =>
      some ({ machine with
        kernel := machine.kernel.keyboardInterruptHandler scanCode }, .handled)
  | .rtcInterrupt =>
      some ({ machine with kernel := machine.kernel.rtcInterruptHandler }, .handled)

theorem call_eq_some {machine machine' : Machine} {body : Kernel → Kernel × Reply}
    {reply : Reply} (fired : machine.call body = some (machine', reply)) :
    machine.blocked machine.kernel.curSchedTerm = none ∧
      body machine.kernel = (machine'.kernel, reply) := by
  simp only [call] at fired
  split at fired
  · cases fired
  · rename_i idle
    refine ⟨idle, ?_⟩
    split at fired
    · obtain ⟨rfl, rfl⟩ := Prod.mk.inj (Option.some.inj fired)
      rfl
    · obtain ⟨rfl, rfl⟩ := Prod.mk.inj (Option.some.inj fired)
      rfl

theorem wake_eq_some {machine machine' : Machine} {reply : Reply}
    (fired : machine.wake = some (machine', reply)) :
    ∃ pending, machine.blocked machine.kernel.curSchedTerm = some pending ∧
      machine.kernel.finishRead pending = some (machine'.kernel, reply) := by
  simp only [wake] at fired
  split at fired
  · cases fired
  · rename_i pending waiting
    refine ⟨pending, waiting, ?_⟩
    split at fired
    · cases fired
    · rename_i finished
      obtain ⟨rfl, rfl⟩ := Prod.mk.inj (Option.some.inj fired)
      exact finished

end Machine

inductive Kernel.Step (platform : Platform) (kernel : Kernel) :
    Event → Kernel × Reply → Prop
  | halt (status : UInt8) :
      Step platform kernel (.halt status) (kernel.halt platform status)
  | execute (command : CString) (frame : StackFrame) :
      Step platform kernel (.execute command frame)
        (kernel.execute platform command frame)
  | read (fd : Int) (buf : Option Memory) (nbytes : Int) :
      Step platform kernel (.read fd buf nbytes) (kernel.read platform fd buf nbytes)
  | finishRead (pending : BlockedRead) (result : Kernel × Reply)
      (ready : kernel.finishRead pending = some result) :
      Step platform kernel .finishRead result
  | write (fd : Int) (buf : Option Memory) (nbytes : Int) :
      Step platform kernel (.write fd buf nbytes) (kernel.write platform fd buf nbytes)
  | openFile (filename : Option CString) :
      Step platform kernel (.openFile filename) (kernel.openFile platform filename)
  | close (fd : Int) : Step platform kernel (.close fd) (kernel.close platform fd)
  | getargs (buf : Nat) (nbytes : Int) :
      Step platform kernel (.getargs buf nbytes) (kernel.getargs platform buf nbytes)
  | vidmap (screenStart : Nat) :
      Step platform kernel (.vidmap screenStart) (kernel.vidmap platform screenStart)
  | setHandler : Step platform kernel .setHandler kernel.setHandler
  | sigreturn : Step platform kernel .sigreturn kernel.sigreturn
  | exception (vector : ExceptionVector)
      (child : (kernel.pcbAt (kernel.currentPcb platform)).parentPid ≠ 0) :
      Step platform kernel (.exception vector) (kernel.exceptionHandler platform vector)
  | tick (esp ebp : Int) :
      Step platform kernel (.tick esp ebp) (kernel.pitInterruptHandler esp ebp)
  | key (scanCode : UInt8) :
      Step platform kernel (.key scanCode)
        (kernel.keyboardInterruptHandler scanCode, .handled)
  | rtcInterrupt :
      Step platform kernel .rtcInterrupt (kernel.rtcInterruptHandler, .handled)

theorem Machine.step_kernel {platform : Platform} {machine machine' : Machine}
    {event : Event} {reply : Reply}
    (fired : machine.step platform event = some (machine', reply)) :
    Kernel.Step platform machine.kernel event (machine'.kernel, reply) := by
  have called {body : Kernel → Kernel × Reply}
      (fired : machine.call body = some (machine', reply)) :
      (machine'.kernel, reply) = body machine.kernel :=
    (call_eq_some fired).2.symm
  cases event with
  | halt => rw [called fired]; exact .halt _
  | execute => rw [called fired]; exact .execute _ _
  | read => rw [called fired]; exact .read _ _ _
  | finishRead =>
      obtain ⟨pending, _, finished⟩ := wake_eq_some fired
      exact .finishRead pending _ finished
  | write => rw [called fired]; exact .write _ _ _
  | openFile => rw [called fired]; exact .openFile _
  | close fd =>
      simp only [step] at fired
      rw [called fired]
      exact .close fd
  | getargs => rw [called fired]; exact .getargs _ _
  | vidmap => rw [called fired]; exact .vidmap _
  | setHandler =>
      simp only [step] at fired
      rw [called fired]
      exact .setHandler
  | sigreturn =>
      simp only [step] at fired
      rw [called fired]
      exact .sigreturn
  | exception vector =>
      simp only [step] at fired
      split at fired
      · cases fired
      · rename_i child
        rw [called fired]
        exact .exception vector child
  | tick =>
      obtain ⟨rfl, rfl⟩ := Prod.mk.inj (Option.some.inj fired)
      exact .tick _ _
  | key =>
      obtain ⟨rfl, rfl⟩ := Prod.mk.inj (Option.some.inj fired)
      exact .key _
  | rtcInterrupt =>
      obtain ⟨rfl, rfl⟩ := Prod.mk.inj (Option.some.inj fired)
      exact .rtcInterrupt

/-! Start-up.  Memory that no code has written yet is arbitrary. -/

structure BootMemory where
  video : Memory
  pcbs : Nat → Pcb
  kbBufs : Fin 3 → Memory
  userMem : Memory

namespace Kernel

def zeroed (memory : BootMemory) : Kernel where
  processNum := 0
  processArray := fun _ => 0
  pcbAt := memory.pcbs
  tssEsp0 := u32 eightMb
  programAddrTest := 0
  schedArr := fun _ => ⟨0, 0, 0, 0, 0⟩
  curSchedTerm := 0
  prevSchedTerm := none
  pages := ⟨fun _ => 0#32, fun _ => 0#32, fun _ => 0#32⟩
  console :=
    { terminals := fun terminal => ⟨0, 0, 0, memory.kbBufs terminal, 0, 0, 0, 0, 0, 0⟩
      curTerminal := 0
      printTerminal := 0
      cursor := 0
      video := memory.video }
  rtc := ⟨fun _ => 0, fun _ => 0, fun _ => 0⟩
  userMem := memory.userMem
  masterMask := 0xFF#8
  slaveMask := 0xFF#8

/-- `entry` up to its call of `launch`, if nothing interrupts it. -/
def boot (platform : Platform) (memory : BootMemory) : Kernel :=
  let start := zeroed memory
  let paged := { start with pages := start.pages.initPaging platform }
  let devices := ((paged.enableIrq 2).enableIrq 8).pitInit
  let keyboard := { devices with console := devices.console.initShell }.enableIrq 1
  { keyboard with
    console := (keyboard.console.clearScreen keyboard.pages.videoPage).resetScreen }

end Kernel

/-- The kernel before `launch` masks interrupts: `boot` and the interrupts
after its `reset_screen`. -/
inductive Booted (platform : Platform) : Kernel → Prop
  | boot (memory : BootMemory) : Booted platform (Kernel.boot platform memory)
  | tick (esp ebp : Int) (booted : Booted platform kernel) :
      Booted platform (kernel.pitInterruptHandler esp ebp).1
  | key (scanCode : UInt8) (booted : Booted platform kernel) :
      Booted platform (kernel.keyboardInterruptHandler scanCode)
  | rtcInterrupt (booted : Booted platform kernel) :
      Booted platform kernel.rtcInterruptHandler

def Launched (platform : Platform) (machine : Machine) : Prop :=
  ∃ kernel frame, Booted platform kernel ∧
    kernel.launch platform frame = some machine.kernel ∧
    machine.blocked = fun _ => none

def Reachable (platform : Platform) (machine : Machine) : Prop :=
  ∃ start trace, Launched platform start ∧
    Run (Machine.step platform) start trace machine

theorem Reachable.kernel_invariant {platform : Platform} {machine : Machine}
    (reachable : Reachable platform machine) (holds : Kernel → Prop)
    (launched : ∀ {start}, Launched platform start → holds start.kernel)
    (preserved : ∀ {kernel event result}, holds kernel →
      Kernel.Step platform kernel event result → holds result.1) :
    holds machine.kernel := by
  obtain ⟨start, trace, began, run⟩ := reachable
  exact run.invariant (fun machine => holds machine.kernel)
    (fun before fired => preserved before (Machine.step_kernel fired))
    (launched began)

/-! A small disk to run the definitions on: the directory itself, the clock and
one executable of 40 bytes. -/

namespace Sample

def dentry (name : List UInt8) (fileType : UInt8) : Memory :=
  fun k => if k < 32 then name.getD k 0 else if k = 32 then fileType else 0

def image : Memory := fun address =>
  if address < 64 then [3, 0, 0, 0, 1, 0, 0, 0, 1, 0, 0, 0].getD address 0
  else if address < 128 then dentry [46] 1 (address - 64)
  else if address < 192 then dentry [114, 116, 99] 0 (address - 128)
  else if address < 256 then dentry shellName.bytes 2 (address - 192)
  else if address = 4096 then 40
  else if address < 8192 then 0
  else [0x7F, 0x45, 0x4C, 0x46].getD (address - 8192) 0

def platform : Platform where
  image := image
  stackDepth := 64
  stackDepth_pos := by decide
  stackDepth_lt := by decide
  firstTableAddr := 0x410000#32
  secondTableAddr := 0x411000#32
  firstTable_aligned := by decide
  secondTable_aligned := by decide
  tables_distinct := by decide

def frame : StackFrame where
  pcb := ⟨0, 0, 0, 0, fun _ => ⟨.wild, 0, 0, 0⟩, fun _ => 0, 0⟩
  elfBuf := fun _ => 0
  args := fun _ => 0
  ebp := 0

def memory : BootMemory where
  video := fun _ => 0
  pcbs := fun _ => frame.pcb
  kbBufs := fun _ _ => 0
  userMem := fun _ => 0

theorem launch_isSome :
    ((Kernel.boot platform memory).launch platform frame).isSome = true := by
  decide +kernel

def start : Machine where
  kernel := ((Kernel.boot platform memory).launch platform frame).get launch_isSome
  blocked := fun _ => none

theorem launched : Launched platform start :=
  ⟨_, frame, .boot memory, by simp [start], rfl⟩

def after (events : List Event) (fires :
    (runEvents (Machine.step platform) start events).isSome = true) : Machine :=
  (runEvents (Machine.step platform) start events).get fires

theorem runs (events : List Event) (fires :
    (runEvents (Machine.step platform) start events).isSome = true) :
    ∃ trace, Run (Machine.step platform) start trace (after events fires) ∧
      trace.map Transition.event = events :=
  run_of_runEvents (Option.some_get fires).symm

theorem reachable (events : List Event) (fires :
    (runEvents (Machine.step platform) start events).isSome = true) :
    Reachable platform (after events fires) := by
  obtain ⟨trace, run, -⟩ := runs events fires
  exact ⟨start, trace, launched, run⟩

def fire (state : Machine) (event : Event)
    (fires : (state.step platform event).isSome = true) : Transition Machine Event Reply where
  before := state
  event := event
  reply := ((state.step platform event).get fires).2
  after := ((state.step platform event).get fires).1

theorem fire_eq (state : Machine) (event : Event)
    (fires : (state.step platform event).isSome = true) :
    state.step platform event =
      some ((fire state event fires).after, (fire state event fires).reply) :=
  (Option.some_get fires).symm

theorem fire_snoc {first state : Machine} {trace : List (Transition Machine Event Reply)}
    (run : Run (Machine.step platform) first trace state) (event : Event)
    (fires : (state.step platform event).isSome = true) :
    Run (Machine.step platform) first (trace ++ [fire state event fires])
      (fire state event fires).after :=
  run.snoc (fire_eq state event fires)

theorem fire_twice (state : Machine) (first second : Event)
    (fires : (state.step platform first).isSome = true)
    (again : ((fire state first fires).after.step platform second).isSome = true) :
    Run (Machine.step platform) state
      [fire state first fires, fire (fire state first fires).after second again]
      (fire (fire state first fires).after second again).after :=
  fire_snoc (fire_snoc (.nil state) first fires) second again

end Sample

end Ece391Os
