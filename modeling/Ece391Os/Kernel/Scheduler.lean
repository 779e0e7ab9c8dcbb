import Ece391Os.Kernel.Keyboard

namespace Ece391Os

open Data

/-! `rtc.c` and `pit.c`. -/

inductive Outcome (Waiting : Type) where
  | ret (value : Int)
  | read (value : Int) (buf : Memory)
  /-- `context_switch` enters a program at its first instruction. -/
  | enter (eip : Nat)
  /-- The parent's `execute` returns a status. -/
  | resume (status : Int)
  | switched (esp ebp : Int)
  | wait (call : Waiting)
  /-- A store outside the mapped pages raises a page fault. -/
  | fault
  | handled

/-- A read that spins: on `line_buffer_flag` or on `interrupt_flags`. -/
inductive BlockedRead where
  | terminal (buf : Memory) (nbytes : Int)
  | rtc

namespace Rtc

def maxFreq : Int := 1024

def tick (rtc : Rtc) (terminal : Fin 3) : Rtc :=
  let reached := rtc.frequencies terminal - 1 ≤ rtc.count terminal
  { rtc with
    interruptFlags :=
      if reached then Function.update rtc.interruptFlags terminal 1
      else rtc.interruptFlags
    count := Function.update rtc.count terminal
      (if reached then 0 else rtc.count terminal + 1) }

def interruptHandler (rtc : Rtc) : Rtc := ((rtc.tick 0).tick 1).tick 2

def setRate (terminal : Fin 3) (rate : Int) (rtc : Rtc) : Rtc :=
  { rtc with frequencies := Function.update rtc.frequencies terminal rate }

def rtcOpen (terminal : Fin 3) (rtc : Rtc) : Rtc :=
  rtc.setRate terminal (maxFreq / 2)

def rtcReadStart (terminal : Fin 3) (rtc : Rtc) : Rtc :=
  { rtc with interruptFlags := Function.update rtc.interruptFlags terminal 0 }

def rateOf (freq : Int) : Option Int :=
  if freq = 2 then some (maxFreq / 2)
  else if freq = 4 then some (maxFreq / 4)
  else if freq = 8 then some (maxFreq / 8)
  else if freq = 16 then some (maxFreq / 16)
  else if freq = 32 then some (maxFreq / 32)
  else if freq = 64 then some (maxFreq / 64)
  else if freq = 128 then some (maxFreq / 128)
  else if freq = 512 then some (maxFreq / 512)
  else if freq = 1024 then some (maxFreq / 1024)
  else none

def rtcWrite (terminal : Fin 3) (buf : Option Memory) (nbytes : Int) (rtc : Rtc) :
    Int × Rtc :=
  match buf with
  | none => (-1, rtc)
  | some bytes =>
      if nbytes ≠ 4 then (-1, rtc)
      else
        match rateOf (i32 (bytes.word 0)) with
        | none => (-1, rtc)
        | some rate => (0, rtc.setRate terminal rate)

end Rtc

namespace Kernel

def rtcInterruptHandler (kernel : Kernel) : Kernel :=
  let masked := kernel.disableIrq 8
  { masked with rtc := masked.rtc.interruptHandler }.enableIrq 8

def pitInit (kernel : Kernel) : Kernel :=
  { kernel with
    schedArr := fun terminal =>
      { processNum := terminal.val + 1
        videoBuffer := videoMemAddr + (terminal.val + 1) * pageSize
        vidMap := 0
        esp := if terminal = 0 then eightMb else -1
        ebp := if terminal = 0 then eightMb else -1 } }.enableIrq 0

/-- The remapping half of `switch_process`. -/
def remapScheduled (kernel : Kernel) : Kernel :=
  let node := kernel.running
  let target := if kernel.curSchedTerm = kernel.console.curTerminal then videoMemAddr
    else node.videoBuffer
  let user := { kernel with tssEsp0 := u32 (stackTop node.processNum) }
    |>.setPageDirEntry userProg (userFrame node.processNum)
  let vidmapped := if node.vidMap = 1 then user.setPageTable2Entry userVideoMem target
    else user
  (vidmapped.setPageTable1Entry videoMemAddr target).setPrintTerminal
    kernel.curSchedTerm

/-- `switch_process`, called on the stack `(esp, ebp)` of terminal `previous`. -/
def switchProcess (previous : Fin 3) (esp ebp : Int) (kernel : Kernel) :
    Kernel × Outcome BlockedRead :=
  let remapped := kernel.remapScheduled
  let saved := { remapped with
    schedArr := Function.update remapped.schedArr previous
      { remapped.schedArr previous with esp := esp, ebp := ebp } }
  if saved.running.esp = -1 then
    (saved.enableIrq 0, .enter saved.programAddrTest)
  else
    (saved, .switched saved.running.esp saved.running.ebp)

def pitInterruptHandler (esp ebp : Int) (kernel : Kernel) :
    Kernel × Outcome BlockedRead :=
  let masked := kernel.disableIrq 0
  match masked.prevSchedTerm with
  | none => (masked.enableIrq 0, .handled)
  | some _ =>
      let advanced := { masked with
        prevSchedTerm := some masked.curSchedTerm
        curSchedTerm := masked.curSchedTerm + 1 }
      let switched := advanced.switchProcess masked.curSchedTerm esp ebp
      (switched.1.enableIrq 0, switched.2)

end Kernel

end Ece391Os
