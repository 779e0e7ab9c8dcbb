import Ece391Os.Process.Isolation

namespace Ece391Os

open Data

/-! The two ways a process ends: `halt` and an exception. -/

namespace Kernel

structure EndsAlike (platform : Platform) (vector : ExceptionVector) (status : UInt8)
    (kernel : Kernel) : Prop where
  processArray : (kernel.exceptionHandler platform vector).1.processArray =
    (kernel.halt platform status).1.processArray
  processNum : (kernel.exceptionHandler platform vector).1.processNum =
    (kernel.halt platform status).1.processNum
  node : (kernel.exceptionHandler platform vector).1.schedArr kernel.curSchedTerm =
    (kernel.halt platform status).1.schedArr kernel.curSchedTerm
  userProg : (kernel.exceptionHandler platform vector).1.pages.pageDirectory
      (directorySlot userProg) =
    (kernel.halt platform status).1.pages.pageDirectory (directorySlot userProg)
  tssEsp0 : (kernel.exceptionHandler platform vector).1.tssEsp0 =
    (kernel.halt platform status).1.tssEsp0
  flags : ∀ fd, (((kernel.exceptionHandler platform vector).1.pcbAt
      (kernel.currentPcb platform)).fdt fd).flags =
    (((kernel.halt platform status).1.pcbAt (kernel.currentPcb platform)).fdt fd).flags
  raised : (kernel.exceptionHandler platform vector).2 = .resume 256
  returned : (kernel.halt platform status).2 = .resume status.toNat
  live : (kernel.exceptionHandler platform vector).1.live
    ((kernel.exceptionHandler platform vector).1.schedArr kernel.curSchedTerm).processNum
  frame : (kernel.exceptionHandler platform vector).1.userPage ≠ kernelAddr.toNat

theorem userPage_eq {kernel : Kernel} (sound : kernel.processView.Sound) :
    (kernel.userPage : Int) = userFrame kernel.running.processNum := by
  have range := (live_running sound).1
  obtain ⟨_, _, runs⟩ := sound
  have entry : kernel.pages.pageDirectory (directorySlot Ece391Os.userProg) =
      userEntry kernel.running.processNum := runs.progEntry
  obtain ⟨value, aligned⟩ := userFrame_word range
  rw [userPage, entry, userEntry,
    X86.or_flags_and (by decide) (X86.and_eq_zero_of_large aligned) (by decide)]
  exact value

theorem endsAlike_of_child {platform : Platform} {kernel : Kernel}
    (vector : ExceptionVector) (status : UInt8) (sound : kernel.processView.Sound)
    (child : ¬ isBaseShell kernel.running.processNum) :
    kernel.EndsAlike platform vector status := by
  obtain ⟨address, own⟩ := currentPcb_running platform sound
  have childPcb : ¬ isBaseShell (kernel.pcbAt (kernel.currentPcb platform)).pid := by
    rwa [address, ← pcb, own]
  obtain ⟨haltConsole, _, halted⟩ := halt_eq status childPcb
  obtain ⟨console, _, excepted⟩ := exceptionHandler_eq platform vector kernel
  have after : (kernel.terminated (kernel.currentPcb platform) console).processView.Sound :=
    sound_terminated console sound child
  refine ⟨?_, ?_, ?_, ?_, ?_, ?_, ?_, ?_, ?_, ?_⟩
  · rw [excepted, halted]
    rfl
  · rw [excepted, halted]
    rfl
  · rw [excepted, halted]
    rfl
  · rw [excepted, halted]
    rfl
  · rw [excepted, halted]
    rfl
  · rw [excepted, halted]
    exact fun _ => rfl
  · rw [excepted]
  · rw [halted]
  · rw [excepted]
    exact live_running after
  · rw [excepted]
    have frame := userPage_eq after
    have range := (live_running after).1
    simp only [userFrame, eightMb, fourMb, kernelAddr] at frame ⊢
    intro same
    omega

end Kernel

/-- The exception handlers do what `halt` does for every process but the base
shells, which `halt` restarts and the handlers end. -/
theorem Reachable.endsAlike_iff {platform : Platform} {machine : Machine}
    (reachable : Reachable platform machine) (vector : ExceptionVector) (status : UInt8) :
    machine.kernel.EndsAlike platform vector status ↔
      ¬ Kernel.isBaseShell machine.kernel.running.processNum := by
  have sound := reachable.sound
  constructor
  · intro alike base
    obtain ⟨address, own⟩ := Kernel.currentPcb_running platform sound
    have basePcb : Kernel.isBaseShell
        (machine.kernel.pcbAt (machine.kernel.currentPcb platform)).pid := by
      rwa [address, ← Kernel.pcb, own]
    have restarted := Kernel.halt_base status basePcb
    obtain ⟨console, _, excepted⟩ :=
      Kernel.exceptionHandler_eq platform vector machine.kernel
    have count := alike.processNum
    rw [excepted, restarted] at count
    simp only [Kernel.terminated] at count
    omega
  · exact Kernel.endsAlike_of_child vector status sound

theorem endsAlike_sample :
    ¬ Kernel.isBaseShell (Sample.after [.execute shellName Sample.frame]
        (by decide +kernel)).kernel.running.processNum ∧
      (Sample.after [.execute shellName Sample.frame]
        (by decide +kernel)).kernel.EndsAlike Sample.platform .divideError 7 := by
  have child : ¬ Kernel.isBaseShell (Sample.after [.execute shellName Sample.frame]
      (by decide +kernel)).kernel.running.processNum := by
    decide +kernel
  exact ⟨child, ((Sample.reachable _ _).endsAlike_iff .divideError 7).mpr child⟩

theorem baseShell_exception : Launched Sample.platform Sample.start ∧
    ¬ Sample.start.kernel.EndsAlike Sample.platform .divideError 0 := by
  refine ⟨Sample.launched, fun alike => ?_⟩
  have count := alike.processNum
  revert count
  decide +kernel

end Ece391Os
