import Ece391Os.Terminal.Modifiers

namespace Ece391Os

open Data

/-! The computer from `init_shell` on, with the calls of the terminal driver that
no program can reach added to those that programs make. -/

theorem FdTable.offTerminal.fresh (stale : FdTable) :
    FdTable.offTerminal (freshFdt stale) := by
  intro fd above below used
  have unused : (freshFdt stale fd).flags = -1 := by
    rw [freshFdt, if_neg (by omega), if_neg (by omega), if_pos ⟨by omega, below⟩]
  rw [unused] at used
  cases used

theorem FdTable.offTerminal.after {image : Memory} {fdt : FdTable} (off : fdt.offTerminal)
    (event : Event) : (fdt.after image event).offTerminal := by
  intro fd above below used
  by_cases already : (fdt fd).flags = 1
  · rw [(FdTable.after_kept already used).1]
    exact off fd above below already
  · obtain ⟨_, _, _, _, _, known, _⟩ := FdTable.after_opened already used
    exact FdTable.typeTable_ne known

namespace Machine

/-- What the driver relies on in the rest of the kernel. -/
structure WellKept (machine : Machine) : Prop where
  processes : machine.kernel.processView.Sound
  tables : ∀ pid, machine.kernel.live pid →
    (machine.kernel.table pid).Valid ∧ (machine.kernel.table pid).offTerminal
  mapped : machine.kernel.OwnScreen

variable {platform : Platform} {machine next : Machine} {event : Event} {reply : Reply}

theorem WellKept.caller (kept : machine.WellKept) :
    machine.callerTable.Valid ∧ machine.callerTable.offTerminal :=
  kept.tables _ (Kernel.live_running kept.processes)

theorem WellKept.step (kept : machine.WellKept)
    (fired : machine.step platform event = some (next, reply)) : next.WellKept := by
  obtain ⟨valid, off⟩ := kept.caller
  refine ⟨?_, ?_, step_mapped kept.mapped kept.processes valid off fired⟩
  · exact ((step_kernel fired).effect kept.processes).sound kept.processes
  · intro pid alive
    exact step_tables (fun fdt => fdt.Valid ∧ fdt.offTerminal)
      (fun stale => ⟨.fresh stale, .fresh stale⟩)
      (fun event both => ⟨both.1.after event, both.2.after event⟩) kept.processes kept.tables
      fired alive

/-- A tick moves on what prints, and nothing else of the console. -/
theorem WellKept.ticked (kept : machine.WellKept) (esp ebp : Int) :
    ∃ terminal, (machine.kernel.pitInterruptHandler esp ebp).1.console =
      { machine.kernel.console with printTerminal := terminal } := by
  obtain ⟨_, _, runs⟩ := kept.processes
  obtain ⟨mask, ticked⟩ := Kernel.pitInterruptHandler_eq esp ebp runs.active
  rw [ticked]
  exact ⟨_, rfl⟩

theorem WellKept.terminalOpen (kept : machine.WellKept) :
    WellKept { machine with
      kernel := { machine.kernel with console := machine.kernel.console.terminalOpen } } :=
  ⟨kept.processes, kept.tables, kept.mapped.wrote rfl (Kernel.terminalOpen_wrote kept.mapped)⟩

end Machine

theorem Launched.wellKept {platform : Platform} {machine : Machine}
    (began : Launched platform machine) : machine.WellKept := by
  refine ⟨began.sound, ?_, began.mappedStart⟩
  intro pid alive
  obtain ⟨stale, new⟩ := began.table_fresh alive
  rw [new]
  exact ⟨.fresh stale, .fresh stale⟩

structure Session where
  machine : Machine
  launched : Bool

inductive SessionEvent where
  | launch (frame : StackFrame)
  | fire (event : Event)
  | terminalOpen
  | terminalClose

namespace Session

def console (session : Session) : Console := session.machine.kernel.console

/-- A call of the terminal driver by the running process. -/
def driver (session : Session) (change : Console → Console) : Option (Session × Reply) :=
  if session.launched then
    match session.machine.call fun kernel =>
        ({ kernel with console := change kernel.console }, .ret 0) with
    | none => none
    | some (machine, reply) => some ({ session with machine := machine }, reply)
  else none

/-- One event.  Programs run, and call, after `launch`. -/
def step (platform : Platform) (session : Session) : SessionEvent → Option (Session × Reply)
  | .launch frame =>
      if session.launched then none
      else
        match session.machine.kernel.launch platform frame with
        | none => none
        | some kernel => some (⟨⟨kernel, fun _ => none⟩, true⟩, .handled)
  | .fire event =>
      if event.isCall = true ∧ session.launched = false then none
      else
        match session.machine.step platform event with
        | none => none
        | some (machine, reply) => some ({ session with machine := machine }, reply)
  | .terminalOpen => session.driver Console.terminalOpen
  | .terminalClose => session.driver Console.terminalClose

def atBoot (platform : Platform) (memory : BootMemory) : Session where
  machine := ⟨Kernel.boot platform memory, fun _ => none⟩
  launched := false

def Sound (platform : Platform) (session : Session) : Prop :=
  if session.launched then session.machine.WellKept
  else Booted platform session.machine.kernel

variable {platform : Platform} {session next : Session} {event : SessionEvent} {reply : Reply}

inductive Moves (platform : Platform) (session : Session) :
    SessionEvent → Session → Reply → Prop
  | launch {kernel : Kernel} (frame : StackFrame) (booting : session.launched = false)
      (success : session.machine.kernel.launch platform frame = some kernel) :
      Moves platform session (.launch frame) ⟨⟨kernel, fun _ => none⟩, true⟩ .handled
  | fire {event : Event} {machine : Machine} {reply : Reply}
      (running : session.launched = true ∨ event.isCall = false)
      (moved : session.machine.step platform event = some (machine, reply)) :
      Moves platform session (.fire event) { session with machine := machine } reply
  | driver {event : SessionEvent} (direct : event = .terminalOpen ∨ event = .terminalClose)
      (running : session.launched = true) :
      Moves platform session event { session with
        machine := { session.machine with
          kernel := { session.machine.kernel with
            console := session.machine.kernel.console.terminalOpen } } } (.ret 0)

theorem driver_eq_some (direct : event = .terminalOpen ∨ event = .terminalClose)
    (fired : session.driver Console.terminalOpen = some (next, reply)) :
    Moves platform session event next reply := by
  simp only [driver] at fired
  split at fired
  · rename_i running
    split at fired
    · cases fired
    · rename_i machine answer called
      obtain ⟨rfl, rfl⟩ := Prod.mk.inj (Option.some.inj fired)
      simp only [Machine.call] at called
      split at called
      · cases called
      · obtain ⟨rfl, rfl⟩ := Prod.mk.inj (Option.some.inj called)
        exact .driver direct running
  · cases fired

theorem moves (fired : session.step platform event = some (next, reply)) :
    Moves platform session event next reply := by
  cases event with
  | launch frame =>
      simp only [step] at fired
      split at fired
      · cases fired
      · rename_i booting
        split at fired
        · cases fired
        · rename_i kernel success
          obtain ⟨rfl, rfl⟩ := Prod.mk.inj (Option.some.inj fired)
          exact .launch frame (Bool.eq_false_iff.mpr booting) success
  | fire event =>
      simp only [step] at fired
      split at fired
      · cases fired
      · rename_i accepted
        split at fired
        · cases fired
        · rename_i machine answer moved
          obtain ⟨rfl, rfl⟩ := Prod.mk.inj (Option.some.inj fired)
          refine .fire ?_ moved
          cases call : event.isCall with
          | false => exact .inr rfl
          | true =>
              refine .inl ?_
              by_contra booting
              exact accepted ⟨call, Bool.eq_false_iff.mpr booting⟩
  | terminalOpen => exact driver_eq_some (.inl rfl) fired
  | terminalClose => exact driver_eq_some (.inr rfl) fired

theorem Sound.booted (sound : session.Sound platform) (booting : session.launched = false) :
    Booted platform session.machine.kernel := by
  rw [Sound, booting] at sound
  exact sound

theorem Sound.wellKept (sound : session.Sound platform) (running : session.launched = true) :
    session.machine.WellKept := by
  rw [Sound, if_pos running] at sound
  exact sound

theorem Sound.step (sound : session.Sound platform)
    (fired : session.step platform event = some (next, reply)) : next.Sound platform := by
  cases moves fired with
  | launch frame booting success =>
      have began : Launched platform ⟨_, fun _ => none⟩ :=
        ⟨_, frame, sound.booted booting, success, rfl⟩
      exact began.wellKept
  | fire running moved =>
      cases launched : session.launched with
      | true => exact (sound.wellKept launched).step moved
      | false =>
          have interrupt := running.resolve_left (by rw [launched]; decide)
          exact (sound.booted launched).interrupt interrupt moved
  | driver _ running =>
      rw [Sound, if_pos running]
      exact (sound.wellKept running).terminalOpen

theorem Sound.mapped (sound : session.Sound platform) : session.machine.kernel.OwnScreen := by
  cases launched : session.launched with
  | true => exact (sound.wellKept launched).mapped
  | false => exact (sound.booted launched).mapped

theorem Sound.ticked (sound : session.Sound platform) (esp ebp : Int) :
    ∃ terminal, (session.machine.kernel.pitInterruptHandler esp ebp).1.console =
      { session.console with printTerminal := terminal } := by
  cases launched : session.launched with
  | true => exact (sound.wellKept launched).ticked esp ebp
  | false =>
      obtain ⟨mask, idle⟩ := Kernel.pitInterruptHandler_idle esp ebp
        (sound.booted launched).scheduler.1
      rw [idle]
      exact ⟨session.console.printTerminal, rfl⟩

theorem soundAfter {memory : BootMemory}
    {trace : List (Transition Session SessionEvent Reply)}
    (run : Run (Session.step platform) (atBoot platform memory) trace session) :
    session.Sound platform :=
  run.invariant (Session.Sound platform) (fun sound fired => sound.step fired) (.boot memory)

end Session

end Ece391Os
