import Ece391Os.Data.LineDiscipline
import Ece391Os.Process.Steps
import Ece391Os.Terminal.Typing

namespace Ece391Os

open Data

/-! Reads of the terminal: who waits, and what the answers are. -/

theorem Machine.call_blocked {machine next : Machine} {body : Kernel → Kernel × Reply}
    {reply : Reply} (fired : machine.call body = some (next, reply)) :
    (∃ pending, reply = .wait pending ∧ next.blocked =
      Function.update machine.blocked machine.kernel.curSchedTerm (some pending)) ∨
    ((∀ pending, reply ≠ .wait pending) ∧ next.blocked = machine.blocked) := by
  simp only [call] at fired
  split at fired
  · cases fired
  · split at fired
    · rename_i pending waits
      obtain ⟨rfl, rfl⟩ := Prod.mk.inj (Option.some.inj fired)
      exact .inl ⟨pending, waits, rfl⟩
    · rename_i returns
      obtain ⟨rfl, rfl⟩ := Prod.mk.inj (Option.some.inj fired)
      exact .inr ⟨returns, rfl⟩

theorem Machine.wake_blocked {machine next : Machine} {reply : Reply}
    (fired : machine.wake = some (next, reply)) :
    next.blocked = Function.update machine.blocked machine.kernel.curSchedTerm none := by
  simp only [wake] at fired
  split at fired
  · cases fired
  · split at fired
    · cases fired
    · obtain ⟨rfl, rfl⟩ := Prod.mk.inj (Option.some.inj fired)
      rfl

theorem FdTable.Valid.stdin_only {fdt : FdTable} {fd : Int} (valid : fdt.Valid)
    (off : fdt.offTerminal) (inside : ¬ (fd < 0 ∨ maxFdNum < fd)) (used : (fdt fd).flags ≠ -1)
    (stdin : (fdt fd).jumpPtr = .stdinTable) : fd = 0 := by
  have lower : 0 ≤ fd := Int.not_lt.mp fun below => inside (.inl below)
  have upper : fd ≤ maxFdNum := Int.not_lt.mp fun above => inside (.inr above)
  have flags := (valid.flags fd lower upper).resolve_right used
  by_contra other
  by_cases stdout : fd = 1
  · rw [stdout, valid.stdout.2] at stdin
    cases stdin
  · exact (off fd (by omega) upper flags).1 stdin

namespace Kernel

variable {platform : Platform} {kernel : Kernel}

/-- The console while the running process waits for Enter. -/
def asked (kernel : Kernel) : Console :=
  kernel.console.modifyShell kernel.curSchedTerm fun shell => { shell with lineBufferFlag := 0 }

theorem lines_asked (kernel : Kernel) (terminal : Fin 3) :
    kernel.asked.lines terminal =
      if terminal = kernel.curSchedTerm then
        { kernel.console.lines terminal with lineBufferFlag := 0 }
      else kernel.console.lines terminal := by
  split
  · rename_i here
    rw [here, Console.lines, asked, Console.terminals_modifyShell]
    rfl
  · rename_i away
    simp only [Console.lines, asked, Console.modifyShell, Function.update_of_ne away]

theorem read_asks (fd : Int) (buf : Option Memory) (nbytes : Int)
    (valid : FdTable.Valid (kernel.pcbAt (kernel.currentPcb platform)).fdt)
    (off : FdTable.offTerminal (kernel.pcbAt (kernel.currentPcb platform)).fdt) :
    (∃ bytes, fd = 0 ∧ buf = some bytes ∧
      (kernel.read platform fd buf nbytes).1.console = kernel.asked ∧
      (kernel.read platform fd buf nbytes).2 = .wait (.terminal bytes nbytes)) ∨
    ((kernel.read platform fd buf nbytes).1.console = kernel.console ∧
      ∀ bytes count, (kernel.read platform fd buf nbytes).2 ≠ .wait (.terminal bytes count)) := by
  simp only [read]
  split
  · exact .inr ⟨rfl, fun _ _ waits => by cases waits⟩
  · rename_i inside
    split
    · exact .inr ⟨rfl, fun _ _ waits => by cases waits⟩
    · rename_i used
      split
      · rename_i stdin
        have first := valid.stdin_only off inside used stdin
        split
        · exact .inr ⟨rfl, fun _ _ waits => by cases waits⟩
        · rename_i bytes
          split
          · exact .inr ⟨rfl, fun _ _ waits => by cases waits⟩
          · exact .inl ⟨bytes, first, rfl, rfl, rfl⟩
      all_goals
        repeat' split
        all_goals exact .inr ⟨rfl, fun _ _ waits => by cases waits⟩

theorem Step.waits {event : Event} {result : Kernel × Reply} {pending : BlockedRead}
    (step : Step platform kernel event result) (sound : kernel.processView.Sound)
    (waits : result.2 = .wait pending) : ∃ fd buf nbytes, event = .read fd buf nbytes := by
  cases step with
  | read fd buf nbytes => exact ⟨fd, buf, nbytes, rfl⟩
  | halt status =>
      by_cases base : isBaseShell (kernel.pcbAt (kernel.currentPcb platform)).pid
      · rw [halt_base status base] at waits
        cases waits
      · obtain ⟨console, -, halted⟩ := halt_eq status base
        rw [halted] at waits
        cases waits
  | execute command frame =>
      rcases execute_outcome platform command frame sound with
        refused | ⟨_, _, memory, _, _, succeeded⟩
      · rw [refused] at waits
        cases waits
      · rw [succeeded] at waits
        cases waits
  | exception vector =>
      obtain ⟨console, -, ended⟩ := exceptionHandler_eq platform vector kernel
      rw [ended] at waits
      cases waits
  | finishRead pending result ready =>
      rcases finishRead_cases ready with ⟨_, _, _, _, rfl⟩ | ⟨_, _, rfl⟩
      · cases waits
      · cases waits
  | tick esp ebp =>
      obtain ⟨_, _, runs⟩ := sound
      rw [pitInterruptHandler_reply esp ebp runs.active, switchReply] at waits
      split at waits
      · cases waits
      · cases waits
  | write =>
      simp only [Kernel.write] at waits
      repeat' split at waits
      all_goals cases waits
  | openFile =>
      simp only [Kernel.openFile] at waits
      repeat' split at waits
      all_goals cases waits
  | close => cases waits
  | getargs =>
      simp only [Kernel.getargs] at waits
      repeat' split at waits
      all_goals cases waits
  | vidmap =>
      simp only [Kernel.vidmap] at waits
      repeat' split at waits
      all_goals cases waits
  | setHandler | sigreturn | key | rtcInterrupt => cases waits

end Kernel

namespace Machine

def terminalRead : Option BlockedRead → Option (Memory × Int)
  | some (.terminal buf nbytes) => some (buf, nbytes)
  | _ => none

/-- The `terminal_read` that the process of a terminal waits in. -/
def reads (machine : Machine) (terminal : Fin 3) : Option (Memory × Int) :=
  terminalRead (machine.blocked terminal)

/-- What an event that is no key does to the lines and to the reads of the
terminals, when it opens no terminal. -/
inductive Serves (machine : Machine) (event : Event) (next : Machine) (reply : Reply) : Prop
  | kept (lines : next.kernel.console.lines = machine.kernel.console.lines)
      (reads : next.reads = machine.reads)
      (other : event = .finishRead → ∀ value filled, reply ≠ .read value filled)
  | asked {bytes : Memory} {nbytes : Int} (asks : event = .read 0 (some bytes) nbytes)
      (console : next.kernel.console = machine.kernel.asked)
      (reads : next.reads = Function.update machine.reads machine.kernel.curSchedTerm
        (some (bytes, nbytes)))
  | answered {bytes : Memory} {nbytes : Int} (answers : event = .finishRead)
      (waited : machine.reads machine.kernel.curSchedTerm = some (bytes, nbytes))
      (ended : (machine.kernel.console.lines machine.kernel.curSchedTerm).lineBufferFlag ≠ 0)
      (console : next.kernel.console = machine.kernel.console.terminalOpen)
      (reads : next.reads = Function.update machine.reads machine.kernel.curSchedTerm none)
      (answer : reply = .read (machine.kernel.console.terminalReadFinish bytes nbytes).1
        (machine.kernel.console.terminalReadFinish bytes nbytes).2.1)

variable {platform : Platform} {machine next : Machine} {event : Event} {reply : Reply}

theorem reads_congr (same : next.blocked = machine.blocked) : next.reads = machine.reads := by
  funext terminal
  rw [reads, reads, same]

theorem reads_update {terminal : Fin 3} {pending : Option BlockedRead}
    (blocked : next.blocked = Function.update machine.blocked terminal pending) :
    next.reads = Function.update machine.reads terminal (terminalRead pending) := by
  funext other
  rw [reads, blocked]
  by_cases here : other = terminal
  · rw [here, Function.update_self, Function.update_self]
  · rw [Function.update_of_ne here, Function.update_of_ne here]
    rfl

theorem reads_idle (idle : machine.blocked machine.kernel.curSchedTerm = none) :
    Function.update machine.reads machine.kernel.curSchedTerm none = machine.reads := by
  apply Function.update_eq_self_iff.mpr
  rw [reads, idle]
  rfl

theorem WellKept.read_serves {fd : Int} {buf : Option Memory} {nbytes : Int}
    (kept : machine.WellKept)
    (fired : machine.step platform (.read fd buf nbytes) = some (next, reply)) :
    Serves machine (.read fd buf nbytes) next reply := by
  have own : (machine.kernel.pcbAt (machine.kernel.currentPcb platform)).fdt =
      machine.callerTable := by
    rw [(Kernel.currentPcb_running platform kept.processes).1]
    rfl
  obtain ⟨valid, off⟩ := kept.caller
  rw [← own] at valid off
  obtain ⟨idle, body⟩ := call_eq_some fired
  have left := Kernel.read_asks fd buf nbytes valid off
  rw [body] at left
  rcases left with ⟨bytes, rfl, rfl, console, answer⟩ | ⟨console, returns⟩
  · simp only at answer
    subst answer
    refine .asked rfl console ?_
    rcases call_blocked fired with ⟨pending, same, blocked⟩ | ⟨returns, -⟩
    · cases same
      exact reads_update blocked
    · exact absurd rfl (returns _)
  · refine .kept (congrArg Console.lines console) ?_ fun finish => by cases finish
    rcases call_blocked fired with ⟨pending, same, blocked⟩ | ⟨-, blocked⟩
    · rw [reads_update blocked]
      cases pending with
      | terminal bytes count => exact absurd same (returns bytes count)
      | rtc => exact reads_idle idle
    · exact reads_congr blocked

theorem wake_serves (fired : machine.step platform .finishRead = some (next, reply)) :
    Serves machine .finishRead next reply := by
  obtain ⟨pending, waiting, finished⟩ := wake_eq_some fired
  have blocked := wake_blocked fired
  rcases Kernel.finishRead_cases finished with
    ⟨buf, nbytes, rfl, ended, left⟩ | ⟨rfl, -, left⟩
  · obtain ⟨kernel, answer⟩ := Prod.mk.inj left
    have waited : machine.reads machine.kernel.curSchedTerm = some (buf, nbytes) := by
      rw [reads, waiting]
      rfl
    exact .answered rfl waited ended (congrArg Kernel.console kernel) (reads_update blocked) answer
  · obtain ⟨kernel, answer⟩ := Prod.mk.inj left
    refine .kept (congrArg (fun kernel => kernel.console.lines) kernel) ?_ ?_
    · rw [reads_update blocked]
      apply Function.update_eq_self_iff.mpr
      rw [reads, waiting]
      rfl
    · intro _ value filled same
      rw [answer] at same
      cases same

theorem call_kept {body : Kernel → Kernel × Reply}
    (fired : machine.call body = some (next, reply)) (returns : ∀ pending, reply ≠ .wait pending) :
    next.blocked = machine.blocked := by
  rcases call_blocked fired with ⟨pending, waits, -⟩ | ⟨-, same⟩
  · exact absurd waits (returns pending)
  · exact same

theorem step_kept (fired : machine.step platform event = some (next, reply))
    (other : event ≠ .finishRead) (returns : ∀ pending, reply ≠ .wait pending) :
    next.blocked = machine.blocked := by
  cases event with
  | finishRead => exact absurd rfl other
  | exception vector =>
      simp only [step] at fired
      split at fired
      · cases fired
      · exact call_kept fired returns
  | close | setHandler | sigreturn =>
      simp only [step] at fired
      exact call_kept fired returns
  | tick | key | rtcInterrupt =>
      obtain ⟨rfl, rfl⟩ := Prod.mk.inj (Option.some.inj fired)
      rfl
  | _ => exact call_kept fired returns

theorem WellKept.serves (kept : machine.WellKept)
    (fired : machine.step platform event = some (next, reply)) (other : event.isKey = false)
    (opens : ∀ name, event = .openFile (some name) → ¬ Kernel.namesTerminal name) :
    Serves machine event next reply := by
  by_cases finish : event = .finishRead
  · subst finish
    exact wake_serves fired
  · cases read : event.isRead with
    | true =>
        cases event with
        | read fd buf nbytes => exact kept.read_serves fired
        | _ => cases read
    | false =>
        have returns : ∀ pending, reply ≠ .wait pending := by
          intro pending waits
          obtain ⟨fd, buf, nbytes, rfl⟩ := (step_kernel fired).waits kept.processes waits
          cases read
        refine .kept ?_ (reads_congr (step_kept fired finish returns))
          fun same => absurd same finish
        cases call : event.isCall with
        | true =>
            obtain ⟨valid, off⟩ := kept.caller
            rcases step_prints kept.processes valid off fired call read with
              ⟨resets, -⟩ | ⟨-, prints⟩
            · cases event with
              | finishRead => exact absurd rfl finish
              | openFile filename =>
                  cases filename with
                  | none => exact resets.elim
                  | some name => exact absurd resets (opens name rfl)
              | _ => exact resets.elim
            · rw [prints, Console.lines_putAll]
        | false =>
            cases event with
            | tick esp ebp =>
                obtain ⟨terminal, ticked⟩ := kept.ticked esp ebp
                obtain ⟨rfl, rfl⟩ := Prod.mk.inj (Option.some.inj fired)
                simp only
                rw [ticked]
                rfl
            | key => cases other
            | rtcInterrupt =>
                obtain ⟨rfl, rfl⟩ := Prod.mk.inj (Option.some.inj fired)
                rfl
            | _ => cases call

end Machine

end Ece391Os
