import Ece391Os.Files.DescriptorRuns
import Ece391Os.Process.Children

namespace Ece391Os

open Data

/-! The arguments of a command, from `execute` to `getargs`. -/

/-- A command as it is typed: a word, spaces, and the rest. -/
structure Spelled (command : CString) (word rest : List UInt8) (gap : Nat) : Prop where
  bytes : command.bytes = word ++ List.replicate gap space ++ rest
  short : 1 ≤ word.length ∧ word.length ≤ nameLength
  whole : space ∉ word
  stripped : rest.head? ≠ some space
  separated : rest ≠ [] → 0 < gap

section Spelling

variable {command : CString} {word rest : List UInt8} {gap : Nat}

theorem dropWhile_replicate {item : UInt8} (gap : Nat) (stripped : rest.head? ≠ some item) :
    (List.replicate gap item ++ rest).dropWhile (· = item) = rest := by
  induction gap with
  | zero =>
      cases rest with
      | nil => rfl
      | cons first more =>
          have other : first ≠ item := fun same => stripped (by rw [same]; rfl)
          simp [other]
  | succ gap induction =>
      rw [List.replicate_succ, List.cons_append, List.dropWhile_cons, if_pos (by simp)]
      exact induction

theorem takeWhile_word (whole : space ∉ word) (after : List UInt8)
    (ends : after = [] ∨ after.head? = some space) :
    (word ++ after).takeWhile (· ≠ space) = word := by
  rw [List.takeWhile_append_of_pos]
  · rcases ends with rfl | starts
    · simp
    · cases after with
      | nil => simp
      | cons first more =>
          obtain rfl : first = space := Option.some.inj starts
          simp
  · intro byte member
    simp only [ne_eq, decide_eq_true_eq]
    rintro rfl
    exact whole member

theorem Spelled.commandLength (spelled : Spelled command word rest gap) :
    Ece391Os.commandLength command = word.length := by
  have ends : List.replicate gap space ++ rest = [] ∨
      (List.replicate gap space ++ rest).head? = some space := by
    cases gap with
    | zero =>
        by_cases none : rest = []
        · exact .inl (by rw [none]; rfl)
        · exact absurd (spelled.separated none) (Nat.lt_irrefl 0)
    | succ gap => exact .inr rfl
  rw [commandLength_eq, commandWord, spelled.bytes, List.append_assoc,
    takeWhile_word spelled.whole _ ends]
  exact Nat.min_eq_right spelled.short.2

theorem Spelled.commandArgs (spelled : Spelled command word rest gap) :
    Ece391Os.commandArgs command = rest := by
  rw [Ece391Os.commandArgs, spelled.commandLength, spelled.bytes, List.append_assoc,
    List.drop_left]
  exact dropWhile_replicate gap spelled.stripped

theorem Spelled.nonzero (spelled : Spelled command word rest gap) :
    ∀ byte ∈ rest, byte ≠ 0 := by
  intro byte member
  apply command.nonzero byte
  rw [spelled.bytes]
  exact List.mem_append_right _ member

end Spelling

/-! The argument buffer of a process. -/

/-- The buffer holds this string, and nothing but zeros after it. -/
structure HoldsArgs (args : Memory) (string : List UInt8) : Prop where
  room : string.length < bufLength
  nonzero : ∀ byte ∈ string, byte ≠ 0
  bytes : ∀ k < bufLength, args k = string.getD k 0

section Buffers

variable {args stale : Memory} {rest string : List UInt8}

theorem argsBuf_apply (stale : Memory) (rest : List UInt8) {k : Nat}
    (upto : k ≤ (rest.take (bufLength - 1)).length) :
    argsBuf stale rest k = (rest.take (bufLength - 1)).getD k 0 := by
  have length : bufLength = 128 := rfl
  rw [List.length_take] at upto
  simp only [argsBuf]
  by_cases last : k = bufLength - 1
  · rw [last, Function.update_self, List.getD_eq_default]
    rw [List.length_take]
    omega
  · have cut : (rest.take (bufLength - 1)).getD k 0 = rest.getD k 0 := by
      rw [List.getD_eq_getElem?_getD, List.getElem?_take, if_pos (by omega),
        List.getD_eq_getElem?_getD]
    rw [Function.update_of_ne last, cut]
    by_cases ends : k = rest.length
    · rw [if_pos (by omega), ends, Nat.min_eq_left (by omega), Function.update_self,
        List.getD_eq_default _ _ (Nat.le_refl _)]
    · have inside : Memory.blit (fun k => rest.getD k 0) 0 (Function.update stale 0 0) 0
          (min rest.length bufLength) k = rest.getD k 0 := by
        rw [Memory.blit_inside (Nat.zero_le _) (by omega)]
        simp
      split
      · rw [Function.update_of_ne (by omega), inside]
      · rw [inside]

theorem padded_string {src : Memory} (nonzero : ∀ byte ∈ string, byte ≠ 0)
    (bytes : ∀ k ≤ string.length, src k = string.getD k 0) (k : Nat) :
    padded src k = string.getD k 0 := by
  by_cases inside : k < string.length
  · rw [padded, if_neg, bytes k (by omega)]
    rintro ⟨j, before, zero⟩
    rw [bytes j (by omega), List.getD_eq_getElem?_getD, List.getElem?_eq_getElem (by omega)] at zero
    exact nonzero _ (List.getElem_mem (by omega)) zero
  · have ends : src string.length = 0 := by
      rw [bytes _ (Nat.le_refl _)]
      simp
    rw [padded, if_pos ⟨string.length, by omega, ends⟩, List.getD_eq_getElem?_getD,
      List.getElem?_eq_none (by omega)]
    rfl

theorem childPcb_holdsArgs (frame : StackFrame) (command : CString) (pid parentPid : Int)
    (nonzero : ∀ byte ∈ commandArgs command, byte ≠ 0) :
    HoldsArgs (Kernel.childPcb frame command pid parentPid).args
      ((commandArgs command).take (bufLength - 1)) := by
  have length : bufLength = 128 := rfl
  have clean : ∀ byte ∈ (commandArgs command).take (bufLength - 1), byte ≠ 0 :=
    fun byte member => nonzero byte (List.mem_of_mem_take member)
  refine ⟨?_, clean, ?_⟩
  · rw [List.length_take]
    omega
  · intro k below
    simp only [Kernel.childPcb, strncpy_apply, if_pos below]
    exact padded_string clean (fun k upto => argsBuf_apply _ _ upto) k

end Buffers

/-! `getargs`. -/

def userByte (pid : Int) (pointer : Nat) : Nat := (userFrame pid + (pointer - userProg)).toNat

/-- What `getargs` owes a process with these arguments. -/
structure GetsArguments (string : List UInt8) (pid : Int) (buf : Nat) (nbytes : Int)
    (kernel : Kernel) (result : Kernel × Reply) : Prop where
  succeeds : result.2 = .ret 0 ↔ string ≠ [] ∧ string.length + 1 ≤ nbytes
  filled : result.2 = .ret 0 → ∀ k < nbytes.toNat,
    result.1.userMem (userByte pid (buf + k)) = string.getD k 0
  fails : result.2 ≠ .ret 0 → result = (kernel, .ret (-1))

namespace HoldsArgs

variable {args : Memory} {string : List UInt8}

theorem ends (holds : HoldsArgs args string) : args string.length = 0 := by
  rw [holds.bytes _ holds.room, List.getD_eq_default _ _ (Nat.le_refl _)]

theorem inside (holds : HoldsArgs args string) {k : Nat} (below : k < string.length) :
    args k ≠ 0 := by
  have room := holds.room
  rw [holds.bytes k (by omega), List.getD_eq_getElem?_getD, List.getElem?_eq_getElem below]
  exact holds.nonzero _ (List.getElem_mem below)

theorem argsLength (holds : HoldsArgs args string) :
    Kernel.argsLength args = string.length := by
  have found : (List.range bufLength).find? (fun i => args i = 0) = some string.length := by
    rw [List.find?_range_eq_some]
    refine ⟨by simpa using holds.ends, List.mem_range.mpr holds.room, ?_⟩
    intro k below
    simpa using holds.inside below
  rw [Kernel.argsLength, found]
  rfl

theorem empty_iff (holds : HoldsArgs args string) : args 0 = 0 ↔ string = [] := by
  constructor
  · intro zero
    by_contra nonempty
    exact holds.inside (List.length_pos_iff.mpr nonempty) zero
  · rintro rfl
    exact holds.ends

theorem copied (holds : HoldsArgs args string) {n k : Nat} (below : k < n) (dest : Memory) :
    strncpy dest args n k = string.getD k 0 := by
  have room := holds.room
  rw [strncpy_apply, if_pos below]
  exact padded_string holds.nonzero (fun k upto => holds.bytes k (by omega)) k

end HoldsArgs

theorem Kernel.getargs_holds {platform : Platform} {kernel : Kernel} {string : List UInt8}
    {pid : Int} {buf : Nat} {nbytes : Int}
    (holds : HoldsArgs (kernel.pcbAt (kernel.currentPcb platform)).args string)
    (range : 1 ≤ pid ∧ pid ≤ 6) (page : kernel.userPage = (userFrame pid).toNat)
    (lower : 0 ≤ nbytes) (start : userProg ≤ buf) (finish : buf + nbytes ≤ userProg + fourMb) :
    GetsArguments string pid buf nbytes kernel (kernel.getargs platform buf nbytes) := by
  have small : (u32 nbytes : Int) = nbytes := by
    apply u32_of_bounds lower
    simp only [userProg, fourMb] at start finish
    omega
  have count : u32 nbytes = nbytes.toNat := by omega
  have length := holds.argsLength
  simp only [getargs, length, holds.empty_iff, count]
  by_cases refused : nbytes.toNat < string.length + 1 ∨ buf = 0 ∨ string = [] ∨ ¬ inUserPage buf
  · rw [if_pos refused]
    have short : ¬ (string ≠ [] ∧ string.length + 1 ≤ nbytes) := by
      rintro ⟨nonempty, enough⟩
      have inside : inUserPage buf := ⟨start, by omega⟩
      have zero : buf ≠ 0 := by
        rintro rfl
        exact absurd start (by decide)
      rcases refused with few | null | empty | outside
      · omega
      · exact zero null
      · exact nonempty empty
      · exact outside inside
    refine ⟨⟨?_, fun both => absurd both short⟩, ?_, fun _ => rfl⟩
    · intro answered
      exact absurd (Outcome.ret.inj answered) (by decide)
    · intro answered
      exact absurd (Outcome.ret.inj answered) (by decide)
  · rw [if_neg refused, if_neg (by omega)]
    simp only [not_or] at refused
    obtain ⟨enough, -, nonempty, -⟩ := refused
    refine ⟨⟨fun _ => ⟨nonempty, by omega⟩, fun _ => rfl⟩, ?_, fun failed => absurd rfl failed⟩
    intro _ k below
    have inside : kernel.userPage ≤ userByte pid (buf + k) ∧
        userByte pid (buf + k) < kernel.userPage + fourMb.toNat ∧
        buf ≤ userByte pid (buf + k) - kernel.userPage + userProg.toNat ∧
        userByte pid (buf + k) - kernel.userPage + userProg.toNat < buf + nbytes.toNat ∧
        userByte pid (buf + k) - kernel.userPage + userProg.toNat - buf = k := by
      rw [page]
      simp only [userByte, userFrame, userProg, fourMb, eightMb] at *
      omega
    obtain ⟨lowest, highest, first, last, offset⟩ := inside
    simp only [storeUser]
    rw [if_pos ⟨lowest, highest, first, last⟩, offset]
    exact holds.copied below _

/-! Arguments stay as they are while their process lives. -/

theorem Kernel.Leaves.args_kept {platform : Platform} {kernel : Kernel} {event : Event}
    {result : Kernel × Reply} {pid : Int} (leaves : Leaves platform kernel event result)
    (alive : kernel.live pid) : (result.1.pcb pid).args = (kernel.pcb pid).args := by
  have keeps {address : Nat} {changed : Pcb}
      (same : changed.args = (kernel.pcbAt address).args) :
      (Function.update kernel.pcbAt address changed (pcbAddr pid)).args =
        (kernel.pcb pid).args :=
    congrFun (value_update Pcb.args same) (pcbAddr pid)
  cases leaves with
  | serviced _ done =>
      obtain ⟨fdt, console, rtc, memory, rfl⟩ := done
      exact keeps rfl
  | vidmapped => exact keeps rfl
  | ended => exact keeps rfl
  | started memory eip found => rw [pcb_started _ memory found rfl alive]
  | restarted | ticked | ignored | typed | clocked => rfl

theorem Reachable.step {platform : Platform} {machine next : Machine} {event : Event}
    {reply : Reply} (reachable : Reachable platform machine)
    (fired : machine.step platform event = some (next, reply)) : Reachable platform next := by
  obtain ⟨start, trace, began, run⟩ := reachable
  exact ⟨start, _, began, run.snoc fired⟩

theorem Reachable.args_kept {platform : Platform} {start machine : Machine} {trace : Trace}
    {pid : Int} (reachable : Reachable platform start)
    (run : Run (Machine.step platform) start trace machine) (alive : start.kernel.live pid)
    (since : ∀ transition ∈ trace, transition.after.kernel.live pid) :
    Reachable platform machine ∧ machine.kernel.live pid ∧
      (machine.kernel.pcb pid).args = (start.kernel.pcb pid).args := by
  induction run with
  | nil => exact ⟨reachable, alive, rfl⟩
  | snoc before fired induction =>
      obtain ⟨reached, living, same⟩ := induction fun transition member =>
        since transition (List.mem_append_left _ member)
      have leaves := (Machine.step_kernel fired).leaves reached.sound
      refine ⟨reached.step fired, since _ (List.mem_append_right _ (List.mem_singleton.mpr rfl)),
        ?_⟩
      rw [← same]
      exact leaves.args_kept living

theorem Machine.execute_args {platform : Platform} {machine next : Machine} {command : CString}
    {frame : StackFrame} {eip : Nat} (sound : machine.kernel.processView.Sound)
    (nonzero : ∀ byte ∈ commandArgs command, byte ≠ 0)
    (executed : machine.step platform (.execute command frame) = some (next, .enter eip)) :
    HoldsArgs (next.kernel.pcb next.caller).args
      ((commandArgs command).take (bufLength - 1)) := by
  have body := (call_eq_some executed).2
  obtain failed | ⟨-, slot, memory, entry, found, started⟩ :=
    Kernel.execute_outcome platform command frame sound
  · rw [failed] at body
    cases (Prod.mk.inj body).2
  · rw [started] at body
    have after := (Prod.mk.inj body).1.symm
    simp only [Machine.caller]
    rw [after]
    set child := Kernel.childPcb frame command (slot + 1) machine.kernel.running.processNum
    have own : (Kernel.started child memory { machine.kernel with
        processArray := Function.update machine.kernel.processArray slot 1 }).pcb
          (slot + 1) = child := by
      simp [Kernel.pcb, Kernel.started, child, Kernel.childPcb]
    have caller : (Kernel.started child memory { machine.kernel with
        processArray := Function.update machine.kernel.processArray slot 1
        }).running.processNum = slot + 1 := by
      simp [Kernel.running, Kernel.started, child, Kernel.childPcb]
    rw [caller, own]
    exact childPcb_holdsArgs frame command _ _ nonzero

/-- What follows the spaces of a command, cut to 127 bytes, is what the child gets,
as often as it asks and whatever happens in between. -/
theorem Reachable.getsArguments {platform : Platform} {machine next later : Machine}
    {trace : Trace} {command : CString} {frame : StackFrame} {word rest : List UInt8}
    {gap eip buf : Nat} {nbytes : Int} (reachable : Reachable platform machine)
    (spelled : Spelled command word rest gap)
    (executed : machine.step platform (.execute command frame) = some (next, .enter eip))
    (since : Run (Machine.step platform) next trace later)
    (alive : ∀ transition ∈ trace, transition.after.kernel.live next.caller)
    (running : later.caller = next.caller) (lower : 0 ≤ nbytes) (start : userProg ≤ buf)
    (finish : buf + nbytes ≤ userProg + fourMb) :
    GetsArguments (rest.take (bufLength - 1)) next.caller buf nbytes later.kernel
      (later.kernel.getargs platform buf nbytes) := by
  have clean : ∀ byte ∈ commandArgs command, byte ≠ 0 := by
    rw [spelled.commandArgs]
    exact spelled.nonzero
  have held := Machine.execute_args reachable.sound clean executed
  rw [spelled.commandArgs] at held
  have born : next.kernel.live next.caller :=
    Kernel.live_running (reachable.step executed).sound
  obtain ⟨reached, living, same⟩ := (reachable.step executed).args_kept since born alive
  have block := (Kernel.currentPcb_running platform reached.sound).1
  have page := Kernel.userPage_running reached.sound
  rw [← same] at held
  simp only [Machine.caller] at running
  refine Kernel.getargs_holds ?_ living.1 ?_ lower start finish
  · rw [block, running]
    exact held
  · rw [page, running]
    rfl

namespace Sample

theorem argued_nonzero :
    ∀ byte ∈ ([115, 104, 101, 108, 108, 32, 32, 108, 115] : List UInt8), byte ≠ 0 := by
  simp

def argued : CString := ⟨_, argued_nonzero⟩

theorem argued_spelled : Spelled argued shellName.bytes [108, 115] 2 :=
  ⟨by decide, by decide, by decide, by decide, by decide⟩

theorem argued_fires : (start.step platform (.execute argued frame)).isSome = true := by
  decide +kernel

def arguedChild : Machine := (fire start (.execute argued frame) argued_fires).after

theorem returns_fires : (arguedChild.step platform .sigreturn).isSome = true := by
  decide +kernel

theorem argued_enters :
    ∃ eip, start.step platform (.execute argued frame) = some (arguedChild, .enter eip) := by
  have room : start.kernel.processNum < maxProgs := by decide +kernel
  have first : FirstNamed image (commandName argued) 2 := by
    refine ⟨⟨by decide, by decide⟩, ?_⟩
    rintro earlier before ⟨-, same⟩
    have other : ∀ earlier < 2,
        fieldBytes (dentryName image earlier) ≠ (commandName argued).bytes := by
      decide
    exact other earlier before same
  have accepted : accepts image 2 frame.elfBuf := ⟨by decide, by decide⟩
  have fired := fire_eq start (.execute argued frame) argued_fires
  have called : start.call (Kernel.execute platform argued frame) = _ := fired
  have body := (Machine.call_eq_some called).2
  obtain ⟨⟨eip, entered⟩, -⟩ | ⟨-, refused⟩ :=
    Kernel.execute_decides platform argued frame room
  · rw [body] at entered
    rw [fired]
    exact ⟨eip, by rw [← entered]; rfl⟩
  · exact absurd ⟨2, first, accepted⟩ refused

end Sample

theorem getsArguments_sample :
    GetsArguments [108, 115] Sample.arguedChild.caller 0x8000000 10
      (Sample.fire Sample.arguedChild .sigreturn Sample.returns_fires).after.kernel
      ((Sample.fire Sample.arguedChild .sigreturn Sample.returns_fires).after.kernel.getargs
        Sample.platform 0x8000000 10) := by
  obtain ⟨eip, entered⟩ := Sample.argued_enters
  have reachable : Reachable Sample.platform Sample.start :=
    ⟨Sample.start, [], Sample.launched, .nil _⟩
  refine reachable.getsArguments Sample.argued_spelled entered
    (Sample.fire_snoc (.nil _) .sigreturn Sample.returns_fires) ?_ ?_ ?_ ?_ ?_
  · intro transition member
    rw [List.nil_append, List.mem_singleton] at member
    rw [member]
    decide +kernel
  · decide +kernel
  · decide
  · decide
  · decide

end Ece391Os
