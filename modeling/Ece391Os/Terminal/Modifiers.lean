import Mathlib.Data.Finset.Basic
import Ece391Os.Terminal.Separate

namespace Ece391Os

open Data

/-! The modifier keys: the flags of the terminals, and the keys that are held. -/

inductive Modifier where
  | alt
  | ctrl
  | shift
  deriving DecidableEq, Repr

/-- The modifier whose flag the driver changes on a scan code. -/
def modifierOf (code : UInt8) : Option Modifier :=
  if code = ctrlCode then some .ctrl
  else if code = altChar then some .alt
  else if code = leftShift ∨ code = rightShift then some .shift
  else none

def Shell.flag (shell : Shell) : Modifier → UInt8
  | .alt => shell.altPressed
  | .ctrl => shell.ctrlPressed
  | .shift => shell.shiftPressed

def Shell.setFlag (value : UInt8) (shell : Shell) : Modifier → Shell
  | .alt => { shell with altPressed := value }
  | .ctrl => { shell with ctrlPressed := value }
  | .shift => { shell with shiftPressed := value }

theorem Shell.flag_setFlag (value : UInt8) (shell : Shell) (changed modifier : Modifier) :
    (shell.setFlag value changed).flag modifier =
      if changed = modifier then value else shell.flag modifier := by
  cases changed <;> cases modifier <;> rfl

theorem Shell.flag_congr {left right : Shell} (alt : left.altPressed = right.altPressed)
    (ctrl : left.ctrlPressed = right.ctrlPressed)
    (shift : left.shiftPressed = right.shiftPressed) : left.flag = right.flag := by
  funext modifier
  cases modifier with
  | alt => exact alt
  | ctrl => exact ctrl
  | shift => exact shift

namespace Console

def flags (console : Console) (terminal : Fin 3) : Modifier → UInt8 :=
  (console.terminals terminal).flag

theorem flags_modifyShell {change : Shell → Shell} {console : Console} {terminal : Fin 3}
    (keeps : (change (console.terminals terminal)).flag = console.flags terminal) :
    (console.modifyShell terminal change).flags = console.flags :=
  funext (part_modifyShell_at keeps)

theorem flags_putAll (page : Nat) (bytes : List UInt8) (console : Console) :
    (console.putAll page bytes).flags = console.flags :=
  funext (part_putAll (fun _ _ _ => rfl) page bytes console)

theorem flag_lineStore {shell : Shell} (upper : shell.bufIndex ≤ 132) (character : UInt8) :
    (lineStore character shell).flag = shell.flag := by
  have inside : shell.bufIndex.toNat < 136 := by omega
  have stored : (kbStore shell shell.bufIndex.toNat character).flag = shell.flag := by
    simp only [kbStore, inside, if_true]
    split
    · exact Shell.flag_congr rfl rfl rfl
    · split
      · exact Shell.flag_congr rfl rfl rfl
      · exact Shell.flag_congr rfl rfl rfl
  rw [← stored]
  exact Shell.flag_congr rfl rfl rfl

theorem flags_printScancode (page : Nat) (scanCode : UInt8) {console : Console}
    (pending : console.Pending) :
    (console.printScancode page scanCode).flags = console.flags := by
  rw [printScancode_eq]
  split
  · rfl
  · set shown := console.putAll page [kbdus scanCode]
    have upper : (shown.terminals shown.curTerminal).bufIndex ≤ 132 := by
      rw [bufIndex_putAll]
      exact (pending shown.curTerminal).2.1
    rw [modifyViewed, flags_modifyShell (flag_lineStore upper _), flags_putAll]

/-- The flags after the driver set or cleared one of the viewed terminal's. -/
def flagsWith (value : UInt8) (changed : Option Modifier) (console : Console)
    (terminal : Fin 3) (modifier : Modifier) : UInt8 :=
  if terminal = console.curTerminal ∧ changed = some modifier then value
  else console.flags terminal modifier

theorem flagsWith_none (value : UInt8) (console : Console) :
    console.flagsWith value none = console.flags := by
  funext terminal modifier
  exact if_neg fun changed => by cases changed.2

theorem flags_setFlag (value : UInt8) (changed : Modifier) (console : Console) :
    (console.modifyViewed fun shell => shell.setFlag value changed).flags =
      console.flagsWith value (some changed) := by
  funext terminal modifier
  simp only [flagsWith, flags, modifyViewed, modifyShell, Option.some.injEq]
  by_cases here : terminal = console.curTerminal
  · subst here
    rw [Function.update_self, Shell.flag_setFlag]
    simp only [true_and]
  · rw [Function.update_of_ne here, if_neg fun both => here both.1]

theorem flags_redraw (page : Nat) (console : Console) :
    (console.redraw page).flags = console.flags := by
  simp only [redraw]
  rw [flags_putAll]
  exact funext (part_resetScreen (fun _ _ _ => rfl) (console.clearScreen page))

theorem flags_deletion (page : Nat) (console : Console) :
    ((console.modifyViewed fun shell =>
      { shell with bufIndex := shell.bufIndex - 1 }).backSpace page).flags = console.flags := by
  have shorter : (console.modifyViewed fun shell =>
      { shell with bufIndex := shell.bufIndex - 1 }).flags = console.flags :=
    flags_modifyShell (Shell.flag_congr rfl rfl rfl)
  rw [← shorter]
  exact funext (part_backSpace (fun _ _ _ => rfl) page _)

theorem flags_recentReleaseExec (page : Nat) (code : UInt8) {console : Console}
    (pending : console.Pending) (stays : ¬ console.switchesView code) :
    (console.recentReleaseExec page code).flags =
      console.flagsWith 1 (modifierOf code) := by
  have kept {after : Console} (plain : modifierOf code = none)
      (same : after.flags = console.flags) :
      after.flags = console.flagsWith 1 (modifierOf code) := by
    rw [plain, same, flagsWith_none]
  have pressed := recentReleaseExec_pressed page stays
  generalize console.recentReleaseExec page code = after at pressed ⊢
  cases pressed with
  | ctrl key =>
      rw [key]
      exact flags_setFlag 1 .ctrl console
  | alt key =>
      rw [key]
      exact flags_setFlag 1 .alt console
  | shift key =>
      have changed : modifierOf code = some .shift := by
        rcases key with rfl | rfl
        all_goals decide
      rw [changed]
      exact flags_setFlag 1 .shift console
  | redraws control => exact kept (by rw [control.1]; decide) (flags_redraw page console)
  | nothing back => exact kept (by rw [back]; decide) rfl
  | erases back => exact kept (by rw [back]; decide) (flags_deletion page console)
  | enters enter =>
      refine kept (by rw [enter]; decide) ?_
      rw [← flags_printScancode page code pending]
      exact flags_modifyShell (Shell.flag_congr rfl rfl rfl)
  | capsLock key =>
      exact kept (by rw [key]; decide) (flags_modifyShell (Shell.flag_congr rfl rfl rfl))
  | prints notCtrl notAlt notShift =>
      have plain : modifierOf code = none := by
        rw [modifierOf, if_neg notCtrl, if_neg notAlt, if_neg notShift]
      exact kept plain (flags_printScancode page _ pending)

theorem terminals_recentReleaseExec (page : Nat) (code : UInt8) {console : Console}
    (switches : console.switchesView code) :
    (console.recentReleaseExec page code).terminals = console.terminals := by
  have other : code ≠ ctrlCode := by
    rcases switches.2 with rfl | rfl | rfl
    · decide
    · decide
    · decide
  simp only [switchesView] at switches
  rw [recentReleaseExec, if_neg other, if_pos switches, changeShell]
  split
  · rfl
  · rfl

theorem flags_afterReleaseExec (code : UInt8) (console : Console) :
    (console.afterReleaseExec (code + recentRelease)).flags =
      console.flagsWith 0 (modifierOf code) := by
  have same (other : UInt8) : code + recentRelease = other + recentRelease ↔ code = other :=
    ⟨fun sum => by simpa using sum, fun equal => by rw [equal]⟩
  have alt : altRelease = altChar + recentRelease := by decide
  simp only [afterReleaseExec, alt, same]
  split
  · rename_i shift
    have changed : modifierOf code = some .shift := by
      rcases shift with rfl | rfl
      · rfl
      · rfl
    rw [changed]
    exact flags_setFlag 0 .shift console
  · rename_i notShift
    split
    · rename_i ctrl
      rw [ctrl]
      exact flags_setFlag 0 .ctrl console
    · rename_i notCtrl
      split
      · rename_i isAlt
        rw [isAlt]
        exact flags_setFlag 0 .alt console
      · rename_i notAlt
        have unchanged : modifierOf code = none := by
          rw [modifierOf, if_neg notCtrl, if_neg notAlt, if_neg notShift]
        rw [unchanged, flagsWith_none]

end Console

theorem modifierOf_cases {code : UInt8} {modifier : Modifier}
    (changed : modifierOf code = some modifier) :
    code = ctrlCode ∨ code = altChar ∨ code = leftShift ∨ code = rightShift := by
  by_contra other
  simp only [not_or] at other
  obtain ⟨ctrl, alt, left, right⟩ := other
  rw [modifierOf, if_neg ctrl, if_neg alt, if_neg fun shift => shift.elim left right] at changed
  cases changed

namespace Kernel

variable {kernel : Kernel} {code : UInt8}

theorem modifierOf_ignored (ignored : ignoresCode code ∨ ignoresCode (code + recentRelease)) :
    modifierOf code = none := by
  cases changed : modifierOf code with
  | none => rfl
  | some modifier =>
      rcases modifierOf_cases changed with rfl | rfl | rfl | rfl
      all_goals exact absurd ignored (by decide)

theorem press_flags (mapped : kernel.OwnScreen) (make : code < recentRelease)
    (stays : ¬ kernel.console.switchesView code) :
    (kernel.keyboardInterruptHandler code).console.flags =
        kernel.console.flagsWith 1 (modifierOf code) ∧
      (kernel.keyboardInterruptHandler code).console.curTerminal =
        kernel.console.curTerminal := by
  rw [keyboardInterruptHandler_eq]
  split
  · rename_i ignored
    rw [modifierOf_ignored (.inl ignored), Console.flagsWith_none]
    exact ⟨rfl, rfl⟩
  · constructor
    · have pending : Console.Pending
          { kernel.console with printTerminal := kernel.console.curTerminal } := mapped.pending
      have flags := Console.flags_recentReleaseExec videoMemAddr.toNat code pending stays
      simp only [Kernel.typed, keyConsole, if_pos make]
      exact flags
    · rcases keyConsole_cases code mapped with ⟨-, handled⟩ | ⟨switches, -⟩
      · exact handled.only.curTerminal
      · exact absurd switches stays

theorem release_flags (mapped : kernel.OwnScreen) (make : code < recentRelease) :
    (kernel.keyboardInterruptHandler (code + recentRelease)).console.flags =
        kernel.console.flagsWith 0 (modifierOf code) ∧
      (kernel.keyboardInterruptHandler (code + recentRelease)).console.curTerminal =
        kernel.console.curTerminal := by
  have released : ¬ code + recentRelease < recentRelease := by
    rw [UInt8.lt_iff_toNat_lt] at make ⊢
    rw [UInt8.toNat_add]
    simp only [recentRelease, UInt8.reduceToNat] at make ⊢
    omega
  rw [keyboardInterruptHandler_eq]
  split
  · rename_i ignored
    rw [modifierOf_ignored (.inr ignored), Console.flagsWith_none]
    exact ⟨rfl, rfl⟩
  · constructor
    · have flags := Console.flags_afterReleaseExec code
        { kernel.console with printTerminal := kernel.console.curTerminal }
      simp only [Kernel.typed, keyConsole, if_neg released]
      exact flags
    · rcases keyConsole_cases (code + recentRelease) mapped with ⟨-, handled⟩ | ⟨switches, -⟩
      · exact handled.only.curTerminal
      · refine absurd ?_ released
        rcases switches.2 with function | function | function
        all_goals
          rw [function]
          decide

theorem switch_accepted (switches : kernel.console.switchesView code) :
    ¬ ignoresCode code ∧ code < recentRelease := by
  rcases switches.2 with rfl | rfl | rfl
  all_goals decide

theorem terminals_keyConsole (switches : kernel.console.switchesView code) :
    (kernel.keyConsole code).terminals = kernel.console.terminals := by
  rw [keyConsole, if_pos (switch_accepted switches).2]
  exact Console.terminals_recentReleaseExec videoMemAddr.toNat code switches

theorem switch_flags (mapped : kernel.OwnScreen) (switches : kernel.console.switchesView code) :
    (kernel.keyboardInterruptHandler code).console.flags = kernel.console.flags ∧
      (kernel.keyboardInterruptHandler code).console.curTerminal = Console.selected code := by
  rw [keyboardInterruptHandler_eq, if_neg (switch_accepted switches).1]
  constructor
  · funext terminal
    simp only [Console.flags, Kernel.typed, terminals_keyConsole switches]
  · rcases keyConsole_cases code mapped with ⟨stays, -⟩ | ⟨-, -, selected⟩
    · exact absurd switches stays
    · exact selected

structure KeepsFlags (before after : Console) : Prop where
  flags : after.flags = before.flags
  view : after.curTerminal = before.curTerminal

theorem CallConsole.keepsFlags {output : List UInt8} {console : Console}
    (left : kernel.CallConsole output console) (mapped : kernel.OwnScreen) :
    KeepsFlags kernel.console console := by
  cases left with
  | printed =>
      have page : kernel.pages.videoPage =
          kernel.console.screenPage kernel.console.printTerminal := by
        rw [mapped.printing, mapped.page]
      exact ⟨Console.flags_putAll .., (Console.putAll_tty output page mapped.placed).2.1.curTerminal⟩
  | waiting => exact ⟨Console.flags_modifyShell (Shell.flag_congr rfl rfl rfl), rfl⟩

end Kernel

/-- Bytes of the keyboard that belong to the code that follows. -/
def leadByte (byte : UInt8) : Prop := byte = 0xE0 ∨ byte = 0xE1

instance (byte : UInt8) : Decidable (leadByte byte) := inferInstanceAs (Decidable (_ ∨ _))

/-- Everything but a key that is pressed or released. -/
def Event.offKeyboard : Event → Bool
  | key byte => decide (leadByte byte)
  | _ => true

theorem Kernel.leadByte_console {byte : UInt8} (lead : leadByte byte) (kernel : Kernel) :
    (kernel.keyboardInterruptHandler byte).console = kernel.console := by
  have ignored : ignoresCode byte := by
    rcases lead with rfl | rfl
    all_goals decide
  rw [keyboardInterruptHandler_eq, if_pos ignored]

theorem Machine.step_keepsFlags {platform : Platform} {machine next : Machine} {event : Event}
    {reply : Reply} (mapped : machine.kernel.OwnScreen)
    (sound : machine.kernel.processView.Sound) (valid : machine.callerTable.Valid)
    (off : machine.callerTable.offTerminal) (other : event.offKeyboard = true)
    (fired : machine.step platform event = some (next, reply)) :
    Kernel.KeepsFlags machine.kernel.console next.kernel.console := by
  cases call : event.isCall with
  | true =>
      rcases step_console sound valid off fired call with ⟨-, -, reset⟩ | ⟨-, left⟩
      · rw [reset, Console.terminalOpen, Console.modifyViewed]
        exact ⟨Console.flags_modifyShell (Shell.flag_congr rfl rfl rfl), rfl⟩
      · exact left.keepsFlags mapped
  | false =>
      cases event with
      | tick esp ebp =>
          obtain ⟨_, _, runs⟩ := sound
          obtain ⟨mask, ticked⟩ := Kernel.pitInterruptHandler_eq esp ebp runs.active
          obtain ⟨rfl, rfl⟩ := Prod.mk.inj (Option.some.inj fired)
          simp only
          rw [ticked]
          exact ⟨rfl, rfl⟩
      | key byte =>
          obtain ⟨rfl, rfl⟩ := Prod.mk.inj (Option.some.inj fired)
          simp only
          rw [Kernel.leadByte_console (of_decide_eq_true other)]
          exact ⟨rfl, rfl⟩
      | rtcInterrupt =>
          obtain ⟨rfl, rfl⟩ := Prod.mk.inj (Option.some.inj fired)
          exact ⟨rfl, rfl⟩
      | _ => cases call

/-! The keyboard.  A key sends its make code when it is pressed, again and again
while it is held, and its break code when it is released; some keys send a lead
byte first. -/

inductive Lead where
  | plain
  | e0
  | e1
  deriving DecidableEq, Repr

structure Key where
  lead : Lead
  code : UInt8
  make : code < recentRelease
  deriving DecidableEq

/-- The keys of a modifier: Alt and Ctrl are on both sides of the keyboard, the
right ones with a lead byte; the two Shift keys have codes of their own.  A lead
byte in front of their codes, or `E1`, belongs to keys that are none of these. -/
def Modifier.isKey (key : Key) : Modifier → Prop
  | alt => key.code = altChar ∧ key.lead ≠ .e1
  | ctrl => key.code = ctrlCode ∧ key.lead ≠ .e1
  | shift => (key.code = leftShift ∨ key.code = rightShift) ∧ key.lead = .plain

instance (key : Key) (modifier : Modifier) : Decidable (modifier.isKey key) :=
  match modifier with
  | .alt | .ctrl | .shift => inferInstanceAs (Decidable (_ ∧ _))

def Modifier.held (keys : Finset Key) (modifier : Modifier) : Prop :=
  ∃ key ∈ keys, modifier.isKey key

instance (keys : Finset Key) (modifier : Modifier) : Decidable (modifier.held keys) :=
  inferInstanceAs (Decidable (∃ key ∈ keys, modifier.isKey key))

theorem Modifier.modifierOf_isKey {key : Key} {modifier : Modifier}
    (own : modifier.isKey key) : modifierOf key.code = some modifier := by
  cases modifier with
  | alt =>
      rw [own.1]
      rfl
  | ctrl =>
      rw [own.1]
      rfl
  | shift =>
      rcases own.1 with left | right
      · rw [left]
        rfl
      · rw [right]
        rfl

theorem Modifier.held_insert {key : Key} {keys : Finset Key} {modifier : Modifier}
    (other : modifierOf key.code ≠ some modifier) :
    modifier.held (insert key keys) ↔ modifier.held keys := by
  rw [held, Finset.exists_mem_insert]
  exact or_iff_right fun own => other (modifierOf_isKey own)

theorem Modifier.held_erase {key : Key} {keys : Finset Key} {modifier : Modifier}
    (other : modifierOf key.code ≠ some modifier) :
    modifier.held (keys.erase key) ↔ modifier.held keys := by
  constructor
  · rintro ⟨still, member, own⟩
    exact ⟨still, Finset.mem_of_mem_erase member, own⟩
  · rintro ⟨still, member, own⟩
    refine ⟨still, Finset.mem_erase.mpr ⟨?_, member⟩, own⟩
    rintro rfl
    exact other (modifierOf_isKey own)

theorem changed_match_iff {flag : Modifier → UInt8} {keys keys' : Finset Key}
    {changed : Option Modifier} (value : UInt8)
    (matching : ∀ modifier : Modifier, flag modifier = if modifier.held keys then 1 else 0)
    (others : ∀ modifier : Modifier, changed ≠ some modifier →
      (modifier.held keys' ↔ modifier.held keys)) :
    (∀ modifier : Modifier, (if changed = some modifier then value else flag modifier) =
      if modifier.held keys' then 1 else 0) ↔
    ∀ modifier : Modifier, changed = some modifier →
      value = if modifier.held keys' then 1 else 0 := by
  constructor
  · intro after modifier own
    rw [← after modifier, if_pos own]
  · intro own modifier
    by_cases here : changed = some modifier
    · rw [if_pos here]
      exact own modifier here
    · rw [if_neg here, matching]
      simp only [others modifier here]

theorem Booted.interrupt {platform : Platform} {machine next : Machine} {event : Event}
    {reply : Reply} (booted : Booted platform machine.kernel) (interrupt : event.isCall = false)
    (fired : machine.step platform event = some (next, reply)) :
    Booted platform next.kernel := by
  cases event with
  | tick esp ebp =>
      obtain ⟨rfl, rfl⟩ := Prod.mk.inj (Option.some.inj fired)
      exact booted.tick esp ebp
  | key scanCode =>
      obtain ⟨rfl, rfl⟩ := Prod.mk.inj (Option.some.inj fired)
      exact booted.key scanCode
  | rtcInterrupt =>
      obtain ⟨rfl, rfl⟩ := Prod.mk.inj (Option.some.inj fired)
      exact booted.rtcInterrupt
  | _ => cases interrupt

/-- The computer with somebody at the keyboard. -/
structure Desk where
  machine : Machine
  launched : Bool
  held : Finset Key

inductive DeskEvent where
  | press (key : Key)
  | release (key : Key)
  | launch (frame : StackFrame)
  | other (event : Event)

namespace Desk

def console (desk : Desk) : Console := desk.machine.kernel.console

def type (scanCode : UInt8) (desk : Desk) : Machine :=
  { desk.machine with kernel := desk.machine.kernel.keyboardInterruptHandler scanCode }

/-- One event.  Only keys that are held are released, and programs run after
`launch`. -/
def step (platform : Platform) (desk : Desk) : DeskEvent → Option (Desk × Reply)
  | .press key =>
      some ({ desk with machine := desk.type key.code, held := insert key desk.held }, .handled)
  | .release key =>
      if key ∈ desk.held then
        some ({ desk with
          machine := desk.type (key.code + recentRelease)
          held := desk.held.erase key }, .handled)
      else none
  | .launch frame =>
      if desk.launched then none
      else
        match desk.machine.kernel.launch platform frame with
        | none => none
        | some kernel => some ({ desk with
            machine := ⟨kernel, fun _ => none⟩
            launched := true }, .handled)
  | .other event =>
      if event.offKeyboard = false ∨ (event.isCall = true ∧ desk.launched = false) then none
      else
        match desk.machine.step platform event with
        | none => none
        | some (machine, reply) => some ({ desk with machine := machine }, reply)

def atBoot (platform : Platform) (memory : BootMemory) : Desk where
  machine := ⟨Kernel.boot platform memory, fun _ => none⟩
  launched := false
  held := ∅

/-- The flags of the viewed terminal say which modifiers are held. -/
def FlagsMatch (desk : Desk) : Prop :=
  ∀ modifier : Modifier, desk.console.viewed.flag modifier =
    if modifier.held desk.held then 1 else 0

/-- The view moves to a terminal with the flags of the viewed one; a key with the
code of a modifier is pressed as that modifier, or while it is held, and
released as the last one of it. -/
def Allowed (desk : Desk) : DeskEvent → Prop
  | .press key =>
      (desk.console.switchesView key.code →
        desk.console.flags (Console.selected key.code) = desk.console.viewed.flag) ∧
      ∀ modifier, modifierOf key.code = some modifier →
        modifier.held (insert key desk.held)
  | .release key => ∀ modifier, modifierOf key.code = some modifier →
      ¬ modifier.held (desk.held.erase key)
  | .launch _ | .other _ => True

def Sound (platform : Platform) (desk : Desk) : Prop :=
  if desk.launched then Reachable platform desk.machine
  else Booted platform desk.machine.kernel

variable {platform : Platform} {desk next : Desk} {event : DeskEvent} {reply : Reply}

theorem Sound.type (sound : desk.Sound platform) (scanCode : UInt8) (keys : Finset Key) :
    Sound platform { desk with machine := desk.type scanCode, held := keys } := by
  unfold Sound at sound ⊢
  simp only
  split
  · rename_i launched
    rw [if_pos launched] at sound
    obtain ⟨start, trace, began, run⟩ := sound
    exact ⟨start, _, began, run.snoc (rfl : Machine.step platform desk.machine (.key scanCode) = _)⟩
  · rename_i booting
    rw [if_neg booting] at sound
    exact sound.key scanCode

theorem other_eq_some {event : Event}
    (fired : desk.step platform (.other event) = some (next, reply)) :
    event.offKeyboard = true ∧ (desk.launched = true ∨ event.isCall = false) ∧
      ∃ machine, desk.machine.step platform event = some (machine, reply) ∧
        next = { desk with machine := machine } := by
  simp only [step] at fired
  split at fired
  · cases fired
  · rename_i accepted
    simp only [not_or, not_and, Bool.not_eq_false] at accepted
    split at fired
    · cases fired
    · rename_i machine answer moved
      obtain ⟨rfl, rfl⟩ := Prod.mk.inj (Option.some.inj fired)
      refine ⟨accepted.1, ?_, machine, moved, rfl⟩
      cases call : event.isCall with
      | false => exact .inr rfl
      | true => exact .inl (accepted.2 call)

theorem Sound.step (sound : desk.Sound platform)
    (fired : desk.step platform event = some (next, reply)) : next.Sound platform := by
  cases event with
  | press key =>
      obtain ⟨rfl, rfl⟩ := Prod.mk.inj (Option.some.inj fired)
      exact sound.type key.code _
  | release key =>
      simp only [Desk.step] at fired
      split at fired
      · obtain ⟨rfl, rfl⟩ := Prod.mk.inj (Option.some.inj fired)
        exact sound.type (key.code + recentRelease) _
      · cases fired
  | launch frame =>
      simp only [Desk.step] at fired
      split at fired
      · cases fired
      · rename_i booting
        split at fired
        · cases fired
        · rename_i kernel success
          obtain ⟨rfl, rfl⟩ := Prod.mk.inj (Option.some.inj fired)
          rw [Sound, if_neg booting] at sound
          have began : Launched platform ⟨kernel, fun _ => none⟩ :=
            ⟨_, frame, sound, success, rfl⟩
          exact ⟨_, [], began, .nil _⟩
  | other event =>
      obtain ⟨_, running, machine, moved, rfl⟩ := other_eq_some fired
      unfold Sound at sound ⊢
      simp only
      split
      · rename_i launched
        rw [if_pos launched] at sound
        obtain ⟨start, trace, began, run⟩ := sound
        exact ⟨start, _, began, run.snoc moved⟩
      · rename_i booting
        rw [if_neg booting] at sound
        exact sound.interrupt (running.resolve_left booting) moved

theorem Sound.mapped (sound : desk.Sound platform) : desk.machine.kernel.OwnScreen := by
  unfold Sound at sound
  split at sound
  · obtain ⟨start, trace, began, run⟩ := sound
    exact began.mappedAfter run
  · exact sound.mapped

theorem Sound.keepsFlags {event : Event} {machine : Machine} (sound : desk.Sound platform)
    (other : event.offKeyboard = true) (running : desk.launched = true ∨ event.isCall = false)
    (moved : desk.machine.step platform event = some (machine, reply)) :
    Kernel.KeepsFlags desk.console machine.kernel.console := by
  have mapped := sound.mapped
  unfold Sound at sound
  split at sound
  · obtain ⟨start, trace, began, run⟩ := sound
    have processes := Reachable.sound ⟨start, trace, began, run⟩
    have descriptors := began.descriptorsAfter run (Kernel.live_running processes)
    exact Machine.step_keepsFlags mapped processes descriptors.valid descriptors.offTerminal
      other moved
  · rename_i booting
    have interrupt := running.resolve_left booting
    cases event with
    | tick esp ebp =>
        obtain ⟨mask, idle⟩ := Kernel.pitInterruptHandler_idle esp ebp sound.scheduler.1
        obtain ⟨rfl, rfl⟩ := Prod.mk.inj (Option.some.inj moved)
        simp only
        rw [idle]
        exact ⟨rfl, rfl⟩
    | key byte =>
        obtain ⟨rfl, rfl⟩ := Prod.mk.inj (Option.some.inj moved)
        simp only
        rw [Kernel.leadByte_console (of_decide_eq_true other)]
        exact ⟨rfl, rfl⟩
    | rtcInterrupt =>
        obtain ⟨rfl, rfl⟩ := Prod.mk.inj (Option.some.inj moved)
        exact ⟨rfl, rfl⟩
    | _ => cases interrupt

theorem FlagsMatch.keeps (matching : desk.FlagsMatch)
    (keeps : Kernel.KeepsFlags desk.console next.console) (held : next.held = desk.held) :
    next.FlagsMatch := by
  intro modifier
  have flag : next.console.flags next.console.curTerminal modifier =
      desk.console.flags desk.console.curTerminal modifier := by
    rw [keeps.view, keeps.flags]
  rw [held, ← matching modifier]
  exact flag

theorem flagsWith_viewed (value : UInt8) (changed : Option Modifier) (console : Console)
    (modifier : Modifier) :
    console.flagsWith value changed console.curTerminal modifier =
      if changed = some modifier then value else console.viewed.flag modifier := by
  simp only [Console.flagsWith, true_and]
  rfl

theorem flagsMatch_iff {value : UInt8} {changed : Option Modifier} (matching : desk.FlagsMatch)
    (flags : next.console.flags = desk.console.flagsWith value changed)
    (view : next.console.curTerminal = desk.console.curTerminal)
    (others : ∀ modifier : Modifier, changed ≠ some modifier →
      (modifier.held next.held ↔ modifier.held desk.held)) :
    next.FlagsMatch ↔ ∀ modifier : Modifier, changed = some modifier →
      value = if modifier.held next.held then 1 else 0 := by
  rw [← changed_match_iff value matching others]
  apply forall_congr'
  intro modifier
  have flag : next.console.viewed.flag modifier =
      if changed = some modifier then value else desk.console.viewed.flag modifier := by
    rw [← flagsWith_viewed, ← flags, ← view]
    rfl
  rw [flag]

theorem switch_iff {key : Key} (sound : desk.Sound platform) (matching : desk.FlagsMatch)
    (switches : desk.console.switchesView key.code)
    (typed : next.console = (desk.type key.code).kernel.console)
    (held : next.held = insert key desk.held) :
    next.FlagsMatch ↔ desk.Allowed (.press key) := by
  obtain ⟨flags, view⟩ := Kernel.switch_flags sound.mapped switches
  have unchanged : ∀ modifier, modifierOf key.code ≠ some modifier := by
    intro modifier changed
    rcases switches.2 with function | function | function
    all_goals
      rw [function] at changed
      cases changed
  have selected : next.console.viewed.flag =
      desk.console.flags (Console.selected key.code) := by
    rw [typed]
    exact (congrFun flags _).trans (congrArg desk.console.flags view)
  simp only [FlagsMatch, Allowed, selected, held]
  constructor
  · intro after
    refine ⟨fun _ => funext fun modifier => ?_, fun modifier own => absurd own (unchanged modifier)⟩
    rw [after modifier, matching modifier]
    simp only [Modifier.held_insert (unchanged modifier)]
  · rintro ⟨same, _⟩ modifier
    rw [same switches, matching modifier]
    simp only [Modifier.held_insert (unchanged modifier)]

theorem press_iff {key : Key} (sound : desk.Sound platform) (matching : desk.FlagsMatch)
    (typed : next.console = (desk.type key.code).kernel.console)
    (held : next.held = insert key desk.held) :
    next.FlagsMatch ↔ desk.Allowed (.press key) := by
  by_cases switches : desk.console.switchesView key.code
  · exact switch_iff sound matching switches typed held
  · obtain ⟨flags, view⟩ := Kernel.press_flags sound.mapped key.make switches
    have others : ∀ modifier : Modifier, modifierOf key.code ≠ some modifier →
        (modifier.held next.held ↔ modifier.held desk.held) := by
      rw [held]
      exact fun _ => Modifier.held_insert
    rw [flagsMatch_iff matching ((congrArg Console.flags typed).trans flags)
      ((congrArg Console.curTerminal typed).trans view) others, held]
    constructor
    · intro pressed
      refine ⟨fun switched => absurd switched switches, ?_⟩
      intro modifier own
      by_contra up
      have flag := pressed modifier own
      rw [if_neg up] at flag
      cases flag
    · rintro ⟨_, pressed⟩ modifier own
      rw [if_pos (pressed modifier own)]

theorem release_iff {key : Key} (sound : desk.Sound platform) (matching : desk.FlagsMatch)
    (typed : next.console = (desk.type (key.code + recentRelease)).kernel.console)
    (held : next.held = desk.held.erase key) :
    next.FlagsMatch ↔ desk.Allowed (.release key) := by
  obtain ⟨flags, view⟩ := Kernel.release_flags sound.mapped key.make
  have others : ∀ modifier : Modifier, modifierOf key.code ≠ some modifier →
      (modifier.held next.held ↔ modifier.held desk.held) := by
    rw [held]
    exact fun _ => Modifier.held_erase
  rw [flagsMatch_iff matching ((congrArg Console.flags typed).trans flags)
    ((congrArg Console.curTerminal typed).trans view) others, held]
  constructor
  · intro released modifier own still
    have flag := released modifier own
    rw [if_pos still] at flag
    cases flag
  · intro released modifier own
    rw [if_neg (released modifier own)]

/-- One event keeps the flags with the keyboard exactly when it is allowed. -/
theorem step_match_iff (sound : desk.Sound platform) (matching : desk.FlagsMatch)
    (fired : desk.step platform event = some (next, reply)) :
    next.FlagsMatch ↔ desk.Allowed event := by
  cases event with
  | press key =>
      obtain ⟨rfl, rfl⟩ := Prod.mk.inj (Option.some.inj fired)
      exact press_iff sound matching rfl rfl
  | release key =>
      simp only [step] at fired
      split at fired
      · obtain ⟨rfl, rfl⟩ := Prod.mk.inj (Option.some.inj fired)
        exact release_iff sound matching rfl rfl
      · cases fired
  | launch frame =>
      simp only [step] at fired
      split at fired
      · cases fired
      · split at fired
        · cases fired
        · rename_i kernel success
          obtain ⟨rfl, rfl⟩ := Prod.mk.inj (Option.some.inj fired)
          obtain ⟨entryPoint, memory, rfl⟩ := Kernel.launch_eq success
          exact iff_of_true (matching.keeps ⟨rfl, rfl⟩ rfl) trivial
  | other event =>
      obtain ⟨offKeyboard, running, machine, moved, rfl⟩ := other_eq_some fired
      exact iff_of_true (matching.keeps (sound.keepsFlags offKeyboard running moved) rfl) trivial

theorem atBoot_flags (platform : Platform) (memory : BootMemory) (terminal : Fin 3)
    (modifier : Modifier) : (atBoot platform memory).console.flags terminal modifier = 0 := by
  have flags : (atBoot platform memory).console.flags terminal modifier =
      (Kernel.zeroed memory).console.initShell.flags terminal modifier :=
    congrFun (Console.part_resetScreen (fun _ _ _ => rfl) _ terminal) modifier
  rw [flags]
  cases modifier with
  | alt => rfl
  | ctrl => rfl
  | shift => rfl

theorem atBoot_flagsMatch (platform : Platform) (memory : BootMemory) :
    (atBoot platform memory).FlagsMatch := by
  intro modifier
  have up : ¬ modifier.held (atBoot platform memory).held := by
    rintro ⟨key, member, _⟩
    exact absurd member (Finset.notMem_empty key)
  rw [if_neg up]
  exact atBoot_flags platform memory 0 modifier

theorem soundAfter {memory : BootMemory} {trace : List (Transition Desk DeskEvent Reply)}
    (run : Run (Desk.step platform) (atBoot platform memory) trace desk) :
    desk.Sound platform :=
  run.invariant (Desk.Sound platform) (fun sound fired => sound.step fired) (.boot memory)

/-- From boot on, the flags of the viewed terminal match the keyboard after every
event exactly when every event was allowed. -/
theorem flagsMatch_run_iff {memory : BootMemory}
    {trace : List (Transition Desk DeskEvent Reply)}
    (run : Run (Desk.step platform) (atBoot platform memory) trace desk) :
    (∀ transition ∈ trace, transition.after.FlagsMatch) ↔
      ∀ transition ∈ trace, transition.before.Allowed transition.event := by
  apply run.kept_iff FlagsMatch Allowed (atBoot_flagsMatch platform memory)
  intro transition member matching
  obtain ⟨⟨_, before⟩, fired⟩ := run.reached member
  exact step_match_iff (soundAfter before) matching fired

structure AtFirst (desk : Desk) : Prop where
  view : desk.console.curTerminal = 0
  clear : ∀ terminal ≠ 0, ∀ modifier, desk.console.flags terminal modifier = 0

theorem AtFirst.keeps (first : desk.AtFirst)
    (keeps : Kernel.KeepsFlags desk.console next.console) : next.AtFirst := by
  refine ⟨keeps.view.trans first.view, ?_⟩
  rw [keeps.flags]
  exact first.clear

theorem AtFirst.changes {value : UInt8} {changed : Option Modifier} (first : desk.AtFirst)
    (flags : next.console.flags = desk.console.flagsWith value changed)
    (view : next.console.curTerminal = desk.console.curTerminal) : next.AtFirst := by
  refine ⟨view.trans first.view, ?_⟩
  intro terminal other modifier
  rw [flags, Console.flagsWith, if_neg fun both => other (both.1.trans first.view)]
  exact first.clear terminal other modifier

/-- Only the viewed terminal has the flag of Alt, so that an allowed switch goes nowhere. -/
theorem AtFirst.selected {key : Key} (first : desk.AtFirst) (allowed : desk.Allowed (.press key))
    (switches : desk.console.switchesView key.code) : Console.selected key.code = 0 := by
  by_contra other
  have down : desk.console.viewed.flag .alt = 1 := switches.1
  rw [← allowed.1 switches, first.clear _ other] at down
  cases down

theorem AtFirst.step (sound : desk.Sound platform) (first : desk.AtFirst)
    (allowed : desk.Allowed event) (fired : desk.step platform event = some (next, reply)) :
    next.AtFirst := by
  cases event with
  | press key =>
      obtain ⟨rfl, rfl⟩ := Prod.mk.inj (Option.some.inj fired)
      by_cases switches : desk.console.switchesView key.code
      · obtain ⟨flags, view⟩ := Kernel.switch_flags sound.mapped switches
        refine ⟨view.trans (first.selected allowed switches), ?_⟩
        intro terminal other modifier
        have same := congrFun (congrFun flags terminal) modifier
        exact same.trans (first.clear terminal other modifier)
      · obtain ⟨flags, view⟩ := Kernel.press_flags sound.mapped key.make switches
        exact first.changes flags view
  | release key =>
      simp only [Desk.step] at fired
      split at fired
      · obtain ⟨rfl, rfl⟩ := Prod.mk.inj (Option.some.inj fired)
        obtain ⟨flags, view⟩ := Kernel.release_flags sound.mapped key.make
        exact first.changes flags view
      · cases fired
  | launch frame =>
      simp only [Desk.step] at fired
      split at fired
      · cases fired
      · split at fired
        · cases fired
        · rename_i kernel success
          obtain ⟨rfl, rfl⟩ := Prod.mk.inj (Option.some.inj fired)
          obtain ⟨entryPoint, memory, rfl⟩ := Kernel.launch_eq success
          exact first.keeps ⟨rfl, rfl⟩
  | other event =>
      obtain ⟨offKeyboard, running, machine, moved, rfl⟩ := other_eq_some fired
      exact first.keeps (sound.keepsFlags offKeyboard running moved)

theorem atBoot_atFirst (platform : Platform) (memory : BootMemory) :
    (atBoot platform memory).AtFirst :=
  ⟨rfl, fun terminal _ => atBoot_flags platform memory terminal⟩

/-- While every event is allowed the view stays with the first terminal: with Alt held,
every other has other flags. -/
theorem staysAtFirst {memory : BootMemory} {trace : List (Transition Desk DeskEvent Reply)}
    (run : Run (Desk.step platform) (atBoot platform memory) trace desk)
    (allowed : ∀ transition ∈ trace, transition.before.Allowed transition.event) :
    desk.console.curTerminal = 0 := by
  have kept : desk.Sound platform ∧ desk.AtFirst := by
    refine (run.guarded (fun desk => desk.Sound platform ∧ desk.AtFirst) Allowed ?_
      ⟨.boot memory, atBoot_atFirst platform memory⟩ allowed).1
    rintro before after event reply ⟨sound, first⟩ fits fired
    exact ⟨sound.step fired, first.step sound fits fired⟩
  exact kept.2.view

end Desk

namespace Sample

def desk : Desk := .atBoot platform memory

def altKey : Key := ⟨.plain, altChar, by decide⟩

def f2Key : Key := ⟨.plain, f2Char, by decide⟩

def altDown : Desk :=
  { desk with machine := desk.type altChar, held := insert altKey desk.held }

def viewSwitched : Desk :=
  { altDown with machine := altDown.type f2Char, held := insert f2Key altDown.held }

theorem presses_alt : desk.step platform (.press altKey) = some (altDown, .handled) := rfl

theorem presses_f2 : altDown.step platform (.press f2Key) = some (viewSwitched, .handled) := rfl

def shiftKey : Key := ⟨.plain, leftShift, by decide⟩

def aKey : Key := ⟨.plain, 30, by decide⟩

def f1Key : Key := ⟨.plain, f1Char, by decide⟩

def typing : List DeskEvent :=
  [.press shiftKey, .press aKey, .release aKey, .release shiftKey, .press altKey, .press f1Key,
    .release f1Key, .release altKey, .launch frame, .other (.tick 0 0), .press altKey,
    .release altKey]

/-- Whether an event is allowed, with no view moves. -/
def allows (transition : Transition Desk DeskEvent Reply) : Bool :=
  let desk := transition.before
  match transition.event with
  | .press key =>
      (desk.console.viewed.altPressed ≠ 1 ||
        Console.selected key.code = desk.console.curTerminal) &&
      (modifierOf key.code).all fun modifier => modifier.held (insert key desk.held)
  | .release key =>
      (modifierOf key.code).all fun modifier => !modifier.held (desk.held.erase key)
  | _ => true

theorem allowed_of_allows {transition : Transition Desk DeskEvent Reply}
    (checked : allows transition = true) : transition.before.Allowed transition.event := by
  obtain ⟨before, event, reply, after⟩ := transition
  cases event with
  | press key =>
      obtain ⟨stays, held⟩ := Bool.and_eq_true _ _ ▸ checked
      constructor
      · intro switches
        rw [Bool.or_eq_true, decide_eq_true_eq, decide_eq_true_eq] at stays
        have same := stays.resolve_left fun up => up switches.1
        exact congrArg before.console.flags same
      · intro modifier own
        simp only [own, Option.all_some] at held
        exact of_decide_eq_true held
  | release key =>
      intro modifier own
      have free : (modifierOf key.code).all
          (fun modifier => !decide (modifier.held (before.held.erase key))) = true := checked
      simp only [own, Option.all_some, Bool.not_eq_true', decide_eq_false_iff_not] at free
      exact free
  | launch frame => trivial
  | other event => trivial

theorem typing_fires :
    (runChecked (Desk.step platform) allows (.atBoot platform memory) typing).isSome = true := by
  decide +kernel

end Sample

theorem flagsMatch_sample :
    ∃ trace desk, Run (Desk.step Sample.platform) (.atBoot Sample.platform Sample.memory) trace
        desk ∧ trace.map Transition.event = Sample.typing ∧
      ∀ transition ∈ trace, transition.after.FlagsMatch := by
  obtain ⟨trace, run, events, checked⟩ :=
    run_of_runChecked (Option.some_get Sample.typing_fires).symm
  exact ⟨trace, _, run, events, (Desk.flagsMatch_run_iff run).mpr fun transition member =>
    Sample.allowed_of_allows (checked transition member)⟩

/-- Alt is held and F2 moves the view to the second terminal, whose flag does not
know it. -/
theorem altLost :
    ¬ ∀ (platform : Platform) (memory : BootMemory)
      (trace : List (Transition Desk DeskEvent Reply)) (desk : Desk),
      Run (Desk.step platform) (.atBoot platform memory) trace desk →
      ∀ transition ∈ trace, transition.after.FlagsMatch := by
  intro always
  have run : Run (Desk.step Sample.platform) (.atBoot Sample.platform Sample.memory) _
      Sample.viewSwitched :=
    .snoc (.snoc (.nil Sample.desk) Sample.presses_alt) Sample.presses_f2
  have matching := always _ _ _ _ run _ List.mem_concat_self .alt
  revert matching
  decide +kernel

end Ece391Os
