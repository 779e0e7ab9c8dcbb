import Ece391Os.Process.Isolation
import Ece391Os.Process.Vidmaps
import Ece391Os.Terminal.Separate

namespace Ece391Os

open Data

/-! The page through which programs write to the screen themselves. -/

theorem PageTables.setPageTable2Entry_second (virtual physical : Int) (pages : PageTables) :
    (pages.setPageTable2Entry virtual physical).secondPageTable (tableSlot virtual) =
      BitVec.ofInt 32 physical ||| userMode := by
  simp only [setPageTable2Entry, Function.update_self]

namespace Kernel

def ownPage (kernel : Kernel) : Int :=
  if kernel.curSchedTerm = kernel.console.curTerminal then videoMemAddr
  else kernel.running.videoBuffer

def FollowsTerminal (platform : Platform) (kernel : Kernel) : Prop :=
  ∀ linear : X86.Word, inRegion userVideoMem pageSize linear.toNat →
    ∃ translation, kernel.pages.translate platform linear = some translation ∧
      translation.user = true ∧
      (translation.physical.toNat : Int) = kernel.ownPage + (linear.toNat - userVideoMem) ∧
      ∀ other, other ≠ kernel.curSchedTerm →
        ¬ inRegion (kernel.console.screenPage other) pageSize translation.physical.toNat

/-- The entry of the page, wherever the scheduler keeps it. -/
def VideoEntry (kernel : Kernel) : Prop :=
  kernel.running.vidMap = 1 →
    kernel.pages.secondPageTable (tableSlot userVideoMem) =
      BitVec.ofInt 32 (kernel.console.screenPage kernel.curSchedTerm) ||| userMode

variable {platform : Platform} {kernel : Kernel}

theorem OwnScreen.target (mapped : kernel.OwnScreen) (terminal : Fin 3) :
    (if terminal = kernel.console.curTerminal then videoMemAddr
      else (kernel.schedArr terminal).videoBuffer) = kernel.console.screenPage terminal := by
  rw [Console.screenPage]
  split
  · rfl
  · rw [mapped.buffers, mapped.placed.buffers]
    simp only [videoMemAddr, pageSize]
    omega

theorem OwnScreen.screenPage_apart (mapped : kernel.OwnScreen) {terminal other : Fin 3}
    (different : other ≠ terminal) {address : Int}
    (inside : inRegion (kernel.console.screenPage terminal) pageSize address) :
    ¬ inRegion (kernel.console.screenPage other) pageSize address := by
  obtain ⟨_, apart⟩ := mapped.placed.buffer_apart terminal other
  have first := (mapped.placed.buffer_apart terminal other).1
  have second := (mapped.placed.buffer_apart other terminal).1
  have between := apart (Ne.symm different)
  intro within
  simp only [inRegion, Console.screenPage, pageSize] at inside within
  split at inside
  · rename_i here
    rw [if_neg (here ▸ different)] at within
    omega
  · split at within
    · omega
    · omega

theorem VideoEntry.followsTerminal (entry : kernel.VideoEntry) (mapped : kernel.OwnScreen)
    (pages : kernel.Mapped platform) (marked : kernel.running.vidMap = 1) :
    kernel.FollowsTerminal platform := by
  intro linear within
  have screen := pages.screenPage kernel.curSchedTerm kernel.console.curTerminal
  have own : kernel.ownPage = kernel.console.screenPage kernel.curSchedTerm :=
    mapped.target kernel.curSchedTerm
  rw [mapped.target] at screen
  have place : X86.directoryIndex linear = 17 ∧ X86.tableIndex linear = 256 ∧
      (linear.toNat % 4096 : Int) = linear.toNat - userVideoMem := by
    rw [X86.directoryIndex_eq, X86.tableIndex_eq]
    simp only [inRegion, userVideoMem, pageSize] at within ⊢
    omega
  obtain ⟨translation, found, user, physical⟩ :=
    pages.agrees.translate_mapped screen (entry marked) place.1 place.2.1
  rw [place.2.2] at physical
  refine ⟨translation, found, user, by rw [physical, own], ?_⟩
  intro other different
  apply mapped.screenPage_apart different
  rw [physical]
  simp only [inRegion, userVideoMem, pageSize] at within ⊢
  omega

theorem VideoEntry.congr {kernel' : Kernel} (entry : kernel.VideoEntry)
    (current : kernel'.curSchedTerm = kernel.curSchedTerm)
    (flag : kernel'.running.vidMap = 1 → kernel.running.vidMap = 1)
    (table : kernel'.pages.secondPageTable = kernel.pages.secondPageTable)
    (screen : kernel'.console.screenPage kernel.curSchedTerm =
      kernel.console.screenPage kernel.curSchedTerm) : kernel'.VideoEntry := by
  intro marked
  rw [current, table, screen]
  exact entry (flag marked)

theorem ends_isCall {event : Event} (ends : event.ends = true) : event.isCall = true := by
  cases event with
  | halt | exception => rfl
  | _ => cases ends

theorem VideoEntry.vidmap (address : Nat) (memory : Memory)
    (viewed : kernel.curSchedTerm = kernel.console.curTerminal) :
    (kernel.vidmapped address memory).VideoEntry := by
  intro _
  have screen : kernel.console.screenPage kernel.curSchedTerm = videoMemAddr.toNat :=
    if_pos viewed
  simp only [vidmapped, PageTables.setPageTable2Entry_second, screen]
  rfl

theorem VideoEntry.tick (mapped : kernel.OwnScreen) (esp ebp : Int) (mask : BitVec 8) :
    (kernel.ticked esp ebp mask).VideoEntry := by
  intro marked
  have next : (kernel.ticked esp ebp mask).running =
      kernel.schedArr (kernel.curSchedTerm + 1) := by
    simp [running, ticked, next_ne kernel.curSchedTerm]
  rw [next] at marked
  simp only [ticked, scheduledPages, if_pos marked, mapped.target]
  exact PageTables.setPageTable2Entry_second userVideoMem
    (kernel.console.screenPage (kernel.curSchedTerm + 1))
    (kernel.pages.setPageDirEntry userProg
      (userFrame (kernel.schedArr (kernel.curSchedTerm + 1)).processNum))

/-- The keyboard driver leaves the entry, and the page is still that of the
running terminal unless the view left or reached it. -/
theorem VideoEntry.typed (entry : kernel.VideoEntry) (mapped : kernel.OwnScreen)
    {scanCode : UInt8} (mask : BitVec 8)
    (switches : kernel.console.switchesView scanCode → kernel.running.vidMap = 1 →
      (kernel.curSchedTerm = Console.selected scanCode ↔
        kernel.curSchedTerm = kernel.console.curTerminal)) :
    (kernel.typed (kernel.keyConsole scanCode) mask).VideoEntry := by
  intro marked
  have before : kernel.running.vidMap = 1 := marked
  refine entry.congr rfl id rfl ?_ marked
  rcases keyConsole_cases scanCode mapped with ⟨_, handled⟩ | ⟨switched, swapped, selected⟩
  · exact handled.only.screenPage kernel.curSchedTerm
  · have same := switches switched before
    have page : (kernel.keyConsole scanCode).screenPage kernel.curSchedTerm =
        kernel.console.screenPage kernel.curSchedTerm := by
      simp only [Console.screenPage, swapped.placed.buffers, mapped.placed.buffers,
        selected, same]
    exact page

theorem Leaves.videoEntry {event : Event} {result : Kernel × Reply}
    (leaves : Leaves platform kernel event result) (mapped : kernel.OwnScreen)
    (entry : kernel.VideoEntry)
    (calls : event.isCall = true → ∀ terminal,
      result.1.console.screenPage terminal = kernel.console.screenPage terminal)
    (vidmaps : ∀ screenStart, event = .vidmap screenStart → inUserPage screenStart →
      kernel.curSchedTerm = kernel.console.curTerminal)
    (switches : ∀ scanCode, event = .key scanCode → kernel.console.switchesView scanCode →
      kernel.running.vidMap = 1 → (kernel.curSchedTerm = Console.selected scanCode ↔
        kernel.curSchedTerm = kernel.console.curTerminal)) : result.1.VideoEntry := by
  cases leaves with
  | serviced call done =>
      have screen := calls call kernel.curSchedTerm
      obtain ⟨fdt, console, rtc, memory, rfl⟩ := done
      exact entry.congr rfl id rfl screen
  | vidmapped memory accepted => exact .vidmap _ memory (vidmaps _ rfl accepted)
  | started memory eip found =>
      refine entry.congr rfl ?_ rfl rfl
      simp [running, Kernel.started]
  | ended console status ends child =>
      refine entry.congr rfl ?_ rfl (calls (ends_isCall ends) kernel.curSchedTerm)
      intro marked
      simp only [running, Kernel.terminated, Function.update_self, parentNode] at marked
      split at marked
      · cases marked
      · exact marked
  | restarted => exact entry
  | ticked esp ebp mask => exact .tick mapped esp ebp mask
  | ignored | clocked => exact entry.congr rfl id rfl rfl
  | typed scanCode mask => exact entry.typed mapped mask (switches scanCode rfl)

end Kernel

def Machine.VideoFollows (platform : Platform) (machine : Machine) : Prop :=
  machine.blocked machine.kernel.curSchedTerm = none →
    (machine.kernel.pcb machine.caller).vidmem = 1 → machine.kernel.FollowsTerminal platform

/-- What keeps the page with its terminal: programs map it only while their
terminal is viewed, the view leaves or reaches a terminal only while another
runs or nobody there has the page mapped, and the flag is not lost. -/
structure Machine.KeepsVideo (machine : Machine) (event : Event) : Prop where
  vidmaps : ∀ screenStart, event = .vidmap screenStart → Kernel.inUserPage screenStart →
    machine.kernel.curSchedTerm = machine.kernel.console.curTerminal
  switches : ∀ scanCode, event = .key scanCode →
    machine.kernel.console.switchesView scanCode → machine.kernel.running.vidMap = 1 →
    (machine.kernel.curSchedTerm = Console.selected scanCode ↔
      machine.kernel.curSchedTerm = machine.kernel.console.curTerminal)
  last : machine.LastVidmap event

theorem Launched.videoEntryAfter {platform : Platform} {start machine : Machine} {trace : Trace}
    (began : Launched platform start) (run : Run (Machine.step platform) start trace machine)
    (keeps : ∀ transition ∈ trace, transition.before.KeepsVideo transition.event) :
    machine.kernel.VideoEntry := by
  induction run with
  | nil =>
      intro marked
      obtain ⟨kernel, frame, entryPoint, memory, booted, left⟩ := began.eq
      rw [left] at marked
      have unmarked : (kernel.schedArr kernel.curSchedTerm).vidMap = 1 := marked
      rw [booted.schedArr_eq] at unmarked
      cases unmarked
  | @snoc state next event reply trace before fired induction =>
      have sound := Reachable.sound ⟨start, _, began, before⟩
      have descriptors := began.descriptorsAfter before (Kernel.live_running sound)
      have mapped := began.mappedAfter before
      have allowed := keeps _ List.mem_concat_self
      exact ((Machine.step_kernel fired).leaves sound).videoEntry mapped
        (induction fun transition member => keeps transition (List.mem_append_left _ member))
        (fun call => (Machine.step_wrote mapped sound descriptors.valid
          descriptors.offTerminal fired call).screenPage)
        allowed.vidmaps allowed.switches

/-- In every run whose steps keep to the condition, a program that mapped the
video page writes to its own terminal wherever it runs. -/
theorem Launched.videoFollows {platform : Platform} {start machine : Machine} {trace : Trace}
    (began : Launched platform start) (run : Run (Machine.step platform) start trace machine)
    (keeps : ∀ transition ∈ trace, transition.before.KeepsVideo transition.event) :
    machine.VideoFollows platform ∧
      ∀ transition ∈ trace, transition.before.VideoFollows platform := by
  have kept := began.vidmappedAfter run fun transition member => (keeps transition member).last
  have follows {trace : Trace} {machine : Machine}
      (run : Run (Machine.step platform) start trace machine)
      (keeps : ∀ transition ∈ trace, transition.before.KeepsVideo transition.event)
      (flag : ∃ chains, machine.kernel.Vidmapped chains) : machine.VideoFollows platform := by
    intro _ maps
    obtain ⟨chains, vidmapped⟩ := flag
    exact (began.videoEntryAfter run keeps).followsTerminal (began.mappedAfter run)
      (Reachable.mapped ⟨start, _, began, run⟩)
      (vidmapped.kept machine.kernel.curSchedTerm maps)
  refine ⟨follows run keeps kept.1, ?_⟩
  intro transition member
  have flag := kept.2 transition member
  obtain ⟨left, right, rfl⟩ := List.append_of_mem member
  exact follows run.split.1 (fun other inside => keeps other (List.mem_append_left _ inside)) flag

namespace Sample

def keepsView (transition : Transition Machine Event Reply) : Bool :=
  let kernel := transition.before.kernel
  !transition.event.ends &&
    match transition.event with
    | .vidmap _ => kernel.curSchedTerm = kernel.console.curTerminal
    | .key _ => kernel.running.vidMap ≠ 1
    | _ => true

theorem keepsVideo_of_keepsView {transition : Transition Machine Event Reply}
    (checked : keepsView transition = true) :
    transition.before.KeepsVideo transition.event := by
  obtain ⟨lives, keeps⟩ := Bool.and_eq_true _ _ ▸ checked
  refine ⟨?_, ?_, ?_⟩
  · intro screenStart maps _
    rw [maps] at keeps
    exact of_decide_eq_true keeps
  · intro scanCode types _ marked
    rw [types] at keeps
    exact absurd marked (of_decide_eq_true keeps)
  · intro ends
    rw [ends] at lives
    cases lives

def viewLeaves : List Event :=
  [maps, .tick 0 0, .key altChar, .key f2Char, .tick 0 0, .tick 0 0]

theorem viewLeaves_runs :
    (runChecked (Machine.step platform) keepsView start viewLeaves).any (fun machine =>
      machine.kernel.curSchedTerm = 0 && machine.kernel.console.curTerminal = 1 &&
        (machine.blocked machine.kernel.curSchedTerm).isNone &&
        (machine.kernel.pcb machine.caller).vidmem = 1) = true := by
  decide +kernel

end Sample

theorem videoFollows_sample : ∃ machine, Reachable Sample.platform machine ∧
    machine.kernel.curSchedTerm = 0 ∧ machine.kernel.console.curTerminal = 1 ∧
      (machine.kernel.pcb machine.caller).vidmem = 1 ∧
      machine.kernel.FollowsTerminal Sample.platform := by
  obtain ⟨machine, fired, there⟩ := (Option.any_eq_true _ _).mp Sample.viewLeaves_runs
  simp only [Bool.and_eq_true, decide_eq_true_eq, Option.isNone_iff_eq_none] at there
  obtain ⟨⟨⟨running, viewed⟩, free⟩, maps⟩ := there
  obtain ⟨trace, run, _, checked⟩ := run_of_runChecked fired
  have follows := (Sample.launched.videoFollows run fun transition member =>
    Sample.keepsVideo_of_keepsView (checked transition member)).1
  exact ⟨machine, ⟨_, trace, Sample.launched, run⟩, running, viewed, maps, follows free maps⟩

theorem vidmap_unviewed : Reachable Sample.platform
      (Sample.after [.key altChar, .key f2Char, Sample.maps] (by decide +kernel)) ∧
    ¬ (Sample.after [.key altChar, .key f2Char, Sample.maps]
      (by decide +kernel)).VideoFollows Sample.platform := by
  refine ⟨Sample.reachable _ _, fun follows => ?_⟩
  have own := follows (by decide +kernel) (by decide +kernel) 0x4500000#32
    ⟨by decide, by decide⟩
  obtain ⟨translation, found, _, physical, _⟩ := own
  have screen : (Sample.after [.key altChar, .key f2Char, Sample.maps]
      (by decide +kernel)).kernel.pages.translate Sample.platform 0x4500000#32 =
        some ⟨0xB8000#32, true, true⟩ := by decide +kernel
  rw [screen] at found
  obtain rfl := Option.some.inj found
  revert physical
  decide +kernel

end Ece391Os
