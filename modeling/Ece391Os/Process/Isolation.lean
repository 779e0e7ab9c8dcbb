import Ece391Os.Process.Invariant

namespace Ece391Os

open Data

/-! User-mode memory isolation.  Three page-table entries change after boot:
the directory entry of the user page, the entry of the kernel's video page, and
the entry of the user's video page. -/

def bootPages (platform : Platform) : PageTables :=
  PageTables.initPaging platform ⟨fun _ => 0#32, fun _ => 0#32, fun _ => 0#32⟩

def screenPage (physical : Int) : Prop :=
  physical = videoMemAddr ∨
    ∃ terminal : Fin 3, physical = videoMemAddr + (terminal.val + 1) * pageSize

namespace PageTables

structure Agrees (platform : Platform) (pages : PageTables) : Prop where
  directory : ∀ index, index ≠ directorySlot userProg →
    pages.pageDirectory index = (bootPages platform).pageDirectory index
  first : ∀ index, index ≠ tableSlot videoMemAddr →
    pages.firstPageTable index = (bootPages platform).firstPageTable index
  second : ∀ index, index ≠ tableSlot userVideoMem →
    pages.secondPageTable index = (bootPages platform).secondPageTable index
  video : pages.secondPageTable (tableSlot userVideoMem) =
      (bootPages platform).secondPageTable (tableSlot userVideoMem) ∨
    ∃ physical, screenPage physical ∧
      pages.secondPageTable (tableSlot userVideoMem) =
        BitVec.ofInt 32 physical ||| userMode

namespace Agrees

variable {platform : Platform} {pages : PageTables}

theorem boot (platform : Platform) : (bootPages platform).Agrees platform :=
  ⟨fun _ _ => rfl, fun _ _ => rfl, fun _ _ => rfl, .inl rfl⟩

theorem setPageDirEntry (agrees : pages.Agrees platform) (physical : Int) :
    (pages.setPageDirEntry userProg physical).Agrees platform where
  directory := by
    intro index different
    simpa [PageTables.setPageDirEntry, different] using agrees.directory index different
  first := agrees.first
  second := agrees.second
  video := agrees.video

theorem setPageTable1Entry (agrees : pages.Agrees platform) (physical : Int) :
    (pages.setPageTable1Entry videoMemAddr physical).Agrees platform where
  directory := agrees.directory
  first := by
    intro index different
    simpa [PageTables.setPageTable1Entry, different] using agrees.first index different
  second := agrees.second
  video := agrees.video

theorem setPageTable2Entry (agrees : pages.Agrees platform) {physical : Int}
    (screen : screenPage physical) :
    (pages.setPageTable2Entry userVideoMem physical).Agrees platform where
  directory := agrees.directory
  first := agrees.first
  second := by
    intro index different
    simpa [PageTables.setPageTable2Entry, different] using agrees.second index different
  video := .inr ⟨physical, screen, by simp [PageTables.setPageTable2Entry]⟩

end Agrees

end PageTables

namespace Kernel

/-- The page tables agree with those of boot, and the scheduler knows the
buffer page of each terminal. -/
structure Mapped (platform : Platform) (kernel : Kernel) : Prop where
  agrees : kernel.pages.Agrees platform
  buffers : ∀ terminal : Fin 3,
    (kernel.schedArr terminal).videoBuffer = videoMemAddr + (terminal.val + 1) * pageSize

theorem mapped_booted {platform : Platform} {kernel : Kernel}
    (booted : Booted platform kernel) : kernel.Mapped platform := by
  induction booted with
  | boot memory => exact ⟨.boot platform, fun _ => rfl⟩
  | tick esp ebp booted induction =>
      obtain ⟨mask, idle⟩ := pitInterruptHandler_idle esp ebp booted.scheduler.1
      rw [idle]
      exact ⟨induction.agrees, induction.buffers⟩
  | @key kernel scanCode _ induction =>
      obtain ⟨mask, ignored | typed⟩ := kernel.keyboardInterruptHandler_cases scanCode
      · rw [ignored]
        exact ⟨induction.agrees, induction.buffers⟩
      · rw [typed]
        exact ⟨induction.agrees.setPageTable1Entry _, induction.buffers⟩
  | rtcInterrupt _ induction => exact ⟨induction.agrees, induction.buffers⟩

theorem Mapped.screenPage {platform : Platform} {kernel : Kernel}
    (mapped : kernel.Mapped platform) (terminal viewed : Fin 3) :
    screenPage (if terminal = viewed then videoMemAddr
      else (kernel.schedArr terminal).videoBuffer) := by
  split
  · exact .inl rfl
  · exact .inr ⟨terminal, mapped.buffers terminal⟩

theorem Mapped.modifyRunning {platform : Platform} {kernel : Kernel}
    (mapped : kernel.Mapped platform) {node : SchedNode}
    (same : node.videoBuffer = kernel.running.videoBuffer) (terminal : Fin 3) :
    (Function.update kernel.schedArr kernel.curSchedTerm node terminal).videoBuffer =
      videoMemAddr + (terminal.val + 1) * pageSize := by
  have kept : (fun other =>
        (Function.update kernel.schedArr kernel.curSchedTerm node other).videoBuffer) =
      fun other => (kernel.schedArr other).videoBuffer :=
    value_update SchedNode.videoBuffer same
  exact (congrFun kept terminal).trans (mapped.buffers terminal)

theorem Mapped.scheduledPages {platform : Platform} {kernel : Kernel}
    (mapped : kernel.Mapped platform) (terminal : Fin 3) :
    (kernel.scheduledPages terminal).Agrees platform := by
  have user := mapped.agrees.setPageDirEntry
    (userFrame (kernel.schedArr terminal).processNum)
  have screen := mapped.screenPage terminal kernel.console.curTerminal
  simp only [Kernel.scheduledPages]
  by_cases marked : (kernel.schedArr terminal).vidMap = 1
  · rw [if_pos marked]
    exact (user.setPageTable2Entry screen).setPageTable1Entry _
  · rw [if_neg marked]
    exact user.setPageTable1Entry _

theorem PlainEffect.mapped {platform : Platform} {kernel kernel' : Kernel}
    (effect : PlainEffect platform kernel kernel') (mapped : kernel.Mapped platform) :
    kernel'.Mapped platform := by
  cases effect with
  | serviced done =>
      obtain ⟨fdt, console, rtc, memory, rfl⟩ := done
      exact ⟨mapped.agrees, mapped.buffers⟩
  | interrupted => exact ⟨mapped.agrees, mapped.buffers⟩
  | vidmapped memory =>
      exact ⟨mapped.agrees.setPageTable2Entry (.inl rfl), mapped.modifyRunning rfl⟩
  | typed scanCode mask =>
      exact ⟨mapped.agrees.setPageTable1Entry _, mapped.buffers⟩

theorem Effect.mapped {platform : Platform} {kernel kernel' : Kernel}
    (effect : Effect platform kernel kernel') (mapped : kernel.Mapped platform) :
    kernel'.Mapped platform := by
  cases effect with
  | plain effect => exact effect.mapped mapped
  | started command frame memory room =>
      obtain ⟨slots, claimed⟩ := claimSlot_snd frame.pcb.pid kernel
      rw [claimed]
      exact ⟨mapped.agrees.setPageDirEntry _, mapped.modifyRunning rfl⟩
  | terminated console child =>
      exact ⟨mapped.agrees.setPageDirEntry _, mapped.modifyRunning rfl⟩
  | ticked esp ebp mask =>
      exact ⟨mapped.scheduledPages _, mapped.modifyRunning rfl⟩

end Kernel

theorem Reachable.mapped {platform : Platform} {machine : Machine}
    (reachable : Reachable platform machine) : machine.kernel.Mapped platform := by
  refine reachable.effect_invariant (Kernel.Mapped platform) ?_ ?_
  · intro kernel frame entryPoint memory booted
    have mapped := Kernel.mapped_booted booted
    exact ⟨mapped.agrees.setPageDirEntry _, mapped.buffers⟩
  · intro kernel kernel' mapped _ effect
    exact effect.mapped mapped

/-! Walking the tables. -/

theorem toNat_ofInt_word {physical : Int} (lower : 0 ≤ physical)
    (upper : physical < 4294967296) :
    ((BitVec.ofInt 32 physical).toNat : Int) = physical := by
  rw [BitVec.toNat_ofInt]
  omega

theorem userFrame_word {pid : Int} (range : 1 ≤ pid ∧ pid ≤ 6) :
    ((BitVec.ofInt 32 (userFrame pid)).toNat : Int) = userFrame pid ∧
      (BitVec.ofInt 32 (userFrame pid)).toNat % 4194304 = 0 := by
  simp only [userFrame, eightMb, fourMb]
  have value := toNat_ofInt_word
    (by omega : 0 ≤ (8388608 : Int) + (pid - 1) * 4194304) (by omega)
  exact ⟨value, by omega⟩

theorem screenPage_word {physical : Int} (screen : screenPage physical) :
    ((BitVec.ofInt 32 physical).toNat : Int) = physical ∧
      (BitVec.ofInt 32 physical).toNat % 4096 = 0 := by
  have shape : ∃ page, physical = page * 4096 ∧ 0 ≤ page ∧ page < 256 := by
    rcases screen with rfl | ⟨terminal, rfl⟩
    · exact ⟨184, by decide⟩
    · refine ⟨184 + (terminal.val + 1), ?_, ?_, ?_⟩
      · simp only [videoMemAddr, pageSize]
        omega
      · omega
      · omega
  obtain ⟨page, rfl, lower, upper⟩ := shape
  have value := toNat_ofInt_word (by omega : 0 ≤ page * 4096) (by omega)
  exact ⟨value, by omega⟩

namespace PageTables

theorem bootPages_directory (platform : Platform) (index : Nat) :
    (bootPages platform).pageDirectory index =
      if index = 17 then platform.secondTableAddr ||| userMode
      else if index = 1 then 0x400083#32
      else if index = 0 then platform.firstTableAddr ||| rwPresent
      else rwNotPresent := by
  have video : directorySlot userVideoMem = 17 := by decide
  have kernel : directorySlot kernelAddr = 1 := by decide
  have entry : BitVec.ofInt 32 kernelAddr ||| 0x083#32 = 0x400083#32 := by decide
  simp only [bootPages, initPaging, initPageTable, initPageDirectory, video, kernel, entry,
    Function.update_apply]

theorem aligned_page (index : Nat) :
    BitVec.ofNat 32 (index * 4096) &&& 0xFFF#32 = 0#32 := by
  apply X86.and_eq_zero_of_page
  rw [BitVec.toNat_ofNat]
  omega

theorem absentEntry_present (index : Nat) : X86.present (absentEntry index) = false := by
  rw [absentEntry, X86.present_or_flags (aligned_page index)]
  decide

namespace Agrees

variable {platform : Platform} {pages : PageTables} {linear : X86.Word}

theorem directory_of_ne (agrees : pages.Agrees platform)
    (different : X86.directoryIndex linear ≠ 32) :
    pages.pageDirectory (X86.directoryIndex linear) =
      if X86.directoryIndex linear = 17 then platform.secondTableAddr ||| userMode
      else if X86.directoryIndex linear = 1 then 0x400083#32
      else if X86.directoryIndex linear = 0 then platform.firstTableAddr ||| rwPresent
      else rwNotPresent := by
  have slot : directorySlot userProg = 32 := by decide
  rw [agrees.directory _ (by rwa [slot]), bootPages_directory]

/-- Outside the two directory entries meant for it the user reaches nothing. -/
theorem user_directory (agrees : pages.Agrees platform)
    {translation : X86.Translation} (found : pages.translate platform linear = some translation)
    (user : translation.user = true) :
    X86.directoryIndex linear = 32 ∨ X86.directoryIndex linear = 17 := by
  by_contra neither
  obtain ⟨program, video⟩ := not_or.mp neither
  have entry := agrees.directory_of_ne program
  rw [if_neg video] at entry
  split at entry
  · rw [translate, X86.walk_large entry (by decide) (by decide)] at found
    obtain rfl := Option.some.inj found
    have supervisor : X86.userAccess 0x400083#32 = false := by decide
    simp [X86.largeTranslation, supervisor] at user
  · split at entry
    · have isPresent : X86.present (platform.firstTableAddr ||| rwPresent) = true :=
        (X86.present_or_flags platform.firstTable_aligned).trans (by decide)
      have isSmall : X86.largePage (platform.firstTableAddr ||| rwPresent) = false :=
        (X86.largePage_or_flags platform.firstTable_aligned).trans (by decide)
      have supervisor : X86.userAccess (platform.firstTableAddr ||| rwPresent) = false :=
        (X86.userAccess_or_flags platform.firstTable_aligned).trans (by decide)
      rw [translate, X86.walk_small entry isPresent isSmall] at found
      split at found
      · obtain rfl := Option.some.inj found
        simp [X86.smallTranslation, supervisor] at user
      · cases found
    · rw [translate, X86.walk_absent (by rw [entry]; decide)] at found
      cases found

theorem translate_second (agrees : pages.Agrees platform)
    (video : X86.directoryIndex linear = 17) :
    pages.translate platform linear =
      if X86.present (pages.secondPageTable (X86.tableIndex linear)) then
        some (X86.smallTranslation (platform.secondTableAddr ||| userMode)
          (pages.secondPageTable (X86.tableIndex linear)) linear)
      else none := by
  have entry := agrees.directory_of_ne (by omega : X86.directoryIndex linear ≠ 32)
  rw [if_pos video] at entry
  have isPresent : X86.present (platform.secondTableAddr ||| userMode) = true :=
    (X86.present_or_flags platform.secondTable_aligned).trans (by decide)
  have isSmall : X86.largePage (platform.secondTableAddr ||| userMode) = false :=
    (X86.largePage_or_flags platform.secondTable_aligned).trans (by decide)
  have table : pages.tableAt platform
      ((platform.secondTableAddr ||| userMode) &&& 0xFFFFF000#32) =
        pages.secondPageTable := by
    rw [X86.or_flags_and (by decide) platform.secondTable_aligned (by decide), tableAt,
      if_neg platform.tables_distinct.symm, if_pos rfl]
  rw [translate, X86.walk_small entry isPresent isSmall, table]

/-- Through the second table the user reaches the video page alone, and there
one of the screen pages. -/
theorem translate_video (agrees : pages.Agrees platform)
    (video : X86.directoryIndex linear = 17) {translation : X86.Translation}
    (found : pages.translate platform linear = some translation) :
    X86.tableIndex linear = 256 ∧ ∃ physical, screenPage physical ∧
      (translation.physical.toNat : Int) = physical + linear.toNat % 4096 := by
  rw [agrees.translate_second video] at found
  have slot : tableSlot userVideoMem = 256 := by decide
  split at found
  · rename_i mapped
    obtain rfl := Option.some.inj found
    have inPage : X86.tableIndex linear = 256 := by
      by_contra other
      rw [agrees.second _ (by rwa [slot])] at mapped
      exact Bool.noConfusion ((absentEntry_present _).symm.trans mapped)
    rw [inPage, ← slot] at mapped ⊢
    rcases agrees.video with initial | ⟨physical, screen, held⟩
    · rw [initial] at mapped
      exact Bool.noConfusion ((absentEntry_present _).symm.trans mapped)
    · refine ⟨rfl, physical, screen, ?_⟩
      obtain ⟨value, aligned⟩ := screenPage_word screen
      rw [held, X86.smallTranslation_physical aligned (by decide)]
      push_cast
      rw [value]
  · cases found

theorem translate_mapped (agrees : pages.Agrees platform) {physical : Int}
    (screen : screenPage physical)
    (held : pages.secondPageTable (tableSlot userVideoMem) =
      BitVec.ofInt 32 physical ||| userMode)
    (video : X86.directoryIndex linear = 17) (inPage : X86.tableIndex linear = 256) :
    ∃ translation, pages.translate platform linear = some translation ∧
      translation.user = true ∧
      (translation.physical.toNat : Int) = physical + linear.toNat % 4096 := by
  have slot : tableSlot userVideoMem = 256 := by decide
  obtain ⟨value, aligned⟩ := screenPage_word screen
  have cleared := X86.and_eq_zero_of_page aligned
  have isPresent : X86.present (BitVec.ofInt 32 physical ||| userMode) = true :=
    (X86.present_or_flags cleared).trans (by decide)
  have tableUser : X86.userAccess (platform.secondTableAddr ||| userMode) = true :=
    (X86.userAccess_or_flags platform.secondTable_aligned).trans (by decide)
  have pageUser : X86.userAccess (BitVec.ofInt 32 physical ||| userMode) = true :=
    (X86.userAccess_or_flags cleared).trans (by decide)
  rw [agrees.translate_second video, inPage, ← slot, held, if_pos isPresent]
  refine ⟨_, rfl, ?_, ?_⟩
  · simp only [X86.smallTranslation, tableUser, pageUser, Bool.and_self]
  · rw [X86.smallTranslation_physical aligned (by decide)]
    push_cast
    rw [value]

end Agrees

theorem translate_program {pages : PageTables} {platform : Platform} {pid : Int}
    {linear : X86.Word} (range : 1 ≤ pid ∧ pid ≤ 6)
    (entry : pages.pageDirectory (directorySlot userProg) = userEntry pid)
    (program : X86.directoryIndex linear = 32) :
    ∃ translation, pages.translate platform linear = some translation ∧
      translation.user = true ∧
      (translation.physical.toNat : Int) = userFrame pid + linear.toNat % 4194304 := by
  have slot : directorySlot userProg = 32 := by decide
  obtain ⟨value, aligned⟩ := userFrame_word range
  have cleared : BitVec.ofInt 32 (userFrame pid) &&& 0xFFF#32 = 0#32 :=
    X86.and_eq_zero_of_page (by omega)
  have isPresent : X86.present (userEntry pid) = true :=
    (X86.present_or_flags cleared).trans (by decide)
  have isLarge : X86.largePage (userEntry pid) = true :=
    (X86.largePage_or_flags cleared).trans (by decide)
  have isUser : X86.userAccess (userEntry pid) = true :=
    (X86.userAccess_or_flags cleared).trans (by decide)
  rw [slot, ← program] at entry
  refine ⟨_, X86.walk_large entry isPresent isLarge, isUser, ?_⟩
  rw [userEntry, X86.largeTranslation_physical aligned (by decide)]
  push_cast
  rw [value]

end PageTables

/-! The result. -/

namespace Kernel

def inRegion (start size address : Int) : Prop := start ≤ address ∧ address < start + size

/-- What a program in user mode can reach through the page tables, and what of
them never changes. -/
structure Isolated (platform : Platform) (kernel : Kernel) : Prop where
  user : ∀ linear translation,
    kernel.pages.translate platform linear = some translation → translation.user = true →
    inRegion userProg fourMb linear.toNat ∨ inRegion userVideoMem pageSize linear.toNat
  program : ∀ linear : X86.Word, inRegion userProg fourMb linear.toNat →
    ∃ translation, kernel.pages.translate platform linear = some translation ∧
      translation.user = true ∧
      (translation.physical.toNat : Int) =
        eightMb + (kernel.running.processNum - 1) * fourMb + (linear.toNat - userProg)
  own : kernel.live kernel.running.processNum
  apart : ∀ pid, kernel.live pid → pid ≠ kernel.running.processNum → ∀ address,
    inRegion (userFrame kernel.running.processNum) fourMb address →
    ¬ inRegion (userFrame pid) fourMb address
  kernelPage : ∀ address, inRegion (userFrame kernel.running.processNum) fourMb address →
    ¬ inRegion fourMb fourMb address
  video : ∀ linear translation, inRegion userVideoMem pageSize linear.toNat →
    kernel.pages.translate platform linear = some translation →
    ∃ page, screenPage page ∧
      (translation.physical.toNat : Int) = page + (linear.toNat - userVideoMem)
  directory : ∀ index, index ≠ directorySlot userProg →
    kernel.pages.pageDirectory index = (bootPages platform).pageDirectory index
  firstTable : ∀ index, index ≠ tableSlot videoMemAddr →
    kernel.pages.firstPageTable index = (bootPages platform).firstPageTable index
  secondTable : ∀ index, index ≠ tableSlot userVideoMem →
    kernel.pages.secondPageTable index = (bootPages platform).secondPageTable index

end Kernel

theorem Reachable.isolated {platform : Platform} {machine : Machine}
    (reachable : Reachable platform machine) : machine.kernel.Isolated platform := by
  have agrees := reachable.mapped.agrees
  obtain ⟨chains, holds, runs⟩ := reachable.sound
  set pid := machine.kernel.running.processNum with pidDef
  have inside : pid ∈ chains machine.kernel.curSchedTerm :=
    List.mem_of_mem_head? (runs.current machine.kernel.curSchedTerm)
  have range := holds.range inside
  have entry : machine.kernel.pages.pageDirectory (directorySlot userProg) = userEntry pid :=
    runs.progEntry
  have programIndex (linear : X86.Word) (within : Kernel.inRegion userProg fourMb linear.toNat) :
      X86.directoryIndex linear = 32 ∧
        (linear.toNat % 4194304 : Int) = linear.toNat - userProg := by
    rw [X86.directoryIndex_eq]
    simp only [Kernel.inRegion, userProg, fourMb] at within ⊢
    omega
  refine ⟨?_, ?_, ⟨range, holds.slot inside⟩, ?_, ?_, ?_, agrees.directory, agrees.first,
    agrees.second⟩
  · intro linear translation found user
    rcases agrees.user_directory found user with program | video
    · left
      rw [X86.directoryIndex_eq] at program
      simp only [Kernel.inRegion, userProg, fourMb]
      omega
    · right
      have page := (agrees.translate_video video found).1
      rw [X86.directoryIndex_eq] at video
      rw [X86.tableIndex_eq] at page
      simp only [Kernel.inRegion, userVideoMem, pageSize]
      omega
  · intro linear within
    obtain ⟨index, offset⟩ := programIndex linear within
    obtain ⟨translation, found, user, physical⟩ :=
      PageTables.translate_program range entry index
    exact ⟨translation, found, user, by rw [physical, offset]; rfl⟩
  · intro other alive different address mine theirs
    obtain ⟨otherRange, -⟩ := alive
    simp only [Kernel.inRegion, userFrame, eightMb, fourMb, maxProgs] at mine theirs otherRange
    omega
  · intro address mine theirs
    simp only [Kernel.inRegion, userFrame, eightMb, fourMb] at mine theirs
    omega
  · intro linear translation within found
    have index : X86.directoryIndex linear = 17 ∧
        (linear.toNat % 4096 : Int) = linear.toNat - userVideoMem := by
      rw [X86.directoryIndex_eq]
      simp only [Kernel.inRegion, userVideoMem, pageSize] at within ⊢
      omega
    obtain ⟨-, page, screen, physical⟩ := agrees.translate_video index.1 found
    exact ⟨page, screen, by rw [physical, index.2]⟩

theorem isolated_sample :
    (Sample.after [.execute shellName Sample.frame, .vidmap 0x8000000, .key 56, .key 60,
      .tick 0 0, .key 30, .tick 0 0, .tick 0 0, .halt 0]
      (by decide +kernel)).kernel.Isolated Sample.platform :=
  (Sample.reachable _ _).isolated

end Ece391Os
