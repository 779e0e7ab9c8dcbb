import Ece391Os.Process.Isolation
import Ece391Os.Process.Programs
import Ece391Os.Process.Steps

namespace Ece391Os

open Data

/-! What `execute` leaves: nothing when it fails, and a child when it succeeds. -/

/-- A second read of a file that was read once does not fail, whatever its length
and contents. -/
theorem readData_again {image : Memory} {inode : Nat} {first : Memory} (second : Memory)
    (opened : (readData image inode 0 first nameLength).1 ≠ -1) :
    (readData image inode 0 second maxProgSize).1 ≠ -1 := by
  by_cases valid : inode < numInodes image
  · exact readData_ret_ne second valid (by decide) (by decide)
  · rw [readData_invalid 0 _ first (by omega)] at opened
    exact absurd rfl opened

/-- A failed `execute` leaves the kernel as it was; that its last check cannot
fail is a fact about `read_data`. -/
theorem Reachable.failedExecute {platform : Platform} {machine : Machine}
    (reachable : Reachable platform machine) (command : CString) (frame : StackFrame) :
    ((machine.kernel.execute platform command frame).2 = .ret (-1) →
      (machine.kernel.execute platform command frame).1 = machine.kernel) ∧
    ∀ inode first second, (readData platform.image inode 0 first nameLength).1 ≠ -1 →
      (readData platform.image inode 0 second maxProgSize).1 ≠ -1 := by
  refine ⟨?_, fun inode first second => readData_again second⟩
  intro failed
  obtain unchanged | ⟨-, slot, memory, eip, -, started⟩ :=
    Kernel.execute_outcome platform command frame reachable.sound
  · rw [unchanged]
  · rw [started] at failed
    cases failed

namespace Sample

def lsCommand : CString := ⟨[108, 115, 32, 45, 97], by simp⟩

def secondBegun : Machine :=
  after [.execute shellName frame, .tick 0 0, .openFile (some shellName)] (by decide +kernel)

end Sample

theorem failedExecute_sample :
    Sample.secondBegun.kernel.execute Sample.platform Sample.lsCommand Sample.frame =
      (Sample.secondBegun.kernel, .ret (-1)) ∧
    (readData Sample.platform.image 0 0 (fun _ => 0) maxProgSize).1 ≠ -1 := by
  have ⟨unchanged, again⟩ := Reachable.failedExecute
    (Sample.reachable _ _ : Reachable Sample.platform Sample.secondBegun)
    Sample.lsCommand Sample.frame
  have failed : (Sample.secondBegun.kernel.execute Sample.platform Sample.lsCommand
      Sample.frame).2 = .ret (-1) := rfl
  exact ⟨Prod.ext (unchanged failed) failed, again 0 (fun _ => 0) (fun _ => 0) (by decide)⟩

/-! Loading a program. -/

namespace Kernel

theorem userEntry_page {pid : Int} (range : 1 ≤ pid ∧ pid ≤ 6) :
    (userEntry pid &&& 0xFFC00000#32).toNat = (userFrame pid).toNat := by
  obtain rfl | rfl | rfl | rfl | rfl | rfl :
      pid = 1 ∨ pid = 2 ∨ pid = 3 ∨ pid = 4 ∨ pid = 5 ∨ pid = 6 := by
    omega
  · decide
  · decide
  · decide
  · decide
  · decide
  · decide

theorem userPage_child {pid : Int} (range : 1 ≤ pid ∧ pid ≤ 6) (kernel : Kernel) :
    (kernel.setPageDirEntry userProg (userFrame pid)).userPage = (userFrame pid).toNat := by
  simp only [userPage, setPageDirEntry, PageTables.setPageDirEntry, Function.update_self]
  exact userEntry_page range

theorem userPage_running {kernel : Kernel} (sound : kernel.processView.Sound) :
    kernel.userPage = (userFrame kernel.running.processNum).toNat := by
  obtain ⟨chains, -, runs⟩ := id sound
  have entry : kernel.pages.pageDirectory (directorySlot userProg) =
      userEntry kernel.running.processNum := runs.progEntry
  rw [userPage, entry]
  exact userEntry_page (live_running sound).1

def progBase (pid : Int) : Nat := (userFrame pid).toNat + progOffset.toNat

theorem loadedMemory_apply {platform : Platform} {inode : Nat} {pid : Int} (kernel : Kernel)
    (valid : inode < numInodes platform.image) (range : 1 ≤ pid ∧ pid ≤ 6) (address : Nat) :
    kernel.loadedMemory platform inode pid address =
      if progBase pid ≤ address ∧
          address < progBase pid + min maxProgSize (fileSize platform.image inode) then
        fileByte platform.image inode (address - progBase pid)
      else kernel.userMem address := by
  have frame := userPage_child range kernel
  have base : (userFrame pid).toNat + progOffset.toNat = progBase pid := rfl
  simp only [loadedMemory, loadProgram, frame, base]
  rw [readData_eq _ valid (by decide)]
  simp only [readCount, Nat.sub_zero]
  by_cases above : progBase pid ≤ address
  · rw [if_pos above]
    by_cases inside : address < progBase pid + min maxProgSize (fileSize platform.image inode)
    · rw [if_pos ⟨above, inside⟩, Memory.blit_inside (Nat.zero_le _) (by omega)]
      simp
    · rw [if_neg (by omega), Memory.blit_outside (by omega)]
      simp only [setPageDirEntry]
      rw [Nat.add_sub_cancel' above]
  · rw [if_neg above, if_neg (by omega)]
    rfl

theorem loadedMemory_changed {platform : Platform} {inode : Nat} {pid : Int} {kernel : Kernel}
    {address : Nat} (valid : inode < numInodes platform.image) (range : 1 ≤ pid ∧ pid ≤ 6)
    (changed : kernel.loadedMemory platform inode pid address ≠ kernel.userMem address) :
    inRegion (userFrame pid) fourMb address := by
  rw [loadedMemory_apply kernel valid range] at changed
  split at changed
  · rename_i inside
    have small : maxProgSize = 0x3B8000 := rfl
    simp only [progBase, inRegion, userFrame, progOffset, eightMb, fourMb] at inside ⊢
    omega
  · exact absurd rfl changed

end Kernel

def contentWord (content : List UInt8) (offset : Nat) : Nat :=
  Memory.word (fun k => content.getD k 0) offset

/-- What a successful `execute` of the file `content` owes its caller: `slot` is
the lowest free slot and `result` the kernel and the answer it leaves. -/
structure BuildsChild (content : List UInt8) (kernel : Kernel) (slot : Nat)
    (result : Kernel × Reply) : Prop where
  lowest : slot < maxProgs ∧ kernel.processArray slot = -1 ∧
    ∀ lower < slot, kernel.processArray lower ≠ -1
  entry : result.2 = .enter (contentWord content 24)
  loaded : ∀ k < min content.length (fourMb - progOffset).toNat,
    content[k]? = some (result.1.userMem ((userFrame (slot + 1) + progOffset).toNat + k))
  unloaded : ∀ address, result.1.userMem address ≠ kernel.userMem address →
    Kernel.inRegion (userFrame (slot + 1)) fourMb address
  pid : (result.1.pcb (slot + 1)).pid = slot + 1
  address : (pcbAddr (slot + 1) : Int) = eightMb - (slot + 1) * eightKb
  parentPid : (result.1.pcb (slot + 1)).parentPid = kernel.running.processNum
  parentEsp : (result.1.pcb (slot + 1)).parentEsp =
    eightMb - (kernel.running.processNum - 1) * eightKb
  descriptors : ∃ stale, (result.1.pcb (slot + 1)).fdt = freshFdt stale
  processNum : result.1.processNum = kernel.processNum + 1
  slots : result.1.processArray = Function.update kernel.processArray slot 1
  current : result.1.running.processNum = slot + 1
  terminals : ∀ terminal, terminal ≠ kernel.curSchedTerm →
    result.1.schedArr terminal = kernel.schedArr terminal
  caller : kernel.live kernel.running.processNum
  others : ∀ pid, kernel.live pid → result.1.pcb pid = kernel.pcb pid ∧
    ∀ address : Nat, Kernel.inRegion (userFrame pid) fourMb address →
      result.1.userMem address = kernel.userMem address

section Child

variable {platform : Platform} {kernel : Kernel} {command : CString} {index : Nat}

theorem Kernel.ProcessTable.caller (table : kernel.ProcessTable platform) :
    kernel.live kernel.running.processNum := by
  obtain ⟨chains, tree⟩ := table.chains
  exact (tree.used _).mp ⟨_, List.mem_of_head? (tree.current kernel.curSchedTerm)⟩

theorem Kernel.ProcessTable.nonempty (table : kernel.ProcessTable platform) :
    kernel.processNum ≠ 0 := by
  have used : 0 < usedSlots kernel.processArray :=
    List.countP_pos_iff.mpr ⟨0, by decide, by simpa using table.baseSlots 0⟩
  rw [table.counted]
  omega

theorem findSlot_lowest {processArray : Int → Int} {slot : Nat}
    (found : findSlot processArray = some slot) :
    slot < maxProgs ∧ processArray slot = -1 ∧ ∀ lower < slot, processArray lower ≠ -1 := by
  obtain ⟨free, inside, skipped⟩ := List.find?_range_eq_some.mp found
  refine ⟨List.mem_range.mp inside, by simpa using free, ?_⟩
  intro lower below
  simpa using skipped lower below

theorem userFrame_apart {left right address : Int} (different : left ≠ right)
    (inLeft : Kernel.inRegion (userFrame left) fourMb address) :
    ¬ Kernel.inRegion (userFrame right) fourMb address := by
  simp only [Kernel.inRegion, userFrame, eightMb, fourMb] at *
  omega

theorem pcbAddr_eq {pid : Int} (range : 1 ≤ pid ∧ pid ≤ 6) :
    (pcbAddr pid : Int) = eightMb - pid * eightKb := by
  apply u32_of_bounds
  · simp only [eightMb, eightKb]
    omega
  · simp only [eightMb, eightKb]
    omega

theorem openProgram_eq_some {image elfBuf elf : Memory} {name : CString} {inode : Nat}
    (opened : openProgram image name elfBuf = some (inode, elf)) :
    ∃ index, findDentry image name = some index ∧ inode = dentryInode image index ∧
      elf = (readData image inode 0 elfBuf nameLength).2 := by
  simp only [openProgram, readDentryByName] at opened
  cases found : findDentry image name with
  | none =>
      rw [found] at opened
      cases opened
  | some index =>
      simp only [found, Option.map_some] at opened
      split at opened
      · cases opened
      · split at opened
        · cases opened
        · obtain ⟨rfl, rfl⟩ := Prod.mk.inj (Option.some.inj opened)
          exact ⟨index, rfl, rfl, rfl⟩

theorem entry_word {image : Memory} {inode : Nat} (elfBuf : Memory)
    (valid : inode < numInodes image) (long : 28 ≤ (fileContent image inode).length) :
    Memory.word (readData image inode 0 elfBuf nameLength).2 24 =
      contentWord (fileContent image inode) 24 := by
  rw [length_fileContent] at long
  have byte {k : Nat} (below : k < 28) : (readData image inode 0 elfBuf nameLength).2 k =
      (fileContent image inode).getD k 0 := by
    have inside : k < fileSize image inode := by omega
    rw [readData_header elfBuf valid (Nat.lt_trans below (by decide)), if_pos inside,
      List.getD_eq_getElem?_getD, fileContent_getElem? inside]
    rfl
  simp only [contentWord, Memory.word]
  rw [byte (by decide), byte (by decide), byte (by decide), byte (by decide)]

theorem started_buildsChild {slot : Nat} (frame : StackFrame) (eip : Nat)
    (table : kernel.ProcessTable platform)
    (found : findSlot kernel.processArray = some slot)
    (inode : dentryInode platform.image index < numInodes platform.image)
    (entry : eip = contentWord (dentryContent platform.image index) 24) :
    BuildsChild (dentryContent platform.image index) kernel slot
      ({ kernel with processArray := Function.update kernel.processArray slot 1 }.started
        (Kernel.childPcb frame command (slot + 1) kernel.running.processNum)
        ({ kernel with processArray := Function.update kernel.processArray slot 1
          }.loadedMemory platform (dentryInode platform.image index) (slot + 1)), .enter eip) := by
  have lowest := findSlot_lowest found
  have range : 1 ≤ (slot : Int) + 1 ∧ (slot : Int) + 1 ≤ 6 := by
    have below : slot < 6 := lowest.1
    omega
  set claimed := { kernel with processArray := Function.update kernel.processArray slot 1 }
  have memory := Kernel.loadedMemory_apply claimed inode range
  have size : (dentryContent platform.image index).length = _ := length_fileContent _ _
  have room : (fourMb - progOffset).toNat = maxProgSize := by decide
  have base : Kernel.progBase (slot + 1) = (userFrame (slot + 1) + progOffset).toNat := by
    simp only [Kernel.progBase, userFrame, progOffset, eightMb, fourMb]
    omega
  have unloaded (address : Nat) (changed : claimed.loadedMemory platform
      (dentryInode platform.image index) (slot + 1) address ≠ kernel.userMem address) :=
    Kernel.loadedMemory_changed inode range changed
  have different {pid : Int} (alive : kernel.live pid) : pid ≠ slot + 1 := by
    rintro rfl
    have used := alive.2
    rw [Int.add_sub_cancel] at used
    exact used lowest.2.1
  have child : (claimed.started (Kernel.childPcb frame command (slot + 1) kernel.running.processNum)
      (claimed.loadedMemory platform (dentryInode platform.image index) (slot + 1))).pcb
        (slot + 1) = Kernel.childPcb frame command (slot + 1) kernel.running.processNum := by
    simp [Kernel.pcb, Kernel.started, Kernel.childPcb]
  refine ⟨lowest, by rw [entry], ?_, unloaded, ?_, ?_, ?_, ?_, ?_, rfl, rfl, ?_, ?_,
    table.caller, ?_⟩
  · intro k below
    rw [room, size] at below
    have inside : k < fileSize platform.image (dentryInode platform.image index) := by omega
    rw [dentryContent, fileContent_getElem? inside]
    simp only [Kernel.started]
    rw [memory, base, if_pos (by omega), Nat.add_sub_cancel_left]
  · rw [child]
    rfl
  · exact pcbAddr_eq range
  · rw [child]
    rfl
  · rw [child]
    rfl
  · exact ⟨frame.pcb.fdt, by rw [child]; rfl⟩
  · simp [Kernel.running, Kernel.started, Kernel.childPcb, claimed]
  · intro terminal other
    simp only [Kernel.started]
    rw [Function.update_of_ne other]
  · intro pid alive
    constructor
    · exact Kernel.pcb_started _ _ found rfl alive
    · intro address own
      by_contra changed
      exact userFrame_apart (different alive) own (unloaded address changed)

/-- A command whose first word is the name of an executable of 28 bytes or more
gets its child. -/
theorem execute_buildsChild (frame : StackFrame) (table : kernel.ProcessTable platform)
    (room : kernel.processNum < maxProgs) (listed : index < numDentries platform.image)
    (same : fieldBytes (dentryName platform.image index) = commandWord command)
    (first : ∀ earlier < index,
      fieldBytes (dentryName platform.image earlier) ≠ commandWord command)
    (file : Executable platform.image index)
    (long : 28 ≤ (dentryContent platform.image index).length) :
    ∃ slot, BuildsChild (dentryContent platform.image index) kernel slot
      (kernel.execute platform command frame) := by
  have short : (commandWord command).length ≤ nameLength := by
    rw [← same]
    exact strlen_fieldString (dentryName platform.image index)
  have name := commandName_short short
  have entry : FirstNamed platform.image (commandName command) index := by
    refine ⟨⟨listed, same.trans name.symm⟩, ?_⟩
    rintro earlier before ⟨-, again⟩
    exact first earlier before (again.trans name)
  obtain ⟨large, agrees⟩ := magic_iff.mp file.magic
  have accepted : accepts platform.image index frame.elfBuf :=
    (accepts_of_long frame.elfBuf large).mpr ⟨file.inode, agrees⟩
  obtain ⟨⟨inode, elf⟩, opened⟩ := (openProgram_isSome_iff platform.image frame.elfBuf
    (strlen_commandName command)).mpr ⟨index, entry, accepted⟩
  obtain ⟨other, found, rfl, rfl⟩ := openProgram_eq_some opened
  rw [(findDentry_short_some (strlen_commandName command)).mpr entry] at found
  obtain rfl := Option.some.inj found
  obtain ⟨slot, free⟩ := Option.isSome_iff_exists.mp (table.search room)
  refine ⟨slot, ?_⟩
  rw [Kernel.execute, if_neg (by omega), if_neg table.nonempty,
    Kernel.executeRest_some kernel opened, Kernel.claimSlot_some frame.pcb.pid free]
  exact started_buildsChild frame _ table free file.inode
    (entry_word frame.elfBuf file.inode long)

end Child

theorem execute_buildsChild_sample :
    ∃ slot, BuildsChild (dentryContent Sample.platform.image 2) Sample.start.kernel slot
      (Sample.start.kernel.execute Sample.platform shellName Sample.frame) := by
  have reachable : Reachable Sample.platform Sample.start :=
    ⟨Sample.start, [], Sample.launched, .nil _⟩
  have size : 28 ≤ (dentryContent Sample.platform.image 2).length :=
    le_of_le_of_eq
      (by decide : 28 ≤ fileSize Sample.platform.image (dentryInode Sample.platform.image 2))
      (length_fileContent Sample.platform.image (dentryInode Sample.platform.image 2)).symm
  have large : 4 ≤ fileSize Sample.platform.image (dentryInode Sample.platform.image 2) := by decide
  have agreeing : begins Sample.platform.image 2 := begins_iff.mpr ⟨by decide, by decide⟩
  have file : Executable Sample.platform.image 2 :=
    ⟨by decide, agreeing.1, magic_iff.mpr ⟨large, agreeing.2⟩⟩
  have room : Sample.start.kernel.processNum < maxProgs := by decide +kernel
  have same : fieldBytes (dentryName Sample.platform.image 2) = commandWord shellName := by
    decide
  have first : ∀ earlier < 2,
      fieldBytes (dentryName Sample.platform.image earlier) ≠ commandWord shellName := by
    decide
  exact execute_buildsChild Sample.frame reachable.processTable room (by decide) same first file
    size

end Ece391Os
