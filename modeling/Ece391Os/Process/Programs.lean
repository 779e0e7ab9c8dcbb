import Ece391Os.Files.Content
import Ece391Os.Files.Lookup

namespace Ece391Os

open Data

/-! Which commands `execute` starts a program for. -/

def commandWord (command : CString) : List UInt8 := command.bytes.takeWhile (· ≠ space)

def elfMagic : List UInt8 := [0x7F, 0x45, 0x4C, 0x46]

def dentryContent (image : Memory) (index : Nat) : List UInt8 :=
  fileContent image (dentryInode image index)

/-- The entry of a regular file whose contents begin with the ELF magic. -/
structure Executable (image : Memory) (index : Nat) : Prop where
  regular : dentryType image index = 2
  inode : dentryInode image index < numInodes image
  magic : elfMagic <+: dentryContent image index

def namesExecutable (image : Memory) (command : CString) : Prop :=
  ∃ index < numDentries image,
    fieldBytes (dentryName image index) = commandWord command ∧ Executable image index

/-- A program starts exactly for a command whose first word names an executable,
whatever the stack held, and every other command fails. -/
structure RunsExactly (platform : Platform) (command : CString) (kernel : Kernel) : Prop where
  starts : ∀ frame, (∃ eip, (kernel.execute platform command frame).2 = .enter eip) ↔
    kernel.processNum < maxProgs ∧ namesExecutable platform.image command
  fails : ∀ frame, ¬ (kernel.processNum < maxProgs ∧ namesExecutable platform.image command) →
    (kernel.execute platform command frame).2 = .ret (-1)

/-- A file that has nothing against the magic: it begins with it, or it ends
before it differs. -/
def begins (image : Memory) (index : Nat) : Prop :=
  dentryInode image index < numInodes image ∧
    (dentryContent image index).take 4 <+: elfMagic

/-- The entry that the first 32 bytes of the word lead to is judged wrongly: its
file is shorter than the magic, so that the stack decides; it begins with the
magic, but the word is longer than a name or no executable bears it; or an
executable bears the same name behind it. -/
def misled (image : Memory) (command : CString) : Prop :=
  ∃ index, FirstNamed image (commandName command) index ∧
    ((begins image index ∧ (dentryContent image index).length < 4) ∨
      (begins image index ∧ 4 ≤ (dentryContent image index).length ∧
        (nameLength < (commandWord command).length ∨
          ¬ ∃ other, Named image (commandName command) other ∧ Executable image other)) ∨
      (¬ begins image index ∧ (commandWord command).length ≤ nameLength ∧
        ∃ other, Named image (commandName command) other ∧ Executable image other))

section Headers

variable {image : Memory} {inode index : Nat} {name : CString}

theorem length_fileContent (image : Memory) (inode : Nat) :
    (fileContent image inode).length = fileSize image inode := by
  rw [fileContent_eq, List.length_map, List.length_range]

theorem readData_header (elfBuf : Memory) (valid : inode < numInodes image) {k : Nat}
    (inside : k < nameLength) :
    (readData image inode 0 elfBuf nameLength).2 k =
      if k < fileSize image inode then fileByte image inode k else elfBuf k := by
  have short : nameLength = 32 := rfl
  rw [readData_eq elfBuf valid (by decide)]
  simp only
  by_cases within : k < fileSize image inode
  · rw [if_pos within, Memory.blit_inside (Nat.zero_le _)]
    · simp
    · simp only [readCount]
      omega
  · rw [if_neg within, Memory.blit_outside]
    simp only [readCount]
    omega

theorem begins_iff : begins image index ↔ dentryInode image index < numInodes image ∧
    ∀ k < 4, k < fileSize image (dentryInode image index) →
      fileByte image (dentryInode image index) k = elfMagic.getD k 0 := by
  simp only [begins, dentryContent]
  refine and_congr_right fun valid => ?_
  set inode := dentryInode image index
  have length := length_fileContent image inode
  have four : elfMagic.length = 4 := rfl
  rw [List.prefix_iff_getElem?]
  constructor
  · intro agree k below inside
    have bound : k < ((fileContent image inode).take 4).length := by
      rw [List.length_take]
      omega
    have same := agree k bound
    rw [List.getElem_take, List.getElem?_eq_getElem (by omega)] at same
    have byte : (fileContent image inode)[k]? = _ := fileContent_getElem? inside
    rw [List.getElem?_eq_getElem (by omega)] at byte
    rw [List.getD_eq_getElem?_getD, List.getElem?_eq_getElem (by omega), ← Option.some.inj byte,
      ← Option.some.inj same]
    rfl
  · intro agree k bound
    rw [List.length_take] at bound
    have inside : k < fileSize image inode := by omega
    have byte : (fileContent image inode)[k]? = _ := fileContent_getElem? inside
    have same := agree k (by omega) inside
    rw [List.getElem?_eq_getElem (by omega)] at byte
    rw [List.getElem_take, Option.some.inj byte, same, List.getD_eq_getElem?_getD,
      List.getElem?_eq_getElem (by omega)]
    rfl

theorem magic_iff : elfMagic <+: dentryContent image index ↔
    4 ≤ fileSize image (dentryInode image index) ∧
      (dentryContent image index).take 4 <+: elfMagic := by
  have length : (dentryContent image index).length = _ := length_fileContent image _
  have four : elfMagic.length = 4 := rfl
  constructor
  · intro magic
    have long := magic.length_le
    have cut : (dentryContent image index).take 4 = elfMagic :=
      (List.prefix_iff_eq_take.mp magic).symm
    exact ⟨by omega, [], by rw [cut, List.append_nil]⟩
  · rintro ⟨long, magic⟩
    have whole : ((dentryContent image index).take 4).length = elfMagic.length := by
      rw [List.length_take]
      omega
    rw [← magic.eq_of_length whole]
    exact List.take_prefix _ _

def accepts (image : Memory) (index : Nat) (elfBuf : Memory) : Prop :=
  dentryInode image index < numInodes image ∧
    ∀ k < 4, (if k < fileSize image (dentryInode image index)
      then fileByte image (dentryInode image index) k else elfBuf k) = elfMagic.getD k 0

theorem header_magic_iff {inode : Nat} (elfBuf : Memory) (valid : inode < numInodes image) :
    (¬ ((readData image inode 0 elfBuf nameLength).2 0 ≠ 0x7F ∨
      (readData image inode 0 elfBuf nameLength).2 1 ≠ 0x45 ∨
      (readData image inode 0 elfBuf nameLength).2 2 ≠ 0x4C ∨
      (readData image inode 0 elfBuf nameLength).2 3 ≠ 0x46)) ↔
    ∀ k < 4, (if k < fileSize image inode then fileByte image inode k else elfBuf k) =
      elfMagic.getD k 0 := by
  have header {k : Nat} (below : k < 4) := readData_header (k := k) elfBuf valid
    (Nat.lt_trans below (by decide))
  rw [header (by decide), header (by decide), header (by decide), header (by decide)]
  simp only [not_or, ne_eq, not_not]
  constructor
  · rintro ⟨zero, one, two, three⟩ k below
    match k, below with
    | 0, _ => exact zero
    | 1, _ => exact one
    | 2, _ => exact two
    | 3, _ => exact three
  · intro agree
    exact ⟨agree 0 (by decide), agree 1 (by decide), agree 2 (by decide), agree 3 (by decide)⟩

theorem openProgram_isSome_iff (image elfBuf : Memory) (short : name.strlen ≤ nameLength) :
    (∃ program, openProgram image name elfBuf = some program) ↔
      ∃ index, FirstNamed image name index ∧ accepts image index elfBuf := by
  simp only [openProgram, readDentryByName]
  cases found : findDentry image name with
  | none =>
      have absent := (findDentry_short_none short).mp found
      constructor
      · rintro ⟨program, opened⟩
        cases opened
      · rintro ⟨index, first, -⟩
        exact absurd first.1 (absent index)
  | some index =>
      have first := (findDentry_short_some short).mp found
      have inode : (copyDentry image index).inodeNum = dentryInode image index := rfl
      simp only [Option.map_some, inode]
      by_cases valid : dentryInode image index < numInodes image
      · rw [if_neg (readData_ret_ne elfBuf valid (by decide) (by decide))]
        constructor
        · rintro ⟨program, opened⟩
          split at opened
          · cases opened
          · rename_i agree
            exact ⟨index, first, valid, (header_magic_iff elfBuf valid).mp agree⟩
        · rintro ⟨other, again, -, agree⟩
          rw [first.unique again] at agree
          rw [if_neg ((header_magic_iff elfBuf valid).mpr agree)]
          exact ⟨_, rfl⟩
      · rw [readData_invalid 0 _ elfBuf (by omega), if_pos rfl]
        constructor
        · rintro ⟨program, opened⟩
          cases opened
        · rintro ⟨other, again, inside, -⟩
          rw [first.unique again] at inside
          exact absurd inside valid

/-! What the stack has to say: nothing about a file of four bytes or more, and
everything about a shorter one that has nothing against the magic. -/

theorem accepts_of_long (elfBuf : Memory)
    (long : 4 ≤ fileSize image (dentryInode image index)) :
    accepts image index elfBuf ↔ begins image index := by
  rw [begins_iff, accepts]
  refine and_congr_right fun _ => ?_
  constructor
  · intro agree k below inside
    have same := agree k below
    rwa [if_pos inside] at same
  · intro agree k below
    rw [if_pos (by omega)]
    exact agree k below (by omega)

theorem accepts.begins {elfBuf : Memory} (accepted : accepts image index elfBuf) :
    begins image index := by
  refine begins_iff.mpr ⟨accepted.1, ?_⟩
  intro k below inside
  have same := accepted.2 k below
  rwa [if_pos inside] at same

theorem accepts_magic (agreeing : begins image index) :
    accepts image index fun k => elfMagic.getD k 0 := by
  obtain ⟨valid, agree⟩ := begins_iff.mp agreeing
  refine ⟨valid, ?_⟩
  intro k below
  split
  · rename_i inside
    exact agree k below inside
  · rfl

theorem not_accepts_zero (short : fileSize image (dentryInode image index) < 4) :
    ¬ accepts image index fun _ => 0 := by
  intro accepted
  have last := accepted.2 3 (by decide)
  rw [if_neg (by omega)] at last
  exact absurd last (by decide)

end Headers

/-! The name `execute` looks for is the word cut to 32 bytes. -/

theorem commandLength_eq (command : CString) :
    commandLength command = min nameLength (commandWord command).length := by
  rw [commandLength, List.length_take, commandWord]

theorem commandName_bytes (command : CString) :
    (commandName command).bytes = (commandWord command).take nameLength := by
  have whole : commandWord command <+: command.bytes := List.takeWhile_prefix _
  simp only [commandName, commandLength_eq]
  conv_rhs => rw [List.prefix_iff_eq_take.mp whole, List.take_take]

theorem strlen_commandName (command : CString) : (commandName command).strlen ≤ nameLength := by
  rw [CString.strlen, commandName_bytes, List.length_take]
  exact Nat.min_le_left _ _

theorem commandName_short {command : CString}
    (short : (commandWord command).length ≤ nameLength) :
    (commandName command).bytes = commandWord command := by
  rw [commandName_bytes, List.take_of_length_le short]

theorem namesExecutable_iff (image : Memory) (command : CString) :
    namesExecutable image command ↔ (commandWord command).length ≤ nameLength ∧
      ∃ index, Named image (commandName command) index ∧ Executable image index := by
  constructor
  · rintro ⟨index, listed, same, file⟩
    have short : (commandWord command).length ≤ nameLength := by
      rw [← same]
      exact strlen_fieldString (dentryName image index)
    exact ⟨short, index, ⟨listed, same.trans (commandName_short short).symm⟩, file⟩
  · rintro ⟨short, index, ⟨listed, same⟩, file⟩
    exact ⟨index, listed, same.trans (commandName_short short), file⟩

/-! What `execute` decides. -/

namespace Kernel

variable {platform : Platform} {command : CString} {kernel : Kernel}

theorem execute_decides (platform : Platform) (command : CString) (frame : StackFrame)
    (room : kernel.processNum < maxProgs) :
    ((∃ eip, (kernel.execute platform command frame).2 = .enter eip) ∧
      ∃ index, FirstNamed platform.image (commandName command) index ∧
        accepts platform.image index frame.elfBuf) ∨
    ((kernel.execute platform command frame).2 = .ret (-1) ∧
      ¬ ∃ index, FirstNamed platform.image (commandName command) index ∧
        accepts platform.image index frame.elfBuf) := by
  have opens := openProgram_isSome_iff platform.image frame.elfBuf
    (strlen_commandName command)
  rw [execute, if_neg (by omega)]
  obtain ⟨failed, result⟩ | ⟨inode, elf, memory, opened, result⟩ :=
    executeRest_cases platform command frame
      (if kernel.processNum = 0 then kernel.clearSlots else kernel)
  · refine .inr ⟨by rw [result], ?_⟩
    rw [← opens]
    rintro ⟨program, opened⟩
    rw [failed] at opened
    cases opened
  · exact .inl ⟨⟨_, by rw [result]⟩, opens.mp ⟨_, opened⟩⟩

theorem execute_full (frame : StackFrame) (full : maxProgs ≤ kernel.processNum) :
    kernel.execute platform command frame = (kernel, .ret (-1)) := by
  rw [execute, if_pos full]

theorem runsExactly_full (full : maxProgs ≤ kernel.processNum) :
    RunsExactly platform command kernel := by
  constructor
  · intro frame
    rw [execute_full frame full]
    constructor
    · rintro ⟨eip, entered⟩
      cases entered
    · rintro ⟨room, -⟩
      omega
  · intro frame _
    rw [execute_full frame full]

theorem runsExactly_iff (room : kernel.processNum < maxProgs) :
    RunsExactly platform command kernel ↔
      ∀ elfBuf, (∃ index, FirstNamed platform.image (commandName command) index ∧
        accepts platform.image index elfBuf) ↔ namesExecutable platform.image command := by
  constructor
  · intro exactly elfBuf
    set frame : StackFrame := ⟨kernel.pcbAt 0, elfBuf, fun _ => 0, 0⟩
    have starts := exactly.starts frame
    simp only [room, true_and] at starts
    rw [← starts]
    obtain ⟨started, accepted⟩ | ⟨failed, refused⟩ :=
      execute_decides platform command frame room
    · exact ⟨fun _ => started, fun _ => accepted⟩
    · refine ⟨fun accepted => absurd accepted refused, ?_⟩
      rintro ⟨eip, entered⟩
      rw [failed] at entered
      cases entered
  · intro decides
    constructor
    · intro frame
      simp only [room, true_and]
      rw [← decides frame.elfBuf]
      obtain ⟨started, accepted⟩ | ⟨failed, refused⟩ :=
        execute_decides platform command frame room
      · exact ⟨fun _ => accepted, fun _ => started⟩
      · refine ⟨?_, fun accepted => absurd accepted refused⟩
        rintro ⟨eip, entered⟩
        rw [failed] at entered
        cases entered
    · intro frame none
      simp only [room, true_and] at none
      rw [← decides frame.elfBuf] at none
      obtain ⟨-, accepted⟩ | ⟨failed, -⟩ :=
        execute_decides platform command frame room
      · exact absurd accepted none
      · exact failed

theorem decides_iff {image : Memory} {index : Nat}
    (first : FirstNamed image (commandName command) index) :
    (∀ elfBuf, accepts image index elfBuf ↔ namesExecutable image command) ↔
      ¬ misled image command := by
  have here : misled image command ↔
      ((begins image index ∧ (dentryContent image index).length < 4) ∨
      (begins image index ∧ 4 ≤ (dentryContent image index).length ∧
        (nameLength < (commandWord command).length ∨
          ¬ ∃ other, Named image (commandName command) other ∧ Executable image other)) ∨
      (¬ begins image index ∧ (commandWord command).length ≤ nameLength ∧
        ∃ other, Named image (commandName command) other ∧ Executable image other)) := by
    constructor
    · rintro ⟨other, again, judged⟩
      rwa [first.unique again] at judged
    · intro judged
      exact ⟨index, first, judged⟩
  have length : (dentryContent image index).length = _ := length_fileContent image _
  rw [here, namesExecutable_iff, length]
  by_cases agreeing : begins image index
  · rcases Nat.lt_or_ge (fileSize image (dentryInode image index)) 4 with short | long
    · constructor
      · intro decides
        exact absurd ((decides _).mpr ((decides _).mp (accepts_magic agreeing)))
          (not_accepts_zero short)
      · intro judged
        exact absurd (.inl ⟨agreeing, short⟩) judged
    · simp only [accepts_of_long _ long, agreeing, true_and, not_true, false_and, or_false,
        true_iff]
      rw [not_or, not_and, not_or, Nat.not_lt, Nat.not_lt, not_not]
      exact ⟨fun both => ⟨long, fun _ => both fun _ => 0⟩, fun both _ => both.2 long⟩
  · have refused (elfBuf : Memory) : ¬ accepts image index elfBuf := fun accepted =>
      agreeing accepted.begins
    simp only [refused, agreeing, false_and, not_false_eq_true, true_and, false_or, false_iff,
      forall_const]

/-- `execute` starts a program exactly for the commands that name an executable,
but when the process table has room and the entry found is judged wrongly. -/
theorem execute_exact_iff (platform : Platform) (kernel : Kernel) (command : CString) :
    RunsExactly platform command kernel ↔
      maxProgs ≤ kernel.processNum ∨ ¬ misled platform.image command := by
  by_cases full : maxProgs ≤ kernel.processNum
  · exact ⟨fun _ => .inl full, fun _ => runsExactly_full full⟩
  · rw [runsExactly_iff (by omega), or_iff_right full]
    cases found : findDentry platform.image (commandName command) with
    | none =>
        have absent := (findDentry_short_none (strlen_commandName command)).mp found
        have unnamed : ¬ namesExecutable platform.image command := by
          rw [namesExecutable_iff]
          rintro ⟨-, index, entry, -⟩
          exact absent index entry
        constructor
        · rintro - ⟨index, first, -⟩
          exact absent index first.1
        · intro _ elfBuf
          refine ⟨?_, fun names => absurd names unnamed⟩
          rintro ⟨index, first, -⟩
          exact absurd first.1 (absent index)
    | some index =>
        have first := (findDentry_short_some (strlen_commandName command)).mp found
        rw [← decides_iff first]
        refine forall_congr' fun elfBuf => iff_congr ?_ Iff.rfl
        constructor
        · rintro ⟨other, again, accepted⟩
          have same := (findDentry_short_some (strlen_commandName command)).mpr again
          rw [found] at same
          rwa [Option.some.inj same]
        · intro accepted
          exact ⟨index, first, accepted⟩

end Kernel

theorem directory_runs :
    (∃ eip, (Sample.start.kernel.execute Sample.platform Sample.dotName Sample.frame).2 =
      .enter eip) ∧
    ¬ namesExecutable Sample.image Sample.dotName ∧
    ¬ RunsExactly Sample.platform Sample.dotName Sample.start.kernel := by
  have room : Sample.start.kernel.processNum < maxProgs := by decide +kernel
  have first : FirstNamed Sample.image (commandName Sample.dotName) 0 :=
    ⟨⟨by decide, by decide⟩, fun earlier before => absurd before (Nat.not_lt_zero earlier)⟩
  have accepted : accepts Sample.image 0 Sample.frame.elfBuf := by
    refine ⟨by decide, ?_⟩
    decide
  have started : ∃ eip, (Sample.start.kernel.execute Sample.platform Sample.dotName
      Sample.frame).2 = .enter eip := by
    obtain ⟨started, -⟩ | ⟨-, refused⟩ := Kernel.execute_decides Sample.platform
      Sample.dotName Sample.frame room
    · exact started
    · exact absurd ⟨0, first, accepted⟩ refused
  have none : ¬ namesExecutable Sample.image Sample.dotName := by
    rintro ⟨index, listed, same, file⟩
    have regular : ∀ index < numDentries Sample.image,
        fieldBytes (dentryName Sample.image index) = commandWord Sample.dotName →
        dentryType Sample.image index ≠ 2 := by
      decide
    exact regular index listed same file.regular
  exact ⟨started, none, fun exactly => none ((exactly.starts Sample.frame).mp started).2⟩

end Ece391Os
