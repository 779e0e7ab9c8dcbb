import Ece391Os.Files.Content
import Ece391Os.Files.DescriptorRuns

namespace Ece391Os

open Data

/-! The position of a regular file's descriptor, for counts of either sign. -/

/-- The position lies in the file.  A descriptor whose inode does not exist stays
where `open` put it. -/
structure FileDesc.InFile (image : Memory) (desc : FileDesc) : Prop where
  lower : 0 ≤ desc.filePosition
  upper : desc.filePosition ≤ fileSize image (u32 desc.inode)
  missing : numInodes image ≤ u32 desc.inode → desc.filePosition = 0

theorem u32_lt (value : Int) : u32 value < 4294967296 := by
  simp only [u32]
  omega

section Reads

variable {image : Memory} {desc : FileDesc}

theorem fileRead_missing (buf : Memory) (nbytes : Int)
    (missing : numInodes image ≤ u32 desc.inode) :
    fileRead image desc buf nbytes = ⟨-1, desc, buf⟩ := by
  simp [fileRead, readData_invalid _ _ _ missing]

theorem fileRead_present (buf : Memory) (nbytes : Int)
    (present : u32 desc.inode < numInodes image) (place : desc.InFile image) :
    (fileRead image desc buf nbytes).ret =
        i32 (readTotal image (u32 desc.inode) (u32 desc.filePosition) (u32 nbytes)) ∧
      (fileRead image desc buf nbytes).buf =
        Memory.blit (fileByte image (u32 desc.inode)) (u32 desc.filePosition) buf 0
          (readTotal image (u32 desc.inode) (u32 desc.filePosition) (u32 nbytes)) ∧
      (fileRead image desc buf nbytes).desc =
        if (fileRead image desc buf nbytes).ret = -1 then desc
        else { desc with
          filePosition := i32 (desc.filePosition + (fileRead image desc buf nbytes).ret) } := by
  have words : numInodes image < 4294967296 := Memory.word_lt _ _
  have exists_ : desc.inode ≠ -1 := by
    intro closed
    rw [closed] at present
    have last : u32 (-1) = 4294967295 := by decide
    omega
  have size : fileSize image (u32 desc.inode) < 4294967296 := Memory.word_lt _ _
  have inside : u32 desc.filePosition ≤ fileSize image (u32 desc.inode) := by
    have value := u32_of_bounds place.lower (by have := place.upper; omega)
    have upper := place.upper
    omega
  have answer := readData_total (u32 nbytes) buf present inside
  generalize i32 (readTotal image (u32 desc.inode) (u32 desc.filePosition) (u32 nbytes)) =
    value at answer ⊢
  by_cases failed : value = -1
  · simp [fileRead, exists_, answer, failed]
  · simp [fileRead, exists_, answer, failed]

/-- How many bytes a read delivers: with a count that carries the position past
2^32 as many as the count, and otherwise at most the rest of the file. -/
theorem readTotal_cases {inode position length : Nat}
    (inside : position ≤ fileSize image inode) (small : length < 4294967296) :
    (position + length < 4294967296 ∧
        readTotal image inode position length =
          min length (fileSize image inode - position)) ∨
      (4294967296 ≤ position + length ∧ readTotal image inode position length = length) := by
  rcases Nat.lt_or_ge (position + length) 4294967296 with noWrap | wraps
  · exact .inl ⟨noWrap, readTotal_eq_readCount inside noWrap⟩
  · have size : fileSize image inode < 4294967296 := Memory.word_lt _ _
    refine .inr ⟨wraps, ?_⟩
    have sum : wrap (position + length) = position + length - 4294967296 := by
      simp only [wrap]
      omega
    have stop : readEnd image inode position length = position + length - 4294967296 := by
      rw [readEnd, sum, if_neg (by omega)]
    rw [readTotal, stop]
    simp only [wrap]
    omega

theorem FileDesc.InFile.position_eq (place : desc.InFile image) :
    ∃ position : Nat, desc.filePosition = position ∧ u32 desc.filePosition = position ∧
      position ≤ fileSize image (u32 desc.inode) := by
  have size : fileSize image (u32 desc.inode) < 4294967296 := Memory.word_lt _ _
  have lower := place.lower
  have upper := place.upper
  have value := u32_of_bounds lower (by omega)
  exact ⟨u32 desc.filePosition, value.symm, rfl, by omega⟩

theorem FileDesc.InFile.move {position : Int} (lower : 0 ≤ position)
    (upper : position ≤ fileSize image (u32 desc.inode))
    (present : u32 desc.inode < numInodes image) :
    { desc with filePosition := position }.InFile image :=
  ⟨lower, upper, fun missing => absurd missing (Nat.not_le.mpr present)⟩

theorem readTotal_advance {inode position length : Nat}
    (inside : position ≤ fileSize image inode) (bound : fileSize image inode ≤ 1023 * fourKb)
    (small : length < 4294967296) :
    0 ≤ i32 (position + i32 (readTotal image inode position length)) ∧
      i32 (position + i32 (readTotal image inode position length)) ≤
        fileSize image inode := by
  simp only [fourKb] at bound
  rcases readTotal_cases inside small with ⟨_, total⟩ | ⟨_, total⟩
  · rw [total]
    generalize counts : min length (fileSize image inode - position) = count
    have forward : i32 ((position : Int) + count) = position + count :=
      i32_of_bounds (by omega) (by omega)
    have short : i32 (count : Nat) = count := i32_of_bounds (by omega) (by omega)
    rw [short, forward]
    omega
  · have back : i32 (length : Nat) = (length : Int) - 4294967296 := by
      simp only [i32, Int.bmod]
      omega
    have backward : i32 ((position : Int) + ((length : Int) - 4294967296)) =
        position + ((length : Int) - 4294967296) :=
      i32_of_bounds (by omega) (by omega)
    rw [total, back, backward]
    omega

theorem FileDesc.InFile.read (place : desc.InFile image) (formed : InodesFormed image)
    (buf : Memory) (nbytes : Int) : (fileRead image desc buf nbytes).desc.InFile image := by
  rcases Nat.lt_or_ge (u32 desc.inode) (numInodes image) with present | missing
  · obtain ⟨position, at_, word, inside⟩ := place.position_eq
    obtain ⟨value, -, moved⟩ := fileRead_present buf nbytes present place
    obtain ⟨lower, upper⟩ := readTotal_advance inside (formed.size _ present) (u32_lt nbytes)
    rw [moved]
    split
    · exact place
    · rw [value, word, at_]
      exact .move lower upper present
  · rw [fileRead_missing buf nbytes missing]
    exact place

end Reads

/-! Every descriptor of a regular file, in every reachable state. -/

namespace FdTable

variable {image : Memory} {fdt : FdTable}

def InFiles (image : Memory) (fdt : FdTable) : Prop :=
  ∀ fd, 2 ≤ fd → fd ≤ maxFdNum → (fdt fd).flags = 1 → (fdt fd).jumpPtr = .fileTable →
    (fdt fd).InFile image

theorem Valid.above_of_file {fd : Int} (valid : fdt.Valid) (above : 0 ≤ fd)
    (regular : (fdt fd).jumpPtr = .fileTable) : 2 ≤ fd := by
  by_contra low
  obtain rfl | rfl : fd = 0 ∨ fd = 1 := by omega
  · rw [valid.stdin.2] at regular
    cases regular
  · rw [valid.stdout.2] at regular
    cases regular

theorem InFiles.fresh (stale : FdTable) : InFiles image (freshFdt stale) := by
  intro fd above below used _
  simp only [freshFdt] at used
  rw [if_neg (by omega), if_neg (by omega), if_pos ⟨above, below⟩] at used
  exact absurd used (by decide : (-1 : Int) ≠ 1)

theorem InFiles.update (places : InFiles image fdt) {fd : Int} {desc : FileDesc}
    (place : desc.flags = 1 → desc.jumpPtr = .fileTable → desc.InFile image) :
    InFiles image (Function.update fdt fd desc) := by
  intro other above below used table
  by_cases here : other = fd
  · rw [here, Function.update_self] at used table ⊢
    exact place used table
  · rw [Function.update_of_ne here] at used table ⊢
    exact places other above below used table

theorem InFiles.read (places : InFiles image fdt) (valid : fdt.Valid)
    (formed : InodesFormed image) (fd : Int) (buf : Option Memory) (nbytes : Int) :
    InFiles image (fdt.read image fd buf nbytes).1 := by
  by_cases outside : fd < 0 ∨ maxFdNum < fd
  · simpa only [FdTable.read, if_pos outside] using places
  · by_cases regular : (fdt fd).flags = 1 ∧ (fdt fd).jumpPtr = .fileTable
    · obtain ⟨used, table⟩ := regular
      have above : 2 ≤ fd := valid.above_of_file (by omega) table
      have place := places fd above (by omega) used table
      have whole : FdTable.read image fd buf nbytes fdt =
          fdt.deliver fd buf fun bytes => fileRead image (fdt fd) bytes nbytes := by
        simp only [FdTable.read]
        rw [if_neg outside, if_neg (by rw [used]; decide), table]
      rw [whole]
      cases buf with
      | none =>
          simp only [deliver]
          split
          · exact places
          · exact places.update fun _ _ => place.read formed _ nbytes
      | some bytes => exact places.update fun _ _ => place.read formed bytes nbytes
    · obtain ⟨position, moved⟩ := read_position image fd buf nbytes fdt
      rw [moved]
      exact places.update fun used table => absurd ⟨used, table⟩ regular

theorem InFiles.after (places : InFiles image fdt) (valid : fdt.Valid)
    (formed : InodesFormed image) (event : Event) :
    InFiles image (fdt.after image event) := by
  cases event with
  | openFile filename =>
      simp only [FdTable.after]
      rcases openFile_cases image filename fdt with
        ⟨same, _⟩ | ⟨name, dentry, fd, desc, _, _, _, opened, result⟩
      · rwa [same]
      · rw [result]
        obtain ⟨-, start, -, -⟩ := openDesc_some opened
        refine places.update fun _ _ => ⟨?_, ?_, fun _ => start⟩
        · omega
        · omega
  | close fd =>
      simp only [FdTable.after, close]
      split
      · exact places.update fun used => absurd used (by decide : (-1 : Int) ≠ 1)
      · exact places
  | read fd buf nbytes => exact places.read valid formed fd buf nbytes
  | _ => exact places

end FdTable

theorem Reachable.inFiles {platform : Platform} {machine : Machine} {pid : Int}
    (reachable : Reachable platform machine) (formed : InodesFormed platform.image)
    (alive : machine.kernel.live pid) :
    (machine.kernel.table pid).Valid ∧
      (machine.kernel.table pid).InFiles platform.image :=
  reachable.table_invariant (fun fdt => fdt.Valid ∧ fdt.InFiles platform.image)
    (fun stale => ⟨.fresh stale, .fresh stale⟩)
    (fun event both => ⟨both.1.after event, both.2.after both.1 formed event⟩) alive

theorem Reachable.inFile {platform : Platform} {machine : Machine} {fd : Int}
    (reachable : Reachable platform machine) (formed : InodesFormed platform.image)
    (used : machine.callerTable.inUse fd)
    (regular : (machine.callerTable fd).jumpPtr = .fileTable) :
    (machine.callerTable fd).InFile platform.image := by
  obtain ⟨valid, places⟩ := reachable.inFiles formed (Kernel.live_running reachable.sound)
  obtain ⟨above, below, flags⟩ := used
  exact places fd (valid.above_of_file above regular) below flags regular

/-- What a read owes the caller of a regular file: an answer within the rest of
the file, no byte from elsewhere, and a position within the file. -/
structure KeepsToFile (image : Memory) (before : FileDesc) (buf : Memory) (value : Int)
    (bytes : Memory) (after : FileDesc) : Prop where
  value : value = -1 ∨ 0 ≤ value ∧
    value ≤ fileSize image (u32 before.inode) - before.filePosition
  copies : ∀ k, bytes k = buf k ∨
    (fileContent image (u32 before.inode))[before.filePosition.toNat + k]? = some (bytes k)
  position : 0 ≤ after.filePosition ∧ after.filePosition ≤ fileSize image (u32 before.inode)

def ReadKeepsToFile (platform : Platform) (machine : Machine) (fd nbytes : Int) : Prop :=
  ∀ buf, ∃ value bytes,
    (machine.kernel.read platform fd (some buf) nbytes).2 = .read value bytes ∧
      KeepsToFile platform.image (machine.callerTable fd) buf value bytes
        ((machine.kernel.read platform fd (some buf) nbytes).1.table machine.caller fd)

section Regular

variable {platform : Platform} {machine : Machine} {fd nbytes : Int}

theorem Reachable.read_eq (reachable : Reachable platform machine)
    (used : machine.callerTable.inUse fd)
    (regular : (machine.callerTable fd).jumpPtr = .fileTable) (buf : Memory) (nbytes : Int) :
    (machine.kernel.read platform fd (some buf) nbytes).2 =
        .read (fileRead platform.image (machine.callerTable fd) buf nbytes).ret
          (fileRead platform.image (machine.callerTable fd) buf nbytes).buf ∧
      (machine.kernel.read platform fd (some buf) nbytes).1.table machine.caller fd =
        (fileRead platform.image (machine.callerTable fd) buf nbytes).desc := by
  obtain ⟨above, below, flags⟩ := used
  have whole : FdTable.read platform.image fd (some buf) nbytes machine.callerTable =
      machine.callerTable.deliver fd (some buf) fun bytes =>
        fileRead platform.image (machine.callerTable fd) bytes nbytes := by
    simp only [FdTable.read]
    rw [if_neg (by omega), if_neg (by rw [flags]; decide), regular]
  have address := (Kernel.currentPcb_running platform reachable.sound).1
  obtain ⟨table, reply⟩ := Kernel.read_table platform fd (some buf) nbytes machine.kernel
  rw [address] at table reply
  have own : (machine.kernel.pcbAt (pcbAddr machine.kernel.running.processNum)).fdt =
      machine.callerTable := rfl
  rw [own, whole] at table reply
  refine ⟨reply, ?_⟩
  have moved : (machine.kernel.read platform fd (some buf) nbytes).1.table machine.caller =
      Function.update machine.callerTable fd
        (fileRead platform.image (machine.callerTable fd) buf nbytes).desc := table
  rw [moved, Function.update_self]

theorem FileDesc.InFile.position_read {image : Memory} {desc : FileDesc} {buf : Memory}
    (place : desc.InFile image) (formed : InodesFormed image) :
    0 ≤ (fileRead image desc buf nbytes).desc.filePosition ∧
      (fileRead image desc buf nbytes).desc.filePosition ≤
        fileSize image (u32 desc.inode) := by
  have after := place.read formed buf nbytes
  have inode : (fileRead image desc buf nbytes).desc.inode = desc.inode := by
    obtain ⟨position, moved⟩ := FdTable.fileRead_desc image desc buf nbytes
    rw [moved]
  have upper := after.upper
  rw [inode] at upper
  exact ⟨after.lower, upper⟩

theorem FileDesc.InFile.read_forward {image : Memory} {desc : FileDesc}
    (place : desc.InFile image) (formed : InodesFormed image)
    (present : u32 desc.inode < numInodes image)
    (lower : -2147483648 ≤ nbytes) (upper : nbytes < 2147483648)
    (forward : 0 ≤ nbytes ∨ desc.filePosition + nbytes < 0) (buf : Memory) :
    ∃ position count : Nat, desc.filePosition = position ∧
      position + count ≤ fileSize image (u32 desc.inode) ∧
      (fileRead image desc buf nbytes).ret = count ∧
      (fileRead image desc buf nbytes).buf =
        Memory.blit (fileByte image (u32 desc.inode)) position buf 0 count := by
  have bound := formed.size _ present
  simp only [fourKb] at bound
  obtain ⟨position, at_, word, inside⟩ := place.position_eq
  have noWrap : position + u32 nbytes < 4294967296 := by
    simp only [u32]
    omega
  have total := readTotal_eq_readCount inside noWrap
  obtain ⟨count, counts⟩ : ∃ count, count =
      readTotal image (u32 desc.inode) position (u32 nbytes) := ⟨_, rfl⟩
  have within : position + count ≤ fileSize image (u32 desc.inode) := by
    rw [counts, total, readCount]
    omega
  have short : i32 (count : Nat) = count := i32_of_bounds (by omega) (by omega)
  obtain ⟨value, bytes, -⟩ := fileRead_present buf nbytes present place
  rw [word, ← counts] at value bytes
  exact ⟨position, count, at_, within, value.trans short, bytes⟩

theorem keepsToFile_forward {image : Memory} {desc : FileDesc} (formed : InodesFormed image)
    (place : desc.InFile image) (lower : -2147483648 ≤ nbytes) (upper : nbytes < 2147483648)
    (forward : 0 ≤ nbytes ∨ desc.filePosition + nbytes < 0) (buf : Memory) :
    KeepsToFile image desc buf (fileRead image desc buf nbytes).ret
      (fileRead image desc buf nbytes).buf (fileRead image desc buf nbytes).desc := by
  have after : 0 ≤ (fileRead image desc buf nbytes).desc.filePosition ∧ _ :=
    place.position_read formed
  rcases Nat.lt_or_ge (u32 desc.inode) (numInodes image) with present | missing
  · obtain ⟨position, count, at_, within, value, bytes⟩ :=
      place.read_forward formed present lower upper forward buf
    rw [value, bytes]
    refine ⟨.inr ⟨by omega, by rw [at_]; omega⟩, ?_, after⟩
    intro k
    rcases Nat.lt_or_ge k count with copied | kept
    · refine .inr ?_
      rw [Memory.blit_inside (by omega) (by omega), at_, Int.toNat_natCast, Nat.sub_zero]
      exact fileContent_getElem? (by omega)
    · exact .inl (Memory.blit_outside (by omega))
  · rw [fileRead_missing buf nbytes missing] at after ⊢
    exact ⟨.inl rfl, fun _ => .inl rfl, after⟩

/-- A negative count that leads back into the file wraps around it: the byte after
the end of the file is overwritten. -/
theorem not_keepsToFile_backward {image : Memory} {desc : FileDesc}
    (formed : InodesFormed image) (place : desc.InFile image)
    (negative : nbytes < 0) (backward : 0 ≤ desc.filePosition + nbytes) :
    ∃ buf, ¬ KeepsToFile image desc buf (fileRead image desc buf nbytes).ret
      (fileRead image desc buf nbytes).buf (fileRead image desc buf nbytes).desc := by
  have present : u32 desc.inode < numInodes image := by
    by_contra missing
    have start := place.missing (Nat.not_lt.mp missing)
    omega
  have above := place.lower
  have below := place.upper
  have bound := formed.size _ present
  simp only [fourKb] at bound
  have position : (u32 desc.filePosition : Int) = desc.filePosition :=
    u32_of_bounds above (by omega)
  have wraps : 4294967296 ≤ u32 desc.filePosition + u32 nbytes ∧
      2147483648 ≤ u32 nbytes := by
    simp only [u32] at position ⊢
    omega
  have inside : u32 desc.filePosition ≤ fileSize image (u32 desc.inode) := by omega
  have total : readTotal image (u32 desc.inode) (u32 desc.filePosition) (u32 nbytes) =
      u32 nbytes := by
    rcases readTotal_cases inside (u32_lt nbytes) with ⟨noWrap, -⟩ | ⟨-, total⟩
    · omega
    · exact total
  set beyond := fileSize image (u32 desc.inode) - u32 desc.filePosition with beyondDef
  set byte := fileByte image (u32 desc.inode) (u32 desc.filePosition + beyond) with byteDef
  refine ⟨fun _ => byte + 1, fun keeps => ?_⟩
  obtain ⟨-, bytes, -⟩ := fileRead_present (fun _ => byte + 1) nbytes present place
  have overwritten : (fileRead image desc (fun _ => byte + 1) nbytes).buf beyond = byte := by
    rw [bytes, total, Memory.blit_inside (by omega) (by omega), Nat.sub_zero]
  rcases keeps.copies beyond with same | part
  · rw [overwritten] at same
    exact absurd same (by simp)
  · have outside : (fileContent image (u32 desc.inode))[desc.filePosition.toNat + beyond]? =
        none := by
      apply List.getElem?_eq_none
      rw [fileContent_eq, List.length_map, List.length_range]
      omega
    rw [outside] at part
    cases part

end Regular

theorem Reachable.not_readKeepsToFile {platform : Platform} {machine : Machine}
    {fd nbytes : Int} (reachable : Reachable platform machine)
    (formed : InodesFormed platform.image) (used : machine.callerTable.inUse fd)
    (regular : (machine.callerTable fd).jumpPtr = .fileTable) (negative : nbytes < 0)
    (backward : 0 ≤ (machine.callerTable fd).filePosition + nbytes) :
    ¬ ReadKeepsToFile platform machine fd nbytes := by
  intro keeps
  have place := reachable.inFile formed used regular
  obtain ⟨buf, overrun⟩ := not_keepsToFile_backward formed place negative backward
  obtain ⟨value, bytes, reply, kept⟩ := keeps buf
  obtain ⟨answer, desc⟩ := reachable.read_eq used regular buf nbytes
  rw [reply] at answer
  obtain ⟨rfl, rfl⟩ := Outcome.read.inj answer
  rw [desc] at kept
  exact overrun kept

/-- A read keeps to its file unless the count is negative and does not lead
below the start of the file. -/
theorem Reachable.readKeepsToFile_iff {platform : Platform} {machine : Machine}
    {fd nbytes : Int} (reachable : Reachable platform machine)
    (formed : InodesFormed platform.image) (used : machine.callerTable.inUse fd)
    (regular : (machine.callerTable fd).jumpPtr = .fileTable)
    (lower : -2147483648 ≤ nbytes) (upper : nbytes < 2147483648) :
    ReadKeepsToFile platform machine fd nbytes ↔
      0 ≤ nbytes ∨ (machine.callerTable fd).filePosition + nbytes < 0 := by
  constructor
  · intro keeps
    by_contra backward
    simp only [not_or, Int.not_le, Int.not_lt] at backward
    exact reachable.not_readKeepsToFile formed used regular backward.1 backward.2 keeps
  · intro forward buf
    have place := reachable.inFile formed used regular
    obtain ⟨answer, desc⟩ := reachable.read_eq used regular buf nbytes
    refine ⟨_, _, answer, ?_⟩
    rw [desc]
    exact keepsToFile_forward formed place lower upper forward buf

namespace Sample

def thirtyRead : Machine :=
  after [.openFile (some shellName), .read 2 (some fun _ => 0) 30] (by decide +kernel)

theorem thirtyRead_desc : thirtyRead.callerTable.inUse 2 ∧
    (thirtyRead.callerTable 2).jumpPtr = .fileTable ∧
    (thirtyRead.callerTable 2).filePosition = 30 :=
  ⟨⟨by decide, by decide, by decide +kernel⟩, by decide +kernel, by decide +kernel⟩

end Sample

theorem readKeepsToFile_sample :
    ReadKeepsToFile Sample.platform Sample.thirtyRead 2 100 ∧
      ReadKeepsToFile Sample.platform Sample.thirtyRead 2 (-31) := by
  obtain ⟨used, regular, position⟩ := Sample.thirtyRead_desc
  have reachable : Reachable Sample.platform Sample.thirtyRead := Sample.reachable _ _
  refine ⟨(reachable.readKeepsToFile_iff Sample.inodesFormed used regular (by decide)
    (by decide)).mpr (.inl (by decide)), ?_⟩
  refine (reachable.readKeepsToFile_iff Sample.inodesFormed used regular (by decide)
    (by decide)).mpr (.inr ?_)
  rw [position]
  decide

theorem negativeCount_wraps : Reachable Sample.platform Sample.thirtyRead ∧
    InodesFormed Sample.platform.image ∧ Sample.thirtyRead.callerTable.inUse 2 ∧
    (Sample.thirtyRead.callerTable 2).jumpPtr = .fileTable ∧
    ¬ ReadKeepsToFile Sample.platform Sample.thirtyRead 2 (-4) := by
  obtain ⟨used, regular, position⟩ := Sample.thirtyRead_desc
  have reachable : Reachable Sample.platform Sample.thirtyRead := Sample.reachable _ _
  refine ⟨reachable, Sample.inodesFormed, used, regular, ?_⟩
  apply reachable.not_readKeepsToFile Sample.inodesFormed used regular (by decide)
  rw [position]
  decide

end Ece391Os
