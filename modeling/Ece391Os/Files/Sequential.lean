import Ece391Os.Data.Pieces
import Ece391Os.Files.Held

namespace Ece391Os

open Data

/-! Files as the image lays them out. -/

/-- The `index`-th data block of a file, by the block list after its length. -/
def listedBlock (image : Memory) (inode index : Nat) : Nat :=
  image.word (fourKb * (inode + 1) + 4 + 4 * index)

def inodeSize (image : Memory) (inode : Nat) : Nat := image.word (fourKb * (inode + 1))

/-- Byte `position` of a file: the data blocks follow the boot block and the
inodes. -/
def contentByte (image : Memory) (inode position : Nat) : UInt8 :=
  image ((1 + numInodes image + listedBlock image inode (position / fourKb)) * fourKb +
    position % fourKb)

def contents (image : Memory) (inode : Nat) : List UInt8 :=
  (List.range (inodeSize image inode)).map (contentByte image inode)

structure WellFormedFile (image : Memory) (inode : Nat) : Prop where
  valid : inode < numInodes image
  size : inodeSize image inode ≤ 1023 * fourKb
  blocks : ∀ index, index * fourKb < inodeSize image inode →
    listedBlock image inode index < numDblocks image

/-- An image in a 32-bit address space whose regular files are well formed. -/
structure WellFormed (image : Memory) : Prop where
  fits : (1 + numInodes image + numDblocks image) * fourKb ≤ 4294967296
  files : ∀ index < numDentries image, dentryType image index = 2 →
    WellFormedFile image (dentryInode image index)

section Image

variable {image : Memory} {inode : Nat}

theorem length_contents (image : Memory) (inode : Nat) :
    (contents image inode).length = inodeSize image inode := by
  simp [contents]

theorem WellFormed.inodeAddr_eq (formed : WellFormed image) (file : WellFormedFile image inode) :
    inodeAddr inode = fourKb * (inode + 1) := by
  have fits := formed.fits
  have valid := file.valid
  simp only [inodeAddr, wrap, fourKb] at fits ⊢
  omega

theorem WellFormed.fileSize_eq (formed : WellFormed image) (file : WellFormedFile image inode) :
    fileSize image inode = inodeSize image inode := by
  rw [fileSize, formed.inodeAddr_eq file, inodeSize]

theorem WellFormed.fileByte_eq (formed : WellFormed image) (file : WellFormedFile image inode)
    {position : Nat} (inside : position < inodeSize image inode) :
    fileByte image inode position = contentByte image inode position := by
  have fits := formed.fits
  have listed : listedBlock image inode (position / fourKb) < numDblocks image := by
    apply file.blocks
    simp only [fourKb]
    omega
  have block : blockNum image inode (position / fourKb) =
      listedBlock image inode (position / fourKb) := by
    rw [blockNum, formed.inodeAddr_eq file, listedBlock]
  rw [fileByte, contentByte, block]
  congr 2
  simp only [dblockAddr, wrap, fourKb] at fits listed ⊢
  omega

theorem WellFormed.fileRead_eq (formed : WellFormed image) (file : WellFormedFile image inode)
    {desc : FileDesc} {position nbytes count : Nat} (buf : Memory)
    (onInode : desc.inode = i32 inode) (at_ : desc.filePosition = position)
    (inside : position ≤ inodeSize image inode) (small : nbytes < 2147483648)
    (counts : count = min nbytes (inodeSize image inode - position)) :
    fileRead image desc buf nbytes =
      ⟨count, { desc with filePosition := position + count },
        Memory.blit (fileByte image inode) position buf 0 count⟩ := by
  have fits := formed.fits
  have valid := file.valid
  have bound := file.size
  simp only [fourKb] at fits bound
  have below : position + count ≤ 4190208 := by omega
  have number : desc.inode = inode := by
    rw [onInode]
    exact i32_of_bounds (by omega) (by omega)
  have inodeWord : u32 desc.inode = inode := by
    rw [number]
    exact Int.ofNat_inj.mp (u32_of_bounds (by omega) (by omega))
  have positionWord : u32 desc.filePosition = position := by
    rw [at_]
    exact Int.ofNat_inj.mp (u32_of_bounds (by omega) (by omega))
  have lengthWord : u32 (nbytes : Int) = nbytes :=
    Int.ofNat_inj.mp (u32_of_bounds (by omega) (by omega))
  have answer : readData image inode position buf nbytes =
      ((count : Int), Memory.blit (fileByte image inode) position buf 0 count) := by
    have served : readCount image inode position nbytes = count := by
      rw [readCount, formed.fileSize_eq file, counts]
    rw [readData_eq buf valid (by omega), served, i32_of_bounds (by omega) (by omega)]
  have moved : i32 (desc.filePosition + count) = position + count := by
    rw [at_]
    exact i32_of_bounds (by omega) (by omega)
  have returned : (count : Int) ≠ -1 := by omega
  have named : desc.inode ≠ -1 := by omega
  simp only [fileRead, named, inodeWord, positionWord, lengthWord, answer, returned, moved,
    if_false]

theorem WellFormed.filled_eq (formed : WellFormed image) (file : WellFormedFile image inode)
    {position nbytes count : Nat} (buf : Memory)
    (counts : count = min nbytes (inodeSize image inode - position)) :
    (List.range count).map (Memory.blit (fileByte image inode) position buf 0 count) =
      ((contents image inode).drop position).take nbytes := by
  have lengths : ((List.range count).map
      (Memory.blit (fileByte image inode) position buf 0 count)).length =
      (((contents image inode).drop position).take nbytes).length := by
    rw [List.length_take, List.length_drop, length_contents, List.length_map,
      List.length_range, counts]
  apply List.ext_getElem lengths
  intro k left _
  simp only [List.length_map, List.length_range] at left
  rw [List.getElem_map, List.getElem_range, Memory.blit_inside (by omega) (by omega),
    List.getElem_take, List.getElem_drop, Nat.sub_zero,
    formed.fileByte_eq file (by omega)]
  simp [contents]

theorem readDentryByName_some {name : CString} {dentry : Dentry}
    (found : readDentryByName image name = some dentry) :
    ∃ index < numDentries image, dentryMatches image name index = true ∧
      dentry = copyDentry image index := by
  obtain ⟨index, first, rfl⟩ := Option.map_eq_some_iff.mp found
  refine ⟨index, ?_, List.find?_some first, rfl⟩
  exact List.mem_range.mp (List.mem_of_find?_eq_some first)

theorem WellFormed.opened (formed : WellFormed image) {name : CString} {dentry : Dentry}
    (found : readDentryByName image name = some dentry) (regular : dentry.fileType = 2) :
    WellFormedFile image dentry.inodeNum := by
  obtain ⟨index, listed, -, rfl⟩ := readDentryByName_some found
  exact formed.files index listed regular

end Image

/-! The reads of one descriptor along a run. -/

structure ReadCall where
  nbytes : Int
  value : Int
  bytes : List UInt8

namespace ReadCall

def piece (call : ReadCall) : Piece UInt8 := ⟨call.nbytes.toNat, call.bytes⟩

/-- A read that returned; a fault returns nothing. -/
def returned (read : FdRead) : Option ReadCall :=
  match read.reply with
  | .read value filled => some ⟨read.nbytes, value, (List.range value.toNat).map filled⟩
  | .ret value => some ⟨read.nbytes, value, []⟩
  | _ => none

end ReadCall

def readsOf (pid fd : Int) (trace : Trace) : List ReadCall :=
  (fdReads pid fd trace).filterMap ReadCall.returned

def readCounts (nbytes : Int) : Prop := 0 ≤ nbytes ∧ nbytes < 2147483648

/-- The descriptor of a regular file after some reads: its position is behind
what they delivered. -/
structure Reading (image : Memory) (inode : Nat) (desc : FileDesc)
    (reads : List ReadCall) : Prop where
  used : desc.flags = 1
  table : desc.jumpPtr = .fileTable
  onInode : desc.inode = i32 inode
  sequential : Sequential (contents image inode) (reads.map ReadCall.piece)
  position : desc.filePosition = (delivered (reads.map ReadCall.piece)).length
  values : ∀ call ∈ reads, call.value = call.bytes.length ∧ 0 ≤ call.nbytes

namespace Reading

variable {image : Memory} {inode : Nat} {desc : FileDesc} {reads : List ReadCall}
  {fdt : FdTable} {fd : Int}

theorem position_le (reading : Reading image inode desc reads) :
    (delivered (reads.map ReadCall.piece)).length ≤ inodeSize image inode := by
  rw [reading.sequential.delivered_eq, List.length_take, length_contents]
  exact Nat.min_le_right _ _

theorem snoc (reading : Reading image inode desc reads) (call : ReadCall)
    (items : call.bytes = ((contents image inode).drop
      (delivered (reads.map ReadCall.piece)).length).take call.nbytes.toNat)
    (value : call.value = call.bytes.length) (asked : 0 ≤ call.nbytes) :
    Reading image inode
      { desc with
        filePosition :=
          (delivered (reads.map ReadCall.piece)).length + call.bytes.length }
      (reads ++ [call]) := by
  refine ⟨reading.used, reading.table, reading.onInode, ?_, ?_, ?_⟩
  · rw [List.map_append]
    exact .snoc reading.sequential items
  · rw [List.map_append, List.map_singleton, delivered_snoc, List.length_append]
    simp only [ReadCall.piece, Nat.cast_add]
  · intro other member
    rcases List.mem_append.mp member with before | last
    · exact reading.values other before
    · obtain rfl := List.mem_singleton.mp last
      exact ⟨value, asked⟩

theorem read (reading : Reading image inode (fdt fd) reads) (formed : WellFormed image)
    (file : WellFormedFile image inode) (range : 0 ≤ fd ∧ fd ≤ maxFdNum)
    (buf : Option Memory) {nbytes : Int} (asked : 0 ≤ nbytes) (small : nbytes < 2147483648) :
    Reading image inode ((FdTable.read image fd buf nbytes fdt).1 fd)
      (reads ++ (ReadCall.returned
        ⟨buf, nbytes, (FdTable.read image fd buf nbytes fdt).2⟩).toList) := by
  obtain ⟨length, rfl⟩ := Int.eq_ofNat_of_zero_le asked
  have answer (bytes : Memory) := formed.fileRead_eq file bytes reading.onInode
    reading.position reading.position_le (by omega : length < 2147483648) rfl
  have filled (bytes : Memory) := formed.filled_eq file bytes
    (rfl : min length (inodeSize image inode -
      (delivered (reads.map ReadCall.piece)).length) = _)
  set position := (delivered (reads.map ReadCall.piece)).length with positionDef
  set count := min length (inodeSize image inode - position) with countDef
  have whole : FdTable.read image fd buf length fdt =
      fdt.deliver fd buf fun bytes => fileRead image (fdt fd) bytes length := by
    simp only [FdTable.read]
    rw [if_neg (by omega), if_neg (by rw [reading.used]; decide), reading.table]
  rw [whole]
  cases buf with
  | none =>
      simp only [FdTable.deliver, answer]
      split
      · simpa [ReadCall.returned] using reading
      · rename_i nothing
        have zero : count = 0 := by omega
        have empty : ([] : List UInt8) = ((contents image inode).drop position).take
            (length : Int).toNat := by
          rw [Int.toNat_natCast, ← filled fun _ => 0, zero]
          rfl
        have next := reading.snoc ⟨length, count, []⟩ empty (by simp [zero]) asked
        simpa [ReadCall.returned, zero] using next
  | some bytes =>
      simp only [FdTable.deliver, answer, ReadCall.returned, Option.toList_some,
        Function.update_self, Int.toNat_natCast]
      have next := reading.snoc
        ⟨length, count, (List.range count).map
          (Memory.blit (fileByte image inode) position bytes 0 count)⟩
        (by simpa using filled bytes) (by simp) asked
      simpa using next

end Reading

theorem Reading.accounts {image : Memory} {inode : Nat} {fd : Int}
    (formed : WellFormed image) (file : WellFormedFile image inode)
    (range : 0 ≤ fd ∧ fd ≤ maxFdNum) :
    Accounts image fd readCounts fun desc reads =>
      Reading image inode desc (reads.filterMap ReadCall.returned) := by
  constructor
  · intro desc reads reading
    exact reading.used
  · intro fdt reads buf nbytes reading counts
    rw [List.filterMap_append]
    exact reading.read formed file range buf counts.1 counts.2

/-- Reads that deliver a file exactly once: each returns what it asked for or
what is left, together they return the file's start, and nothing is returned
only after all of it was. -/
structure DeliversOnce (whole : List UInt8) (reads : List ReadCall) : Prop where
  value : ∀ before call after, reads = before ++ call :: after →
    call.value =
      min call.nbytes (whole.length - (before.flatMap ReadCall.bytes).length : Int)
  bytes : reads.flatMap ReadCall.bytes =
    whole.take (min (reads.map ReadCall.nbytes).sum whole.length).toNat
  finished : ∀ before call after, reads = before ++ call :: after → 0 < call.nbytes →
    (call.value = 0 ↔ before.flatMap ReadCall.bytes = whole)

theorem delivered_pieces (reads : List ReadCall) :
    delivered (reads.map ReadCall.piece) = reads.flatMap ReadCall.bytes := by
  rw [delivered, List.flatMap_map]
  rfl

theorem sum_wanted {reads : List ReadCall} (asked : ∀ call ∈ reads, 0 ≤ call.nbytes) :
    (((reads.map ReadCall.piece).map Piece.wanted).sum : Int) =
      (reads.map ReadCall.nbytes).sum := by
  induction reads with
  | nil => rfl
  | cons call rest induction =>
      have first := asked call List.mem_cons_self
      have others := induction fun other member => asked other (List.mem_cons_of_mem _ member)
      simp only [List.map_cons, List.sum_cons, Nat.cast_add, others, ReadCall.piece]
      omega

theorem Reading.delivers {image : Memory} {inode : Nat} {desc : FileDesc}
    {reads : List ReadCall} (reading : Reading image inode desc reads) :
    DeliversOnce (contents image inode) reads := by
  have upTo {before after : List ReadCall} {call : ReadCall}
      (split : reads = before ++ call :: after) :
      Sequential (contents image inode) (before.map ReadCall.piece ++ [call.piece]) ∧
        call.value = call.bytes.length ∧ 0 ≤ call.nbytes := by
    have sequential := reading.sequential
    have member : call ∈ reads := by simp [split]
    rw [split, List.map_append, List.map_cons, List.append_cons] at sequential
    exact ⟨sequential.of_append, reading.values call member⟩
  constructor
  · intro before call after split
    obtain ⟨sequential, value, asked⟩ := upTo split
    have length := sequential.length_items
    rw [delivered_pieces] at length
    have done := sequential.of_append.delivered_eq
    have most := List.length_take_le' (before.map ReadCall.piece |>.map Piece.wanted).sum
      (contents image inode)
    rw [← done, delivered_pieces] at most
    rw [value]
    simp only [ReadCall.piece] at length
    omega
  · have asked : ∀ call ∈ reads, 0 ≤ call.nbytes := fun call member =>
      (reading.values call member).2
    have total := sum_wanted asked
    rw [← delivered_pieces, reading.sequential.delivered_eq, ← total,
      List.take_eq_take_iff]
    omega
  · intro before call after split wants
    obtain ⟨sequential, value, -⟩ := upTo split
    rw [← delivered_pieces,
      ← sequential.items_nil_iff (by simp only [ReadCall.piece]; omega), value]
    exact Int.natCast_eq_zero

/-- Whatever runs in between, the reads of a descriptor that `open` returned for
a regular file deliver the file exactly once. -/
theorem Launched.deliversOnce {platform : Platform} {start state opened machine : Machine}
    {earlier trace : Trace} {name : CString} {dentry : Dentry} {fd : Int}
    (formed : WellFormed platform.image) (began : Launched platform start)
    (before : Run (Machine.step platform) start earlier state)
    (opens : state.step platform (.openFile (some name)) = some (opened, .ret fd))
    (onDisk : 2 ≤ fd) (found : readDentryByName platform.image name = some dentry)
    (regular : dentry.fileType = 2)
    (later : Run (Machine.step platform) opened trace machine)
    (keeps : ∀ transition ∈ trace, KeepsOpen state.caller fd transition)
    (counts : ∀ read ∈ fdReads state.caller fd trace, readCounts read.nbytes) :
    DeliversOnce (contents platform.image dentry.inodeNum)
      (readsOf state.caller fd trace) := by
  have sound := Reachable.sound ⟨start, _, began, before⟩
  obtain ⟨below, alive, desc⟩ := Machine.opened_desc sound opens onDisk found
  obtain ⟨used, position, table, inode⟩ := FdTable.openDesc_some desc
  rw [regular] at table
  have first : Reading platform.image dentry.inodeNum
      (opened.kernel.table state.caller fd) [] :=
    ⟨used, (Option.some.inj table).symm, inode regular, .nil, position,
      fun _ member => nomatch member⟩
  have accounts := Reading.accounts formed (formed.opened found regular)
    (⟨by omega, below⟩ : 0 ≤ fd ∧ fd ≤ maxFdNum)
  exact (accounts.run began (before.snoc opens) alive first later keeps
    counts).2.delivers

namespace Sample

theorem wellFormed : WellFormed image := by
  refine ⟨by decide +kernel, ?_⟩
  have last : ∀ index < numDentries image, dentryType image index = 2 →
      dentryInode image index = 0 := by decide +kernel
  intro index listed regular
  rw [last index listed regular]
  refine ⟨by decide +kernel, by decide +kernel, ?_⟩
  intro block inside
  have size : inodeSize image 0 = 40 := by decide +kernel
  have first : block = 0 := by
    simp only [size, fourKb] at inside
    omega
  rw [first]
  decide +kernel

theorem openShell_fires :
    (start.step platform (.openFile (some shellName))).isSome = true := rfl

def shellOpened : Machine := (fire start (.openFile (some shellName)) openShell_fires).after

theorem shell_found :
    readDentryByName platform.image shellName = some (copyDentry image 2) := by
  have second : findDentry platform.image shellName = some 2 := by decide +kernel
  rw [readDentryByName, second]
  rfl

def readShell : Event := .read 2 (some fun _ => 0) 30

theorem readShell_fires : (shellOpened.step platform readShell).isSome = true := rfl

theorem readAgain_fires :
    ((fire shellOpened readShell readShell_fires).after.step platform
      readShell).isSome = true := by
  decide +kernel

def twoReads : Trace :=
  [fire shellOpened readShell readShell_fires,
    fire (fire shellOpened readShell readShell_fires).after readShell readAgain_fires]

theorem twoReads_keep : ∀ transition ∈ twoReads, KeepsOpen 1 2 transition := by
  intro transition member
  rcases List.mem_cons.mp member with rfl | last
  · exact read_keeps readShell_fires ⟨by decide, by decide +kernel⟩
  · obtain rfl := List.mem_singleton.mp last
    exact read_keeps readAgain_fires ⟨by decide, by decide +kernel⟩

theorem twoReads_counts : ∀ read ∈ fdReads 1 2 twoReads, readCounts read.nbytes := by
  have counts : (fdReads 1 2 twoReads).map FdRead.nbytes = [30, 30] := by decide +kernel
  intro read member
  have listed : read.nbytes ∈ [30, (30 : Int)] := counts ▸ List.mem_map_of_mem member
  have thirty : read.nbytes = 30 := by simpa using listed
  rw [thirty]
  exact ⟨by decide, by decide⟩

end Sample

theorem deliversOnce_sample :
    (readsOf 1 2 Sample.twoReads).map ReadCall.value = [30, 10] ∧
      DeliversOnce (contents Sample.platform.image (copyDentry Sample.image 2).inodeNum)
        (readsOf 1 2 Sample.twoReads) := by
  refine ⟨by decide +kernel, ?_⟩
  have keeps := Sample.twoReads_keep
  have counts := Sample.twoReads_counts
  rw [← Sample.caller_start] at keeps counts ⊢
  exact Sample.launched.deliversOnce Sample.wellFormed (.nil _)
    (Sample.opens Sample.openShell_fires (by decide +kernel))
    (by decide) Sample.shell_found (by decide +kernel)
    (Sample.fire_twice _ _ _ Sample.readShell_fires Sample.readAgain_fires) keeps counts

end Ece391Os
