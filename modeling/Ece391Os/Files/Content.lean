import Ece391Os.Data.Pieces
import Ece391Os.Files.ReadData
import Ece391Os.Kernel.Machine

namespace Ece391Os

open Data

/-! The contents of a file, and what `read_data` delivers of them. -/

def blockCount (image : Memory) (inode : Nat) : Nat :=
  (fileSize image inode + (fourKb - 1)) / fourKb

def dataBlock (image : Memory) (inode index : Nat) : List UInt8 :=
  (List.range fourKb).map fun k =>
    image (dblockAddr image (blockNum image inode index) + k)

def fileContent (image : Memory) (inode : Nat) : List UInt8 :=
  ((List.range (blockCount image inode)).flatMap (dataBlock image inode)).take
    (fileSize image inode)

/-- Every inode of the image lists the data blocks of a file of at most 1023. -/
structure InodesFormed (image : Memory) : Prop where
  size : ∀ inode < numInodes image, fileSize image inode ≤ 1023 * fourKb
  blocks : ∀ inode < numInodes image, ∀ index < blockCount image inode,
    blockNum image inode index < numDblocks image

section Contents

variable {image : Memory} {inode : Nat}

theorem dataBlock_eq (image : Memory) (inode index : Nat) :
    dataBlock image inode index =
      (List.range fourKb).map fun k => fileByte image inode (index * fourKb + k) := by
  apply List.map_congr_left
  intro k member
  have inside : k < 4096 := List.mem_range.mp member
  have block : (index * fourKb + k) / fourKb = index := by
    simp only [fourKb]
    omega
  have within : (index * fourKb + k) % fourKb = k := by
    simp only [fourKb]
    omega
  rw [fileByte, block, within]

theorem fileContent_eq (image : Memory) (inode : Nat) :
    fileContent image inode =
      (List.range (fileSize image inode)).map (fileByte image inode) := by
  have enough : fileSize image inode ≤ blockCount image inode * fourKb := by
    simp only [blockCount, fourKb]
    omega
  have blocks : dataBlock image inode = fun index =>
      (List.range fourKb).map fun k => fileByte image inode (index * fourKb + k) :=
    funext (dataBlock_eq image inode)
  rw [fileContent, blocks, flatMap_blocks, ← List.map_take, List.take_range,
    Nat.min_eq_left enough]

theorem fileContent_getElem? {position : Nat} (inside : position < fileSize image inode) :
    (fileContent image inode)[position]? = some (fileByte image inode position) := by
  rw [fileContent_eq]
  simp [inside]

end Contents

/-- The bytes an iteration copies lie in a data block that the file's inode lists
for its contents. -/
def ReadLoop.FromFile (image : Memory) (inode stop : Nat) (loop : ReadLoop) : Prop :=
  ∃ index < blockCount image inode,
    loop.dblock = dblockAddr image (blockNum image inode index) ∧
      blockNum image inode index < numDblocks image ∧
      loop.cur % fourKb + copyLength stop loop.cur ≤ fourKb

theorem ReadLoop.At.fromFile {image : Memory} {inode offset total : Nat} {buf : Memory}
    {loop : ReadLoop} (at_ : loop.At image inode offset total buf)
    (formed : InodesFormed image) (valid : inode < numInodes image)
    (bound : total < 4294967296) (inside : offset + total ≤ fileSize image inode)
    (unfinished : loop.copiedLength ≠ total) :
    loop.FromFile image inode (wrap (offset + total)) := by
  have upper := at_.upper
  have listed : (offset + loop.copiedLength) / fourKb < blockCount image inode := by
    simp only [blockCount, fourKb]
    omega
  refine ⟨_, listed, at_.dblock unfinished, formed.blocks inode valid _ listed, ?_⟩
  rw [at_.copyLength_eq bound, at_.inBlock]
  simp only [fourKb]
  omega

structure ReadsContent (image : Memory) (inode offset length : Nat) (buf : Memory) : Prop where
  terminates : offset ≤ fileSize image inode →
    ∃ visited final, ReadLoop.Runs image (readEnd image inode offset length)
        (readStart image inode offset buf) visited final ∧
      readData image inode offset buf length = (i32 final.copiedLength, final.buf) ∧
      ∀ state ∈ visited, state.FromFile image inode (readEnd image inode offset length)
  ret : (readData image inode offset buf length).1 =
    if fileSize image inode ≤ offset then 0
    else (min length (fileSize image inode - offset) : Nat)
  copied : ∀ k < min length (fileSize image inode - offset),
    (fileContent image inode)[offset + k]? = some ((readData image inode offset buf length).2 k)
  kept : ∀ k, min length (fileSize image inode - offset) ≤ k →
    (readData image inode offset buf length).2 k = buf k

theorem InodesFormed.readsContent {image : Memory} {inode offset length : Nat}
    (formed : InodesFormed image) (valid : inode < numInodes image)
    (noWrap : offset + length < 4294967296) (buf : Memory) :
    ReadsContent image inode offset length buf := by
  have small := formed.size inode valid
  simp only [fourKb] at small
  have answer := readData_eq buf valid noWrap
  simp only [readCount] at answer
  have value : (readData image inode offset buf length).1 =
      i32 (min length (fileSize image inode - offset) : Nat) := by rw [answer]
  have bytes : (readData image inode offset buf length).2 =
      Memory.blit (fileByte image inode) offset buf 0
        (min length (fileSize image inode - offset)) := by rw [answer]
  refine ⟨?_, ?_, ?_, ?_⟩
  · intro inside
    have total := readTotal_eq_readCount inside noWrap
    obtain ⟨visited, final, runs, along, -, -, result⟩ :=
      readData_runs length buf valid inside
    refine ⟨visited, final, runs, result, ?_⟩
    intro state member
    obtain ⟨at_, unfinished⟩ := along state member
    rw [readEnd_eq length inside]
    refine at_.fromFile formed valid (readTotal_lt _ _ _ _) ?_ unfinished
    rw [total, readCount]
    omega
  · rw [value]
    split
    · rename_i past
      rw [Nat.sub_eq_zero_of_le past, Nat.min_zero]
      rfl
    · exact i32_of_bounds (by omega) (by omega)
  · intro k inside
    rw [bytes, Memory.blit_inside (by omega) (by omega), Nat.sub_zero]
    exact fileContent_getElem? (by omega)
  · intro k outside
    rw [bytes, Memory.blit_outside (by omega)]

/-- `read_data` on a well-formed image: the part of the file that was asked for,
and nothing for an inode number past the last. -/
theorem readData_correct {image : Memory} (formed : InodesFormed image)
    (inode offset length : Nat) (buf : Memory) (noWrap : offset + length ≤ 4294967295) :
    (inode < numInodes image → ReadsContent image inode offset length buf) ∧
      (numInodes image ≤ inode → readData image inode offset buf length = (-1, buf)) :=
  ⟨fun valid => formed.readsContent valid (by omega) buf,
    readData_invalid offset length buf⟩

theorem Sample.inodesFormed : InodesFormed Sample.image := by
  have single : numInodes Sample.image = 1 := by decide
  refine ⟨?_, ?_⟩
  · intro inode valid
    obtain rfl : inode = 0 := by omega
    decide
  · intro inode valid
    obtain rfl : inode = 0 := by omega
    decide

theorem readData_correct_sample :
    ReadsContent Sample.image 0 4 100 (fun _ => 7) ∧
      readData Sample.image 1 0 (fun _ => 7) 100 = (-1, fun _ => 7) :=
  ⟨(readData_correct Sample.inodesFormed 0 4 100 _ (by decide)).1 (by decide),
    (readData_correct Sample.inodesFormed 1 0 100 _ (by decide)).2 (by decide)⟩

end Ece391Os
