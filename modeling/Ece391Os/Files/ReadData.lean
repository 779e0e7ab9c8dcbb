import Mathlib.Tactic.Linarith
import Ece391Os.Kernel.FileSystem

namespace Ece391Os

open Data

/-! What `read_data` computes. -/

def blockNum (image : Memory) (inode index : Nat) : Nat :=
  image.word (inodeAddr inode + 4 + 4 * index)

def fileByte (image : Memory) (inode position : Nat) : UInt8 :=
  image (dblockAddr image (blockNum image inode (position / fourKb)) +
    position % fourKb)

theorem u32_of_bounds {value : Int} (lower : 0 ≤ value) (upper : value < 4294967296) :
    (u32 value : Int) = value := by
  simp only [u32]
  omega

theorem i32_of_bounds {value : Int} (lower : 0 ≤ value) (upper : value < 2147483648) :
    i32 value = value := by
  simp only [i32, Int.bmod]
  omega

/-- The loop of `read_data` between iterations, on its way to deliver `total`
bytes: the position is kept modulo 2^32, everything before it has been delivered
and, unless the loop is over, `dblock` is the block it lies in. -/
structure ReadLoop.At (image : Memory) (inode offset total : Nat) (buf : Memory)
    (loop : ReadLoop) : Prop where
  cur : loop.cur = wrap (offset + loop.copiedLength)
  upper : loop.copiedLength ≤ total
  numAddr : loop.copiedLength ≠ total →
    loop.numAddr = inodeAddr inode + 4 + 4 * ((offset + loop.copiedLength) / fourKb)
  dblock : loop.copiedLength ≠ total →
    loop.dblock = dblockAddr image
      (blockNum image inode ((offset + loop.copiedLength) / fourKb))
  buf : loop.buf = Memory.blit (fileByte image inode) offset buf 0 loop.copiedLength

/-- `while(cur != end)` as the source has it, with the states whose iterations it
executes. -/
inductive ReadLoop.Runs (image : Memory) (stop : Nat) :
    ReadLoop → List ReadLoop → ReadLoop → Prop
  | done {loop : ReadLoop} (reached : loop.cur = stop) : Runs image stop loop [] loop
  | iterate {loop final : ReadLoop} {rest : List ReadLoop} (unfinished : loop.cur ≠ stop)
      (more : Runs image stop (readIteration image stop loop) rest final) :
      Runs image stop loop (loop :: rest) final

namespace ReadLoop

variable {image : Memory} {inode offset total : Nat} {buf : Memory} {loop : ReadLoop}

theorem At.cur_eq_iff (at_ : loop.At image inode offset total buf)
    (bound : total < 4294967296) :
    loop.cur = wrap (offset + total) ↔ loop.copiedLength = total := by
  have upper := at_.upper
  rw [at_.cur]
  simp only [wrap]
  omega

theorem At.inBlock (at_ : loop.At image inode offset total buf) :
    loop.cur % fourKb = (offset + loop.copiedLength) % fourKb := by
  rw [at_.cur]
  simp only [wrap, fourKb]
  omega

theorem At.copyLength_eq (at_ : loop.At image inode offset total buf)
    (bound : total < 4294967296) :
    copyLength (wrap (offset + total)) loop.cur =
      min (fourKb - (offset + loop.copiedLength) % fourKb) (total - loop.copiedLength) := by
  have upper := at_.upper
  have distance : wrap (wrap (offset + total) + 4294967296 - loop.cur) =
      total - loop.copiedLength := by
    rw [at_.cur]
    simp only [wrap]
    omega
  simp only [copyLength, distance, at_.inBlock]
  split <;> omega

theorem At.copied_iteration (at_ : loop.At image inode offset total buf)
    (bound : total < 4294967296) :
    (readIteration image (wrap (offset + total)) loop).copiedLength = loop.copiedLength +
      min (fourKb - (offset + loop.copiedLength) % fourKb) (total - loop.copiedLength) := by
  have upper := at_.upper
  simp only [readIteration, at_.copyLength_eq bound]
  simp only [wrap]
  omega

theorem At.iteration (at_ : loop.At image inode offset total buf)
    (bound : total < 4294967296) (unfinished : loop.copiedLength ≠ total) :
    (readIteration image (wrap (offset + total)) loop).At image inode offset total buf := by
  have upper := at_.upper
  have moved := at_.copied_iteration bound
  set next := readIteration image (wrap (offset + total)) loop with nextDef
  have block : next.copiedLength ≠ total →
      (offset + next.copiedLength) / fourKb = (offset + loop.copiedLength) / fourKb + 1 := by
    rw [moved]
    simp only [fourKb]
    omega
  have entry : next.copiedLength ≠ total →
      next.numAddr = inodeAddr inode + 4 + 4 * ((offset + next.copiedLength) / fourKb) := by
    intro more
    rw [block more]
    simp only [nextDef, readIteration, at_.numAddr unfinished]
    omega
  refine ⟨?_, by omega, entry, ?_, ?_⟩
  · rw [moved, nextDef]
    simp only [readIteration, at_.copyLength_eq bound]
    rw [at_.cur]
    simp only [wrap]
    omega
  · intro more
    simp only [blockNum]
    rw [← entry more]
    rfl
  · rw [moved, nextDef]
    simp only [readIteration, at_.copyLength_eq bound, at_.buf, at_.dblock unfinished,
      at_.inBlock]
    apply Memory.blit_append
    intro k kBound
    have sameBlock : (offset + loop.copiedLength + k) / fourKb =
        (offset + loop.copiedLength) / fourKb := by
      simp only [fourKb] at kBound ⊢
      omega
    have sameOffset : (offset + loop.copiedLength + k) % fourKb =
        (offset + loop.copiedLength) % fourKb + k := by
      simp only [fourKb] at kBound ⊢
      omega
    rw [fileByte, sameBlock, sameOffset, Nat.add_assoc]

/-- With fuel for the remaining bytes the loop delivers them all, and every
iteration it executes is on the way. -/
theorem At.readWhile (at_ : loop.At image inode offset total buf)
    (bound : total < 4294967296) (fuel : Nat) (enough : total - loop.copiedLength ≤ fuel) :
    ∃ visited, Runs image (wrap (offset + total)) loop visited
        (Ece391Os.readWhile image (wrap (offset + total)) fuel loop) ∧
      (∀ state ∈ visited, state.At image inode offset total buf ∧
        state.copiedLength ≠ total) ∧
      (Ece391Os.readWhile image (wrap (offset + total)) fuel loop).At
        image inode offset total buf ∧
      (Ece391Os.readWhile image (wrap (offset + total)) fuel loop).copiedLength = total := by
  induction fuel generalizing loop with
  | zero =>
      have upper := at_.upper
      have all : loop.copiedLength = total := by omega
      exact ⟨[], .done ((at_.cur_eq_iff bound).mpr all), by simp, at_, all⟩
  | succ fuel induction =>
      simp only [Ece391Os.readWhile]
      split
      · rename_i reached
        exact ⟨[], .done reached, by simp, at_, (at_.cur_eq_iff bound).mp reached⟩
      · rename_i unfinished
        have upper := at_.upper
        have more : loop.copiedLength ≠ total :=
          fun all => unfinished ((at_.cur_eq_iff bound).mpr all)
        have moved := at_.copied_iteration bound
        have closer : total - (readIteration image (wrap (offset + total)) loop).copiedLength ≤
            fuel := by
          rw [moved]
          simp only [fourKb]
          omega
        obtain ⟨visited, rest, along, final, all⟩ :=
          induction (at_.iteration bound more) closer
        refine ⟨loop :: visited, .iterate unfinished rest, ?_, final, all⟩
        intro state member
        rcases List.mem_cons.mp member with rfl | later
        · exact ⟨at_, more⟩
        · exact along state later

end ReadLoop

def readEnd (image : Memory) (inode offset length : Nat) : Nat :=
  if fileSize image inode < wrap (offset + length) then fileSize image inode
  else wrap (offset + length)

/-- The bytes between an offset and `end`, modulo 2^32. -/
def readTotal (image : Memory) (inode offset length : Nat) : Nat :=
  wrap (readEnd image inode offset length + 4294967296 - offset)

def readStart (image : Memory) (inode offset : Nat) (buf : Memory) : ReadLoop where
  cur := offset
  copiedLength := 0
  numAddr := inodeAddr inode + 4 + 4 * (offset / fourKb)
  dblock := dblockAddr image (image.word (inodeAddr inode + 4 + 4 * (offset / fourKb)))
  buf := buf

theorem readTotal_lt (image : Memory) (inode offset length : Nat) :
    readTotal image inode offset length < 4294967296 :=
  Nat.mod_lt _ (by decide)

theorem readEnd_eq {image : Memory} {inode offset : Nat} (length : Nat)
    (inside : offset ≤ fileSize image inode) :
    readEnd image inode offset length =
      wrap (offset + readTotal image inode offset length) := by
  have sizeBound : fileSize image inode < 4294967296 := Memory.word_lt _ _
  have bound : readEnd image inode offset length < 4294967296 := by
    simp only [readEnd]
    split
    · exact sizeBound
    · exact Nat.mod_lt _ (by decide)
  simp only [readTotal, wrap]
  omega

theorem readStart_at {image : Memory} {inode offset : Nat} (total : Nat) (buf : Memory)
    (below : offset < 4294967296) :
    (readStart image inode offset buf).At image inode offset total buf := by
  refine ⟨?_, Nat.zero_le _, fun _ => rfl, fun _ => rfl, ?_⟩
  · simp only [readStart, wrap]
    omega
  · simp [readStart]

theorem readData_runs {image : Memory} {inode offset : Nat} (length : Nat) (buf : Memory)
    (valid : inode < numInodes image) (inside : offset ≤ fileSize image inode) :
    ∃ visited final,
      ReadLoop.Runs image (readEnd image inode offset length)
        (readStart image inode offset buf) visited final ∧
      (∀ state ∈ visited,
        state.At image inode offset (readTotal image inode offset length) buf ∧
          state.copiedLength ≠ readTotal image inode offset length) ∧
      final.At image inode offset (readTotal image inode offset length) buf ∧
      final.copiedLength = readTotal image inode offset length ∧
      readData image inode offset buf length = (i32 final.copiedLength, final.buf) := by
  have sizeBound : fileSize image inode < 4294967296 := Memory.word_lt _ _
  have bound := readTotal_lt image inode offset length
  have start : (readStart image inode offset buf).At image inode offset
      (readTotal image inode offset length) buf :=
    readStart_at _ buf (by omega)
  obtain ⟨visited, runs, along, final, all⟩ := start.readWhile bound _ (Nat.sub_le _ _)
  rw [← readEnd_eq length inside] at runs final all
  refine ⟨visited, _, runs, along, final, all, ?_⟩
  simp only [readData, Nat.not_le.mpr valid, Nat.not_lt.mpr inside, if_false]
  rfl

theorem readData_total {image : Memory} {inode offset : Nat} (length : Nat) (buf : Memory)
    (valid : inode < numInodes image) (inside : offset ≤ fileSize image inode) :
    readData image inode offset buf length =
      (i32 (readTotal image inode offset length),
        Memory.blit (fileByte image inode) offset buf 0
          (readTotal image inode offset length)) := by
  obtain ⟨_, final, _, _, at_, all, result⟩ := readData_runs length buf valid inside
  rw [result, at_.buf, all]

theorem readData_past {image : Memory} {inode offset : Nat} (length : Nat) (buf : Memory)
    (valid : inode < numInodes image) (past : fileSize image inode < offset) :
    readData image inode offset buf length = (0, buf) := by
  simp [readData, Nat.not_le.mpr valid, past]

def readCount (image : Memory) (inode offset length : Nat) : Nat :=
  min length (fileSize image inode - offset)

theorem readTotal_eq_readCount {image : Memory} {inode offset length : Nat}
    (inside : offset ≤ fileSize image inode) (noWrap : offset + length < 4294967296) :
    readTotal image inode offset length = readCount image inode offset length := by
  have sizeBound : fileSize image inode < 4294967296 := Memory.word_lt _ _
  have sum : wrap (offset + length) = offset + length := Nat.mod_eq_of_lt noWrap
  simp only [readTotal, readEnd, readCount, sum]
  split
  · simp only [wrap]
    omega
  · simp only [wrap]
    omega

theorem readData_eq {image : Memory} {inode offset length : Nat} (buf : Memory)
    (valid : inode < numInodes image) (noWrap : offset + length < 4294967296) :
    readData image inode offset buf length =
      (i32 (readCount image inode offset length),
        Memory.blit (fileByte image inode) offset buf 0
          (readCount image inode offset length)) := by
  rcases Nat.lt_or_ge (fileSize image inode) offset with past | inside
  · have nothing : readCount image inode offset length = 0 := by
      simp only [readCount]
      omega
    rw [readData_past length buf valid past, nothing, Memory.blit_zero]
    rfl
  · rw [readData_total length buf valid inside, readTotal_eq_readCount inside noWrap]

theorem readData_invalid {image : Memory} {inode : Nat} (offset length : Nat)
    (buf : Memory) (invalid : numInodes image ≤ inode) :
    readData image inode offset buf length = (-1, buf) := by
  simp [readData, invalid]

theorem readData_ret_ne {image : Memory} {inode offset length : Nat} (buf : Memory)
    (valid : inode < numInodes image) (noWrap : offset + length < 4294967296)
    (small : length < 2147483648) :
    (readData image inode offset buf length).1 ≠ -1 := by
  have bounded : readCount image inode offset length ≤ length := Nat.min_le_left _ _
  rw [readData_eq buf valid noWrap, i32_of_bounds (by omega) (by omega)]
  omega

end Ece391Os
