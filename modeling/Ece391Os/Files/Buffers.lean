import Ece391Os.Files.Directory
import Ece391Os.Files.Positions
import Ece391Os.Terminal.Separate

namespace Ece391Os

open Data

/-! The size a caller of `read` gives for its buffer. -/

/-- An answer to a read into `buf`: a value within `nbytes`, and no byte of the
buffer past them touched.  A null buffer faults at the first byte. -/
def AnswersWithin (buf : Option Memory) (nbytes : Int) : Reply → Prop
  | .ret value => value = -1 ∨ 0 ≤ value ∧ value ≤ nbytes
  | .read value bytes => (value = -1 ∨ 0 ≤ value ∧ value ≤ nbytes) ∧
      ∃ original, buf = some original ∧ ∀ k : Nat, nbytes ≤ k → bytes k = original k
  | .fault => buf = none
  | _ => False

def HonoursBuffer (platform : Platform) (machine : Machine) (fd : Int) (buf : Option Memory)
    (nbytes : Int) : Prop :=
  match (machine.kernel.read platform fd buf nbytes).2 with
  | .wait pending => ∀ later result, Reachable platform later →
      later.kernel.finishRead pending = some result → AnswersWithin buf nbytes result.2
  | reply => AnswersWithin buf nbytes reply

theorem honoursBuffer_iff_within {platform : Platform} {machine : Machine} {fd nbytes : Int}
    {buf : Option Memory}
    (returns : ∀ pending, (machine.kernel.read platform fd buf nbytes).2 ≠ .wait pending) :
    HonoursBuffer platform machine fd buf nbytes ↔
      AnswersWithin buf nbytes (machine.kernel.read platform fd buf nbytes).2 := by
  cases reply : (machine.kernel.read platform fd buf nbytes).2 with
  | wait pending => exact absurd reply (returns pending)
  | _ => simp only [HonoursBuffer, reply]

/-- A read of a directory entry into a buffer too small for its name. -/
def shortListing (image : Memory) (desc : FileDesc) (buf : Option Memory) (nbytes : Int) : Prop :=
  desc.jumpPtr = .dirTable ∧ desc.filePosition ≠ -1 ∧
    u32 desc.filePosition < numDentries image ∧ buf ≠ none ∧ nbytes < nameLength

section Devices

variable {image : Memory} {nbytes : Int}

theorem readTotal_le {inode position length : Nat}
    (inside : position ≤ fileSize image inode) (small : length < 4294967296) :
    readTotal image inode position length ≤ length := by
  rcases readTotal_cases inside small with ⟨_, total⟩ | ⟨_, total⟩
  · rw [total]
    exact Nat.min_le_left _ _
  · exact Nat.le_of_eq total

theorem readData_within (image : Memory) (inode position : Nat) {length : Nat}
    (buf : Memory) (small : length < 2147483648) :
    ((readData image inode position buf length).1 = -1 ∨
      0 ≤ (readData image inode position buf length).1 ∧
        (readData image inode position buf length).1 ≤ length) ∧
      ∀ k, length ≤ k → (readData image inode position buf length).2 k = buf k := by
  rcases Nat.lt_or_ge inode (numInodes image) with valid | invalid
  · rcases Nat.lt_or_ge (fileSize image inode) position with past | inside
    · rw [readData_past length buf valid past]
      exact ⟨.inr ⟨Int.le_refl 0, Int.natCast_nonneg length⟩, fun _ _ => rfl⟩
    · have total : readTotal image inode position length ≤ length :=
        readTotal_le inside (by omega)
      rw [readData_total length buf valid inside]
      generalize readTotal image inode position length = count at total
      have short : i32 (count : Nat) = count := i32_of_bounds (by omega) (by omega)
      simp only [short]
      refine ⟨.inr ⟨by omega, by omega⟩, ?_⟩
      intro k past
      exact Memory.blit_outside (by omega)
  · rw [readData_invalid position length buf invalid]
    exact ⟨.inl rfl, fun _ _ => rfl⟩

theorem fileRead_within (desc : FileDesc) (buf : Memory) (lower : 0 ≤ nbytes)
    (upper : nbytes < 2147483648) :
    ((fileRead image desc buf nbytes).ret = -1 ∨
      0 ≤ (fileRead image desc buf nbytes).ret ∧ (fileRead image desc buf nbytes).ret ≤ nbytes) ∧
      ∀ k : Nat, nbytes ≤ k → (fileRead image desc buf nbytes).buf k = buf k := by
  obtain ⟨length, rfl⟩ := Int.eq_ofNat_of_zero_le lower
  have word : u32 (length : Int) = length :=
    Int.ofNat_inj.mp (u32_of_bounds (by omega) (by omega))
  obtain ⟨value, kept⟩ := readData_within image (u32 desc.inode)
    (u32 desc.filePosition) buf (by omega : length < 2147483648)
  simp only [fileRead, word]
  split
  · exact ⟨.inl rfl, fun _ _ => rfl⟩
  · split
    · exact ⟨.inl rfl, fun k past => kept k (by omega)⟩
    · exact ⟨value, fun k past => kept k (by omega)⟩

theorem deliver_within {fdt : FdTable} {fd : Int} {buf : Option Memory}
    {answer : Memory → ReadResult}
    (within : ∀ bytes, ((answer bytes).ret = -1 ∨
      0 ≤ (answer bytes).ret ∧ (answer bytes).ret ≤ nbytes) ∧
        ∀ k : Nat, nbytes ≤ k → (answer bytes).buf k = bytes k) :
    AnswersWithin buf nbytes (fdt.deliver fd buf answer).2 := by
  cases buf with
  | none =>
      simp only [FdTable.deliver]
      split
      · rfl
      · exact (within _).1
  | some bytes => exact ⟨(within bytes).1, bytes, rfl, (within bytes).2⟩

theorem dirRead_listed {desc : FileDesc} (buf : Memory) (open_ : desc.filePosition ≠ -1)
    (listed : u32 desc.filePosition < numDentries image) :
    (dirRead image desc buf).ret = nameLength ∧
      ∀ k, nameLength ≤ k → (dirRead image desc buf).buf k = buf k := by
  have answer : dirRead image desc buf = ⟨nameLength,
      { desc with filePosition := i32 (desc.filePosition + 1) },
      strncpy buf (copyDentry image (u32 desc.filePosition)).fileName nameLength⟩ := by
    simp [dirRead, open_, Nat.not_le.mpr listed, readDentryByIndex]
  rw [answer]
  refine ⟨rfl, ?_⟩
  intro k past
  simp only [strncpy_apply, if_neg (Nat.not_lt.mpr past)]

theorem dirRead_rest {desc : FileDesc} (buf : Memory)
    (rest : desc.filePosition = -1 ∨ numDentries image ≤ u32 desc.filePosition) :
    ((dirRead image desc buf).ret = -1 ∨ (dirRead image desc buf).ret = 0) ∧
      (dirRead image desc buf).buf = buf := by
  by_cases closed : desc.filePosition = -1
  · simp [dirRead, closed]
  · have past := rest.resolve_left closed
    simp [dirRead, closed, past]

theorem dirRead_within_iff {fdt : FdTable} {fd : Int} (buf : Option Memory)
    (table : (fdt fd).jumpPtr = .dirTable) (lower : 0 ≤ nbytes) :
    AnswersWithin buf nbytes
        (fdt.deliver fd buf fun bytes => dirRead image (fdt fd) bytes).2 ↔
      ¬ shortListing image (fdt fd) buf nbytes := by
  cases buf with
  | none =>
      refine iff_of_true ?_ fun short => short.2.2.2.1 rfl
      simp only [FdTable.deliver]
      split
      · rfl
      · rename_i nothing
        simp only [AnswersWithin]
        omega
  | some bytes =>
      by_cases listed : (fdt fd).filePosition ≠ -1 ∧
          u32 (fdt fd).filePosition < numDentries image
      · obtain ⟨value, kept⟩ := dirRead_listed bytes listed.1 listed.2
        simp only [FdTable.deliver, AnswersWithin, value]
        constructor
        · rintro ⟨within, -⟩ ⟨_, _, _, _, small⟩
          omega
        · intro fits
          have room : (nameLength : Int) ≤ nbytes := by
            by_contra short
            exact fits ⟨table, listed.1, listed.2, by simp, by omega⟩
          exact ⟨.inr ⟨by omega, room⟩, bytes, rfl, fun k past => kept k (by omega)⟩
      · refine iff_of_true ?_ fun short => listed ⟨short.2.1, short.2.2.1⟩
        have rest : (fdt fd).filePosition = -1 ∨ numDentries image ≤ u32 (fdt fd).filePosition := by
          by_contra both
          exact listed ⟨fun closed => both (.inl closed), by omega⟩
        obtain ⟨value, kept⟩ := dirRead_rest bytes rest
        simp only [FdTable.deliver, AnswersWithin, kept]
        exact ⟨by omega, bytes, rfl, fun _ _ => rfl⟩

theorem deliver_returns (fdt : FdTable) (fd : Int) (buf : Option Memory)
    (answer : Memory → ReadResult) (pending : BlockedRead) :
    (fdt.deliver fd buf answer).2 ≠ .wait pending := by
  intro waits
  cases buf with
  | none =>
      simp only [FdTable.deliver] at waits
      split at waits
      · cases waits
      · cases waits
  | some bytes => cases waits

end Devices

/-! Every descriptor of a reachable state. -/

section Calls

variable {platform : Platform} {machine : Machine} {fd nbytes : Int} {buf : Option Memory}

theorem Console.terminalReadFinish_within {console : Console} (bytes : Memory)
    (lower : 0 ≤ nbytes) (typed : 0 ≤ console.viewed.bufIndex) :
    0 ≤ (console.terminalReadFinish bytes nbytes).1 ∧
      (console.terminalReadFinish bytes nbytes).1 ≤ nbytes ∧
      ∀ k : Nat, nbytes ≤ k → (console.terminalReadFinish bytes nbytes).2.1 k = bytes k := by
  by_cases fewer : nbytes < console.viewed.bufIndex
  · simp only [terminalReadFinish, if_pos fewer]
    exact ⟨lower, Int.le_refl _, fun k past => Memory.blit_outside (by omega)⟩
  · simp only [terminalReadFinish, if_neg fewer]
    exact ⟨typed, by omega, fun k past => Memory.blit_outside (by omega)⟩

theorem Reachable.finishRead_within {pending : BlockedRead} {result : Kernel × Reply}
    (reachable : Reachable platform machine) (lower : 0 ≤ nbytes)
    (waits : pending = .rtc ∨ ∃ bytes, buf = some bytes ∧ pending = .terminal bytes nbytes)
    (ready : machine.kernel.finishRead pending = some result) :
    AnswersWithin buf nbytes result.2 := by
  obtain ⟨line, count, rfl, -, rfl⟩ | ⟨rfl, -, rfl⟩ := Kernel.finishRead_cases ready
  · obtain waiting | ⟨bytes, rfl, waiting⟩ := waits
    · cases waiting
    · cases waiting
      obtain ⟨start, trace, began, run⟩ := reachable
      have typed := ((began.mappedAfter run).pending machine.kernel.console.curTerminal).1
      obtain ⟨least, most, kept⟩ := Console.terminalReadFinish_within line lower typed
      exact ⟨.inr ⟨least, most⟩, line, rfl, kept⟩
  · exact .inr ⟨Int.le_refl 0, lower⟩

theorem Reachable.read_reply (reachable : Reachable platform machine)
    (used : machine.callerTable.inUse fd) (buf : Option Memory) (nbytes : Int) :
    (machine.kernel.read platform fd buf nbytes).2 =
      match (machine.callerTable fd).jumpPtr with
      | .stdinTable =>
          match buf with
          | none => .ret (-1)
          | some bytes =>
              if nbytes < 0 then .ret (-1) else .wait (.terminal bytes nbytes)
      | .rtcTable => .wait .rtc
      | .fileTable => (machine.callerTable.deliver fd buf fun bytes =>
          fileRead platform.image (machine.callerTable fd) bytes nbytes).2
      | .dirTable => (machine.callerTable.deliver fd buf fun bytes =>
          dirRead platform.image (machine.callerTable fd) bytes).2
      | .stdoutTable => .ret (-1)
      | .wild => .fault := by
  obtain ⟨above, below, flags⟩ := used
  have address := (Kernel.currentPcb_running platform reachable.sound).1
  have own : (machine.kernel.pcbAt (machine.kernel.currentPcb platform)).fdt =
      machine.callerTable := by
    rw [address]
    rfl
  rw [(Kernel.read_table platform fd buf nbytes machine.kernel).2, own]
  simp only [FdTable.read]
  rw [if_neg (by omega), if_neg (by rw [flags]; decide)]
  cases (machine.callerTable fd).jumpPtr with
  | stdinTable =>
      cases buf with
      | none => rfl
      | some bytes =>
          simp only
          split <;> rfl
  | _ => rfl

theorem Reachable.not_wild (reachable : Reachable platform machine)
    (used : machine.callerTable.inUse fd) : (machine.callerTable fd).jumpPtr ≠ .wild := by
  have alive := Kernel.live_running reachable.sound
  obtain ⟨start, trace, began, run⟩ := reachable
  obtain ⟨above, below, flags⟩ := used
  obtain ⟨valid, opened⟩ := began.descriptorsAfter run alive
  intro wild
  rcases Int.lt_or_le fd 2 with low | high
  · obtain rfl | rfl : fd = 0 ∨ fd = 1 := by omega
    · have stdin : (machine.callerTable 0).jumpPtr = .stdinTable := valid.stdin.2
      rw [wild] at stdin
      cases stdin
    · have stdout : (machine.callerTable 1).jumpPtr = .stdoutTable := valid.stdout.2
      rw [wild] at stdout
      cases stdout
  · obtain ⟨_, _, _, _, record⟩ := opened fd high below flags
    obtain ⟨_, dentry, _, _, type, _⟩ := record.file
    have table : FdTable.typeTable dentry.fileType = some .wild := type.trans (congrArg some wild)
    simp only [FdTable.typeTable] at table
    split at table <;> cases table

theorem Reachable.listing_honours_iff (reachable : Reachable platform machine)
    (used : machine.callerTable.inUse fd) (buf : Option Memory)
    (table : (machine.callerTable fd).jumpPtr = .dirTable) (lower : 0 ≤ nbytes) :
    HonoursBuffer platform machine fd buf nbytes ↔
      ¬ shortListing platform.image (machine.callerTable fd) buf nbytes := by
  have answers := reachable.read_reply used buf nbytes
  simp only [table] at answers
  rw [honoursBuffer_iff_within (by rw [answers]; exact deliver_returns _ _ _ _), answers]
  exact dirRead_within_iff buf table lower

end Calls

/-- A read honours the size of the buffer unless it lists a directory entry into
fewer than 32 bytes. -/
theorem Reachable.honoursBuffer_iff {platform : Platform} {machine : Machine}
    {fd nbytes : Int} (reachable : Reachable platform machine)
    (used : machine.callerTable.inUse fd) (buf : Option Memory) (lower : 0 ≤ nbytes)
    (upper : nbytes < 2147483648) :
    HonoursBuffer platform machine fd buf nbytes ↔
      ¬ shortListing platform.image (machine.callerTable fd) buf nbytes := by
  have answers := reachable.read_reply used buf nbytes
  have elsewhere {other : JumpTable} (table : (machine.callerTable fd).jumpPtr = other)
      (honours : HonoursBuffer platform machine fd buf nbytes)
      (apart : other ≠ .dirTable) :
      HonoursBuffer platform machine fd buf nbytes ↔
        ¬ shortListing platform.image (machine.callerTable fd) buf nbytes :=
    iff_of_true honours fun short => apart (table.symm.trans short.1)
  cases table : (machine.callerTable fd).jumpPtr with
  | stdinTable =>
      refine elsewhere table ?_ (by decide)
      simp only [table] at answers
      cases buf with
      | none =>
          simp only [HonoursBuffer, answers]
          exact .inl rfl
      | some bytes =>
          simp only [if_neg (Int.not_lt.mpr lower)] at answers
          simp only [HonoursBuffer, answers]
          intro later result reached ready
          exact reached.finishRead_within lower (.inr ⟨bytes, rfl, rfl⟩) ready
  | rtcTable =>
      refine elsewhere table ?_ (by decide)
      simp only [table] at answers
      simp only [HonoursBuffer, answers]
      intro later result reached ready
      exact reached.finishRead_within lower (.inl rfl) ready
  | fileTable =>
      refine elsewhere table ?_ (by decide)
      simp only [table] at answers
      rw [honoursBuffer_iff_within (by rw [answers]; exact deliver_returns _ _ _ _), answers]
      exact deliver_within fun bytes => fileRead_within _ bytes lower upper
  | dirTable => exact reachable.listing_honours_iff used buf table lower
  | stdoutTable =>
      refine elsewhere table ?_ (by decide)
      simp only [table] at answers
      simp only [HonoursBuffer, answers]
      exact .inl rfl
  | wild => exact absurd table (reachable.not_wild used)

theorem honoursBuffer_sample :
    HonoursBuffer Sample.platform Sample.thirtyRead 2 (some fun _ => 0) 4 := by
  have used := Sample.thirtyRead_desc.1
  have regular := Sample.thirtyRead_desc.2.1
  have reachable : Reachable Sample.platform Sample.thirtyRead := Sample.reachable _ _
  have fits := reachable.honoursBuffer_iff used (some fun _ => 0)
    (by decide : (0 : Int) ≤ 4) (by decide)
  have regularOnly : ¬ shortListing Sample.platform.image (Sample.thirtyRead.callerTable 2)
      (some fun _ => 0) 4 := fun short => by
    have listing := short.1
    rw [regular] at listing
    cases listing
  rw [fits]
  exact regularOnly

def Sample.listing : Machine :=
  after [.openFile (some dotName)] (by decide +kernel)

theorem listing_overruns : Reachable Sample.platform Sample.listing ∧
    Sample.listing.callerTable.inUse 2 ∧
    ¬ HonoursBuffer Sample.platform Sample.listing 2 (some fun _ => 0) 4 := by
  have reachable : Reachable Sample.platform Sample.listing := Sample.reachable _ _
  have used : Sample.listing.callerTable.inUse 2 := ⟨by decide, by decide, by decide +kernel⟩
  have table : (Sample.listing.callerTable 2).jumpPtr = .dirTable := by decide +kernel
  have short : shortListing Sample.platform.image (Sample.listing.callerTable 2)
      (some fun _ => 0) 4 :=
    ⟨table, by decide +kernel, by decide +kernel, by simp, by decide⟩
  have fits := reachable.listing_honours_iff used (some fun _ => 0) table
    (by decide : (0 : Int) ≤ 4)
  exact ⟨reachable, used, fun honours => fits.mp honours short⟩

end Ece391Os
