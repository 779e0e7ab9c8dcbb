import Mathlib.Data.List.TakeWhile
import Ece391Os.Files.Held

namespace Ece391Os

open Data

/-! Names in the directory.  A name field holds up to 32 bytes, with a NUL after
them only if there is room for it. -/

def fieldBytes (field : Memory) : List UInt8 :=
  ((List.range nameLength).map field).takeWhile (· ≠ 0)

def fieldString (field : Memory) : CString where
  bytes := fieldBytes field
  nonzero := fun byte member => by simpa using List.mem_takeWhile_imp member

theorem takeWhile_eq_iff {α : Type} {p : α → Bool} {whole run : List α}
    (keeps : ∀ item ∈ run, p item = true) :
    whole.takeWhile p = run ↔
      run <+: whole ∧ ∀ item, whole[run.length]? = some item → p item = false := by
  induction whole generalizing run with
  | nil =>
      constructor
      · rintro rfl
        simp
      · intro ends
        rw [List.prefix_nil.mp ends.1]
        rfl
  | cons first rest induction =>
      cases run with
      | nil => simp [List.takeWhile_cons]
      | cons head tail =>
          have more := @induction tail fun item member =>
            keeps item (List.mem_cons_of_mem _ member)
          have kept := keeps head List.mem_cons_self
          rw [List.takeWhile_cons, List.cons_prefix_cons]
          constructor
          · intro same
            split at same
            · obtain ⟨rfl, tails⟩ := List.cons.inj same
              obtain ⟨starts, ends⟩ := more.mp tails
              exact ⟨⟨rfl, starts⟩, by simpa using ends⟩
            · cases same
          · rintro ⟨⟨rfl, starts⟩, ends⟩
            rw [if_pos kept, more.mpr ⟨starts, by simpa using ends⟩]

/-- A field holds a string when it starts with it and, if there is room, ends
it with a NUL. -/
theorem fieldBytes_eq_iff {field : Memory} {name : CString} (short : name.strlen ≤ nameLength) :
    fieldBytes field = name.bytes ↔
      (∀ k < name.strlen, field k = name.memory k) ∧
        (name.strlen < nameLength → field name.strlen = 0) := by
  have keeps : ∀ byte ∈ name.bytes, decide (byte ≠ 0) = true := fun byte member =>
    decide_eq_true (name.nonzero byte member)
  have read (k : Nat) : ((List.range nameLength).map field)[k]? =
      if k < nameLength then some (field k) else none := by
    split <;> simp [*]
  rw [fieldBytes, takeWhile_eq_iff keeps, List.prefix_iff_getElem?]
  simp only [read, CString.strlen] at short ⊢
  constructor
  · rintro ⟨starts, ends⟩
    constructor
    · intro k inside
      have same := starts k inside
      rw [if_pos (by omega)] at same
      rw [CString.memory_eq inside]
      exact Option.some.inj same
    · intro room
      simpa using ends (field name.bytes.length) (if_pos room)
  · rintro ⟨starts, ends⟩
    constructor
    · intro k inside
      rw [if_pos (by omega), starts k inside, CString.memory_eq inside]
    · intro item last
      split at last
      · rename_i room
        obtain rfl := Option.some.inj last
        simpa using ends room
      · cases last

/-- `find_dentry` accepts the entries whose field holds the name. -/
theorem dentryMatches_iff {image : Memory} {name : CString} {index : Nat}
    (short : name.strlen ≤ nameLength) :
    dentryMatches image name index = true ↔
      fieldBytes (dentryName image index) = name.bytes := by
  have past := name.memory_strlen
  rw [fieldBytes_eq_iff short, dentryMatches, decide_eq_true_eq, strncmp_eq_zero,
    strncmp_eq_zero]
  constructor
  · rintro ⟨-, agree⟩
    have starts : ∀ k < name.strlen, dentryName image index k = name.memory k := by
      intro k
      induction k using Nat.strongRecOn with
      | ind k induction =>
          intro inside
          apply agree k (by omega)
          intro j earlier
          rw [induction j earlier (by omega)]
          exact CString.memory_ne_zero (by omega)
    refine ⟨starts, fun room => ?_⟩
    rw [agree name.strlen room fun j earlier => starts j earlier ▸ CString.memory_ne_zero earlier, past]
  · rintro ⟨starts, ends⟩
    refine ⟨fun k inside _ => starts k inside, ?_⟩
    intro k inside clear
    rcases Nat.lt_trichotomy k name.strlen with before | here | after
    · exact starts k before
    · rw [here, past]
      exact ends (by omega)
    · exact absurd (ends (by omega)) (clear name.strlen after)

theorem strlen_fieldString (field : Memory) : (fieldString field).strlen ≤ nameLength := by
  have short := (List.takeWhile_sublist (l := (List.range nameLength).map field)
    (fun byte => decide (byte ≠ 0))).length_le
  rwa [List.length_map, List.length_range] at short

theorem fieldBytes_padded {field filled : Memory}
    (pads : ∀ k < nameLength, filled k = padded field k) :
    fieldBytes filled = fieldBytes field := by
  have short := strlen_fieldString field
  obtain ⟨starts, ends⟩ := (fieldBytes_eq_iff short).mp rfl
  apply (fieldBytes_eq_iff short).mpr
  constructor
  · intro k inside
    have clear : ¬ ∃ j < k + 1, field j = 0 := by
      rintro ⟨j, bound, zero⟩
      rw [starts j (by omega)] at zero
      exact CString.memory_ne_zero (by omega) zero
    rw [pads k (by omega), padded, if_neg clear, starts k inside]
  · intro room
    rw [pads _ room, padded, if_pos ⟨_, Nat.lt_succ_self _, ends room⟩]

theorem padded_strncpy {dest src : Memory} {n k : Nat} (inside : k < n) :
    padded (strncpy dest src n) k = padded src k := by
  have copied {j : Nat} (bound : j < k + 1) : strncpy dest src n j = padded src j := by
    rw [strncpy_apply, if_pos (by omega)]
  have same : (∃ j < k + 1, strncpy dest src n j = 0) ↔ ∃ j < k + 1, src j = 0 := by
    constructor
    · rintro ⟨j, bound, zero⟩
      rw [copied bound, padded] at zero
      split at zero
      · rename_i ended
        obtain ⟨i, earlier, nul⟩ := ended
        exact ⟨i, by omega, nul⟩
      · exact ⟨j, bound, zero⟩
    · rintro ⟨j, bound, zero⟩
      exact ⟨j, bound, by rw [copied bound, padded, if_pos ⟨j, Nat.lt_succ_self j, zero⟩]⟩
  by_cases ended : ∃ j < k + 1, src j = 0
  · rw [padded, if_pos (same.mpr ended), padded, if_pos ended]
  · rw [padded, if_neg fun copy => ended (same.mp copy), copied (Nat.lt_succ_self k)]

def DistinctNames (image : Memory) : Prop :=
  ∀ i < numDentries image, ∀ j < numDentries image,
    fieldBytes (dentryName image i) = fieldBytes (dentryName image j) → i = j

theorem findDentry_field {image field : Memory} {index : Nat} (distinct : DistinctNames image)
    (listed : index < numDentries image)
    (holds : fieldBytes field = fieldBytes (dentryName image index)) :
    findDentry image (fieldString field) = some index := by
  have short := strlen_fieldString field
  have named {i : Nat} : dentryMatches image (fieldString field) i = true ↔
      fieldBytes (dentryName image i) = fieldBytes (dentryName image index) := by
    rw [dentryMatches_iff short, ← holds]
    rfl
  cases found : findDentry image (fieldString field) with
  | none =>
      have refused := List.find?_eq_none.mp found index (List.mem_range.mpr listed)
      exact absurd (named.mpr rfl) refused
  | some first =>
      have inside := List.mem_range.mp (List.mem_of_find?_eq_some found)
      have same := named.mp (List.find?_some found)
      rw [distinct first inside index listed same]

/-! The reads of a directory descriptor. -/

/-- A read that returned: its value, and the caller's buffer before and after. -/
structure DirCall where
  value : Int
  buf : Option Memory
  filled : Option Memory

namespace DirCall

def returned (read : FdRead) : Option DirCall :=
  match read.reply with
  | .read value filled => some ⟨value, read.buf, some filled⟩
  | .ret value => some ⟨value, read.buf, read.buf⟩
  | _ => none

def Lists (image : Memory) (index : Nat) (call : DirCall) : Prop :=
  if index < numDentries image then
    call.value = nameLength ∧ ∃ buf filled, call.buf = some buf ∧
      call.filled = some filled ∧
      (∀ k < nameLength, filled k = padded (dentryName image index) k) ∧
      ∀ k, nameLength ≤ k → filled k = buf k
  else call.value = 0 ∧ call.filled = call.buf

end DirCall

structure Listing (image : Memory) (desc : FileDesc) (calls : List DirCall) : Prop where
  used : desc.flags = 1
  table : desc.jumpPtr = .dirTable
  position : desc.filePosition = (min calls.length (numDentries image) : Nat)
  entries : ∀ before call after, calls = before ++ call :: after →
    call.Lists image before.length

namespace Listing

variable {image : Memory} {desc : FileDesc} {calls : List DirCall}

theorem snoc (listing : Listing image desc calls) {call : DirCall}
    (lists : call.Lists image calls.length) (position : Int)
    (moved : position = (min (calls.length + 1) (numDentries image) : Nat)) :
    Listing image { desc with filePosition := position } (calls ++ [call]) := by
  refine ⟨listing.used, listing.table, ?_, ?_⟩
  · rw [List.length_append, List.length_singleton]
    exact moved
  · intro before other after split
    rcases List.eq_nil_or_concat after with rfl | ⟨rest, last, rfl⟩
    · obtain ⟨rfl, same⟩ := List.append_inj' split rfl
      obtain rfl := List.singleton_inj.mp same
      exact lists
    · have shorter : calls ++ [call] = (before ++ other :: rest) ++ [last] := by
        simpa using split
      obtain ⟨same, -⟩ := List.append_inj' shorter rfl
      exact listing.entries before other rest same

theorem dirRead_eq (listing : Listing image desc calls) (few : numDentries image ≤ 63)
    (buf : Memory) :
    dirRead image desc buf =
      if calls.length < numDentries image then
        ⟨nameLength, { desc with filePosition := (calls.length + 1 : Nat) },
          strncpy buf (copyDentry image calls.length).fileName nameLength⟩
      else ⟨0, desc, buf⟩ := by
  have position := listing.position
  have stays : desc.filePosition ≠ -1 := by omega
  have word : (u32 desc.filePosition : Int) = desc.filePosition :=
    u32_of_bounds (by omega) (by omega)
  simp only [dirRead, stays, if_false]
  split
  · rw [if_neg (by omega)]
  · have index : u32 desc.filePosition = calls.length := by omega
    have next : i32 (desc.filePosition + 1) = (calls.length + 1 : Nat) := by
      rw [i32_of_bounds (by omega) (by omega)]
      omega
    rw [if_pos (by omega), index, readDentryByIndex, if_neg (by omega), next]

theorem read {fdt : FdTable} {fd : Int} (listing : Listing image (fdt fd) calls)
    (few : numDentries image ≤ 63) (range : 0 ≤ fd ∧ fd ≤ maxFdNum)
    (buf : Option Memory) (nbytes : Int) :
    Listing image ((FdTable.read image fd buf nbytes fdt).1 fd)
      (calls ++ (DirCall.returned
        ⟨buf, nbytes, (FdTable.read image fd buf nbytes fdt).2⟩).toList) := by
  have position := listing.position
  have answer (bytes : Memory) := listing.dirRead_eq few bytes
  have whole : FdTable.read image fd buf nbytes fdt =
      fdt.deliver fd buf fun bytes => dirRead image (fdt fd) bytes := by
    simp only [FdTable.read]
    rw [if_neg (by omega), if_neg (by rw [listing.used]; decide), listing.table]
  rw [whole]
  by_cases left : calls.length < numDentries image
  · simp only [if_pos left] at answer
    cases buf with
    | none =>
        have faults : ((nameLength : Nat) : Int) ≠ 0 ∧ ((nameLength : Nat) : Int) ≠ -1 := by
          decide
        simp only [FdTable.deliver, answer]
        rw [if_pos faults]
        simpa [DirCall.returned] using listing
    | some bytes =>
        simp only [FdTable.deliver, answer, DirCall.returned, Option.toList_some,
          Function.update_self]
        apply listing.snoc
        · rw [DirCall.Lists, if_pos left]
          refine ⟨rfl, bytes, _, rfl, rfl, ?_, ?_⟩
          · intro k inside
            rw [strncpy_apply, if_pos inside, copyDentry, padded_strncpy inside]
          · intro k outside
            rw [strncpy_apply, if_neg (by omega)]
        · omega
  · simp only [if_neg left] at answer
    have done {call : DirCall} (value : call.value = 0) (same : call.filled = call.buf) :
        Listing image (fdt fd) (calls ++ [call]) := by
      have lists : call.Lists image calls.length := by
        rw [DirCall.Lists, if_neg left]
        exact ⟨value, same⟩
      exact listing.snoc lists (fdt fd).filePosition (by omega)
    cases buf with
    | none =>
        simp only [FdTable.deliver, answer, ne_eq, not_true, false_and, if_false,
          DirCall.returned, Option.toList_some, Function.update_self]
        exact done rfl rfl
    | some bytes =>
        simp only [FdTable.deliver, answer, DirCall.returned, Option.toList_some,
          Function.update_self]
        exact done rfl rfl

theorem accounts {fd : Int} (few : numDentries image ≤ 63)
    (range : 0 ≤ fd ∧ fd ≤ maxFdNum) :
    Accounts image fd (fun _ => True) fun desc reads =>
      Listing image desc (reads.filterMap DirCall.returned) := by
  constructor
  · intro desc reads listing
    exact listing.used
  · intro fdt reads buf nbytes listing _
    rw [List.filterMap_append]
    exact listing.read few range buf nbytes

end Listing

def dirReadsOf (pid fd : Int) (trace : Trace) : List DirCall :=
  (fdReads pid fd trace).filterMap DirCall.returned

/-- Reads that enumerate the directory, each entry under a name that leads back
to it. -/
structure Enumerates (image : Memory) (calls : List DirCall) : Prop where
  entries : ∀ before call after, calls = before ++ call :: after →
    call.Lists image before.length
  lookups : DistinctNames image → ∀ before call after filled,
    calls = before ++ call :: after → before.length < numDentries image →
    call.filled = some filled →
    ∃ byName byIndex, readDentryByName image (fieldString filled) = some byName ∧
      readDentryByIndex image before.length = some byIndex ∧
      byName.fileType = byIndex.fileType ∧ byName.inodeNum = byIndex.inodeNum

theorem Listing.lists {image : Memory} {desc : FileDesc} {calls : List DirCall}
    (listing : Listing image desc calls) : Enumerates image calls := by
  refine ⟨listing.entries, ?_⟩
  intro distinct before call after filled split listed returned
  have lists := listing.entries before call after split
  rw [DirCall.Lists, if_pos listed] at lists
  obtain ⟨-, buf, other, -, same, pads, -⟩ := lists
  obtain rfl := Option.some.inj (returned.symm.trans same)
  refine ⟨copyDentry image before.length, copyDentry image before.length, ?_, ?_, rfl, rfl⟩
  · rw [readDentryByName, findDentry_field distinct listed (fieldBytes_padded pads)]
    rfl
  · rw [readDentryByIndex, if_neg (by omega)]

/-- Whatever runs in between, the reads of a descriptor that `open` returned for
the directory enumerate it. -/
theorem Launched.enumerates {platform : Platform} {start state opened machine : Machine}
    {earlier trace : Trace} {name : CString} {dentry : Dentry} {fd : Int}
    (few : numDentries platform.image ≤ 63) (began : Launched platform start)
    (before : Run (Machine.step platform) start earlier state)
    (opens : state.step platform (.openFile (some name)) = some (opened, .ret fd))
    (onDisk : 2 ≤ fd) (found : readDentryByName platform.image name = some dentry)
    (directory : dentry.fileType = 1)
    (later : Run (Machine.step platform) opened trace machine)
    (keeps : ∀ transition ∈ trace, KeepsOpen state.caller fd transition) :
    Enumerates platform.image (dirReadsOf state.caller fd trace) := by
  have sound := Reachable.sound ⟨start, _, began, before⟩
  obtain ⟨below, alive, desc⟩ := Machine.opened_desc sound opens onDisk found
  obtain ⟨used, position, table, -⟩ := FdTable.openDesc_some desc
  rw [directory] at table
  have first : Listing platform.image (opened.kernel.table state.caller fd) [] := by
    refine ⟨used, (Option.some.inj table).symm, by simpa using position, ?_⟩
    intro front call after split
    simp at split
  have accounts := Listing.accounts few (⟨by omega, below⟩ : 0 ≤ fd ∧ fd ≤ maxFdNum)
  exact (accounts.run began (before.snoc opens) alive first later keeps
    fun _ _ => trivial).2.lists

namespace Sample

def dotName : CString := ⟨[46], by simp⟩

theorem openDot_fires : (start.step platform (.openFile (some dotName))).isSome = true := rfl

def dotOpened : Machine := (fire start (.openFile (some dotName)) openDot_fires).after

theorem dot_found : readDentryByName platform.image dotName = some (copyDentry image 0) := by
  have first : findDentry platform.image dotName = some 0 := by decide +kernel
  rw [readDentryByName, first]
  rfl

def readDot : Event := .read 2 (some fun _ => 1) 32

theorem readDot_fires : (dotOpened.step platform readDot).isSome = true := rfl

theorem readOn_fires :
    ((fire dotOpened readDot readDot_fires).after.step platform readDot).isSome = true := rfl

def twoEntries : Trace :=
  [fire dotOpened readDot readDot_fires,
    fire (fire dotOpened readDot readDot_fires).after readDot readOn_fires]

theorem twoEntries_keep : ∀ transition ∈ twoEntries, KeepsOpen 1 2 transition := by
  intro transition member
  rcases List.mem_cons.mp member with rfl | last
  · exact read_keeps readDot_fires ⟨by decide, by decide +kernel⟩
  · obtain rfl := List.mem_singleton.mp last
    exact read_keeps readOn_fires ⟨by decide, by decide +kernel⟩

theorem distinctNames : DistinctNames image := by
  have names : ∀ i < 3, ∀ j < 3,
      fieldBytes (dentryName image i) = fieldBytes (dentryName image j) → i = j := by
    decide +kernel
  have three : numDentries image = 3 := by decide +kernel
  rw [DistinctNames, three]
  exact names

end Sample

theorem enumerates_sample :
    (dirReadsOf 1 2 Sample.twoEntries).map DirCall.value = [32, 32] ∧
      DistinctNames Sample.image ∧
      Enumerates Sample.platform.image (dirReadsOf 1 2 Sample.twoEntries) := by
  refine ⟨by decide +kernel, Sample.distinctNames, ?_⟩
  have keeps := Sample.twoEntries_keep
  rw [← Sample.caller_start] at keeps ⊢
  exact Sample.launched.enumerates (by decide +kernel) (.nil _)
    (Sample.opens Sample.openDot_fires (by decide +kernel)) (by decide) Sample.dot_found
    (by decide +kernel) (Sample.fire_twice _ _ _ Sample.readDot_fires Sample.readOn_fires)
    keeps

end Ece391Os
