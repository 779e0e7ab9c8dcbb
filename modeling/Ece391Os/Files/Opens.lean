import Ece391Os.Files.Lookup

namespace Ece391Os

open Data

/-! The names `open` accepts.  It compares a name with `stdin` and `stdout` over
the length of the name, before it looks at the disk. -/

def openable (image : Memory) (name : CString) : Prop :=
  ∃ index, Named image name index ∧ dentryType image index ≤ 2

def FdTable.hasRoom (fdt : FdTable) : Prop :=
  ∃ fd, 2 ≤ fd ∧ fd ≤ maxFdNum ∧ (fdt fd).flags = -1

def namesFile (image : Memory) (name : CString) : Prop :=
  name.bytes ≠ stdinName.bytes ∧ name.bytes ≠ stdoutName.bytes ∧ openable image name

/-- The answer to each name: the standard descriptors under their own names, a
free descriptor for the name of a file, and a failure for every other name. -/
structure OpensExactly (image : Memory) (name : CString) (fdt : FdTable) (reply : Reply) :
    Prop where
  stdin : reply = .ret 0 ↔ name.bytes = stdinName.bytes
  stdout : reply = .ret 1 ↔ name.bytes = stdoutName.bytes
  file : (∃ fd, 2 ≤ fd ∧ fd ≤ maxFdNum ∧ reply = .ret fd) ↔
    namesFile image name ∧ fdt.hasRoom
  refused : name.bytes ≠ stdinName.bytes → name.bytes ≠ stdoutName.bytes →
    ¬ (namesFile image name ∧ fdt.hasRoom) → reply = .ret (-1)

/-- The first bytes of `stdin` or of `stdout`, but not all of them. -/
def abbreviatesStandard (name : CString) : Prop :=
  name.bytes ≠ [] ∧ name.bytes ≠ stdinName.bytes ∧ name.bytes ≠ stdoutName.bytes ∧
    (name.bytes <+: stdinName.bytes ∨ name.bytes <+: stdoutName.bytes)

/-- A file that its own name does not lead to: the name is empty, or an entry of
no known type comes first under it. -/
def hiddenFile (image : Memory) (name : CString) : Prop :=
  namesFile image name ∧ (name.bytes = [] ∨
    ∃ index, FirstNamed image name index ∧ 2 < dentryType image index)

section Names

variable {image : Memory} {name : CString} {fdt : FdTable}

theorem findDesc_hasRoom : fdt.hasRoom ↔ findDesc fdt ≠ none := by
  rw [ne_eq, FdTable.findDesc_none_iff]
  simp only [FdTable.hasRoom, not_forall, not_not]
  constructor
  · rintro ⟨fd, above, below, free⟩
    exact ⟨fd, above, below, free⟩
  · rintro ⟨fd, above, below, free⟩
    exact ⟨fd, above, below, free⟩

theorem typeTable_isSome_iff (fileType : Nat) :
    (FdTable.typeTable fileType).isSome = true ↔ fileType ≤ 2 := by
  rcases fileType with _ | _ | _ | more
  · simp [FdTable.typeTable]
  · simp [FdTable.typeTable]
  · simp [FdTable.typeTable]
  · simp [FdTable.typeTable]

def diskAnswer (image : Memory) (name : CString) (fdt : FdTable) : Int :=
  match findDentry image name, findDesc fdt with
  | some index, some fd => if dentryType image index ≤ 2 then fd else -1
  | _, _ => -1

theorem openFile_answer (image : Memory) (name : CString) (fdt : FdTable) :
    (fdt.openFile image (some name)).2 =
      if name.bytes = [] then -1
      else if name.bytes <+: stdinName.bytes then 0
      else if name.bytes <+: stdoutName.bytes then 1
      else diskAnswer image name fdt := by
  have empty : strncmp name.memory emptyName.memory name.strlen = 0 ↔ name.bytes = [] := by
    rw [strncmp_strlen_eq_zero]
    exact List.prefix_nil
  simp only [FdTable.openFile, empty, strncmp_strlen_eq_zero]
  split
  · rfl
  · split
    · rfl
    · split
      · rfl
      · simp only [readDentryByName, diskAnswer]
        cases found : findDentry image name with
        | none => rfl
        | some index =>
            cases free : findDesc fdt with
            | none => rfl
            | some fd =>
                have known := FdTable.openDesc_isSome (copyDentry image index) (fdt fd)
                have listed := typeTable_isSome_iff (dentryType image index)
                simp only [Option.map_some]
                cases opened : openDesc (copyDentry image index) (fdt fd) with
                | none =>
                    rw [opened] at known
                    rw [if_neg fun type => by simp [copyDentry, listed.mpr type] at known]
                | some desc =>
                    rw [opened] at known
                    rw [if_pos (listed.mp known.symm)]

def opensFirst (image : Memory) (name : CString) : Prop :=
  ∃ index, FirstNamed image name index ∧ dentryType image index ≤ 2

theorem diskAnswer_cases (image : Memory) (fdt : FdTable) (short : name.strlen ≤ nameLength) :
    (diskAnswer image name fdt = -1 ∧ ¬ (opensFirst image name ∧ fdt.hasRoom)) ∨
    ((2 ≤ diskAnswer image name fdt ∧ diskAnswer image name fdt ≤ maxFdNum) ∧
      opensFirst image name ∧ fdt.hasRoom) := by
  simp only [diskAnswer]
  cases found : findDentry image name with
  | none =>
      refine .inl ⟨rfl, ?_⟩
      rintro ⟨⟨index, first, -⟩, -⟩
      exact (findDentry_short_none short).mp found index first.1
  | some index =>
      have first := (findDentry_short_some short).mp found
      cases free : findDesc fdt with
      | none => exact .inl ⟨rfl, fun both => findDesc_hasRoom.mp both.2 free⟩
      | some fd =>
          have room : fdt.hasRoom := findDesc_hasRoom.mpr (by rw [free]; simp)
          simp only
          split
          · rename_i type
            exact .inr ⟨(FdTable.findDesc_some free).1, ⟨index, first, type⟩, room⟩
          · rename_i type
            refine .inl ⟨rfl, ?_⟩
            rintro ⟨⟨other, again, known⟩, -⟩
            rw [first.unique again] at known
            exact type known

theorem openable_iff (short : name.strlen ≤ nameLength)
    (shown : ¬ ∃ index, FirstNamed image name index ∧ 2 < dentryType image index) :
    openable image name ↔ opensFirst image name := by
  constructor
  · rintro ⟨index, entry, -⟩
    cases found : findDentry image name with
    | none => exact absurd entry ((findDentry_short_none short).mp found index)
    | some first =>
        have first_ := (findDentry_short_some short).mp found
        exact ⟨first, first_, Nat.le_of_not_lt fun unknown => shown ⟨first, first_, unknown⟩⟩
  · rintro ⟨index, first, type⟩
    exact ⟨index, first.1, type⟩

theorem OpensExactly.of_disk (short : name.strlen ≤ nameLength)
    (stdin : name.bytes ≠ stdinName.bytes) (stdout : name.bytes ≠ stdoutName.bytes)
    (shown : ¬ ((∃ index, FirstNamed image name index ∧ 2 < dentryType image index) ∧
      openable image name ∧ fdt.hasRoom)) :
    OpensExactly image name fdt (.ret (diskAnswer image name fdt)) := by
  have same : namesFile image name ∧ fdt.hasRoom ↔ opensFirst image name ∧ fdt.hasRoom := by
    constructor
    · rintro ⟨⟨-, -, known⟩, room⟩
      refine ⟨(openable_iff short fun unknown => shown ⟨unknown, known, room⟩).mp known, room⟩
    · rintro ⟨⟨index, first, type⟩, room⟩
      exact ⟨⟨stdin, stdout, index, first.1, type⟩, room⟩
  obtain ⟨answer, none⟩ | ⟨range, some⟩ := diskAnswer_cases image fdt short
  · rw [answer]
    refine ⟨by simp [stdin], by simp [stdout], ?_, fun _ _ _ => rfl⟩
    rw [same]
    constructor
    · rintro ⟨fd, above, -, equal⟩
      have := Outcome.ret.inj equal
      omega
    · intro both
      exact absurd both none
  · refine ⟨?_, ?_, ?_, fun _ _ refused => absurd (same.mpr some) refused⟩
    · constructor
      · intro equal
        have := Outcome.ret.inj equal
        omega
      · intro equal
        exact absurd equal stdin
    · constructor
      · intro equal
        have := Outcome.ret.inj equal
        omega
      · intro equal
        exact absurd equal stdout
    · exact ⟨fun _ => same.mpr some, fun _ => ⟨_, range.1, range.2, rfl⟩⟩

theorem opensExactly_refusal_iff :
    OpensExactly image name fdt (.ret (-1)) ↔ name.bytes ≠ stdinName.bytes ∧
      name.bytes ≠ stdoutName.bytes ∧ ¬ (namesFile image name ∧ fdt.hasRoom) := by
  constructor
  · intro exactly
    refine ⟨fun same => ?_, fun same => ?_, fun both => ?_⟩
    · exact absurd (Outcome.ret.inj (exactly.stdin.mpr same)) (by decide)
    · exact absurd (Outcome.ret.inj (exactly.stdout.mpr same)) (by decide)
    · obtain ⟨fd, above, -, equal⟩ := exactly.file.mpr both
      have := Outcome.ret.inj equal
      omega
  · rintro ⟨stdin, stdout, none⟩
    refine ⟨by simp [stdin], by simp [stdout], ⟨?_, fun both => absurd both none⟩,
      fun _ _ _ => rfl⟩
    rintro ⟨fd, above, -, equal⟩
    have := Outcome.ret.inj equal
    omega

theorem opensExactly_standard_iff {value : Int} (standard : value = 0 ∨ value = 1) :
    OpensExactly image name fdt (.ret value) ↔
      name.bytes = if value = 0 then stdinName.bytes else stdoutName.bytes := by
  have different : stdinName.bytes ≠ stdoutName.bytes := by decide
  have low : ¬ ∃ fd, 2 ≤ fd ∧ fd ≤ maxFdNum ∧ (Outcome.ret value : Reply) = .ret fd := by
    rintro ⟨fd, above, -, equal⟩
    have := Outcome.ret.inj equal
    omega
  rcases standard with rfl | rfl
  · refine ⟨fun exactly => exactly.stdin.mp rfl, fun same => ⟨by simp [same], ?_, ?_, ?_⟩⟩
    · simpa [same] using different
    · exact ⟨fun answered => absurd answered low, fun both => absurd same both.1.1⟩
    · exact fun other => absurd same other
  · refine ⟨fun exactly => exactly.stdout.mp rfl, fun same => ⟨?_, by simp [same], ?_, ?_⟩⟩
    · simpa [same] using different.symm
    · exact ⟨fun answered => absurd answered low, fun both => absurd same both.1.2.1⟩
    · exact fun _ other => absurd same other

theorem opensExactly_disk_iff (fdt : FdTable) (short : name.strlen ≤ nameLength)
    (stdin : name.bytes ≠ stdinName.bytes) (stdout : name.bytes ≠ stdoutName.bytes)
    (nonempty : name.bytes ≠ []) :
    OpensExactly image name fdt (.ret (diskAnswer image name fdt)) ↔
      ¬ (hiddenFile image name ∧ fdt.hasRoom) := by
  constructor
  · rintro exactly ⟨⟨file, hidden⟩, room⟩
    obtain ⟨index, first, unknown⟩ := hidden.resolve_left nonempty
    obtain ⟨fd, above, -, equal⟩ := exactly.file.mpr ⟨file, room⟩
    have answer := Outcome.ret.inj equal
    obtain ⟨failed, -⟩ | ⟨-, ⟨other, again, known⟩, -⟩ := diskAnswer_cases image fdt short
    · omega
    · rw [first.unique again] at known
      omega
  · intro shown
    refine .of_disk short stdin stdout ?_
    rintro ⟨unknown, file, room⟩
    exact shown ⟨⟨⟨stdin, stdout, file⟩, .inr unknown⟩, room⟩

end Names

/-- `open` accepts exactly the names it should, but for the first bytes of `stdin`
and `stdout`, and for files whose name is empty or first that of an entry of no
known type. -/
theorem Kernel.openFile_exact_iff (platform : Platform) (kernel : Kernel) (name : CString)
    (short : name.strlen ≤ nameLength) :
    OpensExactly platform.image name (kernel.pcbAt (kernel.currentPcb platform)).fdt
        (kernel.openFile platform (some name)).2 ↔
      ¬ abbreviatesStandard name ∧ ¬ (hiddenFile platform.image name ∧
        FdTable.hasRoom (kernel.pcbAt (kernel.currentPcb platform)).fdt) := by
  set fdt := (kernel.pcbAt (kernel.currentPcb platform)).fdt
  rw [(Kernel.openFile_table platform (some name) kernel).2, openFile_answer]
  by_cases empty : name.bytes = []
  · rw [if_pos empty, opensExactly_refusal_iff]
    have stdin : name.bytes ≠ stdinName.bytes := by rw [empty]; decide
    have stdout : name.bytes ≠ stdoutName.bytes := by rw [empty]; decide
    have whole : ¬ abbreviatesStandard name := fun short => short.1 empty
    have shown : hiddenFile platform.image name ↔ namesFile platform.image name :=
      ⟨fun hidden => hidden.1, fun file => ⟨file, .inl empty⟩⟩
    simp only [ne_eq, stdin, stdout, not_false_eq_true, true_and, whole, shown]
  · rw [if_neg empty]
    by_cases first : name.bytes <+: stdinName.bytes
    · rw [if_pos first, opensExactly_standard_iff (.inl rfl), if_pos rfl]
      constructor
      · intro same
        exact ⟨fun short => short.2.1 same, fun both => both.1.1.1 same⟩
      · rintro ⟨whole, -⟩
        by_contra other
        refine whole ⟨empty, other, fun same => ?_, .inl first⟩
        rw [same] at first
        exact absurd first (by decide)
    · rw [if_neg first]
      have stdin : name.bytes ≠ stdinName.bytes := fun same => first (same ▸ List.prefix_refl _)
      by_cases second : name.bytes <+: stdoutName.bytes
      · rw [if_pos second, opensExactly_standard_iff (.inr rfl), if_neg (by decide)]
        constructor
        · intro same
          exact ⟨fun short => short.2.2.1 same, fun both => both.1.1.2.1 same⟩
        · rintro ⟨whole, -⟩
          by_contra other
          exact whole ⟨empty, stdin, other, .inr second⟩
      · have stdout : name.bytes ≠ stdoutName.bytes := fun same =>
          second (same ▸ List.prefix_refl _)
        rw [if_neg second, opensExactly_disk_iff fdt short stdin stdout empty]
        have whole : ¬ abbreviatesStandard name := fun short =>
          short.2.2.2.elim first second
        simp [whole]

theorem openFile_exact_sample :
    OpensExactly Sample.image shellName
      (Sample.start.kernel.pcbAt (Sample.start.kernel.currentPcb Sample.platform)).fdt
      (Sample.start.kernel.openFile Sample.platform (some shellName)).2 := by
  refine (Kernel.openFile_exact_iff Sample.platform Sample.start.kernel shellName
    (by decide)).mpr ⟨?_, ?_⟩
  · rintro ⟨-, -, -, cut⟩
    revert cut
    decide
  · rintro ⟨⟨-, hidden⟩, -⟩
    obtain ⟨index, ⟨⟨listed, -⟩, -⟩, unknown⟩ := hidden.resolve_left (by decide)
    have types : ∀ index < numDentries Sample.image, dentryType Sample.image index ≤ 2 := by
      decide
    exact absurd unknown (Nat.not_lt.mpr (types index listed))

def Sample.cutName : CString := ⟨[115, 116, 100], by simp⟩

theorem cutName_opened :
    Sample.cutName.strlen ≤ nameLength ∧
    (Sample.start.kernel.openFile Sample.platform (some Sample.cutName)).2 = .ret 0 ∧
    ¬ OpensExactly Sample.image Sample.cutName
      (Sample.start.kernel.pcbAt (Sample.start.kernel.currentPcb Sample.platform)).fdt
      (Sample.start.kernel.openFile Sample.platform (some Sample.cutName)).2 := by
  have answered : (Sample.start.kernel.openFile Sample.platform (some Sample.cutName)).2 =
      .ret 0 := by
    rw [(Kernel.openFile_table Sample.platform (some Sample.cutName) _).2, openFile_answer]
    rfl
  refine ⟨by decide, answered, ?_⟩
  intro exactly
  exact absurd (exactly.stdin.mp answered) (by decide)

end Ece391Os
