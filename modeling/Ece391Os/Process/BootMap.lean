import Ece391Os.Process.Isolation

namespace Ece391Os

open Data

/-! The address map that `init_page_directory` and `init_page_table` leave. -/

namespace PageTables

def fillEntries (entry : Nat → X86.Word) (table : Nat → X86.Word) : Nat → X86.Word :=
  (List.range 1024).foldl (fun table i => Function.update table i (entry i)) table

theorem foldl_update_apply (entry table : Nat → X86.Word) (indices : List Nat) (index : Nat) :
    indices.foldl (fun table i => Function.update table i (entry i)) table index =
      if index ∈ indices then entry index else table index := by
  induction indices generalizing table with
  | nil => simp
  | cons first rest induction =>
      rw [List.foldl_cons, induction]
      by_cases later : index ∈ rest
      · rw [if_pos later, if_pos (List.mem_cons_of_mem _ later)]
      · rw [if_neg later]
        by_cases here : index = first
        · rw [here, Function.update_self, if_pos List.mem_cons_self]
        · rw [Function.update_of_ne here, if_neg fun member =>
            (List.mem_cons.mp member).elim here later]

theorem fillEntries_apply (entry table : Nat → X86.Word) {index : Nat} (inside : index < 1024) :
    fillEntries entry table index = entry index := by
  rw [fillEntries, foldl_update_apply, if_pos (List.mem_range.mpr inside)]

def initByLoops (platform : Platform) (pages : PageTables) : PageTables :=
  let cleared := fillEntries (fun _ => rwNotPresent) pages.pageDirectory
  let first := Function.update cleared 0 (platform.firstTableAddr ||| rwPresent)
  let kernel := Function.update first (directorySlot kernelAddr)
    (BitVec.ofInt 32 kernelAddr ||| 0x083#32)
  { pageDirectory := Function.update kernel (directorySlot userVideoMem)
      (platform.secondTableAddr ||| userMode)
    firstPageTable :=
      enableEntry thirdShell (enableEntry secondShell (enableEntry firstShell
        (enableEntry videoMemAddr (fillEntries absentEntry pages.firstPageTable))))
    secondPageTable := fillEntries absentEntry pages.secondPageTable }

section Walks

variable (platform : Platform) (pages : PageTables) (linear : X86.Word)

theorem translate_congr {other : PageTables}
    (directory : ∀ index < 1024, pages.pageDirectory index = other.pageDirectory index)
    (first : ∀ index < 1024, pages.firstPageTable index = other.firstPageTable index)
    (second : ∀ index < 1024, pages.secondPageTable index = other.secondPageTable index) :
    pages.translate platform linear = other.translate platform linear := by
  have entry : X86.directoryIndex linear < 1024 := by
    rw [X86.directoryIndex_eq]
    omega
  have page : X86.tableIndex linear < 1024 := by
    rw [X86.tableIndex_eq]
    omega
  have table (base : X86.Word) : pages.tableAt platform base (X86.tableIndex linear) =
      other.tableAt platform base (X86.tableIndex linear) := by
    simp only [tableAt]
    split
    · exact first _ page
    · split
      · exact second _ page
      · rfl
  simp only [translate, X86.walk, directory _ entry, table]

theorem enableEntry_congr {table other : Nat → X86.Word}
    (same : ∀ index < 1024, table index = other index) {virtual : Int}
    (inside : (virtual >>> (12 : Nat)).toNat < 1024) :
    ∀ index < 1024, enableEntry virtual table index = enableEntry virtual other index := by
  intro index below
  simp only [enableEntry, Function.update_apply, same _ inside, same index below]

theorem translate_initByLoops :
    (pages.initByLoops platform).translate platform linear =
      (pages.initPaging platform).translate platform linear := by
  refine translate_congr platform _ linear ?_ ?_ ?_
  · intro index below
    simp only [initByLoops, initPaging, initPageTable, initPageDirectory, Function.update_apply,
      fillEntries_apply _ _ below]
  · refine enableEntry_congr (enableEntry_congr (enableEntry_congr (enableEntry_congr ?_ ?_) ?_)
      ?_) ?_
    · intro index below
      rw [fillEntries_apply _ _ below]
    all_goals decide
  · intro index below
    simp only [initByLoops, initPaging, initPageTable, fillEntries_apply _ _ below]

end Walks

/-- What the tables held before does not matter. -/
theorem initPaging_eq (platform : Platform) (pages : PageTables) :
    pages.initPaging platform = bootPages platform := rfl

theorem bootPages_firstPageTable (platform : Platform) (index : Nat) :
    (bootPages platform).firstPageTable index =
      if 184 ≤ index ∧ index < 188 then BitVec.ofNat 32 (index * 4096) ||| rwPresent
      else absentEntry index := by
  have slots : (videoMemAddr >>> (12 : Nat)).toNat = 184 ∧
      (firstShell >>> (12 : Nat)).toNat = 185 ∧ (secondShell >>> (12 : Nat)).toNat = 186 ∧
      (thirdShell >>> (12 : Nat)).toNat = 187 := by decide
  obtain ⟨video, first, second, third⟩ := slots
  have enabled : absentEntry index ||| rwPresent =
      BitVec.ofNat 32 (index * 4096) ||| rwPresent := by
    rw [absentEntry, BitVec.or_assoc]
    rfl
  simp only [bootPages, initPaging, initPageTable, enableEntry, video, first, second, third,
    Function.update_apply]
  by_cases shown : 184 ≤ index ∧ index < 188
  · rw [if_pos shown, ← enabled]
    have cases : index = 184 ∨ index = 185 ∨ index = 186 ∨ index = 187 := by omega
    rcases cases with rfl | rfl | rfl | rfl
    all_goals rfl
  · rw [if_neg shown, if_neg (by omega), if_neg (by omega), if_neg (by omega),
      if_neg (by omega)]

variable {platform : Platform} {linear : X86.Word}

theorem bootPages_other (index : X86.directoryIndex linear ≠ 0)
    (other : X86.directoryIndex linear ≠ 1) :
    (bootPages platform).translate platform linear = none := by
  have entry := bootPages_directory platform (X86.directoryIndex linear)
  by_cases video : X86.directoryIndex linear = 17
  · rw [(Agrees.boot platform).translate_second video]
    exact if_neg (by rw [Bool.not_eq_true]; exact absentEntry_present _)
  · rw [if_neg video, if_neg other, if_neg index] at entry
    exact X86.walk_absent (by rw [entry]; decide)

theorem bootPages_kernel (index : X86.directoryIndex linear = 1) :
    (bootPages platform).translate platform linear = some ⟨linear, false, true⟩ := by
  have entry := bootPages_directory platform (X86.directoryIndex linear)
  rw [if_neg (by omega), if_pos index] at entry
  have physical : (X86.largeTranslation (0x400000#32 ||| 0x083#32) linear).physical = linear := by
    apply BitVec.eq_of_toNat_eq
    have base : (0x400000#32 : X86.Word).toNat = 4194304 := rfl
    rw [X86.largeTranslation_physical (by decide) (by decide), base]
    rw [X86.directoryIndex_eq] at index
    omega
  have flags : X86.userAccess (0x400000#32 ||| 0x083#32) = false ∧
      X86.writable (0x400000#32 ||| 0x083#32) = true := by decide
  refine (X86.walk_large entry (by decide) (by decide)).trans (congrArg some ?_)
  change X86.largeTranslation (0x400000#32 ||| 0x083#32) linear = _
  simp only [X86.largeTranslation] at physical ⊢
  rw [physical, flags.1, flags.2]

theorem smallTranslation_own {entry : X86.Word} (index : X86.directoryIndex linear = 0)
    (supervisor : X86.userAccess entry = false) (writes : X86.writable entry = true) :
    X86.smallTranslation entry
      (BitVec.ofNat 32 (X86.tableIndex linear * 4096) ||| rwPresent) linear =
        ⟨linear, false, true⟩ := by
  have base : (BitVec.ofNat 32 (X86.tableIndex linear * 4096)).toNat =
      X86.tableIndex linear * 4096 := by
    rw [BitVec.toNat_ofNat, X86.tableIndex_eq]
    omega
  have physical : (X86.smallTranslation entry
      (BitVec.ofNat 32 (X86.tableIndex linear * 4096) ||| rwPresent) linear).physical =
        linear := by
    apply BitVec.eq_of_toNat_eq
    rw [X86.smallTranslation_physical (by omega) (by decide), base, X86.tableIndex_eq]
    rw [X86.directoryIndex_eq] at index
    omega
  have pageWrites : X86.writable (BitVec.ofNat 32 (X86.tableIndex linear * 4096) ||| rwPresent) =
      true := (X86.writable_or_flags (aligned_page _)).trans (by decide)
  simp only [X86.smallTranslation] at physical ⊢
  rw [physical, supervisor, writes, pageWrites, Bool.false_and, Bool.true_and]

theorem bootPages_first (index : X86.directoryIndex linear = 0) :
    (bootPages platform).translate platform linear =
      if 184 ≤ X86.tableIndex linear ∧ X86.tableIndex linear < 188 then
        some ⟨linear, false, true⟩
      else none := by
  have entry := bootPages_directory platform (X86.directoryIndex linear)
  rw [if_neg (by omega), if_neg (by omega), if_pos index] at entry
  have aligned := platform.firstTable_aligned
  have table : (bootPages platform).tableAt platform
      ((platform.firstTableAddr ||| rwPresent) &&& 0xFFFFF000#32) =
        (bootPages platform).firstPageTable := by
    rw [X86.or_flags_and (by decide) aligned (by decide), tableAt, if_pos rfl]
  rw [translate, X86.walk_small entry ((X86.present_or_flags aligned).trans (by decide))
    ((X86.largePage_or_flags aligned).trans (by decide)), table, bootPages_firstPageTable]
  by_cases shown : 184 ≤ X86.tableIndex linear ∧ X86.tableIndex linear < 188
  · have isPresent : X86.present (BitVec.ofNat 32 (X86.tableIndex linear * 4096) ||| rwPresent) =
        true := (X86.present_or_flags (aligned_page _)).trans (by decide)
    rw [if_pos shown, if_pos shown, if_pos isPresent, smallTranslation_own index]
    · exact (X86.userAccess_or_flags aligned).trans (by decide)
    · exact (X86.writable_or_flags aligned).trans (by decide)
  · rw [if_neg shown, if_neg shown, if_neg]
    rw [Bool.not_eq_true]
    exact absentEntry_present _

/-- The memory the kernel can reach after boot: the video page with the three
buffers of the terminals, and its own page. -/
theorem initPaging_translate (platform : Platform) (pages : PageTables) (linear : X86.Word) :
    (pages.initPaging platform).translate platform linear =
      if (0xB8000 ≤ linear.toNat ∧ linear.toNat < 0xBC000) ∨
          (0x400000 ≤ linear.toNat ∧ linear.toNat < 0x800000) then
        some ⟨linear, false, true⟩
      else none := by
  have slot := X86.directoryIndex_eq linear
  have page := X86.tableIndex_eq linear
  rw [initPaging_eq]
  by_cases kernel : X86.directoryIndex linear = 1
  · rw [bootPages_kernel kernel, if_pos (by omega)]
  · by_cases first : X86.directoryIndex linear = 0
    · rw [bootPages_first first]
      by_cases shown : 184 ≤ X86.tableIndex linear ∧ X86.tableIndex linear < 188
      · rw [if_pos shown, if_pos (by omega)]
      · rw [if_neg shown, if_neg (by omega)]
    · rw [bootPages_other first kernel, if_neg (by omega)]

end PageTables

end Ece391Os
