import Ece391Os.Files.Directory

namespace Ece391Os

open Data

/-! `read_dentry_by_name` on a well-formed boot block, for names of any length. -/

structure NamesFormed (image : Memory) : Prop where
  few : numDentries image ≤ 63
  named : ∀ index < numDentries image, fieldBytes (dentryName image index) ≠ []
  padded : ∀ index < numDentries image, ∀ k < nameLength,
    (∃ j < k, dentryName image index j = 0) → dentryName image index k = 0
  types : ∀ index < numDentries image, dentryType image index ≤ 2

/-- The lookup finds the first entry with exactly this name and copies it. -/
structure ExactLookup (image : Memory) (filename : CString) : Prop where
  found : ∀ dentry, readDentryByName image filename = some dentry →
    ∃ index < numDentries image, fieldBytes (dentryName image index) = filename.bytes ∧
      (∀ earlier < index, fieldBytes (dentryName image earlier) ≠ filename.bytes) ∧
      (∀ k < nameLength, dentry.fileName k = dentryName image index k) ∧
      dentry.fileType = dentryType image index ∧ dentry.inodeNum = dentryInode image index
  missing : readDentryByName image filename = none →
    ∀ index < numDentries image, fieldBytes (dentryName image index) ≠ filename.bytes

/-- One byte more than a name that fills its field, equal to the type behind it. -/
def readsIntoType (image : Memory) (filename : CString) : Prop :=
  filename.strlen = nameLength + 1 ∧ ∃ index < numDentries image,
    (∀ k < nameLength, dentryName image index k = filename.memory k) ∧
      dentryType image index = (filename.memory nameLength).toNat

section Names

variable {image : Memory} {filename : CString} {index : Nat}

theorem strncmp_strlen_iff (field : Memory) (filename : CString) :
    strncmp field filename.memory filename.strlen = 0 ↔
      ∀ k < filename.strlen, field k = filename.memory k := by
  rw [strncmp_eq_zero]
  constructor
  · intro agree k
    induction k using Nat.strongRecOn with
    | ind k induction =>
        intro inside
        apply agree k inside
        intro j earlier
        rw [induction j earlier (by omega)]
        exact CString.memory_ne_zero (by omega)
  · intro agree k inside _
    exact agree k inside

theorem type_bytes (small : dentryType image index ≤ 2) :
    (dentryName image index nameLength).toNat = dentryType image index ∧
      dentryName image index (nameLength + 1) = 0 := by
  have word : dentryType image index = (dentryName image index 32).toNat +
      256 * (dentryName image index 33).toNat + 65536 * (dentryName image index 34).toNat +
      16777216 * (dentryName image index 35).toNat := rfl
  constructor
  · simp only [nameLength]
    omega
  · apply UInt8.toNat_inj.mp
    simp only [nameLength, Nat.reduceAdd, UInt8.toNat_zero]
    omega

theorem dentryMatches_long_iff (long : nameLength < filename.strlen)
    (small : dentryType image index ≤ 2) :
    dentryMatches image filename index = true ↔
      filename.strlen = nameLength + 1 ∧
        (∀ k < nameLength, dentryName image index k = filename.memory k) ∧
        dentryType image index = (filename.memory nameLength).toNat := by
  obtain ⟨type, zero⟩ := type_bytes small
  rw [dentryMatches, decide_eq_true_eq, strncmp_strlen_iff]
  constructor
  · rintro ⟨agree, -⟩
    have short : filename.strlen = nameLength + 1 := by
      by_contra longer
      have next := agree (nameLength + 1) (by omega)
      rw [zero] at next
      exact CString.memory_ne_zero (by omega) next.symm
    refine ⟨short, fun k inside => agree k (by omega), ?_⟩
    rw [← type, agree nameLength (by omega)]
  · rintro ⟨length, name, byte⟩
    refine ⟨?_, ?_⟩
    · intro k inside
      rcases Nat.lt_succ_iff_lt_or_eq.mp (length ▸ inside) with before | rfl
      · exact name k before
      · exact UInt8.toNat_inj.mp (type.trans byte)
    · rw [strncmp_eq_zero]
      exact fun k inside _ => name k inside

theorem fieldBytes_ne_long (field : Memory) (long : nameLength < filename.strlen) :
    fieldBytes field ≠ filename.bytes := by
  intro same
  have short := strlen_fieldString field
  have length : (fieldString field).strlen = filename.strlen := congrArg List.length same
  omega

theorem NamesFormed.matches_iff (formed : NamesFormed image)
    (exact_ : ¬ readsIntoType image filename) (listed : index < numDentries image) :
    dentryMatches image filename index = true ↔
      fieldBytes (dentryName image index) = filename.bytes := by
  rcases Nat.lt_or_ge nameLength filename.strlen with long | short
  · rw [dentryMatches_long_iff long (formed.types index listed)]
    constructor
    · rintro ⟨length, name, byte⟩
      exact absurd ⟨length, index, listed, name, byte⟩ exact_
    · intro same
      exact absurd same (fieldBytes_ne_long _ long)
  · exact dentryMatches_iff short

theorem NamesFormed.fileName_eq (formed : NamesFormed image)
    (listed : index < numDentries image) {k : Nat} (inside : k < nameLength) :
    (copyDentry image index).fileName k = dentryName image index k := by
  simp only [copyDentry, strncpy_apply, if_pos inside, Ece391Os.padded]
  split
  · rename_i ended
    obtain ⟨j, bound, zero⟩ := ended
    rcases Nat.lt_succ_iff_lt_or_eq.mp bound with before | rfl
    · exact (formed.padded index listed k inside ⟨j, before, zero⟩).symm
    · exact zero.symm
  · rfl

theorem findDentry_eq_some_iff :
    findDentry image filename = some index ↔
      dentryMatches image filename index = true ∧ index < numDentries image ∧
        ∀ earlier < index, dentryMatches image filename earlier = false := by
  rw [findDentry, List.find?_range_eq_some, List.mem_range]
  simp

theorem findDentry_eq_none_iff :
    findDentry image filename = none ↔
      ∀ index < numDentries image, dentryMatches image filename index = false := by
  rw [findDentry, List.find?_range_eq_none]
  simp

def Named (image : Memory) (filename : CString) (index : Nat) : Prop :=
  index < numDentries image ∧ fieldBytes (dentryName image index) = filename.bytes

def FirstNamed (image : Memory) (filename : CString) (index : Nat) : Prop :=
  Named image filename index ∧ ∀ earlier < index, ¬ Named image filename earlier

theorem FirstNamed.unique {other : Nat} (first : FirstNamed image filename index)
    (again : FirstNamed image filename other) : other = index := by
  rcases Nat.lt_trichotomy other index with before | same | after
  · exact absurd again.1 (first.2 other before)
  · exact same
  · exact absurd first.1 (again.2 index after)

theorem findDentry_short_some (short : filename.strlen ≤ nameLength) :
    findDentry image filename = some index ↔ FirstNamed image filename index := by
  rw [findDentry_eq_some_iff, dentryMatches_iff short]
  constructor
  · rintro ⟨same, listed, skipped⟩
    refine ⟨⟨listed, same⟩, ?_⟩
    rintro earlier before ⟨-, again⟩
    have refused := skipped earlier before
    rw [(dentryMatches_iff short).mpr again] at refused
    cases refused
  · rintro ⟨⟨listed, same⟩, first⟩
    refine ⟨same, listed, ?_⟩
    intro earlier before
    refine Bool.eq_false_iff.mpr fun matched => first earlier before ⟨by omega, ?_⟩
    exact (dentryMatches_iff short).mp matched

theorem findDentry_short_none (short : filename.strlen ≤ nameLength) :
    findDentry image filename = none ↔ ∀ index, ¬ Named image filename index := by
  rw [findDentry_eq_none_iff]
  constructor
  · rintro skipped index ⟨listed, same⟩
    have refused := skipped index listed
    rw [(dentryMatches_iff short).mpr same] at refused
    cases refused
  · intro absent index listed
    refine Bool.eq_false_iff.mpr fun matched => absent index ⟨listed, ?_⟩
    exact (dentryMatches_iff short).mp matched

end Names

theorem NamesFormed.exactLookup {image : Memory} {filename : CString}
    (formed : NamesFormed image) (exact_ : ¬ readsIntoType image filename) :
    ExactLookup image filename := by
  have named {index : Nat} (listed : index < numDentries image) :=
    formed.matches_iff exact_ listed
  constructor
  · intro dentry found
    obtain ⟨index, first, rfl⟩ := Option.map_eq_some_iff.mp found
    obtain ⟨matched, listed, skipped⟩ := findDentry_eq_some_iff.mp first
    refine ⟨index, listed, (named listed).mp matched, ?_,
      fun k inside => formed.fileName_eq listed inside, rfl, rfl⟩
    intro earlier before same
    have refused := skipped earlier before
    rw [(named (by omega)).mpr same] at refused
    cases refused
  · intro failed index listed same
    have refused := findDentry_eq_none_iff.mp (Option.map_eq_none_iff.mp failed) index listed
    rw [(named listed).mpr same] at refused
    cases refused

theorem readsIntoType.not_exact {image : Memory} {filename : CString}
    (formed : NamesFormed image) (reads : readsIntoType image filename) :
    ¬ ExactLookup image filename := by
  intro lookup
  obtain ⟨length, index, listed, name, byte⟩ := reads
  have long : nameLength < filename.strlen := by omega
  have matched : dentryMatches image filename index = true :=
    (dentryMatches_long_iff long (formed.types index listed)).mpr ⟨length, name, byte⟩
  cases found : readDentryByName image filename with
  | none =>
      have refused := findDentry_eq_none_iff.mp (Option.map_eq_none_iff.mp found) index listed
      rw [matched] at refused
      cases refused
  | some dentry =>
      obtain ⟨other, _, same, _⟩ := lookup.found dentry found
      exact fieldBytes_ne_long _ long same

/-- Lookup is exact but for names one byte longer than a field they fill. -/
theorem exactLookup_iff {image : Memory} (formed : NamesFormed image) (filename : CString) :
    ExactLookup image filename ↔ ¬ readsIntoType image filename :=
  ⟨fun lookup reads => reads.not_exact formed lookup, formed.exactLookup⟩

namespace Sample

/-- A directory with one regular file, whose name fills its field. -/
def fullName : Memory := fun address =>
  if address < 64 then [1, 0, 0, 0, 1, 0, 0, 0, 1, 0, 0, 0].getD address 0
  else if address < 128 then dentry (List.replicate 32 97) 2 (address - 64)
  else 0

theorem namesFormed : NamesFormed fullName := by
  have single : numDentries fullName = 1 := by decide
  refine ⟨by decide, ?_, ?_, ?_⟩
  · intro index listed
    obtain rfl : index = 0 := by omega
    decide
  · intro index listed
    obtain rfl : index = 0 := by omega
    decide
  · intro index listed
    obtain rfl : index = 0 := by omega
    decide

def nameAndType : CString where
  bytes := List.replicate 32 97 ++ [2]
  nonzero := by simp

theorem diskFormed : NamesFormed image := by
  refine ⟨by decide, by decide, ?_, by decide⟩
  have three : numDentries image = 3 := by decide
  rw [three]
  decide +kernel

end Sample

theorem exactLookup_sample :
    ((readDentryByName Sample.image shellName).map Dentry.fileType = some 2 ∧
      ExactLookup Sample.image shellName) ∧
    readDentryByName Sample.image stdinName = none ∧ ExactLookup Sample.image stdinName := by
  refine ⟨⟨by decide, (exactLookup_iff Sample.diskFormed shellName).mpr ?_⟩,
    by decide, (exactLookup_iff Sample.diskFormed stdinName).mpr ?_⟩
  · exact fun reads => absurd reads.1 (by decide)
  · exact fun reads => absurd reads.1 (by decide)

theorem nameAndType_found : NamesFormed Sample.fullName ∧
    (readDentryByName Sample.fullName Sample.nameAndType).isSome ∧
    ¬ ExactLookup Sample.fullName Sample.nameAndType := by
  refine ⟨Sample.namesFormed, by decide, readsIntoType.not_exact Sample.namesFormed ?_⟩
  refine ⟨by decide, 0, by decide, ?_, by decide⟩
  decide

end Ece391Os
