import Ece391Os.Process.Arguments

namespace Ece391Os

open Data

/-! Stores through pointers of the user.  `getargs` and `vidmap` check the first
byte they store; the page behind the user page is not mapped, so that a store
which runs over its end faults. -/

def PageTables.storeThrough (platform : Platform) (pages : PageTables) (start : Nat)
    (bytes memory : Memory) : Nat → Memory × Bool
  | 0 => (memory, true)
  | count + 1 =>
      let stored := pages.storeThrough platform start bytes memory count
      if stored.2 then
        match pages.translate platform (BitVec.ofNat 32 (start + count)) with
        | some translation =>
            (Function.update stored.1 translation.physical.toNat (bytes count), true)
        | none => (stored.1, false)
      else stored

theorem PageTables.Agrees.behind_absent {platform : Platform} {pages : PageTables}
    (agrees : pages.Agrees platform) {linear : X86.Word}
    (behind : (linear.toNat : Int) = userProg + fourMb) :
    pages.translate platform linear = none := by
  have index : X86.directoryIndex linear = 33 := by
    rw [X86.directoryIndex_eq]
    simp only [userProg, fourMb] at behind
    omega
  have entry := agrees.directory_of_ne (by omega : X86.directoryIndex linear ≠ 32)
  rw [index, if_neg (by decide), if_neg (by decide), if_neg (by decide)] at entry
  rw [translate, X86.walk_absent (by rw [index, entry]; decide)]

namespace Kernel

variable {platform : Platform} {kernel : Kernel} {start : Nat}

theorem storeUser_succ (bytes : Memory) {count : Nat} (lower : userProg ≤ start)
    (room : (start : Int) + count < userProg + fourMb) :
    (kernel.storeUser start (count + 1) bytes).userMem =
      Function.update (kernel.storeUser start count bytes).userMem
        (kernel.userPage + (start + count - userProg.toNat)) (bytes count) := by
  funext address
  simp only [storeUser]
  by_cases here : address = kernel.userPage + (start + count - userProg.toNat)
  · have last : address - kernel.userPage + userProg.toNat - start = count := by
      simp only [userProg] at lower here ⊢
      omega
    rw [if_pos, last, here, Function.update_self]
    simp only [userProg, fourMb] at lower room here ⊢
    omega
  · rw [Function.update_of_ne here]
    congr 1
    simp only [userProg, fourMb, eq_iff_iff] at lower room here ⊢
    omega

theorem storeUser_full (bytes : Memory) {count : Nat}
    (full : userProg + fourMb ≤ (start : Int) + count) :
    (kernel.storeUser start (count + 1) bytes).userMem =
      (kernel.storeUser start count bytes).userMem := by
  funext address
  simp only [storeUser]
  congr 1
  simp only [userProg, fourMb, eq_iff_iff] at full ⊢
  omega

theorem storeUser_zero (bytes : Memory) :
    (kernel.storeUser start 0 bytes).userMem = kernel.userMem := by
  funext address
  simp only [storeUser]
  rw [if_neg (by omega)]

end Kernel

/-- `storeUser` is what the processor does with a store through the page tables,
and the store faults exactly when it runs over the end of the user page. -/
theorem Reachable.storeThrough_eq {platform : Platform} {machine : Machine} {start : Nat}
    (reachable : Reachable platform machine) (inside : Kernel.inUserPage start)
    (bytes : Memory) (count : Nat) :
    machine.kernel.pages.storeThrough platform start bytes machine.kernel.userMem count =
      ((machine.kernel.storeUser start count bytes).userMem,
        decide ((start : Int) + count ≤ userProg + fourMb)) := by
  have page := Kernel.userPage_running reachable.sound
  have alive := (Kernel.live_running reachable.sound).1
  induction count with
  | zero =>
      obtain ⟨lower, upper⟩ := inside
      rw [Kernel.storeUser_zero, PageTables.storeThrough, decide_eq_true (by omega)]
  | succ count induction =>
      simp only [PageTables.storeThrough, induction, decide_eq_true_eq]
      obtain ⟨lower, upper⟩ := inside
      rcases lt_trichotomy ((start : Int) + count) (userProg + fourMb) with room | ends | past
      · have value : (BitVec.ofNat 32 (start + count)).toNat = start + count := by
          rw [BitVec.toNat_ofNat]
          simp only [userProg, fourMb] at room
          omega
        obtain ⟨translation, found, -, physical⟩ := reachable.isolated.program
          (BitVec.ofNat 32 (start + count)) (by
            rw [value]
            simp only [Kernel.inRegion]
            omega)
        have byte : translation.physical.toNat =
            machine.kernel.userPage + (start + count - userProg.toNat) := by
          rw [page]
          rw [value] at physical
          simp only [userFrame, userProg, eightMb, fourMb] at *
          omega
        rw [if_pos (by omega), found, Kernel.storeUser_succ bytes lower room]
        simp only [byte, Prod.mk.injEq, true_and]
        exact (decide_eq_true (by omega)).symm
      · have behind : ((BitVec.ofNat 32 (start + count)).toNat : Int) = userProg + fourMb := by
          rw [BitVec.toNat_ofNat]
          simp only [userProg, fourMb] at ends ⊢
          omega
        rw [if_pos (by omega), reachable.mapped.agrees.behind_absent behind,
          Kernel.storeUser_full bytes (by omega)]
        simp only [Prod.mk.injEq, true_and]
        exact (decide_eq_false (by omega)).symm
      · rw [if_neg (by omega), Kernel.storeUser_full bytes (by omega)]
        simp only [Prod.mk.injEq, true_and]
        rw [decide_eq_false (by omega), decide_eq_false (by omega)]

structure StoresInside (start count : Nat) (before after : Kernel) : Prop where
  inside : ∀ k < count, Kernel.inRegion userProg fourMb (start + k : Nat)
  only : ∀ address, after.userMem address ≠ before.userMem address →
    ∃ k < count, address = before.userPage + (start + k - userProg.toNat)

theorem StoresInside.storeUser {start count : Nat} {kernel before : Kernel} (bytes : Memory)
    (memory : kernel.userMem = before.userMem) (page : kernel.userPage = before.userPage)
    (lower : userProg ≤ start) (room : (start : Int) + count ≤ userProg + fourMb) :
    StoresInside start count before (kernel.storeUser start count bytes) := by
  constructor
  · intro k below
    simp only [Kernel.inRegion]
    omega
  · intro address changed
    simp only [Kernel.storeUser, memory, page] at changed
    split at changed
    · rename_i stored
      refine ⟨address - before.userPage + userProg.toNat - start, by omega, ?_⟩
      simp only [userProg] at lower stored ⊢
      omega
    · exact absurd rfl changed

/-- Pointers that `getargs` and `vidmap` accept are written only inside the user
page, `nbytes` bytes and four; a pointer they refuse is not written. -/
structure PointerSafe (platform : Platform) (kernel : Kernel) (pointer nbytes : BitVec 32) :
    Prop where
  getargs : (kernel.getargs platform pointer.toNat nbytes.toInt).2 = .ret 0 →
    0 ≤ nbytes.toInt ∧ StoresInside pointer.toNat nbytes.toInt.toNat kernel
      (kernel.getargs platform pointer.toNat nbytes.toInt).1
  getargsRefused : (kernel.getargs platform pointer.toNat nbytes.toInt).2 = .ret (-1) →
    (kernel.getargs platform pointer.toNat nbytes.toInt).1 = kernel
  vidmap : (kernel.vidmap platform pointer.toNat).2 = .ret 0 →
    StoresInside pointer.toNat 4 kernel (kernel.vidmap platform pointer.toNat).1
  vidmapRefused : (kernel.vidmap platform pointer.toNat).2 = .ret (-1) →
    (kernel.vidmap platform pointer.toNat).1 = kernel

namespace Kernel

theorem u32_toInt (word : BitVec 32) : u32 word.toInt = word.toNat := by
  have bound := word.isLt
  simp only [u32, BitVec.toInt_eq_toNat_cond]
  split <;> omega

theorem getargs_cases (platform : Platform) (buf : Nat) (nbytes : Int) (kernel : Kernel) :
    kernel.getargs platform buf nbytes = (kernel, .ret (-1)) ∨
    (inUserPage buf ∧ ∃ bytes,
      if userProg + fourMb < buf + u32 nbytes then
        kernel.getargs platform buf nbytes = (kernel.storeUser buf (u32 nbytes) bytes, .fault)
      else kernel.getargs platform buf nbytes =
        (kernel.storeUser buf (u32 nbytes) bytes, .ret 0)) := by
  simp only [getargs]
  split
  · exact .inl rfl
  · rename_i accepted
    simp only [not_or, not_not] at accepted
    refine .inr ⟨accepted.2.2.2,
      strncpy (fun _ => 0) (kernel.pcbAt (kernel.currentPcb platform)).args (u32 nbytes), ?_⟩
    split
    · rfl
    · rfl

theorem vidmap_stored {platform : Platform} {screenStart : Nat} {kernel : Kernel}
    (answered : (kernel.vidmap platform screenStart).2 = .ret 0) :
    StoresInside screenStart 4 kernel (kernel.vidmap platform screenStart).1 := by
  simp only [vidmap] at answered ⊢
  split at answered
  · exact absurd (Outcome.ret.inj answered) (by decide)
  · rename_i accepted
    simp only [not_or, not_not] at accepted
    rw [if_neg (by simpa only [not_or, not_not] using accepted)]
    split at answered
    · cases answered
    · rename_i room
      rw [if_neg room]
      exact .storeUser _ rfl rfl accepted.2.1 (by omega)

theorem vidmap_refused {platform : Platform} {screenStart : Nat} {kernel : Kernel}
    (refused : (kernel.vidmap platform screenStart).2 = .ret (-1)) :
    (kernel.vidmap platform screenStart).1 = kernel := by
  simp only [vidmap] at refused ⊢
  split at refused
  · rename_i outside
    rw [if_pos outside]
  · split at refused
    · cases refused
    · exact absurd (Outcome.ret.inj refused) (by decide)

theorem pointerSafe (platform : Platform) (kernel : Kernel) (pointer nbytes : BitVec 32) :
    PointerSafe platform kernel pointer nbytes := by
  refine ⟨?_, ?_, vidmap_stored, vidmap_refused⟩
  · intro answered
    obtain failed | ⟨inside, bytes, ends⟩ :=
      getargs_cases platform pointer.toNat nbytes.toInt kernel
    · rw [failed] at answered
      exact absurd (Outcome.ret.inj answered) (by decide)
    · rw [u32_toInt] at ends
      split at ends
      · rw [ends] at answered
        cases answered
      · rename_i room
        -- A negative count is one of at least 2^31 bytes, far past the page.
        have lower : 0 ≤ nbytes.toInt := by
          have start := inside.1
          have bound := nbytes.isLt
          simp only [userProg, fourMb] at start room
          rw [BitVec.toInt_eq_toNat_cond]
          split <;> omega
        have count : nbytes.toInt.toNat = nbytes.toNat := by
          have upper := BitVec.toInt_lt (x := nbytes)
          have same := u32_of_bounds lower (by omega)
          rw [u32_toInt] at same
          omega
        rw [ends, count]
        exact ⟨lower, .storeUser bytes rfl rfl inside.1 (by omega)⟩
  · intro refused
    obtain failed | ⟨-, bytes, ends⟩ :=
      getargs_cases platform pointer.toNat nbytes.toInt kernel
    · rw [failed]
    · split at ends
      · rw [ends] at refused
        cases refused
      · rw [ends] at refused
        exact absurd (Outcome.ret.inj refused) (by decide)

end Kernel

end Ece391Os
