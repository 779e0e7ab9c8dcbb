import Ece391Os.Data.TextMode
import Ece391Os.Kernel.Screen

namespace Ece391Os

open Data

/-! What the screen functions of `lib.c` do to a page of video memory. -/

def pageView (page : Nat) (video : Memory) : Memory := fun k =>
  if k < 4096 then video (page + k) else 0

theorem pageView_apply {page k : Nat} (video : Memory) (inside : k < 4096) :
    pageView page video k = video (page + k) := if_pos inside

def SameOutside (page : Nat) (before after : Memory) : Prop :=
  ∀ address, ¬ (page ≤ address ∧ address < page + 4096) → after address = before address

namespace SameOutside

variable {page other : Nat} {before middle after : Memory}

theorem refl (page : Nat) (video : Memory) : SameOutside page video video := fun _ _ => rfl

theorem trans (first : SameOutside page before middle)
    (second : SameOutside page middle after) : SameOutside page before after :=
  fun address outside => (second address outside).trans (first address outside)

theorem pageView_eq (same : SameOutside page before after)
    (apart : other + 4096 ≤ page ∨ page + 4096 ≤ other) :
    pageView other after = pageView other before := by
  funext k
  by_cases inside : k < 4096
  · rw [pageView_apply after inside, pageView_apply before inside]
    exact same (other + k) (by omega)
  · simp [pageView, inside]

end SameOutside

/-! Cells. -/

section Cells

variable {page : Nat} {index : Int}

theorem videoPhysical_cell (page : Nat) (lower : 0 ≤ index) (upper : index < 2000) :
    videoPhysical page (cellAddr index) = some (page + 2 * index.toNat) ∧
      videoPhysical page (cellAddr index + 1) = some (page + 2 * index.toNat + 1) := by
  have first : cellAddr index / 4096 = 0xB8 ∧
      (cellAddr index % 4096).toNat = 2 * index.toNat := by
    simp only [cellAddr, videoMemAddr]
    omega
  have second : (cellAddr index + 1) / 4096 = 0xB8 ∧
      ((cellAddr index + 1) % 4096).toNat = 2 * index.toNat + 1 := by
    simp only [cellAddr, videoMemAddr]
    omega
  rw [videoPhysical, videoPhysical, if_pos first.1, if_pos second.1, first.2, second.2,
    Nat.add_assoc]
  exact ⟨rfl, rfl⟩

theorem storeCell_eq (character : UInt8) (video : Memory) (lower : 0 ≤ index)
    (upper : index < 2000) :
    storeCell page index character video =
      Function.update (Function.update video (page + 2 * index.toNat) character)
        (page + 2 * index.toNat + 1) attrib := by
  obtain ⟨first, second⟩ := videoPhysical_cell page lower upper
  simp only [storeCell, videoStore, first, second]

theorem storeCell_outside (character : UInt8) (video : Memory) (lower : 0 ≤ index)
    (upper : index < 2000) : SameOutside page video (storeCell page index character video) := by
  intro address outside
  rw [storeCell_eq character video lower upper, Function.update_of_ne (by omega),
    Function.update_of_ne (by omega)]

theorem pageView_storeCell (character : UInt8) (video : Memory) (lower : 0 ≤ index)
    (upper : index < 2000) :
    pageView page (storeCell page index character video) =
      Tty.put (pageView page video) index.toNat character := by
  rw [storeCell_eq character video lower upper]
  funext k
  by_cases inside : k < 4096
  · rw [pageView_apply _ inside]
    by_cases odd : k = 2 * index.toNat + 1
    · subst odd
      rw [Nat.add_assoc, Function.update_self, Tty.put, Function.update_self]
      rfl
    · rw [Function.update_of_ne (by omega), Tty.put, Function.update_of_ne odd]
      by_cases even : k = 2 * index.toNat
      · rw [even, Function.update_self, Function.update_self]
      · rw [Function.update_of_ne (by omega), Function.update_of_ne even,
          pageView_apply _ inside]
  · have odd : k ≠ 2 * index.toNat + 1 := by omega
    have even : k ≠ 2 * index.toNat := by omega
    rw [Tty.put, Function.update_of_ne odd, Function.update_of_ne even]
    simp [pageView, inside]

theorem pageView_videoStore (character : UInt8) (video : Memory) (lower : 0 ≤ index)
    (upper : index < 2000) :
    pageView page (videoStore page (cellAddr index) character video) =
      Function.update (pageView page video) (2 * index.toNat) character := by
  rw [videoStore, (videoPhysical_cell page lower upper).1]
  funext k
  simp only
  by_cases inside : k < 4096
  · rw [pageView_apply _ inside]
    by_cases here : k = 2 * index.toNat
    · rw [here, Function.update_self, Function.update_self]
    · rw [Function.update_of_ne (by omega), Function.update_of_ne here,
        pageView_apply _ inside]
  · have away : k ≠ 2 * index.toNat := by omega
    rw [Function.update_of_ne away]
    simp only [pageView, if_neg inside]

end Cells

/-! Loops over cells. -/

section Loops

/-- A loop that stores cell after cell from `first` on, when what it stores in a
cell depends only on memory it has not reached. -/
theorem cell_rounds (page : Nat) (video : Memory) (value : Nat → Memory → UInt8)
    (first n : Nat)
    (ahead : ∀ i < n, ∀ other, (∀ address, page + 2 * (first + i) ≤ address →
      other address = video address) → value i other = value i video)
    (bound : first + n ≤ 2000) :
    (List.range n).foldl
      (fun video (i : Nat) => storeCell page (first + i : Nat) (value i video) video)
      video =
      fun address =>
        if page + 2 * first ≤ address ∧ address < page + 2 * (first + n) then
          if (address - page) % 2 = 0 then value ((address - page) / 2 - first) video
          else attrib
        else video address := by
  induction n with
  | zero =>
      funext address
      rw [if_neg (by omega)]
      rfl
  | succ n induction =>
      have earlier := induction (fun i below => ahead i (by omega)) (by omega)
      rw [List.range_succ, List.foldl_append, earlier, List.foldl_cons,
        List.foldl_nil, storeCell_eq _ _ (by omega) (by omega), Int.toNat_natCast,
        ahead n (Nat.lt_succ_self n) _ fun address reached => if_neg (by omega)]
      funext address
      by_cases odd : address = page + 2 * (first + n) + 1
      · rw [odd, Function.update_self, if_pos (by omega), if_neg (by omega)]
      · rw [Function.update_of_ne odd]
        by_cases even : address = page + 2 * (first + n)
        · rw [even, Function.update_self, if_pos (by omega), if_pos (by omega)]
          congr 1
          omega
        · rw [Function.update_of_ne even]
          by_cases done : page + 2 * first ≤ address ∧ address < page + 2 * (first + n)
          · have inside : page + 2 * first ≤ address ∧
                address < page + 2 * (first + (n + 1)) := by omega
            rw [if_pos done, if_pos inside]
          · rw [if_neg done, if_neg (by omega)]

theorem clear_outside (page : Nat) (video : Memory) :
    SameOutside page video (clear page video) := by
  intro address outside
  have rounds := cell_rounds page video (fun _ _ => space) 0 2000
    (fun _ _ _ _ => rfl) (Nat.le_refl _)
  simp only [Nat.zero_add] at rounds
  rw [clear, rounds]
  exact if_neg (by omega)

theorem pageView_clear (page : Nat) (video : Memory) :
    pageView page (clear page video) = (Tty.cleared (pageView page video)).screen := by
  have rounds := cell_rounds page video (fun _ _ => space) 0 2000
    (fun _ _ _ _ => rfl) (Nat.le_refl _)
  simp only [Nat.zero_add] at rounds
  rw [clear, rounds]
  funext k
  simp only [Tty.cleared]
  by_cases inside : k < 4096
  · rw [pageView_apply _ inside, pageView_apply _ inside, Nat.add_sub_cancel_left]
    by_cases blanked : k < 4000
    · rw [if_pos (by omega), if_pos blanked]
      rfl
    · rw [if_neg (by omega), if_neg blanked]
  · rw [if_neg (by omega)]
    simp only [pageView, if_neg inside]

theorem scrollUp_eq (page : Nat) (video : Memory) :
    scrollUp page video = fun address =>
      if page ≤ address ∧ address < page + 3840 then
        if (address - page) % 2 = 0 then video (address + 160) else attrib
      else if page ≤ address ∧ address < page + 4000 then
        if (address - page) % 2 = 0 then space else attrib
      else video address := by
  have below {i : Nat} (inside : i < 1920) (video : Memory) :
      videoLoad page (cellAddr (i + numCols)) video = video (page + 2 * i + 160) := by
    have physical := (videoPhysical_cell page (by simp only [numCols]; omega :
      0 ≤ (i : Int) + numCols) (by simp only [numCols]; omega)).1
    have row : page + 2 * ((i : Int) + numCols).toNat = page + 2 * i + 160 := by
      simp only [numCols]
      omega
    simp only [videoLoad, physical, row]
  have rows := cell_rounds page video
    (fun i video => videoLoad page (cellAddr (i + numCols)) video) 0 1920
    (fun i inside other same => by
      simp only [below inside]
      exact same _ (by omega)) (by decide)
  simp only [Nat.zero_add] at rows
  have last := cell_rounds page
    (fun address => if page + 2 * 0 ≤ address ∧ address < page + 2 * 1920 then
      if (address - page) % 2 = 0 then
        videoLoad page (cellAddr (((address - page) / 2 - 0 : Nat) + numCols)) video
      else attrib
    else video address) (fun _ _ => space) 1920 80 (fun _ _ _ _ => rfl) (by decide)
  simp only [Int.natCast_add, Int.cast_ofNat_Int] at last
  rw [scrollUp, rows, last]
  funext address
  by_cases moved : page ≤ address ∧ address < page + 3840
  · rw [if_neg (by omega), if_pos (by omega), if_pos moved]
    by_cases even : (address - page) % 2 = 0
    · have source : page + 2 * ((address - page) / 2 - 0) + 160 = address + 160 := by omega
      rw [if_pos even, if_pos even, below (by omega), source]
    · rw [if_neg even, if_neg even]
  · by_cases blanked : page ≤ address ∧ address < page + 4000
    · rw [if_pos (by omega), if_neg moved, if_pos blanked]
    · rw [if_neg (by omega), if_neg (by omega), if_neg moved, if_neg blanked]

theorem scrollUp_outside (page : Nat) (video : Memory) :
    SameOutside page video (scrollUp page video) := by
  intro address outside
  rw [scrollUp_eq]
  simp only
  rw [if_neg (by omega), if_neg (by omega)]

theorem pageView_scrollUp (page : Nat) (video : Memory) :
    pageView page (scrollUp page video) = Tty.scroll (pageView page video) := by
  rw [scrollUp_eq]
  funext k
  by_cases inside : k < 4096
  · rw [pageView_apply _ inside, Tty.scroll, Nat.add_sub_cancel_left]
    by_cases moved : k < 3840
    · rw [if_pos (by omega), if_pos moved, pageView_apply _ (by omega)]
      rfl
    · rw [if_neg (by omega), if_neg moved, pageView_apply _ inside]
      by_cases blanked : k < 4000
      · rw [if_pos (by omega), if_pos blanked]
        rfl
      · rw [if_neg (by omega), if_neg blanked]
  · rw [Tty.scroll, if_neg (by omega), if_neg (by omega)]
    simp [pageView, inside]

/-- The copy of one page to another, when addresses of both are translated page
by page. -/
theorem copyPage_eq {page dest src : Nat} {destAddr srcAddr : Int}
    (toDest : ∀ i : Nat, i < 4096 → videoPhysical page (destAddr + i) = some (dest + i))
    (toSrc : ∀ i : Nat, i < 4096 → videoPhysical page (srcAddr + i) = some (src + i))
    (apart : src + 4096 ≤ dest ∨ dest + 4096 ≤ src) (video : Memory) :
    copyPage page destAddr srcAddr video = Memory.blit video src video dest 4096 := by
  have rounds (n : Nat) (bound : n ≤ 4096) :
      (List.range n).foldl
        (fun video (i : Nat) =>
          videoStore page (destAddr + i) (videoLoad page (srcAddr + i) video) video) video =
        Memory.blit video src video dest n := by
    induction n with
    | zero => simp
    | succ n induction =>
        rw [List.range_succ, List.foldl_append, induction (by omega), List.foldl_cons,
          List.foldl_nil]
        simp only [videoStore, videoLoad, toDest n (by omega), toSrc n (by omega)]
        rw [Memory.blit_outside (by omega)]
        funext address
        by_cases here : address = dest + n
        · rw [here, Function.update_self, Memory.blit_inside (by omega) (by omega),
            Nat.add_sub_cancel_left]
        · rw [Function.update_of_ne here]
          by_cases done : dest ≤ address ∧ address < dest + n
          · rw [Memory.blit_inside done.1 done.2, Memory.blit_inside done.1 (by omega)]
          · rw [Memory.blit_outside done, Memory.blit_outside (by omega)]
  exact rounds 4096 (Nat.le_refl _)

theorem pageView_blit {source memory : Memory} {start dest : Nat} :
    pageView dest (Memory.blit source start memory dest 4096) = pageView start source := by
  funext k
  by_cases inside : k < 4096
  · rw [pageView_apply _ inside, pageView_apply _ inside,
      Memory.blit_inside (by omega) (by omega), Nat.add_sub_cancel_left]
  · simp [pageView, inside]

theorem blit_sameOutside {source memory : Memory} {start dest : Nat} :
    SameOutside dest memory (Memory.blit source start memory dest 4096) :=
  fun _ outside => Memory.blit_outside outside

end Loops

end Ece391Os
