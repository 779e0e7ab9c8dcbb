import Ece391Os.Data.Memory

namespace Ece391Os.Data

/-! A stand-alone text console of 25 rows and 80 columns.  Its screen is one page
of memory with two bytes for each cell, the character and its attribute. -/

structure Tty where
  screen : Memory
  x : Int
  y : Int

namespace Tty

def blank : UInt8 := 32

def colour : UInt8 := 7

def position (tty : Tty) : Int := 80 * tty.y + tty.x

def put (screen : Memory) (index : Nat) (character : UInt8) : Memory :=
  Function.update (Function.update screen (2 * index) character) (2 * index + 1) colour

/-- Every row moves up by one and the last is left blank. -/
def scroll (screen : Memory) : Memory := fun k =>
  if k < 3840 then if k % 2 = 0 then screen (k + 160) else colour
  else if k < 4000 then if k % 2 = 0 then blank else colour
  else screen k

def newLine (tty : Tty) : Tty :=
  if tty.y = 24 then ⟨scroll tty.screen, 0, tty.y⟩ else ⟨tty.screen, 0, tty.y + 1⟩

def write (character : UInt8) (tty : Tty) : Tty :=
  ⟨put tty.screen tty.position.toNat character, tty.x + 1, tty.y⟩

def putc (character : UInt8) (tty : Tty) : Tty :=
  if character = 10 ∨ character = 13 then tty.newLine
  else if tty.x + 1 = 80 then (tty.write character).newLine
  else tty.write character

def putAll (bytes : List UInt8) (tty : Tty) : Tty :=
  bytes.foldl (fun tty character => tty.putc character) tty

/-- Take back the last character: its cell is blanked and keeps its attribute. -/
def erase (tty : Tty) : Tty :=
  let moved : Tty := if tty.x = 0 then ⟨tty.screen, 79, tty.y - 1⟩ else ⟨tty.screen, tty.x - 1, tty.y⟩
  { moved with screen := Function.update tty.screen (2 * moved.position.toNat) blank }

def cleared (screen : Memory) : Tty where
  screen := fun k => if k < 4000 then if k % 2 = 0 then blank else colour else screen k
  x := 0
  y := 0

/-- The characters of the cells before the cursor, in the order of the rows. -/
def before (count : Nat) (tty : Tty) : List UInt8 :=
  (List.range count).map fun i => tty.screen (2 * (tty.position.toNat - count + i))

structure Valid (tty : Tty) : Prop where
  left : 0 ≤ tty.x
  right : tty.x < 80
  top : 0 ≤ tty.y
  bottom : tty.y < 25

variable {tty : Tty}

theorem Valid.position_lt (valid : tty.Valid) :
    0 ≤ tty.position ∧ tty.position < 2000 := by
  obtain ⟨left, right, top, bottom⟩ := valid
  simp only [position]
  omega

theorem valid_corner (screen : Memory) : Tty.Valid ⟨screen, 0, 0⟩ :=
  ⟨Int.le_refl 0, (by decide : (0 : Int) < 80), Int.le_refl 0, (by decide : (0 : Int) < 25)⟩

theorem newLine_valid (top : 0 ≤ tty.y) (bottom : tty.y < 25) : tty.newLine.Valid := by
  simp only [newLine]
  split
  · exact ⟨Int.le_refl 0, by simp only; omega, top, bottom⟩
  · exact ⟨Int.le_refl 0, by simp only; omega, by simp only; omega, by simp only; omega⟩

theorem Valid.putc (valid : tty.Valid) (character : UInt8) : (tty.putc character).Valid := by
  obtain ⟨left, right, top, bottom⟩ := valid
  simp only [Tty.putc]
  split
  · exact newLine_valid top bottom
  · split
    · exact newLine_valid top bottom
    · exact ⟨by simp only [write]; omega, by simp only [write]; omega, top, bottom⟩

theorem position_newLine (tty : Tty) :
    tty.newLine.position = if tty.y = 24 then 1920 else 80 * (tty.y + 1) := by
  simp only [newLine]
  split
  · simp only [position]
    omega
  · simp only [position]
    omega

/-- A character moves the cursor on, except at the bottom of the screen. -/
theorem Valid.position_putc (valid : tty.Valid) (character : UInt8) :
    min (tty.position + 1) 1920 ≤ (tty.putc character).position := by
  obtain ⟨left, right, top, bottom⟩ := valid
  simp only [Tty.putc]
  split
  · rw [position_newLine]
    simp only [position]
    split <;> omega
  · split
    · have row : (tty.write character).y = tty.y := rfl
      rw [position_newLine, row]
      simp only [position]
      split <;> omega
    · simp only [position, write]
      omega

theorem Valid.position_putAll (valid : tty.Valid) (bytes : List UInt8) :
    min (tty.position + bytes.length) 1920 ≤ (tty.putAll bytes).position := by
  induction bytes generalizing tty with
  | nil =>
      simp only [List.length_nil, Tty.putAll, List.foldl_nil]
      omega
  | cons character rest induction =>
      have first := valid.position_putc character
      have others := induction (valid.putc character)
      simp only [List.length_cons]
      have whole : tty.putAll (character :: rest) = (tty.putc character).putAll rest := rfl
      rw [whole]
      omega

/-! The text before the cursor. -/

theorem Valid.erase (valid : tty.Valid) (printed : 0 < tty.position) :
    tty.erase.Valid ∧ tty.erase.position = tty.position - 1 := by
  obtain ⟨left, right, top, bottom⟩ := valid
  simp only [position] at printed
  simp only [Tty.erase]
  split
  · refine ⟨⟨by simp only; omega, by simp only; omega, by simp only; omega, by simp only; omega⟩, ?_⟩
    simp only [position]
    omega
  · refine ⟨⟨by simp only; omega, by simp only; omega, by simp only; omega, by simp only; omega⟩, ?_⟩
    simp only [position]
    omega

/-- The cells before the cursor hold a text. -/
def Shows (text : List UInt8) (tty : Tty) : Prop :=
  text.length ≤ tty.position ∧ tty.before text.length = text

theorem shows_iff {text : List UInt8} :
    tty.Shows text ↔ text.length ≤ tty.position ∧ ∀ (i : Nat) (inside : i < text.length),
      tty.screen (2 * (tty.position.toNat - text.length + i)) = text[i] := by
  refine and_congr_right fun _ => ?_
  constructor
  · intro same i inside
    have cell := List.getElem_of_eq same (by simpa [before] using inside)
    simpa [before] using cell
  · intro cells
    refine List.ext_getElem (by simp [before]) ?_
    intro i _ inside
    simp [before, cells i inside]

/-- A character that does not end its line: the row it fills may scroll. -/
theorem Valid.putc_cells (valid : tty.Valid) {character : UInt8}
    (plain : ¬ (character = 10 ∨ character = 13)) :
    ∃ scrolled : Nat, (tty.putc character).position + scrolled = tty.position + 1 ∧
      (scrolled = 0 ∨ 1920 ≤ (tty.putc character).position) ∧
      ∀ i : Nat, i < (tty.putc character).position →
        (tty.putc character).screen (2 * i) =
          if (i + scrolled : Nat) = tty.position then character
          else tty.screen (2 * (i + scrolled)) := by
  obtain ⟨left, right, top, bottom⟩ := valid
  have written (i : Nat) : put tty.screen tty.position.toNat character (2 * i) =
      if (i : Int) = tty.position then character else tty.screen (2 * i) := by
    have even : 2 * i ≠ 2 * tty.position.toNat + 1 := by omega
    rw [put, Function.update_of_ne even]
    split
    · rename_i here
      rw [← here, Int.toNat_natCast, Function.update_self]
    · rename_i away
      have apart : 2 * i ≠ 2 * tty.position.toNat := by
        simp only [position] at away ⊢
        omega
      rw [Function.update_of_ne apart]
  have row : (tty.write character).y = tty.y := rfl
  simp only [Tty.putc, if_neg plain]
  split
  · rename_i full
    simp only [newLine, row]
    split
    · rename_i last
      refine ⟨80, ?_, .inr ?_, ?_⟩
      · simp only [position]
        omega
      · simp only [position]
        omega
      · intro i below
        simp only [position] at below
        have cell : scroll (tty.write character).screen (2 * i) =
            put tty.screen tty.position.toNat character (2 * (i + 80)) := by
          rw [scroll, if_pos (by omega), if_pos (by omega)]
          rfl
        simp only [cell, written]
    · rename_i inner
      refine ⟨0, ?_, .inl rfl, fun i _ => written i⟩
      simp only [position]
      omega
  · refine ⟨0, ?_, .inl rfl, fun i _ => written i⟩
    simp only [position, write]
    omega

theorem Shows.putc {text : List UInt8} {character : UInt8} (shows : tty.Shows text)
    (valid : tty.Valid) (plain : ¬ (character = 10 ∨ character = 13))
    (room : text.length < 1920) : (tty.putc character).Shows (text ++ [character]) := by
  obtain ⟨behind, cells⟩ := shows_iff.mp shows
  obtain ⟨scrolled, moved, kept, screen⟩ := valid.putc_cells plain
  have length : (text ++ [character]).length = text.length + 1 := List.length_append
  rw [shows_iff]
  constructor
  · omega
  · intro i inside
    rw [screen _ (by omega), List.getElem_append]
    split
    · rw [dif_neg (by omega)]
      simp
    · rename_i away
      rw [dif_pos (by omega), ← cells i (by omega)]
      congr 2
      omega

theorem Shows.putAll {text typed : List UInt8} (shows : tty.Shows text) (valid : tty.Valid)
    (plain : ∀ character ∈ typed, ¬ (character = 10 ∨ character = 13))
    (room : text.length + typed.length ≤ 1920) : (tty.putAll typed).Shows (text ++ typed) := by
  induction typed generalizing tty text with
  | nil => simpa [Tty.putAll] using shows
  | cons character rest induction =>
      simp only [List.length_cons] at room
      have first := shows.putc valid (plain character List.mem_cons_self) (by omega)
      have others := induction first (valid.putc character)
        (fun other member => plain other (List.mem_cons_of_mem character member))
        (by simp only [List.length_append, List.length_singleton]; omega)
      simpa [Tty.putAll] using others

theorem Shows.erase {text : List UInt8} {character : UInt8} (valid : tty.Valid)
    (shows : tty.Shows (text ++ [character])) : tty.erase.Shows text := by
  obtain ⟨behind, cells⟩ := shows_iff.mp shows
  have length : (text ++ [character]).length = text.length + 1 := List.length_append
  obtain ⟨-, back⟩ := valid.erase (by omega)
  rw [shows_iff]
  constructor
  · omega
  · intro i inside
    have cell := cells i (by omega)
    rw [List.getElem_append_left inside] at cell
    have screen : tty.erase.screen = Function.update tty.screen
        (2 * tty.erase.position.toNat) blank := by
      simp only [Tty.erase]
      split <;> rfl
    rw [screen, Function.update_of_ne (by omega), ← cell]
    congr 2
    omega

theorem shows_nil (valid : tty.Valid) : tty.Shows [] :=
  ⟨valid.position_lt.1, rfl⟩

end Tty

end Ece391Os.Data
