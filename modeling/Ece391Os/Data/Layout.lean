import Ece391Os.Data.TextMode

namespace Ece391Os.Data

/-! Text in rows of bounded width. -/

section Layout

variable {Character : Type} (width : Nat) (breaks : Character → Prop) [DecidablePred breaks]

/-- The rows of a text from a row on that has begun.  A break ends its row and is
not part of it; a row that has the full width ends by itself. -/
def rowsFrom (row : List Character) : List Character → List (List Character)
  | [] => [row]
  | character :: rest =>
      if breaks character then row :: rowsFrom [] rest
      else if row.length + 1 = width then (row ++ [character]) :: rowsFrom [] rest
      else rowsFrom (row ++ [character]) rest

def layout (text : List Character) : List (List Character) := rowsFrom width breaks [] text

def extend (row : List Character) (character : Character) : List (List Character) :=
  if breaks character then [row, []]
  else if row.length + 1 = width then [row ++ [character], []]
  else [row ++ [character]]

theorem rowsFrom_concat (row text : List Character) (character : Character) :
    ∃ earlier last, rowsFrom width breaks row text = earlier ++ [last] ∧
      rowsFrom width breaks row (text ++ [character]) =
        earlier ++ extend width breaks last character := by
  induction text generalizing row with
  | nil =>
      refine ⟨[], row, rfl, ?_⟩
      simp only [List.nil_append, rowsFrom, extend]
  | cons first rest induction =>
      simp only [List.cons_append, rowsFrom]
      split
      · obtain ⟨earlier, last, rows, extended⟩ := induction []
        exact ⟨row :: earlier, last, by rw [rows]; rfl, by rw [extended]; rfl⟩
      · split
        · obtain ⟨earlier, last, rows, extended⟩ := induction []
          exact ⟨(row ++ [first]) :: earlier, last, by rw [rows]; rfl, by rw [extended]; rfl⟩
        · exact induction (row ++ [first])

theorem layout_concat (text : List Character) (character : Character) :
    ∃ earlier last, layout width breaks text = earlier ++ [last] ∧
      layout width breaks (text ++ [character]) =
        earlier ++ extend width breaks last character :=
  rowsFrom_concat width breaks [] text character

end Layout

def lastRows {Row : Type} (height : Nat) (rows : List Row) : List Row :=
  rows.drop (rows.length - height)

/-! The rows of a text on the console. -/

def EndsRow (character : UInt8) : Prop := character = 10 ∨ character = 13

instance (character : UInt8) : Decidable (EndsRow character) :=
  inferInstanceAs (Decidable (_ ∨ _))

namespace Tty

/-- The character in a cell when the last 25 of some rows are on the screen. -/
def cellOf (rows : List (List UInt8)) (row column : Nat) : UInt8 :=
  ((lastRows 25 rows).getD row []).getD column blank

/-- The screen shows the last 25 rows, and the cursor stands behind the last. -/
structure Lays (earlier : List (List UInt8)) (last : List UInt8) (tty : Tty) : Prop where
  characters : ∀ row < 25, ∀ column < 80,
    tty.screen (2 * (80 * row + column)) = cellOf (earlier ++ [last]) row column
  attributes : ∀ row < 25, ∀ column < 80, tty.screen (2 * (80 * row + column) + 1) = colour
  column : tty.x = last.length
  row : tty.y = min earlier.length 24

theorem cellOf_eq (rows : List (List UInt8)) (row column : Nat) :
    cellOf rows row column = (rows.getD (rows.length - 25 + row) []).getD column blank := by
  simp only [cellOf, lastRows, List.getD_eq_getElem?_getD, List.getElem?_drop]

variable {earlier : List (List UInt8)} {last : List UInt8} {tty : Tty}

theorem getD_concat (rows : List (List UInt8)) (last : List UInt8) (index : Nat) :
    (rows ++ [last]).getD index [] =
      if index = rows.length then last else rows.getD index [] := by
  simp only [List.getD_eq_getElem?_getD]
  split
  · rename_i here
    rw [here, List.getElem?_concat_length]
    rfl
  · rename_i away
    by_cases inside : index < rows.length
    · rw [List.getElem?_append_left inside]
    · rw [List.getElem?_eq_none (by simp; omega), List.getElem?_eq_none (by omega)]

theorem Lays.write (lays : Lays earlier last tty) (room : last.length < 80)
    (character : UInt8) : Lays earlier (last ++ [character]) (tty.write character) := by
  have position : tty.position.toNat = 80 * min earlier.length 24 + last.length := by
    simp only [Tty.position, lays.column, lays.row]
    omega
  refine ⟨?_, ?_, ?_, lays.row⟩
  · intro row inside column within
    simp only [Tty.write, put, position]
    rw [Function.update_of_ne (by omega)]
    by_cases here : row = min earlier.length 24 ∧ column = last.length
    · obtain ⟨rfl, rfl⟩ := here
      rw [Function.update_self, cellOf_eq, getD_concat,
        if_pos (by simp only [List.length_append, List.length_singleton]; omega)]
      simp
    · rw [Function.update_of_ne (by omega), lays.characters row inside column within, cellOf_eq,
        cellOf_eq, getD_concat, getD_concat]
      simp only [List.length_append, List.length_singleton]
      split
      · rename_i bottom
        have apart : column ≠ last.length := fun same => here ⟨by omega, same⟩
        simp only [List.getD_eq_getElem?_getD]
        by_cases before : column < last.length
        · rw [List.getElem?_append_left before]
        · have beyond : (last ++ [character]).length ≤ column := by
            simp only [List.length_append, List.length_singleton]
            omega
          rw [List.getElem?_eq_none beyond, List.getElem?_eq_none (by omega)]
      · rfl
  · intro row inside column within
    simp only [Tty.write, put, position]
    by_cases here : row = min earlier.length 24 ∧ column = last.length
    · rw [here.1, here.2, Function.update_self]
    · rw [Function.update_of_ne (by omega), Function.update_of_ne (by omega)]
      exact lays.attributes row inside column within
  · simp only [Tty.write, lays.column, List.length_append, List.length_singleton]
    rfl

theorem Lays.newLine (lays : Lays earlier last tty) :
    Lays (earlier ++ [last]) [] tty.newLine := by
  have row := lays.row
  by_cases bottom : tty.y = 24
  · have scrolled : tty.newLine = ⟨scroll tty.screen, 0, tty.y⟩ := if_pos bottom
    rw [scrolled]
    refine ⟨?_, ?_, rfl, ?_⟩
    · intro row inside column within
      rw [cellOf_eq, getD_concat]
      simp only [List.length_append, List.length_singleton]
      by_cases lowest : row = 24
      · rw [if_pos (by omega)]
        simp only [scroll]
        rw [if_neg (by omega), if_pos (by omega), if_pos (by omega)]
        rfl
      · have above := lays.characters (row + 1) (by omega) column within
        rw [cellOf_eq] at above
        simp only [List.length_append, List.length_singleton] at above
        simp only [scroll]
        rw [if_pos (by omega), if_pos (by omega), if_neg (by omega),
          show 2 * (80 * row + column) + 160 = 2 * (80 * (row + 1) + column) by omega, above,
          show earlier.length + 1 - 25 + (row + 1) = earlier.length + 1 + 1 - 25 + row by omega]
    · intro row inside column within
      simp only [scroll]
      split
      · rw [if_neg (by omega)]
      · rw [if_pos (by omega), if_neg (by omega)]
    · simp only [List.length_append, List.length_singleton]
      omega
  · have moved : tty.newLine = ⟨tty.screen, 0, tty.y + 1⟩ := if_neg bottom
    rw [moved]
    refine ⟨?_, lays.attributes, rfl, ?_⟩
    · intro row inside column within
      rw [lays.characters row inside column within, cellOf_eq, cellOf_eq,
        getD_concat (earlier ++ [last])]
      simp only [List.length_append, List.length_singleton]
      rw [show earlier.length + 1 - 25 + row = row by omega,
        show earlier.length + 1 + 1 - 25 + row = row by omega]
      split
      · rename_i next
        have beyond : (earlier ++ [last]).length ≤ row := by
          simp only [List.length_append, List.length_singleton]
          omega
        simp only [List.getD_eq_getElem?_getD, List.getElem?_eq_none beyond]
        rfl
      · rfl
    · simp only [List.length_append, List.length_singleton]
      omega

def LaysOut (text : List UInt8) (tty : Tty) : Prop :=
  ∃ earlier last, layout 80 EndsRow text = earlier ++ [last] ∧ last.length < 80 ∧
    Lays earlier last tty

theorem laysOut_nil {tty : Tty}
    (blanked : ∀ row < 25, ∀ column < 80, tty.screen (2 * (80 * row + column)) = blank ∧
      tty.screen (2 * (80 * row + column) + 1) = colour)
    (left : tty.x = 0) (top : tty.y = 0) : LaysOut [] tty := by
  refine ⟨[], [], rfl, by decide, ?_, ?_, left, top⟩
  · intro row inside column within
    rw [(blanked row inside column within).1, cellOf_eq, List.nil_append, List.length_singleton]
    rcases Nat.eq_zero_or_pos row with rfl | below
    · rfl
    · have beyond : ([[]] : List (List UInt8)).length ≤ 1 - 25 + row := by
        simp only [List.length_singleton]
        omega
      simp only [List.getD_eq_getElem?_getD, List.getElem?_eq_none beyond]
      rfl
  · intro row inside column within
    exact (blanked row inside column within).2

theorem LaysOut.valid {text : List UInt8} (lays : LaysOut text tty) : tty.Valid := by
  obtain ⟨earlier, last, _, room, lays⟩ := lays
  have column := lays.column
  have row := lays.row
  exact ⟨by omega, by omega, by omega, by omega⟩

theorem LaysOut.putc {text : List UInt8} (lays : LaysOut text tty) (character : UInt8) :
    LaysOut (text ++ [character]) (tty.putc character) := by
  obtain ⟨before, final, rows, extended⟩ := layout_concat 80 EndsRow text character
  obtain ⟨earlier, last, same, room, lays⟩ := lays
  rw [rows] at same
  obtain ⟨rfl, single⟩ := List.append_inj' same rfl
  obtain rfl := List.singleton_inj.mp single
  simp only [extend] at extended
  by_cases ends : EndsRow character
  · rw [if_pos ends] at extended
    have drawn : tty.putc character = tty.newLine := if_pos ends
    exact ⟨before ++ [final], [], by rw [extended, List.append_assoc]; rfl, by decide,
      drawn ▸ lays.newLine⟩
  · rw [if_neg ends] at extended
    have column := lays.column
    by_cases full : final.length + 1 = 80
    · rw [if_pos full] at extended
      have drawn : tty.putc character = (tty.write character).newLine :=
        (if_neg ends).trans (if_pos (by omega))
      exact ⟨before ++ [final ++ [character]], [], by rw [extended, List.append_assoc]; rfl,
        by decide, drawn ▸ (lays.write room character).newLine⟩
    · rw [if_neg full] at extended
      have drawn : tty.putc character = tty.write character :=
        (if_neg ends).trans (if_neg (by omega))
      refine ⟨before, final ++ [character], extended, ?_, drawn ▸ lays.write room character⟩
      simp only [List.length_append, List.length_singleton]
      omega

theorem LaysOut.putAll {text : List UInt8} (lays : LaysOut text tty) (bytes : List UInt8) :
    LaysOut (text ++ bytes) (tty.putAll bytes) := by
  induction bytes generalizing tty text with
  | nil => simpa [Tty.putAll] using lays
  | cons character rest induction =>
      have whole : text ++ character :: rest = text ++ [character] ++ rest := by
        rw [List.append_assoc]
        rfl
      rw [whole]
      exact induction (lays.putc character)

end Tty

end Ece391Os.Data
