import Ece391Os.Data.Layout
import Ece391Os.Kernel.Machine
import Ece391Os.Terminal.Screens

namespace Ece391Os

open Data

/-! Output on a cleared screen is the layout of the text in rows. -/

def printedBy (call : Option Memory × Int) : List UInt8 :=
  match call.1 with
  | none => []
  | some bytes => (List.range call.2.toNat).map bytes

namespace Console

structure HomeOn (page : Nat) (console : Console) : Prop where
  cells : ∀ row < 25, ∀ column < 80,
    console.video (page + 2 * (80 * row + column)) = space ∧
      console.video (page + 2 * (80 * row + column) + 1) = attrib
  x : console.printing.x = 0
  y : console.printing.y = 0

/-- The last rows of a text are on the screen, with blanks in the other cells, and
the cursor is behind the last character. -/
structure ShowsRows (page : Nat) (text : List UInt8) (console : Console) : Prop where
  characters : ∀ row < 25, ∀ column < 80,
    console.video (page + 2 * (80 * row + column)) =
      ((lastRows 25 (layout 80 EndsRow text)).getD row []).getD column space
  attributes : ∀ row < 25, ∀ column < 80,
    console.video (page + 2 * (80 * row + column) + 1) = attrib
  x : console.printing.x = ((layout 80 EndsRow text).getLastD []).length
  y : console.printing.y = min ((layout 80 EndsRow text).length - 1 : Int) 24
  cursor : text ≠ [] → console.printTerminal = console.curTerminal →
    (console.cursor : Int) = 80 * console.printing.y + console.printing.x

def terminalWrites (page : Nat) (calls : List (Option Memory × Int)) (console : Console) :
    Console :=
  calls.foldl (fun console call => (console.terminalWrite page call.1 call.2).2) console

variable {page : Nat} {console after : Console} {result : Tty}

theorem terminalWrite_putAll (page : Nat) (call : Option Memory × Int) (console : Console) :
    (console.terminalWrite page call.1 call.2).2 = console.putAll page (printedBy call) := by
  obtain ⟨buf, nbytes⟩ := call
  cases buf with
  | none => rfl
  | some bytes =>
      simp only [terminalWrite, printedBy]
      split
      · rename_i negative
        rw [Int.toNat_of_nonpos (by omega)]
        rfl
      · rfl

theorem terminalWrites_putAll (page : Nat) (calls : List (Option Memory × Int))
    (console : Console) :
    console.terminalWrites page calls = console.putAll page (calls.flatMap printedBy) := by
  induction calls generalizing console with
  | nil => rfl
  | cons call rest induction =>
      have first : console.terminalWrites page (call :: rest) =
          (console.terminalWrite page call.1 call.2).2.terminalWrites page rest := rfl
      rw [first, terminalWrite_putAll, induction, List.flatMap_cons, putAll, putAll, putAll,
        List.foldl_append]

theorem Draws.through (draws : Draws page console after result) :
    after.through page = result ∧ after.printTerminal = console.printTerminal ∧
      after = after.showCursor := by
  obtain ⟨video, _, view, rfl⟩ := draws
  refine ⟨?_, rfl, rfl⟩
  have shown : (console.drawn console.printTerminal video result.x result.y).through page =
      ⟨pageView page video, result.x, result.y⟩ := by
    simp [drawn, Console.through, printing, modifyShell, showCursor, moveCursor]
  rw [shown, tty_eta result view]

theorem putAll_through (bytes : List UInt8) (valid : (console.through page).Valid) :
    (console.putAll page bytes).through page = (console.through page).putAll bytes ∧
      (bytes ≠ [] → console.putAll page bytes = (console.putAll page bytes).showCursor) := by
  induction bytes generalizing console with
  | nil => exact ⟨rfl, fun some => absurd rfl some⟩
  | cons character rest induction =>
      obtain ⟨shown, _, settled⟩ := (putc_through character valid).through
      obtain ⟨others, last⟩ := induction (shown ▸ valid.putc character)
      refine ⟨others.trans (by rw [shown]; rfl), fun _ => ?_⟩
      cases rest with
      | nil => exact settled
      | cons => exact last (List.cons_ne_nil _ _)

theorem showsRows_of_laysOut {text : List UInt8}
    (lays : Tty.LaysOut text (console.through page))
    (settled : text ≠ [] → console = console.showCursor) : console.ShowsRows page text := by
  have valid := lays.valid
  obtain ⟨earlier, last, rows, room, lays⟩ := lays
  have view {k : Nat} (inside : k < 4096) : console.video (page + k) =
      (console.through page).screen k := (pageView_apply console.video inside).symm
  refine ⟨?_, ?_, ?_, ?_, ?_⟩
  · intro row inside column within
    rw [view (by omega), lays.characters row inside column within, rows]
    rfl
  · intro row inside column within
    rw [Nat.add_assoc, view (by omega)]
    exact lays.attributes row inside column within
  · rw [rows, List.getLastD_concat]
    exact lays.column
  · rw [rows, List.length_append, List.length_singleton]
    have row : console.printing.y = min earlier.length 24 := lays.row
    omega
  · intro printed viewing
    have shown : console.viewed = console.printing := by
      rw [viewed, printing, viewing]
    have range := valid.position_lt
    simp only [Tty.position, through] at range
    have cursor : console.cursor =
        ((console.viewed.y * numCols + console.viewed.x) % 65536).toNat := by
      have same := settled printed
      rw [same]
      rfl
    rw [cursor, shown]
    simp only [numCols]
    omega

/-- Whatever is written on a cleared screen, in one call or in several, the screen
shows the last rows of its layout. -/
theorem terminalWrites_showsRows (calls : List (Option Memory × Int))
    (home : console.HomeOn page) :
    (console.terminalWrites page calls).ShowsRows page (calls.flatMap printedBy) := by
  have blank : Tty.LaysOut [] (console.through page) := by
    refine Tty.laysOut_nil (fun row inside column within => ?_) home.x home.y
    have cell := home.cells row inside column within
    rw [Nat.add_assoc] at cell
    refine ⟨?_, ?_⟩
    · exact (pageView_apply console.video (by omega)).trans cell.1
    · exact (pageView_apply console.video (by omega)).trans cell.2
  obtain ⟨shown, settled⟩ := putAll_through (calls.flatMap printedBy) blank.valid
  have lays := blank.putAll (calls.flatMap printedBy)
  rw [List.nil_append, ← shown] at lays
  rw [terminalWrites_putAll]
  exact showsRows_of_laysOut lays settled

theorem homeOn_of_through {screen : Memory}
    (shown : console.through page = Tty.cleared screen) : console.HomeOn page := by
  have cell (k : Nat) (inside : k < 4000) :
      console.video (page + k) = if k % 2 = 0 then space else attrib := by
    have same := congrFun (congrArg Tty.screen shown) k
    simp only [Console.through, Tty.cleared] at same
    rw [pageView_apply _ (by omega), if_pos inside] at same
    exact same
  refine ⟨?_, congrArg Tty.x shown, congrArg Tty.y shown⟩
  intro row inside column within
  refine ⟨?_, ?_⟩
  · rw [cell _ (by omega), if_pos (by omega)]
  · rw [Nat.add_assoc, cell _ (by omega), if_neg (by omega)]

theorem homeOn_cleared (printing : console.printTerminal = console.curTerminal) :
    ((console.clearScreen page).resetScreen).HomeOn page := by
  have draws : Draws page console ((console.clearScreen page).resetScreen)
      (Tty.cleared (pageView page console.video)) := by
    refine ⟨clear page console.video, clear_outside _ _, pageView_clear _ _, ?_⟩
    rw [clearScreen_resetScreen, printing]
    rfl
  exact homeOn_of_through draws.through.1

theorem showsRows_sample :
    ((((Kernel.zeroed Sample.memory).console.clearScreen 0xB8000).resetScreen).terminalWrites
      0xB8000 [(some fun k => if k = 0 then 65 else 10, 2), (some fun _ => 66, 1)]).ShowsRows
        0xB8000 [65, 10, 66] :=
  terminalWrites_showsRows [(some fun k => if k = 0 then 65 else 10, 2), (some fun _ => 66, 1)]
    (homeOn_cleared rfl)

end Console

end Ece391Os
