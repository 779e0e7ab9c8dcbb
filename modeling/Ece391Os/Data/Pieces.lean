import Mathlib.Algebra.GroupWithZero.Nat
import Mathlib.Data.List.Induction

namespace Ece391Os.Data

/-! Reading a sequence piece by piece: each request is answered with what follows
the pieces before it. -/

structure Piece (α : Type) where
  wanted : Nat
  items : List α

section Pieces

variable {α : Type} {whole : List α} {pieces : List (Piece α)} {piece : Piece α}

def delivered (pieces : List (Piece α)) : List α := pieces.flatMap Piece.items

theorem delivered_snoc (pieces : List (Piece α)) (piece : Piece α) :
    delivered (pieces ++ [piece]) = delivered pieces ++ piece.items := by
  simp [delivered]

/-- Each piece continues where those before it ended. -/
inductive Sequential (whole : List α) : List (Piece α) → Prop
  | nil : Sequential whole []
  | snoc {pieces : List (Piece α)} {piece : Piece α} (before : Sequential whole pieces)
      (items : piece.items = (whole.drop (delivered pieces).length).take piece.wanted) :
      Sequential whole (pieces ++ [piece])

namespace Sequential

theorem delivered_eq (sequential : Sequential whole pieces) :
    delivered pieces = whole.take (pieces.map Piece.wanted).sum := by
  induction sequential with
  | nil => simp [delivered]
  | snoc before items induction =>
      rename_i pieces piece
      rw [delivered_snoc, items, induction, List.map_append, List.sum_append, List.map_singleton,
        List.sum_singleton, List.length_take]
      rcases Nat.le_total (pieces.map Piece.wanted).sum whole.length with inside | past
      · rw [Nat.min_eq_left inside, List.take_add]
      · rw [Nat.min_eq_right past, List.drop_length, List.take_nil, List.append_nil,
          List.take_of_length_le past, List.take_of_length_le (by omega)]

theorem of_append {rest : List (Piece α)} (sequential : Sequential whole (pieces ++ rest)) :
    Sequential whole pieces := by
  induction rest using List.reverseRecOn with
  | nil => simpa using sequential
  | append_singleton rest last induction =>
      rw [← List.append_assoc] at sequential
      generalize together : pieces ++ rest ++ [last] = joined at sequential
      cases sequential with
      | nil => simp at together
      | snoc before _ =>
          obtain ⟨same, -⟩ := List.append_inj' together rfl
          exact induction (same ▸ before)

theorem items_eq (sequential : Sequential whole (pieces ++ [piece])) :
    piece.items = (whole.drop (delivered pieces).length).take piece.wanted := by
  generalize together : pieces ++ [piece] = joined at sequential
  cases sequential with
  | nil => simp at together
  | snoc _ items =>
      obtain ⟨rfl, last⟩ := List.append_inj' together rfl
      obtain rfl := List.singleton_inj.mp last
      exact items

theorem length_items (sequential : Sequential whole (pieces ++ [piece])) :
    piece.items.length = min piece.wanted (whole.length - (delivered pieces).length) := by
  rw [sequential.items_eq, List.length_take, List.length_drop]

theorem items_nil_iff (sequential : Sequential whole (pieces ++ [piece]))
    (wants : 0 < piece.wanted) : piece.items.length = 0 ↔ delivered pieces = whole := by
  rw [sequential.length_items, sequential.of_append.delivered_eq, List.length_take]
  constructor
  · intro nothing
    exact List.take_of_length_le (by omega)
  · intro everything
    have length := congrArg List.length everything
    rw [List.length_take] at length
    omega

end Sequential

end Pieces

/-- Blocks of one size, listed one after the other. -/
theorem flatMap_blocks {α : Type} (item : Nat → α) (size count : Nat) :
    (List.range count).flatMap (fun index =>
        (List.range size).map fun k => item (index * size + k)) =
      (List.range (count * size)).map item := by
  induction count with
  | zero => simp
  | succ count induction =>
      rw [List.range_succ, List.flatMap_append, induction, Nat.succ_mul, List.range_add,
        List.map_append, List.map_map]
      simp [Function.comp_def]

end Ece391Os.Data
