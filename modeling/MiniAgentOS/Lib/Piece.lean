import Mathlib

/-! Pieces of a byte stream and its delivery piece by piece. A stream is a list over any
type; a piece at `offset` is what the stream holds there, for as long as the piece is. -/
namespace Piece

variable {α : Type*} {stream piece : List α} {offset position k : ℕ}

/-- The list `piece` is what `stream` holds at `offset`. -/
def At (stream : List α) (offset : ℕ) (piece : List α) : Prop := piece <+: stream.drop offset

instance [DecidableEq α] : Decidable (At stream offset piece) :=
  inferInstanceAs (Decidable (piece <+: stream.drop offset))

theorem At.eq_take (h : At stream offset piece) :
    piece = (stream.drop offset).take piece.length :=
  List.prefix_iff_eq_take.mp h

theorem At.end_le (h : At stream offset piece) (hne : piece ≠ []) :
    offset + piece.length ≤ stream.length := by
  have hlen := List.IsPrefix.length_le h
  have hpos := List.length_pos_iff.mpr hne
  rw [List.length_drop] at hlen
  omega

theorem At.position_le (h : At stream offset piece) (hle : offset ≤ stream.length) :
    offset + piece.length ≤ stream.length := by
  by_cases hnil : piece = []
  · rw [hnil]
    exact hle
  · exact h.end_le hnil

/-- Dropping the front of a piece leaves a piece further on. -/
theorem At.drop (h : At stream offset piece) (k : ℕ) :
    At stream (offset + k) (piece.drop k) := by
  obtain ⟨rest, hrest⟩ := h
  by_cases hk : k ≤ piece.length
  · refine ⟨rest, ?_⟩
    rw [← List.drop_drop, ← hrest, List.drop_append_of_le_length hk]
  · rw [List.drop_of_length_le (by omega)]
    exact List.nil_prefix

theorem At.take (h : At stream offset piece) (k : ℕ) : At stream offset (piece.take k) :=
  (List.take_prefix k piece).trans h

/-- Delivering the piece that starts where delivery stands advances it by the piece. -/
theorem At.take_append (h : At stream position piece) :
    stream.take position ++ piece = stream.take (position + piece.length) := by
  rw [List.take_add, ← h.eq_take]

/-- A piece that starts at or before the position holds, past the overlap, what comes next. -/
theorem At.trim (h : At stream offset piece) (hle : offset ≤ position) :
    At stream position (piece.drop (position - offset)) := by
  have hdrop := h.drop (position - offset)
  rwa [Nat.add_sub_cancel' hle] at hdrop

theorem At.trim_append (h : At stream offset piece) (hle : offset ≤ position) :
    stream.take position ++ piece.drop (position - offset) =
      stream.take (position + (piece.length - (position - offset))) := by
  rw [(h.trim hle).take_append, List.length_drop]

theorem at_full (stream : List α) : At stream 0 stream := by
  simp [At]

end Piece
