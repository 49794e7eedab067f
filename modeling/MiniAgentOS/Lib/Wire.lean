import MiniAgentOS.Lib.Piece

/-! A sender that puts pieces of a stream on a wire and may send some of them again. Positions are shown
by labels, which need not tell all positions apart. -/
namespace Wire
open Piece

variable {α ι : Type*} {label : ℕ → ι} {log : List (ι × List α)} {wire stream data : List α} {n m : ℕ}

/-- All that was sent lies where the wire has it, and it covers the first `n` places. -/
structure Sent (label : ℕ → ι) (log : List (ι × List α)) (wire : List α) (n : ℕ) : Prop where
  placed : ∀ piece ∈ log, ∃ offset, piece.1 = label offset ∧ At wire offset piece.2
  covered : ∀ i < n, ∃ piece ∈ log, ∃ offset ≤ i, i < offset + piece.2.length ∧
    piece.1 = label offset ∧ At wire offset piece.2

theorem sent_nil (label : ℕ → ι) (wire : List α) : Sent label [] wire 0 := by
  constructor
  · intro piece h
    exact absurd h List.not_mem_nil
  · intro i h
    exact absurd h (Nat.not_lt_zero i)

theorem at_extend {offset : ℕ} (h : At wire offset data) (hstream : wire <+: stream) :
    At stream offset data := h.trans (hstream.drop offset)

/-- The sender may go back. -/
theorem Sent.rewind (h : Sent label log wire n) (hle : m ≤ n) : Sent label log wire m :=
  ⟨h.placed, fun i hi => h.covered i (hi.trans_le hle)⟩

theorem Sent.extend (h : Sent label log wire n) (hstream : wire <+: stream) :
    Sent label log stream n := by
  constructor
  · intro piece hmem
    obtain ⟨offset, hlabel, hat⟩ := h.placed piece hmem
    exact ⟨offset, hlabel, at_extend hat hstream⟩
  · intro i hi
    obtain ⟨piece, hmem, offset, hle, hlt, hlabel, hat⟩ := h.covered i hi
    exact ⟨piece, hmem, offset, hle, hlt, hlabel, at_extend hat hstream⟩

/-- The next piece is sent. -/
theorem Sent.send (h : Sent label log wire n) (hdata : At wire n data) :
    Sent label (log ++ [(label n, data)]) wire (n + data.length) := by
  have hnew : (label n, data) ∈ log ++ [(label n, data)] := by simp
  constructor
  · intro piece hmem
    rcases List.mem_append.mp hmem with hold | hlast
    · exact h.placed piece hold
    · rw [List.mem_singleton.mp hlast]
      exact ⟨n, rfl, hdata⟩
  · intro i hi
    by_cases hbefore : i < n
    · obtain ⟨piece, hmem, hrest⟩ := h.covered i hbefore
      exact ⟨piece, List.mem_append_left _ hmem, hrest⟩
    · exact ⟨_, hnew, n, Nat.le_of_not_lt hbefore, hi, rfl, hdata⟩

/-- A piece that goes on where the wire ends. -/
theorem Sent.append (h : Sent label log wire wire.length) (data : List α) :
    Sent label (log ++ [(label wire.length, data)]) (wire ++ data) (wire ++ data).length := by
  have hat : At (wire ++ data) wire.length data := by
    simp [At]
  rw [List.length_append]
  exact (h.extend (List.prefix_append wire data)).send hat

end Wire
