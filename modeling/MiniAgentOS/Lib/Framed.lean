import Mathlib

/-! Streams of frames that each end in a stop, read in pieces, and frames with a mark. -/
namespace Framed

variable {α : Type*} [DecidableEq α] {stop : α} {a b s frame mark lead : List α}

section Frames

/-- The complete frames of a stream, and what is left of it. -/
def split (stop : α) : List α → List (List α) × List α
  | [] => ([], [])
  | c :: s =>
    if c = stop then ([] :: (split stop s).1, (split stop s).2)
    else
      match (split stop s).1 with
      | [] => ([], c :: (split stop s).2)
      | frame :: frames => ((c :: frame) :: frames, (split stop s).2)

@[simp] theorem split_nil : split stop [] = ([], []) := rfl

theorem split_frame (h : stop ∉ frame) (s : List α) :
    split stop (frame ++ stop :: s) = (frame :: (split stop s).1, (split stop s).2) := by
  induction frame with
  | nil => rw [List.nil_append, split, if_pos rfl]
  | cons c frame ih =>
    rw [List.mem_cons, not_or] at h
    obtain ⟨hc, hframe⟩ := h
    rw [List.cons_append, split, if_neg (Ne.symm hc), ih hframe]

theorem split_rest (h : stop ∉ s) : split stop s = ([], s) := by
  induction s with
  | nil => rfl
  | cons c s ih =>
    rw [List.mem_cons, not_or] at h
    obtain ⟨hc, hs⟩ := h
    rw [split, if_neg (Ne.symm hc), ih hs]

/-- What is left waits for what comes next. -/
theorem split_append (stop : α) (a b : List α) :
    split stop (a ++ b) = ((split stop a).1 ++ (split stop ((split stop a).2 ++ b)).1,
      (split stop ((split stop a).2 ++ b)).2) := by
  induction a with
  | nil => simp
  | cons c a ih =>
    by_cases hc : c = stop
    · rw [List.cons_append, split, split, if_pos hc, if_pos hc, ih, List.cons_append]
    · cases hframes : (split stop a).1 with
      | nil =>
        rw [hframes, List.nil_append] at ih
        rw [List.cons_append, split, if_neg hc, ih, split, if_neg hc, hframes, List.nil_append, List.cons_append,
          split, if_neg hc]
      | cons frame frames =>
        rw [hframes, List.cons_append] at ih
        rw [List.cons_append, split, if_neg hc, ih, split, if_neg hc, hframes, List.cons_append]

/-- What is left has no complete frame. -/
theorem split_left (stop : α) (s : List α) : stop ∉ (split stop s).2 := by
  induction s with
  | nil => simp
  | cons c s ih =>
    rw [split]
    split_ifs with hc
    · exact ih
    · cases (split stop s).1 with
      | nil => simp [Ne.symm hc, ih]
      | cons frame frames => exact ih

/-- The complete frames, and what is left as one more. -/
def lines (stop : α) (s : List α) : List (List α) := (split stop s).1 ++ [(split stop s).2]

/-- What comes next makes the last line longer, and does nothing else to the lines there are. -/
theorem lines_append (stop : α) (a b : List α) : ∃ more others,
    lines stop (a ++ b) = (split stop a).1 ++ ((split stop a).2 ++ more) :: others := by
  have hleft := split_left stop a
  by_cases hb : stop ∈ b
  · obtain ⟨front, rest, rfl, hfront⟩ := List.eq_append_cons_of_mem hb
    have hframe : stop ∉ (split stop a).2 ++ front := by simp [hleft, hfront]
    refine ⟨front, lines stop rest, ?_⟩
    rw [lines, split_append, ← List.append_assoc, split_frame hframe, List.append_assoc, lines]
    rfl
  · have hrest : stop ∉ (split stop a).2 ++ b := by simp [hleft, hb]
    exact ⟨b, [], by rw [lines, split_append, split_rest hrest, List.append_nil]⟩

end Frames

section Marks

/-- The place of a mark in a text. -/
def find (mark : List α) : List α → Option ℕ
  | [] => if mark = [] then some 0 else none
  | c :: s => if mark.isPrefixOf (c :: s) then some 0 else (find mark s).map (· + 1)

/-- No proper end of the mark is a beginning of it. -/
def Borderless (mark : List α) : Prop :=
  ∀ k < mark.length, 0 < k → mark.drop k ≠ mark.take (mark.length - k)

instance (mark : List α) : Decidable (Borderless mark) :=
  inferInstanceAs (Decidable (∀ k < mark.length, 0 < k → mark.drop k ≠ mark.take (mark.length - k)))

theorem find_self (mark s : List α) : find mark (mark ++ s) = some 0 := by
  cases hall : mark ++ s with
  | nil => simp [find, List.append_eq_nil_iff.mp hall]
  | cons c rest =>
    have hprefix : mark.isPrefixOf (c :: rest) = true := List.isPrefixOf_iff_prefix.mpr (hall ▸ List.prefix_append mark s)
    rw [find, if_pos hprefix]

theorem find_none (hmark : mark ≠ []) (h : ¬ mark <:+: s) : find mark s = none := by
  induction s with
  | nil => rw [find, if_neg hmark]
  | cons c s ih =>
    have hprefix : ¬ mark.isPrefixOf (c :: s) = true := fun hp => h (List.isPrefixOf_iff_prefix.mp hp).isInfix
    rw [find, if_neg hprefix, ih fun hinfix => h (List.infix_cons hinfix), Option.map_none]

omit [DecidableEq α] in
/-- No mark begins in a text without one, whatever comes behind. -/
theorem not_prefix_lead (hmark : Borderless mark) (h : ¬ mark <:+: lead) (hlead : lead ≠ []) :
    ¬ mark <+: lead ++ (mark ++ s) := by
  intro ⟨rest, hall⟩
  rcases List.append_eq_append_iff.mp hall with ⟨more, hmore, -⟩ | ⟨border, hborder, hrest⟩
  · exact h (hmore ▸ (List.prefix_append mark more).isInfix)
  · have hpos : 0 < lead.length := List.length_pos_iff.mpr hlead
    have hlen : mark.length = lead.length + border.length := by rw [hborder, List.length_append]
    have hne : border ≠ [] := by
      intro hnil
      rw [hnil, List.append_nil] at hborder
      exact h (hborder ▸ List.infix_rfl)
    have hshort : 0 < border.length := List.length_pos_iff.mpr hne
    have hdrop : mark.drop lead.length = border := by rw [hborder, List.drop_left]
    have htake : mark.take (mark.length - lead.length) = border := by
      have hfirst := congrArg (List.take border.length) hrest
      rw [List.take_left, List.take_append_of_le_length (by omega)] at hfirst
      rw [← hfirst, hlen, Nat.add_sub_cancel_left]
    exact hmark lead.length (by omega) hpos (hdrop.trans htake.symm)

/-- A mark without a border is found where it first stands, whatever comes behind. -/
theorem find_lead (hmark : Borderless mark) (h : ¬ mark <:+: lead) (s : List α) :
    find mark (lead ++ (mark ++ s)) = some lead.length := by
  induction lead with
  | nil => exact find_self mark s
  | cons c lead ih =>
    have hprefix : ¬ mark.isPrefixOf (c :: (lead ++ (mark ++ s))) = true := fun hp =>
      not_prefix_lead hmark h (List.cons_ne_nil c lead) (List.isPrefixOf_iff_prefix.mp hp)
    rw [List.cons_append, find, if_neg hprefix, ih fun hinfix => h (List.infix_cons hinfix), Option.map_some,
      List.length_cons]

end Marks

end Framed
