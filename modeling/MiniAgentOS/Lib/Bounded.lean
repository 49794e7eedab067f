import Mathlib

/-! Writers that append to a buffer of bounded capacity. A chain of them leaves the whole text exactly when the
text fits, and something else otherwise. -/
namespace Bounded

variable {α β : Type*} {capacity : ℕ}

/-- Appends as much as there is room for. -/
def append (capacity : ℕ) (out items : List α) : List α := out ++ items.take (capacity - out.length)

/-- Appends the piece of each item, up to the first piece that does not fit. -/
def appendEach (capacity : ℕ) (piece : β → List α) : List α → List β → List α
  | out, [] => out
  | out, item :: items =>
    if out.length + (piece item).length ≤ capacity then appendEach capacity piece (out ++ piece item) items else out

/-- A writer of `text`: it appends, within the capacity, and all of the text where there is room. -/
structure Takes (capacity : ℕ) (write : List α → List α) (text : List α) : Prop where
  keeps : ∀ out, out.length ≤ capacity → out <+: write out
  bounded : ∀ out, out.length ≤ capacity → (write out).length ≤ capacity
  whole : ∀ out, out.length + text.length ≤ capacity → write out = out ++ text

variable {write next : List α → List α} {text more lead : List α}

theorem takes_nothing (capacity : ℕ) : Takes capacity (fun out : List α => out) [] where
  keeps _ _ := List.prefix_rfl
  bounded _ h := h
  whole out _ := (List.append_nil out).symm

theorem Takes.comp (h : Takes capacity write text) (hnext : Takes capacity next more) :
    Takes capacity (fun out => next (write out)) (text ++ more) where
  keeps out hout := (h.keeps out hout).trans (hnext.keeps _ (h.bounded out hout))
  bounded out hout := hnext.bounded _ (h.bounded out hout)
  whole out hroom := by
    rw [List.length_append] at hroom
    rw [h.whole out (by omega), hnext.whole (out ++ text) (by rw [List.length_append]; omega), List.append_assoc]

theorem takes_append (capacity : ℕ) (items : List α) : Takes capacity (fun out => append capacity out items) items where
  keeps _ _ := List.prefix_append _ _
  bounded out hout := by
    unfold append
    rw [List.length_append, List.length_take]
    omega
  whole out hroom := by
    unfold append
    rw [List.take_of_length_le (by omega)]

theorem takes_each (capacity : ℕ) (piece : β → List α) (items : List β) :
    Takes capacity (fun out => appendEach capacity piece out items) (items.flatMap piece) := by
  induction items with
  | nil => exact takes_nothing capacity
  | cons item items ih =>
    constructor
    · intro out hout
      unfold appendEach
      split_ifs with hroom
      · have hput : (out ++ piece item).length ≤ capacity := by rwa [List.length_append]
        exact (List.prefix_append _ _).trans (ih.keeps _ hput)
      · exact List.prefix_rfl
    · intro out hout
      unfold appendEach
      split_ifs with hroom
      · exact ih.bounded _ (by rwa [List.length_append])
      · exact hout
    · intro out hroom
      rw [List.flatMap_cons, List.length_append] at hroom
      unfold appendEach
      rw [if_pos (by omega), ih.whole _ (by rw [List.length_append]; omega), List.flatMap_cons, List.append_assoc]

/-- A writer for each of some items. -/
theorem takes_foldl {put : List α → β → List α} {piece : β → List α} {items : List β}
    (h : ∀ item ∈ items, Takes capacity (fun out => put out item) (piece item)) :
    Takes capacity (fun out => items.foldl put out) (items.flatMap piece) := by
  induction items with
  | nil => exact takes_nothing capacity
  | cons item items ih =>
    obtain ⟨hitem, hrest⟩ := List.forall_mem_cons.mp h
    exact hitem.comp (ih hrest)

theorem Takes.length_le (h : Takes capacity write text) : (write []).length ≤ capacity := h.bounded [] (Nat.zero_le _)

/-- The whole text is there exactly when it fits. -/
theorem Takes.eq_iff (h : Takes capacity write text) : write [] = text ↔ text.length ≤ capacity := by
  constructor
  · intro heq
    rw [← heq]
    exact h.length_le
  · intro hfits
    rw [h.whole [] (by rwa [List.length_nil, Nat.zero_add]), List.nil_append]

/-- Behind a first piece the buffer stays empty only where it has no room at all. -/
theorem Takes.eq_nil_iff (h : Takes capacity next more) (hlead : lead ≠ []) :
    next (append capacity [] lead) = [] ↔ capacity = 0 := by
  have hfirst := (takes_append capacity lead).bounded [] (Nat.zero_le _)
  constructor
  · intro hnil
    have hkeeps := h.keeps _ hfirst
    rw [hnil, List.prefix_nil, append, List.nil_append, List.take_eq_nil_iff, List.length_nil, Nat.sub_zero] at hkeeps
    exact hkeeps.resolve_right hlead
  · intro hzero
    have hlength := h.bounded _ hfirst
    rw [hzero, Nat.le_zero, List.length_eq_zero_iff] at hlength
    rw [hzero]
    exact hlength

end Bounded
