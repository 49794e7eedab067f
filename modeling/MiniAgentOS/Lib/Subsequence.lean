import Mathlib

/-! Scans for a subsequence: each element that is accepted for what comes next is taken for it. -/
namespace Subsequence
open List

variable {α β : Type*} {accepts : β → α → Bool} {wanted : List α} {found bs : List β} {index : ℕ} {a : α} {b : β}

/-- The scan of the elements that are left, with the index of what it waits for. -/
def scan (accepts : β → α → Bool) (wanted : List α) : ℕ → List β → Bool
  | _, [] => false
  | index, b :: bs =>
    match wanted[index]? with
    | none => false
    | some a =>
      if accepts b a then
        if index + 1 = wanted.length then true else scan accepts wanted (index + 1) bs
      else scan accepts wanted index bs

def contains (accepts : β → α → Bool) (wanted : List α) (found : List β) : Bool :=
  wanted.isEmpty || scan accepts wanted 0 found

theorem sublist_of_cons {R : α → β → Prop} {as : List α} (h : SublistForall₂ R (a :: as) bs) :
    SublistForall₂ R as bs := by
  obtain ⟨taken, hpairs, hsub⟩ := sublistForall₂_iff.mp h
  cases hpairs with
  | cons _ hrest => exact sublistForall₂_iff.mpr ⟨_, hrest, (sublist_cons_self _ _).trans hsub⟩

/-- What is accepted may be taken at once. -/
theorem cons_iff_of_accepted {R : α → β → Prop} {as : List α} (h : R a b) :
    SublistForall₂ R (a :: as) (b :: bs) ↔ SublistForall₂ R as bs := by
  constructor
  · intro hall
    cases hall with
    | cons _ hrest => exact hrest
    | cons_right hrest => exact sublist_of_cons hrest
  · exact .cons h

theorem cons_iff_of_refused {R : α → β → Prop} {as : List α} (h : ¬ R a b) :
    SublistForall₂ R (a :: as) (b :: bs) ↔ SublistForall₂ R (a :: as) bs := by
  constructor
  · intro hall
    cases hall with
    | cons hab _ => exact absurd hab h
    | cons_right hrest => exact hrest
  · exact .cons_right

theorem scan_iff (h : index < wanted.length) : scan accepts wanted index found = true ↔
    SublistForall₂ (fun a b => accepts b a = true) (wanted.drop index) found := by
  induction found generalizing index with
  | nil =>
    rw [scan, drop_eq_getElem_cons h]
    constructor
    · exact fun hfalse => absurd hfalse Bool.false_ne_true
    · nofun
  | cons b bs ih =>
    rw [scan, getElem?_eq_getElem h, drop_eq_getElem_cons h]
    dsimp only
    by_cases haccepts : accepts b wanted[index] = true
    · rw [if_pos haccepts, cons_iff_of_accepted (R := fun a b => accepts b a = true) haccepts]
      by_cases hlast : index + 1 = wanted.length
      · rw [if_pos hlast, hlast, drop_length]
        exact ⟨fun _ => .nil, fun _ => rfl⟩
      · rw [if_neg hlast, ih (by omega)]
    · rw [if_neg haccepts, cons_iff_of_refused (R := fun a b => accepts b a = true) haccepts, ih h, drop_eq_getElem_cons h]

/-- The scan finds a subsequence whenever there is one. -/
theorem contains_iff : contains accepts wanted found = true ↔
    SublistForall₂ (fun a b => accepts b a = true) wanted found := by
  cases wanted with
  | nil => exact ⟨fun _ => .nil, fun _ => rfl⟩
  | cons a as =>
    have hscan : scan accepts (a :: as) 0 found = true ↔
        SublistForall₂ (fun a b => accepts b a = true) ((a :: as).drop 0) found := scan_iff (by simp)
    rwa [drop_zero] at hscan

end Subsequence
