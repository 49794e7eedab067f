import Mathlib

/-! Maps kept in a fixed list of slots. `key slot` is the key that a slot is used for, if it is. -/
namespace Slots

variable {σ κ : Type*} (key : σ → Option κ)

/-- The first slot that is not in use. -/
def free (slots : List σ) : Option ℕ := slots.findIdx? fun slot => (key slot).isNone

/-- No key is in two slots. -/
def Unique (slots : List σ) : Prop :=
  ∀ i j (hi : i < slots.length) (hj : j < slots.length) k,
    key slots[i] = some k → key slots[j] = some k → i = j

/-- If `k` is in a slot at all, it is in the slot `i`. -/
def Usable (slots : List σ) (i : ℕ) (k : κ) : Prop :=
  ∃ hi : i < slots.length, key slots[i] = some k ∨ ∀ slot ∈ slots, key slot ≠ some k

variable {key} {slots : List σ} {i : ℕ} {k : κ} {slot : σ}

theorem free_eq_some (h : free key slots = some i) :
    ∃ hi : i < slots.length, key slots[i] = none := by
  obtain ⟨hi, hkey, -⟩ := List.findIdx?_eq_some_iff_getElem.mp h
  exact ⟨hi, Option.isNone_iff_eq_none.mp hkey⟩

theorem free_eq_none : free key slots = none ↔ ∀ slot ∈ slots, key slot ≠ none := by
  simp [free, List.findIdx?_eq_none_iff, Option.ne_none_iff_isSome]

/-- Writing a usable slot keeps the keys unique. -/
theorem Unique.set (h : Unique key slots) (hi : Usable key slots i k) (hk : key slot = some k) :
    Unique key (slots.set i slot) := by
  obtain ⟨hi, hfree⟩ := hi
  have honly : ∀ j (hj : j < slots.length), key slots[j] = some k → j = i := by
    intro j hj hkey
    rcases hfree with hown | hnone
    · exact h j i hj hi k hkey hown
    · exact absurd hkey (hnone _ (List.getElem_mem hj))
  intro a b ha hb l hla hlb
  rw [List.length_set] at ha hb
  rw [List.getElem_set] at hla hlb
  split_ifs at hla hlb with hia hib hib
  · exact hia.symm.trans hib
  · obtain rfl : k = l := Option.some.inj (hk.symm.trans hla)
    exact hia.symm.trans (honly b hb hlb).symm
  · obtain rfl : k = l := Option.some.inj (hk.symm.trans hlb)
    exact (honly a ha hla).trans hib
  · exact h a b ha hb l hla hlb

section Lookup

variable [DecidableEq κ] (key)

/-- The first slot that is used for `k`. -/
def find (slots : List σ) (k : κ) : Option ℕ := slots.findIdx? fun slot => key slot = some k

/-- What the slots hold for `k`. -/
def lookup (slots : List σ) (k : κ) : Option σ := (find key slots k).bind fun i => slots[i]?

variable {key}

theorem find_eq_some (h : find key slots k = some i) :
    ∃ hi : i < slots.length, key slots[i] = some k := by
  obtain ⟨hi, hkey, -⟩ := List.findIdx?_eq_some_iff_getElem.mp h
  exact ⟨hi, of_decide_eq_true hkey⟩

theorem find_eq_none : find key slots k = none ↔ ∀ slot ∈ slots, key slot ≠ some k := by
  simp [find, List.findIdx?_eq_none_iff]

theorem lookup_eq_none : lookup key slots k = none ↔ ∀ slot ∈ slots, key slot ≠ some k := by
  rw [← find_eq_none]
  unfold lookup
  cases hfind : find key slots k with
  | none => simp
  | some i => simpa using (find_eq_some hfind).1

/-- With unique keys, a slot that is used for a key is what the key stands for. -/
theorem Unique.lookup (h : Unique key slots) (hi : i < slots.length) (hk : key slots[i] = some k) :
    lookup key slots k = some slots[i] := by
  unfold Slots.lookup
  cases hfind : find key slots k with
  | none => exact absurd hk (find_eq_none.mp hfind _ (List.getElem_mem hi))
  | some j =>
    obtain ⟨hj, hkey⟩ := find_eq_some hfind
    obtain rfl := h i j hi hj k hk hkey
    rw [Option.bind_some, List.getElem?_eq_getElem hi]

/-- Writing a usable slot sets what its new key stands for; of the others only the key that the slot
had before is lost. -/
theorem Unique.lookup_set (h : Unique key slots) (hi : i < slots.length)
    (huse : Usable key slots i k) (hk : key slot = some k) (l : κ) :
    Slots.lookup key (slots.set i slot) l =
      if l = k then some slot else if key slots[i] = some l then none else Slots.lookup key slots l := by
  have hset := h.set huse hk
  have hlen : i < (slots.set i slot).length := by rwa [List.length_set]
  split_ifs with hl hlost
  · have hkey : key (slots.set i slot)[i] = some l := by rw [List.getElem_set_self, hl, hk]
    rw [hset.lookup hlen hkey, List.getElem_set_self]
  · rw [lookup_eq_none]
    intro other hother hkey
    obtain ⟨j, hj, rfl⟩ := List.getElem_of_mem hother
    rw [List.length_set] at hj
    rw [List.getElem_set] at hkey
    split_ifs at hkey with hij
    · exact hl (Option.some.inj (hkey.symm.trans hk))
    · exact hij (h i j hi hj l hlost hkey)
  · cases hfind : Slots.lookup key slots l with
    | none =>
      rw [lookup_eq_none] at hfind ⊢
      intro other hother
      rcases List.mem_or_eq_of_mem_set hother with hmem | rfl
      · exact hfind other hmem
      · rw [hk]
        exact fun heq => hl (Option.some.inj heq).symm
    | some found =>
      have hsome : ∃ slot ∈ slots, key slot = some l := by
        by_contra hnone
        push Not at hnone
        rw [lookup_eq_none.mpr hnone] at hfind
        cases hfind
      obtain ⟨other, hother, hkey⟩ := hsome
      obtain ⟨j, hj, rfl⟩ := List.getElem_of_mem hother
      have hne : i ≠ j := by
        rintro rfl
        exact hlost hkey
      have hj' : j < (slots.set i slot).length := by rwa [List.length_set]
      have hsame : (slots.set i slot)[j] = slots[j] := List.getElem_set_ne hne _
      rw [← hfind, h.lookup hj hkey, hset.lookup hj' (hsame ▸ hkey), hsame]

end Lookup

end Slots
