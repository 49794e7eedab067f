import Mathlib

/-! One's complement arithmetic on words below `base`: addition with an end-around carry, sums, and the
checksum that makes a sum come out as all ones. -/
namespace OnesComplement

variable {base x y sum : ℕ} {words : List ℕ}

theorem carry_lt (hbase : 1 < base) (hle : base ≤ sum) : sum % base + sum / base < sum := by
  have hdiv := Nat.div_add_mod sum base
  have hpos : 0 < sum / base := Nat.div_pos hle (by omega)
  have hlt : sum / base < base * (sum / base) := by nlinarith
  omega

/-- Fold the carries of a plain sum back in until none is left. -/
def fold (base sum : ℕ) : ℕ :=
  if 1 < base ∧ base ≤ sum then fold base (sum % base + sum / base) else sum
termination_by sum
decreasing_by exact carry_lt (by omega) (by omega)

/-- Addition with an end-around carry. -/
def add (base x y : ℕ) : ℕ := (x + y) % base + (x + y) / base

/-- The sum of a list of words. -/
def sumWords (base : ℕ) (words : List ℕ) : ℕ := words.foldl (add base) 0

theorem fold_lt (hbase : 1 < base) (sum : ℕ) : fold base sum < base := by
  induction sum using Nat.strong_induction_on with
  | _ sum ih =>
    rw [fold]
    split_ifs with h
    · exact ih _ (carry_lt h.1 h.2)
    · omega

/-- Folding a carry keeps the residue modulo `base - 1`. -/
theorem carry_modEq (base sum : ℕ) : sum % base + sum / base ≡ sum [MOD base - 1] := by
  rcases Nat.eq_zero_or_pos base with rfl | hpos
  · simp
  have hsub : (base - 1) * (sum / base) + sum / base = base * (sum / base) := by
    rw [← Nat.succ_mul, Nat.succ_eq_add_one, Nat.sub_add_cancel hpos]
  have hdiv := Nat.div_add_mod sum base
  have hsum : sum = (sum % base + sum / base) + (base - 1) * (sum / base) := by omega
  calc sum % base + sum / base
      ≡ (sum % base + sum / base) + (base - 1) * (sum / base) [MOD base - 1] := by
        rw [Nat.ModEq, Nat.add_mul_mod_self_left]
    _ = sum := hsum.symm

theorem carry_eq_zero : sum % base + sum / base = 0 ↔ sum = 0 := by
  have hdiv := Nat.div_add_mod sum base
  constructor
  · intro h
    obtain ⟨hmod, hquot⟩ := Nat.add_eq_zero_iff.mp h
    rw [hmod, hquot] at hdiv
    exact hdiv.symm
  · rintro rfl
    simp

theorem fold_modEq (base sum : ℕ) : fold base sum ≡ sum [MOD base - 1] := by
  induction sum using Nat.strong_induction_on with
  | _ sum ih =>
    rw [fold]
    split_ifs with h
    · exact (ih _ (carry_lt h.1 h.2)).trans (carry_modEq base sum)
    · exact Nat.ModEq.refl sum

theorem fold_eq_zero (base sum : ℕ) : fold base sum = 0 ↔ sum = 0 := by
  induction sum using Nat.strong_induction_on with
  | _ sum ih =>
    rw [fold]
    split_ifs with h
    · exact (ih _ (carry_lt h.1 h.2)).trans carry_eq_zero
    · exact Iff.rfl

theorem fold_of_lt (h : sum < base) : fold base sum = sum := by
  rw [fold, if_neg (by omega)]

/-- Below `base`, the residue modulo `base - 1` tells all words apart but zero and all ones. -/
theorem eq_of_modEq (hx : x < base) (hy : y < base) (hmod : x ≡ y [MOD base - 1])
    (hzero : x = 0 ↔ y = 0) : x = y := by
  by_cases hx0 : x = 0
  · rw [hx0, hzero.mp hx0]
  have hy0 : y ≠ 0 := fun h => hx0 (hzero.mpr h)
  have hdown : x - 1 ≡ y - 1 [MOD base - 1] := by
    apply Nat.ModEq.add_right_cancel' 1
    rwa [Nat.sub_add_cancel (by omega), Nat.sub_add_cancel (by omega)]
  have heq : x - 1 = y - 1 := Nat.ModEq.eq_of_lt_of_lt hdown (by omega) (by omega)
  omega

theorem add_lt (hbase : 1 < base) (hx : x < base) (hy : y < base) : add base x y < base := by
  have hdiv := Nat.div_add_mod (x + y) base
  have hmod := Nat.mod_lt (x + y) (show 0 < base by omega)
  unfold add
  rcases Nat.lt_or_ge (x + y) base with hlt | hge
  · rw [Nat.div_eq_of_lt hlt, Nat.mod_eq_of_lt hlt]
    omega
  · have hone : (x + y) / base = 1 := Nat.div_eq_of_lt_le (by omega) (by omega)
    rw [hone] at hdiv ⊢
    omega

/-- Adding word by word folds the plain sum. -/
theorem sumWords_eq_fold (hbase : 1 < base) (hwords : ∀ word ∈ words, word < base) :
    sumWords base words = fold base words.sum := by
  suffices h : ∀ start < base, words.foldl (add base) start = fold base (start + words.sum) by
    have hsum := h 0 (by omega)
    rwa [Nat.zero_add] at hsum
  intro start hstart
  induction words generalizing start with
  | nil => exact (fold_of_lt hstart).symm
  | cons word words ih =>
    have hword : word < base := hwords word List.mem_cons_self
    rw [List.foldl_cons, ih (fun w hw => hwords w (List.mem_cons_of_mem _ hw)) _
      (add_lt hbase hstart hword), List.sum_cons]
    apply eq_of_modEq (fold_lt hbase _) (fold_lt hbase _)
    · calc fold base (add base start word + words.sum)
          ≡ add base start word + words.sum [MOD base - 1] := fold_modEq _ _
        _ ≡ start + word + words.sum [MOD base - 1] :=
            (carry_modEq base (start + word)).add_right _
        _ = start + (word + words.sum) := Nat.add_assoc _ _ _
        _ ≡ fold base (start + (word + words.sum)) [MOD base - 1] := (fold_modEq _ _).symm
    · have hcarry : add base start word = 0 ↔ start + word = 0 := carry_eq_zero
      rw [fold_eq_zero, fold_eq_zero]
      omega

/-- The complement of a sum, added to it, gives all ones. -/
theorem fold_add_complement (hbase : 1 < base) (sum : ℕ) :
    fold base (sum + (base - 1 - fold base sum)) = base - 1 := by
  have hlt := fold_lt hbase sum
  apply eq_of_modEq (fold_lt hbase _) (by omega)
  · calc fold base (sum + (base - 1 - fold base sum))
        ≡ sum + (base - 1 - fold base sum) [MOD base - 1] := fold_modEq _ _
      _ ≡ fold base sum + (base - 1 - fold base sum) [MOD base - 1] :=
          (fold_modEq base sum).symm.add_right _
      _ = base - 1 := by omega
  · have hzero := fold_eq_zero base sum
    rw [fold_eq_zero]
    omega

end OnesComplement
