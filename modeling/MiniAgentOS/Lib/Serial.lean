import Mathlib

/-! Serial numbers of width `w`: a position on an unbounded line, shown modulo `2 ^ w`.
Differences are exact as long as the two positions are less than a full turn apart, and
signed differences as long as they are at most half a turn apart. -/
namespace Serial

variable {w : ℕ}

/-- The serial number shown at position `n` of a line that starts with `isn`. -/
def serialAt (isn : BitVec w) (n : ℕ) : BitVec w := isn + BitVec.ofNat w n

@[simp] theorem serialAt_zero (isn : BitVec w) : serialAt isn 0 = isn := by
  simp [serialAt]

theorem serialAt_add (isn : BitVec w) (m n : ℕ) :
    serialAt isn (m + n) = serialAt isn m + BitVec.ofNat w n := by
  simp only [serialAt, BitVec.ofNat_add, BitVec.add_assoc]

theorem serialAt_sub (isn : BitVec w) (m n : ℕ) :
    serialAt isn m - serialAt isn n = BitVec.ofNat w m - BitVec.ofNat w n := by
  simp only [serialAt]
  rw [BitVec.add_comm isn, BitVec.add_comm isn, BitVec.sub_eq_add_neg, BitVec.neg_add,
    BitVec.sub_eq_add_neg, BitVec.add_comm (-_), BitVec.add_assoc, ← BitVec.add_assoc isn]
  simp [BitVec.sub_eq_add_neg]

/-- Less than a full turn apart, the unsigned difference is the distance. -/
theorem toNat_serialAt_sub (isn : BitVec w) {m n : ℕ} (hmn : n ≤ m) (hturn : m < n + 2 ^ w) :
    (serialAt isn m - serialAt isn n).toNat = m - n := by
  have hm : m = n + (m - n) := by omega
  have hd : m - n < 2 ^ w := by omega
  rw [hm, serialAt_add, BitVec.add_comm, BitVec.add_sub_cancel, BitVec.toNat_ofNat,
    Nat.mod_eq_of_lt hd]
  omega

/-- Half a turn apart at most, the signed difference is the signed distance. -/
theorem toInt_serialAt_sub (isn : BitVec w) {m n : ℕ} (hlow : 2 * n ≤ 2 * m + 2 ^ w)
    (hhigh : 2 * m < 2 * n + 2 ^ w) :
    (serialAt isn m - serialAt isn n).toInt = (m : ℤ) - n := by
  have hcast : ((2 ^ w : ℕ) : ℤ) = 2 ^ w := by simp
  rw [serialAt_sub, BitVec.toInt_sub, BitVec.toInt_ofNat', BitVec.toInt_ofNat',
    Int.bmod_sub_bmod, Int.sub_bmod_bmod]
  apply Int.bmod_eq_of_le_mul_two <;> omega

theorem serialAt_injOn (isn : BitVec w) {m n : ℕ} (hmn : n ≤ m) (hturn : m < n + 2 ^ w)
    (h : serialAt isn m = serialAt isn n) : m = n := by
  have hdist := toNat_serialAt_sub isn hmn hturn
  rw [h, BitVec.sub_self] at hdist
  have hzero : (0#w).toNat = 0 := BitVec.toNat_zero
  omega

end Serial
