import MiniAgentOS.Lib.Serial

/-! TCP sequence numbers: 32-bit serial numbers compared by the sign of their difference. -/
namespace MiniAgentOS.Net
open Serial

/-- `tcp_seq_cmp`: the wrapping difference, read as signed. -/
def tcpSeqCmp (a b : UInt32) : Int32 := (a - b).toInt32

/-- The sequence number of the byte at `offset` in a stream that starts with `isn`. -/
def seqAt (isn : UInt32) (offset : ℕ) : UInt32 := isn + UInt32.ofNat offset

theorem toBitVec_seqAt (isn : UInt32) (offset : ℕ) :
    (seqAt isn offset).toBitVec = serialAt isn.toBitVec offset := rfl

@[simp] theorem seqAt_zero (isn : UInt32) : seqAt isn 0 = isn := by
  simp [seqAt]

theorem seqAt_add (isn : UInt32) (offset n : ℕ) :
    seqAt isn (offset + n) = seqAt isn offset + UInt32.ofNat n := by
  apply UInt32.toBitVec_inj.mp
  rw [UInt32.toBitVec_add, toBitVec_seqAt, toBitVec_seqAt, serialAt_add]
  rfl

theorem toNat_seqAt_sub (isn : UInt32) {m n : ℕ} (hnm : n ≤ m) (hturn : m < n + 2 ^ 32) :
    (seqAt isn m - seqAt isn n).toNat = m - n := by
  rw [← UInt32.toNat_toBitVec, UInt32.toBitVec_sub]
  exact toNat_serialAt_sub isn.toBitVec hnm hturn

theorem toInt_tcpSeqCmp_cond (a b : UInt32) : (tcpSeqCmp a b).toInt =
    if 2 * (a - b).toNat < 2 ^ 32 then ((a - b).toNat : ℤ) else (a - b).toNat - 2 ^ 32 := by
  rw [tcpSeqCmp, Int32.toInt, UInt32.toBitVec_toInt32, BitVec.toInt_eq_toNat_cond]
  rfl

/-- The distance the other way round. -/
theorem toNat_sub_swap (a b : UInt32) :
    (b - a).toNat = if (a - b).toNat = 0 then 0 else 2 ^ 32 - (a - b).toNat := by
  have hlt := (a - b).toNat_lt
  rw [← neg_sub a b, UInt32.toNat_neg]
  split_ifs with hzero
  · rw [hzero]
    rfl
  · exact Nat.mod_eq_of_lt (Nat.sub_lt (by norm_num) (Nat.pos_of_ne_zero hzero))

theorem toInt_tcpSeqCmp (isn : UInt32) {m n : ℕ} (hlow : n ≤ m + 2 ^ 31)
    (hhigh : m < n + 2 ^ 31) :
    (tcpSeqCmp (seqAt isn m) (seqAt isn n)).toInt = (m : ℤ) - n := by
  have hdiff := toInt_serialAt_sub isn.toBitVec (m := m) (n := n) (by omega) (by omega)
  simpa only [tcpSeqCmp, Int32.toInt, UInt32.toBitVec_toInt32, UInt32.toBitVec_sub,
    toBitVec_seqAt] using hdiff

section Compare

variable (isn : UInt32) {m n : ℕ} (hlow : n ≤ m + 2 ^ 31) (hhigh : m < n + 2 ^ 31)
include hlow hhigh

theorem tcpSeqCmp_lt_zero_iff : tcpSeqCmp (seqAt isn m) (seqAt isn n) < 0 ↔ m < n := by
  rw [Int32.lt_iff_toInt_lt, toInt_tcpSeqCmp isn hlow hhigh, Int32.toInt_zero]
  omega

theorem tcpSeqCmp_le_zero_iff : tcpSeqCmp (seqAt isn m) (seqAt isn n) ≤ 0 ↔ m ≤ n := by
  rw [Int32.le_iff_toInt_le, toInt_tcpSeqCmp isn hlow hhigh, Int32.toInt_zero]
  omega

theorem tcpSeqCmp_nonneg_iff : 0 ≤ tcpSeqCmp (seqAt isn m) (seqAt isn n) ↔ n ≤ m := by
  rw [Int32.le_iff_toInt_le, toInt_tcpSeqCmp isn hlow hhigh, Int32.toInt_zero]
  omega

theorem tcpSeqCmp_pos_iff : 0 < tcpSeqCmp (seqAt isn m) (seqAt isn n) ↔ n < m := by
  rw [Int32.lt_iff_toInt_lt, toInt_tcpSeqCmp isn hlow hhigh, Int32.toInt_zero]
  omega

theorem seqAt_eq_iff : seqAt isn m = seqAt isn n ↔ m = n := by
  constructor
  · intro h
    have hcmp := toInt_tcpSeqCmp isn hlow hhigh
    rw [h, tcpSeqCmp, UInt32.sub_self] at hcmp
    have hzero : (0 : UInt32).toInt32.toInt = 0 := rfl
    omega
  · rintro rfl
    rfl

end Compare

end MiniAgentOS.Net
