import Mathlib

/-! Memory that is handed out from one end: rounding up to an alignment, and blocks that lie one
behind the other. -/
namespace Arena

section Align

variable {addr align target : ℕ}

/-- The least multiple of `align` that is not below `addr`. -/
def alignUp (addr align : ℕ) : ℕ := (addr + (align - 1)) / align * align

theorem dvd_alignUp (addr align : ℕ) : align ∣ alignUp addr align := Nat.dvd_mul_left _ _

theorem le_alignUp (h : 0 < align) : addr ≤ alignUp addr align := by
  have hrest := Nat.div_add_mod' (addr + (align - 1)) align
  have hlt := Nat.mod_lt (addr + (align - 1)) h
  unfold alignUp
  omega

theorem alignUp_le (addr align : ℕ) : alignUp addr align ≤ addr + (align - 1) := Nat.div_mul_le_self _ _

theorem alignUp_le_of_dvd (h : 0 < align) (hdvd : align ∣ target) (hle : addr ≤ target) :
    alignUp addr align ≤ target := by
  obtain ⟨k, rfl⟩ := hdvd
  have hdiv : (addr + (align - 1)) / align ≤ k := by
    rw [← Nat.lt_succ_iff, Nat.div_lt_iff_lt_mul h, Nat.succ_mul, Nat.mul_comm k]
    omega
  rw [alignUp, Nat.mul_comm align]
  exact Nat.mul_le_mul_right _ hdiv

theorem alignUp_add_of_dvd (h : align ∣ addr) (n : ℕ) : alignUp (addr + n) align = addr + alignUp n align := by
  obtain ⟨k, rfl⟩ := h
  rcases Nat.eq_zero_or_pos align with rfl | hpos
  · simp [alignUp]
  · rw [alignUp, alignUp, Nat.add_assoc, Nat.mul_add_div hpos, Nat.add_mul, Nat.mul_comm k]

/-- Clearing the low bits of a word rounds it down. -/
theorem land_high_bits {width k n : ℕ} (hk : k ≤ width) (hn : n < 2 ^ width) :
    n &&& (2 ^ width - 1 - (2 ^ k - 1)) = n / 2 ^ k * 2 ^ k := by
  have hmask : 2 ^ width - 1 - (2 ^ k - 1) = 2 ^ width - (2 ^ k - 1 + 1) := by omega
  have hlow : 2 ^ k - 1 < 2 ^ width := by
    have hle := Nat.pow_le_pow_right (n := 2) (by omega) hk
    have hpos := Nat.two_pow_pos k
    omega
  rw [hmask, ← Nat.shiftRight_eq_div_pow, ← Nat.shiftLeft_eq]
  apply Nat.eq_of_testBit_eq
  intro i
  rw [Nat.testBit_land, Nat.testBit_two_pow_sub_succ hlow, Nat.testBit_two_pow_sub_one,
    Nat.testBit_shiftLeft, Nat.testBit_shiftRight]
  by_cases hi : i < width
  · by_cases hki : k ≤ i
    · simp [hi, hki, Nat.not_lt.mpr hki, Nat.add_sub_cancel' hki]
    · simp [hki, Nat.not_le.mp hki]
  · have hout : n.testBit i = false :=
      Nat.testBit_lt_two_pow (hn.trans_le (Nat.pow_le_pow_right (by omega) (Nat.not_lt.mp hi)))
    by_cases hki : k ≤ i
    · simp [hi, hout, Nat.add_sub_cancel' hki]
    · simp [hi, hki]

end Align

/-- A block of memory: where it starts and how many cells it has. -/
structure Block where
  start : ℕ
  size : ℕ
  deriving DecidableEq, Repr

namespace Block

def stop (block : Block) : ℕ := block.start + block.size

/-- Two blocks share no cell. -/
def Apart (a b : Block) : Prop := a.stop ≤ b.start ∨ b.stop ≤ a.start

instance (a b : Block) : Decidable (a.Apart b) := inferInstanceAs (Decidable (_ ∨ _))

/-- The block lies in the cells from `low` up to `high`. -/
def Within (block : Block) (low high : ℕ) : Prop := low ≤ block.start ∧ block.stop ≤ high

instance (block : Block) (low high : ℕ) : Decidable (block.Within low high) :=
  inferInstanceAs (Decidable (_ ∧ _))

/-- The address is that of a cell of the block. -/
def Holds (block : Block) (addr : ℕ) : Prop := block.start ≤ addr ∧ addr < block.stop

instance (block : Block) (addr : ℕ) : Decidable (block.Holds addr) := inferInstanceAs (Decidable (_ ∧ _))

variable {a b : Block} {addr : ℕ}

theorem Apart.symm (h : a.Apart b) : b.Apart a := Or.symm h

theorem Apart.not_holds (h : a.Apart b) (ha : a.Holds addr) : ¬ b.Holds addr := by
  intro hb
  obtain ⟨ha, ha'⟩ := ha
  obtain ⟨hb, hb'⟩ := hb
  cases h with
  | inl h => omega
  | inr h => omega

end Block

section Stack

variable {base top next : ℕ} {block : Block} {blocks : List Block}

/-- Blocks, the last one first, that lie one behind the other from `base` up to `top`. -/
def Stacked (base : ℕ) : ℕ → List Block → Prop
  | top, [] => base ≤ top
  | top, block :: blocks => block.stop ≤ top ∧ Stacked base block.start blocks

theorem Stacked.raise (h : Stacked base top blocks) (hle : top ≤ next) : Stacked base next blocks := by
  cases blocks with
  | nil => exact le_trans h hle
  | cons block blocks => exact ⟨h.1.trans hle, h.2⟩

/-- A block behind the others is one more of them. -/
theorem Stacked.push (h : Stacked base top blocks) (hle : top ≤ block.start) :
    Stacked base block.stop (block :: blocks) := ⟨le_rfl, h.raise hle⟩

theorem Stacked.base_le (h : Stacked base top blocks) : base ≤ top := by
  induction blocks generalizing top with
  | nil => exact h
  | cons block blocks ih =>
    have hstart := ih h.2
    have hstop : block.start + block.size ≤ top := h.1
    omega

theorem Stacked.within (h : Stacked base top blocks) : ∀ block ∈ blocks, block.Within base top := by
  induction blocks generalizing top with
  | nil => simp
  | cons first blocks ih =>
    have hstop : first.start + first.size ≤ top := h.1
    intro block hblock
    rcases List.mem_cons.mp hblock with rfl | hblock
    · exact ⟨h.2.base_le, h.1⟩
    · obtain ⟨hlow, hhigh⟩ := ih h.2 block hblock
      exact ⟨hlow, by omega⟩

/-- Stacked blocks share no cells. -/
theorem Stacked.apart (h : Stacked base top blocks) : blocks.Pairwise Block.Apart := by
  induction blocks generalizing top with
  | nil => exact .nil
  | cons first blocks ih =>
    apply List.Pairwise.cons _ (ih h.2)
    intro block hblock
    exact .inr (h.2.within block hblock).2

theorem apart_of_ne {a b : Block} {i j : ℕ} (h : blocks.Pairwise Block.Apart) (ha : blocks[i]? = some a)
    (hb : blocks[j]? = some b) (hne : i ≠ j) : a.Apart b := by
  obtain ⟨hi, rfl⟩ := List.getElem?_eq_some_iff.mp ha
  obtain ⟨hj, rfl⟩ := List.getElem?_eq_some_iff.mp hb
  rw [List.pairwise_iff_getElem] at h
  rcases Nat.lt_or_gt_of_ne hne with hlt | hgt
  · exact h i j hi hj hlt
  · exact (h j i hj hi hgt).symm

/-- The first block of a size and an alignment at `top` or above, when it ends by `limit`. -/
def bump (top limit size align : ℕ) : Option Block :=
  if alignUp top align + size ≤ limit then some ⟨alignUp top align, size⟩ else none

variable {limit size align : ℕ}

theorem bump_eq_some (h : bump top limit size align = some block) :
    block = ⟨alignUp top align, size⟩ ∧ block.stop ≤ limit := by
  unfold bump at h
  split_ifs at h with hle
  obtain rfl := Option.some.inj h
  exact ⟨rfl, hle⟩

/-- There is no room exactly when no aligned block of that size fits. -/
theorem bump_eq_none_iff (halign : 0 < align) :
    bump top limit size align = none ↔
      ∀ block : Block, block.size = size → align ∣ block.start → ¬ block.Within top limit := by
  unfold bump
  constructor
  · intro h block hsize hdvd hwithin
    split_ifs at h with hle
    have hstart := alignUp_le_of_dvd halign hdvd hwithin.1
    have hstop : block.start + block.size ≤ limit := hwithin.2
    omega
  · intro h
    rw [if_neg]
    intro hle
    exact h ⟨alignUp top align, size⟩ rfl (dvd_alignUp _ _) ⟨le_alignUp halign, hle⟩

end Stack

end Arena
