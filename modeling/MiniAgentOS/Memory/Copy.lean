import MiniAgentOS.Lib.Arena

/-! The copy loops that the TLS library is linked with: `memmove` is right for every overlap, and
`memcpy` repeats what lies between source and destination. -/
namespace MiniAgentOS.Memory
open Arena (Block)

section Copy

variable {mem : ℕ → UInt8} {dst src n addr : ℕ}

/-- The body of the copy loops. -/
def copyByte (dst src : ℕ) (mem : ℕ → UInt8) (i : ℕ) : ℕ → UInt8 :=
  Function.update mem (dst + i) (mem (src + i))

def memcpy (mem : ℕ → UInt8) (dst src n : ℕ) : ℕ → UInt8 :=
  (List.range n).foldl (copyByte dst src) mem

def memmove (mem : ℕ → UInt8) (dst src n : ℕ) : ℕ → UInt8 :=
  if dst ≤ src then memcpy mem dst src n
  else (List.range n).reverse.foldl (copyByte dst src) mem

/-- Memory with the cells from `dst` on replaced. -/
def moved (mem : ℕ → UInt8) (dst n : ℕ) (cell : ℕ → UInt8) (addr : ℕ) : UInt8 :=
  if Block.Holds ⟨dst, n⟩ addr then cell (addr - dst) else mem addr

theorem moved_inside {cell : ℕ → UInt8} {i : ℕ} (h : i < n) : moved mem dst n cell (dst + i) = cell i := by
  have hin : Block.Holds ⟨dst, n⟩ (dst + i) := ⟨Nat.le_add_right _ _, Nat.add_lt_add_left h _⟩
  rw [moved, if_pos hin, Nat.add_sub_cancel_left]

theorem moved_outside {cell : ℕ → UInt8} (h : ¬ Block.Holds ⟨dst, n⟩ addr) : moved mem dst n cell addr = mem addr :=
  if_neg h

theorem holds_succ : Block.Holds ⟨dst, n + 1⟩ addr ↔ Block.Holds ⟨dst, n⟩ addr ∨ addr = dst + n := by
  unfold Block.Holds Block.stop
  dsimp only
  omega

/-- One more cell at the end. -/
theorem moved_succ (mem : ℕ → UInt8) (dst n : ℕ) (cell : ℕ → UInt8) :
    Function.update (moved mem dst n cell) (dst + n) (cell n) = moved mem dst (n + 1) cell := by
  funext addr
  by_cases hlast : addr = dst + n
  · rw [hlast, Function.update_self, moved_inside (Nat.lt_succ_self n)]
  · rw [Function.update_of_ne hlast, moved, moved]
    simp only [holds_succ, hlast, or_false]

/-- Copied forward, the bytes between source and destination come again and again. -/
theorem memcpy_eq (mem : ℕ → UInt8) (dst src n : ℕ) : memcpy mem dst src n =
    moved mem dst n fun i => if dst ≤ src then mem (src + i) else mem (src + i % (dst - src)) := by
  unfold memcpy
  induction n with
  | zero =>
    funext addr
    rw [moved_outside]
    · rfl
    · intro h
      have hlow : dst ≤ addr := h.1
      have hhigh : addr < dst + 0 := h.2
      omega
  | succ n ih =>
    rw [List.range_succ, List.foldl_append, ih, List.foldl_cons, List.foldl_nil, copyByte, ← moved_succ]
    congr 1
    by_cases hle : dst ≤ src
    · rw [if_pos hle, moved_outside]
      intro h
      have hhigh : src + n < dst + n := h.2
      omega
    · rw [if_neg hle]
      by_cases hback : dst ≤ src + n
      · have hcell : src + n = dst + (n - (dst - src)) := by omega
        have hmod : (n - (dst - src)) % (dst - src) = n % (dst - src) := (Nat.mod_eq_sub_mod (by omega)).symm
        rw [hcell, moved_inside (by omega), if_neg hle, hmod]
      · rw [moved_outside, Nat.mod_eq_of_lt (by omega)]
        exact fun h => hback h.1

/-- Backward, the cells from `n` on are there already. -/
theorem foldl_copyByte_reverse (hlt : src < dst) (done : ℕ) (mem : ℕ → UInt8) (cell : ℕ → UInt8)
    (hcell : ∀ i < n, mem (src + i) = cell i) (hlater : ∀ i, n ≤ i → i < n + done → mem (dst + i) = cell i) :
    ∀ i < n + done, (List.range n).reverse.foldl (copyByte dst src) mem (dst + i) = cell i := by
  induction n generalizing mem done with
  | zero =>
    intro i hi
    exact hlater i (Nat.zero_le _) hi
  | succ n ih =>
    rw [List.range_succ, List.reverse_append, List.reverse_singleton, List.singleton_append, List.foldl_cons]
    intro i hi
    apply ih (done + 1)
    · intro j hj
      rw [copyByte, Function.update_of_ne (by omega)]
      exact hcell j (by omega)
    · intro j hle hj
      unfold copyByte
      by_cases hfirst : j = n
      · rw [hfirst, Function.update_self]
        exact hcell n (Nat.lt_succ_self n)
      · rw [Function.update_of_ne (by omega)]
        exact hlater j (by omega) (by omega)
    · omega

theorem foldl_copyByte_outside (order : List ℕ) (mem : ℕ → UInt8) (h : ∀ i ∈ order, addr ≠ dst + i) :
    order.foldl (copyByte dst src) mem addr = mem addr := by
  induction order generalizing mem with
  | nil => rfl
  | cons i order ih =>
    rw [List.foldl_cons, ih _ fun j hj => h j (List.mem_cons_of_mem _ hj), copyByte,
      Function.update_of_ne (h i List.mem_cons_self)]

theorem memmove_eq (mem : ℕ → UInt8) (dst src n : ℕ) :
    memmove mem dst src n = moved mem dst n fun i => mem (src + i) := by
  unfold memmove
  by_cases hle : dst ≤ src
  · rw [if_pos hle, memcpy_eq]
    simp only [hle, if_true]
  · rw [if_neg hle]
    funext addr
    by_cases hin : Block.Holds ⟨dst, n⟩ addr
    · obtain ⟨i, rfl⟩ := Nat.exists_eq_add_of_le hin.1
      have hi : i < n := Nat.lt_of_add_lt_add_left hin.2
      rw [moved_inside hi]
      exact foldl_copyByte_reverse (Nat.not_le.mp hle) 0 mem (fun i => mem (src + i)) (fun _ _ => rfl)
        (fun _ _ _ => by omega) i hi
    · rw [moved_outside hin]
      apply foldl_copyByte_outside
      intro i hi heq
      rw [List.mem_reverse, List.mem_range] at hi
      exact hin ⟨by dsimp only; omega, by unfold Block.stop; dsimp only; omega⟩

theorem memcpy_eq_iff (mem : ℕ → UInt8) (dst src n : ℕ) :
    memcpy mem dst src n = memmove mem dst src n ↔
      dst ≤ src ∨ src + n ≤ dst ∨ ∀ i < n, mem (src + i) = mem (src + i % (dst - src)) := by
  rw [memmove_eq, memcpy_eq]
  by_cases hle : dst ≤ src
  · simp [hle]
  · simp only [hle, if_false, false_or]
    constructor
    · intro h
      right
      intro i hi
      have hcell := congrFun h (dst + i)
      rw [moved_inside hi, moved_inside hi] at hcell
      exact hcell.symm
    · intro h
      funext addr
      by_cases hin : Block.Holds ⟨dst, n⟩ addr
      · obtain ⟨i, rfl⟩ := Nat.exists_eq_add_of_le hin.1
        have hi : i < n := Nat.lt_of_add_lt_add_left hin.2
        rw [moved_inside hi, moved_inside hi]
        rcases h with hfar | hrepeat
        · rw [Nat.mod_eq_of_lt (by omega)]
        · exact (hrepeat i hi).symm
      · rw [moved_outside hin, moved_outside hin]

/-- `memmove` leaves the original bytes of the source at the destination, however the two overlap,
and changes nothing else. `memcpy` does the same just when the destination does not lie ahead inside
the source, or the source repeats itself at that distance. -/
theorem memmove_any_overlap (mem : ℕ → UInt8) (dst src n : ℕ) :
    (memmove mem dst src n = moved mem dst n fun i => mem (src + i)) ∧
      (memcpy mem dst src n = memmove mem dst src n ↔
        dst ≤ src ∨ src + n ≤ dst ∨ ∀ i < n, mem (src + i) = mem (src + i % (dst - src))) :=
  ⟨memmove_eq mem dst src n, memcpy_eq_iff mem dst src n⟩

end Copy

end MiniAgentOS.Memory
