import MiniAgentOS.Lib.Arena

/-! A memory of cells: runs of cells written and read, and integers laid out in bytes with the low
byte first. -/
namespace Cells
open Arena (Block)

section Runs

variable {α : Type*} {mem : ℕ → α} {addr at' n i : ℕ} {data : List α}

/-- Memory with the cells from `addr` on replaced. -/
def write (mem : ℕ → α) (addr : ℕ) (data : List α) (i : ℕ) : α :=
  if addr ≤ i then (data[i - addr]?).getD (mem i) else mem i

def read (mem : ℕ → α) (addr n : ℕ) : List α := (List.range n).map fun i => mem (addr + i)

theorem write_inside (h : i < data.length) : write mem addr data (addr + i) = data[i] := by
  rw [write, if_pos (Nat.le_add_right _ _), Nat.add_sub_cancel_left, List.getElem?_eq_getElem h]
  rfl

theorem write_outside (h : ¬ Block.Holds ⟨addr, data.length⟩ i) : write mem addr data i = mem i := by
  unfold write
  split_ifs with hle
  · have hlen : data.length ≤ i - addr := by
      by_contra hlt
      have hstop : i < addr + data.length := by omega
      exact h ⟨hle, hstop⟩
    rw [List.getElem?_eq_none hlen]
    rfl
  · rfl

/-- What was written is read back. -/
@[simp] theorem read_write (mem : ℕ → α) (addr : ℕ) (data : List α) :
    read (write mem addr data) addr data.length = data := by
  apply List.ext_getElem
  · simp [read]
  · intro i _ hi
    simp only [read, List.getElem_map, List.getElem_range]
    exact write_inside hi

/-- A write leaves every run of cells alone that it shares no cell with. -/
theorem read_write_apart (h : Block.Apart ⟨addr, data.length⟩ ⟨at', n⟩) :
    read (write mem addr data) at' n = read mem at' n := by
  apply List.map_congr_left
  intro i hi
  rw [List.mem_range] at hi
  apply write_outside
  intro hin
  exact h.not_holds hin ⟨Nat.le_add_right _ _, Nat.add_lt_add_left hi _⟩

end Runs

section Integers

/-- The low `width` bytes of an integer, the lowest one first. -/
def leBytes : ℕ → ℕ → List UInt8
  | 0, _ => []
  | width + 1, value => UInt8.ofNat value :: leBytes width (value / 256)

def leValue : List UInt8 → ℕ
  | [] => 0
  | b :: rest => b.toNat + 256 * leValue rest

@[simp] theorem length_leBytes (width value : ℕ) : (leBytes width value).length = width := by
  induction width generalizing value with
  | zero => rfl
  | succ width ih => simp [leBytes, ih]

theorem leValue_leBytes (width value : ℕ) : leValue (leBytes width value) = value % 256 ^ width := by
  induction width generalizing value with
  | zero => rw [leBytes, leValue, pow_zero, Nat.mod_one]
  | succ width ih =>
    have hlow : (UInt8.ofNat value).toNat = value % 256 := UInt8.toNat_ofNat'
    rw [leBytes, leValue, ih, hlow, pow_succ, Nat.mul_comm (256 ^ width), Nat.mod_mul]

variable {mem : ℕ → UInt8} {addr at' width n value : ℕ}

def store (mem : ℕ → UInt8) (width addr value : ℕ) : ℕ → UInt8 := write mem addr (leBytes width value)

def load (mem : ℕ → UInt8) (width addr : ℕ) : ℕ := leValue (read mem addr width)

theorem load_store (h : value < 256 ^ width) : load (store mem width addr value) width addr = value := by
  have hread := read_write mem addr (leBytes width value)
  rw [length_leBytes] at hread
  rw [load, store, hread, leValue_leBytes, Nat.mod_eq_of_lt h]

theorem store_outside {i : ℕ} (h : i < addr ∨ addr + width ≤ i) : store mem width addr value i = mem i := by
  apply write_outside
  rw [length_leBytes]
  intro hin
  obtain ⟨hlow, hhigh⟩ := hin
  unfold Block.stop at hhigh
  dsimp only at hlow hhigh
  omega

theorem leBytes_zero (width : ℕ) : leBytes width 0 = List.replicate width 0 := by
  induction width with
  | zero => rfl
  | succ width ih =>
    rw [leBytes, Nat.zero_div, ih]
    rfl

/-- A zero that is stored leaves zeros as they are. -/
theorem store_zero {i : ℕ} (h : mem i = 0) : store mem width addr 0 i = 0 := by
  rw [store, leBytes_zero, write, List.getElem?_replicate]
  split_ifs
  · rfl
  · exact h
  · exact h

/-- A load sees only its own bytes. -/
theorem load_congr {other : ℕ → UInt8} (h : ∀ i < width, other (addr + i) = mem (addr + i)) :
    load other width addr = load mem width addr := by
  have hread : read other addr width = read mem addr width :=
    List.map_congr_left fun i hi => h i (List.mem_range.mp hi)
  rw [load, load, hread]

theorem load_store_apart (h : Block.Apart ⟨addr, n⟩ ⟨at', width⟩) :
    load (store mem n addr value) width at' = load mem width at' := by
  rw [load, store, read_write_apart]
  · rfl
  · rwa [length_leBytes]

end Integers

end Cells
