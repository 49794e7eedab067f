import Mathlib

/-! Rings written and read at running 16-bit indices. Only the index modulo the size of the
ring selects a cell, so the size must divide `2 ^ 16` for the wrap of an index to keep its
place. The window between two indices is what the ring holds there, oldest first. -/
namespace Ring16

variable {α : Type*} {cells : List α} {fallback x : α} {start stop : UInt16}

/-- The cell that the running index `index` selects. -/
def cellOf (cells : List α) (index : UInt16) : ℕ := index.toNat % cells.length

def read (cells : List α) (fallback : α) (index : UInt16) : α :=
  cells.getD (cellOf cells index) fallback

def write (cells : List α) (index : UInt16) (x : α) : List α :=
  cells.set (cellOf cells index) x

/-- How far `stop` is ahead of `start`. -/
def count (start stop : UInt16) : ℕ := (stop - start).toNat

/-- The entries from `start` up to, not including, `stop`. -/
def window (cells : List α) (fallback : α) (start stop : UInt16) : List α :=
  (List.range (count start stop)).map fun i => read cells fallback (start + UInt16.ofNat i)

@[simp] theorem length_write (index : UInt16) (x : α) :
    (write cells index x).length = cells.length := List.length_set

@[simp] theorem length_window : (window cells fallback start stop).length = count start stop := by
  rw [window, List.length_map, List.length_range]

theorem count_eq (start stop : UInt16) :
    count start stop = (2 ^ 16 - start.toNat + stop.toNat) % 2 ^ 16 :=
  UInt16.toNat_sub stop start

theorem toNat_add_ofNat (start : UInt16) (i : ℕ) :
    (start + UInt16.ofNat i).toNat = (start.toNat + i) % 2 ^ 16 := by
  rw [UInt16.toNat_add, UInt16.toNat_ofNat']
  omega

theorem toNat_add_one (start : UInt16) : (start + 1).toNat = (start.toNat + 1) % 2 ^ 16 :=
  UInt16.toNat_add start 1

@[simp] theorem count_self (start : UInt16) : count start start = 0 := by
  have hlt := UInt16.toNat_lt start
  rw [count_eq]
  omega

theorem count_lt (start stop : UInt16) : count start stop < 2 ^ 16 := UInt16.toNat_lt _

theorem count_eq_zero_iff : count start stop = 0 ↔ start = stop := by
  have hstart := UInt16.toNat_lt start
  have hstop := UInt16.toNat_lt stop
  rw [count_eq, ← UInt16.toNat_inj]
  omega

theorem count_succ (h : count start stop + 1 < 2 ^ 16) :
    count start (stop + 1) = count start stop + 1 := by
  have hstart := UInt16.toNat_lt start
  have hstop := UInt16.toNat_lt stop
  rw [count_eq] at h
  rw [count_eq, count_eq, toNat_add_one]
  omega

theorem count_next (h : start ≠ stop) : count start stop = count (start + 1) stop + 1 := by
  have hpos : count start stop ≠ 0 := count_eq_zero_iff.not.mpr h
  have hstart := UInt16.toNat_lt start
  have hstop := UInt16.toNat_lt stop
  rw [count_eq] at hpos
  rw [count_eq, count_eq, toNat_add_one]
  omega

theorem add_count (start stop : UInt16) : start + UInt16.ofNat (count start stop) = stop := by
  have hstart := UInt16.toNat_lt start
  have hstop := UInt16.toNat_lt stop
  rw [← UInt16.toNat_inj, toNat_add_ofNat, count_eq]
  omega

/-- Which cell the `i`-th entry of a window is in, when the wrap of indices keeps its place. -/
theorem cellOf_add (hdvd : cells.length ∣ 2 ^ 16) (start : UInt16) (i : ℕ) :
    cellOf cells (start + UInt16.ofNat i) = (start.toNat + i) % cells.length := by
  rw [cellOf, toNat_add_ofNat, Nat.mod_mod_of_dvd _ hdvd]

theorem read_write_self (hpos : 0 < cells.length) (index : UInt16) :
    read (write cells index x) fallback index = x := by
  have hlt : cellOf cells index < cells.length := Nat.mod_lt _ hpos
  simp only [read, write, cellOf, List.length_set]
  rw [List.getD_eq_getElem?_getD, List.getElem?_set_self (by simpa [cellOf] using hlt),
    Option.getD_some]

theorem read_write_of_ne {index other : UInt16} (hne : cellOf cells index ≠ cellOf cells other) :
    read (write cells index x) fallback other = read cells fallback other := by
  simp only [read, write, cellOf, List.length_set] at hne ⊢
  rw [List.getD_eq_getElem?_getD, List.getD_eq_getElem?_getD, List.getElem?_set_ne hne]

/-- The window is empty between equal indices. -/
@[simp] theorem window_self : window cells fallback start start = [] := by
  rw [window, count_self, List.range_zero, List.map_nil]

/-- Consuming the oldest entry of a window. -/
theorem window_next (h : start ≠ stop) :
    window cells fallback start stop =
      read cells fallback start :: window cells fallback (start + 1) stop := by
  rw [window, count_next h, List.range_succ_eq_map, List.map_cons, List.map_map, window]
  congr 1
  · rw [show UInt16.ofNat 0 = 0 from rfl, UInt16.add_zero]
  · apply List.map_congr_left
    intro i _
    have hindex : start + UInt16.ofNat (i + 1) = start + 1 + UInt16.ofNat i := by
      rw [← UInt16.toNat_inj, toNat_add_ofNat, toNat_add_ofNat, toNat_add_one]
      omega
    rw [Function.comp_apply, Nat.succ_eq_add_one, hindex]

/-- Writing at the stop index leaves a window that is not full as it is. -/
theorem window_write (hdvd : cells.length ∣ 2 ^ 16) (hroom : count start stop < cells.length) :
    window (write cells stop x) fallback start stop = window cells fallback start stop := by
  apply List.map_congr_left
  intro i hi
  have hlt : i < count start stop := List.mem_range.mp hi
  apply read_write_of_ne
  rw [← add_count start stop, cellOf_add hdvd, cellOf_add hdvd]
  intro hsame
  have hmod : count start stop % cells.length = i % cells.length :=
    Nat.ModEq.add_left_cancel' start.toNat hsame
  rw [Nat.mod_eq_of_lt hroom, Nat.mod_eq_of_lt (by omega)] at hmod
  omega

/-- Producing an entry at the stop index appends it to the window. -/
theorem window_push (hdvd : cells.length ∣ 2 ^ 16) (hroom : count start stop < cells.length)
    (hlt : count start stop + 1 < 2 ^ 16) :
    window (write cells stop x) fallback start (stop + 1) =
      window cells fallback start stop ++ [x] := by
  have hpos : 0 < cells.length := by omega
  have hkeep : window (write cells stop x) fallback start stop = window cells fallback start stop :=
    window_write hdvd hroom
  rw [← hkeep, window, count_succ hlt, List.range_succ, List.map_append, List.map_cons,
    List.map_nil, add_count, read_write_self hpos]
  rfl

end Ring16
