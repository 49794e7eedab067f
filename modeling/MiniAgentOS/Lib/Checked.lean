import Mathlib

/-! Computations that may trap, as a machine that checks indices and arithmetic runs them, and
rules for total correctness: `Returns x P` says that `x` does not trap and that its value
satisfies `P`. Lengths and positions are natural numbers; machine integers are natural numbers
with an explicit bound. -/
namespace Checked

/-- Why a computation stops: an index out of bounds, an overflow, a division by zero. `fuel` is
no trap of the machine; a loop that is given enough fuel never raises it. -/
inductive Trap where
  | index
  | overflow
  | divZero
  | fuel
  deriving DecidableEq, Repr

end Checked

abbrev Checked := Except Checked.Trap

namespace Checked

variable {α β σ : Type} {P Q : α → Prop}

@[simp] theorem ok_bind (a : α) (f : α → Checked β) : (.ok a >>= f : Checked β) = f a := rfl

@[simp] theorem error_bind (trap : Trap) (f : α → Checked β) :
    (.error trap >>= f : Checked β) = .error trap := rfl

def Returns (x : Checked α) (P : α → Prop) : Prop := ∃ a, x = .ok a ∧ P a

theorem Returns.mono {x : Checked α} (h : Returns x P) (himp : ∀ a, P a → Q a) : Returns x Q := by
  obtain ⟨a, hx, ha⟩ := h
  exact ⟨a, hx, himp a ha⟩

/-- A value that is known satisfies what is returned. -/
theorem Returns.of_eq {x : Checked α} {a : α} (h : Returns x P) (hx : x = .ok a) : P a := by
  obtain ⟨b, hb, hp⟩ := h
  rw [hx, Except.ok.injEq] at hb
  exact hb ▸ hp

theorem Returns.and {x : Checked α} (hp : Returns x P) (hq : Returns x Q) :
    Returns x fun a => P a ∧ Q a := by
  obtain ⟨a, hx, ha⟩ := hp
  exact ⟨a, hx, ha, hq.of_eq hx⟩

@[simp] theorem returns_ok {a : α} : Returns (.ok a) P ↔ P a :=
  ⟨fun h => h.of_eq rfl, fun h => ⟨a, rfl, h⟩⟩

@[simp] theorem returns_pure {a : α} : Returns (pure a) P ↔ P a := returns_ok

@[simp] theorem returns_error {trap : Trap} : Returns (.error trap) P ↔ False := by
  constructor
  · rintro ⟨a, h, -⟩
    cases h
  · exact False.elim

@[simp] theorem returns_throw {trap : Trap} : Returns (throw trap) P ↔ False := returns_error

/-- The rule of sequencing. -/
@[simp] theorem returns_bind {x : Checked α} {f : α → Checked β} {P : β → Prop} :
    Returns (x >>= f) P ↔ Returns x fun a => Returns (f a) P := by
  cases x with
  | ok a => exact (returns_ok (P := fun a => Returns (f a) P)).symm
  | error trap =>
    rw [returns_error]
    exact returns_error

@[simp] theorem returns_map {x : Checked α} {f : α → β} {P : β → Prop} :
    Returns (f <$> x) P ↔ Returns x fun a => P (f a) := by
  cases x with
  | ok a => exact returns_ok.trans (returns_ok (P := fun a => P (f a))).symm
  | error trap => exact returns_error.trans returns_error.symm

theorem Returns.bind {x : Checked α} {f : α → Checked β} {P : α → Prop} {Q : β → Prop}
    (hx : Returns x P) (hf : ∀ a, P a → Returns (f a) Q) : Returns (x >>= f) Q :=
  returns_bind.mpr (hx.mono hf)

theorem Returns.pure {a : α} (h : P a) : Returns (Pure.pure a) P := returns_pure.mpr h

/-- The rule of the conditional. -/
theorem returns_ite {c : Prop} [Decidable c] {x y : Checked α} :
    Returns (if c then x else y) P ↔ (c → Returns x P) ∧ (¬ c → Returns y P) := by
  by_cases h : c
  · simp [h]
  · simp [h]

theorem Returns.ite {c : Prop} [Decidable c] {x y : Checked α} (hthen : c → Returns x P)
    (helse : ¬ c → Returns y P) : Returns (if c then x else y) P :=
  returns_ite.mpr ⟨hthen, helse⟩

section Primitives

variable (buf : List α) (i : ℕ)

/-- `buf[i]`. -/
def index : Checked α :=
  match buf[i]? with
  | some a => .ok a
  | none => .error .index

/-- `&buf[start..stop]`. -/
def slice (start stop : ℕ) : Checked (List α) :=
  if start ≤ stop ∧ stop ≤ buf.length then .ok ((buf.take stop).drop start) else .error .index

/-- Addition of integers below `bound`. -/
def add (bound a b : ℕ) : Checked ℕ := if a + b < bound then .ok (a + b) else .error .overflow

def sub (a b : ℕ) : Checked ℕ := if b ≤ a then .ok (a - b) else .error .overflow

def mul (bound a b : ℕ) : Checked ℕ := if a * b < bound then .ok (a * b) else .error .overflow

def div (a b : ℕ) : Checked ℕ := if b = 0 then .error .divZero else .ok (a / b)

/-- Addition and multiplication of 64-bit integers that stop at the largest one. -/
def saturatingAdd (a b : ℕ) : ℕ := min (a + b) (2 ^ 64 - 1)

def saturatingMul (a b : ℕ) : ℕ := min (a * b) (2 ^ 64 - 1)

/-- Copy `piece` behind the first cells of a buffer with room for `capacity`. -/
def extend (capacity : ℕ) (piece : List α) : Checked (List α) :=
  if buf.length + piece.length ≤ capacity then .ok (buf ++ piece) else .error .index

variable {buf i}

theorem saturatingAdd_assoc (a b c : ℕ) :
    saturatingAdd (saturatingAdd a b) c = saturatingAdd a (b + c) := by
  unfold saturatingAdd
  omega

theorem extend_eq {capacity : ℕ} {piece : List α} (h : buf.length + piece.length ≤ capacity) :
    extend buf capacity piece = .ok (buf ++ piece) := if_pos h

theorem slice_eq {start stop : ℕ} (hle : start ≤ stop) (hlen : stop ≤ buf.length) :
    slice buf start stop = .ok ((buf.take stop).drop start) := if_pos ⟨hle, hlen⟩

theorem index_eq (h : i < buf.length) : index buf i = .ok buf[i] := by
  simp [index, h]

/-- The first cell of what is left of a buffer. -/
theorem index_of_drop {a : α} {rest : List α} (h : buf.drop i = a :: rest) : i < buf.length ∧ index buf i = .ok a := by
  have hlt : i < buf.length := by
    by_contra hout
    rw [List.drop_of_length_le (by omega)] at h
    cases h
  have hcell := List.drop_eq_getElem_cons hlt
  rw [h] at hcell
  refine ⟨hlt, ?_⟩
  rw [index_eq hlt, (List.cons.inj hcell).1]

/-- Indexing does not trap below the length. -/
theorem returns_index (h : i < buf.length) (hP : ∀ a, buf[i]? = some a → P a) :
    Returns (index buf i) P := by
  rw [index_eq h, returns_ok]
  exact hP _ (List.getElem?_eq_getElem h)

theorem index_returns (h : i < buf.length) : Returns (index buf i) fun _ => True :=
  returns_index h fun _ _ => trivial

theorem returns_slice {start stop : ℕ} {P : List α → Prop} (hle : start ≤ stop)
    (hlen : stop ≤ buf.length) (hP : P ((buf.take stop).drop start)) :
    Returns (slice buf start stop) P := by
  rw [slice, if_pos ⟨hle, hlen⟩, returns_ok]
  exact hP

variable {bound a b : ℕ} {P : ℕ → Prop}

theorem returns_add : Returns (add bound a b) P ↔ a + b < bound ∧ P (a + b) := by
  rw [add, returns_ite, returns_ok, returns_error]
  tauto

theorem returns_sub : Returns (sub a b) P ↔ b ≤ a ∧ P (a - b) := by
  rw [sub, returns_ite, returns_ok, returns_error]
  tauto

theorem returns_mul : Returns (mul bound a b) P ↔ a * b < bound ∧ P (a * b) := by
  rw [mul, returns_ite, returns_ok, returns_error]
  tauto

theorem returns_div : Returns (div a b) P ↔ b ≠ 0 ∧ P (a / b) := by
  rw [div, returns_ite, returns_ok, returns_error]
  tauto

end Primitives

section Loop

/-- One round of a loop: go on with a new state, or leave with a result. -/
inductive Round (σ α : Type) where
  | next (state : σ)
  | done (result : α)

/-- A loop with at most `fuel` rounds. -/
def loop (body : σ → Checked (Round σ α)) : ℕ → σ → Checked α
  | 0, _ => .error .fuel
  | fuel + 1, state => do
    match ← body state with
    | .next state => loop body fuel state
    | .done result => pure result

variable {body : σ → Checked (Round σ α)} {state : σ} {fuel : ℕ}

/-- What one round must establish: the invariant with a smaller measure, or the postcondition. -/
def RoundPost (Inv : σ → Prop) (measure : σ → ℕ) (P : α → Prop) (before : σ) : Round σ α → Prop
  | .next after => Inv after ∧ measure after < measure before
  | .done result => P result

@[simp] theorem roundPost_next {Inv : σ → Prop} {measure : σ → ℕ} {before after : σ} :
    RoundPost Inv measure P before (.next after) ↔ Inv after ∧ measure after < measure before :=
  Iff.rfl

@[simp] theorem roundPost_done {Inv : σ → Prop} {measure : σ → ℕ} {before : σ} {result : α} :
    RoundPost Inv measure P before (.done result) ↔ P result :=
  Iff.rfl

/-- The rule of loops: an invariant, and a measure that each round decreases and that the fuel
exceeds. -/
theorem returns_loop (Inv : σ → Prop) (measure : σ → ℕ)
    (hbody : ∀ before, Inv before → Returns (body before) (RoundPost Inv measure P before))
    (hinv : Inv state) (hfuel : measure state < fuel) : Returns (loop body fuel state) P := by
  induction fuel generalizing state with
  | zero => exact absurd hfuel (Nat.not_lt_zero _)
  | succ fuel ih =>
    rw [loop, returns_bind]
    refine (hbody state hinv).mono ?_
    intro round hround
    cases round with
    | next after => exact ih hround.1 (by have := hround.2; omega)
    | done result => exact returns_pure.mpr hround

/-- More fuel than a loop needs changes nothing. -/
theorem loop_mono {result : α} (h : loop body fuel state = .ok result) {more : ℕ}
    (hle : fuel ≤ more) : loop body more state = .ok result := by
  induction fuel generalizing state more with
  | zero => cases h
  | succ fuel ih =>
    obtain ⟨more, rfl⟩ : ∃ rest, more = rest + 1 := ⟨more - 1, by omega⟩
    rw [loop] at h ⊢
    cases hbody : body state with
    | error trap =>
      rw [hbody] at h
      cases h
    | ok round =>
      rw [hbody] at h
      cases round with
      | next after => exact ih h (by omega)
      | done result => exact h

/-- A loop over the cells of a buffer from `i` up to `stop`, as a loop over an index. -/
def foldIndex (f : β → α → Checked β) (buf : List α) (stop start : ℕ) (init : β) : Checked β :=
  loop (fun (i, acc) =>
    if i < stop then do
      let a ← index buf i
      let acc ← f acc a
      pure (.next (i + 1, acc))
    else pure (.done acc)) (stop - start + 1) (start, init)

/-- Within the buffer, that loop is the fold over its slice. -/
theorem foldIndex_eq (f : β → α → Checked β) (buf : List α) {stop start : ℕ}
    (hstop : stop ≤ buf.length) (init : β) :
    foldIndex f buf stop start init = ((buf.take stop).drop start).foldlM f init := by
  obtain ⟨n, hn⟩ : ∃ n, stop - start = n := ⟨_, rfl⟩
  unfold foldIndex
  rw [hn]
  induction n generalizing start init with
  | zero =>
    have hle : stop ≤ start := by omega
    have hempty : (buf.take stop).drop start = [] := by
      apply List.drop_of_length_le
      rw [List.length_take]
      omega
    rw [loop, hempty]
    simp only [Nat.not_lt.mpr hle, if_false]
    rfl
  | succ n ih =>
    have hlt : start < stop := by omega
    have hcell : start < (buf.take stop).length := by
      rw [List.length_take]
      omega
    rw [loop, List.drop_eq_getElem_cons hcell, List.getElem_take]
    simp only [hlt, if_true, index_eq (show start < buf.length by omega)]
    rw [List.foldlM_cons]
    cases hf : f init buf[start] with
    | error trap =>
      rw [ok_bind, hf, error_bind, error_bind, error_bind]
    | ok acc =>
      rw [ok_bind, hf, ok_bind, ok_bind]
      exact ih acc (by omega)

end Loop

end Checked
