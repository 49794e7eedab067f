import MiniAgentOS.Lib.Checked

/-! Partial correctness of computations that may trap: `Ensures x P` says that the value of `x`, if it
has one, satisfies `P`. -/
namespace Checked

variable {α β σ : Type} {P Q : α → Prop} {x : Checked α}

def Ensures (x : Checked α) (P : α → Prop) : Prop := ∀ a, x = .ok a → P a

theorem Ensures.mono (h : Ensures x P) (himp : ∀ a, P a → Q a) : Ensures x Q :=
  fun a ha => himp a (h a ha)

theorem Returns.ensures (h : Returns x P) : Ensures x P := fun _ ha => h.of_eq ha

@[simp] theorem ensures_ok {a : α} : Ensures (.ok a) P ↔ P a := by
  constructor
  · exact fun h => h a rfl
  · rintro h _ ⟨⟩
    exact h

@[simp] theorem ensures_pure {a : α} : Ensures (pure a) P ↔ P a := ensures_ok

@[simp] theorem ensures_error {trap : Trap} : Ensures (.error trap) P :=
  fun _ h => by cases h

theorem ensures_true (x : Checked α) : Ensures x fun _ => True := fun _ _ => trivial

/-- The rule of sequencing. -/
@[simp] theorem ensures_bind {f : α → Checked β} {P : β → Prop} :
    Ensures (x >>= f) P ↔ Ensures x fun a => Ensures (f a) P := by
  cases x with
  | ok a => exact (ensures_ok (P := fun a => Ensures (f a) P)).symm
  | error trap => exact ⟨fun _ => ensures_error, fun _ => ensures_error⟩

@[simp] theorem ensures_map {f : α → β} {P : β → Prop} :
    Ensures (f <$> x) P ↔ Ensures x fun a => P (f a) := by
  cases x with
  | ok a => exact ensures_ok.trans (ensures_ok (P := fun a => P (f a))).symm
  | error trap => exact ⟨fun _ => ensures_error, fun _ => ensures_error⟩

theorem ensures_ite {c : Prop} [Decidable c] {x y : Checked α} :
    Ensures (if c then x else y) P ↔ (c → Ensures x P) ∧ (¬ c → Ensures y P) := by
  by_cases h : c
  · simp [h]
  · simp [h]

/-- What one round of a loop must ensure: the invariant, or the postcondition. -/
def RoundEnsures (Inv : σ → Prop) (P : α → Prop) : Round σ α → Prop
  | .next after => Inv after
  | .done result => P result

/-- The rule of loops: an invariant that each round keeps. -/
theorem ensures_loop {body : σ → Checked (Round σ α)} (Inv : σ → Prop)
    (hbody : ∀ before, Inv before → Ensures (body before) (RoundEnsures Inv P)) {state : σ}
    (hinv : Inv state) (fuel : ℕ) : Ensures (loop body fuel state) P := by
  induction fuel generalizing state with
  | zero => exact ensures_error
  | succ fuel ih =>
    rw [loop, ensures_bind]
    refine (hbody state hinv).mono ?_
    intro round hround
    cases round with
    | next after => exact ih hround
    | done result => exact ensures_pure.mpr hround

/-- A computation that does not go on for ever: it may trap, but not for want of fuel, and its value satisfies `P`. -/
def Ends (x : Checked α) (P : α → Prop) : Prop := x ≠ .error .fuel ∧ Ensures x P

theorem Ends.mono (h : Ends x P) (himp : ∀ a, P a → Q a) : Ends x Q := ⟨h.1, h.2.mono himp⟩

theorem Returns.ends (h : Returns x P) : Ends x P := by
  refine ⟨?_, h.ensures⟩
  rintro rfl
  exact returns_error.mp h

theorem ends_pure {a : α} (h : P a) : Ends (pure a) P := Returns.ends (Returns.pure h)

theorem ends_index (buf : List α) (i : ℕ) : Ends (index buf i) fun _ => True := by
  constructor
  · unfold index
    split <;> simp
  · exact ensures_true _

theorem Ends.bind {f : α → Checked β} {P : β → Prop} (hx : Ends x Q) (hf : ∀ a, Q a → Ends (f a) P) :
    Ends (x >>= f) P := by
  cases x with
  | ok a => exact hf a (hx.2 a rfl)
  | error trap => exact ⟨hx.1 ∘ congrArg _ ∘ Except.error.inj, ensures_error⟩

theorem Ends.ite {c : Prop} [Decidable c] {x y : Checked α} (hthen : c → Ends x P) (helse : ¬ c → Ends y P) :
    Ends (if c then x else y) P := by
  by_cases h : c
  · simpa [h] using hthen h
  · simpa [h] using helse h

/-- The rule of loops that may trap: an invariant, and a measure that each round decreases and that the fuel exceeds. -/
theorem ends_loop {body : σ → Checked (Round σ α)} (Inv : σ → Prop) (measure : σ → ℕ)
    (hbody : ∀ before, Inv before → Ends (body before) (RoundPost Inv measure P before)) {state : σ} {fuel : ℕ}
    (hinv : Inv state) (hfuel : measure state < fuel) : Ends (loop body fuel state) P := by
  induction fuel generalizing state with
  | zero => exact absurd hfuel (Nat.not_lt_zero _)
  | succ fuel ih =>
    apply Ends.bind (hbody state hinv)
    intro round hround
    cases round with
    | next after => exact ih hround.1 (Nat.lt_of_lt_of_le hround.2 (Nat.le_of_lt_succ hfuel))
    | done result => exact ends_pure hround

end Checked
