import Mathlib

/-! Computations that change a state and may raise: an exception leaves the state as it was changed
before. `Ends x s Q E` says that `x`, run from `s`, returns with `Q` or raises with `E`. -/

abbrev Raising (σ ε : Type) := ExceptT ε (StateM σ)

namespace Raising

variable {σ ε α β : Type} {x : Raising σ ε α} {f : α → Raising σ ε β} {s t : σ}

/-- The outcome of a computation and the state that it leaves. -/
def exec (x : Raising σ ε α) (s : σ) : Except ε α × σ := x.run.run s

section Exec

@[simp] theorem exec_pure (a : α) (s : σ) : exec (pure a : Raising σ ε α) s = (.ok a, s) := rfl

@[simp] theorem exec_throw (e : ε) (s : σ) : exec (throw e : Raising σ ε α) s = (.error e, s) := rfl

@[simp] theorem exec_get (s : σ) : exec (get : Raising σ ε σ) s = (.ok s, s) := rfl

@[simp] theorem exec_set (t s : σ) : exec (set t : Raising σ ε PUnit) s = (.ok ⟨⟩, t) := rfl

@[simp] theorem exec_modify (g : σ → σ) (s : σ) :
    exec (modify g : Raising σ ε PUnit) s = (.ok ⟨⟩, g s) := rfl

theorem exec_bind (x : Raising σ ε α) (f : α → Raising σ ε β) (s : σ) :
    exec (x >>= f) s = (ExceptT.bindCont f (exec x s).1 : StateM σ (Except ε β)) (exec x s).2 := rfl

theorem exec_bind_ok {a : α} (h : exec x s = (.ok a, t)) : exec (x >>= f) s = exec (f a) t := by
  rw [exec_bind, h]
  rfl

theorem exec_bind_error {e : ε} (h : exec x s = (.error e, t)) : exec (x >>= f) s = (.error e, t) := by
  rw [exec_bind, h]
  rfl

end Exec

section Ends

variable {Q Q' : α → σ → Prop} {E E' : ε → σ → Prop} {R : β → σ → Prop}

/-- The computation returns with `Q`, or raises with `E`. -/
def Ends (x : Raising σ ε α) (s : σ) (Q : α → σ → Prop) (E : ε → σ → Prop) : Prop :=
  match exec x s with
  | (.ok a, t) => Q a t
  | (.error e, t) => E e t

theorem Ends.of_ok {a : α} (h : Ends x s Q E) (hx : exec x s = (.ok a, t)) : Q a t := by
  unfold Ends at h
  rw [hx] at h
  exact h

theorem Ends.of_error {e : ε} (h : Ends x s Q E) (hx : exec x s = (.error e, t)) : E e t := by
  unfold Ends at h
  rw [hx] at h
  exact h

theorem ends_of_ok {a : α} (hx : exec x s = (.ok a, t)) (h : Q a t) : Ends x s Q E := by
  unfold Ends
  rw [hx]
  exact h

theorem ends_of_error {e : ε} (hx : exec x s = (.error e, t)) (h : E e t) : Ends x s Q E := by
  unfold Ends
  rw [hx]
  exact h

theorem Ends.mono (h : Ends x s Q E) (hQ : ∀ a t, Q a t → Q' a t) (hE : ∀ e t, E e t → E' e t) :
    Ends x s Q' E' := by
  unfold Ends at h ⊢
  rcases hx : exec x s with ⟨result, t⟩
  rw [hx] at h
  cases result with
  | ok a => exact hQ a t h
  | error e => exact hE e t h

theorem Ends.pure {a : α} (h : Q a s) : Ends (Pure.pure a) s Q E := h

theorem Ends.throw {e : ε} (h : E e s) : Ends (MonadExcept.throw e : Raising σ ε α) s Q E := h

theorem Ends.get {f : σ → Raising σ ε α} (h : Ends (f s) s Q E) : Ends (MonadState.get >>= f) s Q E := h

theorem Ends.modify {g : σ → σ} {f : PUnit → Raising σ ε α} (h : Ends (f ⟨⟩) (g s) Q E) :
    Ends (modify g >>= f) s Q E := h

/-- The rule of sequencing. -/
theorem Ends.bind (hx : Ends x s Q E) (hf : ∀ a t, Q a t → Ends (f a) t R E) : Ends (x >>= f) s R E := by
  rcases hexec : exec x s with ⟨result, t⟩
  cases result with
  | ok a =>
    have hnext := hf a t (hx.of_ok hexec)
    unfold Ends at hnext ⊢
    rwa [exec_bind_ok hexec]
  | error e => exact ends_of_error (exec_bind_error hexec) (hx.of_error hexec)

theorem Ends.ite {c : Prop} [Decidable c] {y : Raising σ ε α} (hthen : c → Ends x s Q E)
    (helse : ¬ c → Ends y s Q E) : Ends (if c then x else y) s Q E := by
  by_cases hc : c
  · rw [if_pos hc]
    exact hthen hc
  · rw [if_neg hc]
    exact helse hc

/-- Whatever happens, the state afterwards is related to the one before. -/
def Keeps (Rel : σ → σ → Prop) (x : Raising σ ε α) : Prop :=
  ∀ s, Ends x s (fun _ t => Rel s t) fun _ t => Rel s t

variable {Rel : σ → σ → Prop}

theorem Keeps.exec (h : Keeps Rel x) (s : σ) : Rel s (exec x s).2 := by
  have hs := h s
  unfold Ends at hs
  rcases hx : Raising.exec x s with ⟨result, t⟩
  rw [hx] at hs
  cases result with
  | ok a => exact hs
  | error e => exact hs

theorem Keeps.pure (hrefl : ∀ s, Rel s s) (a : α) : Keeps Rel (Pure.pure a : Raising σ ε α) := hrefl

theorem Keeps.throw (hrefl : ∀ s, Rel s s) (e : ε) : Keeps Rel (MonadExcept.throw e : Raising σ ε α) := hrefl

theorem Keeps.bind (htrans : ∀ r s t, Rel r s → Rel s t → Rel r t) (hx : Keeps Rel x)
    (hf : ∀ a, Keeps Rel (f a)) : Keeps Rel (x >>= f) := by
  intro s
  apply Ends.bind ((hx s).mono (fun _ _ h => h) fun _ _ h => h)
  intro a t ht
  exact (hf a t).mono (fun _ _ h => htrans s t _ ht h) fun _ _ h => htrans s t _ ht h

theorem Keeps.forM {γ : Type} {g : γ → Raising σ ε PUnit} (hrefl : ∀ s, Rel s s)
    (htrans : ∀ r s t, Rel r s → Rel s t → Rel r t) (hg : ∀ a, Keeps Rel (g a)) (l : List γ) :
    Keeps Rel (l.forM g) := by
  induction l with
  | nil => exact Keeps.pure hrefl _
  | cons a l ih => exact Keeps.bind htrans (hg a) fun _ => ih

theorem Keeps.ite {c : Prop} [Decidable c] {y : Raising σ ε α} (hthen : c → Keeps Rel x)
    (helse : ¬ c → Keeps Rel y) : Keeps Rel (if c then x else y) :=
  fun s => Ends.ite (fun hc => hthen hc s) fun hc => helse hc s

end Ends

end Raising
