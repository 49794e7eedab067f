import Mathlib

/-! Transducers: a step takes a state and an input to a state and an output. -/
namespace Mealy

variable {σ τ ε δ ω υ : Type*}

/-- The outputs for a list of inputs. -/
def outputs (step : σ → ε → σ × ω) : σ → List ε → List ω
  | _, [] => []
  | s, e :: es => (step s e).2 :: outputs step (step s e).1 es

/-- The state behind a list of inputs. -/
def last (step : σ → ε → σ × ω) (s : σ) (es : List ε) : σ := es.foldl (fun s e => (step s e).1) s

variable {step : σ → ε → σ × ω} {s : σ} {e : ε} {es fs : List ε} {os ps : List ω}

@[simp] theorem outputs_nil : outputs step s [] = [] := rfl

@[simp] theorem outputs_cons :
    outputs step s (e :: es) = (step s e).2 :: outputs step (step s e).1 es := rfl

@[simp] theorem last_nil : last step s [] = s := rfl

@[simp] theorem last_cons : last step s (e :: es) = last step (step s e).1 es := rfl

@[simp] theorem outputs_length (step : σ → ε → σ × ω) (s : σ) (es : List ε) :
    (outputs step s es).length = es.length := by
  induction es generalizing s with
  | nil => rfl
  | cons e es ih => rw [outputs_cons, List.length_cons, ih, List.length_cons]

theorem outputs_append (step : σ → ε → σ × ω) (s : σ) (es fs : List ε) :
    outputs step s (es ++ fs) = outputs step s es ++ outputs step (last step s es) fs := by
  induction es generalizing s with
  | nil => rfl
  | cons e es ih => rw [List.cons_append, outputs_cons, ih, outputs_cons, last_cons, List.cons_append]

theorem last_append (step : σ → ε → σ × ω) (s : σ) (es fs : List ε) :
    last step s (es ++ fs) = last step (last step s es) fs := List.foldl_append

/-- The outputs are those that are wanted just when they are for the first inputs and for the rest. -/
theorem outputs_append_iff (h : os.length = es.length) : outputs step s (es ++ fs) = os ++ ps ↔
    outputs step s es = os ∧ outputs step (last step s es) fs = ps := by
  rw [outputs_append]
  constructor
  · intro hall
    exact List.append_inj hall (by rw [outputs_length, h])
  · intro hparts
    rw [hparts.1, hparts.2]

/-- A transducer that another one follows has the outputs of that one, as far as they are translated. -/
theorem outputs_simulate (step : σ → ε → σ × ω) (other : τ → δ → τ × υ) (R : σ → τ → Prop) (f : ε → δ) (g : ω → υ)
    {t : τ}
    (h : ∀ s t, R s t → ∀ e ∈ es, R (step s e).1 (other t (f e)).1 ∧ (other t (f e)).2 = g (step s e).2)
    (hR : R s t) : outputs other t (es.map f) = (outputs step s es).map g ∧
    R (last step s es) (last other t (es.map f)) := by
  induction es generalizing s t with
  | nil => exact ⟨rfl, hR⟩
  | cons e es ih =>
    obtain ⟨hnext, hout⟩ := h s t hR e List.mem_cons_self
    obtain ⟨houts, hlast⟩ := ih (fun s t hR e he => h s t hR e (List.mem_cons_of_mem _ he)) hnext
    exact ⟨by rw [List.map_cons, outputs_cons, outputs_cons, List.map_cons, houts, hout], hlast⟩

/-- What each step adds to a log, by its input and its output, makes up what the whole list of inputs adds. -/
theorem log_last (step : σ → ε → σ × ω) (log : σ → List υ) (emit : ε → ω → List υ)
    (h : ∀ s, ∀ e ∈ es, log (step s e).1 = log s ++ emit e (step s e).2) :
    log (last step s es) = log s ++ (List.zipWith emit es (outputs step s es)).flatten := by
  induction es generalizing s with
  | nil => simp
  | cons e es ih =>
    rw [last_cons, ih fun s e he => h s e (List.mem_cons_of_mem _ he), h s e List.mem_cons_self, outputs_cons,
      List.zipWith_cons_cons, List.flatten_cons, List.append_assoc]

end Mealy
