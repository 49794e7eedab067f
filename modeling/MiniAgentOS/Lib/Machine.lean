import MiniAgentOS.Lib.Checked

/-! Machines driven by events, and what holds over their runs. An event carries whatever the
environment decides; `allowed` says which events may come in which state. -/

/-- A machine with states `σ` and events `ε`. -/
structure Machine (σ ε : Type) where
  init : σ → Prop
  allowed : σ → ε → Prop
  step : σ → ε → σ

namespace Machine

variable {σ ε : Type} {machine : Machine σ ε} {state : σ} {events : List ε}

/-- The states that runs of the machine reach. -/
inductive Reachable (machine : Machine σ ε) : σ → Prop where
  | init {start : σ} : machine.init start → Reachable machine start
  | step {before : σ} {event : ε} : Reachable machine before → machine.allowed before event →
      Reachable machine (machine.step before event)

/-- What holds initially and is kept by every allowed step holds in every reachable state. -/
theorem Reachable.invariant {Inv : σ → Prop} (hinit : ∀ state, machine.init state → Inv state)
    (hstep : ∀ state event, Inv state → machine.allowed state event →
      Inv (machine.step state event))
    (h : machine.Reachable state) : Inv state := by
  induction h with
  | init hstart => exact hinit _ hstart
  | step _ hallowed ih => exact hstep _ _ ih hallowed

/-- The machine with only those steps that also meet `cond`. -/
def restrict (machine : Machine σ ε) (cond : σ → ε → Prop) : Machine σ ε where
  init := machine.init
  allowed state event := machine.allowed state event ∧ cond state event
  step := machine.step

instance {cond : σ → ε → Prop} [∀ state event, Decidable (machine.allowed state event)]
    [∀ state event, Decidable (cond state event)] (state : σ) (event : ε) :
    Decidable ((machine.restrict cond).allowed state event) :=
  inferInstanceAs (Decidable (_ ∧ _))

/-- The state after a list of events. -/
def run (machine : Machine σ ε) : σ → List ε → σ := List.foldl machine.step

@[simp] theorem run_nil : machine.run state [] = state := rfl

@[simp] theorem run_cons (event : ε) :
    machine.run state (event :: events) = machine.run (machine.step state event) events := rfl

/-- Every event of the list is allowed in the state that it meets. -/
def Allows (machine : Machine σ ε) : σ → List ε → Prop
  | _, [] => True
  | state, event :: events =>
    machine.allowed state event ∧ machine.Allows (machine.step state event) events

instance decidableAllows [∀ state event, Decidable (machine.allowed state event)] :
    ∀ (state : σ) (events : List ε), Decidable (machine.Allows state events)
  | _, [] => isTrue trivial
  | state, event :: events =>
    have := decidableAllows (machine.step state event) events
    inferInstanceAs (Decidable (_ ∧ _))

theorem Reachable.run (h : machine.Reachable state) (hallowed : machine.Allows state events) :
    machine.Reachable (machine.run state events) := by
  induction events generalizing state with
  | nil => exact h
  | cons event events ih => exact ih (h.step hallowed.1) hallowed.2

theorem Allows.restrict {cond : σ → ε → Prop} (h : machine.Allows state events)
    (hcond : ∀ event ∈ events, ∀ state, cond state event) : (machine.restrict cond).Allows state events := by
  induction events generalizing state with
  | nil => trivial
  | cons event events ih =>
    exact ⟨⟨h.1, hcond event List.mem_cons_self state⟩,
      ih h.2 fun other hmem => hcond other (List.mem_cons_of_mem _ hmem)⟩

/-- A machine whose steps may trap. A step that traps leads nowhere. -/
def ofChecked (init : σ → Prop) (allowed : σ → ε → Prop) (step : σ → ε → Checked σ) :
    Machine σ ε where
  init := init
  allowed state event := allowed state event ∧ (step state event).toOption.isSome
  step state event := (step state event).toOption.getD state

variable {init : σ → Prop} {allowed : σ → ε → Prop} {step : σ → ε → Checked σ}

theorem ofChecked_step {event : ε} (h : (ofChecked init allowed step).allowed state event) :
    allowed state event ∧ step state event = .ok ((ofChecked init allowed step).step state event) := by
  obtain ⟨hallowed, hok⟩ := h
  refine ⟨hallowed, ?_⟩
  change step state event = .ok ((step state event).toOption.getD state)
  cases hstep : step state event with
  | error trap =>
    rw [hstep] at hok
    cases hok
  | ok next => rfl

instance [∀ state event, Decidable (allowed state event)] (state : σ) (event : ε) :
    Decidable ((ofChecked init allowed step).allowed state event) :=
  inferInstanceAs (Decidable (_ ∧ _))

end Machine
