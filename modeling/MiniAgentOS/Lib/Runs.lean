import MiniAgentOS.Lib.Machine

/-! What holds all along a run of a machine, and what all its steps meet. -/
namespace Machine

variable {σ ε : Type} {machine : Machine σ ε} {P : σ → Prop} {cond : σ → ε → Prop} {state : σ}
  {events : List ε}

/-- `P` holds in every state of the run. -/
def Throughout (machine : Machine σ ε) (P : σ → Prop) : σ → List ε → Prop
  | state, [] => P state
  | state, event :: events => P state ∧ machine.Throughout P (machine.step state event) events

/-- Every step of the run meets `cond`. -/
def Meets (machine : Machine σ ε) (cond : σ → ε → Prop) : σ → List ε → Prop
  | _, [] => True
  | state, event :: events =>
    cond state event ∧ machine.Meets cond (machine.step state event) events

instance decidableMeets [∀ state event, Decidable (cond state event)] :
    ∀ (state : σ) (events : List ε), Decidable (machine.Meets cond state events)
  | _, [] => isTrue trivial
  | state, event :: events =>
    have := decidableMeets (machine.step state event) events
    inferInstanceAs (Decidable (_ ∧ _))

theorem Throughout.start (h : machine.Throughout P state events) : P state := by
  cases events with
  | nil => exact h
  | cons event events => exact h.1

theorem Throughout.last (h : machine.Throughout P state events) : P (machine.run state events) := by
  induction events generalizing state with
  | nil => exact h
  | cons event events ih => exact ih h.2

/-- When a step keeps `P` just if it meets `cond`, a run keeps `P` just if all its steps do. -/
theorem throughout_iff
    (hstep : ∀ state event, machine.Reachable state → P state → machine.allowed state event →
      (P (machine.step state event) ↔ cond state event))
    (h : machine.Reachable state) (hP : P state) (hallowed : machine.Allows state events) :
    machine.Throughout P state events ↔ machine.Meets cond state events := by
  induction events generalizing state with
  | nil => exact ⟨fun _ => trivial, fun _ => hP⟩
  | cons event events ih =>
    have hiff := hstep state event h hP hallowed.1
    constructor
    · intro hall
      have hnext : P (machine.step state event) := hall.2.start
      exact ⟨hiff.mp hnext, (ih (h.step hallowed.1) hnext hallowed.2).mp hall.2⟩
    · intro hmeets
      have hnext : P (machine.step state event) := hiff.mpr hmeets.1
      exact ⟨hP, (ih (h.step hallowed.1) hnext hallowed.2).mpr hmeets.2⟩

/-- Conditions that agree on every step that the machine can take agree on its runs. -/
theorem meets_congr {other : σ → ε → Prop}
    (hstep : ∀ state event, machine.Reachable state → machine.allowed state event →
      (cond state event ↔ other state event))
    (h : machine.Reachable state) (hallowed : machine.Allows state events) :
    machine.Meets cond state events ↔ machine.Meets other state events := by
  induction events generalizing state with
  | nil => exact Iff.rfl
  | cons event events ih => exact and_congr (hstep state event h hallowed.1) (ih (h.step hallowed.1) hallowed.2)

theorem Meets.mono {other : σ → ε → Prop} (h : machine.Meets cond state events)
    (hstep : ∀ state event, cond state event → other state event) : machine.Meets other state events := by
  induction events generalizing state with
  | nil => trivial
  | cons event events ih => exact ⟨hstep state event h.1, ih h.2⟩

theorem Throughout.mono {Q : σ → Prop} (h : machine.Throughout P state events) (hmono : ∀ state, P state → Q state) :
    machine.Throughout Q state events := by
  induction events generalizing state with
  | nil => exact hmono state h
  | cons event events ih => exact ⟨hmono state h.1, ih h.2⟩

/-- What every step that meets `cond` keeps, a run whose steps do so keeps. -/
theorem Meets.throughout (hstep : ∀ state event, machine.Reachable state → P state → machine.allowed state event →
      cond state event → P (machine.step state event))
    (hmeets : machine.Meets cond state events) (h : machine.Reachable state) (hP : P state)
    (hallowed : machine.Allows state events) : machine.Throughout P state events := by
  induction events generalizing state with
  | nil => exact hP
  | cons event events ih =>
    have hnext := hstep state event h hP hallowed.1 hmeets.1
    exact ⟨hP, ih hmeets.2 (h.step hallowed.1) hnext hallowed.2⟩

/-- A run meets what holds of every step that the machine can take. -/
theorem meets_of_steps (hstep : ∀ state event, machine.Reachable state → machine.allowed state event → cond state event)
    (h : machine.Reachable state) (hallowed : machine.Allows state events) : machine.Meets cond state events := by
  induction events generalizing state with
  | nil => trivial
  | cons event events ih => exact ⟨hstep state event h hallowed.1, ih (h.step hallowed.1) hallowed.2⟩

/-- Allowed events lead from one state to another. -/
def Leads (machine : Machine σ ε) (state : σ) (events : List ε) (last : σ) : Prop :=
  machine.Allows state events ∧ machine.run state events = last

theorem Leads.snoc {last : σ} {event : ε} (h : machine.Leads state events last) (hallowed : machine.allowed last event) :
    machine.Leads state (events ++ [event]) (machine.step last event) := by
  obtain ⟨hallows, rfl⟩ := h
  induction events generalizing state with
  | nil => exact ⟨⟨hallowed, trivial⟩, rfl⟩
  | cons first events ih =>
    obtain ⟨hrest, hrun⟩ := ih hallows.2 hallowed
    exact ⟨⟨hallows.1, hrest⟩, hrun⟩

theorem Leads.meets_snoc {last : σ} {event : ε} (h : machine.Leads state events last) :
    machine.Meets cond state (events ++ [event]) ↔ machine.Meets cond state events ∧ cond last event := by
  obtain ⟨-, rfl⟩ := h
  induction events generalizing state with
  | nil => exact and_comm
  | cons first events ih =>
    change _ ∧ machine.Meets cond (machine.step state first) (events ++ [event]) ↔ (_ ∧ _) ∧ _
    rw [ih, and_assoc]
    rfl

end Machine
