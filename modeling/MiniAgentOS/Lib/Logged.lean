import MiniAgentOS.Lib.Machine

/-! Machines with a log of what their steps show. The log changes nothing of the runs. -/
namespace Machine

variable {σ ε α : Type} (machine : Machine σ ε) (shown : σ → σ → List α)

/-- The machine with a log, to which every step adds what it shows. -/
def logged : Machine (σ × List α) ε where
  init s := machine.init s.1 ∧ s.2 = []
  allowed s event := machine.allowed s.1 event
  step s event := (machine.step s.1 event, s.2 ++ shown s.1 (machine.step s.1 event))

instance [∀ state event, Decidable (machine.allowed state event)] (s : σ × List α) (event : ε) :
    Decidable ((machine.logged shown).allowed s event) :=
  inferInstanceAs (Decidable (machine.allowed s.1 event))

end Machine
