import Mathlib

/-! Traces: lists of actions in the order in which they were done. -/
namespace Trace

variable {α β : Type*}

section Always

/-- A property of every action of a trace and of what was done before it. -/
def Always (P : List α → α → Prop) (trace : List α) : Prop :=
  ∀ before action after, trace = before ++ action :: after → P before action

variable {P : List α → α → Prop} {trace new : List α} {action : α}

theorem always_nil : Always P [] := by
  intro before action after h
  simp at h

theorem Always.snoc (h : Always P trace) (haction : P trace action) : Always P (trace ++ [action]) := by
  intro before other after heq
  rcases List.eq_nil_or_concat after with rfl | ⟨after, last, rfl⟩
  · obtain ⟨rfl, hlast⟩ := List.append_inj' heq rfl
    exact (List.cons.inj hlast).1 ▸ haction
  · rw [List.concat_eq_append, ← List.cons_append, ← List.append_assoc] at heq
    obtain ⟨hinit, -⟩ := List.append_inj' heq rfl
    exact h before other after hinit

/-- Actions that have the property where they are done. -/
theorem Always.extend (h : Always P trace)
    (hnew : ∀ before action after, new = before ++ action :: after → P (trace ++ before) action) :
    Always P (trace ++ new) := by
  induction new generalizing trace with
  | nil => simpa using h
  | cons action new ih =>
    rw [← List.singleton_append, ← List.append_assoc]
    have haction : P trace action := by
      simpa using hnew [] action new rfl
    apply ih (h.snoc haction)
    intro before other after heq
    rw [List.append_assoc]
    exact hnew (action :: before) other after (by rw [heq, List.cons_append])

/-- Actions that have the property wherever they are done. -/
theorem Always.append (h : Always P trace) (hnew : ∀ action ∈ new, ∀ before, P before action) :
    Always P (trace ++ new) := by
  apply h.extend
  intro before action after heq
  exact hnew action (heq ▸ List.mem_append_right _ List.mem_cons_self) _

end Always

section Since

variable (mark : α → Option β)

/-- What is known once an action was done: the last mark, and the actions after it. -/
def next (last : Option (β × List α)) (action : α) : Option (β × List α) :=
  match mark action with
  | some b => some (b, [])
  | none => last.map fun s => (s.1, s.2 ++ [action])

/-- The last mark of a trace, and the actions after it. -/
def since (trace : List α) : Option (β × List α) := trace.foldl (next mark) none

variable {mark} {trace new : List α} {action : α} {b : β}

@[simp] theorem since_nil : since mark ([] : List α) = none := rfl

theorem since_snoc (trace : List α) (action : α) :
    since mark (trace ++ [action]) = next mark (since mark trace) action := by
  unfold since
  rw [List.foldl_append]
  rfl

theorem since_mark (trace : List α) (h : mark action = some b) :
    since mark (trace ++ [action]) = some (b, []) := by
  rw [since_snoc, next, h]

theorem since_append (h : ∀ action ∈ new, mark action = none) (trace : List α) :
    since mark (trace ++ new) = (since mark trace).map fun s => (s.1, s.2 ++ new) := by
  induction new generalizing trace with
  | nil => simp
  | cons action new ih =>
    rw [← List.singleton_append, ← List.append_assoc,
      ih (fun other hother => h other (List.mem_cons_of_mem _ hother)), since_snoc, next,
      h action List.mem_cons_self, Option.map_map]
    congr 1
    funext s
    simp

/-- The actions after the last mark. -/
def after (mark : α → Option β) (trace : List α) : List α :=
  match since mark trace with
  | some (_, actions) => actions
  | none => trace

theorem after_of_since {actions : List α} (h : since mark trace = some (b, actions)) :
    after mark trace = actions := by
  unfold after
  rw [h]

theorem after_mark (trace : List α) (h : mark action = some b) : after mark (trace ++ [action]) = [] :=
  after_of_since (since_mark trace h)

theorem after_append (h : ∀ action ∈ new, mark action = none) (trace : List α) :
    after mark (trace ++ new) = after mark trace ++ new := by
  unfold after
  rw [since_append h]
  cases since mark trace with
  | none => rfl
  | some last => rfl

end Since

end Trace
