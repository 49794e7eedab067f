import MiniAgentOS.Lib.Machine
import MiniAgentOS.Lib.Slots
import MiniAgentOS.Text.Utf8

/-! The key-value state of a session: eight slots, and the map that they stand for. -/
namespace MiniAgentOS.Session

def sessionStateSlots : ℕ := 8

def sessionStateKeyMax : ℕ := 32

def sessionStateValueMax : ℕ := 2048

/-- A slot of `SESSION_STATE_KEYS` and `SESSION_STATE_VALUES`. It is free when its key is empty. -/
structure SessionSlot where
  key : Bytes := []
  value : Bytes := []
  deriving DecidableEq, Repr

def SessionSlot.usedFor (slot : SessionSlot) : Option Bytes :=
  if slot.key = [] then none else some slot.key

@[simp] theorem usedFor_eq_some {slot : SessionSlot} {key : Bytes} :
    slot.usedFor = some key ↔ key ≠ [] ∧ slot.key = key := by
  unfold SessionSlot.usedFor
  split_ifs with hempty
  · constructor
    · intro h
      cases h
    · rintro ⟨hne, rfl⟩
      exact absurd hempty hne
  · constructor
    · rintro ⟨rfl⟩
      exact ⟨hempty, rfl⟩
    · rintro ⟨-, rfl⟩
      rfl

structure SessionState where
  slots : List SessionSlot := List.replicate sessionStateSlots {}
  size : slots.length = sessionStateSlots := by rfl
  unique : Slots.Unique SessionSlot.usedFor slots := by
    intro i j hi hj k hk
    simp [SessionSlot.usedFor] at hk

def noKeys : SessionState := {}

def findSlot (key : Bytes) (s : SessionState) : Option ℕ :=
  Slots.find SessionSlot.usedFor s.slots key

/-- `alloc_slot`, which always finds one. -/
def allocSlot (s : SessionState) : ℕ := (Slots.free SessionSlot.usedFor s.slots).getD 0

/-- The slot that a write of `key` goes to. -/
def writeSlot (key : Bytes) (s : SessionState) : ℕ := (findSlot key s).getD (allocSlot s)

theorem writeSlot_lt (key : Bytes) (s : SessionState) : writeSlot key s < s.slots.length := by
  unfold writeSlot
  cases hfind : findSlot key s with
  | some i => exact (Slots.find_eq_some hfind).1
  | none =>
    unfold allocSlot
    cases hfree : Slots.free SessionSlot.usedFor s.slots with
    | some i => exact (Slots.free_eq_some hfree).1
    | none =>
      rw [s.size]
      decide

theorem writeSlot_usable (key : Bytes) (s : SessionState) :
    Slots.Usable SessionSlot.usedFor s.slots (writeSlot key s) key := by
  refine ⟨writeSlot_lt key s, ?_⟩
  cases hfind : findSlot key s with
  | some i =>
    left
    simpa [writeSlot, hfind] using (Slots.find_eq_some hfind).2
  | none => exact .inr (Slots.find_eq_none.mp hfind)

/-- The slot after a write of `key`. -/
def written (key value : Bytes) : SessionSlot := ⟨key, copyUtf8Prefix sessionStateValueMax value⟩

/-- A write that the checks accept. -/
def SessionState.store (s : SessionState) (key value : Bytes) (hkey : key ≠ []) : SessionState where
  slots := s.slots.set (writeSlot key s) (written key value)
  size := List.length_set.trans s.size
  unique := s.unique.set (writeSlot_usable key s) (usedFor_eq_some.mpr ⟨hkey, rfl⟩)

/-- The checks of `write_session_state`. -/
def Refused (key value : Bytes) : Prop :=
  key = [] ∨ sessionStateKeyMax < key.length ∨ sessionStateValueMax < value.length

instance (key value : Bytes) : Decidable (Refused key value) :=
  inferInstanceAs (Decidable (_ ∨ _))

/-- `write_session_state`. -/
def writeSessionState (key value : Bytes) (s : SessionState) : SessionState × Bool :=
  if h : Refused key value then (s, false) else (s.store key value fun hkey => h (.inl hkey), true)

/-- `read_session_state` into a buffer with `room` bytes. -/
def readSessionState (room : ℕ) (key : Bytes) (s : SessionState) : Bytes :=
  match findSlot key s with
  | none => []
  | some i => ((s.slots[i]?.getD {}).value).take room

/-- The value of a key, empty when it has none. -/
def SessionState.value (s : SessionState) (key : Bytes) : Bytes :=
  ((Slots.lookup SessionSlot.usedFor s.slots key).map SessionSlot.value).getD []

section Write

variable {s : SessionState} {key value : Bytes}

theorem readSessionState_eq (room : ℕ) (key : Bytes) (s : SessionState) :
    readSessionState room key s = (s.value key).take room := by
  have hlookup : s.value key =
      (((findSlot key s).bind fun i => s.slots[i]?).map SessionSlot.value).getD [] := rfl
  unfold readSessionState
  rw [hlookup]
  cases hfind : findSlot key s with
  | none => simp
  | some i =>
    obtain ⟨hi, -⟩ := Slots.find_eq_some hfind
    simp [hi]

/-- Reads see all of a value once the buffer is large enough. -/
theorem read_eq_iff {expected : Bytes} :
    (∀ room, expected.length ≤ room → readSessionState room key s = expected) ↔
      s.value key = expected := by
  constructor
  · intro h
    have hread := h (max expected.length (s.value key).length) (le_max_left _ _)
    rwa [readSessionState_eq, List.take_of_length_le (le_max_right _ _)] at hread
  · rintro rfl room hroom
    rw [readSessionState_eq, List.take_of_length_le hroom]

/-- The slot as a write finds it. -/
def SessionState.overwritten (s : SessionState) (key : Bytes) : SessionSlot :=
  s.slots.get ⟨writeSlot key s, writeSlot_lt key s⟩

theorem overwritten_eq (h : writeSlot key s < s.slots.length) :
    s.overwritten key = s.slots[writeSlot key s] := rfl

theorem store_value (hkey : key ≠ []) (other : Bytes) :
    (s.store key value hkey).value other =
      if other = key then copyUtf8Prefix sessionStateValueMax value
      else if (s.overwritten key).usedFor = some other then []
      else s.value other := by
  unfold SessionState.value SessionState.store
  rw [s.unique.lookup_set (writeSlot_lt key s) (writeSlot_usable key s)
    (usedFor_eq_some.mpr ⟨hkey, rfl⟩), overwritten_eq (writeSlot_lt key s)]
  split_ifs
  · rfl
  · rfl
  · rfl

/-- A write has a slot that holds nothing of another key: its key is in a slot already, a slot is
free, or the value in the first slot is empty. -/
def HasSlot (s : SessionState) (key : Bytes) : Prop :=
  (findSlot key s).isSome ∨ (Slots.free SessionSlot.usedFor s.slots).isSome ∨
    s.slots[0]?.map SessionSlot.value = some []

instance : Decidable (HasSlot s key) := inferInstanceAs (Decidable (_ ∨ _))

theorem value_of_slot {i : ℕ} {other : Bytes} (hi : i < s.slots.length)
    (hused : s.slots[i].usedFor = some other) : s.value other = s.slots[i].value := by
  unfold SessionState.value
  rw [s.unique.lookup hi hused]
  rfl

/-- The other key in the slot of a write has the empty value, if there is one. -/
theorem HasSlot.lost (h : HasSlot s key) {other : Bytes} (hne : other ≠ key)
    (hused : (s.overwritten key).usedFor = some other) :
    s.value other = [] := by
  rw [overwritten_eq (writeSlot_lt key s)] at hused
  cases hfind : findSlot key s with
  | some i =>
    obtain ⟨hi, hkey⟩ := Slots.find_eq_some hfind
    have hslot : writeSlot key s = i := by simp [writeSlot, hfind]
    simp only [hslot] at hused
    exact absurd (Option.some.inj (hused.symm.trans hkey)) hne
  | none =>
    cases hfree : Slots.free SessionSlot.usedFor s.slots with
    | some i =>
      obtain ⟨hi, hkey⟩ := Slots.free_eq_some hfree
      have hslot : writeSlot key s = i := by simp [writeSlot, allocSlot, hfind, hfree]
      simp only [hslot, hkey] at hused
      cases hused
    | none =>
      have hslot : writeSlot key s = 0 := by simp [writeSlot, allocSlot, hfind, hfree]
      simp only [hslot] at hused
      rw [value_of_slot _ hused]
      have hpos : 0 < s.slots.length := by simp [s.size, sessionStateSlots]
      rcases h with h | h | h
      · simp [hfind] at h
      · simp [hfree] at h
      · rw [List.getElem?_eq_getElem hpos] at h
        exact Option.some.inj h

/-- Without such a slot the value of another key is lost. -/
theorem exists_lost (h : ¬ HasSlot s key) : ∃ other ≠ key, s.value other ≠ [] ∧
    (s.overwritten key).usedFor = some other := by
  unfold HasSlot at h
  push Not at h
  obtain ⟨hfind, hfree, hvalue⟩ := h
  rw [Ne, Option.not_isSome_iff_eq_none] at hfind hfree
  have hslot : writeSlot key s = 0 := by simp [writeSlot, allocSlot, hfind, hfree]
  have hpos : 0 < s.slots.length := by simp [s.size, sessionStateSlots]
  rw [List.getElem?_eq_getElem hpos, Option.map_some, Ne, Option.some.injEq] at hvalue
  obtain ⟨other, hused⟩ := Option.ne_none_iff_exists'.mp
    (Slots.free_eq_none.mp hfree _ (List.getElem_mem hpos))
  refine ⟨other, ?_, ?_, ?_⟩
  · rintro rfl
    exact Slots.find_eq_none.mp hfind _ (List.getElem_mem hpos) hused
  · rwa [value_of_slot hpos hused]
  · rw [overwritten_eq (writeSlot_lt key s)]
    simpa only [hslot] using hused

end Write

section Calls

/-- A write keeps its promise: an accepted value is what reads of its key give, the other keys are as
they were, and a refused write changes nothing. -/
def Faithful (key value : Bytes) (s : SessionState) : Prop :=
  match writeSessionState key value s with
  | (next, true) =>
    (∀ room, value.length ≤ room → readSessionState room key next = value) ∧
      ∀ other ≠ key, ∀ room, readSessionState room other next = readSessionState room other s
  | (next, false) => next = s

/-- When a write does so. -/
def Storable (key value : Bytes) (s : SessionState) : Prop :=
  Refused key value ∨ Utf8 value ∧ HasSlot s key

instance (key value : Bytes) (s : SessionState) : Decidable (Storable key value s) :=
  inferInstanceAs (Decidable (_ ∨ _))

variable {s : SessionState} {key value : Bytes}

theorem store_faithful (hkey : key ≠ []) (hlen : value.length ≤ sessionStateValueMax)
    (hvalid : Utf8 value) (hslot : HasSlot s key) (other : Bytes) :
    (s.store key value hkey).value other = if other = key then value else s.value other := by
  rw [store_value, (copyUtf8Prefix_eq_iff _ _).mpr ⟨hvalid, hlen⟩]
  split_ifs with hother hused
  · rfl
  · exact (hslot.lost hother hused).symm
  · rfl

theorem faithful_iff (key value : Bytes) (s : SessionState) :
    Faithful key value s ↔ Storable key value s := by
  unfold Faithful Storable writeSessionState
  by_cases hrefused : Refused key value
  · simp [hrefused]
  have hkey : key ≠ [] := fun hkey => hrefused (.inl hkey)
  have hlen : value.length ≤ sessionStateValueMax := by
    by_contra hlong
    exact hrefused (.inr (.inr (by omega)))
  simp only [hrefused, dite_false, read_eq_iff, false_or]
  constructor
  · rintro ⟨hown, hothers⟩
    rw [store_value, if_pos rfl] at hown
    refine ⟨((copyUtf8Prefix_eq_iff _ _).mp hown).1, ?_⟩
    by_contra hslot
    obtain ⟨other, hne, hvalue, hused⟩ := exists_lost hslot
    have hread := hothers other hne (s.value other).length
    rw [readSessionState_eq, readSessionState_eq, store_value, if_neg hne, if_pos hused,
      List.take_nil, List.take_length] at hread
    exact hvalue hread.symm
  · rintro ⟨hvalid, hslot⟩
    constructor
    · rw [store_faithful hkey hlen hvalid hslot, if_pos rfl]
    · intro other hne room
      rw [readSessionState_eq, readSessionState_eq, store_faithful hkey hlen hvalid hslot,
        if_neg hne]

/-- The calls of a session. -/
inductive SessionCall where
  | write (key value : Bytes)
  | read (room : ℕ) (key : Bytes)
  | reset
  deriving DecidableEq, Repr

/-- The state with the accepted writes since the last reset, the newest first. -/
structure SessionLog where
  state : SessionState := {}
  accepted : List (Bytes × Bytes) := []

def SessionLog.step (r : SessionLog) : SessionCall → SessionLog
  | .write key value =>
    { state := (writeSessionState key value r.state).1
      accepted :=
        if (writeSessionState key value r.state).2 then (key, value) :: r.accepted else r.accepted }
  | .read _ _ => r
  | .reset => {}

def sessionMachine : Machine SessionLog SessionCall where
  init r := r = {}
  allowed _ _ := True
  step := SessionLog.step

/-- The value of the newest accepted write of a key. -/
def SessionLog.last (r : SessionLog) (key : Bytes) : Bytes := (r.accepted.lookup key).getD []

def StorableCall (r : SessionLog) : SessionCall → Prop
  | .write key value => Storable key value r.state
  | _ => True

instance (r : SessionLog) (call : SessionCall) : Decidable (sessionMachine.allowed r call) :=
  isTrue trivial

instance (r : SessionLog) (call : SessionCall) : Decidable (StorableCall r call) :=
  match call with
  | .write key value => inferInstanceAs (Decidable (Storable key value r.state))
  | .read _ _ => isTrue trivial
  | .reset => isTrue trivial

theorem session_step_last {r : SessionLog} (h : ∀ key, r.state.value key = r.last key)
    (call : SessionCall) (hcall : StorableCall r call) :
    ∀ key, (r.step call).state.value key = (r.step call).last key := by
  cases call with
  | read room key => exact h
  | reset =>
    intro key
    rfl
  | write key value =>
    intro other
    have hbefore : r.state.value other = (r.accepted.lookup other).getD [] := h other
    unfold SessionLog.step SessionLog.last writeSessionState
    by_cases hrefused : Refused key value
    · simpa [hrefused] using hbefore
    · simp only [hrefused, dite_false, if_true]
      obtain ⟨hvalid, hslot⟩ := hcall.resolve_left hrefused
      have hlen : value.length ≤ sessionStateValueMax := by
        by_contra hlong
        exact hrefused (.inr (.inr (by omega)))
      rw [store_faithful _ hlen hvalid hslot, List.lookup_cons]
      split_ifs with hother
      · simp [hother]
      · rw [beq_false_of_ne hother, hbefore]

/-- The state of a session is a map for as long as every write has a valid text and a slot; and these
are exactly the writes that keep their promise. -/
theorem session_state_is_map (key value : Bytes) :
    (∀ r, (sessionMachine.restrict StorableCall).Reachable r →
      ∀ room, (r.last key).length ≤ room → readSessionState room key r.state = r.last key) ∧
    ∀ s, Faithful key value s ↔ Storable key value s := by
  constructor
  · intro r hr
    have hlast : ∀ key, r.state.value key = r.last key := by
      apply hr.invariant
      · rintro _ rfl key
        rfl
      · intro r call hinv hallowed
        exact session_step_last hinv call hallowed.2
    exact read_eq_iff.mpr (hlast key)
  · exact faithful_iff key value

theorem session_state_is_map_rewritten :
    let calls := [SessionCall.write [1] [97], .write [2] [98], .write [1] [99], .read 9 [2]]
    let r := sessionMachine.run {} calls
    readSessionState 64 [1] r.state = [99] ∧ Faithful [3] [100] r.state := by
  intro calls r
  have hallows : (sessionMachine.restrict StorableCall).Allows {} calls := by decide
  have hr : (sessionMachine.restrict StorableCall).Reachable r :=
    (Machine.Reachable.init rfl).run hallows
  constructor
  · exact (session_state_is_map [1] []).1 r hr 64 (by decide)
  · exact ((session_state_is_map [3] [100]).2 r.state).mpr (by decide)

/-- The ninth key takes the slot of the first. -/
theorem ninth_key_evicts : ¬ ∀ r, sessionMachine.Reachable r → ∀ key room,
    (r.last key).length ≤ room → readSessionState room key r.state = r.last key := by
  intro hall
  let calls := [1, 2, 3, 4, 5, 6, 7, 8, 9].map fun b => SessionCall.write [b] [97]
  have hr : sessionMachine.Reachable (sessionMachine.run {} calls) :=
    (Machine.Reachable.init rfl).run (by decide)
  have hread := hall _ hr [1] 64 (by decide)
  revert hread
  decide

end Calls

end MiniAgentOS.Session
