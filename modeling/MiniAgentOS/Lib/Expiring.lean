import MiniAgentOS.Lib.Machine
import MiniAgentOS.Lib.Slots

/-! Maps kept in slots whose entries expire. A lookup drops the expired entries that it passes; a store takes the
slot of its key, else a free one, else the next one in turn. -/
namespace Expiring

variable {σ κ ν : Type}

/-- What a slot holds, the slot without its entry, and the slot with a new one. -/
structure Layout (σ κ ν : Type) where
  key : σ → Option κ
  value : σ → ν
  expiry : σ → ℕ
  drop : σ → σ
  fill : κ → ν → ℕ → σ
  key_drop : ∀ slot, key (drop slot) = none
  key_fill : ∀ k v t, key (fill k v t) = some k
  value_fill : ∀ k v t, value (fill k v t) = v
  expiry_fill : ∀ k v t, expiry (fill k v t) = t

/-- A call of the store, and the slot that it wrote, if it was not refused. -/
structure Stored (κ ν : Type) where
  key : κ
  value : ν
  time : ℕ
  slot : Option ℕ
  deriving DecidableEq, Repr

section Calls

variable [DecidableEq κ]

/-- The most recent call for a key. The newest call is the first. -/
def latest (stores : List (Stored κ ν)) (k : κ) : Option (Stored κ ν) := stores.find? fun r => r.key = k

/-- The most recent call that wrote a slot. -/
def lastIn (stores : List (Stored κ ν)) (i : ℕ) : Option (Stored κ ν) := stores.find? fun r => r.slot = some i

/-- What a call wrote was written over by a later one. -/
def Evicted (stores : List (Stored κ ν)) (r : Stored κ ν) : Prop := ∃ i, r.slot = some i ∧ lastIn stores i ≠ some r

end Calls

variable (L : Layout σ κ ν)

def expire (now : ℕ) (slot : σ) : σ := if (L.key slot).isSome ∧ L.expiry slot ≤ now then L.drop slot else slot

section Operations

variable [DecidableEq κ]

def scan (now : ℕ) (k : κ) : List σ → Option ν × List σ
  | [] => (none, [])
  | slot :: rest =>
    if L.key slot = some k ∧ now < L.expiry slot then (some (L.value slot), slot :: rest)
    else ((scan now k rest).1, expire L now slot :: (scan now k rest).2)

/-- The slot that a store writes, and whose turn is next. -/
def target (slots : List σ) (next : ℕ) (k : κ) : ℕ × ℕ :=
  match Slots.find L.key slots k with
  | some i => (i, next)
  | none =>
    match Slots.free L.key slots with
    | some i => (i, next)
    | none => (next % slots.length, (next + 1) % slots.length)

end Operations

section Target

variable [DecidableEq κ] {L} {slots : List σ} {next : ℕ} {k : κ}

theorem target_lt (h : slots ≠ []) : (target L slots next k).1 < slots.length := by
  unfold target
  cases hfind : Slots.find L.key slots k with
  | some i => exact (Slots.find_eq_some hfind).1
  | none =>
    cases hfree : Slots.free L.key slots with
    | some i => exact (Slots.free_eq_some hfree).1
    | none => exact Nat.mod_lt _ (List.length_pos_iff.mpr h)

theorem target_usable (h : slots ≠ []) : Slots.Usable L.key slots (target L slots next k).1 k := by
  refine ⟨target_lt h, ?_⟩
  cases hfind : Slots.find L.key slots k with
  | some i =>
    left
    simpa [target, hfind] using (Slots.find_eq_some hfind).2
  | none => exact .inr (Slots.find_eq_none.mp hfind)

/-- The slot of another key is taken only where every slot is in use. -/
theorem target_takes {other : κ} (hi : (target L slots next k).1 < slots.length)
    (hother : L.key slots[(target L slots next k).1] = some other) (hne : other ≠ k) :
    ∀ slot ∈ slots, L.key slot ≠ none := by
  cases hfind : Slots.find L.key slots k with
  | some i =>
    obtain ⟨hlt, hkey⟩ := Slots.find_eq_some hfind
    simp only [target, hfind, hkey] at hother
    exact absurd (Option.some.inj hother).symm hne
  | none =>
    cases hfree : Slots.free L.key slots with
    | some i =>
      obtain ⟨hlt, hkey⟩ := Slots.free_eq_some hfree
      simp only [target, hfind, hfree, hkey] at hother
      cases hother
    | none => exact Slots.free_eq_none.mp hfree

end Target

section Scan

variable [DecidableEq κ] {L} {slots : List σ} {now : ℕ} {k : κ} {v : ν}

/-- A slot after a lookup: as it was, or without the entry that had expired. -/
def Dropped (L : Layout σ κ ν) (now : ℕ) (before after : σ) : Prop :=
  after = before ∨ (L.expiry before ≤ now ∧ after = L.drop before)

omit [DecidableEq κ] in
theorem expire_dropped (slot : σ) : Dropped L now slot (expire L now slot) := by
  unfold expire
  split_ifs with h
  · exact .inr ⟨h.2, rfl⟩
  · exact .inl rfl

theorem scan_dropped (now : ℕ) (k : κ) (slots : List σ) :
    List.Forall₂ (Dropped L now) slots (scan L now k slots).2 := by
  induction slots with
  | nil => exact .nil
  | cons slot rest ih =>
    unfold scan
    split_ifs
    · exact List.forall₂_same.mpr fun _ _ => .inl rfl
    · exact .cons (expire_dropped slot) ih

theorem scan_some (h : (scan L now k slots).1 = some v) :
    ∃ slot ∈ slots, L.key slot = some k ∧ now < L.expiry slot ∧ L.value slot = v := by
  induction slots with
  | nil => cases h
  | cons slot rest ih =>
    unfold scan at h
    split_ifs at h with hit
    · exact ⟨slot, List.mem_cons_self, hit.1, hit.2, Option.some.inj h⟩
    · obtain ⟨found, hmem, hfound⟩ := ih h
      exact ⟨found, List.mem_cons_of_mem _ hmem, hfound⟩

theorem scan_none (h : (scan L now k slots).1 = none) :
    ∀ slot ∈ slots, ¬ (L.key slot = some k ∧ now < L.expiry slot) := by
  induction slots with
  | nil => simp
  | cons slot rest ih =>
    unfold scan at h
    split_ifs at h with hit
    intro other hother
    rcases List.mem_cons.mp hother with rfl | hrest
    · exact hit
    · exact ih h other hrest

end Scan

section Faithful

variable [DecidableEq κ] {L} {ttl clock next now : ℕ} {slots after : List σ} {stores : List (Stored κ ν)} {known : κ → Prop}
  {k : κ} {v : ν}

/-- The slots hold what the calls of the store left in them. -/
structure Faithful (L : Layout σ κ ν) (ttl : ℕ) (known : κ → Prop) (slots : List σ) (clock : ℕ)
    (stores : List (Stored κ ν)) : Prop where
  unique : Slots.Unique L.key slots
  keys : ∀ slot ∈ slots, ∀ k, L.key slot = some k → known k
  held : ∀ i (hi : i < slots.length) k, L.key slots[i] = some k → ∃ r, latest stores k = some r ∧ r.slot = some i ∧
    lastIn stores i = some r ∧ L.value slots[i] = r.value ∧ L.expiry slots[i] = r.time + ttl
  kept : ∀ k r i, latest stores k = some r → r.slot = some i → lastIn stores i = some r → clock < r.time + ttl →
    ∃ hi : i < slots.length, L.key slots[i] = some k
  stored : ∀ k r, known k → latest stores k = some r → r.slot ≠ none

theorem Faithful.empty (h : ∀ slot ∈ slots, L.key slot = none) : Faithful L ttl known slots clock [] where
  unique i j hi hj k hk := by
    rw [h _ (List.getElem_mem hi)] at hk
    cases hk
  keys slot hslot k hk := by
    rw [h slot hslot] at hk
    cases hk
  held i hi k hk := by
    rw [h _ (List.getElem_mem hi)] at hk
    cases hk
  kept k r i hr := by cases hr
  stored k r _ hr := by cases hr

/-- A lookup keeps what has not expired. -/
theorem Faithful.dropped (h : Faithful L ttl known slots clock stores) (hnow : clock ≤ now)
    (hafter : List.Forall₂ (Dropped L now) slots after) : Faithful L ttl known after now stores := by
  have hlen := hafter.length_eq
  have hsame : ∀ i (hi : i < after.length) k, L.key after[i] = some k → after[i] = slots[i] := by
    intro i hi k hk
    rcases (List.forall₂_iff_get.mp hafter).2 i (hlen ▸ hi) hi with heq | ⟨-, hdrop⟩
    · exact heq
    · change after[i] = _ at hdrop
      rw [hdrop, L.key_drop] at hk
      cases hk
  constructor
  · intro i j hi hj k hk hk'
    rw [hsame i hi k hk] at hk
    rw [hsame j hj k hk'] at hk'
    exact h.unique i j _ _ k hk hk'
  · intro slot hslot k hk
    obtain ⟨i, hi, rfl⟩ := List.getElem_of_mem hslot
    rw [hsame i hi k hk] at hk
    exact h.keys _ (List.getElem_mem _) k hk
  · intro i hi k hk
    have heq := hsame i hi k hk
    rw [heq] at hk ⊢
    exact h.held i _ k hk
  · intro k r i hr hslot hlast hfresh
    obtain ⟨hi, hkey⟩ := h.kept k r i hr hslot hlast (by omega)
    refine ⟨hlen ▸ hi, ?_⟩
    rcases (List.forall₂_iff_get.mp hafter).2 i hi (hlen ▸ hi) with heq | ⟨hexpired, -⟩
    · change after[i] = slots[i] at heq
      rw [heq, hkey]
    · obtain ⟨s, hs, -, -, -, hexpiry⟩ := h.held i hi k hkey
      change L.expiry slots[i] ≤ now at hexpired
      obtain rfl := Option.some.inj (hr.symm.trans hs)
      omega
  · exact h.stored

@[simp] theorem latest_cons (r : Stored κ ν) (k : κ) :
    latest (r :: stores) k = if r.key = k then some r else latest stores k := by
  unfold latest
  rw [List.find?_cons]
  by_cases hk : r.key = k <;> simp [hk]

omit [DecidableEq κ] in
@[simp] theorem lastIn_cons (r : Stored κ ν) (i : ℕ) :
    lastIn (r :: stores) i = if r.slot = some i then some r else lastIn stores i := by
  unfold lastIn
  rw [List.find?_cons]
  by_cases hi : r.slot = some i <;> simp [hi]

theorem latest_key {r : Stored κ ν} (h : latest stores k = some r) : r.key = k := by
  unfold latest at h
  simpa using List.find?_some h

/-- A store that is taken. -/
theorem Faithful.store (h : Faithful L ttl known slots clock stores) (hnow : clock ≤ now) {i : ℕ}
    (huse : Slots.Usable L.key slots i k) (hk : known k) :
    Faithful L ttl known (slots.set i (L.fill k v (now + ttl))) now (⟨k, v, now, some i⟩ :: stores) := by
  have hnew := L.key_fill k v (now + ttl)
  have hunique := h.unique.set huse hnew
  obtain ⟨hi, huse'⟩ := huse
  have hother : ∀ j (hj : j < (slots.set i (L.fill k v (now + ttl))).length) l, j ≠ i →
      L.key (slots.set i (L.fill k v (now + ttl)))[j] = some l → l ≠ k := by
    rintro j hj l hne hl rfl
    exact hne (hunique j i hj (by rwa [List.length_set]) l hl (by rw [List.getElem_set_self, hnew]))
  constructor
  · exact hunique
  · intro slot hslot l hl
    rcases List.mem_or_eq_of_mem_set hslot with hold | rfl
    · exact h.keys slot hold l hl
    · rwa [← Option.some.inj (hnew.symm.trans hl)]
  · intro j hj l hl
    rw [List.length_set] at hj
    by_cases hji : j = i
    · subst hji
      rw [List.getElem_set_self, hnew] at hl
      obtain rfl := Option.some.inj hl
      refine ⟨⟨k, v, now, some j⟩, by simp, rfl, by simp, ?_, ?_⟩
      · rw [List.getElem_set_self, L.value_fill]
      · rw [List.getElem_set_self, L.expiry_fill]
    · have hlk := hother j (by rwa [List.length_set]) l hji hl
      rw [List.getElem_set_ne (Ne.symm hji)] at hl ⊢
      obtain ⟨r, hr, hslot, hlast, hvalue, hexpiry⟩ := h.held j hj l hl
      refine ⟨r, ?_, hslot, ?_, hvalue, hexpiry⟩
      · rw [latest_cons, if_neg (Ne.symm hlk), hr]
      · rw [lastIn_cons, if_neg (by simpa using Ne.symm hji), hlast]
  · intro l r j hr hslot hlast hfresh
    rw [latest_cons] at hr
    rw [lastIn_cons] at hlast
    by_cases hlk : k = l
    · subst hlk
      rw [if_pos rfl] at hr
      obtain rfl := Option.some.inj hr
      obtain rfl := Option.some.inj hslot
      exact ⟨by rwa [List.length_set], by rw [List.getElem_set_self, hnew]⟩
    · rw [if_neg hlk] at hr
      by_cases hij : i = j
      · subst hij
        rw [if_pos rfl] at hlast
        rw [← Option.some.inj hlast] at hr
        exact absurd (latest_key hr) hlk
      · rw [if_neg (by simpa using hij)] at hlast
        obtain ⟨hj, hkey⟩ := h.kept l r j hr hslot hlast (by omega)
        exact ⟨by rwa [List.length_set], by rw [List.getElem_set_ne hij, hkey]⟩
  · intro l r hl hr
    rw [latest_cons] at hr
    split_ifs at hr
    · rw [← Option.some.inj hr]
      simp
    · exact h.stored l r hl hr

/-- A store that is refused. -/
theorem Faithful.refuse (h : Faithful L ttl known slots clock stores) (hnow : clock ≤ now) (hk : ¬ known k) :
    Faithful L ttl known slots now (⟨k, v, now, none⟩ :: stores) := by
  constructor
  · exact h.unique
  · exact h.keys
  · intro i hi l hl
    have hne : k ≠ l := fun heq => hk (heq ▸ h.keys _ (List.getElem_mem hi) l hl)
    obtain ⟨r, hr, hslot, hlast, hrest⟩ := h.held i hi l hl
    exact ⟨r, by rw [latest_cons, if_neg hne, hr], hslot, by rw [lastIn_cons, if_neg (by simp), hlast], hrest⟩
  · intro l r i hr hslot hlast hfresh
    rw [latest_cons] at hr
    rw [lastIn_cons, if_neg (by simp)] at hlast
    split_ifs at hr
    · rw [← Option.some.inj hr] at hslot
      cases hslot
    · exact h.kept l r i hr hslot hlast (by omega)
  · intro l r hl hr
    rw [latest_cons] at hr
    split_ifs at hr with heq
    · subst heq
      exact absurd hl hk
    · exact h.stored l r hl hr

/-- What is found is what the most recent call for the key stored. -/
theorem Faithful.recent (h : Faithful L ttl known slots clock stores) (hlookup : (scan L now k slots).1 = some v) :
    ∃ r, latest stores k = some r ∧ r.value = v ∧ now < r.time + ttl := by
  obtain ⟨slot, hslot, hkey, hfresh, hvalue⟩ := scan_some hlookup
  obtain ⟨i, hi, rfl⟩ := List.getElem_of_mem hslot
  obtain ⟨r, hr, -, -, hv, hexpiry⟩ := h.held i hi k hkey
  exact ⟨r, hr, hv ▸ hvalue, hexpiry ▸ hfresh⟩

/-- What a call stored is found until it expires or is written over. -/
theorem Faithful.found {r : Stored κ ν} (h : Faithful L ttl known slots clock stores) (hnow : clock ≤ now)
    (hk : known k) (hr : latest stores k = some r) (hfresh : now < r.time + ttl) (hkept : ¬ Evicted stores r) :
    (scan L now k slots).1 = some r.value := by
  obtain ⟨i, hslot⟩ := Option.ne_none_iff_exists'.mp (h.stored k r hk hr)
  have hlast : lastIn stores i = some r := by
    by_contra hne
    exact hkept ⟨i, hslot, hne⟩
  obtain ⟨hi, hkey⟩ := h.kept k r i hr hslot hlast (by omega)
  obtain ⟨s, hs, -, -, -, hexpiry⟩ := h.held i hi k hkey
  obtain rfl := Option.some.inj (hr.symm.trans hs)
  cases hlookup : (scan L now k slots).1 with
  | none => exact absurd ⟨hkey, hexpiry ▸ hfresh⟩ (scan_none hlookup _ (List.getElem_mem hi))
  | some v =>
    obtain ⟨s, hs, hv, -⟩ := h.recent hlookup
    obtain rfl := Option.some.inj (hr.symm.trans hs)
    rw [hv]

end Faithful

section Runs

/-- The operations of a cache whose names stand for keys. `written` is the slot that a store of a name writes. -/
structure Ops (γ ρ κ ν : Type) where
  fold : ρ → κ
  lookup : ℕ → ρ → γ → Option ν × γ
  store : ℕ → ρ → ν → γ → γ
  written : γ → ρ → Option ℕ

inductive Call (ρ ν : Type) where
  | store (now : ℕ) (name : ρ) (value : ν)
  | lookup (now : ℕ) (name : ρ)

def Call.time {ρ ν : Type} : Call ρ ν → ℕ
  | .store now _ _ => now
  | .lookup now _ => now

/-- A cache, the time of the last call and the calls of the store so far. -/
structure Used (γ κ ν : Type) where
  cache : γ
  clock : ℕ := 0
  stores : List (Stored κ ν) := []

variable {γ ρ : Type} [DecidableEq κ]

def Ops.call (ops : Ops γ ρ κ ν) (s : Used γ κ ν) : Call ρ ν → Used γ κ ν
  | .store now name value =>
    { cache := ops.store now name value s.cache
      clock := now
      stores := ⟨ops.fold name, value, now, ops.written s.cache name⟩ :: s.stores }
  | .lookup now name => { s with cache := (ops.lookup now name s.cache).2, clock := now }

/-- Calls of a cache that is empty at first, with a clock that does not go back. -/
def Ops.calls (ops : Ops γ ρ κ ν) (empty : γ) : Machine (Used γ κ ν) (Call ρ ν) where
  init s := s = { cache := empty }
  allowed s call := s.clock ≤ call.time
  step := ops.call

/-- The cache is a map of bounded size: a key has one entry; what is answered for a name is the value of the most
recent store for it, which is answered until it expires or is written over; and a store takes the slot of another key
only where no slot is free. -/
structure IsMap (ops : Ops γ ρ κ ν) (key : σ → Option κ) (slots : γ → List σ) (ttl : ℕ) (known : κ → Prop)
    (s : Used γ κ ν) : Prop where
  unique : Slots.Unique key (slots s.cache)
  recent : ∀ now name v, s.clock ≤ now → (ops.lookup now name s.cache).1 = some v →
    ∃ r, latest s.stores (ops.fold name) = some r ∧ r.value = v ∧ now < r.time + ttl
  kept : ∀ now name r, s.clock ≤ now → known (ops.fold name) → latest s.stores (ops.fold name) = some r →
    now < r.time + ttl → ¬ Evicted s.stores r → (ops.lookup now name s.cache).1 = some r.value
  takes : ∀ name i other, ops.written s.cache name = some i → (slots s.cache)[i]?.bind key = some other →
    other ≠ ops.fold name → ∀ slot ∈ slots s.cache, key slot ≠ none

/-- The operations are those of slots with the layout, for the keys that are known. -/
structure Ops.Realizes (ops : Ops γ ρ κ ν) (L : Layout σ κ ν) (slots : γ → List σ) (next : γ → ℕ) (ttl : ℕ)
    (known : κ → Prop) : Prop where
  some_slot : ∀ c, slots c ≠ []
  lookup_known : ∀ now name c, known (ops.fold name) →
    (ops.lookup now name c).1 = (scan L now (ops.fold name) (slots c)).1
  lookup_unknown : ∀ now name c, ¬ known (ops.fold name) → (ops.lookup now name c).1 = none
  lookup_slots : ∀ now name c, List.Forall₂ (Dropped L now) (slots c) (slots (ops.lookup now name c).2)
  written_known : ∀ name c, known (ops.fold name) →
    ops.written c name = some (target L (slots c) (next c) (ops.fold name)).1
  written_unknown : ∀ name c, ¬ known (ops.fold name) → ops.written c name = none
  store_known : ∀ now name v c, known (ops.fold name) → slots (ops.store now name v c) =
    (slots c).set (target L (slots c) (next c) (ops.fold name)).1 (L.fill (ops.fold name) v (now + ttl))
  store_unknown : ∀ now name v c, ¬ known (ops.fold name) → slots (ops.store now name v c) = slots c

variable {L} {ops : Ops γ ρ κ ν} {slots : γ → List σ} {next : γ → ℕ} {ttl : ℕ} {known : κ → Prop} {s : Used γ κ ν}

theorem Ops.Realizes.step (h : ops.Realizes L slots next ttl known) {call : Call ρ ν}
    (hs : Faithful L ttl known (slots s.cache) s.clock s.stores) (hnow : s.clock ≤ call.time) :
    Faithful L ttl known (slots (ops.call s call).cache) (ops.call s call).clock (ops.call s call).stores := by
  cases call with
  | store now name value =>
    change Faithful L ttl known (slots (ops.store now name value s.cache)) now _
    by_cases hk : known (ops.fold name)
    · simp only [Ops.call, h.store_known now name value s.cache hk, h.written_known name s.cache hk]
      exact hs.store hnow (target_usable (h.some_slot s.cache)) hk
    · simp only [Ops.call, h.store_unknown now name value s.cache hk, h.written_unknown name s.cache hk]
      exact hs.refuse hnow hk
  | lookup now name => exact hs.dropped hnow (h.lookup_slots now name s.cache)

theorem Ops.Realizes.isMap (h : ops.Realizes L slots next ttl known)
    (hs : Faithful L ttl known (slots s.cache) s.clock s.stores) : IsMap ops L.key slots ttl known s := by
  constructor
  · exact hs.unique
  · intro now name v _ hlookup
    by_cases hk : known (ops.fold name)
    · rw [h.lookup_known now name _ hk] at hlookup
      exact hs.recent hlookup
    · rw [h.lookup_unknown now name _ hk] at hlookup
      cases hlookup
  · intro now name r hnow hk hr hfresh hkept
    rw [h.lookup_known now name _ hk]
    exact hs.found hnow hk hr hfresh hkept
  · intro name i other hi hother hne
    by_cases hk : known (ops.fold name)
    · rw [h.written_known name _ hk] at hi
      obtain rfl := Option.some.inj hi
      rw [List.getElem?_eq_getElem (target_lt (h.some_slot _))] at hother
      exact target_takes (target_lt (h.some_slot _)) hother hne
    · rw [h.written_unknown name _ hk] at hi
      cases hi

/-- After any calls the cache is a map. -/
theorem Ops.Realizes.reachable (h : ops.Realizes L slots next ttl known) {empty : γ}
    (hempty : ∀ slot ∈ slots empty, L.key slot = none) (hreachable : (ops.calls empty).Reachable s) :
    IsMap ops L.key slots ttl known s := by
  apply h.isMap
  apply hreachable.invariant
  · rintro _ rfl
    exact .empty hempty
  · exact fun s call hs hnow => h.step hs hnow

end Runs

section Room

variable [DecidableEq κ] {L} {ttl clock next now : ℕ} {slots : List σ} {stores : List (Stored κ ν)} {known : κ → Prop}
  {keys : Finset κ} {k : κ} {v : ν}

omit [DecidableEq κ] in
/-- Slots that are all in use have as many keys. -/
theorem unique_card (h : Slots.Unique L.key slots) (hused : ∀ slot ∈ slots, ∃ l ∈ keys, L.key slot = some l) :
    slots.length ≤ keys.card := by
  have hkey : ∀ i : Fin slots.length, ∃ l ∈ keys, L.key slots[i] = some l := fun i => hused _ (List.getElem_mem i.2)
  choose key hmem hkey using hkey
  have hcard := Finset.card_le_card_of_injOn (s := Finset.univ) key (fun i _ => hmem i) fun i _ j _ heq =>
    Fin.ext (h i j i.2 j.2 (key i) (hkey i) (heq ▸ hkey j))
  rwa [Finset.card_univ, Fintype.card_fin] at hcard

/-- With a slot for every key, no key loses its slot to another one. -/
theorem target_spares {other : κ} (h : Slots.Unique L.key slots) (hsome : slots ≠ [])
    (hkeys : ∀ slot ∈ slots, ∀ l, L.key slot = some l → l ∈ keys) (hk : k ∈ keys) (hroom : keys.card ≤ slots.length)
    (hi : (target L slots next k).1 < slots.length) (hother : L.key slots[(target L slots next k).1] = some other) :
    other = k := by
  by_contra hne
  have hused := target_takes hi hother hne
  have husable : Slots.Usable L.key slots (target L slots next k).1 k := target_usable hsome
  rcases husable.2 with hown | hnone
  · exact hne (Option.some.inj (hother.symm.trans hown))
  · have hcard : slots.length ≤ (keys.erase k).card := by
      apply unique_card h
      intro slot hslot
      obtain ⟨l, hl⟩ := Option.ne_none_iff_exists'.mp (hused slot hslot)
      have hlk : l ≠ k := by
        rintro rfl
        exact hnone slot hslot hl
      exact ⟨l, Finset.mem_erase.mpr ⟨hlk, hkeys slot hslot l hl⟩, hl⟩
    rw [Finset.card_erase_of_mem hk] at hcard
    have := Finset.card_pos.mpr ⟨k, hk⟩
    omega

/-- Nothing that is fresh was written over. -/
def Spared (ttl clock : ℕ) (stores : List (Stored κ ν)) : Prop :=
  ∀ k r, latest stores k = some r → clock < r.time + ttl → ¬ Evicted stores r

theorem Faithful.spared_store (h : Faithful L ttl known slots clock stores) (hspared : Spared ttl clock stores)
    (hnow : clock ≤ now) {i : ℕ} (hi : ∀ (hi : i < slots.length) l, L.key slots[i] = some l → l = k) :
    Spared ttl now (⟨k, v, now, some i⟩ :: stores) := by
  rintro l r hr hfresh ⟨j, hslot, hlast⟩
  rw [latest_cons] at hr
  rw [lastIn_cons] at hlast
  by_cases hlk : k = l
  · obtain rfl := Option.some.inj ((if_pos hlk).symm.trans hr)
    exact hlast (if_pos hslot)
  · rw [if_neg hlk] at hr
    have hold : lastIn stores j = some r := by
      by_contra hne
      exact hspared l r hr (by omega) ⟨j, hslot, hne⟩
    by_cases hij : i = j
    · subst hij
      obtain ⟨hlt, hkey⟩ := h.kept l r i hr hslot hold (by omega)
      exact hlk (hi hlt l hkey).symm
    · rw [if_neg (by simpa using hij)] at hlast
      exact hlast hold

theorem spared_refuse (hspared : Spared ttl clock stores) (hnow : clock ≤ now) :
    Spared ttl now (⟨k, v, now, none⟩ :: stores) := by
  rintro l r hr hfresh ⟨j, hslot, hlast⟩
  rw [latest_cons] at hr
  rw [lastIn_cons, if_neg (by simp)] at hlast
  split_ifs at hr with hlk
  · obtain rfl := Option.some.inj hr
    cases hslot
  · exact hspared l r hr (by omega) ⟨j, hslot, hlast⟩

/-- What a cache with a slot for every key that is stored keeps. -/
structure Roomy (L : Layout σ κ ν) (ttl : ℕ) (known : κ → Prop) (keys : Finset κ) (slots : List σ) (clock : ℕ)
    (stores : List (Stored κ ν)) : Prop where
  faithful : Faithful L ttl known slots clock stores
  room : keys.card ≤ slots.length
  keys : ∀ k r, latest stores k = some r → k ∈ keys
  spared : Spared ttl clock stores

theorem Roomy.slot_keys (h : Roomy L ttl known keys slots clock stores) :
    ∀ slot ∈ slots, ∀ l, L.key slot = some l → l ∈ keys := by
  intro slot hslot l hl
  obtain ⟨i, hi, rfl⟩ := List.getElem_of_mem hslot
  obtain ⟨r, hr, -⟩ := h.faithful.held i hi l hl
  exact h.keys l r hr

end Room

section RoomyRuns

variable {γ ρ : Type} [DecidableEq κ] {L} {ops : Ops γ ρ κ ν} {slots : γ → List σ} {next : γ → ℕ} {ttl : ℕ}
  {known : κ → Prop} {keys : Finset κ} {s : Used γ κ ν}

/-- A call that stores, if anything, for one of these keys. -/
def Call.Within (fold : ρ → κ) (keys : Finset κ) : Call ρ ν → Prop
  | .store _ name _ => fold name ∈ keys
  | .lookup _ _ => True

theorem Ops.Realizes.roomy_step (h : ops.Realizes L slots next ttl known) {call : Call ρ ν}
    (hs : Roomy L ttl known keys (slots s.cache) s.clock s.stores) (hnow : s.clock ≤ call.time)
    (hwithin : call.Within ops.fold keys) :
    Roomy L ttl known keys (slots (ops.call s call).cache) (ops.call s call).clock (ops.call s call).stores := by
  have hfaithful := h.step hs.faithful hnow
  cases call with
  | lookup now name =>
    have hlen := (h.lookup_slots now name s.cache).length_eq
    have hspared : Spared ttl now s.stores := fun k r hr hfresh =>
      hs.spared k r hr (Nat.lt_of_le_of_lt hnow hfresh)
    exact ⟨hfaithful, hlen ▸ hs.room, hs.keys, hspared⟩
  | store now name value =>
    have hkeys : ∀ k r, latest (⟨ops.fold name, value, now, ops.written s.cache name⟩ :: s.stores) k = some r →
        k ∈ keys := by
      intro k r hr
      rw [latest_cons] at hr
      split_ifs at hr with hk
      · exact hk ▸ hwithin
      · exact hs.keys k r hr
    by_cases hk : known (ops.fold name)
    · have hspared : Spared ttl now
          (⟨_, value, now, some (target L (slots s.cache) (next s.cache) (ops.fold name)).1⟩ :: s.stores) :=
        hs.faithful.spared_store hs.spared hnow fun hi _ =>
          target_spares hs.faithful.unique (h.some_slot s.cache) hs.slot_keys hwithin hs.room hi
      rw [← h.written_known name s.cache hk] at hspared
      refine ⟨hfaithful, ?_, hkeys, hspared⟩
      change _ ≤ (slots (ops.store now name value s.cache)).length
      rw [h.store_known now name value s.cache hk, List.length_set]
      exact hs.room
    · have hspared := spared_refuse (k := ops.fold name) (v := value) hs.spared hnow
      rw [← h.written_unknown name s.cache hk] at hspared
      refine ⟨hfaithful, ?_, hkeys, hspared⟩
      change _ ≤ (slots (ops.store now name value s.cache)).length
      rw [h.store_unknown now name value s.cache hk]
      exact hs.room

/-- With a slot for every key that is stored, nothing is written over until it expires. -/
theorem Ops.Realizes.spared (h : ops.Realizes L slots next ttl known) {empty : γ}
    (hempty : ∀ slot ∈ slots empty, L.key slot = none) (hroom : keys.card ≤ (slots empty).length)
    (hreachable : ((ops.calls empty).restrict fun _ call => call.Within ops.fold keys).Reachable s) :
    Spared ttl s.clock s.stores := by
  have hroomy : Roomy L ttl known keys (slots s.cache) s.clock s.stores := by
    apply hreachable.invariant
    · rintro _ rfl
      exact ⟨.empty hempty, hroom, nofun, nofun⟩
    · exact fun s call hs hnow => h.roomy_step hs hnow.1 hnow.2
  exact hroomy.spared

end RoomyRuns

end Expiring
