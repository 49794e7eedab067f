import MiniAgentOS.Net.Frame

/-! The cache of resolved names, and the query that is sent when a name is not in it. -/
namespace MiniAgentOS.Net

def dnsCacheSlots : ℕ := 8

def dnsCacheTtlMs : ℕ := 60000

/-- Length of a cached name. -/
def dnsCacheNameLen : ℕ := 256

structure DnsSlot where
  valid : Bool := false
  name : Bytes := []
  ip : Ipv4 := ⟨0, 0, 0, 0⟩
  expiryMs : ℕ := 0
  deriving DecidableEq, Repr

/-- The `DNS_CACHE_*` globals. -/
structure DnsCache where
  slots : List DnsSlot := List.replicate dnsCacheSlots {}
  next : ℕ := 0
  size : slots.length = dnsCacheSlots := by rfl
  deriving DecidableEq, Repr

def dnsCacheNameEq (slot : DnsSlot) (name : Bytes) : Bool :=
  slot.name.map asciiLower == name.map asciiLower

def expireSlot (now : ℕ) (slot : DnsSlot) : DnsSlot :=
  if slot.valid ∧ slot.expiryMs ≤ now then { slot with valid := false } else slot

/-- The scan of `dns_cache_lookup`, which drops the expired slots that it passes. -/
def dnsScan (now : ℕ) (name : Bytes) : List DnsSlot → Option Ipv4 × List DnsSlot
  | [] => (none, [])
  | slot :: rest =>
    if slot.valid ∧ now < slot.expiryMs ∧ dnsCacheNameEq slot name then (some slot.ip, slot :: rest)
    else ((dnsScan now name rest).1, expireSlot now slot :: (dnsScan now name rest).2)

theorem dnsScan_length (now : ℕ) (name : Bytes) (slots : List DnsSlot) :
    (dnsScan now name slots).2.length = slots.length := by
  induction slots with
  | nil => rfl
  | cons slot rest ih =>
    unfold dnsScan
    split_ifs
    · rfl
    · exact congrArg (· + 1) ih

def dnsCacheLookup (now : ℕ) (name : Bytes) (cache : DnsCache) : Option Ipv4 × DnsCache :=
  if name = [] ∨ dnsCacheNameLen < name.length then (none, cache)
  else
    ((dnsScan now name cache.slots).1,
      { cache with
        slots := (dnsScan now name cache.slots).2
        size := (dnsScan_length now name cache.slots).trans cache.size })

/-- The slot that `dns_cache_store` writes: that of the name, else the first that is not valid,
else the next one in turn. -/
def dnsTarget (cache : DnsCache) (name : Bytes) : ℕ × ℕ :=
  match cache.slots.findIdx? fun slot => slot.valid && dnsCacheNameEq slot name with
  | some slot => (slot, cache.next)
  | none =>
    match cache.slots.findIdx? fun slot => !slot.valid with
    | some slot => (slot, cache.next)
    | none => (cache.next % dnsCacheSlots, (cache.next + 1) % dnsCacheSlots)

def dnsCacheStore (now : ℕ) (name : Bytes) (ip : Ipv4) (cache : DnsCache) : DnsCache :=
  if name = [] ∨ dnsCacheNameLen < name.length then cache
  else
    { slots := cache.slots.set (dnsTarget cache name).1
        ⟨true, name.map asciiLower, ip, now + dnsCacheTtlMs⟩
      next := (dnsTarget cache name).2
      size := List.length_set.trans cache.size }

/-- An entry of the cache for `name` that has not expired holds `ip`. -/
def DnsCache.Holds (cache : DnsCache) (now : ℕ) (name : Bytes) (ip : Ipv4) : Prop :=
  ∃ slot ∈ cache.slots, slot.valid ∧ now < slot.expiryMs ∧ dnsCacheNameEq slot name ∧ slot.ip = ip

theorem dnsScan_some {now : ℕ} {name : Bytes} {ip : Ipv4} {slots : List DnsSlot}
    (h : (dnsScan now name slots).1 = some ip) : ∃ slot ∈ slots,
      slot.valid ∧ now < slot.expiryMs ∧ dnsCacheNameEq slot name ∧ slot.ip = ip := by
  induction slots with
  | nil => cases h
  | cons slot rest ih =>
    unfold dnsScan at h
    split_ifs at h with hit
    · obtain ⟨hvalid, hfresh, hname⟩ := hit
      exact ⟨slot, List.mem_cons_self, hvalid, hfresh, hname, Option.some.inj h⟩
    · obtain ⟨found, hmem, hfound⟩ := ih h
      exact ⟨found, List.mem_cons_of_mem _ hmem, hfound⟩

/-- What a lookup returns is in the cache. -/
theorem dnsCacheLookup_holds {now : ℕ} {name : Bytes} {ip : Ipv4} {cache : DnsCache}
    (h : (dnsCacheLookup now name cache).1 = some ip) : cache.Holds now name ip := by
  unfold dnsCacheLookup at h
  split_ifs at h
  exact dnsScan_some h

/-- Every entry of the cache has the property. -/
def DnsCache.All (cache : DnsCache) (P : Bytes → Ipv4 → Prop) : Prop :=
  ∀ slot ∈ cache.slots, slot.valid → P slot.name slot.ip

theorem dnsScan_mem {now : ℕ} {name : Bytes} {slot : DnsSlot} {slots : List DnsSlot}
    (h : slot ∈ (dnsScan now name slots).2) (hvalid : slot.valid) : slot ∈ slots := by
  induction slots with
  | nil => exact h
  | cons first rest ih =>
    unfold dnsScan at h
    split_ifs at h
    · exact h
    · rcases List.mem_cons.mp h with rfl | hrest
      · unfold expireSlot at hvalid ⊢
        split_ifs at hvalid ⊢
        exact List.mem_cons_self
      · exact List.mem_cons_of_mem _ (ih hrest)

/-- A lookup adds no entry. -/
theorem DnsCache.All.lookup {cache : DnsCache} {P : Bytes → Ipv4 → Prop} (h : cache.All P) (now : ℕ)
    (name : Bytes) : (dnsCacheLookup now name cache).2.All P := by
  unfold dnsCacheLookup
  split_ifs
  · exact h
  · exact fun slot hmem hvalid => h slot (dnsScan_mem hmem hvalid) hvalid

theorem DnsCache.All.store {cache : DnsCache} {P : Bytes → Ipv4 → Prop} (h : cache.All P) (now : ℕ)
    {name : Bytes} {ip : Ipv4} (hnew : P (name.map asciiLower) ip) :
    (dnsCacheStore now name ip cache).All P := by
  unfold dnsCacheStore
  split_ifs
  · exact h
  · intro slot hmem hvalid
    rcases List.mem_or_eq_of_mem_set hmem with hold | rfl
    · exact h slot hold hvalid
    · exact hnew

section Query

def dnsHeader (id : ℕ) : Bytes :=
  [UInt8.ofNat (id / 256), UInt8.ofNat (id % 256), 1, 0, 0, 1, 0, 0, 0, 0, 0, 0]

def isDnsLabelByte (b : UInt8) : Bool :=
  (65 ≤ b && b ≤ 90) || (97 ≤ b && b ≤ 122) || isDigit b || b == 45

/-- One label of the name, behind its length. -/
def dnsAppendLabel (room : ℕ) (query label : Bytes) : Option Bytes :=
  if label = [] ∨ 63 < label.length ∨ room ≤ query.length + 1 + label.length then none
  else if label.all isDnsLabelByte then some (query ++ UInt8.ofNat label.length :: label)
  else none

/-- `dns_build_query` into a buffer with `room` bytes, empty when it fails. -/
def dnsBuildQuery (room : ℕ) (name : Bytes) (id : ℕ) : Bytes :=
  if room < 12 then []
  else
    match (name.splitOn 46).foldlM (dnsAppendLabel room) (dnsHeader id) with
    | none => []
    | some query => if query.length + 5 ≤ room then query ++ [0, 0, 1, 0, 1] else []

/-- A name as it stands in a message. -/
def dnsWireName (name : Bytes) : Bytes :=
  (name.splitOn 46).flatMap (fun label => UInt8.ofNat label.length :: label) ++ [0]

end Query

end MiniAgentOS.Net
