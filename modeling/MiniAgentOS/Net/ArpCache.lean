import MiniAgentOS.Lib.Expiring
import MiniAgentOS.Lib.Machine
import MiniAgentOS.Net.DnsCache

/-! The caches of resolved names and of link addresses: maps of eight entries that expire. -/
namespace MiniAgentOS.Net
open Expiring

section Arp

def arpCacheSlots : ℕ := 8

def arpCacheTtlMs : ℕ := 120000

structure ArpSlot where
  valid : Bool := false
  mac : Bytes := []
  ip : Ipv4 := ⟨0, 0, 0, 0⟩
  expiryMs : ℕ := 0
  deriving DecidableEq, Repr

/-- The `ARP_CACHE_*` globals. -/
structure ArpCache where
  slots : List ArpSlot := List.replicate arpCacheSlots {}
  next : ℕ := 0
  size : slots.length = arpCacheSlots := by rfl
  deriving DecidableEq, Repr

def expireArpSlot (now : ℕ) (slot : ArpSlot) : ArpSlot :=
  if slot.valid ∧ slot.expiryMs ≤ now then { slot with valid := false } else slot

/-- The scan of `lookup_arp_peer`. -/
def arpScan (now : ℕ) (ip : Ipv4) : List ArpSlot → Option Bytes × List ArpSlot
  | [] => (none, [])
  | slot :: rest =>
    if slot.valid ∧ now < slot.expiryMs ∧ slot.ip = ip then (some slot.mac, slot :: rest)
    else ((arpScan now ip rest).1, expireArpSlot now slot :: (arpScan now ip rest).2)

theorem arpScan_length (now : ℕ) (ip : Ipv4) (slots : List ArpSlot) :
    (arpScan now ip slots).2.length = slots.length := by
  induction slots with
  | nil => rfl
  | cons slot rest ih =>
    unfold arpScan
    split_ifs
    · rfl
    · exact congrArg (· + 1) ih

def lookupArpPeer (now : ℕ) (ip : Ipv4) (cache : ArpCache) : Option Bytes × ArpCache :=
  ((arpScan now ip cache.slots).1,
    { cache with
      slots := (arpScan now ip cache.slots).2
      size := (arpScan_length now ip cache.slots).trans cache.size })

/-- The slot that `arp_cache_store` writes: that of the address, else the first that is not valid, else the next one
in turn. -/
def arpTarget (cache : ArpCache) (ip : Ipv4) : ℕ × ℕ :=
  match cache.slots.findIdx? fun slot => slot.valid && slot.ip == ip with
  | some slot => (slot, cache.next)
  | none =>
    match cache.slots.findIdx? fun slot => !slot.valid with
    | some slot => (slot, cache.next)
    | none => (cache.next % arpCacheSlots, (cache.next + 1) % arpCacheSlots)

def arpCacheStore (now : ℕ) (mac : Bytes) (ip : Ipv4) (cache : ArpCache) : ArpCache where
  slots := cache.slots.set (arpTarget cache ip).1 ⟨true, mac, ip, now + arpCacheTtlMs⟩
  next := (arpTarget cache ip).2
  size := List.length_set.trans cache.size

end Arp

section Names

/-- A name in lower case. -/
structure FoldedName where
  text : Bytes
  folded : text.map asciiLower = text
  deriving DecidableEq

def foldName (name : Bytes) : FoldedName where
  text := name.map asciiLower
  folded := by simp [asciiLower_asciiLower]

theorem foldName_text (name : FoldedName) : foldName name.text = name := by
  cases name with
  | mk text folded => simp [foldName, folded]

theorem foldName_eq_iff {name other : Bytes} : foldName name = foldName other ↔ name.map asciiLower = other.map asciiLower := by
  simp [foldName]

/-- A slot of the name cache is used for its name in lower case. -/
def dnsLayout : Layout DnsSlot FoldedName Ipv4 where
  key slot := if slot.valid then some (foldName slot.name) else none
  value := DnsSlot.ip
  expiry := DnsSlot.expiryMs
  drop slot := { slot with valid := false }
  fill name ip expiry := ⟨true, name.text, ip, expiry⟩
  key_drop _ := rfl
  key_fill name _ _ := congrArg some (foldName_text name)
  value_fill _ _ _ := rfl
  expiry_fill _ _ _ := rfl

/-- The slot that `dns_cache_store` writes, if it does not refuse the name. -/
def dnsWritten (cache : DnsCache) (name : Bytes) : Option ℕ :=
  if name = [] ∨ dnsCacheNameLen < name.length then none else some (dnsTarget cache name).1

def dnsOps : Ops DnsCache Bytes FoldedName Ipv4 where
  fold := foldName
  lookup := dnsCacheLookup
  store := dnsCacheStore
  written := dnsWritten

/-- The names that the cache takes. -/
def Cacheable (name : FoldedName) : Prop := name.text ≠ [] ∧ name.text.length ≤ dnsCacheNameLen

variable {now : ℕ} {name : Bytes} {slot : DnsSlot}

theorem cacheable_iff : Cacheable (foldName name) ↔ ¬ (name = [] ∨ dnsCacheNameLen < name.length) := by
  simp [Cacheable, foldName]

theorem dnsKey_iff : dnsLayout.key slot = some (foldName name) ↔ slot.valid ∧ dnsCacheNameEq slot name := by
  simp [dnsLayout, dnsCacheNameEq, foldName_eq_iff]

theorem dnsScan_eq (now : ℕ) (name : Bytes) (slots : List DnsSlot) :
    dnsScan now name slots = scan dnsLayout now (foldName name) slots := by
  induction slots with
  | nil => rfl
  | cons slot rest ih =>
    have hhit : (slot.valid ∧ now < slot.expiryMs ∧ dnsCacheNameEq slot name) ↔
        (dnsLayout.key slot = some (foldName name) ∧ now < dnsLayout.expiry slot) := by
      rw [dnsKey_iff, and_assoc, and_comm (a := now < slot.expiryMs)]
      rfl
    have hexpire : expireSlot now slot = expire dnsLayout now slot := by
      cases hvalid : slot.valid <;> simp [expireSlot, expire, dnsLayout, hvalid]
    rw [dnsScan, scan, ih, hexpire]
    exact if_congr hhit rfl rfl

theorem dnsTarget_eq (cache : DnsCache) (name : Bytes) :
    dnsTarget cache name = target dnsLayout cache.slots cache.next (foldName name) := by
  have hown : (fun slot : DnsSlot => slot.valid && dnsCacheNameEq slot name) =
      fun slot => decide (dnsLayout.key slot = some (foldName name)) := by
    funext slot
    rw [Bool.eq_iff_iff, decide_eq_true_iff, dnsKey_iff, Bool.and_eq_true]
  have hfree : (fun slot : DnsSlot => !slot.valid) = fun slot => (dnsLayout.key slot).isNone := by
    funext slot
    cases hvalid : slot.valid <;> simp [dnsLayout, hvalid]
  unfold dnsTarget target Slots.find Slots.free
  rw [hown, hfree]
  exact cache.size ▸ rfl

theorem dnsOps_realizes : dnsOps.Realizes dnsLayout DnsCache.slots DnsCache.next dnsCacheTtlMs Cacheable where
  some_slot c h := by
    have hsize := c.size
    rw [h] at hsize
    cases hsize
  lookup_known now name c hname := by
    change (dnsCacheLookup now name c).1 = _
    rw [dnsCacheLookup, if_neg (cacheable_iff.mp hname)]
    exact congrArg Prod.fst (dnsScan_eq now name c.slots)
  lookup_unknown now name c hname := by
    change (dnsCacheLookup now name c).1 = _
    rw [dnsCacheLookup, if_pos (by_contra fun h => hname (cacheable_iff.mpr h))]
  lookup_slots now name c := by
    change List.Forall₂ _ c.slots (dnsCacheLookup now name c).2.slots
    unfold dnsCacheLookup
    split_ifs
    · exact List.forall₂_same.mpr fun _ _ => .inl rfl
    · dsimp only
      rw [dnsScan_eq]
      exact scan_dropped now _ c.slots
  written_known name c hname := by
    change dnsWritten c name = _
    rw [dnsWritten, if_neg (cacheable_iff.mp hname), dnsTarget_eq]
    rfl
  written_unknown name c hname := if_pos (by_contra fun h => hname (cacheable_iff.mpr h))
  store_known now name ip c hname := by
    change (dnsCacheStore now name ip c).slots = _
    rw [dnsCacheStore, if_neg (cacheable_iff.mp hname)]
    dsimp only
    rw [dnsTarget_eq]
    rfl
  store_unknown now name ip c hname := by
    change (dnsCacheStore now name ip c).slots = _
    rw [dnsCacheStore, if_pos (by_contra fun h => hname (cacheable_iff.mpr h))]

end Names

section Addresses

def arpLayout : Layout ArpSlot Ipv4 Bytes where
  key slot := if slot.valid then some slot.ip else none
  value := ArpSlot.mac
  expiry := ArpSlot.expiryMs
  drop slot := { slot with valid := false }
  fill ip mac expiry := ⟨true, mac, ip, expiry⟩
  key_drop _ := rfl
  key_fill _ _ _ := rfl
  value_fill _ _ _ := rfl
  expiry_fill _ _ _ := rfl

def arpOps : Ops ArpCache Ipv4 Ipv4 Bytes where
  fold := id
  lookup := lookupArpPeer
  store now ip mac := arpCacheStore now mac ip
  written cache ip := some (arpTarget cache ip).1

theorem arpScan_eq (now : ℕ) (ip : Ipv4) (slots : List ArpSlot) : arpScan now ip slots = scan arpLayout now ip slots := by
  induction slots with
  | nil => rfl
  | cons slot rest ih =>
    have hhit : (slot.valid ∧ now < slot.expiryMs ∧ slot.ip = ip) ↔
        (arpLayout.key slot = some ip ∧ now < arpLayout.expiry slot) := by
      simp [arpLayout, and_assoc, and_comm]
    have hexpire : expireArpSlot now slot = expire arpLayout now slot := by
      cases hvalid : slot.valid <;> simp [expireArpSlot, expire, arpLayout, hvalid]
    rw [arpScan, scan, ih, hexpire]
    exact if_congr hhit rfl rfl

theorem arpTarget_eq (cache : ArpCache) (ip : Ipv4) :
    arpTarget cache ip = target arpLayout cache.slots cache.next ip := by
  have hown : (fun slot : ArpSlot => slot.valid && slot.ip == ip) = fun slot => decide (arpLayout.key slot = some ip) := by
    funext slot
    rw [Bool.eq_iff_iff]
    cases hvalid : slot.valid <;> simp [arpLayout, hvalid]
  have hfree : (fun slot : ArpSlot => !slot.valid) = fun slot => (arpLayout.key slot).isNone := by
    funext slot
    cases hvalid : slot.valid <;> simp [arpLayout, hvalid]
  unfold arpTarget target Slots.find Slots.free
  rw [hown, hfree]
  exact cache.size ▸ rfl

theorem arpOps_realizes : arpOps.Realizes arpLayout ArpCache.slots ArpCache.next arpCacheTtlMs fun _ => True where
  some_slot c h := by
    have hsize := c.size
    rw [h] at hsize
    cases hsize
  lookup_known now ip c _ := congrArg Prod.fst (arpScan_eq now ip c.slots)
  lookup_unknown _ _ _ h := absurd trivial h
  lookup_slots now ip c := by
    change List.Forall₂ _ c.slots (arpScan now ip c.slots).2
    rw [arpScan_eq]
    exact scan_dropped now ip c.slots
  written_known ip c _ := congrArg (fun t : ℕ × ℕ => some t.1) (arpTarget_eq c ip)
  written_unknown _ _ h := absurd trivial h
  store_known now ip mac c _ := by
    change c.slots.set (arpTarget c ip).1 _ = _
    rw [arpTarget_eq]
    rfl
  store_unknown _ _ _ _ h := absurd trivial h

end Addresses

section Maps

theorem noNames_size : (List.replicate dnsCacheSlots ({} : DnsSlot)).length = dnsCacheSlots := rfl

/-- The name cache at the start. -/
def noNames : DnsCache := { size := noNames_size }

/-- After any calls of the name cache it is a map, for the names that are `known`. -/
def DnsCacheIsMap (known : FoldedName → Prop) : Prop :=
  ∀ events, (dnsOps.calls noNames).Allows { cache := noNames } events →
    IsMap dnsOps dnsLayout.key DnsCache.slots dnsCacheTtlMs known
      ((dnsOps.calls noNames).run { cache := noNames } events)

def ArpCacheIsMap : Prop :=
  ∀ events, (arpOps.calls {}).Allows { cache := {} } events →
    IsMap arpOps arpLayout.key ArpCache.slots arpCacheTtlMs (fun _ => True)
      ((arpOps.calls {}).run { cache := {} } events)

/-- A name that the store refuses is not found afterwards. -/
theorem refused_not_kept {name : Bytes} (hlong : dnsCacheNameLen < name.length) : ¬ DnsCacheIsMap fun _ => True := by
  intro h
  have hfresh : 0 < 0 + dnsCacheTtlMs := by decide
  have hfound := (h [.store 0 name ⟨10, 0, 2, 2⟩] ⟨Nat.le_refl 0, trivial⟩).kept 0 name
    ⟨foldName name, ⟨10, 0, 2, 2⟩, 0, none⟩ le_rfl trivial ?_ hfresh ?_
  · change (dnsCacheLookup 0 name _).1 = _ at hfound
    rw [dnsCacheLookup, if_pos (.inr hlong)] at hfound
    cases hfound
  · change latest [⟨foldName name, _, 0, dnsWritten noNames name⟩] _ = _
    rw [dnsWritten, if_pos (.inr hlong), latest_cons]
    exact if_pos rfl
  · rintro ⟨i, hslot, -⟩
    cases hslot

end Maps

end MiniAgentOS.Net
