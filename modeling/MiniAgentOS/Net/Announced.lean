import MiniAgentOS.Net.ArpCache
import MiniAgentOS.Net.Segment

/-! The addresses that the kernel uses are those that other hosts have announced: what feeds the cache are the answers to
ARP requests, and nothing else. -/
namespace MiniAgentOS.Net
open Checked Fetch Expiring

section Parser

def readMac (buf : Bytes) (off : ℕ) : Checked Mac := do
  let a ← index buf off
  let b ← index buf (off + 1)
  let c ← index buf (off + 2)
  let d ← index buf (off + 3)
  let e ← index buf (off + 4)
  let f ← index buf (off + 5)
  pure ⟨a, b, c, d, e, f⟩

/-- `LAST_ARP_MAC` and `LAST_ARP_IP`, nothing until `LAST_ARP_VALID`, and the cache. -/
structure ArpState where
  lastPeer : Option (Mac × Ipv4)
  cache : ArpCache

theorem noPeers_size : (List.replicate arpCacheSlots ({} : ArpSlot)).length = arpCacheSlots := rfl

/-- The cache at the start. -/
def noPeers : ArpCache := { size := noPeers_size }

def ArpState.start : ArpState := ⟨none, noPeers⟩

/-- `parse_rx_arp` at a time of the clock. -/
def parseRxArp (now : ℕ) (rx : RxBuffer) (s : ArpState) : Checked (Bool × ArpState) := do
  match currentRxBounds rx (virtioNetHdrLen + ethHdrLen + arpPktLen) with
  | none => return (false, s)
  | some _ =>
    let ethType ← read16 rx.bytes (virtioNetHdrLen + 12)
    if ethType ≠ 0x0806 then return (false, s)
    let arp := virtioNetHdrLen + ethHdrLen
    let op ← read16 rx.bytes (arp + 6)
    if op ≠ 2 then return (false, s)
    let smac ← readMac rx.bytes (arp + 8)
    let sip ← readIp rx.bytes (arp + 14)
    return (true, ⟨some (smac, sip), arpCacheStore now smac.bytes sip s.cache⟩)

end Parser

section Answers

variable {rx : RxBuffer} {now : ℕ} {s : ArpState} {buf : Bytes} {off : ℕ}

/-- A byte of the packet. -/
def byteAt (buf : Bytes) (off : ℕ) : UInt8 := buf.getD off 0

def wordAt (buf : Bytes) (off : ℕ) : ℕ := (byteAt buf off).toNat * 256 + (byteAt buf (off + 1)).toNat

/-- The fields of an ARP packet behind its headers. -/
def arpOp (buf : Bytes) : ℕ := wordAt buf (packetOff + 6)

def arpSenderMac (buf : Bytes) : Mac :=
  ⟨byteAt buf (packetOff + 8), byteAt buf (packetOff + 9), byteAt buf (packetOff + 10), byteAt buf (packetOff + 11),
    byteAt buf (packetOff + 12), byteAt buf (packetOff + 13)⟩

def arpSenderIp (buf : Bytes) : Ipv4 :=
  ⟨byteAt buf (packetOff + 14), byteAt buf (packetOff + 15), byteAt buf (packetOff + 16), byteAt buf (packetOff + 17)⟩

/-- A whole frame that carries an answer. -/
def IsAnswer (rx : RxBuffer) : Prop :=
  rx.valid = true ∧ packetOff + arpPktLen ≤ min rx.curLen rxBufLen ∧ wordAt rx.bytes (virtioNetHdrLen + 12) = 0x0806 ∧
    arpOp rx.bytes = 2

instance (rx : RxBuffer) : Decidable (IsAnswer rx) := inferInstanceAs (Decidable (_ ∧ _ ∧ _ ∧ _))

theorem index_byteAt (h : off < buf.length) : index buf off = .ok (byteAt buf off) := by
  rw [index_eq h, byteAt, List.getD_eq_getElem _ _ h]

theorem read16_wordAt (h : off + 2 ≤ buf.length) : read16 buf off = .ok (wordAt buf off) := by
  rw [read16, index_byteAt (by omega), ok_bind, index_byteAt (by omega), ok_bind]
  rfl

theorem readMac_sender (h : packetOff + 14 ≤ buf.length) : readMac buf (packetOff + 8) = .ok (arpSenderMac buf) := by
  have hbyte : ∀ i < 6, index buf (packetOff + 8 + i) = .ok (byteAt buf (packetOff + 8 + i)) := fun i hi =>
    index_byteAt (by omega)
  simp only [readMac, hbyte 1 (by decide), hbyte 2 (by decide), hbyte 3 (by decide), hbyte 4 (by decide),
    hbyte 5 (by decide), ok_bind, index_byteAt (show packetOff + 8 < buf.length by omega)]
  rfl

theorem readIp_sender (h : packetOff + 18 ≤ buf.length) : readIp buf (packetOff + 14) = .ok (arpSenderIp buf) := by
  have hbyte : ∀ i < 4, index buf (packetOff + 14 + i) = .ok (byteAt buf (packetOff + 14 + i)) := fun i hi =>
    index_byteAt (by omega)
  simp only [readIp, hbyte 1 (by decide), hbyte 2 (by decide), hbyte 3 (by decide), ok_bind,
    index_byteAt (show packetOff + 14 < buf.length by omega)]
  rfl

/-- An answer is taken, and anything else changes nothing. -/
theorem parseRxArp_eq (now : ℕ) (rx : RxBuffer) (s : ArpState) : parseRxArp now rx s = .ok
    (if IsAnswer rx then (true, ⟨some (arpSenderMac rx.bytes, arpSenderIp rx.bytes),
      arpCacheStore now (arpSenderMac rx.bytes).bytes (arpSenderIp rx.bytes) s.cache⟩) else (false, s)) := by
  have hsize := rx.size
  have hlen : rxBufLen = 8192 := rfl
  have hoff : packetOff = 24 := rfl
  have hmac := readMac_sender (by omega : packetOff + 14 ≤ rx.bytes.length)
  have hip := readIp_sender (by omega : packetOff + 18 ≤ rx.bytes.length)
  have htype : read16 rx.bytes (virtioNetHdrLen + 12) = .ok (wordAt rx.bytes (virtioNetHdrLen + 12)) :=
    read16_wordAt (by change 24 ≤ _; omega)
  have hop : read16 rx.bytes (packetOff + 6) = .ok (arpOp rx.bytes) := read16_wordAt (by omega)
  by_cases hbounds : rx.valid = true ∧ packetOff + arpPktLen ≤ min rx.curLen rxBufLen
  swap
  · have hnone : currentRxBounds rx (virtioNetHdrLen + ethHdrLen + arpPktLen) = none := if_neg hbounds
    have hnot : ¬ IsAnswer rx := fun h => hbounds ⟨h.1, h.2.1⟩
    rw [if_neg hnot, parseRxArp, hnone]
    rfl
  have hsome : currentRxBounds rx (virtioNetHdrLen + ethHdrLen + arpPktLen) = some (min rx.curLen rxBufLen) :=
    if_pos hbounds
  have hanswer : IsAnswer rx ↔ wordAt rx.bytes (virtioNetHdrLen + 12) = 0x0806 ∧ arpOp rx.bytes = 2 :=
    ⟨fun h => h.2.2, fun h => ⟨hbounds.1, hbounds.2, h⟩⟩
  rw [parseRxArp, hsome]
  dsimp only
  rw [htype, ok_bind]
  by_cases harp : wordAt rx.bytes (virtioNetHdrLen + 12) = 0x0806
  swap
  · rw [if_pos harp, if_neg fun h => harp (hanswer.mp h).1]
    rfl
  rw [if_neg (not_not.mpr harp)]
  change (read16 rx.bytes (packetOff + 6) >>= _) = _
  rw [hop, ok_bind]
  by_cases htwo : arpOp rx.bytes = 2
  swap
  · rw [if_pos htwo, if_neg fun h => htwo (hanswer.mp h).2]
    rfl
  rw [if_neg (not_not.mpr htwo), if_pos (hanswer.mpr ⟨harp, htwo⟩)]
  change (readMac rx.bytes (packetOff + 8) >>= _) = _
  rw [hmac, ok_bind]
  change (readIp rx.bytes (packetOff + 14) >>= _) = _
  rw [hip, ok_bind]
  rfl

end Answers

section Runs

/-- A frame that is received, or an address that is looked up. -/
inductive ArpEvent where
  | received (now : ℕ) (rx : RxBuffer)
  | lookup (now : ℕ) (ip : Ipv4)

def ArpEvent.time : ArpEvent → ℕ
  | .received now _ => now
  | .lookup now _ => now

def arpStep (s : ArpState) : ArpEvent → ArpState
  | .received now rx =>
    match parseRxArp now rx s with
    | .ok (_, next) => next
    | .error _ => s
  | .lookup now ip => { s with cache := (lookupArpPeer now ip s.cache).2 }

/-- Frames and lookups as time goes on. -/
def arpMachine : Machine (ℕ × ArpState) ArpEvent where
  init s := s = (0, .start)
  allowed s event := s.1 ≤ event.time
  step s event := (event.time, arpStep s.2 event)

/-- An answer, with the time of its arrival. -/
structure Answer where
  time : ℕ
  mac : Mac
  ip : Ipv4
  deriving DecidableEq, Repr

def ArpEvent.answer : ArpEvent → Option Answer
  | .received now rx => if IsAnswer rx then some ⟨now, arpSenderMac rx.bytes, arpSenderIp rx.bytes⟩ else none
  | .lookup _ _ => none

/-- The answers that have arrived, the last one first. -/
def answers (events : List ArpEvent) : List Answer := (events.filterMap ArpEvent.answer).reverse

/-- What an event does to the cache. -/
def ArpEvent.call : ArpEvent → Option (Call Ipv4 Bytes)
  | .received now rx =>
    if IsAnswer rx then some (.store now (arpSenderIp rx.bytes) (arpSenderMac rx.bytes).bytes) else none
  | .lookup now ip => some (.lookup now ip)

variable {events : List ArpEvent} {s : ℕ × ArpState} {u : Used ArpCache Ipv4 Bytes}

def storedAnswer (r : Stored Ipv4 Bytes) : ℕ × Bytes × Ipv4 := (r.time, r.value, r.key)

def Answer.entry (a : Answer) : ℕ × Bytes × Ipv4 := (a.time, a.mac.bytes, a.ip)

/-- The cache of the kernel, and the same cache with the calls that have been made. -/
structure Follows (s : ℕ × ArpState) (u : Used ArpCache Ipv4 Bytes) (heard : List Answer) : Prop where
  cache : u.cache = s.2.cache
  clock : u.clock ≤ s.1
  stores : u.stores.map storedAnswer = heard.map Answer.entry
  peer : s.2.lastPeer = heard.head?.map fun a => (a.mac, a.ip)

theorem Follows.step {heard : List Answer} (h : Follows s u heard) {event : ArpEvent} (hnow : s.1 ≤ event.time) :
    (∀ call ∈ event.call, (arpOps.calls noPeers).allowed u call) ∧
      Follows (arpMachine.step s event) (event.call.elim u ((arpOps.calls noPeers).step u))
        (event.answer.toList ++ heard) := by
  cases event with
  | lookup now ip =>
    refine ⟨?_, ?_⟩
    · intro call hcall
      obtain rfl := Option.some.inj hcall
      exact h.clock.trans hnow
    · exact ⟨congrArg (fun c => (lookupArpPeer now ip c).2) h.cache, le_rfl, h.stores, h.peer⟩
  | received now rx =>
    by_cases hanswer : IsAnswer rx
    · have hstep : arpStep s.2 (.received now rx) = ⟨some (arpSenderMac rx.bytes, arpSenderIp rx.bytes),
          arpCacheStore now (arpSenderMac rx.bytes).bytes (arpSenderIp rx.bytes) s.2.cache⟩ := by
        rw [arpStep, parseRxArp_eq, if_pos hanswer]
      have hcall : (ArpEvent.received now rx).call =
          some (.store now (arpSenderIp rx.bytes) (arpSenderMac rx.bytes).bytes) := if_pos hanswer
      have hheard : (ArpEvent.received now rx).answer =
          some ⟨now, arpSenderMac rx.bytes, arpSenderIp rx.bytes⟩ := if_pos hanswer
      rw [hcall, hheard]
      refine ⟨?_, ?_⟩
      · intro call hmem
        obtain rfl := Option.some.inj hmem
        exact h.clock.trans hnow
      · refine ⟨?_, le_rfl, ?_, ?_⟩
        · change _ = (arpStep s.2 _).cache
          rw [hstep, ← h.cache]
          rfl
        · change storedAnswer _ :: u.stores.map storedAnswer = _
          rw [h.stores]
          rfl
        · change (arpStep s.2 _).lastPeer = _
          rw [hstep]
          rfl
    · have hstep : arpStep s.2 (.received now rx) = s.2 := by rw [arpStep, parseRxArp_eq, if_neg hanswer]
      have hcall : (ArpEvent.received now rx).call = none := if_neg hanswer
      have hheard : (ArpEvent.received now rx).answer = none := if_neg hanswer
      rw [hcall, hheard]
      refine ⟨nofun, ?_⟩
      refine ⟨?_, h.clock.trans hnow, h.stores, ?_⟩
      · change u.cache = (arpStep s.2 _).cache
        rw [hstep, h.cache]
      · change (arpStep s.2 _).lastPeer = _
        rw [hstep]
        exact h.peer

theorem answers_cons (event : ArpEvent) (events : List ArpEvent) :
    answers (event :: events) = answers events ++ event.answer.toList := by
  unfold answers
  cases hanswer : event.answer with
  | none => simp [hanswer]
  | some answer => simp [hanswer]

theorem Follows.run {heard : List Answer} (h : Follows s u heard) (hallowed : arpMachine.Allows s events) :
    (arpOps.calls noPeers).Allows u (events.filterMap ArpEvent.call) ∧
      Follows (arpMachine.run s events) ((arpOps.calls noPeers).run u (events.filterMap ArpEvent.call))
        (answers events ++ heard) := by
  induction events generalizing s u heard with
  | nil => exact ⟨trivial, h⟩
  | cons event events ih =>
    obtain ⟨hcall, hnext⟩ := h.step hallowed.1
    obtain ⟨hrest, hlast⟩ := ih hnext hallowed.2
    rw [answers_cons, List.append_assoc, Machine.run_cons]
    cases hevent : event.call with
    | none =>
      rw [hevent] at hrest hlast
      rw [List.filterMap_cons_none hevent]
      exact ⟨hrest, hlast⟩
    | some call =>
      rw [hevent] at hrest hlast
      rw [List.filterMap_cons_some hevent]
      exact ⟨⟨hcall call hevent, hrest⟩, hlast⟩

/-- The most recent answer from an address. -/
def latestFrom (heard : List Answer) (ip : Ipv4) : Option Answer := heard.find? fun a => a.ip = ip

/-- The calls of the cache and the answers correspond, and so do the most recent ones. -/
theorem latest_stored {stores : List (Stored Ipv4 Bytes)} {heard : List Answer} (ip : Ipv4)
    (h : stores.map storedAnswer = heard.map Answer.entry) :
    (latest stores ip).map storedAnswer = (latestFrom heard ip).map Answer.entry := by
  induction stores generalizing heard with
  | nil =>
    cases heard with
    | nil => rfl
    | cons a heard => cases h
  | cons r stores ih =>
    cases heard with
    | nil => cases h
    | cons a heard =>
      obtain ⟨hentry, hrest⟩ := List.cons.inj h
      have hip : r.key = a.ip := congrArg (fun e : ℕ × Bytes × Ipv4 => e.2.2) hentry
      rw [latest_cons, latestFrom, List.find?_cons]
      by_cases hkey : r.key = ip
      · rw [if_pos hkey]
        simp [hip ▸ hkey, hentry]
      · rw [if_neg hkey]
        simpa [latestFrom, hip ▸ hkey] using ih hrest

theorem Follows.stored {heard : List Answer} (h : Follows s u heard) {ip : Ipv4} {a : Answer}
    (ha : latestFrom heard ip = some a) :
    ∃ r, latest u.stores ip = some r ∧ r.time = a.time ∧ r.value = a.mac.bytes := by
  have hsame := latest_stored ip h.stores
  rw [ha] at hsame
  obtain ⟨r, hr, hentry⟩ := Option.map_eq_some_iff.mp hsame
  exact ⟨r, hr, congrArg Prod.fst hentry, congrArg (fun e : ℕ × Bytes × Ipv4 => e.2.1) hentry⟩

theorem Follows.heard {heard : List Answer} (h : Follows s u heard) {ip : Ipv4} {r : Stored Ipv4 Bytes}
    (hr : latest u.stores ip = some r) :
    ∃ a, latestFrom heard ip = some a ∧ r.time = a.time ∧ r.value = a.mac.bytes := by
  have hsame := latest_stored ip h.stores
  rw [hr] at hsame
  obtain ⟨a, ha, hentry⟩ := Option.map_eq_some_iff.mp hsame.symm
  exact ⟨a, ha, (congrArg Prod.fst hentry).symm, (congrArg (fun e : ℕ × Bytes × Ipv4 => e.2.1) hentry).symm⟩

/-- The calls are those of the addresses that have answered. -/
theorem calls_within {call : Call Ipv4 Bytes} (h : call ∈ events.filterMap ArpEvent.call) :
    call.Within id ((answers events).map Answer.ip).toFinset := by
  obtain ⟨event, hevent, hcall⟩ := List.mem_filterMap.mp h
  cases event with
  | lookup now ip =>
    obtain rfl := Option.some.inj hcall
    trivial
  | received now rx =>
    by_cases hanswer : IsAnswer rx
    · obtain rfl := Option.some.inj ((if_pos hanswer).symm.trans hcall)
      have hmem : (⟨now, arpSenderMac rx.bytes, arpSenderIp rx.bytes⟩ : Answer) ∈ answers events :=
        List.mem_reverse.mpr (List.mem_filterMap.mpr ⟨_, hevent, if_pos hanswer⟩)
      exact List.mem_toFinset.mpr (List.mem_map_of_mem hmem)
    · cases (if_neg hanswer).symm.trans hcall

/-- What the kernel knows at a time of the clock about the hosts whose answers it has received: it uses no address but
the most recent one that a host has announced, and no longer than two minutes after that. It has the last answer for
that time, and with no more than eight hosts it has the most recent one of every host. -/
structure Announced (s : ArpState) (heard : List Answer) (now : ℕ) : Prop where
  recent : ∀ ip mac, (lookupArpPeer now ip s.cache).1 = some mac →
    ∃ a, latestFrom heard ip = some a ∧ a.mac.bytes = mac ∧ now < a.time + arpCacheTtlMs
  last : ∀ a ∈ heard.head?, now < a.time + arpCacheTtlMs → (lookupArpPeer now a.ip s.cache).1 = some a.mac.bytes
  few : (heard.map Answer.ip).toFinset.card ≤ arpCacheSlots → ∀ ip, ∀ a ∈ latestFrom heard ip,
    now < a.time + arpCacheTtlMs → (lookupArpPeer now ip s.cache).1 = some a.mac.bytes
  peer : s.lastPeer = heard.head?.map fun a => (a.mac, a.ip)

theorem noPeers_unused : ∀ slot ∈ noPeers.slots, arpLayout.key slot = none := by
  intro slot hslot
  rw [List.eq_of_mem_replicate hslot]
  rfl

/-- The answer of the host at 10.0.2.2 to the one at 10.0.2.15. -/
def gatewayAnswer : Bytes :=
  List.replicate virtioNetHdrLen 0 ++ [0x52, 0x54, 0, 0x12, 0x34, 0x56, 0x52, 0x55, 10, 0, 2, 2, 8, 6] ++
    [0, 1, 8, 0, 6, 4, 0, 2, 0x52, 0x55, 10, 0, 2, 2, 10, 0, 2, 2, 0x52, 0x54, 0, 0x12, 0x34, 0x56, 10, 0, 2, 15]

theorem gatewayRx_size : (gatewayAnswer ++ List.replicate 8140 0).length = rxBufLen := by
  rw [List.length_append, List.length_replicate]
  rfl

def gatewayRx : RxBuffer := ⟨gatewayAnswer ++ List.replicate 8140 0, gatewayAnswer.length, true, gatewayRx_size⟩

theorem gatewayRx_allowed :
    arpMachine.Allows (0, .start) [.received 5 gatewayRx, .lookup 9 ⟨10, 0, 2, 2⟩] :=
  ⟨Nat.zero_le 5, Nat.le_add_right 5 4, trivial⟩

example : IsAnswer gatewayRx ∧ arpSenderIp gatewayRx.bytes = ⟨10, 0, 2, 2⟩ := by decide

end Runs

end MiniAgentOS.Net
