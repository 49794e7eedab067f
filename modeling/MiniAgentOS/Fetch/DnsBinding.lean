import MiniAgentOS.Fetch.Destination

/-! The reply from which the address of a host is taken asks for that host. -/
namespace MiniAgentOS.Fetch
open Checked Net Http

/-- The question section of a reply begins with the name. -/
def AsksFor (reply name : Bytes) : Prop :=
  (reply.drop 4).take 2 ≠ [0, 0] ∧
    (dnsWireName name).map asciiLower <+: (reply.drop 12).map asciiLower

instance (reply name : Bytes) : Decidable (AsksFor reply name) := inferInstanceAs (Decidable (_ ∧ _))

/-- A reply that asks for the name was accepted, and the address taken from it. -/
def Answered (trace : List Action) (name : Bytes) (ip : Ipv4) : Prop :=
  ∃ domain reply, .resolved domain ip reply ∈ trace ∧ AsksFor reply domain ∧
    domain.map asciiLower = name.map asciiLower

/-- Whatever address is taken for a host was answered: from a reply, from the cache at a start, or by
the cache later on. -/
structure Bound (k : Kernel) : Prop where
  replies : ∀ domain ip reply, .resolved domain ip reply ∈ k.trace → AsksFor reply domain
  starts : ∀ owner request cache now ip, .start owner request cache now ∈ k.trace →
    (dnsCacheLookup now request.domain cache).1 = some ip → Answered k.trace request.domain ip
  cached : k.dnsCache.All (Answered k.trace)

/-- The reply gives an address. -/
def givesAddress (reply : Bytes) : Bool :=
  match dnsParseResponse reply reply.length dnsQueryId with
  | .ok (.address _) => true
  | _ => false

/-- No reply that gives an address comes in `FETCH_DNS` while its question is for another host. -/
def InTime (k : Kernel) : Event → Prop
  | .dnsReply datagram _ =>
    k.conn.state = .dns → givesAddress (datagram.take dnsBufLen) →
      AsksFor (datagram.take dnsBufLen) k.request.domain
  | _ => True

variable {config : Config} {k k' : Kernel} {trace new : List Action} {name : Bytes} {ip : Ipv4}

theorem Answered.append (h : Answered trace name ip) (new : List Action) :
    Answered (trace ++ new) name ip := by
  obtain ⟨domain, reply, hmem, hrest⟩ := h
  exact ⟨domain, reply, List.mem_append_left _ hmem, hrest⟩

theorem Answered.congr {other : Bytes} (h : Answered trace name ip)
    (hname : name.map asciiLower = other.map asciiLower) : Answered trace other ip := by
  obtain ⟨domain, reply, hmem, hasks, hdomain⟩ := h
  exact ⟨domain, reply, hmem, hasks, hdomain.trans hname⟩

/-- What a lookup returns was answered if all of the cache was. -/
theorem answered_lookup {cache : DnsCache} {now : ℕ} (h : cache.All (Answered trace))
    (hfound : (dnsCacheLookup now name cache).1 = some ip) : Answered trace name ip := by
  obtain ⟨slot, hmem, hvalid, -, hname, rfl⟩ := dnsCacheLookup_holds hfound
  exact (h slot hmem hvalid).congr (by simpa [dnsCacheNameEq] using hname)

theorem bound_init : Bound {} := by
  constructor
  · exact fun _ _ _ h => absurd h List.not_mem_nil
  · exact fun _ _ _ _ _ h => absurd h List.not_mem_nil
  · intro slot hmem hvalid
    rw [List.eq_of_mem_replicate hmem] at hvalid
    cases hvalid

/-- Actions that neither start a fetch nor take an address from a reply. -/
def Action.unbinding : Action → Bool
  | .start _ _ _ _ | .resolved _ _ _ => false
  | _ => true

theorem Bound.frame (h : Bound k) (htrace : k'.trace = k.trace ++ new)
    (hnew : ∀ action ∈ new, action.unbinding = true) (hcache : k'.dnsCache = k.dnsCache) :
    Bound k' := by
  have hold : ∀ action ∈ k'.trace, action.unbinding = false → action ∈ k.trace := by
    intro action hmem hbinding
    rw [htrace] at hmem
    rcases List.mem_append.mp hmem with hbefore | hlater
    · exact hbefore
    · rw [hnew action hlater] at hbinding
      cases hbinding
  constructor
  · exact fun domain ip reply hmem => h.replies domain ip reply (hold _ hmem rfl)
  · intro owner request cache now ip hmem hfound
    rw [htrace]
    exact (h.starts owner request cache now ip (hold _ hmem rfl) hfound).append new
  · rw [hcache, htrace]
    exact fun slot hmem hvalid => (h.cached slot hmem hvalid).append new

theorem Bound.keep (h : Bound k) (htrace : k'.trace = k.trace) (hcache : k'.dnsCache = k.dnsCache) :
    Bound k' := by
  have hnew : k'.trace = k.trace ++ [] := by
    rw [htrace, List.append_nil]
  exact h.frame hnew (fun _ hmem => absurd hmem List.not_mem_nil) hcache

section Steps

theorem Told.unbinding {done : List Action} (h : Told k done) :
    ∀ action ∈ done, action.unbinding = true := by
  intro action hmem
  rcases h with rfl | ⟨-, -, rfl⟩
  · exact absurd hmem List.not_mem_nil
  · rw [List.mem_singleton.mp hmem]
    rfl

theorem Emits.unbinding {request : Request} {c : Conn} {action : Action} (h : Emits request c action) :
    action.unbinding = true := by
  cases action with
  | start => cases h
  | resolved => cases h
  | _ => rfl

theorem tlsSendAll_unbinding (c : Conn) (sends : List TlsSend) :
    ∀ action ∈ (tlsSendAll c sends).2, action.unbinding = true := by
  intro action hmem
  obtain ⟨seq, data, queued, rfl⟩ := tlsSendAll_sendData c sends action hmem
  rfl

theorem Bound.feeds {pieces : List Bytes} (h : Bound k) (hfeeds : Feeds k pieces k') (conn : Conn) :
    Bound { k' with conn } := by
  apply Bound.frame h
  · exact hfeeds.trace
  · simp [Action.unbinding]
  · exact hfeeds.dnsCache

theorem bound_segment {seg : TcpSegment} {env : SegmentEnv} (h : Bound k)
    (hstep : SegmentStep k seg env k') : Bound k' := by
  cases hstep with
  | ignored => exact h
  | synAck => exact h.frame rfl (by simp [Action.unbinding]) rfl
  | socksHello => exact h.keep rfl rfl
  | socksConnect => exact h.keep rfl rfl
  | http state accepts feeds => exact h.feeds feeds _

theorem bound_tick {request : Request} {now : ℕ} {r : TickResult} (h : Bound k)
    (hstep : TickStep request k.conn now r) :
    Bound { k with conn := r.conn, trace := k.trace ++ r.actions } := by
  apply Bound.frame h
  · rfl
  · intro action hmem
    cases hstep with
    | restart =>
      rw [List.mem_singleton.mp hmem]
      rfl
    | progress hp => exact (hp.actions action hmem).unbinding
  · rfl

/-- An address that is taken from a reply in time was asked for. -/
theorem bound_dns {datagram : Bytes} {now : ℕ} (h : Bound k) (hcond : InTime k (.dnsReply datagram now))
    (hstep : DnsStep k datagram now k') : Bound k' := by
  cases hstep with
  | ignored => exact h
  | tooLarge => exact h.keep rfl rfl
  | @resolved state ip answer =>
    have hgives : givesAddress (datagram.take dnsBufLen) = true := by
      unfold givesAddress
      rw [answer]
    have hasks := hcond state hgives
    constructor
    · intro domain other reply hmem
      rcases List.mem_append.mp hmem with hold | hnew
      · exact h.replies domain other reply hold
      · cases List.mem_singleton.mp hnew
        exact hasks
    · intro owner request cache start other hmem hfound
      rcases List.mem_append.mp hmem with hold | hnew
      · exact (h.starts owner request cache start other hold hfound).append _
      · cases List.mem_singleton.mp hnew
    · apply DnsCache.All.store
      · exact fun slot hmem hvalid => (h.cached slot hmem hvalid).append _
      · refine ⟨_, _, List.mem_append_right _ List.mem_cons_self, hasks, ?_⟩
        rw [List.map_map]
        exact List.map_congr_left fun b _ => (asciiLower_asciiLower b).symm

theorem bound_outcome {attempt : Option (StartEnv × Target)} {command : Option Command}
    (h : Bound k) (hout : Outcome config attempt command k k') : Bound k' := by
  cases hout with
  | settled hs =>
    obtain ⟨done, htrace, htold⟩ := hs.trace
    exact h.frame htrace htold.unbinding hs.dnsCache
  | @launched p owner env target reply redirectStart hl _ _ =>
    obtain ⟨done, htrace, htold⟩ := hl.trace
    have hp : Bound p := h.frame htrace htold.unbinding hl.dnsCache
    constructor
    · intro domain ip reply hmem
      rcases List.mem_append.mp hmem with hold | hnew
      · exact hp.replies domain ip reply hold
      · cases List.mem_singleton.mp hnew
    · intro owner request cache now ip hmem hfound
      rcases List.mem_append.mp hmem with hold | hnew
      · exact (hp.starts owner request cache now ip hold hfound).append _
      · cases List.mem_singleton.mp hnew
        exact (answered_lookup hp.cached hfound).append _
    · have hkept : p.dnsCache.All (Answered (p.trace ++
          [.start owner (p.request.aim target) p.dnsCache env.now])) :=
        fun slot hmem hvalid => (hp.cached slot hmem hvalid).append _
      unfold Kernel.launch
      dsimp only
      split_ifs
      · exact hkept.lookup _ _
      · exact hkept

theorem bound_step {event : Event} (h : Bound k) (hcond : InTime k event)
    (hstep : KernelStep config k event k') : Bound k' := by
  cases hstep with
  | arp gateway dns =>
    unfold Kernel.receiveArp
    split_ifs
    · exact h.keep rfl rfl
    · exact h.keep rfl rfl
    · exact h
  | dns hdns => exact bound_dns h hcond hdns
  | segment hsegment => exact bound_segment h hsegment
  | outcome hout => exact bound_outcome h hout
  | tick _ hstep _ => exact bound_tick h hstep
  | @read env c start last pieces conn _ _ _ _ _ begin feeds _ _ =>
    have hstart : Bound start := by
      rw [begin]
      exact h.frame rfl (tlsSendAll_unbinding c env.tlsSends) rfl
    exact hstart.feeds feeds _
  | reply => exact h.keep rfl rfl

end Steps

/-- In every run in which no reply comes for another host than the one that is waited for, every
address that is taken for a host comes from a reply that asks for it. -/
theorem answers_bound (hk : ((kernelMachine config).restrict InTime).Reachable k) : Bound k := by
  apply hk.invariant
  · rintro _ rfl
    exact bound_init
  · intro k event h hallowed
    exact bound_step h hallowed.2 (kernel_step (Machine.ofChecked_step hallowed.1).2)

section Runs

instance (k : Kernel) : ∀ event, Decidable (InTime k event)
  | .dnsReply _ _ => inferInstanceAs (Decidable (_ → _ → _))
  | .arp _ _ | .segment _ _ | .udp _ _ _ | .line _ _ | .tick _ | .reply _ | .done _ => isTrue trivial

/-- The reply for the first host comes once more while the second is waited for. -/
def lateReply : List Event :=
  twoHosts 5000 true ++
    [plainTick 5010, .dnsReply (addressReply (ascii "a.com") firstIp) 5020]

theorem late_reply_accepted : ¬ ∀ (config : Config) (k : Kernel),
    (kernelMachine config).Reachable k → Bound k := by
  intro h
  have hk : (kernelMachine plainConfig).Reachable ((kernelMachine plainConfig).run {} lateReply) :=
    Machine.Reachable.run (.init rfl)
      (show (kernelMachine plainConfig).Allows {} lateReply by decide +kernel)
  have hmem : .resolved (ascii "b.com") firstIp (addressReply (ascii "a.com") firstIp) ∈
      ((kernelMachine plainConfig).run {} lateReply).trace := by
    decide +kernel
  have hother : ¬ AsksFor (addressReply (ascii "a.com") firstIp) (ascii "b.com") := by
    decide
  exact hother ((h plainConfig _ hk).replies _ _ _ hmem)

theorem answers_bound_twoHosts :
    let k := (kernelMachine plainConfig).run {} (twoHosts 5000 true)
    (∃ slot ∈ k.dnsCache.slots, slot.valid) ∧ Bound k := by
  intro k
  have hk : ((kernelMachine plainConfig).restrict InTime).Reachable k :=
    Machine.Reachable.run (.init rfl)
      (show ((kernelMachine plainConfig).restrict InTime).Allows {} (twoHosts 5000 true) by
        decide +kernel)
  have hcached : ∃ slot ∈ k.dnsCache.slots, slot.valid := by
    decide +kernel
  exact ⟨hcached, answers_bound hk⟩

end Runs

end MiniAgentOS.Fetch
