import MiniAgentOS.Fetch.KernelSteps

/-! The address that a connection is opened to was resolved for the host of the fetch. -/
namespace MiniAgentOS.Fetch
open Checked Net Http

/-- The address is in the name cache at the start of the fetch, or in a reply that was accepted
since. -/
def Resolved (trace : List Action) (ip : Ipv4) : Prop :=
  ∃ s after, lastStart trace = some (s, after) ∧
    (s.cache.Holds s.now s.request.domain ip ∨ ∃ reply, .resolved s.request.domain ip reply ∈ after)

/-- A SYN to a host without a fixed address that is not reached over the proxy. -/
def SynResolved (before : List Action) : Action → Prop
  | .sendSyn ip _ true => Resolved before ip
  | _ => True

/-- What is known of the address of a connection. -/
def Addressed (trace : List Action) (c : Conn) : Prop :=
  Resolved trace c.dstIp ∨ (c.dstIp = noIp ∧ (c.state = .arp ∨ c.state = .done)) ∨
    (c.haveGw = true ∧ (c.state = .dns ∨ c.state = .done))

structure Destined (k : Kernel) : Prop where
  syn : Trace.Always SynResolved k.trace
  host : k.conn.state ≠ .idle → ∃ s after, lastStart k.trace = some (s, after) ∧
    s.request.domain = k.request.domain
  address : k.conn.state ≠ .idle → k.conn.direct = true → Addressed k.trace k.conn

variable {config : Config} {k k' : Kernel} {trace new : List Action} {ip : Ipv4}

theorem Resolved.append (hip : Resolved trace ip) (h : ∀ action ∈ new, action.started = none) :
    Resolved (trace ++ new) ip := by
  obtain ⟨s, after, hlast, hresolved⟩ := hip
  refine ⟨s, after ++ new, lastStart_append h hlast, hresolved.imp_right ?_⟩
  rintro ⟨reply, hmem⟩
  exact ⟨reply, List.mem_append_left _ hmem⟩

theorem Addressed.append {c : Conn} (hc : Addressed trace c)
    (h : ∀ action ∈ new, action.started = none) : Addressed (trace ++ new) c :=
  hc.imp_left fun hip => hip.append h

/-- Actions that neither start a fetch nor open a connection. -/
def Action.quiet : Action → Bool
  | .start _ _ _ _ | .sendSyn _ _ _ => false
  | _ => true

theorem quiet_started {action : Action} (h : action.quiet = true) : action.started = none := by
  cases action <;> first | rfl | cases h

theorem quiet_syn {action : Action} (h : action.quiet = true) (before : List Action) :
    SynResolved before action := by
  cases action with
  | sendSyn ip seq direct => cases h
  | _ => trivial

theorem always_quiet (h : Trace.Always SynResolved trace)
    (hquiet : ∀ action ∈ new, action.quiet = true) : Trace.Always SynResolved (trace ++ new) :=
  h.append fun action hmem => quiet_syn (hquiet action hmem)

/-- A step of a fetch that stays one of the same host. -/
theorem Destined.frame (h : Destined k) (htrace : k'.trace = k.trace ++ new)
    (hstarted : ∀ action ∈ new, action.started = none)
    (hsyn : Trace.Always SynResolved (k.trace ++ new))
    (hdomain : k'.request.domain = k.request.domain)
    (hbusy : k'.conn.state ≠ .idle → k.conn.state ≠ .idle)
    (haddress : k'.conn.state ≠ .idle → k'.conn.direct = true →
      k.conn.direct = true ∧ (Addressed k.trace k.conn → Addressed (k.trace ++ new) k'.conn)) :
    Destined k' := by
  constructor
  · rw [htrace]
    exact hsyn
  · intro hstate
    obtain ⟨s, after, hlast, hhost⟩ := h.host (hbusy hstate)
    rw [htrace, hdomain]
    exact ⟨s, _, lastStart_append hstarted hlast, hhost⟩
  · intro hstate hdirect
    obtain ⟨hbefore, hkept⟩ := haddress hstate hdirect
    rw [htrace]
    exact hkept (h.address (hbusy hstate) hbefore)

/-- A step that neither starts a fetch nor sends a SYN. -/
theorem Destined.quiet (h : Destined k) (htrace : k'.trace = k.trace ++ new)
    (hquiet : ∀ action ∈ new, action.quiet = true) (hdomain : k'.request.domain = k.request.domain)
    (hbusy : k'.conn.state ≠ .idle → k.conn.state ≠ .idle)
    (haddress : k'.conn.state ≠ .idle → k'.conn.direct = true →
      k.conn.direct = true ∧ (Addressed k.trace k.conn → Addressed k.trace k'.conn)) :
    Destined k' := by
  have hstarted : ∀ action ∈ new, action.started = none :=
    fun action hmem => quiet_started (hquiet action hmem)
  apply h.frame htrace hstarted (always_quiet h.syn hquiet) hdomain hbusy
  intro hstate hdirect
  obtain ⟨hbefore, hkept⟩ := haddress hstate hdirect
  exact ⟨hbefore, fun hc => (hkept hc).append hstarted⟩

/-- A step that does nothing but change the connection. -/
theorem Destined.keep (h : Destined k) (htrace : k'.trace = k.trace)
    (hdomain : k'.request.domain = k.request.domain)
    (hbusy : k'.conn.state ≠ .idle → k.conn.state ≠ .idle)
    (haddress : k'.conn.state ≠ .idle → k'.conn.direct = true →
      k.conn.direct = true ∧ (Addressed k.trace k.conn → Addressed k.trace k'.conn)) :
    Destined k' := by
  have hnew : k'.trace = k.trace ++ [] := by
    rw [htrace, List.append_nil]
  exact h.quiet hnew (fun _ hmem => absurd hmem List.not_mem_nil) hdomain hbusy haddress

/-- Connections with the same route that are in a state of the same kind. -/
theorem Addressed.route {c d : Conn} (h : Addressed trace c) (hip : d.dstIp = c.dstIp)
    (hgw : d.haveGw = c.haveGw) (hstate : d.state = c.state ∨ d.state = .done) :
    Addressed trace d := by
  unfold Addressed
  rw [hip, hgw]
  rcases hstate with hsame | hdone
  · rw [hsame]
    exact h
  · rcases h with hresolved | ⟨hzero, -⟩ | ⟨hready, -⟩
    · exact .inl hresolved
    · exact .inr (.inl ⟨hzero, .inr hdone⟩)
    · exact .inr (.inr ⟨hready, .inr hdone⟩)

/-- Once a connection is past the name server its address was resolved. -/
theorem Addressed.resolved {c : Conn} (h : Addressed trace c) (harp : c.state ≠ .arp)
    (hdns : c.state ≠ .dns) (hdone : c.state ≠ .done) : Resolved trace c.dstIp := by
  rcases h with hresolved | ⟨-, hstate⟩ | ⟨-, hstate⟩
  · exact hresolved
  · exact absurd hstate (by simp [harp, hdone])
  · exact absurd hstate (by simp [hdns, hdone])

theorem direct_eq_true {c : Conn} : c.direct = true ↔ c.proxy = false ∧ c.haveFixedIp = false := by
  simp [Conn.direct]

section Events

/-- A new round forgets the address. -/
theorem addressed_restart (trace : List Action) {c : Conn} (h : c.restartRound.direct = true) :
    c.direct = true ∧ Addressed trace c.restartRound := by
  unfold Conn.restartRound Conn.restartTransport at h ⊢
  dsimp only at h ⊢
  split_ifs at h ⊢ with hproxy hfixed hgw
  · simp [Conn.direct, hproxy] at h
  · simp [Conn.direct, hfixed] at h
  · exact ⟨h, .inr (.inr ⟨hgw, .inl rfl⟩)⟩
  · exact ⟨h, .inr (.inl ⟨rfl, .inl rfl⟩)⟩

theorem addressed_moves {request : Request} {c d : Conn} {now : ℕ} (h : Addressed trace c)
    (hdirect : c.direct = true) (hroute : SameRoute c d) (hmoves : Moves request c now d.state) :
    Addressed trace d := by
  have hpast : c.state ≠ .arp → c.state ≠ .dns → c.state ≠ .done → Addressed trace d := by
    intro harp hdns hdone
    left
    rw [hroute.dstIp]
    exact h.resolved harp hdns hdone
  rcases hmoves with hsame | ⟨hdone, -⟩ | ⟨harp, -, hgw⟩ | ⟨hresume, harp, hgw⟩ | ⟨-, hstate⟩ |
    ⟨-, hstate⟩
  · exact h.route hroute.dstIp hroute.haveGw (.inl hsame)
  · exact h.route hroute.dstIp hroute.haveGw (.inr hdone)
  · rcases h with hresolved | ⟨hzero, -⟩ | ⟨hready, -⟩
    · exact .inl (hroute.dstIp ▸ hresolved)
    · exact .inr (.inl ⟨hroute.dstIp.trans hzero, .inl harp⟩)
    · rw [hgw] at hready
      cases hready
  · rcases h with hresolved | ⟨hzero, -⟩ | ⟨-, hstate⟩
    · exact .inl (hroute.dstIp ▸ hresolved)
    · right
      right
      obtain ⟨hproxy, hfixed⟩ := direct_eq_true.mp hdirect
      refine ⟨hroute.haveGw.trans hgw, .inl ?_⟩
      rw [hresume]
      simp [Conn.resumeAfterGateway, hproxy, hfixed, hzero]
    · simp [harp] at hstate
  · exact hpast (by simp [hstate]) (by simp [hstate]) (by simp [hstate])
  · exact hpast (by simp [hstate]) (by simp [hstate]) (by simp [hstate])

theorem SameRoute.direct {c d : Conn} (h : SameRoute c d) : d.direct = c.direct := by
  unfold Conn.direct
  rw [h.proxy, h.haveFixedIp]

/-- Past the name server any connection with the same route has an address that was resolved. -/
theorem SameRoute.addressed {c d : Conn} (hroute : SameRoute c d) (harp : c.state ≠ .arp)
    (hdns : c.state ≠ .dns) (hdone : c.state ≠ .done) (h : Addressed trace c) :
    Addressed trace d := by
  left
  rw [hroute.dstIp]
  exact h.resolved harp hdns hdone

theorem synAck_route (c : Conn) (https : Bool) (seg : TcpSegment) (env : SegmentEnv) :
    SameRoute c (c.synAck https seg env) := by
  unfold Conn.synAck Conn.configureTls
  dsimp only
  split_ifs <;> exact ⟨rfl, rfl, rfl, rfl, rfl, rfl⟩

theorem socksHelloReply_route (c : Conn) (seg : TcpSegment) : SameRoute c (c.socksHelloReply seg) := by
  unfold Conn.socksHelloReply
  dsimp only
  split
  · split_ifs <;> exact ⟨rfl, rfl, rfl, rfl, rfl, rfl⟩
  · exact SameRoute.refl c

theorem socksConnectReply_route (c : Conn) (https : Bool) (seg : TcpSegment) (env : SegmentEnv) :
    SameRoute c (c.socksConnectReply https seg env) := by
  unfold Conn.socksConnectReply Conn.configureTls
  dsimp only
  split
  · split_ifs <;> exact ⟨rfl, rfl, rfl, rfl, rfl, rfl⟩
  · exact SameRoute.refl c

theorem sameRoute_core {c d : Conn} (h : d.core = c.core) : SameRoute c d := by
  have hroute : SameRoute c.core d.core := h ▸ SameRoute.refl c.core
  exact ⟨hroute.proxy, hroute.haveFixedIp, hroute.fixedIp, hroute.dstIp, hroute.haveGw, hroute.rounds⟩

theorem sameRoute_transport {c d : Conn} (h : d.transport = c.transport) : SameRoute c d := by
  have hroute : SameRoute c.transport d.transport := h ▸ SameRoute.refl c.transport
  exact ⟨hroute.proxy, hroute.haveFixedIp, hroute.fixedIp, hroute.dstIp, hroute.haveGw, hroute.rounds⟩

end Events

section Steps

/-- A step that keeps the route and the kind of state. -/
theorem Destined.route (h : Destined k) (htrace : k'.trace = k.trace ++ new)
    (hquiet : ∀ action ∈ new, action.quiet = true) (hdomain : k'.request.domain = k.request.domain)
    (hroute : SameRoute k.conn k'.conn) (hbusy : k.conn.state ≠ .idle)
    (hstate : k'.conn.state = k.conn.state ∨ k'.conn.state = .done) : Destined k' := by
  apply h.quiet htrace hquiet hdomain
  · exact fun _ => hbusy
  · intro _ hdirect
    rw [hroute.direct] at hdirect
    exact ⟨hdirect, fun hc => hc.route hroute.dstIp hroute.haveGw hstate⟩

theorem destined_arp (h : Destined k) (gateway dns : Bool) : Destined (k.receiveArp gateway dns) := by
  unfold Kernel.receiveArp
  split_ifs with harp hgateway
  · apply Destined.keep h
    · rfl
    · rfl
    · exact fun _ => by simp [harp]
    · intro _ hdirect
      have hbefore : k.conn.direct = true := hdirect
      refine ⟨hbefore, fun hc => ?_⟩
      obtain ⟨hproxy, hfixed⟩ := direct_eq_true.mp hbefore
      rcases hc with hresolved | ⟨hzero, -⟩ | ⟨-, hstate⟩
      · exact .inl hresolved
      · refine .inr (.inr ⟨rfl, .inl ?_⟩)
        simp [Conn.resumeAfterGateway, hproxy, hfixed, hzero]
      · simp [harp] at hstate
  · apply Destined.keep h
    · rfl
    · rfl
    · exact id
    · exact fun _ hdirect => ⟨hdirect, id⟩
  · exact h

theorem destined_dns {datagram : Bytes} {now : ℕ} (h : Destined k)
    (hstep : DnsStep k datagram now k') : Destined k' := by
  cases hstep with
  | ignored => exact h
  | @resolved state ip answer =>
    have hbusy : k.conn.state ≠ .idle := by
      simp [state]
    obtain ⟨s, after, hlast, hhost⟩ := h.host hbusy
    constructor
    · exact h.syn.snoc trivial
    · intro _
      exact ⟨s, _, lastStart_append (by simp [Action.started]) hlast, hhost⟩
    · intro _ _
      refine .inl ⟨s, _, lastStart_append (by simp [Action.started]) hlast, .inr ?_⟩
      rw [hhost]
      exact ⟨_, List.mem_append_right _ List.mem_cons_self⟩
  | tooLarge reason =>
    apply Destined.keep h
    · rfl
    · rfl
    · exact id
    · exact fun _ hdirect => ⟨hdirect, id⟩

theorem destined_segment {seg : TcpSegment} {env : SegmentEnv} (h : Destined k)
    (hstep : SegmentStep k seg env k') : Destined k' := by
  cases hstep with
  | ignored => exact h
  | synAck state =>
    apply Destined.quiet h rfl
    · simp [Action.quiet]
    · rfl
    · exact fun _ => by simp [state]
    · intro _ hdirect
      have hroute := synAck_route k.conn k.request.https seg env
      exact ⟨hroute.direct ▸ hdirect, hroute.addressed (by simp [state]) (by simp [state]) (by simp [state])⟩
  | socksHello state =>
    apply Destined.keep h
    · rfl
    · rfl
    · exact fun _ => by simp [state]
    · intro _ hdirect
      have hroute := socksHelloReply_route k.conn seg
      exact ⟨hroute.direct ▸ hdirect, hroute.addressed (by simp [state]) (by simp [state]) (by simp [state])⟩
  | socksConnect state =>
    apply Destined.keep h
    · rfl
    · rfl
    · exact fun _ => by simp [state]
    · intro _ hdirect
      have hroute := socksConnectReply_route k.conn k.request.https seg env
      exact ⟨hroute.direct ▸ hdirect, hroute.addressed (by simp [state]) (by simp [state]) (by simp [state])⟩
  | http state accepts feeds =>
    have hroute := sameRoute_core feeds.core
    apply Destined.route h
    · exact feeds.trace
    · simp [Action.quiet]
    · exact congrArg Request.domain feeds.request
    · exact ⟨hroute.proxy, hroute.haveFixedIp, hroute.fixedIp, hroute.dstIp, hroute.haveGw,
        hroute.rounds⟩
    · simp [state]
    · dsimp only
      split_ifs
      · exact .inr rfl
      · exact feeds.state

theorem destined_tick {env : TickEnv} {r : TickResult} (h : Destined k)
    (hstep : TickStep k.request k.conn env.now r) :
    Destined { k with conn := r.conn, trace := k.trace ++ r.actions } := by
  cases hstep with
  | restart deadlineMs txInflight due =>
    apply Destined.quiet h rfl
    · simp [Action.quiet]
    · rfl
    · exact fun _ => due.1
    · intro _ hdirect
      obtain ⟨hbefore, haddressed⟩ := addressed_restart k.trace hdirect
      exact ⟨hbefore, fun _ => haddressed⟩
  | progress hp =>
    have hstarted : ∀ action ∈ r.actions, action.started = none := by
      intro action hmem
      have hemits := hp.actions action hmem
      cases action with
      | start => cases hemits
      | _ => rfl
    apply Destined.frame h rfl hstarted
    · apply h.syn.extend
      rintro before action after heq
      have hmem : action ∈ r.actions := heq ▸ List.mem_append_right _ List.mem_cons_self
      have hemits := hp.actions action hmem
      cases action with
      | sendSyn ip seq direct =>
        obtain ⟨hsyn, -, rfl, -, rfl⟩ := hemits
        cases hdirect : k.conn.direct with
        | false => trivial
        | true =>
          have hresolved := (h.address (by simp [hsyn]) hdirect).resolved (by simp [hsyn])
            (by simp [hsyn]) (by simp [hsyn])
          apply hresolved.append
          intro other hother
          exact hstarted other (heq ▸ List.mem_append_left _ hother)
      | _ => trivial
    · rfl
    · exact fun hbusy hidle => hbusy (hp.state.idle.mpr hidle)
    · intro _ hdirect
      have hbefore : k.conn.direct = true := hp.route.direct ▸ hdirect
      exact ⟨hbefore, fun hc => (addressed_moves hc hbefore hp.route hp.state).append hstarted⟩

theorem tlsSendAll_quiet (c : Conn) (sends : List TlsSend) :
    ∀ action ∈ (tlsSendAll c sends).2, action.quiet = true := by
  intro action hmem
  obtain ⟨seq, data, queued, rfl⟩ := tlsSendAll_sendData c sends action hmem
  rfl

theorem destined_read {c : Conn} {sends : List TlsSend} {start last : Kernel} {pieces : List Bytes}
    {now : ℕ} {conn : Conn} (h : Destined k) (state : k.conn.state = .tlsRead)
    (route : SameRoute k.conn c) (same : c.state = .tlsRead)
    (begin : start = { k with
      conn := (tlsSendAll c sends).1
      trace := k.trace ++ (tlsSendAll c sends).2 })
    (feeds : Feeds start pieces last) (stop : ReadStop last now conn) :
    Destined { last with conn } := by
  obtain ⟨hsends, -, hsame, -⟩ := tlsSendAll_route c sends
  have hstart : Destined start := by
    rw [begin]
    apply Destined.route h
    · rfl
    · exact tlsSendAll_quiet c sends
    · rfl
    · exact route.trans hsends
    · simp [state]
    · exact .inl (hsame.trans (same.trans state.symm))
  have hbusy : start.conn.state = .tlsRead := by
    rw [begin]
    exact hsame.trans same
  apply Destined.route hstart
  · exact feeds.trace
  · simp [Action.quiet]
  · exact congrArg Request.domain feeds.request
  · exact (sameRoute_core feeds.core).trans (sameRoute_core stop.core)
  · simp [hbusy]
  · rcases stop.state with hkeep | hdone
    · rw [hkeep]
      exact feeds.state
    · exact .inr hdone

theorem Told.quiet {done : List Action} (h : Told k done) : ∀ action ∈ done, action.quiet = true := by
  intro action hmem
  rcases h with rfl | ⟨-, -, rfl⟩
  · exact absurd hmem List.not_mem_nil
  · rw [List.mem_singleton.mp hmem]
    rfl

theorem destined_settled (h : Destined k) (hs : Settled k k') : Destined k' := by
  obtain ⟨done, htrace, htold⟩ := hs.trace
  have hroute := sameRoute_transport hs.transport
  have hstate : k'.conn.state ≠ .idle → k'.conn.state = k.conn.state :=
    fun hbusy => hs.state.resolve_right hbusy
  apply h.quiet htrace htold.quiet hs.aim.domain
  · intro hbusy
    exact hstate hbusy ▸ hbusy
  · intro hbusy hdirect
    rw [hroute.direct] at hdirect
    exact ⟨hdirect, fun hc => hc.route hroute.dstIp hroute.haveGw (.inl (hstate hbusy))⟩

/-- A start for a host without an address, while the gateway is not known and the address of an
earlier fetch is left. -/
def LeftOver (config : Config) (k : Kernel) (env : StartEnv) (target : Target) : Prop :=
  useProxy config target = false ∧ target.fixedIp = none ∧
    (dnsCacheLookup env.now target.domain k.dnsCache).1 = none ∧ env.gatewayPeer = false ∧
    k.conn.dstIp ≠ noIp

instance (config : Config) (k : Kernel) (env : StartEnv) (target : Target) :
    Decidable (LeftOver config k env target) := inferInstanceAs (Decidable (_ ∧ _ ∧ _ ∧ _ ∧ _))

/-- The event starts no such fetch. -/
def NoLeftOver (config : Config) (k : Kernel) (event : Event) : Prop :=
  ∀ start ∈ k.attempt config event, ¬ LeftOver config k start.1 start.2

instance (config : Config) (k : Kernel) (event : Event) : Decidable (NoLeftOver config k event) :=
  inferInstanceAs (Decidable (∀ start ∈ _, ¬ _))

/-- A fetch for a host without a fixed address begins with the address that the cache holds, or it
waits for one. -/
theorem launch_addressed {p : Kernel} {owner : Owner} {env : StartEnv} {target : Target}
    {reply : ReplyTo} {redirectStart : Bool} (hleft : ¬ LeftOver config p env target)
    (hdirect : (p.launch config owner env target reply redirectStart).conn.direct = true) :
    Addressed (p.launch config owner env target reply redirectStart).trace
      (p.launch config owner env target reply redirectStart).conn := by
  have hlast := lastStart_launch p config owner env target reply redirectStart
  generalize (p.launch config owner env target reply redirectStart).trace = trace at hlast ⊢
  unfold Kernel.launch at hdirect ⊢
  dsimp only at hdirect ⊢
  cases hproxy : useProxy config target with
  | true =>
    rw [hproxy] at hdirect
    cases hreuse : reuseCandidate config target p <;>
      simp [hreuse, Conn.direct, Conn.reuse, Conn.start, hproxy] at hdirect
  | false =>
    cases hfixed : target.fixedIp with
    | some ip => simp [hproxy, hfixed, Conn.direct, Conn.start] at hdirect
    | none =>
      cases hcached : (dnsCacheLookup env.now target.domain p.dnsCache).1 with
      | some ip =>
        left
        refine ⟨_, _, hlast, .inl ?_⟩
        have hholds : p.dnsCache.Holds env.now (p.request.aim target).domain ip :=
          dnsCacheLookup_holds hcached
        simpa [hproxy, hfixed, hcached, Conn.start, Conn.destination] using hholds
      | none =>
        cases hgw : env.gatewayPeer with
        | true =>
          right
          right
          simp [hproxy, hfixed, hcached, hgw, Conn.start, Conn.destination]
        | false =>
          right
          left
          have hzero : p.conn.dstIp = noIp := by
            by_contra hne
            exact hleft ⟨hproxy, hfixed, hcached, hgw, hne⟩
          simp [hproxy, hfixed, hcached, hgw, Conn.start, Conn.destination]
          split_ifs <;> simp [Conn.close, hzero]

theorem destined_outcome {attempt : Option (StartEnv × Target)} {command : Option Command}
    (h : Destined k) (hleft : ∀ start ∈ attempt, ¬ LeftOver config k start.1 start.2)
    (hout : Outcome config attempt command k k') : Destined k' := by
  cases hout with
  | settled hs => exact destined_settled h hs
  | @launched p owner env target reply redirectStart hl hattempt _ =>
    obtain ⟨done, htrace, htold⟩ := hl.trace
    have hnot : ¬ LeftOver config p env target := by
      unfold LeftOver
      rw [hl.dnsCache, (sameRoute_transport hl.transport).dstIp]
      exact hleft (env, target) hattempt
    constructor
    · change Trace.Always SynResolved (p.trace ++ [_])
      rw [htrace]
      exact (always_quiet h.syn htold.quiet).snoc trivial
    · intro _
      exact ⟨_, _, Trace.since_mark _ rfl, rfl⟩
    · intro _ hdirect
      exact launch_addressed hnot hdirect

theorem destined_step {event : Event} (h : Destined k) (hleft : NoLeftOver config k event)
    (hstep : KernelStep config k event k') : Destined k' := by
  cases hstep with
  | arp gateway dns => exact destined_arp h gateway dns
  | dns hdns => exact destined_dns h hdns
  | segment hsegment => exact destined_segment h hsegment
  | outcome hout => exact destined_outcome h hleft hout
  | tick _ hstep _ => exact destined_tick h hstep
  | read state route same _ _ begin feeds stop _ => exact destined_read h state route same begin feeds stop
  | reply reply =>
    apply Destined.keep h
    · rfl
    · rfl
    · exact id
    · exact fun _ hdirect => ⟨hdirect, id⟩

theorem destined_init : Destined {} := by
  constructor
  · exact Trace.always_nil
  · exact fun hbusy => absurd rfl hbusy
  · exact fun hbusy => absurd rfl hbusy

end Steps

/-- In every run that starts no fetch with an address of an earlier one left over, a SYN goes to an
address of the host that is fetched. -/
theorem syn_resolved (hk : ((kernelMachine config).restrict (NoLeftOver config)).Reachable k) :
    Trace.Always SynResolved k.trace := by
  have hinv : Destined k := by
    apply hk.invariant
    · rintro _ rfl
      exact destined_init
    · intro k event h hallowed
      exact destined_step h hallowed.2 (kernel_step (Machine.ofChecked_step hallowed.1).2)
  exact hinv.syn

section Runs

def plainConfig : Config := ⟨false, false, 1080, 8090⟩

def plainTick (now : ℕ) : Event := .tick ⟨now, true, true, [], .ok 0, []⟩

/-- A URL, with or without the gateway in the ARP cache. -/
def urlLine (url : String) (now : ℕ) (gateway : Bool) : Event :=
  .line (ascii url) ⟨⟨now, gateway, gateway, 0⟩, none, none, none⟩

/-- A reply that gives one address for a name. -/
def addressReply (name : Bytes) (ip : Ipv4) : Bytes :=
  [0x12, 0x34, 0x81, 0x80, 0, 1, 0, 1, 0, 0, 0, 0] ++ dnsWireName name ++ [0, 1, 0, 1] ++
    [0xc0, 12, 0, 1, 0, 1, 0, 0, 0, 60, 0, 4, ip.1, ip.2, ip.3, ip.4]

def firstIp : Ipv4 := ⟨93, 184, 216, 34⟩

/-- A fetch from one host, which closes the connection, and a line that asks for another host. -/
def twoHosts (now : ℕ) (gateway : Bool) : List Event :=
  [urlLine "http://a.com/" 0 true,
    plainTick 10,
    .dnsReply (addressReply (ascii "a.com") firstIp) 20,
    plainTick 30,
    .segment ⟨firstIp, 80, 40000, 7, 0x1001, 0x12, []⟩ ⟨40, true, true⟩,
    .segment ⟨firstIp, 80, 40000, 8, 0x1001, 0x11, []⟩ ⟨50, true, true⟩,
    plainTick 60,
    .done ⟨false, [], false, ⟨60, true, true, 0⟩, true, true⟩,
    urlLine "http://b.com/" now gateway]

/-- Once the gateway answers, the SYN for the second host goes to the address of the first. -/
theorem leftover_address_reused : ¬ ∀ (config : Config) (k : Kernel),
    (kernelMachine config).Reachable k → Trace.Always SynResolved k.trace := by
  intro h
  let events := twoHosts 200000 false ++ [.arp true false, plainTick 200010]
  have hk : (kernelMachine plainConfig).Reachable ((kernelMachine plainConfig).run {} events) :=
    Machine.Reachable.run (.init rfl)
      (show (kernelMachine plainConfig).Allows {} events by decide +kernel)
  have hsyn : ((kernelMachine plainConfig).run {} events).trace =
      ((kernelMachine plainConfig).run {} (twoHosts 200000 false)).trace ++
        .sendSyn firstIp 0x1000 true :: [] := by
    decide +kernel
  have hother : ∀ s ∈ lastStart ((kernelMachine plainConfig).run {} (twoHosts 200000 false)).trace,
      (∀ slot ∈ s.1.cache.slots, slot.valid → ¬ dnsCacheNameEq slot s.1.request.domain) ∧
        s.2 = [] := by
    decide +kernel
  obtain ⟨s, after, hlast, hresolved⟩ := h plainConfig _ hk _ _ _ hsyn
  obtain ⟨hcache, rfl⟩ := hother _ hlast
  rcases hresolved with ⟨slot, hmem, hvalid, -, hname, -⟩ | ⟨reply, hmem⟩
  · exact hcache slot hmem hvalid hname
  · exact List.not_mem_nil hmem

theorem syn_resolved_twoHosts :
    let k := (kernelMachine plainConfig).run {} (twoHosts 200000 true ++ [plainTick 200010])
    (lastStart k.trace).isSome ∧ Trace.Always SynResolved k.trace := by
  intro k
  have hk : ((kernelMachine plainConfig).restrict (NoLeftOver plainConfig)).Reachable k :=
    Machine.Reachable.run (.init rfl)
      (show ((kernelMachine plainConfig).restrict (NoLeftOver plainConfig)).Allows {}
        (twoHosts 200000 true ++ [plainTick 200010]) by decide +kernel)
  have hstart : (lastStart k.trace).isSome := by
    decide +kernel
  exact ⟨hstart, syn_resolved hk⟩

end Runs

end MiniAgentOS.Fetch
