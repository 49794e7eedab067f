import MiniAgentOS.Fetch.Destination

/-! The handshake of a connection over its rounds: which SYN a SYN-ACK acknowledges. -/
namespace MiniAgentOS.Fetch
open Checked Net Http

/-- A round begins. -/
def Action.opens : Action → Option Unit
  | .start _ _ _ _ | .restart => some ()
  | _ => none

def Action.syn : Action → Option UInt32
  | .sendSyn _ seq _ => some seq
  | _ => none

/-- The sequence numbers of the SYNs of the current round. -/
def synsSent (trace : List Action) : List UInt32 :=
  (Trace.after Action.opens trace).filterMap Action.syn

/-- The connection is marked established on a segment that acknowledges a SYN of the current round, and
`FETCH_SEQ` is what it acknowledges. -/
def Acknowledged (before : List Action) : Action → Prop
  | .established seq ack => seq = ack ∧ ∃ syn ∈ synsSent before, ack = syn + 1
  | _ => True

/-- The segment is taken for the answer to a SYN. -/
def Kernel.handshakes (k : Kernel) (seg : TcpSegment) : Prop :=
  k.conn.state = .syn ∧ k.conn.accepts seg ∧ seg.flags &&& 0x12 = 0x12

instance (k : Kernel) (seg : TcpSegment) : Decidable (k.handshakes seg) :=
  inferInstanceAs (Decidable (_ ∧ _))

/-- A SYN was sent, and the segment acknowledges the number after `FETCH_SEQ`. -/
def Conn.expects (c : Conn) (seg : TcpSegment) : Prop := 0 < c.retry ∧ seg.ack = c.seq + 1

instance (c : Conn) (seg : TcpSegment) : Decidable (c.expects seg) :=
  inferInstanceAs (Decidable (_ ∧ _))

/-- Every segment that is taken for the answer to a SYN is one. -/
def AnswersSyn (k : Kernel) : Event → Prop
  | .segment seg _ => k.handshakes seg → k.conn.expects seg
  | _ => True

instance (k : Kernel) : ∀ event, Decidable (AnswersSyn k event)
  | .segment seg _ => inferInstanceAs (Decidable (k.handshakes seg → k.conn.expects seg))
  | .arp _ _ | .dnsReply _ _ | .udp _ _ _ | .line _ _ | .tick _ | .reply _ | .done _ => isTrue trivial

/-- How a connection that is being opened relates to the SYNs of its round: they carry `FETCH_SEQ`, and
`FETCH_RETRY` counts them. -/
structure Awaits (syns : List UInt32) (c : Conn) : Prop where
  arp : c.state = .arp → c.haveGw = false
  unsent : c.haveGw = false → syns = []
  dns : c.state = .dns → syns = []
  seq : c.state = .syn → ∀ syn ∈ syns, syn = c.seq
  retry : c.state = .syn → (syns ≠ [] ↔ 0 < c.retry)

variable {config : Config} {k k' : Kernel} {trace new : List Action} {syns : List UInt32} {c d : Conn}
  {request : Request} {env : TickEnv}

theorem synsSent_append (h : ∀ action ∈ new, action.opens = none) (trace : List Action) :
    synsSent (trace ++ new) = synsSent trace ++ new.filterMap Action.syn := by
  unfold synsSent
  rw [Trace.after_append h, List.filterMap_append]

theorem synsSent_opens {action : Action} (h : action.opens = some ()) (trace : List Action) :
    synsSent (trace ++ [action]) = [] := by
  unfold synsSent
  rw [Trace.after_mark trace h]
  rfl

/-- Actions that neither begin a round nor send a SYN. -/
theorem synsSent_quiet (h : ∀ action ∈ new, action.opens = none ∧ action.syn = none)
    (trace : List Action) : synsSent (trace ++ new) = synsSent trace := by
  have hnone : new.filterMap Action.syn = [] :=
    List.filterMap_eq_nil_iff.mpr fun action hmem => (h action hmem).2
  rw [synsSent_append fun action hmem => (h action hmem).1, hnone, List.append_nil]

section Awaits

/-- A connection that is not being opened. -/
theorem Awaits.leave (h : Awaits syns c) (hgw : d.haveGw = c.haveGw) (harp : d.state ≠ .arp)
    (hdns : d.state ≠ .dns) (hsyn : d.state ≠ .syn) : Awaits syns d :=
  ⟨fun hstate => absurd hstate harp, fun hnone => h.unsent (hgw ▸ hnone), fun hstate => absurd hstate hdns,
    fun hstate => absurd hstate hsyn, fun hstate => absurd hstate hsyn⟩

/-- A connection that is opened as before. -/
theorem Awaits.same (h : Awaits syns c) (hgw : d.haveGw = c.haveGw) (hstate : d.state = c.state)
    (hseq : d.state = .syn → d.seq = c.seq ∧ d.retry = c.retry) : Awaits syns d := by
  constructor
  · intro harp
    rw [hgw]
    exact h.arp (hstate ▸ harp)
  · exact fun hnone => h.unsent (hgw ▸ hnone)
  · exact fun hdns => h.dns (hstate ▸ hdns)
  · intro hsyn
    rw [(hseq hsyn).1]
    exact h.seq (hstate ▸ hsyn)
  · intro hsyn
    rw [(hseq hsyn).2]
    exact h.retry (hstate ▸ hsyn)

/-- Without a gateway no SYN was sent. -/
theorem Awaits.wait (h : Awaits syns c) (hgw : c.haveGw = false) (hd : d.haveGw = c.haveGw)
    (hstate : d.state = .arp) : Awaits syns d := by
  have hnone := h.unsent hgw
  constructor
  · exact fun _ => hd.trans hgw
  · exact fun _ => hnone
  · exact fun _ => hnone
  · exact fun hsyn => absurd (hstate.symm.trans hsyn) (by decide)
  · exact fun hsyn => absurd (hstate.symm.trans hsyn) (by decide)

/-- A connection before the first SYN of its round. -/
theorem awaits_begin (harp : c.state = .arp → c.haveGw = false) (hretry : c.state = .syn → c.retry = 0) :
    Awaits [] c := by
  constructor
  · exact harp
  · exact fun _ => rfl
  · exact fun _ => rfl
  · exact fun _ _ hmem => absurd hmem List.not_mem_nil
  · intro hsyn
    simp [hretry hsyn]

theorem awaits_restart (c : Conn) (deadlineMs : ℕ) (txInflight : Bool) :
    Awaits [] { c.restartRound with deadlineMs, txInflight } := by
  apply awaits_begin
  · intro harp
    unfold Conn.restartRound Conn.restartTransport at harp ⊢
    dsimp only at harp ⊢
    split_ifs at harp ⊢ with hproxy hfixed hgw
    simpa using hgw
  · intro _
    unfold Conn.restartRound Conn.restartTransport
    dsimp only
    split_ifs <;> rfl

theorem awaits_start (c : Conn) (config : Config) (env : StartEnv) (target : Target)
    (cached : Option Ipv4) (tcpPort : ℕ) : Awaits [] (c.start config env target cached tcpPort) := by
  apply awaits_begin
  · intro harp
    unfold Conn.start at harp ⊢
    dsimp only at harp ⊢
    unfold Conn.destination at harp
    cases cached with
    | none =>
      dsimp only at harp
      split_ifs at harp with hfixed hproxy hgw
      simpa using hgw
    | some ip =>
      dsimp only at harp
      split_ifs at harp with hfixed hgw
      simpa using hgw
  · exact fun _ => rfl

/-- What a tick in `FETCH_SYN` may come to: it leaves the state, begins a round, waits or sends one more
SYN. -/
def SynTick (c : Conn) (r : TickResult) : Prop :=
  (r.conn.state ≠ .syn ∧ r.actions = []) ∨ r.actions = [.restart] ∨
    (r.conn.state = c.state ∧ r.conn.seq = c.seq ∧
      ((r.actions = [] ∧ r.conn.retry = c.retry) ∨
        (r.actions = [.sendSyn c.dstIp c.seq c.direct] ∧ r.conn.retry = c.retry + 1)))

theorem retryRound_syn (c : Conn) (reason : Bytes) (d : Conn) : SynTick d (retryRound c reason) := by
  unfold retryRound
  split_ifs
  · exact .inr (.inl rfl)
  · exact .inl ⟨fun h => FetchState.noConfusion h, rfl⟩

theorem tickSyn_syn (c : Conn) (env : TickEnv) : SynTick c (tickSyn c env) := by
  unfold tickSyn
  split_ifs
  · exact .inr (.inr ⟨rfl, rfl, .inl ⟨rfl, rfl⟩⟩)
  · exact retryRound_syn c _ c
  · exact .inr (.inr ⟨rfl, rfl, .inr ⟨rfl, rfl⟩⟩)

theorem tickState_syn (request : Request) (env : TickEnv) (h : c.state = .syn) :
    SynTick c (tickState request c env) := by
  rw [tickState, h]
  exact tickSyn_syn c env

theorem tickConn_syn (request : Request) (env : TickEnv) (hstate : c.state = .syn) :
    SynTick c (tickConn request c env) := by
  rw [tickConn_eq]
  unfold tickOn
  split_ifs with hidle hlate hrounds hgw hbusy
  · exact .inr (.inr ⟨rfl, rfl, .inl ⟨rfl, rfl⟩⟩)
  · exact .inr (.inl rfl)
  · exact .inl ⟨fun h => FetchState.noConfusion h, rfl⟩
  · exact .inl ⟨fun h => FetchState.noConfusion h, rfl⟩
  · exact .inr (.inr ⟨rfl, rfl, .inl ⟨rfl, rfl⟩⟩)
  · have hsame : Conn.state { c with deadlineMs := c.deadlineAt env.now, txInflight := false } = .syn :=
      hstate
    exact tickState_syn request env hsame

theorem emits_opens {action : Action} (h : Emits request c action) : action.opens = none := by
  cases action with
  | start => cases h
  | restart => cases h
  | _ => rfl

/-- One tick. -/
theorem awaits_tick (h : Awaits (synsSent trace) c) (request : Request) (env : TickEnv) :
    Awaits (synsSent (trace ++ (tickConn request c env).actions)) (tickConn request c env).conn := by
  have hstep := tickConn_step request c env
  have hsyn : c.state = .syn → SynTick c (tickConn request c env) := tickConn_syn request env
  generalize tickConn request c env = r at hstep hsyn ⊢
  cases hstep with
  | restart deadlineMs txInflight due =>
    rw [synsSent_opens rfl]
    exact awaits_restart c deadlineMs txInflight
  | progress hp =>
    have hopens : ∀ action ∈ r.actions, action.opens = none :=
      fun action hmem => emits_opens (hp.actions action hmem)
    have hquiet : c.state ≠ .syn → synsSent (trace ++ r.actions) = synsSent trace := by
      intro hne
      apply synsSent_quiet
      intro action hmem
      have hemits := hp.actions action hmem
      refine ⟨hopens action hmem, ?_⟩
      cases action with
      | sendSyn ip seq direct => exact absurd hemits.1 hne
      | _ => rfl
    by_cases hstate : c.state = .syn
    · rcases hsyn hstate with ⟨hleft, hnone⟩ | hround |
        ⟨hsame, hseq, ⟨hnone, hretry⟩ | ⟨hsent, hretry⟩⟩
      · rw [hnone, List.append_nil]
        rcases hp.state with hsame | ⟨hdone, -⟩ | ⟨harp, -, hgw⟩ | ⟨-, harp, -⟩ | ⟨hnext, -⟩ | ⟨hnext, -⟩
        · exact absurd (hsame.trans hstate) hleft
        · exact h.leave hp.route.haveGw (by simp [hdone]) (by simp [hdone]) (by simp [hdone])
        · exact h.wait hgw hp.route.haveGw harp
        · exact absurd (harp.symm.trans hstate) (by decide)
        · exact h.leave hp.route.haveGw (by simp [hnext]) (by simp [hnext]) (by simp [hnext])
        · exact h.leave hp.route.haveGw (by simp [hnext]) (by simp [hnext]) (by simp [hnext])
      · have hrestart : Action.restart ∈ r.actions := by
          rw [hround]
          exact List.mem_singleton_self _
        exact absurd (hp.actions _ hrestart) id
      · rw [hnone, List.append_nil]
        exact h.same hp.route.haveGw hsame fun _ => ⟨hseq, hretry⟩
      · have hmem : Action.sendSyn c.dstIp c.seq c.direct ∈ r.actions := by
          rw [hsent]
          exact List.mem_singleton_self _
        have hgw : r.conn.haveGw = true := hp.route.haveGw.trans (hp.actions _ hmem).2.1
        have hsyns : synsSent (trace ++ r.actions) = synsSent trace ++ [c.seq] := by
          rw [synsSent_append hopens, hsent]
          rfl
        have hstill : r.conn.state = .syn := hsame.trans hstate
        rw [hsyns]
        constructor
        · simp [hstill]
        · simp [hgw]
        · simp [hstill]
        · intro _ syn hsyn
          rw [hseq]
          rcases List.mem_append.mp hsyn with hold | hnew
          · exact h.seq hstate syn hold
          · exact List.mem_singleton.mp hnew
        · simp [hretry]
    · rw [hquiet hstate]
      rcases hp.state with hsame | ⟨hdone, -⟩ | ⟨harp, -, hgw⟩ | ⟨-, harp, hgw⟩ | ⟨hnext, -⟩ | ⟨hnext, -⟩
      · exact h.same hp.route.haveGw hsame fun hsyn => absurd (hsame.symm.trans hsyn) hstate
      · exact h.leave hp.route.haveGw (by simp [hdone]) (by simp [hdone]) (by simp [hdone])
      · exact h.wait hgw hp.route.haveGw harp
      · exact absurd ((h.arp harp).symm.trans hgw) Bool.false_ne_true
      · exact h.leave hp.route.haveGw (by simp [hnext]) (by simp [hnext]) (by simp [hnext])
      · exact h.leave hp.route.haveGw (by simp [hnext]) (by simp [hnext]) (by simp [hnext])

end Awaits

theorem awaits_arp (h : Awaits syns k.conn) (gateway dns : Bool) :
    Awaits syns (k.receiveArp gateway dns).conn := by
  unfold Kernel.receiveArp
  split_ifs with harp hgateway
  · have hnone := h.unsent (h.arp harp)
    rw [hnone]
    apply awaits_begin
    · intro hstate
      rcases resumeAfterGateway_state { k.conn with haveGw := true } with hsyn | hdns
      · exact absurd (hstate.symm.trans hsyn) (by decide)
      · exact absurd (hstate.symm.trans hdns) (by decide)
    · exact fun _ => rfl
  · exact h.same rfl rfl fun _ => ⟨rfl, rfl⟩
  · exact h

/-- The handshake of the fetch, and what is known of those that were made. -/
structure Shakes (P : List Action → Action → Prop) (k : Kernel) : Prop where
  awaits : Awaits (synsSent k.trace) k.conn
  sound : Trace.Always P k.trace

def Action.isEstablished : Action → Bool
  | .established _ _ => true
  | _ => false

/-- Actions that neither begin a round, nor send a SYN, nor mark a connection established. -/
def Action.unshaken : Action → Bool
  | .start _ _ _ _ | .restart | .sendSyn _ _ _ | .established _ _ => false
  | _ => true

theorem unshaken_quiet {action : Action} (h : action.unshaken = true) :
    action.isEstablished = false ∧ action.opens = none ∧ action.syn = none := by
  cases action with
  | start => cases h
  | restart => cases h
  | sendSyn => cases h
  | established => cases h
  | _ => exact ⟨rfl, rfl, rfl⟩

theorem Told.unshaken {done : List Action} (h : Told k done) :
    ∀ action ∈ done, action.unshaken = true := by
  intro action hmem
  rcases h with rfl | ⟨-, -, rfl⟩
  · exact absurd hmem List.not_mem_nil
  · rw [List.mem_singleton.mp hmem]
    rfl

theorem synAck_away (c : Conn) (https : Bool) (seg : TcpSegment) (env : SegmentEnv) :
    (c.synAck https seg env).state ≠ .arp ∧ (c.synAck https seg env).state ≠ .dns ∧
      (c.synAck https seg env).state ≠ .syn := by
  unfold Conn.synAck Conn.configureTls
  dsimp only
  split_ifs <;> refine ⟨?_, ?_, ?_⟩ <;> exact fun h => FetchState.noConfusion h

theorem socksHelloReply_away (c : Conn) (seg : TcpSegment) :
    (c.socksHelloReply seg).state = c.state ∨ (c.socksHelloReply seg).state = .socksConnect ∨
      (c.socksHelloReply seg).state = .done := by
  unfold Conn.socksHelloReply
  dsimp only
  split
  · split_ifs
    · exact .inr (.inl rfl)
    · exact .inr (.inr rfl)
  · exact .inl rfl

theorem socksConnectReply_away (c : Conn) (https : Bool) (seg : TcpSegment) (env : SegmentEnv) :
    (c.socksConnectReply https seg env).state = c.state ∨
      (c.socksConnectReply https seg env).state = .tlsHandshake ∨
      (c.socksConnectReply https seg env).state = .http ∨
      (c.socksConnectReply https seg env).state = .done := by
  unfold Conn.socksConnectReply Conn.configureTls
  dsimp only
  split
  · split_ifs
    · exact .inr (.inl rfl)
    · exact .inr (.inr (.inr rfl))
    · exact .inr (.inr (.inl rfl))
    · exact .inr (.inr (.inr rfl))
  · exact .inl rfl

theorem synAck_numbers (c : Conn) (https : Bool) (seg : TcpSegment) (env : SegmentEnv) :
    (c.synAck https seg env).seq = c.seq + 1 ∧ (c.synAck https seg env).ack = seg.seq + 1 := by
  unfold Conn.synAck Conn.configureTls
  dsimp only
  split_ifs <;> exact ⟨rfl, rfl⟩

/-- A SYN-ACK acknowledges a SYN of the round exactly when a SYN was sent and it acknowledges the number
after `FETCH_SEQ`. -/
theorem Awaits.expects_iff (h : Awaits syns c) (hstate : c.state = .syn) (seg : TcpSegment) :
    c.expects seg ↔ ∃ syn ∈ syns, seg.ack = syn + 1 := by
  constructor
  · rintro ⟨hretry, hack⟩
    obtain ⟨syn, hsyn⟩ := List.exists_mem_of_ne_nil syns ((h.retry hstate).mpr hretry)
    refine ⟨syn, hsyn, ?_⟩
    rw [hack, h.seq hstate syn hsyn]
  · rintro ⟨syn, hsyn, hack⟩
    refine ⟨(h.retry hstate).mp (List.ne_nil_of_mem hsyn), ?_⟩
    rw [hack, h.seq hstate syn hsyn]

section Steps

-- A property that only the marking of a connection as established can fail.
variable {P : List Action → Action → Prop}
  (hP : ∀ before action, action.isEstablished = false → P before action)
include hP

/-- A step of a connection that is no longer opened, or still is as before. -/
theorem Shakes.quiet (h : Shakes P k) (htrace : k'.trace = k.trace ++ new)
    (hnew : ∀ action ∈ new, action.unshaken = true)
    (hconn : Awaits (synsSent k.trace) k.conn → Awaits (synsSent k.trace) k'.conn) : Shakes P k' := by
  constructor
  · rw [htrace, synsSent_quiet fun action hmem => (unshaken_quiet (hnew action hmem)).2]
    exact hconn h.awaits
  · rw [htrace]
    exact h.sound.append fun action hmem before =>
      hP before action (unshaken_quiet (hnew action hmem)).1

/-- A step that does nothing but change the connection. -/
theorem Shakes.keep (h : Shakes P k) (htrace : k'.trace = k.trace)
    (hconn : Awaits (synsSent k.trace) k.conn → Awaits (synsSent k.trace) k'.conn) : Shakes P k' := by
  have hnil : k'.trace = k.trace ++ [] := by
    rw [htrace, List.append_nil]
  exact h.quiet hP hnil (fun _ hmem => absurd hmem List.not_mem_nil) hconn

theorem shakes_tick {env : TickEnv} (h : Shakes P k) :
    Shakes P { k with
      conn := (tickConn k.request k.conn env).conn
      trace := k.trace ++ (tickConn k.request k.conn env).actions } := by
  constructor
  · exact awaits_tick h.awaits k.request env
  · apply h.sound.append
    intro action hmem before
    have hstep := tickConn_step k.request k.conn env
    generalize tickConn k.request k.conn env = r at hstep hmem
    apply hP
    cases hstep with
    | restart =>
      rw [List.mem_singleton.mp hmem]
      rfl
    | progress hp =>
      have hemits := hp.actions action hmem
      cases action with
      | established => cases hemits
      | _ => rfl

theorem shakes_segment {seg : TcpSegment} {env : SegmentEnv} (h : Shakes P k)
    (hanswers : k.handshakes seg → P k.trace (.established (k.conn.seq + 1) seg.ack))
    (hstep : SegmentStep k seg env k') :
    Shakes P k' := by
  cases hstep with
  | ignored => exact h
  | synAck state accepts flags =>
    obtain ⟨harp, hdns, hsyn⟩ := synAck_away k.conn k.request.https seg env
    constructor
    · rw [synsSent_quiet (by simp [Action.opens, Action.syn])]
      exact h.awaits.leave (synAck_route k.conn k.request.https seg env).haveGw harp hdns hsyn
    · exact h.sound.snoc (hanswers ⟨state, accepts, flags⟩)
  | socksHello state =>
    apply h.keep hP
    · rfl
    intro hawaits
    have hgw := (socksHelloReply_route k.conn seg).haveGw
    rcases socksHelloReply_away k.conn seg with hnext | hnext | hnext
    · exact hawaits.leave hgw (by simp [hnext, state]) (by simp [hnext, state]) (by simp [hnext, state])
    · exact hawaits.leave hgw (by simp [hnext]) (by simp [hnext]) (by simp [hnext])
    · exact hawaits.leave hgw (by simp [hnext]) (by simp [hnext]) (by simp [hnext])
  | socksConnect state =>
    apply h.keep hP
    · rfl
    intro hawaits
    have hgw := (socksConnectReply_route k.conn k.request.https seg env).haveGw
    rcases socksConnectReply_away k.conn k.request.https seg env with hnext | hnext | hnext | hnext
    · exact hawaits.leave hgw (by simp [hnext, state]) (by simp [hnext, state]) (by simp [hnext, state])
    · exact hawaits.leave hgw (by simp [hnext]) (by simp [hnext]) (by simp [hnext])
    · exact hawaits.leave hgw (by simp [hnext]) (by simp [hnext]) (by simp [hnext])
    · exact hawaits.leave hgw (by simp [hnext]) (by simp [hnext]) (by simp [hnext])
  | @http state accepts last feeds =>
    apply h.quiet hP
    · exact feeds.trace
    · simp [Action.unshaken]
    intro hawaits
    have hnext : (if seg.fin then FetchState.done else last.conn.state) = .http ∨
        (if seg.fin then FetchState.done else last.conn.state) = .done := by
      split_ifs
      · exact .inr rfl
      · rw [← state]
        exact feeds.state
    have hgw : last.conn.haveGw = k.conn.haveGw := (sameRoute_core feeds.core).haveGw
    rcases hnext with hnext | hnext
    · exact hawaits.leave hgw (by simp [hnext]) (by simp [hnext]) (by simp [hnext])
    · exact hawaits.leave hgw (by simp [hnext]) (by simp [hnext]) (by simp [hnext])

theorem shakes_dns {datagram : Bytes} {now : ℕ} (h : Shakes P k) (hstep : DnsStep k datagram now k') :
    Shakes P k' := by
  cases hstep with
  | ignored => exact h
  | resolved state answer =>
    apply h.quiet hP
    · rfl
    · simp [Action.unshaken]
    intro hawaits
    rw [hawaits.dns state]
    apply awaits_begin
    · exact fun harp => FetchState.noConfusion harp
    · exact fun _ => rfl
  | tooLarge reason =>
    apply h.keep hP
    · rfl
    exact fun hawaits => hawaits.same rfl rfl fun _ => ⟨rfl, rfl⟩

theorem shakes_read {c : Conn} {sends : List TlsSend} {start last : Kernel} {pieces : List Bytes}
    {now : ℕ} {conn : Conn} (h : Shakes P k) (route : SameRoute k.conn c) (same : c.state = .tlsRead)
    (begin : start = { k with
      conn := (tlsSendAll c sends).1
      trace := k.trace ++ (tlsSendAll c sends).2 })
    (feeds : Feeds start pieces last) (stop : ReadStop last now conn) : Shakes P { last with conn } := by
  obtain ⟨hsends, -, hsame, -⟩ := tlsSendAll_route c sends
  have hstart : start.conn.state = .tlsRead := by
    rw [begin]
    exact hsame.trans same
  have htrace : last.trace = k.trace ++ ((tlsSendAll c sends).2 ++ pieces.map .feed) := by
    rw [feeds.trace, begin, List.append_assoc]
  have hgw : conn.haveGw = k.conn.haveGw := by
    have hbegin : start.conn.haveGw = k.conn.haveGw := by
      rw [begin]
      exact hsends.haveGw.trans route.haveGw
    exact (sameRoute_core stop.core).haveGw.trans ((sameRoute_core feeds.core).haveGw.trans hbegin)
  have hnext : conn.state = .tlsRead ∨ conn.state = .done := by
    rcases stop.state with hkeep | hdone
    · rw [hkeep, ← hstart]
      exact feeds.state
    · exact .inr hdone
  apply h.quiet hP
  · exact htrace
  · intro action hmem
    rcases List.mem_append.mp hmem with hsend | hfeed
    · obtain ⟨seq, data, queued, rfl⟩ := tlsSendAll_sendData c sends action hsend
      rfl
    · obtain ⟨piece, -, rfl⟩ := List.mem_map.mp hfeed
      rfl
  · intro hawaits
    rcases hnext with hnext | hnext
    · exact hawaits.leave hgw (by simp [hnext]) (by simp [hnext]) (by simp [hnext])
    · exact hawaits.leave hgw (by simp [hnext]) (by simp [hnext]) (by simp [hnext])

theorem shakes_settled (h : Shakes P k) (hs : Settled k k') : Shakes P k' := by
  obtain ⟨done, htrace, htold⟩ := hs.trace
  have hgw := (sameRoute_transport hs.transport).haveGw
  apply h.quiet hP htrace htold.unshaken
  intro hawaits
  rcases hs.state with hsame | hidle
  · apply hawaits.same hgw hsame
    intro _
    have hseq : k'.conn.transport.seq = k.conn.transport.seq := by rw [hs.transport]
    have hretry : k'.conn.transport.retry = k.conn.transport.retry := by rw [hs.transport]
    exact ⟨hseq, hretry⟩
  · exact hawaits.leave hgw (by simp [hidle]) (by simp [hidle]) (by simp [hidle])

theorem shakes_outcome {attempt : Option (StartEnv × Target)} {command : Option Command}
    (h : Shakes P k) (hout : Outcome config attempt command k k') : Shakes P k' := by
  cases hout with
  | settled hs => exact shakes_settled hP h hs
  | @launched p owner env target reply redirectStart hl _ _ =>
    obtain ⟨done, htrace, htold⟩ := hl.trace
    have hbefore : Trace.Always P p.trace := by
      rw [htrace]
      exact h.sound.append fun action hmem before =>
        hP before action (unshaken_quiet (htold.unshaken action hmem)).1
    constructor
    · change Awaits (synsSent (p.trace ++ [_])) _
      rw [synsSent_opens rfl]
      rcases launch_conn p config owner env target reply redirectStart with
        ⟨hreuse, -⟩ | ⟨c, cached, -, hstart⟩
      · rw [hreuse]
        apply awaits_begin
        · exact fun harp => FetchState.noConfusion harp
        · exact fun hsyn => FetchState.noConfusion hsyn
      · rw [hstart]
        exact awaits_start c config env target cached _
    · exact hbefore.snoc (hP _ _ rfl)

theorem shakes_step {event : Event} (h : Shakes P k)
    (hanswers : ∀ seg env, event = .segment seg env → k.handshakes seg →
      P k.trace (.established (k.conn.seq + 1) seg.ack))
    (hstep : KernelStep config k event k') : Shakes P k' := by
  cases hstep with
  | arp gateway dns =>
    have htrace : (k.receiveArp gateway dns).trace = k.trace := by
      unfold Kernel.receiveArp
      split_ifs <;> rfl
    exact h.keep hP htrace fun hawaits => awaits_arp hawaits gateway dns
  | dns hdns => exact shakes_dns hP h hdns
  | segment hsegment => exact shakes_segment hP h (hanswers _ _ rfl) hsegment
  | outcome hout => exact shakes_outcome hP h hout
  | tick result _ _ =>
    rw [← result]
    exact shakes_tick hP h
  | read _ route same _ _ begin feeds stop _ => exact shakes_read hP h route same begin feeds stop
  | reply reply => exact ⟨h.awaits, h.sound⟩

end Steps

theorem shakes_init (P : List Action → Action → Prop) : Shakes P {} := by
  constructor
  · apply awaits_begin
    · exact fun harp => FetchState.noConfusion harp
    · exact fun hsyn => FetchState.noConfusion hsyn
  · exact Trace.always_nil

/-- In every reachable state the SYNs of the current round carry `FETCH_SEQ`. -/
theorem awaits_reachable (hk : (kernelMachine config).Reachable k) :
    Awaits (synsSent k.trace) k.conn := by
  have hinv : Shakes (fun _ _ => True) k := by
    apply hk.invariant
    · rintro _ rfl
      exact shakes_init _
    · intro k event h hallowed
      exact shakes_step (fun _ _ _ => trivial) h (fun _ _ _ _ => trivial)
        (kernel_step (Machine.ofChecked_step hallowed).2)
  exact hinv.awaits

section Runs

/-- A fetch whose first round ends after the request was sent, and the SYN of its second round. -/
def secondRound : List Event :=
  [urlLine "http://a.com/" 0 true, plainTick 10, .dnsReply (addressReply (ascii "a.com") firstIp) 20,
    plainTick 30, .segment ⟨firstIp, 80, 40000, 7, 0x1001, 0x12, []⟩ ⟨40, true, true⟩, plainTick 100,
    plainTick 200, plainTick 40000, plainTick 40010,
    .dnsReply (addressReply (ascii "a.com") firstIp) 40020, plainTick 40030]

end Runs

end MiniAgentOS.Fetch
