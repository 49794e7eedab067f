import MiniAgentOS.Fetch.Feeds
import MiniAgentOS.Fetch.Outcome
import MiniAgentOS.Lib.Trace

/-! What one step of the kernel can do. -/
namespace MiniAgentOS.Fetch
open Checked Net Http

/-- The start that a command makes. -/
def Kernel.commandAttempt (k : Kernel) (config : Config) (env : CommandEnv) (cmd : Command) :
    Option (StartEnv × Target) := if k.refuses cmd then none else cmd.attempt config env

/-- The command of an event. -/
def Event.command : Event → Option (Command × CommandEnv)
  | .udp payload _ env => (udpCommand payload).toOption.map fun cmd => (cmd, env)
  | .line text env => (uartCommand text).toOption.map fun cmd => (cmd, env)
  | _ => none

/-- The start that an event makes. -/
def Kernel.attempt (k : Kernel) (config : Config) (event : Event) : Option (StartEnv × Target) :=
  match event with
  | .done env => if k.conn.state = .done then k.doneAttempt config env else none
  | event => event.command.bind fun (cmd, env) => k.commandAttempt config env cmd

variable {config : Config} {k k' : Kernel}

theorem Settled.of_eq (h : k' = k) : Settled k k' := h ▸ Settled.refl k

theorem refused_settled (config : Config) (reply : ReplyTo) (env : CommandEnv) {cmd : Command}
    (h : k.refuses cmd = true) : Settled k (k.command config reply env cmd) := by
  have hagent : k.agent.taskActive = true ∨ k.busy = true → k.agentCommand config env = k :=
    fun hrefused => if_pos hrefused
  cases cmd with
  | agentTask => exact .of_eq (hagent (by simpa [Kernel.refuses] using h))
  | goal => exact .of_eq (hagent (by simpa [Kernel.refuses] using h))
  | post url body => cases h
  | url url =>
    have hbusy : k.busy = true := h
    unfold Kernel.command
    dsimp only
    rw [if_pos hbusy]
    refine ⟨⟨sameAim_send _ none, rfl, .inl, id, .inl rfl, rfl, rfl, [], (List.append_nil _).symm, .inl rfl⟩,
      .inl rfl, ?_, ?_, id, .inl ⟨rfl, fun _ => rfl⟩⟩
    · intro hoauth
      cases hoauth
    · intro hheader
      exact absurd rfl hheader
  | sync => exact .of_eq (command_busy config reply env .sync h rfl)
  | tlsLocal => exact .of_eq (command_busy config reply env .tlsLocal h rfl)
  | bridge => exact .of_eq (command_busy config reply env .bridge h rfl)
  | tweet text => exact .of_eq (command_busy config reply env (.tweet text) h rfl)
  | other => exact .refl k

theorem command_attempt (k : Kernel) (config : Config) (reply : ReplyTo) (env : CommandEnv)
    (cmd : Command) :
    Outcome config (k.commandAttempt config env cmd) (some cmd) k
      (k.command config reply env cmd) := by
  unfold Kernel.commandAttempt
  split_ifs with hrefused
  · exact .settled (refused_settled config reply env hrefused)
  · exact command_outcome config reply env (by simpa using hrefused)

/-- What one step of the kernel can do. -/
inductive KernelStep (config : Config) (k : Kernel) : Event → Kernel → Prop where
  | arp (gateway dns : Bool) : KernelStep config k (.arp gateway dns) (k.receiveArp gateway dns)
  | dns {datagram : Bytes} {now : ℕ} {k' : Kernel} (h : DnsStep k datagram now k') :
      KernelStep config k (.dnsReply datagram now) k'
  | segment {seg : TcpSegment} {env : SegmentEnv} {k' : Kernel} (h : SegmentStep k seg env k') :
      KernelStep config k (.segment seg env) k'
  | outcome {event : Event} {k' : Kernel}
      (h : Outcome config (k.attempt config event) (event.command.map Prod.fst) k k') :
      KernelStep config k event k'
  | tick {env : TickEnv} {r : TickResult} (result : tickConn k.request k.conn env = r)
      (h : TickStep k.request k.conn env.now r) (reads : r.reads = false) :
      KernelStep config k (.tick env) { k with conn := r.conn, trace := k.trace ++ r.actions }
  | read {env : TickEnv} {c : Conn} {start last : Kernel} {pieces : List Bytes} {conn : Conn}
      (state : k.conn.state = .tlsRead) (route : SameRoute k.conn c) (same : c.state = .tlsRead)
      (got : c.gotResp = k.conn.gotResp) (next : c.nextMs = k.conn.nextMs)
      (begin : start = { k with
        conn := (tlsSendAll c env.tlsSends).1
        trace := k.trace ++ (tlsSendAll c env.tlsSends).2 })
      (feeds : Feeds start pieces last) (stop : ReadStop last env.now conn)
      (ends : ReadEnd start env.now (readPieces tlsReadBurstMax env.reads) pieces last conn) :
      KernelStep config k (.tick env) { last with conn }
  | reply {event : Event} (reply : Reply) : KernelStep config k event { k with reply }

theorem tick_step {env : TickEnv} (h : k.tick env = .ok k') : KernelStep config k (.tick env) k' := by
  have hstep := tickConn_step k.request k.conn env
  rcases tick_eq_ok h with ⟨hreads, rfl⟩ |
    ⟨hreads, start, last, pieces, conn, hstart, hfeeds, hstop, hend, -, rfl⟩
  · exact .tick rfl hstep hreads
  · generalize tickConn k.request k.conn env = r at hstep hreads hstart
    cases hstep with
    | restart => cases hreads
    | progress hprogress =>
      obtain ⟨hstate, hsame, hgot, hnext, -⟩ := hprogress.reads hreads
      exact .read hstate hprogress.route hsame hgot hnext hstart hfeeds hstop hend

theorem toOption_eq {α : Type} {x : Checked α} {a : α} (h : x = .ok a) : x.toOption = some a := by
  rw [h]
  rfl

/-- An event that carries a command. -/
theorem command_step {event : Event} {env : CommandEnv} {cmd : Command} (reply : ReplyTo)
    (hattempt : k.attempt config event = event.command.bind fun (cmd, env) =>
      k.commandAttempt config env cmd)
    (hcommand : event.command = some (cmd, env)) :
    KernelStep config k event (k.command config reply env cmd) := by
  apply KernelStep.outcome
  rw [hattempt, hcommand]
  exact command_attempt k config reply env cmd

theorem kernel_step {event : Event} (h : k.step config event = .ok k') :
    KernelStep config k event k' := by
  cases event with
  | arp gateway dns =>
    cases h
    exact .arp gateway dns
  | dnsReply datagram now => exact .dns (receiveDns_step h)
  | segment seg env => exact .segment (receiveSegment_step h)
  | udp payload reply env =>
    change (udpCommand payload >>= _) = _ at h
    cases hcmd : udpCommand payload with
    | error trap =>
      rw [hcmd] at h
      cases h
    | ok cmd =>
      rw [hcmd] at h
      cases h
      apply command_step reply rfl
      simp [Event.command, toOption_eq hcmd]
  | line line env =>
    change (uartCommand line >>= _) = _ at h
    cases hcmd : uartCommand line with
    | error trap =>
      rw [hcmd] at h
      cases h
    | ok cmd =>
      rw [hcmd] at h
      cases h
      apply command_step noReply rfl
      simp [Event.command, toOption_eq hcmd]
  | tick env => exact tick_step h
  | reply sent =>
    cases h
    unfold Kernel.sendReply
    split_ifs
    · exact .reply _
    · exact .reply k.reply
  | done env =>
    cases h
    apply KernelStep.outcome
    unfold Kernel.attempt
    dsimp only
    split_ifs with hdone
    · exact finishFetch_outcome hdone config env
    · exact .settled (Settled.refl k)

section Continues

/-- Actions within one fetch. -/
def Action.within : Action → Bool
  | .start _ _ _ _ | .agentDone _ => false
  | _ => true

/-- The fetch goes on, if there is one. -/
structure Continues (k k' : Kernel) : Prop where
  request : k'.request = k.request
  taskActive : k'.agent.taskActive = k.agent.taskActive
  phase : k'.agent.phase = k.agent.phase
  idle : k'.conn.state = .idle ↔ k.conn.state = .idle
  trace : ∃ new, k'.trace = k.trace ++ new ∧ ∀ action ∈ new, action.within = true

/-- A step that does nothing but change the connection. -/
theorem continues_conn (k : Kernel) {conn : Conn} (hidle : conn.state = .idle ↔ k.conn.state = .idle) :
    Continues k { k with conn } :=
  ⟨rfl, rfl, rfl, hidle, [], (List.append_nil _).symm, fun _ h => absurd h List.not_mem_nil⟩

theorem Continues.trans {last : Kernel} (h : Continues k k') (h' : Continues k' last) :
    Continues k last := by
  obtain ⟨new, htrace, hnew⟩ := h.trace
  obtain ⟨more, htrace', hmore⟩ := h'.trace
  refine ⟨h'.request.trans h.request, h'.taskActive.trans h.taskActive, h'.phase.trans h.phase,
    h'.idle.trans h.idle, new ++ more, ?_, ?_⟩
  · rw [htrace', htrace, List.append_assoc]
  · intro action hmem
    exact (List.mem_append.mp hmem).elim (hnew action) (hmore action)

theorem Feeds.continues {pieces : List Bytes} (h : Feeds k pieces k') (hbusy : k.conn.state ≠ .idle)
    {conn : Conn} (hconn : conn.state = k'.conn.state ∨ conn.state = .done) :
    Continues k { k' with conn } := by
  have hstate : conn.state ≠ .idle := by
    rcases hconn with hsame | hdone
    · rw [hsame]
      rcases h.state with hkept | hdone
      · rw [hkept]
        exact hbusy
      · simp [hdone]
    · simp [hdone]
  refine ⟨h.request, h.taskActive, h.phase, by simp [hstate, hbusy], _, h.trace, ?_⟩
  intro action hmem
  obtain ⟨piece, -, rfl⟩ := List.mem_map.mp hmem
  rfl

theorem Emits.within {request : Request} {c : Conn} {action : Action} (h : Emits request c action) :
    action.within = true := by
  cases action with
  | start => cases h
  | agentDone => cases h
  | _ => rfl

theorem continues_segment {seg : TcpSegment} {env : SegmentEnv} (h : SegmentStep k seg env k') :
    Continues k k' := by
  cases h with
  | ignored => exact continues_conn k Iff.rfl
  | synAck state =>
    refine ⟨rfl, rfl, rfl, ?_, _, rfl, ?_⟩
    · unfold Conn.synAck Conn.configureTls
      dsimp only
      split_ifs <;> simp [state, Conn.finish]
    · simp [Action.within]
  | socksHello state =>
    apply continues_conn
    unfold Conn.socksHelloReply
    dsimp only
    split
    · split_ifs <;> simp [state, Conn.finish]
    · exact Iff.rfl
  | socksConnect state =>
    apply continues_conn
    unfold Conn.socksConnectReply Conn.configureTls
    dsimp only
    split
    · split_ifs <;> simp [state, Conn.finish]
    · exact Iff.rfl
  | http state _ feeds =>
    apply feeds.continues (by simp [state])
    dsimp only
    split_ifs
    · exact .inr rfl
    · exact .inl rfl

theorem continues_tick {now : ℕ} {r : TickResult} (h : TickStep k.request k.conn now r) :
    Continues k { k with conn := r.conn, trace := k.trace ++ r.actions } := by
  cases h with
  | restart deadlineMs txInflight due =>
    refine ⟨rfl, rfl, rfl, ?_, _, rfl, ?_⟩
    · simp [restartRound_state, due.1]
    · simp [Action.within]
  | progress hp =>
    exact ⟨rfl, rfl, rfl, hp.state.idle, _, rfl, fun action hmem => (hp.actions action hmem).within⟩

/-- A tick that reads over TLS. -/
theorem continues_read {c conn : Conn} {sends : List TlsSend} {start last : Kernel}
    {pieces : List Bytes} (state : k.conn.state = .tlsRead) (same : c.state = .tlsRead)
    (begin : start = { k with
      conn := (tlsSendAll c sends).1
      trace := k.trace ++ (tlsSendAll c sends).2 })
    (feeds : Feeds start pieces last) (hconn : conn.state = last.conn.state ∨ conn.state = .done) :
    Continues k { last with conn } := by
  obtain ⟨-, -, hsame, -⟩ := tlsSendAll_route c sends
  have hstart : Continues k start := by
    rw [begin]
    refine ⟨rfl, rfl, rfl, by simp [hsame, same, state], _, rfl, ?_⟩
    intro action hmem
    obtain ⟨seq, data, queued, rfl⟩ := tlsSendAll_sendData c sends action hmem
    rfl
  have hbusy : start.conn.state ≠ .idle := by
    rw [Ne, hstart.idle, state]
    decide
  exact hstart.trans (feeds.continues hbusy hconn)

theorem tick_continues {env : TickEnv} (h : k.tick env = .ok k') : Continues k k' := by
  have hstep := tickConn_step k.request k.conn env
  rcases tick_eq_ok h with ⟨-, rfl⟩ |
    ⟨hreads, start, last, pieces, conn, hstart, hfeeds, hstop, -, -, rfl⟩
  · exact continues_tick hstep
  · generalize tickConn k.request k.conn env = r at hstep hreads hstart
    cases hstep with
    | restart => cases hreads
    | progress hprogress =>
      obtain ⟨hstate, hsame, -⟩ := hprogress.reads hreads
      exact continues_read hstate hsame hstart hfeeds hstop.state

/-- An ARP packet changes the connection only, which then may go on. -/
theorem receiveArp_eq (k : Kernel) (gateway dns : Bool) : ∃ conn : Conn,
    k.receiveArp gateway dns = { k with conn } ∧ conn.gotResp = k.conn.gotResp ∧
      (conn.state = k.conn.state ∨ (k.conn.state = .arp ∧ (conn.state = .syn ∨ conn.state = .dns))) := by
  unfold Kernel.receiveArp
  split_ifs with harp
  · exact ⟨_, rfl, rfl, .inr ⟨harp, resumeAfterGateway_state { k.conn with haveGw := true }⟩⟩
  · exact ⟨_, rfl, rfl, .inl rfl⟩
  · exact ⟨k.conn, rfl, rfl, .inl rfl⟩

theorem receiveArp_continues (k : Kernel) (gateway dns : Bool) :
    Continues k (k.receiveArp gateway dns) := by
  obtain ⟨conn, heq, -, hstate⟩ := receiveArp_eq k gateway dns
  rw [heq]
  apply continues_conn
  rcases hstate with hsame | ⟨harp, hnext | hnext⟩
  · rw [hsame]
  · simp [harp, hnext]
  · simp [harp, hnext]

/-- A step goes on with the fetch, or it is the outcome of a command or of the end of a fetch. -/
theorem KernelStep.continues {event : Event} (h : KernelStep config k event k') : Continues k k' ∨
    Outcome config (k.attempt config event) (event.command.map Prod.fst) k k' := by
  cases h with
  | arp gateway dns =>
    exact .inl (receiveArp_continues k gateway dns)
  | dns hdns =>
    left
    cases hdns with
    | ignored => exact continues_conn k Iff.rfl
    | resolved state => exact ⟨rfl, rfl, rfl, by simp [state], _, rfl, by simp [Action.within]⟩
    | tooLarge => exact continues_conn k Iff.rfl
  | segment hsegment => exact .inl (continues_segment hsegment)
  | outcome hout => exact .inr hout
  | tick _ hstep _ => exact .inl (continues_tick hstep)
  | read state _ same _ _ begin feeds stop _ => exact .inl (continues_read state same begin feeds stop.state)
  | reply =>
    exact .inl ⟨rfl, rfl, rfl, Iff.rfl, [], (List.append_nil _).symm, fun _ h => absurd h List.not_mem_nil⟩

end Continues

section LastStart

/-- What the start of a fetch shows. -/
structure Started where
  owner : Owner
  request : Request
  cache : DnsCache
  now : ℕ

def Action.started : Action → Option Started
  | .start owner request cache now => some ⟨owner, request, cache, now⟩
  | _ => none

/-- The last start, and what was done after it. -/
def lastStart (trace : List Action) : Option (Started × List Action) :=
  Trace.since Action.started trace

theorem lastStart_append {trace new : List Action} {s : Started} {after : List Action}
    (h : ∀ action ∈ new, action.started = none) (hlast : lastStart trace = some (s, after)) :
    lastStart (trace ++ new) = some (s, after ++ new) := by
  unfold lastStart at hlast ⊢
  rw [Trace.since_append h, hlast]
  rfl

theorem started_within {action : Action} (h : action.within = true) : action.started = none := by
  cases action with
  | start => cases h
  | _ => rfl

theorem Told.started {done : List Action} (h : Told k done) : ∀ action ∈ done, action.started = none := by
  intro action hmem
  rcases h with rfl | ⟨-, -, rfl⟩
  · exact absurd hmem List.not_mem_nil
  · rw [List.mem_singleton.mp hmem]
    rfl

/-- After a launch its start is the last one. -/
theorem lastStart_launch (p : Kernel) (config : Config) (owner : Owner) (env : StartEnv)
    (target : Target) (reply : ReplyTo) (redirectStart : Bool) :
    lastStart (p.launch config owner env target reply redirectStart).trace =
      some (⟨owner, p.request.aim target, p.dnsCache, env.now⟩, []) := Trace.since_mark _ rfl

theorem destination_busy (c : Conn) (cached : Option Ipv4) : (c.destination cached).2 ≠ .idle := by
  unfold Conn.destination
  cases cached with
  | none => split_ifs <;> simp
  | some ip => split_ifs <;> simp

/-- A launch goes on over the connection that is open, or it opens a new one. -/
theorem launch_conn (p : Kernel) (config : Config) (owner : Owner) (env : StartEnv)
    (target : Target) (reply : ReplyTo) (redirectStart : Bool) :
    ((p.launch config owner env target reply redirectStart).conn = p.conn.reuse config ∧
        reuseCandidate config target p = true) ∨
      ∃ (c : Conn) (cached : Option Ipv4), c.transport = p.conn.transport ∧
        (p.launch config owner env target reply redirectStart).conn =
          c.start config env target cached p.nextTcpPort := by
  unfold Kernel.launch
  dsimp only
  cases hreuse : useProxy config target && reuseCandidate config target p with
  | true =>
    left
    rw [if_pos rfl, if_neg (by simp)]
    exact ⟨rfl, (Bool.and_eq_true_iff.mp hreuse).2⟩
  | false =>
    right
    rw [if_neg Bool.false_ne_true]
    by_cases hclose : (!false && p.conn.openaiReusable) = true
    · rw [if_pos hclose]
      exact ⟨_, _, rfl, rfl⟩
    · rw [if_neg hclose]
      exact ⟨_, _, rfl, rfl⟩

theorem launch_busy (p : Kernel) (config : Config) (owner : Owner) (env : StartEnv)
    (target : Target) (reply : ReplyTo) (redirectStart : Bool) :
    (p.launch config owner env target reply redirectStart).conn.state ≠ .idle := by
  rcases launch_conn p config owner env target reply redirectStart with
    ⟨hreuse, -⟩ | ⟨c, cached, -, hstart⟩
  · rw [hreuse]
    exact fun h => FetchState.noConfusion h
  · rw [hstart]
    exact destination_busy _ _

end LastStart

end MiniAgentOS.Fetch
