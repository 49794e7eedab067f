import MiniAgentOS.Fetch.KernelSteps
import MiniAgentOS.Lib.Logged
import Mathlib.Data.Prod.Lex

/-! How much a fetch sends before it fails: packets of each kind in a round, and rounds in a fetch. -/
namespace MiniAgentOS.Fetch
open Checked Net Http

/-- What the state of the connection was when an action was done. -/
abbrev Stamped := FetchState × Action

/-- What a step does, stamped with the state that it began in. -/
def Kernel.shown (k k' : Kernel) : List Stamped :=
  (k'.trace.drop k.trace.length).map fun action => (k.conn.state, action)

/-- The kernel with a log of what it did in which state. -/
def pacedMachine (config : Config) : Machine (Kernel × List Stamped) Event :=
  (kernelMachine config).logged Kernel.shown

instance (config : Config) (s : Kernel × List Stamped) (event : Event) :
    Decidable ((pacedMachine config).allowed s event) :=
  inferInstanceAs (Decidable ((kernelMachine config).allowed s.1 event))

/-- The packets that are sent again until they are answered. -/
inductive PacketKind where
  | arp
  | dnsQuery
  | syn
  | socksHello
  | socksConnect
  deriving DecidableEq, Repr

/-- A message to the proxy is known by the state in which it is sent. -/
def PacketKind.sent : PacketKind → Stamped → Bool
  | .arp, (_, .sendArp) => true
  | .dnsQuery, (_, .sendDnsQuery _) => true
  | .syn, (_, .sendSyn _ _ _) => true
  | .socksHello, (.socksHello, .sendData _ _ _) => true
  | .socksConnect, (.socksConnect, .sendData _ _ _) => true
  | _, _ => false

def Stamped.restarts (a : Stamped) : Bool := a.2 = .restart

/-- A fetch begins. -/
def Stamped.starts (a : Stamped) : Option Unit := a.2.started.map fun _ => ()

/-- A round of a fetch begins. -/
def Stamped.rounds (a : Stamped) : Option Unit := if a.restarts then some () else a.starts

/-- The packets of a kind in the last round. -/
def sentInRound (kind : PacketKind) (log : List Stamped) : ℕ := (Trace.after Stamped.rounds log).countP kind.sent

/-- The rounds of the last fetch after its first one. -/
def restartsOf (log : List Stamped) : ℕ := (Trace.after Stamped.starts log).countP Stamped.restarts

/-- The rounds and the retries that are left, the rounds first. -/
def Conn.left (c : Conn) : ℕ ×ₗ ℕ := toLex (fetchMaxRounds - c.rounds, fetchMaxRetry - c.retry)

/-- A fetch within its bounds. -/
structure InBounds (k : Kernel) (log : List Stamped) : Prop where
  rounds : k.conn.rounds ≤ fetchMaxRounds
  restarts : restartsOf log ≤ fetchMaxRounds
  sent : ∀ kind, sentInRound kind log ≤ fetchMaxRetry

section Quota

/-- How far a fetch has got with its connection. -/
def FetchState.stage : FetchState → ℕ
  | .arp => 0
  | .dns => 1
  | .syn => 2
  | .socksHello => 3
  | .socksConnect => 4
  | _ => 5

def PacketKind.stage : PacketKind → ℕ
  | .arp => 0
  | .dnsQuery => 1
  | .syn => 2
  | .socksHello => 3
  | .socksConnect => 4

/-- How many packets of a kind a round may have sent. Without the gateway none but those for it. -/
def Conn.quota (c : Conn) (kind : PacketKind) : ℕ :=
  if c.haveGw then
    if c.state.stage < kind.stage then 0
    else if c.state.stage = kind.stage then min c.retry fetchMaxRetry
    else fetchMaxRetry
  else if kind = .arp ∧ (c.state = .arp ∨ c.state = .done ∨ c.state = .idle) then min c.retry fetchMaxRetry
  else 0

theorem quota_le (c : Conn) (kind : PacketKind) : c.quota kind ≤ fetchMaxRetry := by
  unfold Conn.quota
  split_ifs <;> omega

variable {c d : Conn} {kind : PacketKind}

/-- The quota depends on the gateway, the state and the retries only. -/
theorem quota_congr (hgw : d.haveGw = c.haveGw) (hstate : d.state = c.state) (hretry : d.retry = c.retry) :
    d.quota kind = c.quota kind := by
  unfold Conn.quota
  rw [hgw, hstate, hretry]

/-- The end of a fetch takes no quota away. -/
theorem quota_ended (hgw : d.haveGw = c.haveGw) (hstate : d.state = .done ∨ d.state = .idle)
    (hretry : d.retry = c.retry) : c.quota kind ≤ d.quota kind := by
  have hstage : d.state.stage = 5 := by
    rcases hstate with h | h <;> rw [h] <;> rfl
  cases hc : c.haveGw with
  | true =>
    have hd : d.quota kind = fetchMaxRetry := by
      unfold Conn.quota
      rw [hgw, hc, hstage]
      cases kind <;> rfl
    rw [hd]
    exact quota_le c kind
  | false =>
    unfold Conn.quota
    rw [hgw, hc, hretry]
    simp only [Bool.false_eq_true, if_false]
    split_ifs with hbefore hafter
    · exact le_refl _
    · exact absurd ⟨hbefore.1, Or.inr hstate⟩ hafter
    · exact Nat.zero_le _
    · exact le_refl _

/-- With a gateway, the states behind the packets have the whole quota. -/
theorem quota_flow (hgw : d.haveGw = true) (hstage : d.state.stage = 5) : d.quota kind = fetchMaxRetry := by
  unfold Conn.quota
  rw [hgw, hstage]
  cases kind <;> rfl

/-- Without a gateway there is none before the packets for it. -/
theorem quota_blind (hgw : c.haveGw = false) (hstate : c.state ≠ .arp ∧ c.state ≠ .done ∧ c.state ≠ .idle) :
    c.quota kind = 0 := by
  unfold Conn.quota
  simp [hgw, hstate]

/-- Without a gateway the fetch may go back for it. -/
theorem quota_blind_arp (hgw : c.haveGw = false) : c.quota kind ≤ Conn.quota { c with state := .arp } kind := by
  unfold Conn.quota
  rw [hgw]
  simp only [Bool.false_eq_true, if_false]
  split_ifs with hbefore hafter
  · exact le_refl _
  · exact absurd ⟨hbefore.1, Or.inl trivial⟩ hafter
  · exact Nat.zero_le _
  · exact le_refl _

theorem quota_ahead (h : c.state.stage < kind.stage) : c.quota kind = 0 := by
  unfold Conn.quota
  rw [if_pos h]
  split_ifs with hgw harp
  · rfl
  · rw [harp.1] at h
    exact absurd h (Nat.not_lt_zero _)
  · rfl

/-- A stage that is over has its whole quota, and a later one begins with none. -/
theorem quota_next (hgw : d.haveGw = true) (hstage : c.state.stage < d.state.stage) :
    c.quota kind ≤ d.quota kind := by
  by_cases hkind : c.state.stage < kind.stage
  · rw [quota_ahead hkind]
    exact Nat.zero_le _
  · have hd : d.quota kind = fetchMaxRetry := by
      unfold Conn.quota
      rw [hgw, if_pos rfl, if_neg (by omega), if_neg (by omega)]
    rw [hd]
    exact quota_le c kind

/-- So it is behind the search for the gateway, with or without one. -/
theorem quota_advance (hgw : d.haveGw = c.haveGw)
    (hstate : c.state ≠ .arp ∧ c.state ≠ .done ∧ c.state ≠ .idle) (hstage : c.state.stage < d.state.stage) : c.quota kind ≤ d.quota kind := by
  cases hc : c.haveGw with
  | true => exact quota_next (hgw.trans hc) hstage
  | false =>
    rw [quota_blind hc hstate]
    exact Nat.zero_le _

/-- A packet that is sent in its state comes out of the quota that the retry adds. -/
theorem quota_sent {own : PacketKind} (hgw : d.haveGw = c.haveGw) (hstate : d.state = c.state)
    (hretry : d.retry = c.retry + 1) (hleft : c.retry < fetchMaxRetry) (hready : c.haveGw = true ∨ c.state = .arp)
    (hstage : c.state.stage = own.stage) : c.quota kind + (if kind = own then 1 else 0) ≤ d.quota kind := by
  have hkind : kind = own ↔ c.state.stage = kind.stage := by
    rw [hstage]
    cases kind <;> cases own <;> simp [PacketKind.stage]
  simp only [hkind]
  unfold Conn.quota
  rw [hgw, hstate, hretry]
  cases hc : c.haveGw with
  | true =>
    simp only [if_true]
    split_ifs <;> omega
  | false =>
    have harp : c.state = .arp := by simpa [hc] using hready
    have hzero : kind = .arp ↔ 0 = kind.stage := by cases kind <;> simp [PacketKind.stage]
    simp only [Bool.false_eq_true, if_false, harp, FetchState.stage, hzero]
    split_ifs <;> simp at * <;> omega

end Quota

section Ticks

/-- What a tick sends is in the quota that it leaves. -/
def Paced (c : Conn) (r : TickResult) : Prop :=
  ∀ kind : PacketKind, c.quota kind + (r.actions.map fun action => (c.state, action)).countP kind.sent ≤
    r.conn.quota kind

variable {request : Request} {c d : Conn} {env : TickEnv} {actions : List Action}

theorem paced_stay (h : ∀ kind : PacketKind, c.quota kind ≤ d.quota kind) : Paced c (stay d) := fun kind => h kind

theorem paced_sent (own : PacketKind) {action : Action} (hgw : d.haveGw = c.haveGw) (hstate : d.state = c.state)
    (hretry : d.retry = c.retry + 1) (hleft : c.retry < fetchMaxRetry) (hready : c.haveGw = true ∨ c.state = .arp)
    (hstage : c.state.stage = own.stage)
    (haction : ∀ kind : PacketKind, kind.sent (c.state, action) = decide (kind = own)) :
    Paced c ⟨d, [action], false⟩ := by
  intro kind
  have hcount : ([action].map fun action => (c.state, action)).countP kind.sent = if kind = own then 1 else 0 := by
    simp [List.countP_cons, haction]
  rw [hcount]
  exact quota_sent hgw hstate hretry hleft hready hstage

theorem retryRound_paced (reason : Bytes) (h : (retryRound c reason).actions ≠ [.restart]) :
    Paced c (retryRound c reason) := by
  unfold retryRound at h ⊢
  split_ifs at h ⊢
  · exact absurd rfl h
  · apply paced_stay
    intro kind
    have hroute := sameRoute_failIfEmpty c reason
    apply quota_ended
    · exact hroute.haveGw
    · exact Or.inl rfl
    · unfold Conn.failIfEmpty
      split_ifs <;> rfl

theorem tickArp_paced (hstate : c.state = .arp) (h : (tickArp c env).actions ≠ [.restart]) :
    Paced c (tickArp c env) := by
  unfold tickArp at h ⊢
  split_ifs at h ⊢ with hgw hearly hretry
  · apply paced_stay
    intro kind
    apply quota_next
    · exact hgw
    · rw [hstate]
      rcases resumeAfterGateway_state c with hnext | hnext <;> rw [hnext] <;> decide
  · exact paced_stay fun kind => le_refl _
  · exact retryRound_paced _ h
  · apply paced_sent .arp
    · rfl
    · rfl
    · rfl
    · exact Nat.lt_of_not_le hretry
    · exact Or.inr hstate
    · rw [hstate]
      rfl
    · intro kind
      rw [hstate]
      cases kind <;> rfl

theorem tickDns_paced (hstate : c.state = .dns) (hgw : c.haveGw = true)
    (h : (tickDns request.domain c env).actions ≠ [.restart]) : Paced c (tickDns request.domain c env) := by
  unfold tickDns at h ⊢
  dsimp only at h ⊢
  split_ifs at h ⊢ with hearly hretry hdns hquery
  · exact paced_stay fun kind => le_refl _
  · exact retryRound_paced _ h
  · simp [hgw] at hdns
  · exact paced_stay fun kind => quota_ended rfl (Or.inl rfl) rfl
  · apply paced_sent .dnsQuery
    · rfl
    · rfl
    · rfl
    · exact Nat.lt_of_not_le hretry
    · exact Or.inl hgw
    · rw [hstate]
      rfl
    · intro kind
      rw [hstate]
      cases kind <;> rfl

theorem tickSyn_paced (hstate : c.state = .syn) (hgw : c.haveGw = true) (h : (tickSyn c env).actions ≠ [.restart]) :
    Paced c (tickSyn c env) := by
  unfold tickSyn at h ⊢
  split_ifs at h ⊢ with hearly hretry
  · exact paced_stay fun kind => le_refl _
  · exact retryRound_paced _ h
  · apply paced_sent .syn
    · rfl
    · rfl
    · rfl
    · exact Nat.lt_of_not_le hretry
    · exact Or.inl hgw
    · rw [hstate]
      rfl
    · intro kind
      rw [hstate]
      cases kind <;> rfl

theorem sendSocks_paced (own : PacketKind) {message : Bytes} (hgw : c.haveGw = true)
    (hleft : c.retry < fetchMaxRetry) (hstage : c.state.stage = own.stage)
    (haction : ∀ kind : PacketKind, ∀ queued,
      kind.sent (c.state, .sendData c.seq message queued) = decide (kind = own)) :
    Paced c (sendSocks c env message) := by
  apply paced_sent own
  · rfl
  · rfl
  · rfl
  · exact hleft
  · exact Or.inl hgw
  · exact hstage
  · exact fun kind => haction kind env.queued

theorem paced_timeout (reason : Bytes) : Paced c (stay (c.failIfEmpty reason).finish) := by
  apply paced_stay
  intro kind
  apply quota_ended
  · exact (sameRoute_failIfEmpty c reason).haveGw
  · exact Or.inl rfl
  · unfold Conn.failIfEmpty
    split_ifs <;> rfl

theorem tickSocksHello_paced (hstate : c.state = .socksHello) (hgw : c.haveGw = true) :
    Paced c (tickSocksHello c env) := by
  unfold tickSocksHello
  split_ifs with hearly hretry
  · exact paced_stay fun kind => le_refl _
  · exact paced_timeout _
  · apply sendSocks_paced .socksHello hgw (Nat.lt_of_not_le hretry)
    · rw [hstate]
      rfl
    · intro kind queued
      rw [hstate]
      cases kind <;> rfl

theorem tickSocksConnect_paced (hstate : c.state = .socksConnect) (hgw : c.haveGw = true) :
    Paced c (tickSocksConnect request c env) := by
  unfold tickSocksConnect
  split_ifs with hearly hretry hlong
  · exact paced_stay fun kind => le_refl _
  · exact paced_timeout _
  · exact paced_stay fun kind => quota_ended rfl (Or.inl rfl) rfl
  · apply sendSocks_paced .socksConnect hgw (Nat.lt_of_not_le hretry)
    · rw [hstate]
      rfl
    · intro kind queued
      rw [hstate]
      cases kind <;> rfl

/-- What is built, sent and read once the connection is set up. -/
def Action.carries : Action → Bool
  | .buildRequest _ | .sendData _ _ _ | .feed _ => true
  | _ => false

theorem carries_unsent {state : FetchState} (hstage : state.stage = 5) (h : ∀ action ∈ actions, action.carries)
    (kind : PacketKind) : (actions.map fun action => (state, action)).countP kind.sent = 0 := by
  rw [List.countP_eq_zero]
  intro a ha
  obtain ⟨action, hmem, rfl⟩ := List.mem_map.mp ha
  have hcarries := h action hmem
  intro hsent
  unfold PacketKind.sent at hsent
  split at hsent
  iterate 3
    · rename_i heq
      obtain ⟨-, rfl⟩ := Prod.mk.inj heq
      cases hcarries
  iterate 2
    · rename_i heq
      obtain ⟨rfl, -⟩ := Prod.mk.inj heq
      cases hstage
  · cases hsent

theorem sendPiece_carries : ∀ action ∈ (sendPiece c env).actions, action.carries := by
  unfold sendPiece
  dsimp only
  split_ifs <;> simp [stay, Action.carries]

theorem tickHttp_carries : ∀ action ∈ (tickHttp request c env).actions, action.carries := by
  unfold tickHttp
  split_ifs
  · simp [stay]
  · simp [stay]
  · unfold sendRequest
    dsimp only
    split_ifs
    · simp [Action.carries]
    · intro action haction
      rcases List.mem_cons.mp haction with rfl | hmem
      · rfl
      · exact sendPiece_carries action hmem
    · exact sendPiece_carries
  · simp [stay]
  · simp [stay]

theorem tlsSendAll_carries (sends : List TlsSend) : ∀ action ∈ (tlsSendAll c sends).2, action.carries := by
  intro action haction
  obtain ⟨seq, data, queued, rfl⟩ := tlsSendAll_sendData c sends action haction
  rfl

theorem tickTlsHandshake_carries : ∀ action ∈ (tickTlsHandshake c env).actions, action.carries := by
  unfold tickTlsHandshake
  dsimp only
  split <;> exact tlsSendAll_carries env.tlsSends

theorem writeRequest_carries : ∀ action ∈ (writeRequest c env).actions, action.carries := by
  unfold writeRequest
  dsimp only
  split_ifs
  · simp [stay]
  · split <;> exact tlsSendAll_carries env.tlsSends

theorem tickTlsHttp_carries : ∀ action ∈ (tickTlsHttp request c env).actions, action.carries := by
  unfold tickTlsHttp
  dsimp only
  split_ifs
  · simp [Action.carries]
  · intro action haction
    rcases List.mem_cons.mp haction with rfl | hmem
    · rfl
    · exact writeRequest_carries action hmem
  · exact writeRequest_carries

/-- Behind the handshakes all of the quota is there. -/
theorem paced_flow {r : TickResult} (hgw : r.conn.haveGw = true) (hc : c.state.stage = 5)
    (hstage : r.conn.state.stage = 5) (h : ∀ action ∈ r.actions, action.carries) : Paced c r := by
  intro kind
  rw [carries_unsent hc h kind, quota_flow hgw hstage]
  exact quota_le c kind

/-- A tick that goes on keeps a connection that is set up in the states behind. -/
theorem Progress.flow {now : ℕ} {r : TickResult} (h : Progress request c now r) (hgw : c.haveGw = true)
    (hstage : c.state.stage = 5) : r.conn.haveGw = true ∧ r.conn.state.stage = 5 := by
  refine ⟨h.route.haveGw.trans hgw, ?_⟩
  rcases h.state with hsame | ⟨hdone, -⟩ | ⟨-, -, hno⟩ | ⟨-, harp, -⟩ | ⟨hnext, -⟩ | ⟨hnext, -⟩
  · rw [hsame, hstage]
  · rw [hdone]
    rfl
  · rw [hgw] at hno
    cases hno
  · rw [harp] at hstage
    cases hstage
  · rw [hnext]
    rfl
  · rw [hnext]
    rfl

theorem TickStep.progress_of {now : ℕ} {r : TickResult} (h : TickStep request c now r)
    (hne : r.actions ≠ [.restart]) : Progress request c now r := by
  cases h with
  | restart deadlineMs txInflight due => exact absurd rfl hne
  | progress h => exact h

theorem carries_not_restart (h : ∀ action ∈ actions, action.carries) : actions ≠ [.restart] := by
  rintro rfl
  cases h .restart (List.mem_singleton.mpr rfl)

/-- A tick behind the handshakes. -/
theorem paced_of_carries {r : TickResult} (hgw : c.haveGw = true) (hstage : c.state.stage = 5)
    (hstep : TickStep request c env.now r) (h : ∀ action ∈ r.actions, action.carries) : Paced c r := by
  obtain ⟨hnext, hbehind⟩ := (hstep.progress_of (carries_not_restart h)).flow hgw hstage
  exact paced_flow hnext hstage hbehind h

theorem tickState_paced (hgw : c.state ≠ .arp → c.haveGw = true)
    (h : (tickState request c env).actions ≠ [.restart]) : Paced c (tickState request c env) := by
  unfold tickState at h ⊢
  split at h
  · rename_i hstate
    exact tickArp_paced hstate h
  · rename_i hstate
    exact tickDns_paced hstate (hgw (by simp [hstate])) h
  · rename_i hstate
    exact tickSyn_paced hstate (hgw (by simp [hstate])) h
  · rename_i hstate
    exact tickSocksHello_paced hstate (hgw (by simp [hstate]))
  · rename_i hstate
    exact tickSocksConnect_paced hstate (hgw (by simp [hstate]))
  · rename_i hstate
    exact paced_of_carries (hgw (by simp [hstate])) (by rw [hstate]; rfl) (tickHttp_step hstate) tickHttp_carries
  · rename_i hstate
    have hstep : TickStep request c env.now (tickTlsHandshake c env) := tickTlsHandshake_step hstate
    exact paced_of_carries (hgw (by simp [hstate])) (by rw [hstate]; rfl) hstep tickTlsHandshake_carries
  · rename_i hstate
    exact paced_of_carries (hgw (by simp [hstate])) (by rw [hstate]; rfl) (tickTlsHttp_step hstate)
      tickTlsHttp_carries
  · exact fun kind => le_refl _
  · exact fun kind => le_refl _
  · exact fun kind => le_refl _

/-- What one tick sends, if it begins no new round. -/
theorem tickConn_paced (h : (tickConn request c env).actions ≠ [.restart]) : Paced c (tickConn request c env) := by
  rw [tickConn_eq] at h ⊢
  split_ifs at h ⊢ with hidle hlate hrounds
  · exact fun kind => le_refl _
  · exact absurd rfl h
  · exact paced_timeout _
  · unfold tickOn at h ⊢
    split_ifs at h ⊢ with hgw hbusy
    · exact fun kind => quota_blind_arp (by simpa using hgw.2)
    · exact fun kind => le_refl _
    · exact tickState_paced (c := { c with deadlineMs := c.deadlineAt env.now, txInflight := false }) (by
        intro harp
        by_contra hno
        exact hgw ⟨harp, by simpa using hno⟩) h

end Ticks

section Steps

variable {config : Config} {k k' : Kernel} {event : Event}

/-- Actions that begin neither a fetch nor a round. -/
def Action.goesOn (action : Action) : Bool := action.started.isNone && action ≠ .restart

/-- What a step does to the pace of a fetch: it goes on in its round, or a round begins, or a fetch. -/
inductive PaceStep (k k' : Kernel) : Prop where
  | goesOn (new : List Action) (trace : k'.trace = k.trace ++ new) (within : ∀ action ∈ new, action.goesOn)
      (rounds : k'.conn.rounds = k.conn.rounds)
      (quota : ∀ kind : PacketKind, k.conn.quota kind +
        (new.map fun action => (k.conn.state, action)).countP kind.sent ≤ k'.conn.quota kind)
  | restarts (trace : k'.trace = k.trace ++ [.restart]) (left : k.conn.rounds < fetchMaxRounds)
      (rounds : k'.conn.rounds = k.conn.rounds + 1)
  | starts (done : List Action) (s : Action) (trace : k'.trace = k.trace ++ (done ++ [s]))
      (within : ∀ action ∈ done, action.goesOn) (start : s.started.isSome) (rounds : k'.conn.rounds = 0)

/-- A step that sends none of the packets. -/
theorem pace_quiet {new : List Action} (htrace : k'.trace = k.trace ++ new) (hnew : ∀ action ∈ new, action.goesOn)
    (hunsent : ∀ action ∈ new, ∀ kind : PacketKind, kind.sent (k.conn.state, action) = false)
    (hrounds : k'.conn.rounds = k.conn.rounds)
    (hquota : ∀ kind : PacketKind, k.conn.quota kind ≤ k'.conn.quota kind) : PaceStep k k' := by
  apply PaceStep.goesOn new htrace hnew hrounds
  intro kind
  have hcount : (new.map fun action => (k.conn.state, action)).countP kind.sent = 0 := by
    rw [List.countP_eq_zero]
    intro a ha
    obtain ⟨action, hmem, rfl⟩ := List.mem_map.mp ha
    simp [hunsent action hmem kind]
  rw [hcount]
  exact hquota kind

/-- A step that does nothing but change the connection. -/
theorem pace_conn {conn : Conn} (hrounds : conn.rounds = k.conn.rounds)
    (hquota : ∀ kind : PacketKind, k.conn.quota kind ≤ conn.quota kind) : PaceStep k { k with conn } :=
  pace_quiet (List.append_nil _).symm (fun _ h => absurd h List.not_mem_nil)
    (fun _ h => absurd h List.not_mem_nil) hrounds hquota

theorem receiveArp_pace (gateway dns : Bool) : PaceStep k (k.receiveArp gateway dns) := by
  unfold Kernel.receiveArp
  split_ifs with harp
  · apply pace_conn
    · rfl
    · intro kind
      apply quota_next
      · rfl
      · rw [harp]
        rcases resumeAfterGateway_state { k.conn with haveGw := true } with hnext | hnext
        · exact lt_of_lt_of_eq (by decide) (congrArg FetchState.stage hnext).symm
        · exact lt_of_lt_of_eq (by decide) (congrArg FetchState.stage hnext).symm
  · exact pace_conn rfl fun kind => le_refl _
  · exact pace_conn rfl fun kind => le_refl _

theorem dns_pace {datagram : Bytes} {now : ℕ} (h : DnsStep k datagram now k') : PaceStep k k' := by
  cases h with
  | ignored => exact pace_conn rfl fun kind => le_refl _
  | resolved state =>
    apply pace_quiet rfl
    · simp [Action.goesOn, Action.started]
    · intro action hmem kind
      rw [List.mem_singleton.mp hmem]
      cases kind <;> simp [PacketKind.sent]
    · rfl
    · intro kind
      apply quota_advance
      · rfl
      · simp [state]
      · simp [state, FetchState.stage]
  | tooLarge => exact pace_conn rfl fun kind => le_refl _

theorem synAck_pace (c : Conn) (https : Bool) (seg : TcpSegment) (env : SegmentEnv) (hstate : c.state = .syn)
    (kind : PacketKind) : c.quota kind ≤ (c.synAck https seg env).quota kind := by
  unfold Conn.synAck Conn.configureTls
  dsimp only
  split_ifs
  all_goals
    apply quota_advance
    · rfl
    · simp [hstate]
    · simp [hstate, Conn.finish, FetchState.stage]

theorem socksHelloReply_pace (c : Conn) (seg : TcpSegment) (hstate : c.state = .socksHello) (kind : PacketKind) :
    c.quota kind ≤ (c.socksHelloReply seg).quota kind := by
  unfold Conn.socksHelloReply
  dsimp only
  split
  · split_ifs
    all_goals
      apply quota_advance
      · rfl
      · simp [hstate]
      · simp [hstate, Conn.finish, FetchState.stage]
  · exact le_refl _

theorem socksConnectReply_pace (c : Conn) (https : Bool) (seg : TcpSegment) (env : SegmentEnv)
    (hstate : c.state = .socksConnect) (kind : PacketKind) :
    c.quota kind ≤ (c.socksConnectReply https seg env).quota kind := by
  unfold Conn.socksConnectReply Conn.configureTls
  dsimp only
  split
  · split_ifs
    all_goals
      apply quota_advance
      · rfl
      · simp [hstate]
      · simp [hstate, Conn.finish, FetchState.stage]
  · exact le_refl _

theorem configureTls_rounds (c : Conn) (env : SegmentEnv) : (c.configureTls env).rounds = c.rounds := by
  unfold Conn.configureTls
  split_ifs <;> rfl

theorem synAck_rounds (c : Conn) (https : Bool) (seg : TcpSegment) (env : SegmentEnv) :
    (c.synAck https seg env).rounds = c.rounds := by
  unfold Conn.synAck
  dsimp only
  split_ifs
  · rfl
  · rw [configureTls_rounds]
  · rfl

theorem socksHelloReply_rounds (c : Conn) (seg : TcpSegment) : (c.socksHelloReply seg).rounds = c.rounds := by
  unfold Conn.socksHelloReply
  dsimp only
  split
  · split_ifs <;> rfl
  · rfl

theorem socksConnectReply_rounds (c : Conn) (https : Bool) (seg : TcpSegment) (env : SegmentEnv) :
    (c.socksConnectReply https seg env).rounds = c.rounds := by
  unfold Conn.socksConnectReply
  dsimp only
  split
  · split_ifs
    · rw [configureTls_rounds]
    · rfl
    · rfl
  · rfl

/-- What the parser does to the connection leaves its pace. -/
theorem core_pace {c d : Conn} (h : d.core = c.core) :
    d.haveGw = c.haveGw ∧ d.retry = c.retry ∧ d.rounds = c.rounds := by
  have hgw := congrArg Conn.haveGw h
  have hretry := congrArg Conn.retry h
  have hrounds := congrArg Conn.rounds h
  exact ⟨hgw, hretry, hrounds⟩

theorem quota_core {c d : Conn} (h : d.core = c.core) (hstate : d.state = c.state ∨ d.state = .done)
    (kind : PacketKind) : c.quota kind ≤ d.quota kind := by
  obtain ⟨hgw, hretry, -⟩ := core_pace h
  rcases hstate with hsame | hdone
  · exact (quota_congr hgw hsame hretry).ge
  · exact quota_ended hgw (Or.inl hdone) hretry

theorem feed_pace {conn : Conn} {start : Kernel} {pieces : List Bytes} (hfeeds : Feeds k pieces start)
    (hcore : conn.core = k.conn.core) (hstate : conn.state = k.conn.state ∨ conn.state = .done) :
    PaceStep k { start with conn } := by
  have htrace : Kernel.trace { start with conn } = k.trace ++ pieces.map .feed := hfeeds.trace
  apply pace_quiet htrace
  · intro action hmem
    obtain ⟨piece, -, rfl⟩ := List.mem_map.mp hmem
    rfl
  · intro action hmem kind
    obtain ⟨piece, -, rfl⟩ := List.mem_map.mp hmem
    cases kind <;> cases k.conn.state <;> rfl
  · exact (core_pace hcore).2.2
  · exact quota_core hcore hstate

theorem segment_pace {seg : TcpSegment} {env : SegmentEnv} (h : SegmentStep k seg env k') : PaceStep k k' := by
  cases h with
  | ignored => exact pace_conn rfl fun kind => le_refl _
  | synAck state =>
    apply pace_quiet rfl
    · simp [Action.goesOn, Action.started]
    · intro action hmem kind
      rw [List.mem_singleton.mp hmem]
      cases kind <;> cases k.conn.state <;> rfl
    · exact synAck_rounds k.conn k.request.https seg env
    · exact synAck_pace k.conn k.request.https seg env state
  | socksHello state =>
    exact pace_conn (socksHelloReply_rounds k.conn seg) (socksHelloReply_pace k.conn seg state)
  | socksConnect state =>
    exact pace_conn (socksConnectReply_rounds k.conn k.request.https seg env)
      (socksConnectReply_pace k.conn k.request.https seg env state)
  | http _ _ feeds =>
    apply feed_pace feeds
    · exact feeds.core
    · dsimp only
      split_ifs
      · exact Or.inr rfl
      · exact feeds.state

/-- A tick that reads over TLS. -/
theorem read_pace {c conn : Conn} {sends : List TlsSend} {now : ℕ} {start last : Kernel} {pieces : List Bytes}
    (state : k.conn.state = .tlsRead) (route : SameRoute k.conn c) (same : c.state = .tlsRead)
    (begin : start = { k with
      conn := (tlsSendAll c sends).1
      trace := k.trace ++ (tlsSendAll c sends).2 })
    (feeds : Feeds start pieces last) (stop : ReadStop last now conn) : PaceStep k { last with conn } := by
  obtain ⟨hroute, -, hstate, -⟩ := tlsSendAll_route c sends
  have hstart : start.conn = (tlsSendAll c sends).1 := by rw [begin]
  have hcore : conn.core = start.conn.core := stop.core.trans feeds.core
  obtain ⟨hgw, -, hrounds⟩ := core_pace hcore
  have hlast : conn.state = .tlsRead ∨ conn.state = .done := by
    rcases stop.state with hsame | hdone
    · rw [hsame, ← same, ← hstate, ← hstart]
      rcases feeds.state with hkept | hdone
      · exact Or.inl hkept
      · exact Or.inr hdone
    · exact Or.inr hdone
  have htrace : Kernel.trace { last with conn } = k.trace ++ ((tlsSendAll c sends).2 ++ pieces.map .feed) := by
    rw [← List.append_assoc]
    exact feeds.trace.trans (by rw [begin])
  apply PaceStep.goesOn _ htrace
  · intro action hmem
    rcases List.mem_append.mp hmem with hsend | hfeed
    · obtain ⟨seq, data, queued, rfl⟩ := tlsSendAll_sendData c sends action hsend
      rfl
    · obtain ⟨piece, -, rfl⟩ := List.mem_map.mp hfeed
      rfl
  · change conn.rounds = k.conn.rounds
    rw [hrounds, hstart, hroute.rounds, route.rounds]
  · intro kind
    have hcarries : ∀ action ∈ (tlsSendAll c sends).2 ++ pieces.map .feed, action.carries := by
      intro action hmem
      rcases List.mem_append.mp hmem with hsend | hfeed
      · exact tlsSendAll_carries sends action hsend
      · obtain ⟨piece, -, rfl⟩ := List.mem_map.mp hfeed
        rfl
    rw [carries_unsent (by rw [state]; rfl) hcarries kind, Nat.add_zero]
    cases hk : k.conn.haveGw with
    | true =>
      have hflow : conn.quota kind = fetchMaxRetry := by
        apply quota_flow
        · rw [hgw, hstart, hroute.haveGw, route.haveGw, hk]
        · rcases hlast with hread | hdone
          · rw [hread]
            rfl
          · rw [hdone]
            rfl
      exact (quota_le _ _).trans hflow.ge
    | false =>
      rw [quota_blind hk (by simp [state])]
      exact Nat.zero_le _

theorem restartRound_rounds (c : Conn) : c.restartRound.rounds = c.rounds + 1 := by
  unfold Conn.restartRound Conn.restartTransport
  split_ifs <;> rfl

theorem tick_pace {env : TickEnv} (hstep : TickStep k.request k.conn env.now (tickConn k.request k.conn env)) :
    PaceStep k { k with
      conn := (tickConn k.request k.conn env).conn
      trace := k.trace ++ (tickConn k.request k.conn env).actions } := by
  by_cases hrestart : (tickConn k.request k.conn env).actions = [.restart]
  · generalize tickConn k.request k.conn env = r at hstep hrestart ⊢
    cases hstep with
    | restart deadlineMs txInflight due => exact .restarts rfl due.2.1 (restartRound_rounds k.conn)
    | progress h =>
      have hemits := h.actions .restart (by rw [hrestart]; exact List.mem_singleton.mpr rfl)
      cases hemits
  · have hpaced := tickConn_paced hrestart
    have hprogress := hstep.progress_of hrestart
    apply PaceStep.goesOn _ rfl
    · intro action hmem
      have hemits := hprogress.actions action hmem
      cases action with
      | start => cases hemits
      | restart => cases hemits
      | _ => rfl
    · exact hprogress.route.rounds
    · exact hpaced

theorem Told.goesOn {done : List Action} (h : Told k done) : ∀ action ∈ done, action.goesOn := by
  intro action hmem
  rcases h with rfl | ⟨-, -, rfl⟩
  · exact absurd hmem List.not_mem_nil
  · rw [List.mem_singleton.mp hmem]
    rfl

theorem settled_pace (h : Settled k k') : PaceStep k k' := by
  obtain ⟨done, htrace, htold⟩ := h.trace
  have hgw := congrArg Conn.haveGw h.transport
  have hretry := congrArg Conn.retry h.transport
  have hrounds := congrArg Conn.rounds h.transport
  change k'.conn.haveGw = k.conn.haveGw at hgw
  change k'.conn.retry = k.conn.retry at hretry
  change k'.conn.rounds = k.conn.rounds at hrounds
  apply pace_quiet htrace htold.goesOn
  · intro action hmem kind
    rcases htold with rfl | ⟨-, -, rfl⟩
    · exact absurd hmem List.not_mem_nil
    · rw [List.mem_singleton.mp hmem]
      cases kind <;> cases k.conn.state <;> rfl
  · exact hrounds
  · intro kind
    rcases h.state with hsame | hidle
    · exact (quota_congr hgw hsame hretry).ge
    · exact quota_ended hgw (Or.inr hidle) hretry

theorem launch_pace {p : Kernel} {owner : Owner} {env : StartEnv} {target : Target} {reply : ReplyTo}
    {redirectStart : Bool} (h : Launching k p owner target) :
    PaceStep k (p.launch config owner env target reply redirectStart) := by
  obtain ⟨done, htrace, htold⟩ := h.trace
  apply PaceStep.starts done (.start owner (p.request.aim target) p.dnsCache env.now)
  · rw [← List.append_assoc, ← htrace]
    rfl
  · exact htold.goesOn
  · rfl
  · rcases launch_conn p config owner env target reply redirectStart with
      ⟨hreuse, -⟩ | ⟨c, cached, -, hstart⟩
    · rw [hreuse]
      rfl
    · rw [hstart]
      rfl

theorem kernel_pace (h : KernelStep config k event k') : PaceStep k k' := by
  cases h with
  | arp gateway dns => exact receiveArp_pace gateway dns
  | dns hdns => exact dns_pace hdns
  | segment hsegment => exact segment_pace hsegment
  | outcome hout =>
    cases hout with
    | settled hs => exact settled_pace hs
    | launched hl => exact launch_pace hl
  | tick result hstep =>
    rw [← result] at hstep ⊢
    exact tick_pace hstep
  | read state route same _ _ begin feeds stop => exact read_pace state route same begin feeds stop
  | reply reply =>
    have htrace : Kernel.trace { k with reply } = k.trace ++ [] := (List.append_nil _).symm
    apply pace_quiet htrace
    · exact fun _ hmem => absurd hmem List.not_mem_nil
    · exact fun _ hmem => absurd hmem List.not_mem_nil
    · rfl
    · exact fun kind => le_refl _

end Steps

section Runs

variable {config : Config} {k k' : Kernel} {log : List Stamped} {s : Kernel × List Stamped} {event : Event}

/-- What holds of the pace of a fetch in every state that is reached. -/
structure Pace (k : Kernel) (log : List Stamped) : Prop where
  rounds : k.conn.rounds ≤ fetchMaxRounds
  restarts : restartsOf log ≤ k.conn.rounds
  sent : ∀ kind, sentInRound kind log ≤ k.conn.quota kind

theorem shown_eq {new : List Action} (h : k'.trace = k.trace ++ new) :
    k.shown k' = new.map fun action => (k.conn.state, action) := by
  unfold Kernel.shown
  rw [h, List.drop_left]

theorem goesOn_marks {action : Action} (h : action.goesOn) (state : FetchState) :
    Stamped.starts (state, action) = none ∧ Stamped.rounds (state, action) = none ∧
    Stamped.restarts (state, action) = false := by
  unfold Action.goesOn at h
  simp only [Bool.and_eq_true, Option.isNone_iff_eq_none, decide_eq_true_eq] at h
  have hrestarts : Stamped.restarts (state, action) = false := by simpa [Stamped.restarts] using h.2
  have hstarts : Stamped.starts (state, action) = none := by simp [Stamped.starts, h.1]
  refine ⟨hstarts, ?_, hrestarts⟩
  simp [Stamped.rounds, hrestarts, hstarts]

theorem pace_step (h : Pace k log) (hstep : PaceStep k k') : Pace k' (log ++ k.shown k') := by
  cases hstep with
  | goesOn new htrace hwithin hrounds hquota =>
    rw [shown_eq htrace]
    have hmarks : ∀ a ∈ new.map fun action => (k.conn.state, action),
        Stamped.starts a = none ∧ Stamped.rounds a = none ∧ Stamped.restarts a = false := by
      intro a ha
      obtain ⟨action, hmem, rfl⟩ := List.mem_map.mp ha
      exact goesOn_marks (hwithin action hmem) k.conn.state
    constructor
    · rw [hrounds]
      exact h.rounds
    · unfold restartsOf
      rw [Trace.after_append fun a ha => (hmarks a ha).1, List.countP_append, hrounds]
      have hnone : (new.map fun action => (k.conn.state, action)).countP Stamped.restarts = 0 := by
        rw [List.countP_eq_zero]
        intro a ha
        simp [(hmarks a ha).2.2]
      rw [hnone]
      exact h.restarts
    · intro kind
      unfold sentInRound
      rw [Trace.after_append fun a ha => (hmarks a ha).2.1, List.countP_append]
      exact (Nat.add_le_add_right (h.sent kind) _).trans (hquota kind)
  | restarts htrace hleft hrounds =>
    rw [shown_eq htrace]
    constructor
    · rw [hrounds]
      exact hleft
    · unfold restartsOf
      rw [Trace.after_append (by simp [Stamped.starts, Action.started]), List.countP_append, hrounds]
      have hrestarts := h.restarts
      unfold restartsOf at hrestarts
      simp [Stamped.restarts]
      exact hrestarts
    · intro kind
      unfold sentInRound
      rw [List.map_singleton, Trace.after_mark _ (show Stamped.rounds (k.conn.state, .restart) = some () from rfl)]
      exact Nat.zero_le _
  | starts done start htrace hwithin hstart hrounds =>
    rw [shown_eq htrace, List.map_append, List.map_singleton, ← List.append_assoc]
    have hstarts : Stamped.starts (k.conn.state, start) = some () := by
      obtain ⟨s, hs⟩ := Option.isSome_iff_exists.mp hstart
      simp [Stamped.starts, hs]
    have hround : Stamped.rounds (k.conn.state, start) = some () := by
      unfold Stamped.rounds
      rw [hstarts, ite_self]
    constructor
    · rw [hrounds]
      exact Nat.zero_le _
    · unfold restartsOf
      rw [Trace.after_mark _ hstarts]
      exact Nat.zero_le _
    · intro kind
      unfold sentInRound
      rw [Trace.after_mark _ hround]
      exact Nat.zero_le _

theorem pace_of_reachable (hs : (pacedMachine config).Reachable s) : Pace s.1 s.2 := by
  apply hs.invariant
  · rintro ⟨k, log⟩ ⟨rfl, hlog⟩
    have hlog : log = [] := hlog
    subst hlog
    exact ⟨Nat.zero_le _, Nat.zero_le _, fun kind => Nat.zero_le _⟩
  · intro s event h hallowed
    have hallowed : (kernelMachine config).allowed s.1 event := hallowed
    exact pace_step h (kernel_pace (kernel_step (Machine.ofChecked_step hallowed).2))

/-- A step with a new round leaves fewer rounds and retries, the rounds first. -/
theorem left_decreases (hstep : PaceStep k k') (hrestart : .restart ∈ (k.shown k').map Prod.snd) :
    k'.conn.left < k.conn.left := by
  cases hstep with
  | goesOn new htrace hwithin hrounds hquota =>
    rw [shown_eq htrace] at hrestart
    simp at hrestart
    exact absurd (hwithin _ hrestart) (by simp [Action.goesOn])
  | restarts htrace hleft hrounds =>
    unfold Conn.left
    rw [Prod.Lex.toLex_lt_toLex]
    left
    dsimp only
    omega
  | starts done start htrace hwithin hstart hrounds =>
    rw [shown_eq htrace] at hrestart
    simp at hrestart
    rcases hrestart with hmem | rfl
    · exact absurd (hwithin _ hmem) (by simp [Action.goesOn])
    · simp [Action.started] at hstart

/-- In every run a fetch has no more rounds than there are, no round sends a packet more often than it may be
sent again, and a new round leaves less. -/
theorem fetch_in_bounds (hs : (pacedMachine config).Reachable s) : InBounds s.1 s.2 ∧
    ∀ event, (pacedMachine config).allowed s event →
      .restart ∈ (s.1.shown ((kernelMachine config).step s.1 event)).map Prod.snd →
      ((kernelMachine config).step s.1 event).conn.left < s.1.conn.left := by
  have h := pace_of_reachable hs
  constructor
  · exact ⟨h.rounds, h.restarts.trans h.rounds, fun kind => (h.sent kind).trans (quota_le s.1.conn kind)⟩
  · intro event hallowed
    have hallowed : (kernelMachine config).allowed s.1 event := hallowed
    exact left_decreases (kernel_pace (kernel_step (Machine.ofChecked_step hallowed).2))

def socksConfig : Config := ⟨true, false, 1080, 8090⟩

def socksTick (now : ℕ) : Event := .tick ⟨now, true, true, [], .ok 0, []⟩

/-- The proxy answers the last hello, and the message that asks for the connection is the sixth. -/
def socksRun : List Event :=
  [.line (ascii "https://a.bc/") ⟨⟨0, true, true, 0⟩, none, none, none⟩,
    socksTick 10,
    .segment ⟨hostIp, 1080, 40000, 7, 0x1001, 0x12, []⟩ ⟨20, true, true⟩,
    socksTick 100, socksTick 3000, socksTick 6000, socksTick 9000, socksTick 12000,
    .segment ⟨hostIp, 1080, 40000, 8, 0x1004, 0x18, [5, 0]⟩ ⟨12010, true, true⟩,
    socksTick 12020]

/-- A round may send more messages to the proxy than a packet is sent again. -/
theorem socks_messages : ¬ ∀ (config : Config) (s : Kernel × List Stamped), (pacedMachine config).Reachable s →
    sentInRound .socksHello s.2 + sentInRound .socksConnect s.2 ≤ fetchMaxRetry := by
  intro h
  let s := (pacedMachine socksConfig).run ({}, []) socksRun
  have hs : (pacedMachine socksConfig).Reachable s :=
    Machine.Reachable.run (.init ⟨rfl, rfl⟩)
      (show (pacedMachine socksConfig).Allows ({}, []) socksRun by decide +kernel)
  have hsent : sentInRound .socksHello s.2 + sentInRound .socksConnect s.2 = 6 := by
    decide +kernel
  have hbound := h socksConfig s hs
  rw [hsent] at hbound
  exact absurd hbound (by decide)

/-- Two minutes without an answer: the fetch is over after its third round. -/
def silentRun : List Event :=
  .line (ascii "https://a.bc/") ⟨⟨0, true, true, 0⟩, none, none, none⟩ ::
    [10, 31000, 31010, 62000, 62010, 64020].map socksTick

theorem fetch_in_bounds_silent :
    let s := (pacedMachine socksConfig).run ({}, []) silentRun
    restartsOf s.2 = 2 ∧ sentInRound .syn s.2 = 2 ∧ InBounds s.1 s.2 := by
  intro s
  have hs : (pacedMachine socksConfig).Reachable s :=
    Machine.Reachable.run (.init ⟨rfl, rfl⟩)
      (show (pacedMachine socksConfig).Allows ({}, []) silentRun by decide +kernel)
  have hrestarts : restartsOf s.2 = 2 := by
    decide +kernel
  have hsyn : sentInRound .syn s.2 = 2 := by
    decide +kernel
  exact ⟨hrestarts, hsyn, (fetch_in_bounds hs).1⟩

end Runs

end MiniAgentOS.Fetch
