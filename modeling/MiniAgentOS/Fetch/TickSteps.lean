import MiniAgentOS.Fetch.Tick

/-! What one tick can do to a connection: begin a new round, or keep its route and move on. -/
namespace MiniAgentOS.Fetch
open Net Http

variable {request : Request} {c d : Conn} {env : TickEnv}

/-- Both connections go to the same place. -/
structure SameRoute (c d : Conn) : Prop where
  proxy : d.proxy = c.proxy
  haveFixedIp : d.haveFixedIp = c.haveFixedIp
  fixedIp : d.fixedIp = c.fixedIp
  dstIp : d.dstIp = c.dstIp
  haveGw : d.haveGw = c.haveGw
  rounds : d.rounds = c.rounds

theorem SameRoute.refl (c : Conn) : SameRoute c c := ⟨rfl, rfl, rfl, rfl, rfl, rfl⟩

theorem SameRoute.trans {e : Conn} (h : SameRoute c d) (h' : SameRoute d e) : SameRoute c e :=
  ⟨h'.proxy.trans h.proxy, h'.haveFixedIp.trans h.haveFixedIp, h'.fixedIp.trans h.fixedIp,
    h'.dstIp.trans h.dstIp, h'.haveGw.trans h.haveGw, h'.rounds.trans h.rounds⟩

/-- The fetch is out of time or of retries and has a round left. -/
def RestartDue (c : Conn) (now : ℕ) : Prop :=
  c.state ≠ .idle ∧ c.rounds < fetchMaxRounds ∧
    ((c.deadlineMs ≠ 0 ∧ c.deadlineMs < now) ∨
      ((c.state = .arp ∨ c.state = .dns ∨ c.state = .syn) ∧ fetchMaxRetry ≤ c.retry))

/-- Why a tick ends a fetch that has a response: no round is left at the deadline, no retry is left in
`FETCH_HTTP`, the request cannot be built, or the connection is being set up. -/
def GivesUp (request : Request) (c : Conn) (now : ℕ) : Prop :=
  (c.state ≠ .idle ∧ c.deadlineMs ≠ 0 ∧ c.deadlineMs < now ∧ fetchMaxRounds ≤ c.rounds) ∨
  (c.state = .http ∧ c.nextMs ≤ now ∧
    ((fetchMaxRetry ≤ c.httpRetry ∧ (c.httpSent ∨ c.httpOff = 0 ∨ c.httpBuf = [])) ∨
      (c.httpBuf = [] ∧ buildHttpRequest httpBufLen request = []))) ∨
  (c.state ≠ .idle ∧ c.state ≠ .http ∧ c.state ≠ .tlsRead ∧ c.state ≠ .done)

/-- The states that a tick may lead to without a new round. -/
def Moves (request : Request) (c : Conn) (now : ℕ) (next : FetchState) : Prop :=
  next = c.state ∨
  (next = .done ∧ GivesUp request c now) ∨
  (next = .arp ∧ c.state ≠ .idle ∧ c.haveGw = false) ∨
  (next = c.resumeAfterGateway.state ∧ c.state = .arp ∧ c.haveGw) ∨
  (next = .tlsHttp ∧ c.state = .tlsHandshake) ∨
  (next = .tlsRead ∧ c.state = .tlsHttp)

/-- What a tick sends without a new round. A SYN is sent in `FETCH_SYN` only, once the gateway is
known. -/
def Emits (request : Request) (c : Conn) : Action → Prop
  | .sendArp | .sendDnsQuery _ | .sendData _ _ _ => True
  | .sendSyn ip seq direct =>
    c.state = .syn ∧ c.haveGw ∧ ip = c.dstIp ∧ seq = c.seq ∧ direct = c.direct
  | .buildRequest built => built = request ∧ (c.state = .http ∨ c.state = .tlsHttp)
  | _ => False

/-- A tick without a new round. -/
structure Progress (request : Request) (c : Conn) (now : ℕ) (r : TickResult) : Prop where
  route : SameRoute c r.conn
  gotResp : r.conn.gotResp → c.gotResp
  state : Moves request c now r.conn.state
  actions : ∀ action ∈ r.actions, Emits request c action
  reads : r.reads → c.state = .tlsRead ∧ r.conn.state = .tlsRead ∧ r.conn.gotResp = c.gotResp ∧
    r.conn.nextMs = c.nextMs ∧ r.actions = []

/-- What one tick can do. -/
inductive TickStep (request : Request) (c : Conn) (now : ℕ) : TickResult → Prop where
  | restart (deadlineMs : ℕ) (txInflight : Bool) (due : RestartDue c now) :
      TickStep request c now ⟨{ c.restartRound with deadlineMs, txInflight }, [.restart], false⟩
  | progress {r : TickResult} (h : Progress request c now r) : TickStep request c now r

theorem sameRoute_fail (c : Conn) (reason : Bytes) : SameRoute c (c.fail reason) :=
  ⟨rfl, rfl, rfl, rfl, rfl, rfl⟩

theorem sameRoute_failIfEmpty (c : Conn) (reason : Bytes) : SameRoute c (c.failIfEmpty reason) := by
  unfold Conn.failIfEmpty
  split_ifs
  · exact sameRoute_fail c reason
  · exact SameRoute.refl c

@[simp] theorem failIfEmpty_gotResp (c : Conn) (reason : Bytes) :
    (c.failIfEmpty reason).gotResp = c.gotResp := by
  unfold Conn.failIfEmpty
  split_ifs <;> rfl

theorem GivesUp.busy {now : ℕ} (h : GivesUp request c now) : c.state ≠ .idle := by
  rcases h with ⟨hidle, -⟩ | ⟨hhttp, -⟩ | ⟨hidle, -⟩
  · exact hidle
  · simp [hhttp]
  · exact hidle

theorem resumeAfterGateway_state (c : Conn) :
    c.resumeAfterGateway.state = .syn ∨ c.resumeAfterGateway.state = .dns := by
  unfold Conn.resumeAfterGateway
  dsimp only
  split_ifs
  · exact .inl rfl
  · exact .inr rfl

/-- Only a fetch that is in flight moves, and it stays in flight. -/
theorem Moves.idle {now : ℕ} {next : FetchState} (h : Moves request c now next) :
    next = .idle ↔ c.state = .idle := by
  rcases h with rfl | ⟨rfl, hup⟩ | ⟨rfl, hidle, -⟩ | ⟨rfl, harp, -⟩ | ⟨rfl, hstate⟩ | ⟨rfl, hstate⟩
  · exact Iff.rfl
  · simp [hup.busy]
  · simp [hidle]
  · rcases resumeAfterGateway_state c with hresume | hresume <;> simp [hresume, harp]
  · simp [hstate]
  · simp [hstate]

theorem restartRound_state (c : Conn) : c.restartRound.state ≠ .idle := by
  unfold Conn.restartRound Conn.restartTransport
  split_ifs <;> simp

/-- A tick that keeps the route, moves to an allowed state and only sends. -/
theorem progress_send {actions : List Action} (hroute : SameRoute c d) (hgot : d.gotResp → c.gotResp)
    (hstate : Moves request c env.now d.state)
    (hactions : ∀ action ∈ actions, Emits request c action) :
    Progress request c env.now ⟨d, actions, false⟩ := by
  constructor
  · exact hroute
  · exact hgot
  · exact hstate
  · exact hactions
  · intro h
    cases h

/-- A tick that changes nothing but timers. -/
theorem progress_stay (hroute : SameRoute c d) (hgot : d.gotResp → c.gotResp)
    (hstate : d.state = c.state) : Progress request c env.now (stay d) :=
  progress_send hroute hgot (.inl hstate) fun _ h => absurd h List.not_mem_nil

theorem progress_finish (hroute : SameRoute c d) (hgot : d.gotResp → c.gotResp)
    (hup : GivesUp request c env.now) : Progress request c env.now (stay d.finish) :=
  progress_send ⟨hroute.1, hroute.2, hroute.3, hroute.4, hroute.5, hroute.6⟩ hgot
    (.inr (.inl ⟨rfl, hup⟩)) fun _ h => absurd h List.not_mem_nil

theorem progress_timeout (reason : Bytes) (hroute : SameRoute c d) (hgot : d.gotResp → c.gotResp)
    (hup : GivesUp request c env.now) :
    Progress request c env.now (stay (d.failIfEmpty reason).finish) :=
  progress_finish (hroute.trans (sameRoute_failIfEmpty d reason)) (by simpa using hgot) hup

/-- The states in which the connection is being set up. -/
theorem givesUp_setup (hidle : c.state ≠ .idle) (hhttp : c.state ≠ .http) (hread : c.state ≠ .tlsRead)
    (hdone : c.state ≠ .done) : GivesUp request c env.now :=
  .inr (.inr ⟨hidle, hhttp, hread, hdone⟩)

theorem retryRound_step (reason : Bytes)
    (hstate : c.state = .arp ∨ c.state = .dns ∨ c.state = .syn) (hretry : fetchMaxRetry ≤ c.retry) :
    TickStep request c env.now (retryRound c reason) := by
  have hup : GivesUp request c env.now := by
    rcases hstate with h | h | h <;> apply givesUp_setup <;> simp [h]
  have hbusy : c.state ≠ .idle := by
    rcases hstate with h | h | h <;> simp [h]
  unfold retryRound
  split_ifs with hrounds
  · exact .restart c.restartRound.deadlineMs c.restartRound.txInflight
      ⟨hbusy, hrounds, .inr ⟨hstate, hretry⟩⟩
  · exact .progress (progress_timeout reason (SameRoute.refl c) id hup)

theorem tickArp_step (hstate : c.state = .arp) : TickStep request c env.now (tickArp c env) := by
  unfold tickArp
  split_ifs with hgw hearly hretry
  · apply TickStep.progress
    apply progress_send
    · exact ⟨rfl, rfl, rfl, rfl, rfl, rfl⟩
    · exact id
    · exact .inr (.inr (.inr (.inl ⟨rfl, hstate, hgw⟩)))
    · exact fun _ h => absurd h List.not_mem_nil
  · exact .progress (progress_stay (SameRoute.refl c) id rfl)
  · exact retryRound_step _ (.inl hstate) hretry
  · exact .progress (progress_send ⟨rfl, rfl, rfl, rfl, rfl, rfl⟩ id (.inl rfl) (by simp [Emits]))

theorem tickDns_step (hstate : c.state = .dns) :
    TickStep request c env.now (tickDns request.domain c env) := by
  have hup : GivesUp request c env.now := by
    apply givesUp_setup <;> simp [hstate]
  unfold tickDns
  dsimp only
  split_ifs with hearly hretry hdns hquery
  · exact .progress (progress_stay (SameRoute.refl c) id rfl)
  · exact retryRound_step _ (.inr (.inl hstate)) hretry
  · exact .progress (progress_send ⟨rfl, rfl, rfl, rfl, rfl, rfl⟩ id (.inl rfl) (by simp [Emits]))
  · exact .progress (progress_finish ⟨rfl, rfl, rfl, rfl, rfl, rfl⟩ id hup)
  · exact .progress (progress_send ⟨rfl, rfl, rfl, rfl, rfl, rfl⟩ id (.inl rfl) (by simp [Emits]))

theorem tickSyn_step (hstate : c.state = .syn) (hgw : c.haveGw) :
    TickStep request c env.now (tickSyn c env) := by
  unfold tickSyn
  split_ifs with hearly hretry
  · exact .progress (progress_stay (SameRoute.refl c) id rfl)
  · exact retryRound_step _ (.inr (.inr hstate)) hretry
  · exact .progress (progress_send ⟨rfl, rfl, rfl, rfl, rfl, rfl⟩ id (.inl rfl) (by simp [Emits, hstate, hgw]))

theorem sendSocks_step (message : Bytes) : TickStep request c env.now (sendSocks c env message) :=
  .progress (progress_send ⟨rfl, rfl, rfl, rfl, rfl, rfl⟩ id (.inl rfl) (by simp [Emits]))

theorem tickSocksHello_step (hstate : c.state = .socksHello) :
    TickStep request c env.now (tickSocksHello c env) := by
  have hup : GivesUp request c env.now := by
    apply givesUp_setup <;> simp [hstate]
  unfold tickSocksHello
  split_ifs with hearly hretry
  · exact .progress (progress_stay (SameRoute.refl c) id rfl)
  · exact .progress (progress_timeout _ (SameRoute.refl c) id hup)
  · exact sendSocks_step _

theorem tickSocksConnect_step (hstate : c.state = .socksConnect) :
    TickStep request c env.now (tickSocksConnect request c env) := by
  have hup : GivesUp request c env.now := by
    apply givesUp_setup <;> simp [hstate]
  unfold tickSocksConnect
  split_ifs with hearly hretry hlong
  · exact .progress (progress_stay (SameRoute.refl c) id rfl)
  · exact .progress (progress_timeout _ (SameRoute.refl c) id hup)
  · exact .progress (progress_finish (sameRoute_fail c _) id hup)
  · exact sendSocks_step _

/-- The first piece begins an attempt to send the request. -/
def Conn.attempt (c : Conn) : Conn :=
  if c.httpOff = 0 then { c with httpSeq := c.seq, httpRetry := c.httpRetry + 1, gotResp := false }
  else c

/-- The connection after a piece of `len` bytes. -/
def Conn.sentPiece (c : Conn) (now len : ℕ) : Conn :=
  let httpSent : Bool := c.httpBuf.length ≤ c.httpOff + len
  { c with
    seq := c.httpSeq + UInt32.ofNat c.httpOff + UInt32.ofNat len
    httpOff := c.httpOff + len
    httpSent
    txInflight := true
    nextMs := if httpSent then now + 5000 else now + 1 }

def Conn.nextPiece (c : Conn) : Bytes := (c.httpBuf.drop c.httpOff).take maxTcpPayloadLen

theorem sendPiece_eq (c : Conn) (env : TickEnv) : sendPiece c env =
    if c.httpOff = 0 ∧ fetchMaxRetry ≤ c.httpRetry then
      stay (c.failIfEmpty (ascii "http send retries exhausted")).finish
    else if c.attempt.httpBuf.length ≤ c.attempt.httpOff then
      stay { c.attempt with httpSent := true, nextMs := env.now + 5000 }
    else ⟨c.attempt.sentPiece env.now c.attempt.nextPiece.length,
      [.sendData (c.attempt.httpSeq + UInt32.ofNat c.attempt.httpOff) c.attempt.nextPiece env.queued],
      false⟩ := rfl

@[simp] theorem attempt_state (c : Conn) : c.attempt.state = c.state := by
  unfold Conn.attempt
  split_ifs <;> rfl

theorem attempt_gotResp (c : Conn) : c.attempt.gotResp → c.gotResp := by
  unfold Conn.attempt
  split_ifs
  · intro h
    cases h
  · exact id

theorem sameRoute_attempt (c : Conn) : SameRoute c c.attempt := by
  unfold Conn.attempt
  split_ifs
  · exact ⟨rfl, rfl, rfl, rfl, rfl, rfl⟩
  · exact SameRoute.refl c

/-- Sending a piece of the request either gives up or keeps the route and the state. -/
theorem sendPiece_progress (hroute : SameRoute c d) (hgot : d.gotResp → c.gotResp)
    (hstate : d.state = c.state)
    (hup : d.httpOff = 0 → fetchMaxRetry ≤ d.httpRetry → GivesUp request c env.now) :
    Progress request c env.now (sendPiece d env) ∧ (sendPiece d env).reads = false := by
  have hattempt := hroute.trans (sameRoute_attempt d)
  rw [sendPiece_eq]
  split_ifs with hretry hend
  · exact ⟨progress_timeout _ hroute hgot (hup hretry.1 hretry.2), rfl⟩
  · refine ⟨progress_stay ?_ (fun h => hgot (attempt_gotResp d h)) ?_, rfl⟩
    · exact hattempt.trans ⟨rfl, rfl, rfl, rfl, rfl, rfl⟩
    · exact (attempt_state d).trans hstate
  · refine ⟨progress_send ?_ (fun h => hgot (attempt_gotResp d h)) ?_ (by simp [Emits]), rfl⟩
    · exact hattempt.trans ⟨rfl, rfl, rfl, rfl, rfl, rfl⟩
    · exact .inl ((attempt_state d).trans hstate)

/-- An action before the others of a tick that does not read. -/
theorem Progress.cons {r : TickResult} {action : Action} (h : Progress request c env.now r)
    (hreads : r.reads = false) (haction : Emits request c action) :
    Progress request c env.now { r with actions := action :: r.actions } := by
  constructor
  · exact h.route
  · exact h.gotResp
  · exact h.state
  · intro other hother
    rcases List.mem_cons.mp hother with rfl | hmem
    · exact haction
    · exact h.actions other hmem
  · intro hread
    exact absurd hread (by simp [hreads])

theorem sendRequest_step (hstate : c.state = .http) (hearly : ¬ env.now < c.nextMs) :
    TickStep request c env.now (sendRequest request c env) := by
  have hbuild : Emits request c (.buildRequest request) := ⟨rfl, .inl hstate⟩
  unfold sendRequest
  dsimp only
  split_ifs with hempty hfail
  · have hup : GivesUp request c env.now := .inr (.inl ⟨hstate, by omega, .inr ⟨hempty, hfail⟩⟩)
    exact .progress (progress_send ⟨rfl, rfl, rfl, rfl, rfl, rfl⟩ id (.inr (.inl ⟨rfl, hup⟩))
      (by simp [hbuild]))
  · apply TickStep.progress
    have hup : fetchMaxRetry ≤ c.httpRetry → GivesUp request c env.now := fun hretry =>
      .inr (.inl ⟨hstate, by omega, .inl ⟨hretry, .inr (.inr hempty)⟩⟩)
    let built : Conn := { c with httpBuf := buildHttpRequest httpBufLen request, httpOff := 0 }
    have hroute : SameRoute c built := ⟨rfl, rfl, rfl, rfl, rfl, rfl⟩
    obtain ⟨hprogress, hreads⟩ := sendPiece_progress hroute id rfl fun _ => hup
    exact hprogress.cons hreads hbuild
  · apply TickStep.progress
    have hup : c.httpOff = 0 → fetchMaxRetry ≤ c.httpRetry → GivesUp request c env.now :=
      fun hoff hretry => .inr (.inl ⟨hstate, by omega, .inl ⟨hretry, .inr (.inl hoff)⟩⟩)
    exact (sendPiece_progress (SameRoute.refl c) id rfl hup).1

theorem tickHttp_step (hstate : c.state = .http) :
    TickStep request c env.now (tickHttp request c env) := by
  unfold tickHttp
  split_ifs with hearly hack hsent hretry
  · exact .progress (progress_stay (SameRoute.refl c) id rfl)
  · exact .progress (progress_stay ⟨rfl, rfl, rfl, rfl, rfl, rfl⟩ id rfl)
  · exact sendRequest_step hstate hearly
  · have hup : GivesUp request c env.now :=
      .inr (.inl ⟨hstate, by omega, .inl ⟨hretry, .inl (by simpa using hsent)⟩⟩)
    exact .progress (progress_timeout _ (SameRoute.refl c) id hup)
  · exact .progress (progress_stay ⟨rfl, rfl, rfl, rfl, rfl, rfl⟩ id rfl)

section Tls

theorem tlsSend_route (c : Conn) (send : TlsSend) :
    SameRoute c (tlsSend c send).1 ∧ (tlsSend c send).1.gotResp = c.gotResp ∧
      (tlsSend c send).1.state = c.state ∧ (tlsSend c send).1.nextMs = c.nextMs := by
  unfold tlsSend
  dsimp only
  split_ifs
  · exact ⟨⟨rfl, rfl, rfl, rfl, rfl, rfl⟩, rfl, rfl, rfl⟩
  · exact ⟨SameRoute.refl c, rfl, rfl, rfl⟩

/-- Sending records over TLS changes no more than sequence numbers. -/
theorem tlsSendAll_route (c : Conn) (sends : List TlsSend) :
    SameRoute c (tlsSendAll c sends).1 ∧ (tlsSendAll c sends).1.gotResp = c.gotResp ∧
      (tlsSendAll c sends).1.state = c.state ∧ (tlsSendAll c sends).1.nextMs = c.nextMs := by
  induction sends generalizing c with
  | nil => exact ⟨SameRoute.refl c, rfl, rfl, rfl⟩
  | cons send sends ih =>
    obtain ⟨hroute, hgot, hstate, hnext⟩ := tlsSend_route c send
    obtain ⟨ihroute, ihgot, ihstate, ihnext⟩ := ih (tlsSend c send).1
    exact ⟨hroute.trans ihroute, ihgot.trans hgot, ihstate.trans hstate, ihnext.trans hnext⟩

theorem tlsSendAll_sendData (c : Conn) (sends : List TlsSend) :
    ∀ action ∈ (tlsSendAll c sends).2, ∃ seq data queued, action = .sendData seq data queued := by
  induction sends generalizing c with
  | nil => exact fun _ h => absurd h List.not_mem_nil
  | cons send sends ih =>
    intro action haction
    rcases List.mem_append.mp haction with hfirst | hrest
    · exact ⟨_, _, _, List.mem_singleton.mp hfirst⟩
    · exact ih _ action hrest

theorem tlsSendAll_emits (request : Request) (c d : Conn) (sends : List TlsSend) :
    ∀ action ∈ (tlsSendAll d sends).2, Emits request c action := by
  intro action haction
  obtain ⟨seq, data, queued, rfl⟩ := tlsSendAll_sendData d sends action haction
  trivial

theorem tickTlsHandshake_step (hstate : c.state = .tlsHandshake) :
    TickStep request c env.now (tickTlsHandshake c env) := by
  have hup : GivesUp request c env.now := by
    apply givesUp_setup <;> simp [hstate]
  obtain ⟨hroute, hgot, hsame, -⟩ := tlsSendAll_route c env.tlsSends
  have hemits := tlsSendAll_emits request c c env.tlsSends
  unfold tickTlsHandshake
  dsimp only
  apply TickStep.progress
  split
  · exact progress_send (hroute.trans ⟨rfl, rfl, rfl, rfl, rfl, rfl⟩) (fun h => hgot ▸ h)
      (.inr (.inr (.inr (.inr (.inl ⟨rfl, hstate⟩))))) hemits
  · exact progress_send hroute (fun h => hgot ▸ h) (.inl hsame) hemits
  · exact progress_send (hroute.trans ⟨rfl, rfl, rfl, rfl, rfl, rfl⟩) (fun h => hgot ▸ h)
      (.inr (.inl ⟨rfl, hup⟩)) hemits

theorem writeRequest_progress (hroute : SameRoute c d) (hgot : d.gotResp → c.gotResp)
    (hsame : d.state = c.state) (hstate : c.state = .tlsHttp) :
    Progress request c env.now (writeRequest d env) ∧ (writeRequest d env).reads = false := by
  have hup : GivesUp request c env.now := by
    apply givesUp_setup <;> simp [hstate]
  obtain ⟨hsent, hsentGot, hsentState, -⟩ := tlsSendAll_route d env.tlsSends
  have hemits := tlsSendAll_emits request c d env.tlsSends
  have hgot' : (tlsSendAll d env.tlsSends).1.gotResp → c.gotResp := fun h => hgot (hsentGot ▸ h)
  unfold writeRequest
  dsimp only
  split_ifs with hwritten
  · exact ⟨progress_send (hroute.trans ⟨rfl, rfl, rfl, rfl, rfl, rfl⟩) hgot
      (.inr (.inr (.inr (.inr (.inr ⟨rfl, hstate⟩))))) (fun _ h => absurd h List.not_mem_nil), rfl⟩
  · split
    · exact ⟨progress_send ((hroute.trans hsent).trans ⟨rfl, rfl, rfl, rfl, rfl, rfl⟩) hgot'
        (.inl (hsentState.trans hsame)) hemits, rfl⟩
    · exact ⟨progress_send (hroute.trans hsent) hgot' (.inl (hsentState.trans hsame)) hemits, rfl⟩
    · exact ⟨progress_send ((hroute.trans hsent).trans ⟨rfl, rfl, rfl, rfl, rfl, rfl⟩) hgot'
        (.inr (.inl ⟨rfl, hup⟩)) hemits, rfl⟩

theorem tickTlsHttp_step (hstate : c.state = .tlsHttp) :
    TickStep request c env.now (tickTlsHttp request c env) := by
  have hup : GivesUp request c env.now := by
    apply givesUp_setup <;> simp [hstate]
  have hbuild : Emits request c (.buildRequest request) := ⟨rfl, .inr hstate⟩
  unfold tickTlsHttp
  dsimp only
  apply TickStep.progress
  split_ifs with hempty hfail
  · exact progress_send ⟨rfl, rfl, rfl, rfl, rfl, rfl⟩ id (.inr (.inl ⟨rfl, hup⟩)) (by simp [hbuild])
  · let built : Conn := { c with tlsHttpBuf := buildHttpRequest httpBufLen request }
    have hroute : SameRoute c built := ⟨rfl, rfl, rfl, rfl, rfl, rfl⟩
    obtain ⟨hprogress, hreads⟩ := writeRequest_progress hroute id rfl hstate
    exact hprogress.cons hreads hbuild
  · exact (writeRequest_progress (SameRoute.refl c) id rfl hstate).1

end Tls

theorem tickState_step (hgw : c.state ≠ .arp → c.haveGw) :
    TickStep request c env.now (tickState request c env) := by
  unfold tickState
  split
  · exact tickArp_step ‹_›
  · exact tickDns_step ‹_›
  · rename_i hstate
    exact tickSyn_step hstate (hgw (by simp [hstate]))
  · exact tickSocksHello_step ‹_›
  · exact tickSocksConnect_step ‹_›
  · exact tickHttp_step ‹_›
  · exact tickTlsHandshake_step ‹_›
  · exact tickTlsHttp_step ‹_›
  · rename_i hstate
    apply TickStep.progress
    constructor
    · exact SameRoute.refl c
    · exact id
    · exact .inl rfl
    · exact fun _ h => absurd h List.not_mem_nil
    · exact fun _ => ⟨hstate, hstate, rfl, rfl, rfl⟩
  · exact .progress (progress_stay (SameRoute.refl c) id rfl)
  · exact .progress (progress_stay (SameRoute.refl c) id rfl)

/-- The timers that a tick sets before it looks at the state do not matter. -/
theorem TickStep.timers {deadlineMs now : ℕ} {txInflight : Bool} {r : TickResult}
    (h : TickStep request { c with deadlineMs, txInflight } now r)
    (hdeadline : deadlineMs = c.deadlineMs ∨ now ≤ deadlineMs) : TickStep request c now r := by
  cases h with
  | restart deadline inflight due =>
    have hdue : RestartDue c now := by
      refine ⟨due.1, due.2.1, due.2.2.imp_left ?_⟩
      rintro ⟨hne, hlt⟩
      dsimp only at hne hlt
      rcases hdeadline with rfl | hle
      · exact ⟨hne, hlt⟩
      · omega
    have hround : Conn.restartRound { c with deadlineMs, txInflight } =
        { c.restartRound with deadlineMs, txInflight } := by
      unfold Conn.restartRound Conn.restartTransport
      dsimp only
      split_ifs <;> rfl
    rw [hround]
    exact .restart deadline inflight hdue
  | progress h =>
    have hups : GivesUp request { c with deadlineMs, txInflight } now → GivesUp request c now := by
      rintro (⟨hidle, hne, hlt, hrounds⟩ | hhttp | hsetup)
      · dsimp only at hne hlt
        rcases hdeadline with rfl | hle
        · exact .inl ⟨hidle, hne, hlt, hrounds⟩
        · omega
      · exact .inr (.inl hhttp)
      · exact .inr (.inr hsetup)
    apply TickStep.progress
    constructor
    · exact ⟨h.route.1, h.route.2, h.route.3, h.route.4, h.route.5, h.route.6⟩
    · exact h.gotResp
    · rcases h.state with hsame | ⟨hdone, hup⟩ | harp | hresume | htls
      · exact .inl hsame
      · exact .inr (.inl ⟨hdone, hups hup⟩)
      · exact .inr (.inr (.inl harp))
      · exact .inr (.inr (.inr (.inl hresume)))
      · exact .inr (.inr (.inr (.inr htls)))
    · intro action haction
      have hemits := h.actions action haction
      cases action with
      | sendSyn ip seq direct => exact hemits
      | _ => exact hemits
    · exact h.reads

/-- `fetch_tick` once the deadline was looked at. -/
def tickOn (request : Request) (c : Conn) (env : TickEnv) : TickResult :=
  if c.state ≠ .arp ∧ !c.haveGw then stay { c with state := .arp }
  else if c.txInflight ∧ !env.txDone then stay c
  else tickState request { c with txInflight := false } env

/-- The deadline of a round is set by its first tick. -/
def Conn.deadlineAt (c : Conn) (now : ℕ) : ℕ :=
  if c.deadlineMs = 0 then now + fetchRoundMs else c.deadlineMs

theorem tickConn_eq (request : Request) (c : Conn) (env : TickEnv) : tickConn request c env =
    if c.state = .idle then stay c
    else if c.deadlineMs ≠ 0 ∧ c.deadlineMs < env.now then
      if c.rounds < fetchMaxRounds then
        ⟨{ c.restartRound with deadlineMs := env.now + fetchRoundMs }, [.restart], false⟩
      else stay (c.failIfEmpty (ascii "network request timed out")).finish
    else tickOn request { c with deadlineMs := c.deadlineAt env.now } env := by
  have hdeadline : (if c.deadlineMs = 0 then { c with deadlineMs := env.now + fetchRoundMs } else c) =
      { c with deadlineMs := c.deadlineAt env.now } := by
    unfold Conn.deadlineAt
    split_ifs <;> rfl
  rw [← hdeadline]
  rfl

theorem tickOn_step (hidle : c.state ≠ .idle) : TickStep request c env.now (tickOn request c env) := by
  unfold tickOn
  split_ifs with hgw hbusy
  · apply TickStep.progress
    apply progress_send
    · exact ⟨rfl, rfl, rfl, rfl, rfl, rfl⟩
    · exact id
    · exact .inr (.inr (.inl ⟨rfl, hidle, by simpa using hgw.2⟩))
    · exact fun _ h => absurd h List.not_mem_nil
  · exact .progress (progress_stay (SameRoute.refl c) id rfl)
  · have hstep : TickStep request { c with txInflight := false } env.now
        (tickState request { c with txInflight := false } env) := by
      apply tickState_step
      intro harp
      by_contra hno
      exact hgw ⟨harp, by simpa using hno⟩
    exact hstep.timers (.inl rfl)

/-- What one tick can do to a connection. -/
theorem tickConn_step (request : Request) (c : Conn) (env : TickEnv) :
    TickStep request c env.now (tickConn request c env) := by
  rw [tickConn_eq]
  split_ifs with hidle hlate hrounds
  · exact .progress (progress_stay (SameRoute.refl c) id rfl)
  · exact .restart (env.now + fetchRoundMs) c.restartRound.txInflight ⟨hidle, hrounds, .inl hlate⟩
  · exact .progress (progress_timeout _ (SameRoute.refl c) id
      (.inl ⟨hidle, hlate.1, hlate.2, Nat.le_of_not_lt hrounds⟩))
  · have hon : TickStep request { c with deadlineMs := c.deadlineAt env.now } env.now
        (tickOn request { c with deadlineMs := c.deadlineAt env.now } env) := tickOn_step hidle
    apply TickStep.timers hon
    unfold Conn.deadlineAt
    split_ifs with hzero
    · exact .inr (Nat.le_add_right _ _)
    · exact .inl rfl

end MiniAgentOS.Fetch
