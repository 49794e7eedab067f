import MiniAgentOS.Fetch.Session

/-! What one tick hands to the device, and that it belongs where the stream of the connection has it. -/
namespace MiniAgentOS.Fetch
open Net Http Wire Piece

variable {trace : List Action} {base : UInt32} {log : List (UInt32 × Bytes)} {out : Session}
  {session : Option Session} {request : Request} {c d : Conn} {env : TickEnv}
  {sends : List TlsSend} {proxy : Bool} {front : Bytes}

section Calls

theorem call_stream (out : Session) (send : TlsSend) :
    (out.call send).stream = out.accepted ++ send.record := by
  unfold Session.call Session.stream
  split_ifs
  · have hpiece : send.piece ++ send.record.drop send.piece.length = send.record := by
      obtain ⟨rest, hrest⟩ : send.piece <+: send.record := List.take_prefix _ _
      conv_rhs => rw [← hrest]
      rw [← hrest, List.drop_left]
    rw [List.append_assoc, hpiece]
  · rfl

theorem tlsSend_conn (c : Conn) (send : TlsSend) : ∃ tlsSeq, (tlsSend c send).1 = { c with tlsSeq } := by
  unfold tlsSend
  dsimp only
  split_ifs
  · exact ⟨_, rfl⟩
  · exact ⟨c.tlsSeq, rfl⟩

theorem tlsSendAll_conn (c : Conn) (sends : List TlsSend) :
    ∃ tlsSeq, (tlsSendAll c sends).1 = { c with tlsSeq } := by
  induction sends generalizing c with
  | nil => exact ⟨c.tlsSeq, rfl⟩
  | cons send sends ih =>
    obtain ⟨mid, hmid⟩ := tlsSend_conn c send
    obtain ⟨last, hlast⟩ := ih (tlsSend c send).1
    rw [hmid] at hlast
    exact ⟨last, (congrArg (fun c => (tlsSendAll c sends).1) hmid).trans hlast⟩

/-- One call of `tls_send`. -/
theorem Records.afterCall {send : TlsSend} (h : Records base log out c proxy front)
    (hresume : out.pending <+: send.record) (hqueued : send.used → send.queued) :
    Records base (log ++ (tlsSend c send).2.filterMap Action.handed) (out.call send) (tlsSend c send).1
      proxy front := by
  have hextend : front ++ out.stream <+: front ++ (out.call send).stream := by
    rw [call_stream]
    exact (List.prefix_append_right_inj front).mpr
      ((List.prefix_append_right_inj out.accepted).mpr hresume)
  have hat : At (front ++ (out.call send).stream) (front ++ out.accepted).length send.piece := by
    rw [call_stream, ← List.append_assoc, At, List.drop_left]
    exact List.take_prefix _ _
  have hsent := h.sent.extend hextend
  have hactions : (tlsSend c send).2 = [.sendData c.tlsSeq send.piece send.queued] := rfl
  obtain ⟨tlsSeq, hconn⟩ := tlsSend_conn c send
  have hsame : (tlsSend c send).1.state.tls ∨ (tlsSend c send).1.established →
      proxy = (tlsSend c send).1.proxy := by
    rw [hconn]
    exact h.same
  have hnext : (log ++ [(c.tlsSeq, send.piece)]) =
      log ++ [(seqAt base (front ++ out.accepted).length, send.piece)] := by
    rw [h.seq]
  rw [hactions]
  cases hused : send.used with
  | true =>
    have hlen : (front ++ (out.call send).accepted).length =
        (front ++ out.accepted).length + send.piece.length := by
      simp [Session.call, hused, Nat.add_assoc]
    have hseq : (tlsSend c send).1.tlsSeq = c.tlsSeq + UInt32.ofNat send.piece.length := by
      simp [tlsSend, hused, TlsSend.piece]
    rw [hqueued hused]
    refine ⟨h.proxied, ?_, ?_, hsame⟩
    · rw [hlen]
      exact hnext ▸ hsent.send hat
    · rw [hlen, hseq, h.seq, seqAt_add]
  | false =>
    have haccepted : (out.call send).accepted = out.accepted := by
      simp [Session.call, hused]
    have hseq : (tlsSend c send).1.tlsSeq = c.tlsSeq := by
      simp [tlsSend, hused]
    refine ⟨h.proxied, ?_, ?_, hsame⟩
    · rw [haccepted]
      cases send.queued with
      | true => exact hnext ▸ (hsent.send hat).rewind (Nat.le_add_right _ _)
      | false =>
        have hnone : [Action.sendData c.tlsSeq send.piece false].filterMap Action.handed = [] := rfl
        rw [hnone, List.append_nil]
        exact hsent
    · rw [haccepted, hseq]
      exact h.seq

theorem Records.afterCalls (h : Records base log out c proxy front) (hresume : out.Resumes sends)
    (hqueued : Accepts sends) :
    Records base (log ++ (tlsSendAll c sends).2.filterMap Action.handed) (out.calls sends)
      (tlsSendAll c sends).1 proxy front := by
  induction sends generalizing log out c with
  | nil => simpa [tlsSendAll, Session.calls] using h
  | cons send sends ih =>
    obtain ⟨hfirst, hrest⟩ := hresume
    have hsend := h.afterCall hfirst (hqueued send List.mem_cons_self)
    have hall := ih hsend hrest fun other hmem => hqueued other (List.mem_cons_of_mem _ hmem)
    have hactions : (tlsSendAll c (send :: sends)).2 =
        (tlsSend c send).2 ++ (tlsSendAll (tlsSend c send).1 sends).2 := rfl
    rw [hactions, List.filterMap_append, ← List.append_assoc]
    exact hall

end Calls

section Ticks

/-- The tick comes to what is to be done in the state. -/
def Conn.works (c : Conn) (env : TickEnv) : Bool :=
  !(c.deadlineMs != 0 && c.deadlineMs < env.now) && c.haveGw && !(c.txInflight && !env.txDone)

/-- The request that is written over TLS. -/
def Conn.tlsMessage (request : Request) (c : Conn) : Bytes :=
  if c.tlsHttpBuf = [] then buildHttpRequest httpBufLen request else c.tlsHttpBuf

/-- What is to be done in the state is a call of the TLS library. -/
def Conn.needsTls (request : Request) (c : Conn) : Bool :=
  match c.state with
  | .tlsHandshake | .tlsRead => true
  | .tlsHttp => c.tlsHttpOff < (c.tlsMessage request).length
  | _ => false

/-- What is sent in a state must meet this: each message to the proxy is sent once, what is sent is
queued, and the TLS library is told of no byte that was not. -/
structure InOrder (request : Request) (c : Conn) (env : TickEnv) : Prop where
  socks : (c.state = .socksHello ∨ c.state = .socksConnect) ∧ c.nextMs ≤ env.now ∧
    c.retry < fetchMaxRetry → env.queued ∧ c.socksSent = false
  http : c.state = .http ∧ c.nextMs ≤ env.now ∧ c.ackSent ∧ c.httpSent = false → env.queued
  tls : c.needsTls request → Accepts env.tlsSends

instance (request : Request) (c : Conn) (env : TickEnv) : Decidable (InOrder request c env) :=
  decidable_of_iff
    (((c.state = .socksHello ∨ c.state = .socksConnect) ∧ c.nextMs ≤ env.now ∧
        c.retry < fetchMaxRetry → env.queued ∧ c.socksSent = false) ∧
      (c.state = .http ∧ c.nextMs ≤ env.now ∧ c.ackSent ∧ c.httpSent = false → env.queued) ∧
      (c.needsTls request → Accepts env.tlsSends))
    ⟨fun h => ⟨h.1, h.2.1, h.2.2⟩, fun h => ⟨h.socks, h.http, h.tls⟩⟩

/-- The session after the TLS library was called, if it was. -/
def sessionAfter (session : Option Session) (calls : Bool) (sends : List TlsSend) : Option Session :=
  if calls then session.map fun out => out.calls sends else session

/-- The connection stands to what a tick sends. -/
def StandsAfter (trace : List Action) (base : UInt32) (log : List (UInt32 × Bytes))
    (session : Option Session) (r : TickResult) : Prop :=
  Stands (trace ++ r.actions) base (log ++ r.actions.filterMap Action.handed) session r.conn

theorem leaves_failIfEmpty (c : Conn) (reason : Bytes) :
    Leaves c (c.failIfEmpty reason).finish [] := by
  unfold Conn.failIfEmpty
  split_ifs <;> exact ⟨rfl, rfl, .inl rfl, fun hup => ⟨hup, rfl⟩, rfl⟩

theorem leaves_restartRound (c : Conn) : Leaves c c.restartRound [.restart] := by
  unfold Conn.restartRound Conn.restartTransport
  dsimp only
  split_ifs <;> exact ⟨rfl, rfl, .inl rfl, fun hup => ⟨hup, rfl⟩, rfl⟩

/-- A tick without a connection sends nothing on one. -/
theorem tickState_leaves (h : c.state.still) :
    Leaves c (tickState request c env).conn (tickState request c env).actions := by
  have hretry : ∀ reason, Leaves c (retryRound c reason).conn (retryRound c reason).actions := by
    intro reason
    unfold retryRound
    split_ifs
    · exact leaves_restartRound c
    · exact leaves_failIfEmpty c reason
  have hsame : Leaves c c [] := (SameSend.refl c).leaves h rfl
  unfold tickState
  cases hstate : c.state with
  | idle => exact hsame
  | done => exact hsame
  | arp =>
    change Leaves c (tickArp c env).conn (tickArp c env).actions
    unfold tickArp
    split_ifs
    · refine ⟨?_, rfl, .inl rfl, fun hup => ⟨hup, rfl⟩, rfl⟩
      rcases resumeAfterGateway_state c with hsyn | hdns
      · exact hsyn ▸ rfl
      · exact hdns ▸ rfl
    · exact hsame
    · exact hretry _
    · exact ⟨h, rfl, .inl rfl, fun hup => ⟨hup, rfl⟩, rfl⟩
  | dns =>
    change Leaves c (tickDns request.domain c env).conn (tickDns request.domain c env).actions
    unfold tickDns
    dsimp only
    split_ifs
    · exact hsame
    · exact hretry _
    · exact ⟨h, rfl, .inl rfl, fun hup => ⟨hup, rfl⟩, rfl⟩
    · exact ⟨rfl, rfl, .inl rfl, fun hup => ⟨hup, rfl⟩, rfl⟩
    · exact ⟨h, rfl, .inl rfl, fun hup => ⟨hup, rfl⟩, rfl⟩
  | syn =>
    change Leaves c (tickSyn c env).conn (tickSyn c env).actions
    unfold tickSyn
    split_ifs
    · exact hsame
    · exact hretry _
    · exact ⟨h, rfl, .inl rfl, fun hup => ⟨hup, rfl⟩, rfl⟩
  | _ =>
    rw [hstate] at h
    cases h

/-- The connection after a message to the proxy. -/
def Conn.sentSocks (c : Conn) (message : Bytes) (now : ℕ) : Conn :=
  Conn.sent { c with seq := c.seq + UInt32.ofNat message.length, socksSent := true } (now + 2000)

theorem sendSocks_eq (c : Conn) (env : TickEnv) (message : Bytes) : sendSocks c env message =
    ⟨c.sentSocks message env.now, [.sendData c.seq message env.queued], false⟩ := rfl

/-- A message to the proxy that was not sent before. -/
theorem sendSocks_stands {message : Bytes} (h : Stands trace base log session c)
    (hstate : c.state = .socksHello ∨ c.state = .socksConnect) (hunsent : c.socksSent = false)
    (hqueued : env.queued = true)
    (hmessage : ∀ front, Greeted c.state false front → Greeted c.state true (front ++ message)) :
    StandsAfter trace base log session (sendSocks c env message) := by
  obtain ⟨rfl, hproxy, hoff, front, hgreeted, hsent, hseq⟩ := h.standing.of_socks hstate
  rw [hunsent] at hgreeted
  have hsent := hsent.append message
  have hnext : c.seq + UInt32.ofNat message.length = seqAt base (front ++ message).length := by
    rw [hseq, List.length_append, seqAt_add]
  rw [← hseq] at hsent
  rw [sendSocks_eq, hqueued]
  constructor
  · exact .socks (c := c.sentSocks message env.now) hproxy (hmessage front hgreeted) hsent hnext hoff
  · exact h.built.append _

theorem tickSocksHello_stands (h : Stands trace base log session c) (hstate : c.state = .socksHello)
    (horder : InOrder request c env) :
    StandsAfter trace base log session (tickSocksHello c env) := by
  unfold tickSocksHello
  split_ifs with hearly hretry
  · exact h.quiet (SameSend.refl c) (.inl rfl) rfl
  · exact h.leave (leaves_failIfEmpty c _)
  · obtain ⟨hqueued, hunsent⟩ := horder.socks ⟨.inl hstate, by omega, by omega⟩
    apply sendSocks_stands h (.inl hstate) hunsent hqueued
    intro front hfront
    rw [hstate] at hfront ⊢
    have hnil : front = [] := hfront
    rw [hnil]
    rfl

theorem tickSocksConnect_stands (h : Stands trace base log session c)
    (hstate : c.state = .socksConnect) (horder : InOrder request c env) :
    StandsAfter trace base log session (tickSocksConnect request c env) := by
  unfold tickSocksConnect
  split_ifs with hearly hretry hlong
  · exact h.quiet (SameSend.refl c) (.inl rfl) rfl
  · exact h.leave (leaves_failIfEmpty c _)
  · exact h.leave ⟨rfl, rfl, .inl rfl, fun hup => ⟨hup, rfl⟩, rfl⟩
  · obtain ⟨hqueued, hunsent⟩ := horder.socks ⟨.inr hstate, by omega, by omega⟩
    apply sendSocks_stands h (.inr hstate) hunsent hqueued
    intro front hfront
    rw [hstate] at hfront ⊢
    have hhello : front = socksHello := hfront
    rw [hhello]
    exact ⟨request, by omega, rfl⟩

theorem standsAfter_stay (h : Stands trace base log session c) :
    StandsAfter trace base log session (stay c) := by
  change Stands (trace ++ []) base (log ++ []) session c
  rw [List.append_nil, List.append_nil]
  exact h

theorem standsAfter_send {seq : UInt32} {data : Bytes} (hbuilt : Built trace d.httpBuf)
    (h : ∀ trace, Standing trace base (log ++ [(seq, data)]) session d) :
    StandsAfter trace base log session ⟨d, [.sendData seq data true], false⟩ :=
  ⟨h _, hbuilt.append _⟩

theorem standsAfter_build {r : TickResult}
    (h : StandsAfter (trace ++ [.buildRequest request]) base log session r) :
    StandsAfter trace base log session { r with actions := .buildRequest request :: r.actions } := by
  have htrace : trace ++ .buildRequest request :: r.actions =
      trace ++ [.buildRequest request] ++ r.actions := by
    rw [List.append_assoc, List.singleton_append]
  change Stands (trace ++ .buildRequest request :: r.actions) base
    (log ++ r.actions.filterMap Action.handed) session r.conn
  rw [htrace]
  exact h

/-- An attempt begins where the request begins. -/
theorem attempt_stands (h : Stands trace base log session c) (hstate : c.state = .http) :
    Stands trace base log session c.attempt ∧ (c.httpBuf ≠ [] → ∃ front, session = none ∧
      Proxied c.attempt.proxy front ∧ c.attempt.httpSeq = seqAt base front.length ∧
      Sent (seqAt base) log (front ++ c.httpBuf) (front.length + c.httpOff)) := by
  obtain ⟨rfl, hdone, hfits, front, hproxied, hsent, hseq, hbegin⟩ := h.standing.of_http hstate
  unfold Conn.attempt
  split_ifs with hoff
  · have hstart : c.seq = seqAt base front.length := by
      rw [hseq, hoff]
      rfl
    refine ⟨⟨.request hstate hproxied hsent hseq ?_ hdone hfits, h.built⟩,
      fun _ => ⟨front, rfl, hproxied, hstart, hsent⟩⟩
    exact fun _ => hstart
  · exact ⟨h, fun _ => ⟨front, rfl, hproxied, hbegin (Nat.pos_of_ne_zero hoff), hsent⟩⟩

theorem attempt_buffer (c : Conn) : c.attempt.httpBuf = c.httpBuf ∧ c.attempt.httpOff = c.httpOff := by
  unfold Conn.attempt
  split_ifs <;> exact ⟨rfl, rfl⟩

/-- A piece of the request is sent where the send pointer stands. -/
theorem sentPiece_standing (hstate : c.state = .http) (hproxied : Proxied c.proxy front)
    (hseq : c.httpSeq = seqAt base front.length)
    (hsent : Sent (seqAt base) log (front ++ c.httpBuf) (front.length + c.httpOff))
    (hmore : c.httpOff < c.httpBuf.length) (now : ℕ) (trace : List Action) :
    Standing trace base (log ++ [(c.httpSeq + UInt32.ofNat c.httpOff, c.nextPiece)]) none
      (c.sentPiece now c.nextPiece.length) := by
  have hlabel : c.httpSeq + UInt32.ofNat c.httpOff = seqAt base (front.length + c.httpOff) := by
    rw [hseq, seqAt_add]
  have hat : At (front ++ c.httpBuf) (front.length + c.httpOff) c.nextPiece := by
    rw [At, List.drop_append]
    simp only [Nat.le_add_right, List.drop_of_length_le, List.nil_append, Nat.add_sub_cancel_left]
    exact List.take_prefix _ _
  have hlen : c.nextPiece.length = min maxTcpPayloadLen (c.httpBuf.length - c.httpOff) := by
    rw [Conn.nextPiece, List.length_take, List.length_drop]
  have hmax : 0 < maxTcpPayloadLen := by decide
  have hnext := hsent.send hat
  rw [← hlabel, Nat.add_assoc] at hnext
  refine .request (c := c.sentPiece now c.nextPiece.length) hstate hproxied hnext ?_ (fun _ => hseq)
    (fun _ => ?_) ?_
  · change c.httpSeq + UInt32.ofNat c.httpOff + UInt32.ofNat c.nextPiece.length =
      seqAt base (front.length + (c.httpOff + c.nextPiece.length))
    rw [hlabel, ← Nat.add_assoc]
    exact (seqAt_add base (front.length + c.httpOff) _).symm
  · change 0 < c.httpOff + c.nextPiece.length
    omega
  · change c.httpOff + c.nextPiece.length ≤ c.httpBuf.length
    omega

theorem sendPiece_stands (h : Stands trace base log session c) (hstate : c.state = .http)
    (hbuf : c.httpBuf ≠ []) (hqueued : env.queued = true) :
    StandsAfter trace base log session (sendPiece c env) := by
  obtain ⟨hstands, hbegin⟩ := attempt_stands h hstate
  obtain ⟨front, rfl, hproxied, hseq, hsent⟩ := hbegin hbuf
  obtain ⟨hattemptBuf, hattemptOff⟩ := attempt_buffer c
  have hstate' : c.attempt.state = .http := (attempt_state c).trans hstate
  rw [← hattemptBuf, ← hattemptOff] at hsent
  rw [sendPiece_eq]
  split_ifs with hretry hend
  · exact h.leave (leaves_failIfEmpty c _)
  · apply standsAfter_stay
    obtain ⟨-, -, hfits, front, hproxied, hsent, hseq, hbegin⟩ := hstands.standing.of_http hstate'
    have hpos := List.length_pos_iff.mpr hbuf
    rw [← hattemptBuf] at hpos
    have hoff : 0 < c.attempt.httpOff := by omega
    exact ⟨.request hstate' hproxied hsent hseq hbegin (fun _ => hoff) hfits, hstands.built⟩
  · rw [hqueued]
    apply standsAfter_send
    · exact hstands.built
    · exact sentPiece_standing hstate' hproxied hseq hsent (Nat.lt_of_not_le hend) env.now

theorem sendRequest_stands (h : Stands trace base log session c) (hstate : c.state = .http)
    (hqueued : env.queued = true) :
    StandsAfter trace base log session (sendRequest request c env) := by
  unfold sendRequest
  dsimp only
  split_ifs with hempty hfail
  · exact h.leave ⟨rfl, rfl, .inr hfail, fun hup => ⟨hup, rfl⟩, rfl⟩
  · apply standsAfter_build
    obtain ⟨rfl, hdone, hfits, front, hproxied, hsent, hseq, -⟩ := h.standing.of_http hstate
    have hoff : c.httpOff = 0 := by
      rw [hempty] at hfits
      exact Nat.le_zero.mp hfits
    have hunsent : c.httpSent = true → 0 < 0 := fun hflag => hoff ▸ hdone hflag
    rw [hempty, List.append_nil, hoff] at hsent
    rw [hoff] at hseq
    have hbuilt : Stands (trace ++ [.buildRequest request]) base log none
        { c with httpBuf := buildHttpRequest httpBufLen request, httpOff := 0 } := by
      constructor
      · exact .request hstate hproxied (hsent.extend (List.prefix_append _ _)) hseq
          (fun h => absurd h (Nat.lt_irrefl 0)) hunsent (Nat.zero_le _)
      · exact .inr ⟨request, by simp, rfl⟩
    exact sendPiece_stands hbuilt hstate hfail hqueued
  · exact sendPiece_stands h hstate hempty hqueued

theorem tickHttp_stands (h : Stands trace base log session c) (hstate : c.state = .http)
    (horder : InOrder request c env) :
    StandsAfter trace base log session (tickHttp request c env) := by
  unfold tickHttp
  split_ifs with hearly hack hsent hretry
  · exact standsAfter_stay h
  · exact h.quiet ⟨rfl, rfl, rfl, rfl, rfl, rfl, rfl, rfl, id⟩ (.inl rfl) rfl
  · apply sendRequest_stands h hstate
    exact horder.http ⟨hstate, by omega, by simpa using hack, by simpa using hsent⟩
  · exact h.leave (leaves_failIfEmpty c _)
  · apply standsAfter_stay
    obtain ⟨rfl, hdone, -, front, hproxied, hwire, -, hbegin⟩ := h.standing.of_http hstate
    have hseq := hbegin (hdone (by simpa using hsent))
    refine ⟨.request hstate hproxied (hwire.rewind ?_) hseq (fun h => absurd h (Nat.lt_irrefl 0))
      (fun h => Bool.noConfusion h) (Nat.zero_le _), h.built⟩
    exact Nat.le_add_right _ _

theorem tlsSendAll_tls (h : c.state.tls) (sends : List TlsSend) :
    (tlsSendAll c sends).1.state.tls = true := by
  obtain ⟨tlsSeq, hconn⟩ := tlsSendAll_conn c sends
  rw [hconn]
  exact h

/-- The TLS library is called, and the state may change. -/
theorem calls_stands {reads : Bool} (h : Stands trace base log session c) (htls : c.state.tls)
    (hresume : ∀ out ∈ session, out.Resumes sends) (haccepts : Accepts sends)
    (hproxy : d.proxy = (tlsSendAll c sends).1.proxy)
    (hseq : d.tlsSeq = (tlsSendAll c sends).1.tlsSeq)
    (hbuf : d.httpBuf = (tlsSendAll c sends).1.httpBuf) (hstate : d.state.still ∨ d.state.tls) :
    StandsAfter trace base log (sessionAfter session true sends)
      ⟨d, (tlsSendAll c sends).2, reads⟩ := by
  obtain ⟨out, proxy, front, rfl, hrecords⟩ := h.standing.of_tls htls
  have hcalls := hrecords.afterCalls (hresume out rfl) haccepts
  obtain ⟨tlsSeq, hconn⟩ := tlsSendAll_conn c sends
  constructor
  · refine .records hstate ⟨hcalls.proxied, hcalls.sent, hseq.trans hcalls.seq, ?_⟩
    intro _
    rw [hproxy]
    exact hcalls.same (.inl (tlsSendAll_tls htls sends))
  · have hsame : d.httpBuf = c.httpBuf := by
      rw [hbuf, hconn]
    exact (hsame.symm ▸ h.built : Built trace d.httpBuf).append _

theorem tickTlsHandshake_stands (h : Stands trace base log session c)
    (hstate : c.state = .tlsHandshake) (haccepts : Accepts env.tlsSends)
    (hresume : ∀ out ∈ session, out.Resumes env.tlsSends) :
    StandsAfter trace base log (sessionAfter session true env.tlsSends) (tickTlsHandshake c env) := by
  have htls : c.state.tls = true := by
    rw [hstate]
    rfl
  unfold tickTlsHandshake
  dsimp only
  split
  · exact calls_stands h htls hresume haccepts rfl rfl rfl (.inr rfl)
  · exact calls_stands h htls hresume haccepts rfl rfl rfl (.inr (tlsSendAll_tls htls _))
  · exact calls_stands h htls hresume haccepts rfl rfl rfl (.inl rfl)

theorem writeRequest_stands (h : Stands trace base log session c) (hstate : c.state = .tlsHttp)
    (haccepts : c.tlsHttpOff < c.tlsHttpBuf.length → Accepts env.tlsSends ∧
      ∀ out ∈ session, out.Resumes env.tlsSends) :
    StandsAfter trace base log
      (sessionAfter session (c.tlsHttpOff < c.tlsHttpBuf.length) env.tlsSends)
      (writeRequest c env) := by
  have htls : c.state.tls = true := by
    rw [hstate]
    rfl
  unfold writeRequest
  split_ifs with hwritten
  · rw [decide_eq_false (Nat.not_lt.mpr hwritten)]
    exact h.quiet ⟨rfl, rfl, rfl, rfl, rfl, rfl, rfl, rfl, id⟩ (.inr ⟨htls, rfl⟩) rfl
  obtain ⟨haccepts, hresume⟩ := haccepts (Nat.lt_of_not_le hwritten)
  rw [decide_eq_true (Nat.lt_of_not_le hwritten)]
  dsimp only
  split
  · exact calls_stands h htls hresume haccepts rfl rfl rfl (.inr (tlsSendAll_tls htls _))
  · exact calls_stands h htls hresume haccepts rfl rfl rfl (.inr (tlsSendAll_tls htls _))
  · exact calls_stands h htls hresume haccepts rfl rfl rfl (.inl rfl)

theorem tickTlsHttp_stands (h : Stands trace base log session c) (hstate : c.state = .tlsHttp)
    (horder : InOrder request c env)
    (hresume : c.needsTls request → ∀ out ∈ session, out.Resumes env.tlsSends) :
    StandsAfter trace base log (sessionAfter session (c.needsTls request) env.tlsSends)
      (tickTlsHttp request c env) := by
  have hneeds : c.needsTls request = decide (c.tlsHttpOff < (c.tlsMessage request).length) := by
    simp [Conn.needsTls, hstate]
  unfold tickTlsHttp
  dsimp only
  rw [hneeds]
  rw [hneeds, decide_eq_true_eq] at hresume
  have haccepts := horder.tls
  rw [hneeds, decide_eq_true_eq] at haccepts
  unfold Conn.tlsMessage at hresume haccepts ⊢
  split_ifs at hresume haccepts ⊢ with hempty hfail
  · have hnone : ¬ c.tlsHttpOff < ([] : Bytes).length := Nat.not_lt_zero _
    rw [hfail, decide_eq_false hnone]
    exact h.leave ⟨rfl, rfl, .inl rfl, fun hup => ⟨hup, rfl⟩, rfl⟩
  · apply standsAfter_build
    have hbuilt : Stands (trace ++ [.buildRequest request]) base log session
        { c with tlsHttpBuf := buildHttpRequest httpBufLen request } := by
      have hsend : SameSend c { c with tlsHttpBuf := buildHttpRequest httpBufLen request } :=
        ⟨rfl, rfl, rfl, rfl, rfl, rfl, rfl, rfl, id⟩
      have hnone : [Action.buildRequest request].filterMap Action.handed = [] := rfl
      have hquiet := h.quiet hsend (.inl rfl) hnone
      rw [hnone, List.append_nil] at hquiet
      exact hquiet
    exact writeRequest_stands hbuilt hstate fun hmore => ⟨haccepts hmore, hresume hmore⟩
  · exact writeRequest_stands h hstate fun hmore => ⟨haccepts hmore, hresume hmore⟩

theorem needsTls_still (h : c.state.still) : c.needsTls request = false := by
  unfold Conn.needsTls
  cases hstate : c.state <;> first | rfl | simp [hstate, FetchState.still] at h

theorem tickState_stands (h : Stands trace base log session c) (horder : InOrder request c env)
    (hresume : c.needsTls request → ∀ out ∈ session, out.Resumes env.tlsSends)
    (hread : c.state ≠ .tlsRead) :
    StandsAfter trace base log (sessionAfter session (c.needsTls request) env.tlsSends)
      (tickState request c env) := by
  have hnone : ∀ r, c.needsTls request = false → StandsAfter trace base log session r →
      StandsAfter trace base log (sessionAfter session (c.needsTls request) env.tlsSends) r := by
    intro r hneeds hr
    rw [hneeds]
    exact hr
  cases hstate : c.state with
  | socksHello =>
    apply hnone
    · simp [Conn.needsTls, hstate]
    · simpa only [tickState, hstate] using tickSocksHello_stands h hstate horder
  | socksConnect =>
    apply hnone
    · simp [Conn.needsTls, hstate]
    · simpa only [tickState, hstate] using tickSocksConnect_stands h hstate horder
  | http =>
    apply hnone
    · simp [Conn.needsTls, hstate]
    · simpa only [tickState, hstate] using tickHttp_stands h hstate horder
  | tlsHandshake =>
    have hneeds : c.needsTls request = true := by
      simp [Conn.needsTls, hstate]
    rw [hneeds]
    simpa only [tickState, hstate] using
      tickTlsHandshake_stands h hstate (horder.tls hneeds) (hresume hneeds)
  | tlsHttp => simpa only [tickState, hstate] using tickTlsHttp_stands h hstate horder hresume
  | tlsRead => exact absurd hstate hread
  | _ =>
    have hstill : c.state.still = true := by
      rw [hstate]
      rfl
    exact hnone _ (needsTls_still hstill) (h.leave (tickState_leaves hstill))

/-- The tick calls the TLS library. -/
def Conn.callsTls (request : Request) (c : Conn) (env : TickEnv) : Bool :=
  c.works env && c.needsTls request

theorem tickConn_leaves (h : c.state.still) :
    Leaves c (tickConn request c env).conn (tickConn request c env).actions := by
  rw [tickConn_eq]
  unfold tickOn
  split_ifs
  · exact (SameSend.refl c).leaves h rfl
  · obtain ⟨hstill, hseq, hbuf, hup, hhanded⟩ := leaves_restartRound c
    exact ⟨hstill, hseq, hbuf, hup, hhanded⟩
  · exact leaves_failIfEmpty c _
  · exact ⟨rfl, rfl, .inl rfl, fun hup => ⟨hup, rfl⟩, rfl⟩
  · exact ⟨h, rfl, .inl rfl, fun hup => ⟨hup, rfl⟩, rfl⟩
  · have hbegun : Conn.state { c with deadlineMs := c.deadlineAt env.now, txInflight := false } |>.still :=
      h
    have hleave := @tickState_leaves request _ env hbegun
    exact ⟨hleave.still, hleave.tlsSeq, hleave.httpBuf, hleave.established, hleave.handed⟩

/-- A tick that comes to the work of a state with a connection. -/
theorem works_of_busy (hstill : ¬ c.state.still) (hlate : ¬ (c.deadlineMs ≠ 0 ∧ c.deadlineMs < env.now))
    (hgw : ¬ (c.state ≠ .arp ∧ !c.haveGw)) (hbusy : ¬ (c.txInflight ∧ !env.txDone)) :
    c.works env = true := by
  have hup : c.haveGw = true := by
    by_contra hno
    refine hgw ⟨?_, by simpa using hno⟩
    intro harp
    rw [harp] at hstill
    exact hstill rfl
  have htime : (c.deadlineMs != 0 && decide (c.deadlineMs < env.now)) = false := by
    rw [Bool.eq_false_iff]
    simpa using hlate
  have hfree : (c.txInflight && !env.txDone) = false := by
    rw [Bool.eq_false_iff]
    simpa using hbusy
  simp [Conn.works, htime, hup, hfree]

/-- A tick that does not read leaves the connection in accord with what was sent over it. -/
theorem tickConn_stands (h : Stands trace base log session c)
    (horder : c.works env → InOrder request c env)
    (hresume : c.callsTls request env → ∀ out ∈ session, out.Resumes env.tlsSends)
    (hreads : (tickConn request c env).reads = false) :
    StandsAfter trace base log (sessionAfter session (c.callsTls request env) env.tlsSends)
      (tickConn request c env) := by
  have hnone : ∀ r, c.callsTls request env = false → StandsAfter trace base log session r →
      StandsAfter trace base log (sessionAfter session (c.callsTls request env) env.tlsSends) r := by
    intro r hcalls hr
    rw [hcalls]
    exact hr
  by_cases hstill : c.state.still = true
  · apply hnone
    · simp [Conn.callsTls, needsTls_still hstill]
    · exact h.leave (tickConn_leaves hstill)
  rw [tickConn_eq] at hreads ⊢
  unfold tickOn at hreads ⊢
  split_ifs at hreads ⊢ with hidle hlate hrounds hgw hbusy
  · rw [hidle] at hstill
    exact absurd rfl hstill
  · apply hnone
    · simp [Conn.callsTls, Conn.works, hlate]
    · obtain ⟨hstill, hseq, hbuf, hup, hhanded⟩ := leaves_restartRound c
      exact h.leave ⟨hstill, hseq, hbuf, hup, hhanded⟩
  · apply hnone _ _ (h.leave (leaves_failIfEmpty c _))
    simp [Conn.callsTls, Conn.works, hlate]
  · apply hnone _ _ (h.leave ⟨rfl, rfl, .inl rfl, fun hup => ⟨hup, rfl⟩, rfl⟩)
    have hno : c.haveGw = false := by simpa using hgw.2
    simp [Conn.callsTls, Conn.works, hno]
  · apply hnone _ _ (h.quiet ⟨rfl, rfl, rfl, rfl, rfl, rfl, rfl, rfl, id⟩ (.inl rfl) rfl)
    have hwait : (c.txInflight && !env.txDone) = true := by simpa using hbusy
    simp [Conn.callsTls, Conn.works, hwait]
  · have hwork := works_of_busy hstill hlate hgw hbusy
    have hcalls : c.callsTls request env = c.needsTls request := by
      rw [Conn.callsTls, hwork, Bool.true_and]
    have hbegun : Stands trace base log session
        { c with deadlineMs := c.deadlineAt env.now, txInflight := false } :=
      h.congr ⟨rfl, rfl, rfl, rfl, rfl, rfl, rfl, rfl, id⟩ rfl
    obtain ⟨hsocks, hhttp, htls⟩ := horder hwork
    rw [hcalls] at hresume ⊢
    apply tickState_stands hbegun ⟨hsocks, hhttp, htls⟩ hresume
    intro hread
    have hstate : c.state = .tlsRead := hread
    simp [tickState, hstate] at hreads

/-- A tick that reads sends nothing before. -/
theorem tickConn_reads (h : (tickConn request c env).reads = true) :
    c.state = .tlsRead ∧ c.works env = true ∧ SameSend c (tickConn request c env).conn ∧
      (tickConn request c env).conn.state = .tlsRead := by
  have hread : c.state = .tlsRead := by
    have hstep := tickConn_step request c env
    generalize tickConn request c env = r at hstep h
    cases hstep with
    | restart => cases h
    | progress hprogress => exact (hprogress.reads h).1
  have hstill : ¬ c.state.still := by
    rw [hread]
    exact Bool.false_ne_true
  rw [tickConn_eq] at h ⊢
  unfold tickOn at h ⊢
  by_cases hidle : c.state = .idle
  · rw [hread] at hidle
    cases hidle
  rw [if_neg hidle] at h ⊢
  by_cases hlate : c.deadlineMs ≠ 0 ∧ c.deadlineMs < env.now
  · rw [if_pos hlate] at h
    split_ifs at h
    cases h
  rw [if_neg hlate] at h ⊢
  by_cases hgw : c.state ≠ .arp ∧ !c.haveGw
  · rw [if_pos hgw] at h
    cases h
  rw [if_neg hgw] at h ⊢
  by_cases hbusy : c.txInflight ∧ !env.txDone
  · rw [if_pos hbusy] at h
    cases h
  rw [if_neg hbusy] at h ⊢
  have hwork := works_of_busy hstill hlate hgw hbusy
  have hresult : tickState request
      { c with deadlineMs := c.deadlineAt env.now, txInflight := false } env =
      ⟨{ c with deadlineMs := c.deadlineAt env.now, txInflight := false }, [], true⟩ := by
    simp [tickState, hread]
  rw [hresult]
  exact ⟨hread, hwork, ⟨rfl, rfl, rfl, rfl, rfl, rfl, rfl, rfl, id⟩, hread⟩

end Ticks

end MiniAgentOS.Fetch
