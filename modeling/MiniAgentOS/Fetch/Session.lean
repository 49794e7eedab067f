import MiniAgentOS.Fetch.KernelSteps
import MiniAgentOS.Lib.Wire

/-! What a connection carries to its peer: the messages to the proxy, and then the request or the
records of a TLS session. -/
namespace MiniAgentOS.Fetch
open Net Http Wire

section Log

def Action.opened : Action → Option UInt32
  | .established seq _ => some seq
  | _ => none

/-- What the device was handed. -/
def Action.handed : Action → Option (UInt32 × Bytes)
  | .sendData seq data true => some (seq, data)
  | _ => none

/-- The last connection: the sequence number of its first byte, and all that the device was handed. -/
def lastConnection (trace : List Action) : Option (UInt32 × List (UInt32 × Bytes)) :=
  (Trace.since Action.opened trace).map fun s => (s.1, s.2.filterMap Action.handed)

variable {trace new : List Action} {base : UInt32} {log : List (UInt32 × Bytes)}

theorem lastConnection_opened (trace : List Action) (seq ack : UInt32) :
    lastConnection (trace ++ [.established seq ack]) = some (seq, []) := by
  unfold lastConnection
  rw [Trace.since_mark trace (b := seq) rfl]
  rfl

theorem lastConnection_append (h : ∀ action ∈ new, action.opened = none) (trace : List Action) :
    lastConnection (trace ++ new) =
      (lastConnection trace).map fun s => (s.1, s.2 ++ new.filterMap Action.handed) := by
  unfold lastConnection
  rw [Trace.since_append h]
  cases Trace.since Action.opened trace with
  | none => rfl
  | some last => simp

end Log

section Session

/-- What the TLS library has written in its session: what `tls_send` accepted, and what is still in its
output buffer. -/
structure Session where
  accepted : Bytes := []
  pending : Bytes := []
  deriving DecidableEq, Repr

def Session.stream (out : Session) : Bytes := out.accepted ++ out.pending

/-- The bytes of a record that one call of `tls_send` sends. -/
def TlsSend.piece (send : TlsSend) : Bytes := send.record.take (min tlsTxChunkLen maxTcpPayloadLen)

/-- The library drops from its buffer what was accepted. -/
def Session.call (out : Session) (send : TlsSend) : Session :=
  if send.used then
    { accepted := out.accepted ++ send.piece, pending := send.record.drop send.piece.length }
  else { out with pending := send.record }

def Session.calls (out : Session) (sends : List TlsSend) : Session := sends.foldl Session.call out

/-- `mbedtls_ssl_flush_output`: a call gets all that the buffer holds, from its first byte that was not
accepted. -/
def Session.Resumes : Session → List TlsSend → Prop
  | _, [] => True
  | out, send :: sends => out.pending <+: send.record ∧ (out.call send).Resumes sends

instance Session.decidableResumes : ∀ (out : Session) (sends : List TlsSend),
    Decidable (out.Resumes sends)
  | _, [] => isTrue trivial
  | out, send :: sends =>
    have := Session.decidableResumes (out.call send) sends
    inferInstanceAs (Decidable (_ ∧ _))

/-- No byte is accepted that was not queued. -/
def Accepts (sends : List TlsSend) : Prop := ∀ send ∈ sends, send.used → send.queued

instance (sends : List TlsSend) : Decidable (Accepts sends) :=
  inferInstanceAs (Decidable (∀ send ∈ sends, _ → _))

end Session

section Stream

/-- What precedes the request on a connection. -/
def Proxied (proxy : Bool) (front : Bytes) : Prop :=
  if proxy then
    ∃ request : Request, request.domain.length ≤ 255 ∧ front = socksHello ++ socksConnect request
  else front = []

/-- What a connection carries for the fetch: nothing as yet, a request, or the records of its
session. -/
inductive Payload (trace : List Action) (session : Option Session) : Bytes → Prop
  | nothing : Payload trace session []
  | request (request : Request) (built : .buildRequest request ∈ trace) :
      Payload trace session (buildHttpRequest httpBufLen request)
  | records (out : Session) (live : session = some out) : Payload trace session out.stream

/-- A stream that a connection is meant to carry. -/
def Intended (trace : List Action) (session : Option Session) (proxy : Bool) (stream : Bytes) : Prop :=
  ∃ front payload, Proxied proxy front ∧ Payload trace session payload ∧ stream = front ++ payload

/-- The send pointer in the states in which there is one. -/
def Conn.pointer (c : Conn) : Option UInt32 :=
  match c.state with
  | .socksHello | .socksConnect | .http => some c.seq
  | .tlsHandshake | .tlsHttp | .tlsRead => some c.tlsSeq
  | .idle | .arp | .dns | .syn | .done => none

/-- A connection has put the first `n` bytes of its stream on the wire, and nothing else; `n` is where
its send pointer stands. -/
def OnWire (trace : List Action) (session : Option Session) (c : Conn) : Prop :=
  match lastConnection trace with
  | none => c.pointer = none
  | some (base, log) => ∃ proxy stream n, Intended trace session proxy stream ∧
      Sent (seqAt base) log stream n ∧ ∀ seq ∈ c.pointer, proxy = c.proxy ∧ seq = seqAt base n

end Stream

section Standing

/-- The states in which a fetch has no connection, or does not use it any more. -/
def FetchState.still : FetchState → Bool
  | .idle | .arp | .dns | .syn | .done => true
  | _ => false

def FetchState.tls : FetchState → Bool
  | .tlsHandshake | .tlsHttp | .tlsRead => true
  | _ => false

/-- What the proxy was told when its answer is awaited. -/
def Greeted : FetchState → Bool → Bytes → Prop
  | .socksHello, false, front => front = []
  | .socksHello, true, front | .socksConnect, false, front => front = socksHello
  | .socksConnect, true, front => Proxied true front
  | _, _, _ => False

/-- The records of a session follow what precedes them, up to where the library stands. -/
structure Records (base : UInt32) (log : List (UInt32 × Bytes)) (out : Session) (c : Conn) (proxy : Bool)
    (front : Bytes) : Prop where
  proxied : Proxied proxy front
  sent : Sent (seqAt base) log (front ++ out.stream) (front ++ out.accepted).length
  seq : c.tlsSeq = seqAt base (front ++ out.accepted).length
  same : c.state.tls ∨ c.established → proxy = c.proxy

/-- The request that was built, if there is one. -/
def Built (trace : List Action) (message : Bytes) : Prop :=
  message = [] ∨ ∃ request, .buildRequest request ∈ trace ∧
    message = buildHttpRequest httpBufLen request

/-- How the connection stands to what was sent over it. -/
inductive Standing (trace : List Action) (base : UInt32) (log : List (UInt32 × Bytes)) :
    Option Session → Conn → Prop
  | socks {c : Conn} {front : Bytes} (proxy : c.proxy = true) (greeted : Greeted c.state c.socksSent front)
      (sent : Sent (seqAt base) log front front.length) (seq : c.seq = seqAt base front.length)
      (unsent : c.httpOff = 0 ∧ c.httpSent = false) : Standing trace base log none c
  | request {c : Conn} {front : Bytes} (state : c.state = .http) (proxied : Proxied c.proxy front)
      (sent : Sent (seqAt base) log (front ++ c.httpBuf) (front.length + c.httpOff))
      (seq : c.seq = seqAt base (front.length + c.httpOff))
      (begin : 0 < c.httpOff → c.httpSeq = seqAt base front.length)
      (done : c.httpSent → 0 < c.httpOff) (fits : c.httpOff ≤ c.httpBuf.length) :
      Standing trace base log none c
  | records {c : Conn} {out : Session} {proxy : Bool} {front : Bytes}
      (state : c.state.still ∨ c.state.tls) (records : Records base log out c proxy front) :
      Standing trace base log (some out) c
  | ended {c : Conn} {proxy : Bool} {stream : Bytes} {n : ℕ} (state : c.state.still)
      (intended : Intended trace none proxy stream) (sent : Sent (seqAt base) log stream n) :
      Standing trace base log none c

variable {trace trace' : List Action} {base : UInt32} {log : List (UInt32 × Bytes)}
  {session : Option Session} {c d : Conn}

theorem still_of_tls {state : FetchState} (h : state.tls) : state.still = false := by
  cases state <;> first | rfl | cases h

theorem pointer_still (h : c.state.still) : c.pointer = none := by
  unfold Conn.pointer
  cases hstate : c.state <;> rw [hstate] at h <;> first | rfl | cases h

theorem pointer_tls (h : c.state.tls) : c.pointer = some c.tlsSeq := by
  unfold Conn.pointer
  cases hstate : c.state <;> rw [hstate] at h <;> first | rfl | cases h

theorem greeted_state {state : FetchState} {said : Bool} {front : Bytes}
    (h : Greeted state said front) : state = .socksHello ∨ state = .socksConnect := by
  unfold Greeted at h
  split at h
  · exact .inl rfl
  · exact .inl rfl
  · exact .inr rfl
  · exact .inr rfl
  · cases h

/-- All that is told to the proxy is the beginning of what precedes a request. -/
theorem greeted_intended {state : FetchState} {said : Bool} {front : Bytes}
    (h : Greeted state said front) (trace : List Action) (session : Option Session) :
    ∃ stream, front <+: stream ∧ Intended trace session true stream := by
  have hnone : Proxied true (socksHello ++ socksConnect {}) := ⟨{}, Nat.zero_le _, rfl⟩
  have hintended : ∀ front, Proxied true front → Intended trace session true front :=
    fun front hfront => ⟨front, [], hfront, .nothing, (List.append_nil _).symm⟩
  unfold Greeted at h
  split at h
  · rw [h]
    exact ⟨_, List.nil_prefix, hintended _ hnone⟩
  · rw [h]
    exact ⟨_, List.prefix_append _ _, hintended _ hnone⟩
  · rw [h]
    exact ⟨_, List.prefix_append _ _, hintended _ hnone⟩
  · exact ⟨front, List.prefix_rfl, hintended _ h⟩
  · cases h

theorem greeted_pointer {front : Bytes} (h : Greeted c.state c.socksSent front) :
    c.pointer = some c.seq := by
  unfold Conn.pointer
  rcases greeted_state h with hstate | hstate <;> rw [hstate]

theorem Built.payload {message : Bytes} (h : Built trace message) (session : Option Session) :
    Payload trace session message := by
  rcases h with rfl | ⟨request, hbuilt, rfl⟩
  · exact .nothing
  · exact .request request hbuilt

theorem Standing.of_socks (h : Standing trace base log session c)
    (hstate : c.state = .socksHello ∨ c.state = .socksConnect) : session = none ∧ c.proxy = true ∧
    (c.httpOff = 0 ∧ c.httpSent = false) ∧ ∃ front, Greeted c.state c.socksSent front ∧
      Sent (seqAt base) log front front.length ∧ c.seq = seqAt base front.length := by
  cases h with
  | socks proxy greeted sent seq unsent => exact ⟨rfl, proxy, unsent, _, greeted, sent, seq⟩
  | request state => rcases hstate with hstate | hstate <;> simp [hstate] at state
  | records state =>
    rcases hstate with hstate | hstate <;> simp [hstate, FetchState.still, FetchState.tls] at state
  | ended state => rcases hstate with hstate | hstate <;> simp [hstate, FetchState.still] at state

theorem Standing.of_http (h : Standing trace base log session c) (hstate : c.state = .http) :
    session = none ∧ (c.httpSent → 0 < c.httpOff) ∧ c.httpOff ≤ c.httpBuf.length ∧
    ∃ front, Proxied c.proxy front ∧
      Sent (seqAt base) log (front ++ c.httpBuf) (front.length + c.httpOff) ∧
      c.seq = seqAt base (front.length + c.httpOff) ∧
      (0 < c.httpOff → c.httpSeq = seqAt base front.length) := by
  cases h with
  | socks _ greeted => rcases greeted_state greeted with h | h <;> simp [hstate] at h
  | request _ proxied sent seq begin done fits =>
    exact ⟨rfl, done, fits, _, proxied, sent, seq, begin⟩
  | records state => simp [hstate, FetchState.still, FetchState.tls] at state
  | ended state => simp [hstate, FetchState.still] at state

theorem Standing.of_tls (h : Standing trace base log session c) (hstate : c.state.tls) :
    ∃ out proxy front, session = some out ∧ Records base log out c proxy front := by
  cases h with
  | socks _ greeted =>
    rcases greeted_state greeted with h | h <;> simp [h, FetchState.tls] at hstate
  | request state => simp [state, FetchState.tls] at hstate
  | records _ records => exact ⟨_, _, _, rfl, records⟩
  | ended state =>
    rw [still_of_tls hstate] at state
    cases state

/-- Where the connection stands, all is on the wire. -/
theorem Standing.onWire (h : Standing trace base log session c) (hbuilt : Built trace c.httpBuf) :
    ∃ proxy stream n, Intended trace session proxy stream ∧ Sent (seqAt base) log stream n ∧
      ∀ seq ∈ c.pointer, proxy = c.proxy ∧ seq = seqAt base n := by
  cases h with
  | @socks _ front proxy greeted sent seq _ =>
    obtain ⟨stream, hfront, hintended⟩ := greeted_intended greeted trace none
    refine ⟨true, stream, _, hintended, sent.extend hfront, ?_⟩
    rw [greeted_pointer greeted]
    rintro _ ⟨rfl⟩
    exact ⟨proxy.symm, seq⟩
  | @request _ front state proxied sent seq _ _ _ =>
    refine ⟨c.proxy, _, _, ⟨front, c.httpBuf, proxied, hbuilt.payload none, rfl⟩, sent, ?_⟩
    have hpointer : c.pointer = some c.seq := by
      unfold Conn.pointer
      rw [state]
    rw [hpointer]
    rintro _ ⟨rfl⟩
    exact ⟨rfl, seq⟩
  | @records _ out proxy front state records =>
    refine ⟨proxy, _, _, ⟨front, _, records.proxied, .records out rfl, rfl⟩, records.sent, ?_⟩
    intro seq hseq
    by_cases htls : c.state.tls = true
    · rw [pointer_tls htls] at hseq
      cases hseq
      exact ⟨records.same (.inl htls), records.seq⟩
    · rw [pointer_still (state.resolve_right htls)] at hseq
      cases hseq
  | ended state intended sent =>
    refine ⟨_, _, _, intended, sent, ?_⟩
    rw [pointer_still state]
    intro _ h
    cases h

/-- What is left of a connection that is not used any more. -/
structure Leaves (c d : Conn) (actions : List Action) : Prop where
  still : d.state.still
  tlsSeq : d.tlsSeq = c.tlsSeq
  httpBuf : d.httpBuf = c.httpBuf ∨ d.httpBuf = []
  established : d.established → c.established ∧ d.proxy = c.proxy
  handed : actions.filterMap Action.handed = []

/-- Both connections stand alike to what they send. -/
structure SameSend (c d : Conn) : Prop where
  seq : d.seq = c.seq
  tlsSeq : d.tlsSeq = c.tlsSeq
  socksSent : d.socksSent = c.socksSent
  httpSent : d.httpSent = c.httpSent
  httpSeq : d.httpSeq = c.httpSeq
  httpBuf : d.httpBuf = c.httpBuf
  httpOff : d.httpOff = c.httpOff
  proxy : d.proxy = c.proxy
  established : d.established → c.established

theorem SameSend.refl (c : Conn) : SameSend c c := ⟨rfl, rfl, rfl, rfl, rfl, rfl, rfl, rfl, id⟩

theorem sameSend_core (h : d.core = c.core) : SameSend c d := by
  have hcore : SameSend c.core d.core := h ▸ SameSend.refl c.core
  exact ⟨hcore.1, hcore.2, hcore.3, hcore.4, hcore.5, hcore.6, hcore.7, hcore.8, hcore.9⟩

theorem SameSend.leaves {actions : List Action} (h : SameSend c d) (hstill : d.state.still)
    (hhanded : actions.filterMap Action.handed = []) : Leaves c d actions := by
  constructor
  · exact hstill
  · exact h.tlsSeq
  · exact .inl h.httpBuf
  · exact fun hup => ⟨h.established hup, h.proxy⟩
  · exact hhanded

/-- The connection stands to what was sent over it, and its request is one that was built. -/
structure Stands (trace : List Action) (base : UInt32) (log : List (UInt32 × Bytes))
    (session : Option Session) (c : Conn) : Prop where
  standing : Standing trace base log session c
  built : Built trace c.httpBuf

theorem Built.append {message : Bytes} (h : Built trace message) (new : List Action) :
    Built (trace ++ new) message :=
  h.imp_right fun ⟨request, hbuilt, hmessage⟩ =>
    ⟨request, List.mem_append_left _ hbuilt, hmessage⟩

theorem Payload.append {payload : Bytes} (h : Payload trace session payload) (new : List Action) :
    Payload (trace ++ new) session payload := by
  cases h with
  | nothing => exact .nothing
  | request request built => exact .request request (List.mem_append_left _ built)
  | records out live => exact .records out live

theorem Intended.append {proxy : Bool} {stream : Bytes} (h : Intended trace session proxy stream)
    (new : List Action) : Intended (trace ++ new) session proxy stream := by
  obtain ⟨front, payload, hfront, hpayload, hstream⟩ := h
  exact ⟨front, payload, hfront, hpayload.append new, hstream⟩

/-- A connection is given up. -/
theorem Stands.leave {actions : List Action} (h : Stands trace base log session c)
    (hleave : Leaves c d actions) :
    Stands (trace ++ actions) base (log ++ actions.filterMap Action.handed) session d := by
  rw [hleave.handed, List.append_nil]
  constructor
  swap
  · rcases hleave.httpBuf with hsame | hnone
    · rw [hsame]
      exact h.built.append actions
    · exact .inl hnone
  cases session with
  | none =>
    obtain ⟨proxy, stream, n, hintended, hsent, -⟩ := h.standing.onWire h.built
    exact .ended hleave.still (hintended.append actions) hsent
  | some out =>
    cases h.standing with
    | records state records =>
      refine .records (.inl hleave.still) ⟨records.proxied, records.sent, ?_, ?_⟩
      · rw [hleave.tlsSeq]
        exact records.seq
      · intro hup
        have hstill := hleave.still
        rcases hup with htls | hup
        · rw [still_of_tls htls] at hstill
          cases hstill
        · obtain ⟨hbefore, hsame⟩ := hleave.established hup
          rw [hsame]
          exact records.same (.inr hbefore)

/-- A step that sends nothing and moves no pointer. -/
theorem Stands.quiet {actions : List Action} (h : Stands trace base log session c)
    (hsend : SameSend c d) (hstate : d.state = c.state ∨ (c.state.tls ∧ d.state.tls))
    (hhanded : actions.filterMap Action.handed = []) :
    Stands (trace ++ actions) base (log ++ actions.filterMap Action.handed) session d := by
  obtain ⟨hseq, htlsSeq, hsocks, hsentFlag, hhttpSeq, hbuf, hoff, hproxy, hup⟩ := hsend
  rw [hhanded, List.append_nil]
  constructor
  swap
  · rw [hbuf]
    exact h.built.append actions
  cases h.standing with
  | socks proxy greeted sent seq unsent =>
    have hsame : d.state = c.state := by
      apply hstate.resolve_right
      rintro ⟨htls, -⟩
      rcases greeted_state greeted with hc | hc <;> rw [hc] at htls <;> cases htls
    refine .socks (hproxy.trans proxy) ?_ sent (hseq.trans seq) ?_
    · rw [hsame, hsocks]
      exact greeted
    · rw [hoff, hsentFlag]
      exact unsent
  | @request _ front state proxied sent seq begin done fits =>
    have hproxied : Proxied d.proxy front := by
      rw [hproxy]
      exact proxied
    have hsame : d.state = c.state := by
      apply hstate.resolve_right
      rintro ⟨htls, -⟩
      rw [state] at htls
      cases htls
    refine .request (hsame.trans state) hproxied ?_ ?_ ?_ ?_ ?_
    · rw [hbuf, hoff]
      exact sent
    · rw [hseq, hoff]
      exact seq
    · rw [hoff, hhttpSeq]
      exact begin
    · rw [hoff, hsentFlag]
      exact done
    · rw [hoff, hbuf]
      exact fits
  | records state records =>
    refine .records ?_ ⟨records.proxied, records.sent, htlsSeq.trans records.seq, ?_⟩
    · rcases hstate with hsame | ⟨-, htls⟩
      · rw [hsame]
        exact state
      · exact .inr htls
    · intro hlink
      rw [hproxy]
      apply records.same
      rcases hlink with htls | hlink
      · rcases hstate with hsame | ⟨hbefore, -⟩
        · exact .inl (hsame ▸ htls)
        · exact .inl hbefore
      · exact .inr (hup hlink)
  | ended state intended sent =>
    have hsame : d.state = c.state := by
      apply hstate.resolve_right
      rintro ⟨htls, -⟩
      rw [still_of_tls htls] at state
      cases state
    exact .ended (hsame ▸ state) (intended.append actions) sent

theorem Stands.congr (h : Stands trace base log session c) (hsend : SameSend c d)
    (hstate : d.state = c.state) : Stands trace base log session d := by
  have hnone : ([] : List Action).filterMap Action.handed = [] := rfl
  have hquiet := h.quiet hsend (.inl hstate) hnone
  rw [hnone, List.append_nil, List.append_nil] at hquiet
  exact hquiet

end Standing

end MiniAgentOS.Fetch
