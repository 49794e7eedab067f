import MiniAgentOS.Fetch.Rounds
import MiniAgentOS.Http.Complete

/-! A fetch that is reported successful has received and captured a whole response. -/
namespace MiniAgentOS.Fetch
open Checked Net Http

section Capture

variable {phase : AgentPhase} {status : ℕ} {c c' : Capture} {body data : Bytes}
  {effects : List HttpEffect}

/-- The agent has the body, or the flag says that it has not all of it. Of a response of the model it
keeps no more once it has the text. -/
def Captured (phase : AgentPhase) (c : Capture) (body : Bytes) : Prop :=
  c.truncated = true ∨ c.body = body ∨ (phase.openai = true ∧ c.outputText ≠ [])

/-- What the agent captures of a body on its way. -/
def Capturing (phase : AgentPhase) (c : Capture) (body : Bytes) : Prop :=
  (c.body = [] ∧ c.outputText = [] ∧ body = []) ∨ (c.body ≠ [] ∧ Captured phase c body)

theorem append_captured (h : Captured phase c body) (data : Bytes) :
    Captured phase (c.append data) (body ++ data) := by
  unfold Capture.append
  rcases h with hflag | hsame | htext
  · left
    simp [hflag]
  · by_cases hfits : data.length ≤ agentResponseBodyLen - c.body.length
    · right
      left
      dsimp only
      rw [hsame, List.take_of_length_le (hsame ▸ hfits)]
    · left
      simp only [Bool.or_eq_true, decide_eq_true_eq]
      right
      omega
  · exact .inr (.inr htext)

theorem append_ne_nil (h : c.body = [] ∧ data ≠ [] ∨ c.body ≠ []) : (c.append data).body ≠ [] := by
  unfold Capture.append
  dsimp only
  rcases h with ⟨hempty, hdata⟩ | hbody
  · obtain ⟨b, data, rfl⟩ := List.exists_cons_of_ne_nil hdata
    rw [hempty]
    simp [agentResponseBodyLen]
  · simp [hbody]

theorem extract_nil (capacity : ℕ) :
    extractOpenaiNestedOutputText [] capacity = .ok none := rfl

theorem text_captured (h : Captured phase c body) (text : Bytes) :
    Captured phase { c with outputText := if text = [] then c.outputText else text } body := by
  rcases h with hflag | hsame | ⟨hopenai, htext⟩
  · exact .inl hflag
  · exact .inr (.inl hsame)
  · refine .inr (.inr ⟨hopenai, ?_⟩)
    dsimp only
    split_ifs with hempty
    · exact htext
    · exact hempty

/-- Data that is appended, with or without a text found in it. -/
theorem appended_keeps (hbody : c.body = [] ∧ data ≠ [] ∨ c.body ≠ []) (h : Captured phase c body)
    (hc : c' = c.append data ∨ ∃ text, c' = { c.append data with
      outputText := if text = [] then (c.append data).outputText else text }) :
    Capturing phase c' (body ++ data) := by
  right
  rcases hc with rfl | ⟨text, rfl⟩
  · exact ⟨append_ne_nil hbody, append_captured h data⟩
  · exact ⟨append_ne_nil hbody, text_captured (append_captured h data) text⟩

/-- What `agent_capture_response_body` does once the flags of an empty capture are reset. -/
theorem captureBody_cases {start : Capture} (hstart : start =
      if c.body = [] then { c with truncated := false, outputText := [] } else c)
    (h : captureBody phase status c data = .ok c') :
    (phase.openai = true ∧ start.outputText ≠ [] ∧ c' = start) ∨ c' = start.append data ∨
      ∃ text, extractOpenaiNestedOutputText (start.append data).body agentOutputTextLen =
          .ok (some text) ∧ c' = { start.append data with
        outputText := if text = [] then (start.append data).outputText else text } := by
  unfold captureBody at h
  rw [← hstart] at h
  dsimp only at h
  split_ifs at h with hready hsearch
  · cases h
    exact .inl ⟨hready.1, hready.2.1, rfl⟩
  · cases hextract : extractOpenaiNestedOutputText (start.append data).body agentOutputTextLen with
    | error trap =>
      rw [hextract] at h
      cases h
    | ok found =>
      rw [hextract, ok_bind] at h
      cases found with
      | none =>
        cases h
        exact .inr (.inl rfl)
      | some text =>
        cases h
        exact .inr (.inr ⟨text, rfl, rfl⟩)
  · cases h
    exact .inr (.inl rfl)

theorem captureBody_keeps (hc : Capturing phase c body)
    (h : captureBody phase status c data = .ok c') : Capturing phase c' (body ++ data) := by
  rcases hc with ⟨hempty, htext, rfl⟩ | ⟨hne, hcaptured⟩
  · have hcases := captureBody_cases (if_pos hempty).symm h
    by_cases hdata : data = []
    · subst hdata
      have hnone : ({ c with truncated := false, outputText := [] } : Capture).append [] =
          { c with truncated := false, outputText := [] } := by
        simp [Capture.append]
      left
      rw [hnone] at hcases
      rcases hcases with ⟨-, hsome, -⟩ | rfl | ⟨text, hfound, -⟩
      · exact absurd rfl hsome
      · exact ⟨hempty, rfl, rfl⟩
      · dsimp only at hfound
        rw [hempty, extract_nil] at hfound
        cases hfound
    · have hreset : Captured phase { c with truncated := false, outputText := [] } [] :=
        .inr (.inl hempty)
      rcases hcases with ⟨-, hsome, -⟩ | rfl | ⟨text, -, rfl⟩
      · exact absurd rfl hsome
      · refine appended_keeps ?_ hreset (.inl rfl)
        exact .inl ⟨hempty, hdata⟩
      · refine appended_keeps ?_ hreset (.inr ⟨text, rfl⟩)
        exact .inl ⟨hempty, hdata⟩
  · rcases captureBody_cases (if_neg hne).symm h with ⟨hopenai, hsome, rfl⟩ | rfl | ⟨text, -, rfl⟩
    · exact .inr ⟨hne, .inr (.inr ⟨hopenai, hsome⟩)⟩
    · exact appended_keeps (.inr hne) hcaptured (.inl rfl)
    · exact appended_keeps (.inr hne) hcaptured (.inr ⟨text, rfl⟩)

theorem effects_keep (hc : Capturing phase c body)
    (h : effects.foldlM (captureEffect phase status) c = .ok c') :
    Capturing phase c' (body ++ bodyBytes effects) := by
  induction effects generalizing c body with
  | nil =>
    cases h
    rw [bodyBytes_nil, List.append_nil]
    exact hc
  | cons effect effects ih =>
    rw [List.foldlM_cons] at h
    cases heffect : captureEffect phase status c effect with
    | error trap =>
      rw [heffect] at h
      cases h
    | ok next =>
      rw [heffect, ok_bind] at h
      rw [← List.singleton_append, bodyBytes_append, ← List.append_assoc]
      refine ih ?_ h
      cases effect with
      | body data json =>
        rw [bodyBytes_body]
        exact captureBody_keeps hc heffect
      | _ =>
        cases heffect
        simpa [bodyBytes] using hc

end Capture

section Pieces

variable {agent : Agent} {pieces : List Bytes} {http next : HttpParser} {c c' : Capture}

/-- What the pieces of a response come to: the parser's result, and the body in the capture. -/
theorem feedPieces_captured (body : Bytes) (h : feedPieces agent (http, c) pieces = .ok (next, c')) :
    ∃ effects, feedAll http pieces = .ok (next, effects) ∧
      (agent.capturing → Capturing agent.phase c body →
        Capturing agent.phase c' (body ++ bodyBytes effects)) := by
  induction pieces generalizing http c body with
  | nil =>
    cases h
    refine ⟨[], rfl, fun _ hc => ?_⟩
    rw [bodyBytes_nil, List.append_nil]
    exact hc
  | cons data pieces ih =>
    unfold feedPieces at h
    rw [List.foldlM_cons] at h
    cases hfeed : feedCapture { agent with capture := c } http data with
    | error trap =>
      rw [hfeed] at h
      cases h
    | ok fed =>
      obtain ⟨mid, captured, effects⟩ := fed
      rw [hfeed] at h
      obtain ⟨later, hrest, hkeeps⟩ := ih (body ++ bodyBytes effects) h
      refine ⟨effects ++ later, feedAll_append (feedCapture_parsed hfeed) hrest, ?_⟩
      intro hcapturing hc
      rw [bodyBytes_append, ← List.append_assoc]
      apply hkeeps hcapturing
      unfold feedCapture at hfeed
      cases hparse : httpFeed http data with
      | error trap =>
        rw [hparse] at hfeed
        cases hfeed
      | ok parsed =>
        rw [hparse, ok_bind] at hfeed
        dsimp only at hfeed
        have hon : ({ agent with capture := c } : Agent).capturing = true := hcapturing
        rw [if_pos hon] at hfeed
        cases hfold : parsed.2.foldlM (captureEffect agent.phase parsed.1.status) c with
        | error trap =>
          rw [hfold] at hfeed
          cases hfeed
        | ok last =>
          rw [hfold] at hfeed
          cases hfeed
          exact effects_keep hc hfold

end Pieces

/-- The headers give the length of the body. -/
def framed (http : HttpParser) : Bool := http.chunked || 0 < http.contentLen

/-- No part of a framed response of success is missing. -/
def whole (http : HttpParser) : Bool :=
  !statusSuccess http.status || !framed http || http.state == .complete

/-- The whole body was received, and what the parser handed on of it was captured. -/
def Delivered (k : Kernel) : Prop :=
  k.conn.state = .done → k.conn.gotResp = true → statusSuccess k.http.status = true →
    framed k.http = true → ∃ effects, feedAll httpReset (fedSince k.trace) = .ok (k.http, effects) ∧
      WholeBody k.http (fedSince k.trace) (bodyBytes effects) ∧
      (k.agent.capturing → Captured k.agent.phase k.agent.capture (bodyBytes effects))

/-- Pieces with which the connection ends, or whose headers are too large, end a whole response. -/
def EndsWhole (http : HttpParser) (read : List Bytes × Bool) : Prop :=
  match feedAll http read.1 with
  | .ok (next, effects) => read.2 = true ∨ .headersTooLarge ∈ effects → whole next = true
  | .error _ => True

/-- The fetch does not end while a part of a framed response of success is missing: it is not given up,
the idle time of the reading over TLS is not over, and the connection is neither closed nor fails. -/
def NoEarlyEnd (k : Kernel) : Event → Prop
  | .tick env =>
    (GivesUp k.request k.conn env.now → k.conn.gotResp = true → whole k.http = true) ∧
    (k.conn.state = .tlsRead →
      (k.conn.nextMs < env.now ∧ k.conn.gotResp = true → whole k.http = true) ∧
        EndsWhole k.http (readPieces tlsReadBurstMax env.reads))
  | .segment seg _ =>
    k.conn.state = .http ∧ k.conn.accepts seg →
      EndsWhole k.http (feedChunks (newPayload k.conn.ack ⟨seg.seq, seg.payload, seg.fin⟩), seg.fin)
  | _ => True

/-- Before data comes there is no response, and a fetch that is done has a whole one. -/
structure Ended (k : Kernel) : Prop where
  socks : k.conn.state = .socksHello ∨ k.conn.state = .socksConnect → k.conn.gotResp = false
  done : k.conn.state = .done → k.conn.gotResp = true → whole k.http = true

section Steps

variable {config : Config} {k k' : Kernel} {event : Event}

/-- A step that does not end the fetch, or keeps what it ended with. -/
theorem Ended.keep (h : Ended k) (hhttp : k'.http = k.http)
    (hgot : k'.conn.gotResp = true → k.conn.gotResp = true)
    (hsocks : k'.conn.state = .socksHello ∨ k'.conn.state = .socksConnect →
      k.conn.state = .socksHello ∨ k.conn.state = .socksConnect)
    (hdone : k'.conn.state = .done → k'.conn.gotResp = true →
      k.conn.state = .done ∨ whole k.http = true) : Ended k' := by
  constructor
  · intro hstate
    have hno := h.socks (hsocks hstate)
    by_contra hyes
    rw [hgot (by simpa using hyes)] at hno
    cases hno
  · intro hstate hresp
    rw [hhttp]
    rcases hdone hstate hresp with hbefore | hwhole
    · exact h.done hbefore (hgot hresp)
    · exact hwhole

/-- Without a response there is nothing to keep. -/
theorem ended_of_no_response (h : k.conn.gotResp = false) : Ended k := by
  constructor
  · exact fun _ => h
  · intro _ hyes
    rw [h] at hyes
    cases hyes

theorem ended_of_whole (hsocks : k.conn.state ≠ .socksHello ∧ k.conn.state ≠ .socksConnect)
    (h : k.conn.state = .done → whole k.http = true) : Ended k := by
  constructor
  · intro hstate
    exact absurd hstate (not_or.mpr hsocks)
  · exact fun hdone _ => h hdone

theorem EndsWhole.use {http next : HttpParser} {read : List Bytes × Bool} {effects : List HttpEffect}
    (h : EndsWhole http read) (hfeed : feedAll http read.1 = .ok (next, effects))
    (hend : read.2 = true ∨ .headersTooLarge ∈ effects) : whole next = true := by
  unfold EndsWhole at h
  rw [hfeed] at h
  exact h hend

theorem ended_segment {seg : TcpSegment} {env : SegmentEnv} (h : Ended k)
    (hno : NoEarlyEnd k (.segment seg env)) (hstep : SegmentStep k seg env k') : Ended k' := by
  cases hstep with
  | ignored => exact h
  | synAck =>
    apply ended_of_no_response
    unfold Conn.synAck Conn.configureTls
    dsimp only
    split_ifs <;> rfl
  | socksHello state =>
    apply ended_of_no_response
    have hresp := h.socks (.inl state)
    unfold Conn.socksHelloReply
    dsimp only
    split
    · split_ifs <;> exact hresp
    · exact hresp
  | socksConnect state =>
    apply ended_of_no_response
    have hresp := h.socks (.inr state)
    unfold Conn.socksConnectReply Conn.configureTls
    dsimp only
    split
    · split_ifs <;> exact hresp
    · exact hresp
  | @http state accepts last feeds =>
    obtain ⟨effects, hfeed, hkept⟩ := feeds.parsed
    rw [state] at hkept
    apply ended_of_whole
    · dsimp only
      rcases feeds.state with hsame | hdone
      · rw [hsame, state]
        split_ifs <;> simp
      · rw [hdone]
        split_ifs <;> simp
    · intro hdone
      apply (hno ⟨state, accepts⟩).use hfeed
      by_cases hfin : seg.fin = true
      · exact .inl hfin
      · right
        dsimp only at hdone
        rw [if_neg hfin] at hdone
        rcases hkept with hsame | hlarge
        · rw [hdone] at hsame
          cases hsame
        · exact hlarge

theorem restartRound_gotResp (c : Conn) : c.restartRound.gotResp = false := by
  unfold Conn.restartRound Conn.restartTransport
  split_ifs <;> rfl

theorem Moves.socks {request : Request} {c : Conn} {now : ℕ} {next : FetchState}
    (h : Moves request c now next) (hsocks : next = .socksHello ∨ next = .socksConnect) :
    next = c.state := by
  rcases h with hsame | ⟨rfl, -⟩ | ⟨rfl, -⟩ | ⟨rfl, -, -⟩ | ⟨rfl, -⟩ | ⟨rfl, -⟩
  · exact hsame
  · simp at hsocks
  · simp at hsocks
  · rcases resumeAfterGateway_state c with hresume | hresume <;> simp [hresume] at hsocks
  · simp at hsocks
  · simp at hsocks

theorem Moves.done {request : Request} {c : Conn} {now : ℕ} {next : FetchState}
    (h : Moves request c now next) (hdone : next = .done) : c.state = .done ∨ GivesUp request c now := by
  rcases h with hsame | ⟨-, hup⟩ | ⟨rfl, -⟩ | ⟨rfl, -, -⟩ | ⟨rfl, -⟩ | ⟨rfl, -⟩
  · exact .inl (hsame.symm.trans hdone)
  · exact .inr hup
  · cases hdone
  · rcases resumeAfterGateway_state c with hresume | hresume <;> rw [hresume] at hdone <;> cases hdone
  · cases hdone
  · cases hdone

theorem ended_tick {env : TickEnv} {r : TickResult} (h : Ended k) (hno : NoEarlyEnd k (.tick env))
    (hstep : TickStep k.request k.conn env.now r) :
    Ended { k with conn := r.conn, trace := k.trace ++ r.actions } := by
  cases hstep with
  | restart deadlineMs txInflight due => exact ended_of_no_response (restartRound_gotResp k.conn)
  | progress hp =>
    apply Ended.keep h
    · rfl
    · exact hp.gotResp
    · intro hsocks
      rw [← hp.state.socks hsocks]
      exact hsocks
    · intro hdone hresp
      exact (hp.state.done hdone).imp_right fun hup => hno.1 hup (hp.gotResp hresp)

theorem ended_read {env : TickEnv} {c : Conn} {start last : Kernel} {pieces : List Bytes} {conn : Conn}
    (hno : NoEarlyEnd k (.tick env)) (state : k.conn.state = .tlsRead) (same : c.state = .tlsRead)
    (got : c.gotResp = k.conn.gotResp) (next : c.nextMs = k.conn.nextMs)
    (begin : start = { k with
      conn := (tlsSendAll c env.tlsSends).1
      trace := k.trace ++ (tlsSendAll c env.tlsSends).2 })
    (feeds : Feeds start pieces last) (stop : ReadStop last env.now conn)
    (ends : ReadEnd start env.now (readPieces tlsReadBurstMax env.reads) pieces last conn) :
    Ended { last with conn } := by
  obtain ⟨-, hgot, hsame, hnext⟩ := tlsSendAll_route c env.tlsSends
  have hstate : start.conn.state = .tlsRead := by
    rw [begin]
    exact hsame.trans same
  have hstart : start.http = k.http ∧ start.conn.nextMs = k.conn.nextMs ∧
      start.conn.gotResp = k.conn.gotResp := by
    rw [begin]
    exact ⟨rfl, hnext.trans next, hgot.trans got⟩
  obtain ⟨hhttp, hlate, hresp⟩ := hstart
  obtain ⟨effects, hfeed, hkept⟩ := feeds.parsed
  rw [hhttp] at hfeed
  rw [hstate] at hkept
  obtain ⟨hidle, hends⟩ := hno.2 state
  apply ended_of_whole
  · rcases stop.state with hconn | hconn
    · rcases feeds.state with hlast | hlast
      · simp [hconn, hlast, hstate]
      · simp [hconn, hlast]
    · simp [hconn]
  · intro hdone
    dsimp only at hdone ⊢
    cases ends with
    | complete hcomplete => simp [whole, hcomplete]
    | idle hpieces late got =>
      subst hpieces
      rw [hlate] at late
      rw [hresp] at got
      have hlast : last.http = k.http := (congrArg Prod.fst (Except.ok.inj hfeed)).symm
      rw [hlast]
      exact hidle ⟨late, got⟩
    | rest hpieces hended =>
      subst hpieces
      apply hends.use hfeed
      rcases hended with rfl | hclosed
      · right
        rcases hkept with hreading | hlarge
        · rw [hdone] at hreading
          cases hreading
        · exact hlarge
      · exact .inl hclosed

theorem transport_gotResp {c d : Conn} (h : d.transport = c.transport) : d.gotResp = c.gotResp := by
  have hsame : d.transport.gotResp = c.transport.gotResp := by
    rw [h]
  exact hsame

theorem ended_settled (h : Ended k) (hs : Settled k k') : Ended k' := by
  have hgot := transport_gotResp hs.transport
  apply Ended.keep h hs.http
  · rw [hgot]
    exact id
  · intro hsocks
    rcases hs.state with hsame | hidle
    · rw [← hsame]
      exact hsocks
    · simp [hidle] at hsocks
  · intro hdone _
    rcases hs.state with hsame | hidle
    · exact .inl (hsame.symm.trans hdone)
    · rw [hidle] at hdone
      cases hdone

theorem launch_gotResp (p : Kernel) (config : Config) (owner : Owner) (env : StartEnv)
    (target : Target) (reply : ReplyTo) (redirectStart : Bool) :
    (p.launch config owner env target reply redirectStart).conn.gotResp = false := by
  rcases launch_conn p config owner env target reply redirectStart with
    ⟨hreuse, -⟩ | ⟨c, cached, -, hstart⟩
  · rw [hreuse]
    rfl
  · rw [hstart]
    rfl

theorem ended_step (h : Ended k) (hno : NoEarlyEnd k event) (hstep : KernelStep config k event k') :
    Ended k' := by
  cases hstep with
  | arp gateway dns =>
    obtain ⟨conn, heq, hgot, hstate⟩ := receiveArp_eq k gateway dns
    rw [heq]
    apply Ended.keep h
    · rfl
    · exact fun hresp => hgot ▸ hresp
    · intro hsocks
      rcases hstate with hsame | ⟨-, hnext | hnext⟩
      · exact hsame ▸ hsocks
      · simp [hnext] at hsocks
      · simp [hnext] at hsocks
    · intro hdone _
      rcases hstate with hsame | ⟨-, hnext | hnext⟩
      · exact .inl (hsame ▸ hdone)
      · simp [hnext] at hdone
      · simp [hnext] at hdone
  | dns hdns =>
    cases hdns with
    | ignored => exact h
    | resolved => exact h.keep rfl id (by simp) (by simp)
    | tooLarge => exact h.keep rfl id id fun hdone _ => .inl hdone
  | segment hsegment => exact ended_segment h hno hsegment
  | outcome hout =>
    cases hout with
    | settled hs => exact ended_settled h hs
    | launched => exact ended_of_no_response (launch_gotResp _ _ _ _ _ _ _)
  | tick _ hstep _ => exact ended_tick h hno hstep
  | read state _ same got next begin feeds stop ends =>
    exact ended_read hno state same got next begin feeds stop ends
  | reply => exact h.keep rfl id id fun hdone _ => .inl hdone

end Steps

/-- A run in which no response is cut off. -/
def Completes (k : Kernel) (event : Event) : Prop := WholeRound k event ∧ NoEarlyEnd k event

variable {config : Config} {k : Kernel}

theorem delivered_of_whole (h : OneResponse k) (hended : Ended k) : Delivered k := by
  intro hdone hresp hsuccess hframed
  obtain ⟨capture, hempty, hpieces⟩ := h (busy_of_state hdone (by decide))
  obtain ⟨effects, hfeed, hkeeps⟩ := feedPieces_captured [] hpieces
  have hcomplete : k.http.state = .complete := by
    have hwhole := hended.done hdone hresp
    simpa [whole, hsuccess, hframed] using hwhole
  refine ⟨effects, hfeed, complete_whole hfeed hcomplete, fun hcapturing => ?_⟩
  obtain ⟨hbody, htext⟩ := hempty hcapturing
  rcases hkeeps hcapturing (.inl ⟨hbody, htext, rfl⟩) with ⟨hnone, -, hall⟩ | ⟨-, hcaptured⟩
  · exact .inr (.inl (hnone.trans hall.symm))
  · exact hcaptured

section Runs

instance (request : Request) (c : Conn) (now : ℕ) : Decidable (GivesUp request c now) :=
  inferInstanceAs (Decidable ((_ ∧ _ ∧ _ ∧ _) ∨ (_ ∧ _ ∧ (_ ∧ (_ ∨ _ ∨ _) ∨ _ ∧ _)) ∨ _ ∧ _ ∧ _ ∧ _))

instance (http : HttpParser) (read : List Bytes × Bool) : Decidable (EndsWhole http read) :=
  match h : feedAll http read.1 with
  | .ok (next, effects) =>
    decidable_of_iff (read.2 = true ∨ .headersTooLarge ∈ effects → whole next = true)
      (by simp only [EndsWhole, h])
  | .error _ => isTrue (by simp only [EndsWhole, h])

instance (k : Kernel) : ∀ event, Decidable (NoEarlyEnd k event)
  | .tick _ => inferInstanceAs (Decidable ((_ → _ → _) ∧ (_ → (_ ∧ _ → _) ∧ _)))
  | .segment _ _ => inferInstanceAs (Decidable (_ ∧ _ → _))
  | .line _ _ | .udp _ _ _ | .arp _ _ | .dnsReply _ _ | .reply _ | .done _ => isTrue trivial

instance (k : Kernel) (event : Event) : Decidable (Completes k event) :=
  inferInstanceAs (Decidable (_ ∧ _))

/-- The server closes the connection in the middle of the body. -/
def cutRun : List Event :=
  partRun ++ [.segment ⟨hostIp, 80, 40000, 48, 0x1001, 0x11, []⟩ ⟨40, true, true⟩]

/-- The same response, with all of its body. -/
def wholeRun : List Event :=
  partRun.take 3 ++
    [.segment ⟨hostIp, 80, 40000, 8, 0x1001, 0x19,
      ascii "HTTP/1.1 200 OK\r\nContent-Length: 4\r\n\r\nabcd"⟩ ⟨30, true, true⟩]

end Runs

end MiniAgentOS.Fetch
