import MiniAgentOS.Agent.Capture
import MiniAgentOS.Fetch.Rounds
import MiniAgentOS.Http.Effects
import MiniAgentOS.Lib.Runs

/-! A response over plain HTTP and over TLS: the agent gets the same of it unless its body is empty. -/
namespace MiniAgentOS.Agent
open Checked Fetch Http Net

section Capture

variable {phase : AgentPhase} {agent : Fetch.Agent} {status : ℕ} {seen body data : Bytes} {c c' : Capture}
  {effects : List HttpEffect} {pieces : List Bytes} {http next : HttpParser}

/-- No front of the body holds a text of the model already, with which the capturing would end. -/
def TextAtEnd (phase : AgentPhase) (status : ℕ) (body : Bytes) : Prop :=
  ∀ front, front <+: body → front ≠ body → cachedText phase status (front.take agentResponseBodyLen) = false

/-- The capture holds what was seen of the body, and goes on unless that is all of it. -/
structure Kept (body seen : Bytes) (c : Capture) : Prop where
  stored : c.body = seen.take agentResponseBodyLen
  storing : seen ≠ body → Storing seen c

theorem captureBody_kept (hkept : Kept body seen c) (hdata : data ≠ []) (hfront : seen ++ data <+: body)
    (htext : TextAtEnd phase status body) (h : captureBody phase status c data = .ok c') :
    Kept body (seen ++ data) c' := by
  have hpart : seen ≠ body := by
    rintro rfl
    have hle := hfront.length_le
    have hpos := List.length_pos_iff.mpr hdata
    rw [List.length_append] at hle
    omega
  obtain ⟨kept, hok, hbody, hflag, houtput⟩ := @captureBody_storing phase status seen data c (hkept.storing hpart)
  rw [h] at hok
  cases hok
  refine ⟨hbody, fun hmore => ?_⟩
  rw [htext _ hfront hmore, if_neg Bool.false_ne_true] at houtput
  exact ⟨hbody, fun _ => hflag, houtput⟩

theorem captureEffects_kept (hproper : ∀ effect ∈ effects, effect.Proper) (hkept : Kept body seen c)
    (hfront : seen ++ bodyBytes effects <+: body) (htext : TextAtEnd phase status body)
    (h : effects.foldlM (captureEffect phase status) c = .ok c') : Kept body (seen ++ bodyBytes effects) c' := by
  induction effects generalizing seen c with
  | nil =>
    cases h
    rw [bodyBytes_nil, List.append_nil]
    exact hkept
  | cons effect effects ih =>
    rw [← List.singleton_append, bodyBytes_append, ← List.append_assoc] at hfront ⊢
    have hlater : ∀ effect ∈ effects, effect.Proper := fun effect hin => hproper effect (List.mem_cons_of_mem _ hin)
    rw [List.foldlM_cons] at h
    cases heffect : captureEffect phase status c effect with
    | error trap =>
      rw [heffect] at h
      cases h
    | ok mid =>
      rw [heffect, ok_bind] at h
      refine ih hlater ?_ hfront h
      cases effect with
      | body data json =>
        rw [bodyBytes_body] at hfront ⊢
        have hne : data ≠ [] := hproper _ List.mem_cons_self
        exact captureBody_kept hkept hne ((List.prefix_append _ _).trans hfront) htext heffect
      | _ =>
        cases heffect
        simpa [bodyBytes] using hkept

/-- Where there is no body, the capture stays, whatever the status is. -/
theorem captureEffects_none (hproper : ∀ effect ∈ effects, effect.Proper) (hnone : bodyBytes effects = []) :
    effects.foldlM (captureEffect phase status) c = .ok c := by
  induction effects with
  | nil => rfl
  | cons effect effects ih =>
    rw [← List.singleton_append, bodyBytes_append, List.append_eq_nil_iff] at hnone
    have hrest := ih (fun effect hin => hproper effect (List.mem_cons_of_mem _ hin)) hnone.2
    cases effect with
    | body data json =>
      rw [bodyBytes_body] at hnone
      exact absurd hnone.1 (hproper _ List.mem_cons_self)
    | _ => exact hrest

theorem feedPieces_cons_eq_ok (h : feedPieces agent (http, c) (data :: pieces) = .ok (next, c')) :
    ∃ mid kept first, feedCapture { agent with capture := c } http data = .ok (mid, kept, first) ∧
      feedPieces agent (mid, kept) pieces = .ok (next, c') := by
  unfold feedPieces at h
  rw [List.foldlM_cons] at h
  cases hfeed : feedCapture { agent with capture := c } http data with
  | error trap =>
    rw [hfeed] at h
    cases h
  | ok fed =>
    obtain ⟨mid, kept, first⟩ := fed
    rw [hfeed] at h
    exact ⟨mid, kept, first, rfl, h⟩

theorem feedCapture_eq_ok {kept : Capture} (h : feedCapture agent http data = .ok (next, kept, effects)) :
    httpFeed http data = .ok (next, effects) ∧
      if agent.capturing then effects.foldlM (captureEffect agent.phase next.status) agent.capture = .ok kept
      else kept = agent.capture := by
  unfold feedCapture at h
  cases hfeed : httpFeed http data with
  | error trap =>
    rw [hfeed] at h
    cases h
  | ok fed =>
    rw [hfeed, ok_bind] at h
    dsimp only at h
    split_ifs at h ⊢ with hcapturing
    · cases hfold : fed.2.foldlM (captureEffect agent.phase fed.1.status) agent.capture with
      | error trap =>
        rw [hfold] at h
        cases h
      | ok captured =>
        rw [hfold] at h
        cases h
        exact ⟨rfl, hfold⟩
    · cases h
      exact ⟨rfl, rfl⟩

/-- An agent that does not capture keeps what it had. -/
theorem feedPieces_idle (hcapturing : agent.capturing = false)
    (h : feedPieces agent (http, c) pieces = .ok (next, c')) : c' = c := by
  induction pieces generalizing http c with
  | nil =>
    cases h
    rfl
  | cons data pieces ih =>
    obtain ⟨mid, kept, first, hfeed, hrest⟩ := feedPieces_cons_eq_ok h
    have hoff : ({ agent with capture := c } : Fetch.Agent).capturing = false := hcapturing
    have hsame := (feedCapture_eq_ok hfeed).2
    rw [hoff, if_neg Bool.false_ne_true] at hsame
    exact (ih hrest).trans hsame

/-- The body that is captured is the front of the body that fits, however it is cut. -/
theorem feedPieces_kept (hhttp : http.state = .headers ∨ InBody http) (hcapturing : agent.capturing = true)
    (hfeed : feedAll http pieces = .ok (next, effects)) (hproper : ∀ effect ∈ effects, effect.Proper)
    (hfront : seen ++ bodyBytes effects <+: body) (htext : TextAtEnd agent.phase next.status body)
    (hkept : Kept body seen c) (h : feedPieces agent (http, c) pieces = .ok (next, c')) :
    Kept body (seen ++ bodyBytes effects) c' := by
  induction pieces generalizing http c seen effects with
  | nil =>
    cases h
    cases hfeed
    rw [bodyBytes_nil, List.append_nil]
    exact hkept
  | cons data pieces ih =>
    obtain ⟨mid, kept, first, hcapture, hrest⟩ := feedPieces_cons_eq_ok h
    obtain ⟨hparse, hfold⟩ := feedCapture_eq_ok hcapture
    have hon : ({ agent with capture := c } : Fetch.Agent).capturing = true := hcapturing
    rw [if_pos hon] at hfold
    obtain ⟨mid', first', later, hparse', hall, rfl⟩ := feedAll_cons_eq_ok hfeed
    rw [hparse] at hparse'
    cases hparse'
    have hfirst : ∀ effect ∈ first, effect.Proper := fun effect hin => hproper effect (List.mem_append_left _ hin)
    have hlater : ∀ effect ∈ later, effect.Proper := fun effect hin => hproper effect (List.mem_append_right _ hin)
    rw [bodyBytes_append, ← List.append_assoc] at hfront ⊢
    have hmid : mid.state = .headers ∧ bodyBytes first = [] ∨ InBody mid := by
      rcases hhttp with hheaders | hbody
      · exact httpFeed_headers_cases hheaders hparse
      · exact .inr (httpFeed_inBody hbody hparse)
    refine ih (hmid.imp_left And.left) hall hlater hfront ?_ hrest
    rcases hmid with ⟨-, hnone⟩ | hbody
    · rw [captureEffects_none hfirst hnone] at hfold
      cases hfold
      rw [hnone, List.append_nil]
      exact hkept
    · rw [feedAll_status hbody hall] at htext
      exact captureEffects_kept hfirst hkept ((List.prefix_append _ _).trans hfront) htext hfold

end Capture

section Answered

variable {oauth got : Bool} {s : Conn × Redirect} {effects : List HttpEffect} {k k' : Kernel} {pieces : List Bytes}

/-- `FETCH_GOT_RESP` behind what the parser hands on. -/
def answered (got : Bool) : HttpEffect → Bool
  | .body _ _ => true
  | .headersTooLarge => false
  | _ => got

theorem applyEffect_answered (oauth : Bool) (s : Conn × Redirect) (effect : HttpEffect) :
    (applyEffect oauth s effect).1.gotResp = answered s.1.gotResp effect := by
  cases effect with
  | redirect target =>
    unfold applyEffect captureRedirect
    dsimp only
    split_ifs <;> rfl
  | _ => rfl

theorem applyEffects_answered (effects : List HttpEffect) : ∀ s : Conn × Redirect,
    (effects.foldl (applyEffect oauth) s).1.gotResp = effects.foldl answered s.1.gotResp := by
  induction effects with
  | nil => exact fun _ => rfl
  | cons effect effects ih =>
    intro s
    rw [List.foldl_cons, List.foldl_cons, ih, applyEffect_answered]

/-- There is a response once there is a byte of its body. -/
theorem foldl_answered (hproper : ∀ effect ∈ effects, effect.Proper) (got : Bool) :
    effects.foldl answered got = (got || !(bodyBytes effects).isEmpty) := by
  induction effects generalizing got with
  | nil => exact (Bool.or_false got).symm
  | cons effect effects ih =>
    rw [List.foldl_cons, ih fun effect hin => hproper effect (List.mem_cons_of_mem _ hin)]
    have hfirst := hproper effect List.mem_cons_self
    cases effect with
    | body data json =>
      have hne : data ≠ [] := hfirst
      obtain ⟨b, data, rfl⟩ := List.exists_cons_of_ne_nil hne
      simp [answered, bodyBytes]
    | headersTooLarge => exact hfirst.elim
    | _ => simp [answered, bodyBytes]

theorem feed_answered {data : Bytes} (h : k.feed data = .ok k') : ∃ effects,
    httpFeed k.http data = .ok (k'.http, effects) ∧
      k'.conn.gotResp = effects.foldl answered k.conn.gotResp := by
  unfold Kernel.feed at h
  cases hfeed : feedCapture k.agent k.http data with
  | error trap =>
    rw [hfeed] at h
    cases h
  | ok fed =>
    obtain ⟨http, capture, effects⟩ := fed
    rw [hfeed] at h
    cases h
    exact ⟨effects, (feedCapture_eq_ok hfeed).1, applyEffects_answered effects (k.conn, k.redirect)⟩

theorem feeds_answered (h : pieces.foldlM Kernel.feed k = .ok k') : ∃ effects,
    feedAll k.http pieces = .ok (k'.http, effects) ∧
      k'.conn.gotResp = effects.foldl answered k.conn.gotResp := by
  induction pieces generalizing k with
  | nil =>
    cases h
    exact ⟨[], rfl, rfl⟩
  | cons data pieces ih =>
    rw [List.foldlM_cons] at h
    cases hfeed : k.feed data with
    | error trap =>
      rw [hfeed] at h
      cases h
    | ok next =>
      rw [hfeed] at h
      obtain ⟨first, hfirst, hgot⟩ := feed_answered hfeed
      obtain ⟨later, hlater, hlast⟩ := ih h
      refine ⟨first ++ later, ?_, ?_⟩
      · rw [feedAll, hfirst, ok_bind]
        dsimp only
        rw [hlater]
        rfl
      · rw [hlast, hgot, List.foldl_append]

end Answered

section Taking

/-- No timer of the fetch is over: neither its deadline nor, over plain HTTP, the time after which the request is
sent again. -/
def Calm (c : Conn) (now : ℕ) : Prop :=
  (c.deadlineMs = 0 ∨ now ≤ c.deadlineMs) ∧ (c.state = .http → now < c.nextMs)

instance (c : Conn) (now : ℕ) : Decidable (Calm c now) := inferInstanceAs (Decidable ((_ ∨ _) ∧ (_ → _)))

/-- Packets come and ticks before any timer, but no command. -/
def Receives (k : Kernel) : Event → Prop
  | .tick env => Calm k.conn env.now
  | .line _ _ | .udp _ _ _ | .done _ => False
  | .arp _ _ | .dnsReply _ _ | .segment _ _ | .reply _ => True

instance (k : Kernel) : ∀ event, Decidable (Receives k event)
  | .tick env => inferInstanceAs (Decidable (Calm k.conn env.now))
  | .line _ _ | .udp _ _ _ | .done _ => isFalse id
  | .arp _ _ | .dnsReply _ _ | .segment _ _ | .reply _ => isTrue trivial

/-- The request was sent, and nothing of the response has come. -/
structure AwaitsResponse (state : FetchState) (agent : Fetch.Agent) (k : Kernel) : Prop where
  state : k.conn.state = state
  haveGw : k.conn.haveGw = true
  http : k.http = httpReset
  gotResp : k.conn.gotResp = false
  received : Fetch.received k.trace = []
  agent : k.agent = agent

/-- What has come of the response, with the flag `FETCH_GOT_RESP` that `answers` makes of it. -/
structure Taking (state : FetchState) (answers : List HttpEffect → List Bytes → Bool) (agent : Fetch.Agent)
    (k : Kernel) : Prop where
  state : k.conn.state = state ∨ k.conn.state = .done
  haveGw : k.conn.haveGw = true
  taskActive : k.agent.taskActive = agent.taskActive
  phase : k.agent.phase = agent.phase
  parsed : ∃ effects, feedAll httpReset (Fetch.received k.trace) = .ok (k.http, effects) ∧
    k.conn.gotResp = answers effects (Fetch.received k.trace)
  fed : feedPieces agent (httpReset, agent.capture) (Fetch.received k.trace) = .ok (k.http, k.agent.capture)

variable {config : Config} {state : FetchState} {answers : List HttpEffect → List Bytes → Bool}
  {agent : Fetch.Agent} {k k' last : Kernel} {event : Event} {new : List Action} {pieces : List Bytes}

theorem AwaitsResponse.taking (h : AwaitsResponse state agent k) (hnone : answers [] [] = false) : Taking state answers agent k := by
  refine ⟨.inl h.state, h.haveGw, by rw [h.agent], by rw [h.agent], ?_, ?_⟩
  · rw [h.received, h.http, h.gotResp]
    exact ⟨[], rfl, hnone.symm⟩
  · rw [h.received, h.http, h.agent]
    rfl

/-- A step that feeds nothing. -/
theorem Taking.quiet (h : Taking state answers agent k) (hstate : k'.conn.state = k.conn.state)
    (hgw : k'.conn.haveGw = k.conn.haveGw) (hgot : k'.conn.gotResp = k.conn.gotResp) (hhttp : k'.http = k.http)
    (hagent : k'.agent = k.agent) (htrace : k'.trace = k.trace ++ new)
    (hnew : ∀ action ∈ new, action.connects = none ∧ action.fed = none) : Taking state answers agent k' := by
  have hreceived : Fetch.received k'.trace = Fetch.received k.trace := by
    rw [htrace]
    exact (pieces_unfed hnew k.trace).2
  constructor
  · rw [hstate]
    exact h.state
  · rw [hgw]
    exact h.haveGw
  · rw [hagent]
    exact h.taskActive
  · rw [hagent]
    exact h.phase
  · rw [hreceived, hhttp, hgot]
    exact h.parsed
  · rw [hreceived, hhttp, hagent]
    exact h.fed

/-- A step that feeds pieces. -/
theorem Taking.feeds (h : Taking state answers agent k) (hfeeds : Feeds k pieces last) {conn : Conn}
    (hstate : conn.state = state ∨ conn.state = .done) (hgw : conn.haveGw = true)
    (hgot : ∀ effects, k.conn.gotResp = answers effects (Fetch.received k.trace) → ∃ later,
      feedAll k.http pieces = .ok (last.http, later) ∧
        conn.gotResp = answers (effects ++ later) (Fetch.received k.trace ++ pieces)) :
    Taking state answers agent { last with conn } := by
  have hnew : ∀ action ∈ pieces.map Action.feed, action.started = none := by
    intro action hmem
    obtain ⟨piece, -, rfl⟩ := List.mem_map.mp hmem
    rfl
  have hmap : (pieces.map Action.feed).filterMap Action.fed = pieces := by
    rw [List.filterMap_map]
    exact List.filterMap_some
  have hreceived : Fetch.received last.trace = Fetch.received k.trace ++ pieces := by
    rw [hfeeds.trace, received_append hnew, hmap]
  obtain ⟨effects, hparsed, hanswer⟩ := h.parsed
  obtain ⟨later, hlater, hnext⟩ := hgot effects hanswer
  refine ⟨hstate, hgw, hfeeds.taskActive.trans h.taskActive, hfeeds.phase.trans h.phase, ?_, ?_⟩
  · dsimp only
    rw [hreceived]
    exact ⟨effects ++ later, feedAll_append hparsed hlater, hnext⟩
  · dsimp only
    rw [hreceived, feedPieces_append, h.fed, ok_bind, ← hfeeds.fed]
    exact feedPieces_congr h.taskActive.symm h.phase.symm _ _

end Taking

section Steps

variable {config : Config} {state : FetchState} {answers : List HttpEffect → List Bytes → Bool}
  {agent : Fetch.Agent} {k k' : Kernel} {event : Event} {env : TickEnv}

/-- The flag over plain HTTP: the last of the effects that say something. -/
def plainAnswers (effects : List HttpEffect) (_ : List Bytes) : Bool := effects.foldl answered false

/-- The flag over TLS: anything was read. -/
def tlsAnswers (_ : List HttpEffect) (pieces : List Bytes) : Bool := !pieces.isEmpty

/-- In the states in which a response comes, a calm tick waits or goes on to read over TLS. -/
theorem tickConn_calm {request : Request} {c : Conn} (hcalm : Calm c env.now) (hgw : c.haveGw = true)
    (hstate : c.state = .http ∨ c.state = .tlsRead ∨ c.state = .done) : ∃ deadlineMs txInflight reads,
      tickConn request c env = ⟨{ c with deadlineMs, txInflight }, [], reads⟩ ∧
        (reads = true → c.state = .tlsRead) := by
  have hbusy : c.state ≠ .idle := by
    rcases hstate with h | h | h <;> simp [h]
  have hdeadline : ¬ (c.deadlineMs ≠ 0 ∧ c.deadlineMs < env.now) := by
    have h := hcalm.1
    omega
  unfold tickConn
  rw [if_neg hbusy, if_neg hdeadline]
  generalize hc : (if c.deadlineMs = 0 then { c with deadlineMs := env.now + fetchRoundMs } else c) = timed
  obtain ⟨deadlineMs, htimed⟩ : ∃ deadlineMs, timed = { c with deadlineMs } := by
    rw [← hc]
    split_ifs
    · exact ⟨_, rfl⟩
    · exact ⟨_, rfl⟩
  subst htimed
  dsimp only
  rw [if_neg (by simp [hgw])]
  split_ifs with htx
  · exact ⟨deadlineMs, c.txInflight, false, rfl, nofun⟩
  · refine ⟨deadlineMs, false, c.state == .tlsRead, ?_, beq_iff_eq.mp⟩
    unfold tickState
    rcases hstate with h | h | h
    · have hearly := hcalm.2 h
      simp [h, tickHttp, hearly, stay]
    · simp [h]
    · simp [h, stay]

/-- A packet other than a segment, or a reply, changes nothing of a response. -/
theorem Taking.packet (h : Taking state answers agent k) (hstate : state = .http ∨ state = .tlsRead) :
    (∀ gateway dns, Taking state answers agent (k.receiveArp gateway dns)) ∧
      (∀ {datagram now}, k.receiveDns datagram now = .ok k' → Taking state answers agent k') ∧
      ∀ sent, Taking state answers agent (k.sendReply sent) := by
  have hother : k.conn.state ≠ .arp ∧ k.conn.state ≠ .dns := by
    rcases h.state with hsame | hdone
    · rcases hstate with rfl | rfl <;> simp [hsame]
    · simp [hdone]
  refine ⟨?_, ?_, ?_⟩
  · intro gateway dns
    unfold Kernel.receiveArp
    rw [if_neg hother.1]
    exact h
  · intro datagram now hdns
    unfold Kernel.receiveDns at hdns
    rw [if_neg hother.2] at hdns
    cases hdns
    exact h
  · intro sent
    unfold Kernel.sendReply
    split_ifs
    · exact h.quiet rfl rfl rfl rfl rfl (List.append_nil _).symm fun _ hmem => absurd hmem List.not_mem_nil
    · exact h

/-- A tick that does not read. -/
theorem Taking.wait (h : Taking state answers agent k) (deadlineMs : ℕ) (txInflight : Bool) :
    Taking state answers agent
      { k with conn := { k.conn with deadlineMs, txInflight }, trace := k.trace ++ [] } :=
  h.quiet rfl rfl rfl rfl rfl rfl fun _ hmem => absurd hmem List.not_mem_nil

theorem plain_tick (h : Taking .http plainAnswers agent k) (hcalm : Calm k.conn env.now)
    (hstep : k.tick env = .ok k') : Taking .http plainAnswers agent k' := by
  have hstate : k.conn.state = .http ∨ k.conn.state = .tlsRead ∨ k.conn.state = .done := h.state.imp_right .inr
  obtain ⟨deadlineMs, txInflight, reads, htick, hreads⟩ := @tickConn_calm env k.request k.conn hcalm h.haveGw hstate
  have hfalse : reads = false := by
    rw [Bool.eq_false_iff]
    intro htrue
    have hread := hreads htrue
    rcases h.state with hsame | hdone <;> simp_all
  unfold Kernel.tick at hstep
  rw [htick, hfalse] at hstep
  cases hstep
  exact h.wait deadlineMs txInflight

theorem plain_segment {seg : TcpSegment} {segEnv : SegmentEnv} (h : Taking .http plainAnswers agent k)
    (hstep : k.receiveSegment seg segEnv = .ok k') : Taking .http plainAnswers agent k' := by
  unfold Kernel.receiveSegment at hstep
  by_cases haccepts : (!k.conn.accepts seg) = true
  · rw [if_pos haccepts] at hstep
    cases hstep
    exact h
  · rw [if_neg haccepts] at hstep
    rcases h.state with hhttp | hdone
    · rw [hhttp] at hstep
      dsimp only at hstep
      unfold Kernel.receiveHttp at hstep
      cases hfeed : (feedChunks (newPayload k.conn.ack ⟨seg.seq, seg.payload, seg.fin⟩)).foldlM Kernel.feed k with
      | error trap =>
        rw [hfeed] at hstep
        cases hstep
      | ok last =>
        rw [hfeed, ok_bind] at hstep
        cases hstep
        have hfeeds := feedAll_feeds hfeed
        obtain ⟨later, hlater, hgot⟩ := feeds_answered hfeed
        apply h.feeds hfeeds
        · dsimp only
          split_ifs
          · exact .inr rfl
          · exact hfeeds.state.imp_left fun hsame => hsame.trans hhttp
        · have hcore := congrArg Conn.haveGw hfeeds.core
          exact hcore.trans h.haveGw
        · intro effects hanswer
          refine ⟨later, hlater, ?_⟩
          rw [hanswer] at hgot
          exact hgot.trans List.foldl_append.symm
    · rw [hdone] at hstep
      cases hstep
      exact h

theorem plain_step (h : Taking .http plainAnswers agent k) (hreceives : Receives k event)
    (hstep : k.step config event = .ok k') : Taking .http plainAnswers agent k' := by
  obtain ⟨harp, hdns, hreply⟩ := @Taking.packet .http plainAnswers agent k k' h (.inl rfl)
  cases event with
  | arp gateway dns =>
    cases hstep
    exact harp gateway dns
  | dnsReply datagram now => exact hdns hstep
  | segment seg segEnv => exact plain_segment h hstep
  | tick env => exact plain_tick h hreceives hstep
  | reply sent =>
    cases hstep
    exact hreply sent
  | udp | line | done => exact hreceives.elim

theorem tls_tick (h : Taking .tlsRead tlsAnswers agent k) (hcalm : Calm k.conn env.now)
    (hstep : k.tick env = .ok k') : Taking .tlsRead tlsAnswers agent k' := by
  have hstate : k.conn.state = .http ∨ k.conn.state = .tlsRead ∨ k.conn.state = .done := .inr h.state
  obtain ⟨deadlineMs, txInflight, reads, htick, hreads⟩ := @tickConn_calm env k.request k.conn hcalm h.haveGw hstate
  rcases tick_eq_ok hstep with ⟨hnone, rfl⟩ |
    ⟨hread, start, last, pieces, conn, hstart, hfeeds, hstop, -, hgot, rfl⟩
  · rw [htick]
    exact h.wait deadlineMs txInflight
  · rw [htick] at hstart hread
    dsimp only at hstart hread
    have hreading := hreads hread
    obtain ⟨hroute, hsends, hsame, -⟩ := tlsSendAll_route { k.conn with deadlineMs, txInflight } env.tlsSends
    have htaking : Taking .tlsRead tlsAnswers agent start := by
      rw [hstart]
      apply Taking.quiet h
      · exact hsame
      · exact hroute.haveGw
      · exact hsends
      · rfl
      · rfl
      · rfl
      · intro action hmem
        obtain ⟨seq, data, queued, rfl⟩ := tlsSendAll_sendData _ env.tlsSends action hmem
        exact ⟨rfl, rfl⟩
    have hcore := congrArg Conn.haveGw hfeeds.core
    obtain ⟨later, hlater, -⟩ := hfeeds.parsed
    have hstartState : start.conn.state = .tlsRead := by
      rw [hstart]
      exact hsame.trans hreading
    apply htaking.feeds hfeeds
    · rcases hstop.state with hkeep | hdone
      · rw [hkeep]
        exact hfeeds.state.imp_left fun hlast => hlast.trans hstartState
      · exact .inr hdone
    · exact hstop.haveGw.trans (hcore.trans htaking.haveGw)
    · intro effects hanswer
      refine ⟨later, hlater, ?_⟩
      rw [hstop.gotResp, hgot, hanswer]
      unfold tlsAnswers
      cases Fetch.received start.trace with
      | nil => rfl
      | cons first rest => rfl

/-- Over TLS a segment goes to the library only. -/
theorem tls_segment {seg : TcpSegment} {segEnv : SegmentEnv} (h : Taking .tlsRead tlsAnswers agent k)
    (hstep : k.receiveSegment seg segEnv = .ok k') : Taking .tlsRead tlsAnswers agent k' := by
  have hsame : k' = k := by
    unfold Kernel.receiveSegment at hstep
    by_cases haccepts : (!k.conn.accepts seg) = true
    · rw [if_pos haccepts] at hstep
      cases hstep
      rfl
    · rw [if_neg haccepts] at hstep
      rcases h.state with hread | hdone
      · rw [hread] at hstep
        cases hstep
        rfl
      · rw [hdone] at hstep
        cases hstep
        rfl
  rw [hsame]
  exact h

theorem tls_step (h : Taking .tlsRead tlsAnswers agent k) (hreceives : Receives k event)
    (hstep : k.step config event = .ok k') : Taking .tlsRead tlsAnswers agent k' := by
  obtain ⟨harp, hdns, hreply⟩ := @Taking.packet .tlsRead tlsAnswers agent k k' h (.inr rfl)
  cases event with
  | arp gateway dns =>
    cases hstep
    exact harp gateway dns
  | dnsReply datagram now => exact hdns hstep
  | segment seg segEnv => exact tls_segment h hstep
  | tick env => exact tls_tick h hreceives hstep
  | reply sent =>
    cases hstep
    exact hreply sent
  | udp | line | done => exact hreceives.elim

end Steps

section Agree

variable {config : Config} {state : FetchState} {answers : List HttpEffect → List Bytes → Bool}
  {agent : Fetch.Agent} {k p t : Kernel} {events ps ts : List Event} {stream : Bytes} {n : ℕ}

/-- The fetch receives the response until it is done, all of it or what the parser needs of it. -/
structure FetchedResponse (config : Config) (k : Kernel) (events : List Event) (stream : Bytes) (n : ℕ) : Prop where
  allows : ((kernelMachine config).restrict Receives).Allows k events
  done : ((kernelMachine config).run k events).conn.state = .done
  delivers : Delivers stream n (Fetch.received ((kernelMachine config).run k events).trace)
    ((kernelMachine config).run k events).http

/-- The agent gets the same of both: the ok flag, the status and the body that was captured. -/
def Agree (p t : Kernel) : Prop :=
  p.conn.gotResp = t.conn.gotResp ∧ p.http.status = t.http.status ∧ p.agent.capture.body = t.agent.capture.body

instance (p t : Kernel) : Decidable (Agree p t) := inferInstanceAs (Decidable (_ ∧ _ ∧ _))

/-- The status and the body of the response whose headers end at `n`. -/
def responseParts (stream : Bytes) (n : ℕ) : ℕ × Bytes :=
  match responseAt stream n with
  | .ok (http, body) => (http.status, body)
  | .error _ => (0, [])

theorem run_taking (hstep : ∀ {k k' event}, Taking state answers agent k → Receives k event →
      k.step config event = .ok k' → Taking state answers agent k')
    (h : Taking state answers agent k) (hallows : ((kernelMachine config).restrict Receives).Allows k events) :
    Taking state answers agent ((kernelMachine config).run k events) := by
  induction events generalizing k with
  | nil => exact h
  | cons event events ih => exact ih (hstep h hallows.1.2 (Machine.ofChecked_step hallows.1.1).2) hallows.2

/-- What the agent has of a response that was fetched. -/
theorem FetchedResponse.parts (hf : FetchedResponse config k events stream n) (hend : HeadersEnd stream n)
    (h : Taking state answers agent ((kernelMachine config).run k events))
    (hfresh : agent.capturing = true → agent.capture.body = [] ∧ agent.capture.outputText = [])
    (htext : agent.capturing = true →
      TextAtEnd agent.phase (responseParts stream n).1 (responseParts stream n).2) :
    let last := (kernelMachine config).run k events
    last.http.status = (responseParts stream n).1 ∧
      last.agent.capture.body =
        (if agent.capturing then (responseParts stream n).2.take agentResponseBodyLen else agent.capture.body) ∧
      ∃ effects, (∀ effect ∈ effects, effect.Proper) ∧ bodyBytes effects = (responseParts stream n).2 ∧
        last.conn.gotResp = answers effects (Fetch.received last.trace) := by
  intro last
  obtain ⟨effects, hfeed, hgot⟩ := h.parsed
  obtain ⟨hresponse, hproper⟩ := hf.delivers.response hend hfeed
  have hparts : responseParts stream n = (last.http.status, bodyBytes effects) := by
    rw [responseParts, hresponse]
  rw [hparts] at htext ⊢
  refine ⟨rfl, ?_, effects, hproper, rfl, hgot⟩
  split_ifs with hcapturing
  · obtain ⟨hbody, houtput⟩ := hfresh hcapturing
    have hstart : Kept (bodyBytes effects) [] agent.capture :=
      ⟨by rw [hbody, List.take_nil], fun _ => ⟨by rw [hbody, List.take_nil], fun h => absurd rfl h, houtput⟩⟩
    have hfront : [] ++ bodyBytes effects <+: bodyBytes effects := List.prefix_refl _
    have hkept := feedPieces_kept (.inl rfl) hcapturing hfeed hproper hfront (htext hcapturing) hstart h.fed
    exact hkept.stored
  · exact congrArg Capture.body (feedPieces_idle (Bool.eq_false_iff.mpr hcapturing) h.fed)

/-- Over plain HTTP and over TLS the agent gets the same of a response, unless its body is empty. -/
theorem transports_agree (hp : AwaitsResponse .http agent p) (ht : AwaitsResponse .tlsRead agent t)
    (hfresh : agent.capturing = true → agent.capture.body = [] ∧ agent.capture.outputText = [])
    (hend : HeadersEnd stream n)
    (htext : agent.capturing = true →
      TextAtEnd agent.phase (responseParts stream n).1 (responseParts stream n).2)
    (hps : FetchedResponse config p ps stream n) (hts : FetchedResponse config t ts stream n) :
    Agree ((kernelMachine config).run p ps) ((kernelMachine config).run t ts) ↔ (responseParts stream n).2 ≠ [] := by
  have hplain := run_taking plain_step (hp.taking rfl) hps.allows
  have htls := run_taking tls_step (ht.taking rfl) hts.allows
  obtain ⟨hpstatus, hpbody, effects, hproper, hbody, hpgot⟩ := hps.parts hend hplain hfresh htext
  obtain ⟨htstatus, htbody, later, -, -, htgot⟩ := hts.parts hend htls hfresh htext
  have hpieces : Fetch.received ((kernelMachine config).run t ts).trace ≠ [] := by
    intro hnil
    have hlong := hts.delivers.terminator.length_le
    rw [hnil] at hlong
    exact absurd hlong (Nat.not_le.mpr (Nat.succ_pos _))
  have htrue : ((kernelMachine config).run t ts).conn.gotResp = true := by
    rw [htgot, tlsAnswers, List.isEmpty_eq_false_iff.mpr hpieces]
    rfl
  have hplainGot : ((kernelMachine config).run p ps).conn.gotResp = true ↔ (responseParts stream n).2 ≠ [] := by
    rw [hpgot, plainAnswers, foldl_answered hproper, hbody, Bool.false_or]
    simp
  unfold Agree
  rw [htrue, hplainGot, hpstatus, htstatus, hpbody, htbody]
  simp

theorem fetched_whole (hend : HeadersEnd stream n)
    (hrun : ((kernelMachine config).restrict Receives).Allows k events ∧
      ((kernelMachine config).run k events).conn.state = .done ∧
      Fetch.received ((kernelMachine config).run k events).trace = [stream]) :
    FetchedResponse config k events stream n := by
  obtain ⟨hallows, hdone, hreceived⟩ := hrun
  refine ⟨hallows, hdone, ?_, ?_⟩
  · rw [hreceived]
    refine ⟨[], stream, [], rfl, Nat.zero_le n, ?_⟩
    have hlong := hend.ends.length_le
    rw [List.length_drop] at hlong
    have hterm : headerTerminator.length = 4 := rfl
    rw [List.flatten_nil, List.length_nil]
    omega
  · left
    rw [hreceived, List.flatten_singleton]

/-- A task whose source is on the host, up to the sending of the request over plain HTTP. -/
def overHttp : List Event := partRun.take 3 ++ [localTick 100]

def tlsTick (now : ℕ) (tls : TlsResult) (reads : List TlsRead) : Event := .tick ⟨now, true, true, [], tls, reads⟩

/-- The same over TLS. -/
def overTls : List Event :=
  [.line (ascii "{}") ⟨⟨0, true, true, 0⟩, none, none, some
      [⟨⟨0, true, true, 0⟩, .fetchSource, .url (ascii "https://10.0.2.2/") none⟩]⟩,
    localTick 10,
    .segment ⟨hostIp, 443, 40000, 7, 0x1001, 0x12, []⟩ ⟨20, true, true⟩,
    tlsTick 30 (.ok 0) [], tlsTick 40 (.ok 113) [], tlsTick 50 (.ok 0) []]

/-- The response in a segment that ends the connection. -/
def answerOverHttp (stream : Bytes) : List Event :=
  [.segment ⟨hostIp, 80, 40000, 8, 0x1001, 0x19, stream⟩ ⟨110, true, true⟩]

/-- The response in one record, after which the connection is closed. -/
def answerOverTls (stream : Bytes) : List Event := [tlsTick 110 (.ok 0) [.data stream, .closed]]

def sourceTask : Fetch.Agent := ⟨true, .fetchSource, {}⟩

theorem awaitsResponse_overHttp : AwaitsResponse .http sourceTask ((kernelMachine localConfig).run {} overHttp) := by
  constructor <;> decide +kernel

theorem awaitsResponse_overTls : AwaitsResponse .tlsRead sourceTask ((kernelMachine localConfig).run {} overTls) := by
  constructor <;> decide +kernel

theorem textAtEnd_source (status : ℕ) (body : Bytes) : TextAtEnd sourceTask.phase status body :=
  fun _ _ _ => rfl

/-- The answer without a body is a response over TLS only. -/
theorem empty_answer_differs : ¬ ∀ (config : Config) (agent : Fetch.Agent) (p t : Kernel) (ps ts : List Event)
    (stream : Bytes) (n : ℕ), (kernelMachine config).Reachable p → (kernelMachine config).Reachable t →
    AwaitsResponse .http agent p → AwaitsResponse .tlsRead agent t →
    (agent.capturing = true → agent.capture.body = [] ∧ agent.capture.outputText = []) → HeadersEnd stream n →
    (agent.capturing = true → TextAtEnd agent.phase (responseParts stream n).1 (responseParts stream n).2) →
    FetchedResponse config p ps stream n → FetchedResponse config t ts stream n →
    Agree ((kernelMachine config).run p ps) ((kernelMachine config).run t ts) := by
  intro h
  have hend : HeadersEnd emptyAnswer 23 := by
    constructor <;> decide +kernel
  have hp : (kernelMachine localConfig).Reachable ((kernelMachine localConfig).run {} overHttp) :=
    Machine.Reachable.run (.init rfl) (show (kernelMachine localConfig).Allows {} overHttp by decide +kernel)
  have ht : (kernelMachine localConfig).Reachable ((kernelMachine localConfig).run {} overTls) :=
    Machine.Reachable.run (.init rfl) (show (kernelMachine localConfig).Allows {} overTls by decide +kernel)
  have hagree := h localConfig sourceTask _ _ (answerOverHttp emptyAnswer) (answerOverTls emptyAnswer) emptyAnswer 23
    hp ht awaitsResponse_overHttp awaitsResponse_overTls (fun _ => ⟨rfl, rfl⟩) hend (fun _ => textAtEnd_source _ _)
    (fetched_whole hend (by decide +kernel)) (fetched_whole hend (by decide +kernel))
  revert hagree
  decide +kernel

def shortAnswer : Bytes := ascii "HTTP/1.1 200 OK\r\nContent-Length: 4\r\n\r\nabcd"

theorem transports_agree_short :
    Agree ((kernelMachine localConfig).run ((kernelMachine localConfig).run {} overHttp) (answerOverHttp shortAnswer))
      ((kernelMachine localConfig).run ((kernelMachine localConfig).run {} overTls) (answerOverTls shortAnswer)) := by
  have hend : HeadersEnd shortAnswer 34 := by
    constructor <;> decide +kernel
  have hbody : (responseParts shortAnswer 34).2 ≠ [] := by
    decide +kernel
  exact (transports_agree awaitsResponse_overHttp awaitsResponse_overTls (fun _ => ⟨rfl, rfl⟩) hend (fun _ => textAtEnd_source _ _)
    (fetched_whole hend (by decide +kernel)) (fetched_whole hend (by decide +kernel))).mpr hbody

end Agree

end MiniAgentOS.Agent
