import MiniAgentOS.Fetch.Receive
import MiniAgentOS.Fetch.TickSteps

/-! What receiving a part of the response can do to a fetch: the parser and the capture are fed, and
all else that was asked for stays as it is. -/
namespace MiniAgentOS.Fetch
open Checked Net Http

/-- A connection without what the receiving of data changes. -/
def Conn.core (c : Conn) : Conn :=
  { c with state := .idle, gotResp := false, errorReason := [], nextMs := 0, ack := 0, peerClosed := false }

section Effects

variable {oauth : Bool} {s : Conn × Redirect} {effect : HttpEffect} {effects : List HttpEffect}

/-- What effects of the parser may change: the end of the fetch, and the redirect of a request without
OAuth. -/
structure EffectFrame (oauth : Bool) (effects : List HttpEffect) (s t : Conn × Redirect) : Prop where
  core : t.1.core = s.1.core
  state : t.1.state = s.1.state ∨ (t.1.state = .done ∧ .headersTooLarge ∈ effects)
  pending : t.2.pending → s.2.pending ∨ oauth = false

theorem EffectFrame.refl (oauth : Bool) (effects : List HttpEffect) (s : Conn × Redirect) :
    EffectFrame oauth effects s s := ⟨rfl, .inl rfl, .inl⟩

theorem EffectFrame.trans {t u : Conn × Redirect} {more : List HttpEffect}
    (h : EffectFrame oauth effects s t) (h' : EffectFrame oauth more t u) :
    EffectFrame oauth (effects ++ more) s u := by
  constructor
  · exact h'.core.trans h.core
  · rcases h'.state with hsame | ⟨hdone, hlarge⟩
    · rw [hsame]
      exact h.state.imp_right fun ⟨hdone, hlarge⟩ => ⟨hdone, List.mem_append_left _ hlarge⟩
    · exact .inr ⟨hdone, List.mem_append_right _ hlarge⟩
  · intro hpending
    exact (h'.pending hpending).elim h.pending .inr

theorem applyEffect_frame (oauth : Bool) (s : Conn × Redirect) (effect : HttpEffect) :
    EffectFrame oauth [effect] s (applyEffect oauth s effect) := by
  cases effect with
  | body data json => exact ⟨rfl, .inl rfl, .inl⟩
  | headersTooLarge => exact ⟨rfl, .inr ⟨rfl, List.mem_cons_self⟩, .inl⟩
  | redirect target =>
    unfold applyEffect captureRedirect
    dsimp only
    split_ifs with hkeep hlong
    · exact EffectFrame.refl oauth _ s
    · exact ⟨rfl, .inl rfl, .inl⟩
    · refine ⟨rfl, .inl rfl, fun _ => .inr ?_⟩
      push Not at hkeep
      simpa using hkeep.1
  | headerBytes data => exact EffectFrame.refl oauth _ s
  | status code => exact EffectFrame.refl oauth _ s
  | setTime epoch => exact EffectFrame.refl oauth _ s

theorem applyEffects_frame (oauth : Bool) (s : Conn × Redirect) (effects : List HttpEffect) :
    EffectFrame oauth effects s (effects.foldl (applyEffect oauth) s) := by
  induction effects generalizing s with
  | nil => exact EffectFrame.refl oauth [] s
  | cons effect effects ih => exact (applyEffect_frame oauth s effect).trans (ih _)

end Effects

section Feeds

/-- The parser and the capture after some pieces. -/
def feedPieces (agent : Agent) (s : HttpParser × Capture) (pieces : List Bytes) :
    Checked (HttpParser × Capture) :=
  pieces.foldlM (fun s data => do
    let (http, capture, _) ← feedCapture { agent with capture := s.2 } s.1 data
    pure (http, capture)) s

/-- The kernel `k'` is `k` after some pieces of the response. -/
structure Feeds (k : Kernel) (pieces : List Bytes) (k' : Kernel) : Prop where
  request : k'.request = k.request
  dnsCache : k'.dnsCache = k.dnsCache
  taskActive : k'.agent.taskActive = k.agent.taskActive
  phase : k'.agent.phase = k.agent.phase
  core : k'.conn.core = k.conn.core
  state : k'.conn.state = k.conn.state ∨ k'.conn.state = .done
  parsed : ∃ effects, feedAll k.http pieces = .ok (k'.http, effects) ∧
    (k'.conn.state = k.conn.state ∨ .headersTooLarge ∈ effects)
  pending : k'.redirect.pending → k.redirect.pending ∨ k.request.oauthActive = false
  trace : k'.trace = k.trace ++ pieces.map .feed
  fed : feedPieces k.agent (k.http, k.agent.capture) pieces = .ok (k'.http, k'.agent.capture)

variable {k k' last : Kernel} {pieces more : List Bytes} {data : Bytes}

theorem Feeds.refl (k : Kernel) : Feeds k [] k :=
  ⟨rfl, rfl, rfl, rfl, rfl, .inl rfl, ⟨[], rfl, .inl rfl⟩, .inl, (List.append_nil _).symm, rfl⟩

theorem feedPieces_congr {agent agent' : Agent} (htask : agent'.taskActive = agent.taskActive)
    (hphase : agent'.phase = agent.phase) (s : HttpParser × Capture) (pieces : List Bytes) :
    feedPieces agent' s pieces = feedPieces agent s pieces := by
  have hagent : ∀ capture, ({ agent' with capture } : Agent) = { agent with capture } := by
    intro capture
    rw [htask, hphase]
  unfold feedPieces
  simp only [hagent]

theorem feedPieces_append (agent : Agent) (s : HttpParser × Capture) (pieces more : List Bytes) :
    feedPieces agent s (pieces ++ more) =
      (feedPieces agent s pieces >>= fun s => feedPieces agent s more) := List.foldlM_append

theorem feedAll_append {http next last : HttpParser} {effects later : List HttpEffect}
    (h : feedAll http pieces = .ok (next, effects)) (h' : feedAll next more = .ok (last, later)) :
    feedAll http (pieces ++ more) = .ok (last, effects ++ later) := by
  induction pieces generalizing http effects with
  | nil =>
    cases h
    exact h'
  | cons data pieces ih =>
    rw [feedAll] at h
    rw [List.cons_append, feedAll]
    cases hfeed : httpFeed http data with
    | error trap =>
      rw [hfeed] at h
      cases h
    | ok fed =>
      rw [hfeed, ok_bind] at h
      rw [ok_bind]
      dsimp only at h ⊢
      cases hrest : feedAll fed.1 pieces with
      | error trap =>
        rw [hrest] at h
        cases h
      | ok rest =>
        rw [hrest, ok_bind] at h
        cases h
        rw [ih hrest, ok_bind, List.append_assoc]
        rfl

theorem Feeds.trans (h : Feeds k pieces k') (h' : Feeds k' more last) : Feeds k (pieces ++ more) last := by
  constructor
  · exact h'.request.trans h.request
  · exact h'.dnsCache.trans h.dnsCache
  · exact h'.taskActive.trans h.taskActive
  · exact h'.phase.trans h.phase
  · exact h'.core.trans h.core
  · rcases h'.state with hsame | hdone
    · rw [hsame]
      exact h.state
    · exact .inr hdone
  · obtain ⟨effects, hfed, hstate⟩ := h.parsed
    obtain ⟨later, hfed', hstate'⟩ := h'.parsed
    refine ⟨effects ++ later, feedAll_append hfed hfed', ?_⟩
    rcases hstate' with hsame | hlarge
    · rw [hsame]
      exact hstate.imp_right fun hlarge => List.mem_append_left _ hlarge
    · exact .inr (List.mem_append_right _ hlarge)
  · intro hpending
    rcases h'.pending hpending with hbefore | hoauth
    · exact h.pending hbefore
    · exact .inr (h.request ▸ hoauth)
  · rw [h'.trace, h.trace, List.map_append, List.append_assoc]
  · rw [feedPieces_append, h.fed, ok_bind, ← h'.fed]
    exact (feedPieces_congr h.taskActive h.phase _ _).symm

theorem feedCapture_parsed {agent : Agent} {http next : HttpParser} {capture : Capture}
    {effects : List HttpEffect} (h : feedCapture agent http data = .ok (next, capture, effects)) :
    feedAll http [data] = .ok (next, effects) := by
  unfold feedCapture at h
  cases hfeed : httpFeed http data with
  | error trap =>
    rw [hfeed] at h
    cases h
  | ok fed =>
    rw [hfeed, ok_bind] at h
    have hsame : fed = (next, effects) := by
      dsimp only at h
      split_ifs at h
      · cases hcapture : fed.2.foldlM (captureEffect agent.phase fed.1.status) agent.capture with
        | error trap =>
          rw [hcapture] at h
          cases h
        | ok captured =>
          rw [hcapture] at h
          cases h
          rfl
      · cases h
        rfl
    rw [feedAll, hfeed, hsame]
    simp [feedAll]

theorem feed_feeds (h : k.feed data = .ok k') : Feeds k [data] k' := by
  unfold Kernel.feed at h
  cases hfeed : feedCapture k.agent k.http data with
  | error trap =>
    rw [hfeed] at h
    cases h
  | ok fed =>
    obtain ⟨http, capture, effects⟩ := fed
    rw [hfeed] at h
    cases h
    have hframe := applyEffects_frame k.request.oauthActive (k.conn, k.redirect) effects
    constructor
    · rfl
    · rfl
    · rfl
    · rfl
    · exact hframe.core
    · exact hframe.state.imp_right And.left
    · exact ⟨effects, feedCapture_parsed hfeed, hframe.state.imp_right And.right⟩
    · exact hframe.pending
    · rfl
    · change (feedCapture k.agent k.http data >>= _) >>= _ = _
      rw [hfeed]
      rfl

theorem feedAll_feeds {pieces : List Bytes} (h : pieces.foldlM Kernel.feed k = .ok k') :
    Feeds k pieces k' := by
  induction pieces generalizing k with
  | nil =>
    cases h
    exact Feeds.refl _
  | cons data pieces ih =>
    rw [List.foldlM_cons] at h
    cases hfeed : k.feed data with
    | error trap =>
      rw [hfeed] at h
      cases h
    | ok next =>
      rw [hfeed] at h
      exact (feed_feeds hfeed).trans (ih h)

theorem readPiece_feeds (k : Kernel) (now : ℕ) : Feeds k [] (k.readPiece now) :=
  ⟨rfl, rfl, rfl, rfl, rfl, .inl rfl, ⟨[], rfl, .inl rfl⟩, .inl, (List.append_nil _).symm, rfl⟩

/-- Why the reading over TLS stops: the library wants to be called again, the response is complete, the
idle time is over, the peer closed the connection, or the library failed. -/
inductive ReadStop (k : Kernel) (now : ℕ) : Conn → Prop where
  | again : ReadStop k now k.conn
  | complete : k.http.state = .complete → ReadStop k now k.conn.finish
  | idle : k.conn.nextMs < now → k.conn.gotResp → ReadStop k now k.conn.finish
  | closed : ReadStop k now { k.conn.finish with peerClosed := true }
  | failed (reason : Bytes) : ReadStop k now (k.conn.fail reason).finish

theorem ReadStop.core {now : ℕ} {c : Conn} (h : ReadStop k now c) : c.core = k.conn.core := by
  cases h <;> rfl

theorem ReadStop.gotResp {now : ℕ} {c : Conn} (h : ReadStop k now c) : c.gotResp = k.conn.gotResp := by
  cases h <;> rfl

theorem ReadStop.haveGw {now : ℕ} {c : Conn} (h : ReadStop k now c) : c.haveGw = k.conn.haveGw := by
  cases h <;> rfl

theorem ReadStop.state {now : ℕ} {c : Conn} (h : ReadStop k now c) :
    c.state = k.conn.state ∨ c.state = .done := by
  cases h with
  | again => exact .inl rfl
  | _ => exact .inr rfl

/-- What a tick reads if nothing else stops it, and whether the connection is then closed or fails. -/
def readPieces : ℕ → List TlsRead → List Bytes × Bool
  | 0, _ => ([], false)
  | _ + 1, [] | _ + 1, .retry :: _ => ([], false)
  | _ + 1, .data [] :: _ | _ + 1, .closed :: _ | _ + 1, .failed :: _ => ([], true)
  | burst + 1, .data (b :: plain) :: reads =>
    ((b :: plain).take httpBufLen :: (readPieces burst reads).1, (readPieces burst reads).2)

/-- Where the reading of a tick ends: at the end of the response, at the idle time before anything was
read, or where the results of the library end. -/
inductive ReadEnd (k : Kernel) (now : ℕ) (read : List Bytes × Bool) (pieces : List Bytes)
    (last : Kernel) (conn : Conn) : Prop where
  | complete (h : last.http.state = .complete)
  | idle (h : pieces = []) (late : k.conn.nextMs < now) (got : k.conn.gotResp = true)
  | rest (h : pieces = read.1) (ended : conn = last.conn ∨ read.2 = true)

/-- Reading over TLS feeds pieces that were read, and stops. A piece counts as a response. -/
theorem tlsRead_feeds {now burst : ℕ} {reads : List TlsRead}
    (h : k.tlsRead now burst reads = .ok k') : ∃ last pieces conn,
      Feeds k pieces last ∧ ReadStop last now conn ∧
      ReadEnd k now (readPieces burst reads) pieces last conn ∧
      last.conn.gotResp = (k.conn.gotResp || !pieces.isEmpty) ∧ k' = { last with conn } := by
  have hnone : k.conn.gotResp = (k.conn.gotResp || !([] : List Bytes).isEmpty) := (Bool.or_false _).symm
  induction burst generalizing k reads with
  | zero =>
    cases h
    exact ⟨_, [], _, Feeds.refl _, .again, .rest rfl (.inl rfl), hnone, rfl⟩
  | succ burst ih =>
    unfold Kernel.tlsRead at h
    split_ifs at h with hcomplete hidle
    · cases h
      exact ⟨_, [], _, Feeds.refl _, .complete hcomplete, .complete hcomplete, hnone, rfl⟩
    · cases h
      exact ⟨_, [], _, Feeds.refl _, .idle hidle.1 hidle.2, .idle rfl hidle.1 hidle.2, hnone, rfl⟩
    cases reads with
    | nil =>
      cases h
      exact ⟨_, [], _, Feeds.refl _, .again, .rest rfl (.inl rfl), hnone, rfl⟩
    | cons read reads =>
      cases read with
      | retry =>
        cases h
        exact ⟨_, [], _, Feeds.refl _, .again, .rest rfl (.inl rfl), hnone, rfl⟩
      | closed =>
        cases h
        exact ⟨_, [], _, Feeds.refl _, .closed, .rest rfl (.inr rfl), hnone, rfl⟩
      | failed =>
        cases h
        exact ⟨_, [], _, Feeds.refl _, .failed _, .rest rfl (.inr rfl), hnone, rfl⟩
      | data plain =>
        cases plain with
        | nil =>
          cases h
          exact ⟨_, [], _, Feeds.refl _, .closed, .rest rfl (.inr rfl), hnone, rfl⟩
        | cons b plain =>
          cases hfeed : k.feed ((b :: plain).take httpBufLen) with
          | error trap =>
            simp only [hfeed, error_bind] at h
            cases h
          | ok next =>
            simp only [hfeed, ok_bind] at h
            obtain ⟨last, pieces, conn, hfeeds, hstop, hend, hgot, rfl⟩ := ih h (Bool.or_false _).symm
            have hread := (feed_feeds hfeed).trans (readPiece_feeds next now)
            have hanswer : last.conn.gotResp = true := hgot.trans (Bool.true_or _)
            refine ⟨last, _, conn, hread.trans hfeeds, hstop, ?_, hanswer.trans (Bool.or_true _).symm, rfl⟩
            cases hend with
            | complete hcomplete => exact .complete hcomplete
            | idle _ hlate =>
              -- the idle time was set anew behind the piece
              exact absurd hlate (Nat.not_lt.mpr (Nat.le_add_right now 3000))
            | rest hpieces hended =>
              rw [hpieces]
              exact .rest rfl hended

end Feeds

section Events

variable {k k' : Kernel}

/-- A tick either changes the connection only, or it sends records and reads over TLS. -/
theorem tick_eq_ok {env : TickEnv} (h : k.tick env = .ok k') :
    ((tickConn k.request k.conn env).reads = false ∧
      k' = { k with
        conn := (tickConn k.request k.conn env).conn
        trace := k.trace ++ (tickConn k.request k.conn env).actions }) ∨
    ((tickConn k.request k.conn env).reads = true ∧ ∃ start last pieces conn,
      start = { k with
        conn := (tlsSendAll (tickConn k.request k.conn env).conn env.tlsSends).1
        trace := k.trace ++ (tlsSendAll (tickConn k.request k.conn env).conn env.tlsSends).2 } ∧
      Feeds start pieces last ∧ ReadStop last env.now conn ∧
      ReadEnd start env.now (readPieces tlsReadBurstMax env.reads) pieces last conn ∧
      last.conn.gotResp = (start.conn.gotResp || !pieces.isEmpty) ∧ k' = { last with conn }) := by
  unfold Kernel.tick at h
  dsimp only at h
  cases hreads : (tickConn k.request k.conn env).reads with
  | false =>
    rw [hreads, if_neg Bool.false_ne_true] at h
    cases h
    exact .inl ⟨rfl, rfl⟩
  | true =>
    have hactions : (tickConn k.request k.conn env).actions = [] := by
      have hstep := tickConn_step k.request k.conn env
      generalize tickConn k.request k.conn env = r at hstep hreads
      cases hstep with
      | restart deadlineMs txInflight due => cases hreads
      | progress hprogress => exact (hprogress.reads hreads).2.2.2.2
    rw [hreads, if_pos rfl, hactions, List.append_nil] at h
    obtain ⟨last, pieces, conn, hfeeds, hstop, hend, hgot, rfl⟩ := tlsRead_feeds h
    exact .inr ⟨rfl, _, last, pieces, conn, rfl, hfeeds, hstop, hend, hgot, rfl⟩

theorem receiveHttp_eq_ok {seg : Segment} (h : k.receiveHttp seg = .ok k') : ∃ last,
    Feeds k (feedChunks (newPayload k.conn.ack seg)) last ∧
      k' = { last with
        conn := { last.conn with
          ack := segmentAck k.conn.ack seg
          state := if seg.fin then .done else last.conn.state } } := by
  unfold Kernel.receiveHttp at h
  cases hfeed : (feedChunks (newPayload k.conn.ack seg)).foldlM Kernel.feed k with
  | error trap =>
    rw [hfeed] at h
    cases h
  | ok last =>
    rw [hfeed, ok_bind] at h
    cases h
    exact ⟨last, feedAll_feeds hfeed, rfl⟩

/-- What a segment can do to a fetch. -/
inductive SegmentStep (k : Kernel) (seg : TcpSegment) (env : SegmentEnv) : Kernel → Prop where
  | ignored : SegmentStep k seg env k
  | synAck (state : k.conn.state = .syn) (accepts : k.conn.accepts seg)
      (flags : seg.flags &&& 0x12 = 0x12) : SegmentStep k seg env
        { k with
          conn := k.conn.synAck k.request.https seg env
          trace := k.trace ++ [.established (k.conn.seq + 1) seg.ack] }
  | socksHello (state : k.conn.state = .socksHello) (accepts : k.conn.accepts seg) :
      SegmentStep k seg env { k with conn := k.conn.socksHelloReply seg }
  | socksConnect (state : k.conn.state = .socksConnect) (accepts : k.conn.accepts seg) :
      SegmentStep k seg env { k with conn := k.conn.socksConnectReply k.request.https seg env }
  | http (state : k.conn.state = .http) (accepts : k.conn.accepts seg) {last : Kernel}
      (feeds : Feeds k (feedChunks (newPayload k.conn.ack ⟨seg.seq, seg.payload, seg.fin⟩)) last) :
      SegmentStep k seg env
        { last with
          conn := { last.conn with
            ack := segmentAck k.conn.ack ⟨seg.seq, seg.payload, seg.fin⟩
            state := if seg.fin then .done else last.conn.state } }

theorem receiveSegment_step {seg : TcpSegment} {env : SegmentEnv}
    (h : k.receiveSegment seg env = .ok k') : SegmentStep k seg env k' := by
  unfold Kernel.receiveSegment at h
  by_cases haccepts : k.conn.accepts seg = true
  swap
  · rw [if_pos (by simpa using haccepts)] at h
    cases h
    exact .ignored
  rw [if_neg (by simpa using haccepts)] at h
  split at h
  · rename_i hstate
    split_ifs at h with hflags
    · cases h
      exact .synAck hstate haccepts hflags
    · cases h
      exact .ignored
  · rename_i hstate
    cases h
    exact .socksHello hstate haccepts
  · rename_i hstate
    cases h
    exact .socksConnect hstate haccepts
  · rename_i hstate
    obtain ⟨last, hfeeds, rfl⟩ := receiveHttp_eq_ok h
    exact .http hstate haccepts hfeeds
  · cases h
    exact .ignored

/-- What a datagram of the name server can do to a fetch. -/
inductive DnsStep (k : Kernel) (datagram : Bytes) (now : ℕ) : Kernel → Prop where
  | ignored : DnsStep k datagram now k
  | resolved (state : k.conn.state = .dns) {ip : Ipv4}
      (answer : dnsParseResponse (datagram.take dnsBufLen) (datagram.take dnsBufLen).length
        dnsQueryId = .ok (.address ip)) : DnsStep k datagram now
        { k with
          conn := { k.conn with dstIp := ip, retry := 0, nextMs := 0, state := .syn }
          dnsCache := dnsCacheStore now k.request.domain ip k.dnsCache
          trace := k.trace ++ [.resolved k.request.domain ip (datagram.take dnsBufLen)] }
  | tooLarge (reason : Bytes) : DnsStep k datagram now { k with conn := k.conn.fail reason }

theorem receiveDns_step {datagram : Bytes} {now : ℕ} (h : k.receiveDns datagram now = .ok k') :
    DnsStep k datagram now k' := by
  unfold Kernel.receiveDns at h
  split_ifs at h with hstate
  · dsimp only at h
    cases hparse : dnsParseResponse (datagram.take dnsBufLen) (datagram.take dnsBufLen).length
        dnsQueryId with
    | error trap =>
      rw [hparse] at h
      cases h
    | ok reply =>
      rw [hparse] at h
      cases reply with
      | address ip =>
        cases h
        exact .resolved hstate hparse
      | tooLarge =>
        cases h
        exact .tooLarge _
      | rejected =>
        cases h
        exact .ignored
  · cases h
    exact .ignored

end Events

end MiniAgentOS.Fetch
