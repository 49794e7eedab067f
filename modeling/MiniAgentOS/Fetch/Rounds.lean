import MiniAgentOS.Fetch.KernelSteps

/-! Rounds of a fetch: what is reported comes from one connection. -/
namespace MiniAgentOS.Fetch
open Checked Net Http

/-- A connection begins, or the round in which one will. -/
def Action.connects : Action → Option Unit
  | .start _ _ _ _ | .restart | .established _ _ => some ()
  | _ => none

def Action.fed : Action → Option Bytes
  | .feed data => some data
  | _ => none

/-- The pieces that came over the last connection. -/
def fedSince (trace : List Action) : List Bytes :=
  (Trace.after Action.connects trace).filterMap Action.fed

/-- The pieces that came since the fetch was started. -/
def received (trace : List Action) : List Bytes :=
  (Trace.after Action.started trace).filterMap Action.fed

/-- The parser and what the agent captured are what the last connection made of their initial state. -/
def OneResponse (k : Kernel) : Prop :=
  k.busy → ∃ capture : Capture,
    (k.agent.capturing → capture.body = [] ∧ capture.outputText = []) ∧
    feedPieces k.agent (httpReset, capture) (fedSince k.trace) = .ok (k.http, k.agent.capture)

instance (c : Conn) (now : ℕ) : Decidable (RestartDue c now) :=
  inferInstanceAs (Decidable (_ ∧ _ ∧ (_ ∧ _ ∨ (_ ∨ _ ∨ _) ∧ _)))

def Command.isPost : Command → Bool
  | .post _ _ => true
  | _ => false

/-- No round ends and no connection is opened after a part of the response was received, and no `post`
comes while the agent has a task. -/
def WholeRound (k : Kernel) : Event → Prop
  | .tick env => RestartDue k.conn env.now → received k.trace = []
  | .segment seg _ =>
    k.conn.state = .syn ∧ k.conn.accepts seg ∧ seg.flags &&& 0x12 = 0x12 → received k.trace = []
  | event => k.agent.taskActive → ∀ command ∈ event.command, command.1.isPost = false

instance (k : Kernel) : ∀ event, Decidable (WholeRound k event)
  | .tick _ => inferInstanceAs (Decidable (_ → _))
  | .segment _ _ => inferInstanceAs (Decidable (_ ∧ _ ∧ _ → _))
  | .line text env =>
    inferInstanceAs (Decidable (_ → ∀ command ∈ (Event.line text env).command, _))
  | .udp payload reply env =>
    inferInstanceAs (Decidable (_ → ∀ command ∈ (Event.udp payload reply env).command, _))
  | .arp gateway dns => inferInstanceAs (Decidable (_ → ∀ command ∈ (Event.arp gateway dns).command, _))
  | .dnsReply datagram now =>
    inferInstanceAs (Decidable (_ → ∀ command ∈ (Event.dnsReply datagram now).command, _))
  | .reply sent => inferInstanceAs (Decidable (_ → ∀ command ∈ (Event.reply sent).command, _))
  | .done env => inferInstanceAs (Decidable (_ → ∀ command ∈ (Event.done env).command, _))

/-- A task has a fetch in flight, and no connection was opened since a part of the response came. -/
structure Whole (k : Kernel) : Prop where
  task : k.agent.taskActive = true → k.conn.state ≠ .idle
  same : fedSince k.trace = received k.trace
  one : OneResponse k

variable {config : Config} {k k' : Kernel} {event : Event} {new : List Action}

theorem connects_none {action : Action} (h : action.connects = none) : action.started = none := by
  cases action with
  | start => cases h
  | _ => rfl

theorem fedSince_append (h : ∀ action ∈ new, action.connects = none) (trace : List Action) :
    fedSince (trace ++ new) = fedSince trace ++ new.filterMap Action.fed := by
  unfold fedSince
  rw [Trace.after_append h, List.filterMap_append]

theorem received_append (h : ∀ action ∈ new, action.started = none) (trace : List Action) :
    received (trace ++ new) = received trace ++ new.filterMap Action.fed := by
  unfold received
  rw [Trace.after_append h, List.filterMap_append]

theorem fedSince_connects {action : Action} (h : action.connects = some ()) (trace : List Action) :
    fedSince (trace ++ [action]) = [] := by
  unfold fedSince
  rw [Trace.after_mark trace h]
  rfl

theorem busy_of_idle (hidle : k'.conn.state = .idle ↔ k.conn.state = .idle) (hbusy : k'.busy = true) :
    k.busy = true := by
  unfold Kernel.busy at hbusy ⊢
  simp only [bne_iff_ne, ne_eq] at hbusy ⊢
  rwa [hidle] at hbusy

/-- Actions that neither feed the parser nor open a connection. -/
theorem pieces_unfed (hnew : ∀ action ∈ new, action.connects = none ∧ action.fed = none)
    (trace : List Action) :
    fedSince (trace ++ new) = fedSince trace ∧ received (trace ++ new) = received trace := by
  have hnone : new.filterMap Action.fed = [] :=
    List.filterMap_eq_nil_iff.mpr fun action hmem => (hnew action hmem).2
  constructor
  · rw [fedSince_append fun action hmem => (hnew action hmem).1, hnone, List.append_nil]
  · rw [received_append fun action hmem => connects_none (hnew action hmem).1, hnone, List.append_nil]

/-- A step that neither feeds the parser nor opens a connection. -/
theorem Whole.quiet (h : Whole k) (hidle : k'.conn.state = .idle ↔ k.conn.state = .idle)
    (hhttp : k'.http = k.http) (hagent : k'.agent = k.agent) (htrace : k'.trace = k.trace ++ new)
    (hnew : ∀ action ∈ new, action.connects = none ∧ action.fed = none) : Whole k' := by
  obtain ⟨hfed, hreceived⟩ := pieces_unfed hnew k.trace
  constructor
  · intro hactive
    rw [hagent] at hactive
    exact fun h' => h.task hactive (hidle.mp h')
  · rw [htrace, hfed, hreceived, h.same]
  · intro hbusy
    rw [htrace, hfed, hhttp, hagent]
    exact h.one (busy_of_idle hidle hbusy)

/-- A connection that is opened before anything was received. -/
theorem Whole.connect (h : Whole k) (hidle : k'.conn.state = .idle ↔ k.conn.state = .idle)
    (hhttp : k'.http = k.http) (hagent : k'.agent = k.agent) {action : Action}
    (htrace : k'.trace = k.trace ++ [action]) (hconnects : action.connects = some ())
    (hstarted : action.started = none) (hfed : action.fed = none) (hempty : received k.trace = []) :
    Whole k' := by
  have hreceived : received k'.trace = [] := by
    rw [htrace, received_append (by simpa using hstarted), hempty]
    simp [hfed]
  have hsince : fedSince k'.trace = [] := by
    rw [htrace]
    exact fedSince_connects hconnects _
  constructor
  · intro hactive
    rw [hagent] at hactive
    exact fun h' => h.task hactive (hidle.mp h')
  · rw [hsince, hreceived]
  · intro hbusy
    obtain ⟨capture, hcapture, hpieces⟩ := h.one (busy_of_idle hidle hbusy)
    rw [h.same, hempty] at hpieces
    rw [hsince, hhttp, hagent]
    exact ⟨capture, hcapture, hpieces⟩

/-- A part of the response. -/
theorem Whole.feeds {pieces : List Bytes} (h : Whole k) (hfeeds : Feeds k pieces k')
    (hbusy : k.busy = true) {conn : Conn} (hconn : conn.state ≠ .idle) : Whole { k' with conn } := by
  have hnew : ∀ action ∈ pieces.map Action.feed, action.connects = none := by
    intro action hmem
    obtain ⟨piece, -, rfl⟩ := List.mem_map.mp hmem
    rfl
  have hmap : (pieces.map Action.feed).filterMap Action.fed = pieces := by
    rw [List.filterMap_map]
    exact List.filterMap_some
  have hfed : fedSince k'.trace = fedSince k.trace ++ pieces := by
    rw [hfeeds.trace, fedSince_append hnew, hmap]
  constructor
  · exact fun _ => hconn
  · change fedSince k'.trace = received k'.trace
    rw [hfed, hfeeds.trace, received_append fun action hmem => connects_none (hnew action hmem), hmap,
      h.same]
  · intro _
    obtain ⟨capture, hcapture, hpieces⟩ := h.one hbusy
    refine ⟨capture, ?_, ?_⟩
    · intro hcapturing
      apply hcapture
      unfold Agent.capturing at hcapturing ⊢
      rw [← hfeeds.taskActive, ← hfeeds.phase]
      exact hcapturing
    · change feedPieces k'.agent (httpReset, capture) (fedSince k'.trace) = _
      rw [hfed, feedPieces_congr hfeeds.taskActive hfeeds.phase, feedPieces_append, hpieces, ok_bind]
      exact hfeeds.fed

section Steps

/-- A step that changes the connection only. -/
theorem Whole.conn (h : Whole k) {conn : Conn} (hidle : conn.state = .idle ↔ k.conn.state = .idle) :
    Whole { k with conn } := by
  apply Whole.quiet h hidle
  · rfl
  · rfl
  · exact (List.append_nil _).symm
  · exact fun _ hmem => absurd hmem List.not_mem_nil

theorem busy_of_state {state : FetchState} (h : k.conn.state = state) (hne : state ≠ .idle) :
    k.busy = true := by
  simp [Kernel.busy, h, hne]

theorem whole_segment {seg : TcpSegment} {env : SegmentEnv} (h : Whole k)
    (hwhole : WholeRound k (.segment seg env)) (hstep : SegmentStep k seg env k') : Whole k' := by
  have hidle := (continues_segment hstep).idle
  cases hstep with
  | ignored => exact h
  | synAck state accepts flags =>
    apply Whole.connect h hidle
    · rfl
    · rfl
    · rfl
    · rfl
    · rfl
    · rfl
    · exact hwhole ⟨state, accepts, flags⟩
  | socksHello => exact h.conn hidle
  | socksConnect => exact h.conn hidle
  | http state _ feeds =>
    apply h.feeds feeds (busy_of_state state (by decide))
    intro hdone
    rw [hidle.mp hdone] at state
    cases state

theorem Emits.unfed {request : Request} {c : Conn} {action : Action} (h : Emits request c action) :
    action.connects = none ∧ action.fed = none := by
  cases action with
  | start => cases h
  | restart => cases h
  | established => cases h
  | feed => cases h
  | _ => exact ⟨rfl, rfl⟩

theorem whole_tick {env : TickEnv} {r : TickResult} (h : Whole k) (hwhole : WholeRound k (.tick env))
    (hstep : TickStep k.request k.conn env.now r) :
    Whole { k with conn := r.conn, trace := k.trace ++ r.actions } := by
  have hidle := (continues_tick hstep).idle
  cases hstep with
  | restart deadlineMs txInflight due =>
    apply Whole.connect h hidle
    · rfl
    · rfl
    · rfl
    · rfl
    · rfl
    · rfl
    · exact hwhole due
  | progress hp =>
    apply Whole.quiet h hidle
    · rfl
    · rfl
    · rfl
    · exact fun action hmem => (hp.actions action hmem).unfed

theorem whole_read {c : Conn} {sends : List TlsSend} {start last : Kernel} {pieces : List Bytes}
    {now : ℕ} {conn : Conn} (h : Whole k) (state : k.conn.state = .tlsRead) (same : c.state = .tlsRead)
    (begin : start = { k with
      conn := (tlsSendAll c sends).1
      trace := k.trace ++ (tlsSendAll c sends).2 })
    (feeds : Feeds start pieces last) (stop : ReadStop last now conn) :
    Whole { last with conn } := by
  obtain ⟨-, -, hsame, -⟩ := tlsSendAll_route c sends
  have hreading : start.conn.state = .tlsRead := by
    rw [begin]
    exact hsame.trans same
  have hstart : Whole start := by
    apply Whole.quiet h
    · simp [hreading, state]
    · rw [begin]
    · rw [begin]
    · rw [begin]
    · intro action hmem
      obtain ⟨seq, data, queued, rfl⟩ := tlsSendAll_sendData c sends action hmem
      exact ⟨rfl, rfl⟩
  have hidle := (feeds.continues (by simp [hreading]) stop.state).idle
  apply hstart.feeds feeds (busy_of_state hreading (by decide))
  intro hconn
  rw [hidle.mp hconn] at hreading
  cases hreading

theorem Told.unfed {done : List Action} (h : Told k done) :
    ∀ action ∈ done, action.connects = none ∧ action.fed = none := by
  intro action hmem
  rcases h with rfl | ⟨-, -, rfl⟩
  · exact absurd hmem List.not_mem_nil
  · rw [List.mem_singleton.mp hmem]
    exact ⟨rfl, rfl⟩

theorem whole_settled (h : Whole k) (hs : Settled k k') : Whole k' := by
  obtain ⟨done, htrace, htold⟩ := hs.trace
  obtain ⟨hfed, hreceived⟩ := pieces_unfed htold.unfed k.trace
  constructor
  · intro hactive
    rcases hs.agent with ⟨hsame, hstate⟩ | ⟨-, hfree⟩
    · rw [hsame] at hactive
      rw [hstate hactive]
      exact h.task hactive
    · rw [hfree] at hactive
      cases hactive
  · rw [htrace, hfed, hreceived, h.same]
  · intro hbusy
    have hne : k'.conn.state ≠ .idle := by
      simpa [Kernel.busy] using hbusy
    have hstate := hs.state.resolve_right hne
    have hagent : k'.agent = k.agent := by
      rcases hs.agent with ⟨hsame, -⟩ | ⟨hidle, -⟩
      · exact hsame
      · exact absurd hidle hne
    rw [htrace, hfed, hs.http, hagent]
    exact h.one (busy_of_state hstate.symm hne)

/-- A `post` aside, a fetch is started for a command only if the agent has no task. -/
theorem launch_capturing {p : Kernel} {owner : Owner} {target : Target} (h : Whole k)
    (hpost : k.agent.taskActive → ∀ command ∈ event.command, command.1.isPost = false)
    (hl : Launching k p owner target)
    (hcommand : owner = .command → p.agent.taskActive = true →
      ∃ cmd, event.command.map Prod.fst = some cmd ∧ k.refuses cmd = false)
    (hcapturing : p.agent.capturing = true) :
    p.agent.capture.body = [] ∧ p.agent.capture.outputText = [] := by
  obtain ⟨hactive, hcaptures⟩ : p.agent.taskActive = true ∧ p.agent.phase.captures = true := by
    simpa [Agent.capturing] using hcapturing
  rcases hl.agent with ⟨howner, hsame | hfree⟩ | ⟨-, -, hentered⟩
  · have htask : k.agent.taskActive = true := hsame ▸ hactive
    have hbusy : k.busy = true := by
      simpa [Kernel.busy] using h.task htask
    obtain ⟨cmd, hmap, hrefuses⟩ := hcommand howner hactive
    obtain ⟨⟨found, env⟩, hsome, rfl⟩ := Option.map_eq_some_iff.mp hmap
    have hnot := hpost htask (found, env) hsome
    cases found with
    | post url body => cases hnot
    | _ => simp [Kernel.refuses, hbusy] at hrefuses
  · rw [hfree] at hactive
    cases hactive
  · exact hentered hcaptures

theorem whole_launched {p : Kernel} {owner : Owner} {env : StartEnv} {target : Target}
    {reply : ReplyTo} {redirectStart : Bool}
    (hcapture : p.agent.capturing = true →
      p.agent.capture.body = [] ∧ p.agent.capture.outputText = []) :
    Whole (p.launch config owner env target reply redirectStart) := by
  have hfed : fedSince (p.launch config owner env target reply redirectStart).trace = [] :=
    fedSince_connects rfl _
  have hreceived : received (p.launch config owner env target reply redirectStart).trace = [] := by
    unfold received
    rw [Trace.after_of_since (lastStart_launch p config owner env target reply redirectStart)]
    rfl
  constructor
  · exact fun _ => launch_busy p config owner env target reply redirectStart
  · rw [hfed, hreceived]
  · intro _
    rw [hfed]
    exact ⟨p.agent.capture, hcapture, rfl⟩

theorem whole_step (h : Whole k) (hwhole : WholeRound k event)
    (hpost : k.agent.taskActive → ∀ command ∈ event.command, command.1.isPost = false)
    (hstep : KernelStep config k event k') : Whole k' := by
  cases hstep with
  | arp gateway dns =>
    have hidle := (receiveArp_continues k gateway dns).idle
    obtain ⟨conn, heq, -⟩ := receiveArp_eq k gateway dns
    rw [heq] at hidle ⊢
    exact h.conn hidle
  | dns hdns =>
    cases hdns with
    | ignored => exact h
    | resolved state =>
      apply Whole.quiet h
      · simp [state]
      · rfl
      · rfl
      · rfl
      · simp [Action.connects, Action.fed]
    | tooLarge => exact h.conn Iff.rfl
  | segment hsegment => exact whole_segment h hwhole hsegment
  | outcome hout =>
    cases hout with
    | settled hs => exact whole_settled h hs
    | launched hl _ hcommand => exact whole_launched (launch_capturing h hpost hl hcommand)
  | tick _ hstep _ => exact whole_tick h hwhole hstep
  | read state _ same _ _ begin feeds stop _ => exact whole_read h state same begin feeds stop
  | reply =>
    apply Whole.quiet h
    · exact Iff.rfl
    · rfl
    · rfl
    · exact (List.append_nil _).symm
    · exact fun _ hmem => absurd hmem List.not_mem_nil

theorem whole_init : Whole {} := by
  constructor
  · intro hactive
    cases hactive
  · rfl
  · intro hbusy
    cases hbusy

theorem WholeRound.post (h : WholeRound k event) :
    k.agent.taskActive → ∀ command ∈ event.command, command.1.isPost = false := by
  cases event with
  | tick env => exact fun _ command hmem => absurd hmem (Option.not_mem_none command)
  | segment seg env => exact fun _ command hmem => absurd hmem (Option.not_mem_none command)
  | _ => exact h

end Steps

/-- In every run in which no round ends after a part of the response was received, the parser and what
the agent captured come from one connection. -/
theorem one_response (hk : ((kernelMachine config).restrict WholeRound).Reachable k) : OneResponse k := by
  have hinv : Whole k := by
    apply hk.invariant
    · rintro _ rfl
      exact whole_init
    · intro k event h hallowed
      exact whole_step h hallowed.2 hallowed.2.post
        (kernel_step (Machine.ofChecked_step hallowed.1).2)
  exact hinv.one

section Runs

def localConfig : Config := ⟨false, false, 1080, 8090⟩

def localTick (now : ℕ) : Event := .tick ⟨now, true, true, [], .ok 0, []⟩

/-- A task of the agent whose source is on the host, and the first part of its response. -/
def partRun : List Event :=
  [.line (ascii "{}") ⟨⟨0, true, true, 0⟩, none, none, some
      [⟨⟨0, true, true, 0⟩, .fetchSource, .url (ascii "http://10.0.2.2/") none⟩]⟩,
    localTick 10,
    .segment ⟨hostIp, 80, 40000, 7, 0x1001, 0x12, []⟩ ⟨20, true, true⟩,
    .segment ⟨hostIp, 80, 40000, 8, 0x1001, 0x18,
      ascii "HTTP/1.1 200 OK\r\nContent-Length: 4\r\n\r\nab"⟩ ⟨30, true, true⟩]

/-- The server stalls; in the next round it sends another response. -/
def splicedRun : List Event :=
  partRun ++
    [localTick 31000,
      localTick 31010,
      .segment ⟨hostIp, 80, 40000, 70, 0x1001, 0x12, []⟩ ⟨31020, true, true⟩,
      .segment ⟨hostIp, 80, 40000, 71, 0x1001, 0x18,
        ascii "HTTP/1.1 404 Not Found\r\nContent-Length: 4\r\n\r\nwxyz"⟩ ⟨31030, true, true⟩]

/-- The body that is reported begins with the first response and ends with the second. -/
theorem responses_spliced : ¬ ∀ (config : Config) (k : Kernel),
    (kernelMachine config).Reachable k → OneResponse k := by
  intro h
  let k := (kernelMachine localConfig).run {} splicedRun
  have hk : (kernelMachine localConfig).Reachable k :=
    Machine.Reachable.run (.init rfl)
      (show (kernelMachine localConfig).Allows {} splicedRun by decide +kernel)
  have hbusy : k.busy = true := by
    decide +kernel
  have hcapturing : k.agent.capturing = true := by
    decide +kernel
  have hbody : k.agent.capture.body = ascii "abHT" := by
    decide +kernel
  have hother : ∀ truncated : Bool,
      (feedPieces k.agent (httpReset, ⟨[], truncated, []⟩) (fedSince k.trace)).toOption.map
        (fun s => s.2.body) = some (ascii "wxyz") := by
    decide +kernel
  clear_value k
  obtain ⟨⟨body, truncated, outputText⟩, hempty, hfed⟩ := h localConfig k hk hbusy
  obtain ⟨rfl, rfl⟩ := hempty hcapturing
  have hfirst := hother truncated
  rw [hfed] at hfirst
  have hsame : k.agent.capture.body = ascii "wxyz" := Option.some.inj hfirst
  rw [hbody] at hsame
  revert hsame
  decide

theorem one_response_part :
    let k := (kernelMachine localConfig).run {} partRun
    k.busy ∧ k.http.status = 200 ∧ OneResponse k := by
  intro k
  have hk : ((kernelMachine localConfig).restrict WholeRound).Reachable k :=
    Machine.Reachable.run (.init rfl)
      (show ((kernelMachine localConfig).restrict WholeRound).Allows {} partRun by decide +kernel)
  have hbusy : k.busy = true := by
    decide +kernel
  have hstatus : k.http.status = 200 := by
    decide +kernel
  exact ⟨hbusy, hstatus, one_response hk⟩

end Runs

end MiniAgentOS.Fetch
