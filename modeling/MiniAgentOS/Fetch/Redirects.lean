import MiniAgentOS.Fetch.Credentials
import MiniAgentOS.Fetch.Destination
import MiniAgentOS.Fetch.Isolation
import MiniAgentOS.Http.Location
import MiniAgentOS.Lib.Runs

/-! Redirects: which are followed, how many of them in a row, and with what request. -/
namespace MiniAgentOS.Fetch
open Checked Net Http

section Following

/-- A redirect that was followed: the header block of the response, and the request it led to. -/
structure Followed where
  header : Bytes
  request : Request
  deriving DecidableEq, Repr

/-- The kernel, and the redirects that were followed since the last fetch that was asked for. -/
structure Following where
  kernel : Kernel
  chain : List Followed
  deriving DecidableEq, Repr

/-- The end of a fetch, if the event is one. -/
def Event.ended : Event → Option DoneEnv
  | .done env => some env
  | _ => none

def Event.ends (event : Event) : Bool := event.ended.isSome

/-- What a step started. -/
def startedBy (before after : Kernel) : Option Started :=
  (after.trace.drop before.trace.length).findSome? Action.started

/-- The end of a fetch starts a fetch for the command only to follow a redirect. -/
def Following.next (s : Following) (event : Event) (after : Kernel) : Following :=
  match startedBy s.kernel after with
  | none => ⟨after, s.chain⟩
  | some started =>
    if event.ends ∧ started.owner = .command then
      ⟨after, s.chain ++ [⟨s.kernel.http.header, started.request⟩]⟩
    else ⟨after, []⟩

def following (config : Config) : Machine Following Event where
  init s := (kernelMachine config).init s.kernel ∧ s.chain = []
  allowed s event := (kernelMachine config).allowed s.kernel event
  step s event := s.next event ((kernelMachine config).step s.kernel event)

instance (config : Config) (s : Following) (event : Event) :
    Decidable ((following config).allowed s event) :=
  inferInstanceAs (Decidable ((kernelMachine config).allowed s.kernel event))

/-- A GET without a body and without the extra header. -/
def Request.Plain (request : Request) : Prop :=
  request.methodPost = false ∧ request.body = [] ∧ request.extraHeader = none

instance (request : Request) : Decidable request.Plain := inferInstanceAs (Decidable (_ ∧ _))

/-- The response asked for a redirect, and the request goes where its `Location` field leads. -/
structure Followed.Disciplined (f : Followed) : Prop where
  status : ∃ code, parseStatus f.header f.header.length = .ok code ∧ 300 ≤ code ∧ code < 400
  location : ∃ value, LocationField f.header value ∧
    Leads value ⟨f.request.domain, f.request.path, f.request.https⟩
  plain : f.request.Plain

/-- The redirects that were followed in a row, and the request of the last one while it is in
flight. -/
structure Following.Disciplined (s : Following) : Prop where
  followed : ∀ f ∈ s.chain, f.Disciplined
  bound : s.chain.length ≤ fetchMaxRedirects
  inFlight : s.chain ≠ [] → s.kernel.busy → s.kernel.request.Plain

/-- The agent takes the response. -/
def Kernel.taken (k : Kernel) (config : Config) (env : DoneEnv) : Bool :=
  k.agent.taskActive && ((agentAttempt config env.agent).isSome || env.handled)

/-- The fetch is done, and a redirect that was captured is not left to the agent. -/
def Kernel.Follows (k : Kernel) (config : Config) (env : DoneEnv) : Prop :=
  k.conn.state = .done ∧ k.redirect.pending ∧ k.redirect.goal.fits ∧ k.taken config env = false

instance (k : Kernel) (config : Config) (env : DoneEnv) : Decidable (k.Follows config env) :=
  inferInstanceAs (Decidable (_ ∧ _))

/-- A `post` for a target that does not fit: it writes the request, and then nothing is started. -/
def Command.spoils : Command → Bool
  | .post parts _ => !decide (plainTarget parts.domain parts.path parts.https).fits
  | _ => false

def Event.spoils (event : Event) : Bool := event.command.any fun command => command.1.spoils

/-- Only a response whose status is 3xx has its redirect followed, and no `post` that fails comes
while the request of a redirect is in flight. -/
def Sound (config : Config) (s : Following) (event : Event) : Prop :=
  (∀ env ∈ event.ended, s.kernel.Follows config env →
    300 ≤ s.kernel.http.status ∧ s.kernel.http.status < 400) ∧
  (event.spoils → s.chain ≠ [] → s.kernel.busy = false)

instance (config : Config) (s : Following) (event : Event) : Decidable (Sound config s event) :=
  inferInstanceAs (Decidable (_ ∧ _))

end Following

section Capture

variable {k k' : Kernel} {data : Bytes}

/-- How many redirects were followed: one that is captured only is not. -/
def Redirect.followed (r : Redirect) : ℕ := if r.pending then r.count - 1 else r.count

/-- The redirects that were counted are within the limit, and one that is captured stands in the
header block of the parser. -/
structure Redirecting (http : HttpParser) (r : Redirect) : Prop where
  count : r.count ≤ fetchMaxRedirects
  captured : r.pending → 0 < r.count ∧ Found http r.target

/-- What the response so far does to the redirect. -/
def Catches (k k' : Kernel) : Prop :=
  Redirecting k.http k.redirect → Redirecting k'.http k'.redirect ∧
    k'.redirect.followed = k.redirect.followed

theorem Catches.of_eq (hhttp : k'.http = k.http) (hredirect : k'.redirect = k.redirect) :
    Catches k k' := by
  intro h
  rw [hhttp, hredirect]
  exact ⟨h, rfl⟩

theorem Catches.trans {last : Kernel} (h : Catches k k') (h' : Catches k' last) : Catches k last := by
  intro hbefore
  obtain ⟨hmid, hsame⟩ := h hbefore
  obtain ⟨hlast, hsame'⟩ := h' hmid
  exact ⟨hlast, hsame'.trans hsame⟩

theorem captureRedirect_catches {http : HttpParser} {target : RedirectTarget} {c : Conn}
    {r : Redirect} (oauth : Bool) (h : Redirecting http r) (hfound : Found http target) :
    Redirecting http (captureRedirect oauth target c r).2 ∧
      (captureRedirect oauth target c r).2.followed = r.followed := by
  unfold captureRedirect
  split_ifs with hkeep hlong
  · exact ⟨h, rfl⟩
  · exact ⟨h, rfl⟩
  · push Not at hkeep
    obtain ⟨-, hroom, hfree⟩ := hkeep
    have hnone : r.pending = false := by
      simpa using hfree
    refine ⟨⟨hroom, fun _ => ⟨Nat.succ_pos _, hfound⟩⟩, ?_⟩
    simp [Redirect.followed, hnone]

theorem applyEffects_catches {http : HttpParser} (oauth : Bool) (effects : List HttpEffect)
    (hfound : ∀ target, .redirect target ∈ effects → Found http target) (s : Conn × Redirect)
    (h : Redirecting http s.2) :
    Redirecting http (effects.foldl (applyEffect oauth) s).2 ∧
      (effects.foldl (applyEffect oauth) s).2.followed = s.2.followed := by
  induction effects generalizing s with
  | nil => exact ⟨h, rfl⟩
  | cons effect effects ih =>
    have hrest := ih fun target hmem => hfound target (List.mem_cons_of_mem _ hmem)
    have hone : Redirecting http (applyEffect oauth s effect).2 ∧
        (applyEffect oauth s effect).2.followed = s.2.followed := by
      cases effect with
      | redirect target => exact captureRedirect_catches oauth h (hfound target List.mem_cons_self)
      | _ => exact ⟨h, rfl⟩
    obtain ⟨hlast, hsame⟩ := hrest _ hone.1
    exact ⟨hlast, hsame.trans hone.2⟩

theorem feed_catches (h : k.feed data = .ok k') : Catches k k' := by
  intro hbefore
  unfold Kernel.feed feedCapture at h
  cases hfeed : httpFeed k.http data with
  | error trap =>
    rw [hfeed] at h
    cases h
  | ok fed =>
    obtain ⟨hbehind, hannounced⟩ := httpFeed_redirect fed hfeed
    have hnext : Redirecting fed.1 k.redirect := by
      refine ⟨hbefore.count, fun hpending => ?_⟩
      obtain ⟨hpos, hfound⟩ := hbefore.captured hpending
      exact ⟨hpos, (hbehind hfound.behind).found hfound⟩
    have hall := applyEffects_catches k.request.oauthActive fed.2 hannounced (k.conn, k.redirect) hnext
    rw [hfeed, ok_bind] at h
    dsimp only at h
    split_ifs at h
    · cases hcapture : fed.2.foldlM (captureEffect k.agent.phase fed.1.status) k.agent.capture with
      | error trap =>
        rw [hcapture] at h
        cases h
      | ok capture =>
        rw [hcapture] at h
        cases h
        exact hall
    · cases h
      exact hall

theorem feeds_catches {pieces : List Bytes} (h : pieces.foldlM Kernel.feed k = .ok k') :
    Catches k k' := by
  induction pieces generalizing k with
  | nil =>
    cases h
    exact .of_eq rfl rfl
  | cons data pieces ih =>
    rw [List.foldlM_cons] at h
    cases hfeed : k.feed data with
    | error trap =>
      rw [hfeed] at h
      cases h
    | ok next =>
      rw [hfeed] at h
      exact (feed_catches hfeed).trans (ih h)

theorem tlsRead_catches {now burst : ℕ} {reads : List TlsRead}
    (h : k.tlsRead now burst reads = .ok k') : Catches k k' := by
  induction burst generalizing k reads with
  | zero =>
    cases h
    exact .of_eq rfl rfl
  | succ burst ih =>
    unfold Kernel.tlsRead at h
    split_ifs at h with hcomplete hidle
    · cases h
      exact .of_eq rfl rfl
    · cases h
      exact .of_eq rfl rfl
    cases reads with
    | nil =>
      cases h
      exact .of_eq rfl rfl
    | cons read reads =>
      cases read with
      | retry =>
        cases h
        exact .of_eq rfl rfl
      | closed =>
        cases h
        exact .of_eq rfl rfl
      | failed =>
        cases h
        exact .of_eq rfl rfl
      | data plain =>
        cases plain with
        | nil =>
          cases h
          exact .of_eq rfl rfl
        | cons b plain =>
          cases hfeed : k.feed ((b :: plain).take httpBufLen) with
          | error trap =>
            simp only [hfeed, error_bind] at h
            cases h
          | ok next =>
            simp only [hfeed, ok_bind] at h
            have hread : Catches next (next.readPiece now) := .of_eq rfl rfl
            exact ((feed_catches hfeed).trans hread).trans (ih h)

theorem tick_catches {env : TickEnv} (h : k.tick env = .ok k') : Catches k k' := by
  unfold Kernel.tick at h
  dsimp only at h
  split_ifs at h
  · have hread := tlsRead_catches h
    exact Catches.trans (.of_eq rfl rfl) hread
  · cases h
    exact .of_eq rfl rfl

theorem receiveSegment_catches {seg : TcpSegment} {env : SegmentEnv}
    (h : k.receiveSegment seg env = .ok k') : Catches k k' := by
  unfold Kernel.receiveSegment at h
  by_cases haccepts : (!k.conn.accepts seg) = true
  · rw [if_pos haccepts] at h
    cases h
    exact .of_eq rfl rfl
  rw [if_neg haccepts] at h
  split at h
  · split_ifs at h
    · cases h
      exact .of_eq rfl rfl
    · cases h
      exact .of_eq rfl rfl
  · cases h
    exact .of_eq rfl rfl
  · cases h
    exact .of_eq rfl rfl
  · unfold Kernel.receiveHttp at h
    cases hfeed : (feedChunks (newPayload k.conn.ack ⟨seg.seq, seg.payload, seg.fin⟩)).foldlM
        Kernel.feed k with
    | error trap =>
      rw [hfeed] at h
      cases h
    | ok last =>
      rw [hfeed, ok_bind] at h
      cases h
      have hend : Catches last _ := .of_eq rfl rfl
      exact (feeds_catches hfeed).trans hend
  · cases h
    exact .of_eq rfl rfl

end Capture

section Turn

/-- What was done since, without a start. -/
def Quiet (k k' : Kernel) : Prop :=
  ∃ new, k'.trace = k.trace ++ new ∧ ∀ action ∈ new, action.started = none

/-- What a step does to the redirect: the fetch goes on; none is started; one is started for a command
or the agent; or the redirect is followed. -/
inductive Turn (config : Config) (k : Kernel) (event : Event) : Kernel → Prop where
  | goes {k' : Kernel} (continues : Continues k k') (catches : Catches k k')
      (spoils : event.spoils = false) (ends : event.ends = false) : Turn config k event k'
  | settles {k' : Kernel} (http : k'.http = k.http)
      (redirect : k'.redirect = k.redirect ∨
        (k'.redirect.count = k.redirect.count ∧ k'.redirect.pending = false))
      (quiet : Quiet k k')
      (request : event.spoils = false → k'.busy = true →
        k.busy = true ∧ (k.request.Plain → k'.request.Plain))
      (post : event.spoils = true → k'.busy = k.busy ∧ k'.request.methodPost = true)
      (ends : ∀ env ∈ event.ended, ¬ k.Follows config env) : Turn config k event k'
  | starts {p : Kernel} {owner : Owner} {env : StartEnv} {target : Target} {reply : ReplyTo}
      (quiet : Quiet k p) (asker : event.ends → owner = .agent) (spoils : event.spoils = false)
      (ends : ∀ env ∈ event.ended, ¬ k.Follows config env) :
      Turn config k event (p.launch config owner env target reply false)
  | follows {p : Kernel} {env : DoneEnv} {reply : ReplyTo} (done : event = .done env)
      (follows : k.Follows config env) (quiet : Quiet k p) (redirect : p.redirect = k.redirect)
      (plain : p.request.Plain) :
      Turn config k event (p.launch config .command env.start k.redirect.goal reply true)

variable {config : Config} {k k' : Kernel} {event : Event}

theorem ended_of_not_ends (h : event.ends = false) {P : DoneEnv → Prop} : ∀ env ∈ event.ended, P env := by
  intro env hmem
  rw [Event.ends, Option.mem_def.mp hmem] at h
  cases h

theorem Quiet.of_eq (h : k'.trace = k.trace) : Quiet k k' :=
  ⟨[], by rw [h, List.append_nil], fun _ hmem => absurd hmem List.not_mem_nil⟩

/-- A command whose handler does nothing. -/
theorem Turn.same (hends : event.ends = false) (hspoils : event.spoils = false) :
    Turn config k event k := by
  apply Turn.settles rfl (.inl rfl) (Quiet.of_eq rfl)
  · exact fun _ hbusy => ⟨hbusy, id⟩
  · intro h
    rw [hspoils] at h
    cases h
  · exact ended_of_not_ends hends

theorem dropHeader_methodPost (request : Request) :
    request.dropHeader.methodPost = request.methodPost := by
  unfold Request.dropHeader
  split_ifs <;> rfl

theorem startCommand_turn {request : Request} {target : Target} {env : CommandEnv} {reply : ReplyTo}
    (hends : event.ends = false) (hspoils : event.spoils = true → ¬ target.fits)
    (hidle : event.spoils = false → ¬ target.fits → ¬ k.busy = true)
    (hpost : event.spoils = true → request.methodPost = true) :
    Turn config k event (k.startCommand config env reply request target) := by
  have hnone : ∀ env ∈ event.ended, ¬ k.Follows config env := ended_of_not_ends hends
  unfold Kernel.startCommand
  by_cases hfits : target.fits
  · rw [fetchStartEx_of_fits hfits]
    apply Turn.starts
    · exact Quiet.of_eq rfl
    · intro h
      rw [hends] at h
      cases h
    · exact Bool.eq_false_iff.mpr fun h => hspoils h hfits
    · exact hnone
  · obtain ⟨failed, reason, hfailed, hstart⟩ := fetchStartEx_of_not_fits hfits
      { k with request } config .command env.start reply false
    rw [hstart]
    refine .settles rfl (.inl rfl) (Quiet.of_eq rfl) ?_ ?_ hnone
    · exact fun hspoil hbusy => absurd hbusy (hidle hspoil hfits)
    · intro hspoil
      refine ⟨rfl, ?_⟩
      rcases hfailed with rfl | rfl
      · exact hpost hspoil
      · exact (dropHeader_methodPost request).trans (hpost hspoil)

/-- A command that is refused while a fetch is in flight. -/
theorem startCommand_turn_idle {request : Request} {target : Target} {env : CommandEnv}
    {reply : ReplyTo} (hends : event.ends = false) (hspoils : event.spoils = false)
    (hidle : ¬ k.busy = true) : Turn config k event (k.startCommand config env reply request target) := by
  have hno : ∀ {P : Prop}, event.spoils = true → P := by
    intro P h
    rw [hspoils] at h
    cases h
  exact startCommand_turn hends hno (fun _ _ => hidle) hno

/-- The agent starts a request, or its task ends. -/
theorem agentCommand_turn (env : CommandEnv) (hends : event.ends = false)
    (hspoils : event.spoils = false) : Turn config k event (k.agentCommand config env) := by
  unfold Kernel.agentCommand
  split_ifs with hrefused
  · exact Turn.same hends hspoils
  cases hstarts : env.agent with
  | none => exact Turn.same hends hspoils
  | some starts =>
    have hnone : ∀ env ∈ event.ended, ¬ k.Follows config env := ended_of_not_ends hends
    dsimp only
    rcases agentProceed_cases { k with agent := { k.agent with taskActive := true } } config starts with
      ⟨p, htried, -, hproceed⟩ | ⟨p, start, target, -, -, htried, -, hproceed⟩
    · rw [hproceed]
      refine .settles htried.http (.inl htried.redirect) (Quiet.of_eq htried.trace) ?_ ?_ hnone
      · intro _ hbusy
        cases hbusy
      · intro h
        rw [hspoils] at h
        cases h
    · rw [hproceed]
      apply Turn.starts
      · exact Quiet.of_eq htried.trace
      · exact fun _ => rfl
      · exact hspoils
      · exact hnone

theorem command_turn {cmd : Command} {env : CommandEnv} (reply : ReplyTo)
    (hcommand : event.command = some (cmd, env)) :
    Turn config k event (k.command config reply env cmd) := by
  have hends : event.ends = false := by
    cases event with
    | done env => cases hcommand
    | _ => rfl
  have hspoils : event.spoils = cmd.spoils := by
    unfold Event.spoils
    rw [hcommand]
    rfl
  cases cmd with
  | agentTask => exact agentCommand_turn env hends hspoils
  | goal => exact agentCommand_turn env hends hspoils
  | other => exact Turn.same hends hspoils
  | sync =>
    unfold Kernel.command
    dsimp only
    split_ifs with hbusy
    · exact Turn.same hends hspoils
    · exact startCommand_turn_idle hends hspoils hbusy
  | tlsLocal =>
    unfold Kernel.command
    dsimp only
    split_ifs with hbusy
    · exact Turn.same hends hspoils
    · exact startCommand_turn_idle hends hspoils hbusy
  | bridge =>
    unfold Kernel.command
    dsimp only
    split_ifs with hbusy
    · exact Turn.same hends hspoils
    cases env.bridge with
    | none => exact Turn.same hends hspoils
    | some asked => exact startCommand_turn_idle hends hspoils hbusy
  | tweet text =>
    unfold Kernel.command
    dsimp only
    split_ifs with hbusy
    · exact Turn.same hends hspoils
    cases env.tweet with
    | none => exact Turn.same hends hspoils
    | some signed => exact startCommand_turn_idle hends hspoils hbusy
  | url parts =>
    unfold Kernel.command
    dsimp only
    split_ifs with hbusy
    · refine .settles rfl (.inl rfl) (Quiet.of_eq rfl) ?_ ?_ ?_
      · exact fun _ _ => ⟨hbusy, fun _ => ⟨rfl, rfl, rfl⟩⟩
      · intro h
        rw [hspoils] at h
        cases h
      · exact ended_of_not_ends hends
    · exact startCommand_turn_idle hends hspoils hbusy
  | post parts body =>
    have hfits : event.spoils = true ↔ ¬ (plainTarget parts.domain parts.path parts.https).fits := by
      rw [hspoils]
      simp [Command.spoils]
    apply startCommand_turn hends hfits.mp
    · intro hno hnot
      rw [hfits.mpr hnot] at hno
      cases hno
    · exact fun _ => rfl

/-- What the end of a fetch has done before it answers or follows a redirect. -/
structure EpisodeEnded (k base : Kernel) : Prop where
  http : base.http = k.http
  quiet : Quiet k base
  plain : base.busy = true → k.busy = true ∧ (k.request.Plain → base.request.Plain)

variable {base : Kernel} {env : DoneEnv}

theorem answer_turn (h : EpisodeEnded k base) (hredirect : base.redirect = k.redirect ∨
      (base.redirect.count = k.redirect.count ∧ base.redirect.pending = false))
    (hends : ¬ k.Follows config env) : Turn config k (.done env) (base.answer env) := by
  have hnone : ∀ env' ∈ (Event.done env).ended, ¬ k.Follows config env' := by
    rintro _ ⟨⟩
    exact hends
  have hidle : ∀ reply, Turn config k (.done env) (Kernel.release { base with reply }) := by
    intro reply
    refine .settles h.http hredirect h.quiet ?_ ?_ hnone
    · intro _ hbusy
      cases hbusy
    · intro hspoils
      cases hspoils
  have hstays : ∀ reply, Turn config k (.done env) { base with reply } :=
    fun reply => .settles h.http hredirect h.quiet (fun _ => h.plain) (fun hspoils => by cases hspoils) hnone
  unfold Kernel.answer
  split_ifs
  · exact hstays _
  · exact hstays base.reply
  · exact hidle base.reply
  · exact hidle _

theorem dropHeader_plain {request : Request} (h : request.Plain) : request.dropHeader.Plain := by
  rw [dropHeader_of_none h.2.2]
  exact h

theorem dropHeader_none {request : Request} (h : request.oauthActive = false) :
    request.dropHeader.extraHeader = none := by
  unfold Request.dropHeader
  rw [h]
  rfl

theorem bare_plain {request : Request} (h : request.Plain) :
    Request.Plain { request with methodPost := false, body := [] } := ⟨rfl, rfl, h.2.2⟩

theorem report_turn (h : EpisodeEnded k base) (hredirect : base.redirect = k.redirect)
    (hoauth : k.redirect.pending = true → base.request.oauthActive = false)
    (hfollows : k.redirect.pending = true → k.redirect.goal.fits → k.Follows config env) :
    Turn config k (.done env) (base.report config env) := by
  by_cases hpending : base.redirect.pending = true
  swap
  · have hanswer : base.report config env = base.answer env := if_neg hpending
    rw [hanswer]
    apply answer_turn h (.inl hredirect)
    intro hfollow
    rw [hredirect] at hpending
    exact hpending hfollow.2.1
  have hgoal : base.bare.redirect.goal = k.redirect.goal := congrArg Redirect.goal hredirect
  rw [report_eq hpending]
  rw [hredirect] at hpending
  unfold Kernel.followRedirect
  rw [hgoal]
  by_cases hfits : k.redirect.goal.fits
  · rw [fetchStartEx_of_fits hfits, if_pos rfl]
    let p : Kernel := { base.bare with request := base.bare.request.dropHeader }
    have hplain : p.request.Plain := by
      have hnone : base.bare.request.dropHeader.extraHeader = none := dropHeader_none (hoauth hpending)
      refine ⟨?_, ?_, hnone⟩
      · change base.bare.request.dropHeader.methodPost = false
        unfold Request.dropHeader
        split_ifs <;> rfl
      · change base.bare.request.dropHeader.body = []
        unfold Request.dropHeader
        split_ifs <;> rfl
    have hstart : Turn config k (.done env)
        (p.launch config .command env.start k.redirect.goal ⟨base.reply.ip, base.reply.srcPort⟩ true) :=
      .follows rfl (hfollows hpending hfits) h.quiet hredirect hplain
    exact hstart
  · obtain ⟨failed, reason, hfailed, hstart⟩ := fetchStartEx_of_not_fits hfits base.bare config .command
      env.start ⟨base.bare.reply.ip, base.bare.reply.srcPort⟩ true
    rw [hstart, if_neg Bool.false_ne_true]
    apply answer_turn
    · refine ⟨h.http, h.quiet, fun hbusy => ?_⟩
      obtain ⟨hbefore, hplain⟩ := h.plain hbusy
      refine ⟨hbefore, fun hk => ?_⟩
      have hbare := bare_plain (hplain hk)
      rcases hfailed with rfl | rfl
      · exact hbare
      · exact dropHeader_plain hbare
    · have hcount : base.redirect.count = k.redirect.count := by
        rw [hredirect]
      exact .inr ⟨hcount, rfl⟩
    · exact fun hfollow => hfits hfollow.2.2.1

theorem finishFetch_turn (hdone : k.conn.state = .done)
    (hoauth : k.redirect.pending = true → k.request.oauthActive = false) :
    Turn config k (.done env) (k.finishFetch config env) := by
  have hbusy : k.busy = true := by
    simp [Kernel.busy, hdone]
  unfold Kernel.finishFetch
  dsimp only
  by_cases hactive : k.agent.taskActive = true
  swap
  · rw [if_neg (show ¬ (k.closeDone config env).agent.taskActive = true from hactive)]
    apply report_turn
    · exact ⟨rfl, Quiet.of_eq rfl, fun _ => ⟨hbusy, id⟩⟩
    · rfl
    · exact hoauth
    · intro hpending hfits
      refine ⟨hdone, hpending, hfits, ?_⟩
      unfold Kernel.taken
      rw [Bool.eq_false_iff.mpr hactive, Bool.false_and]
  rw [if_pos (show (k.closeDone config env).agent.taskActive = true from hactive)]
  rcases agentProceed_cases ((k.closeDone config env).emit [.agentDone k.conn.gotResp]) config env.agent
    with ⟨p, htried, hnone, hproceed⟩ | ⟨p, start, target, -, -, htried, hsome, hproceed⟩
  · have hquiet : Quiet k p.agentFinish := by
      refine ⟨[.agentDone k.conn.gotResp], htried.trace, fun action hmem => ?_⟩
      rw [List.mem_singleton.mp hmem]
      rfl
    have hended : EpisodeEnded k p.agentFinish := by
      refine ⟨htried.http, hquiet, fun hidle => ?_⟩
      cases hidle
    have htaken : k.taken config env = env.handled := by
      unfold Kernel.taken
      rw [hactive, hnone]
      rfl
    rw [hproceed]
    dsimp only
    by_cases hhandled : env.handled = true
    · rw [if_pos (show false = true ∨ env.handled = true from .inr hhandled)]
      refine .settles hended.http (.inl htried.redirect) hquiet (fun _ => hended.plain) ?_ ?_
      · intro hspoils
        cases hspoils
      · rintro _ ⟨⟩ hfollow
        rw [Kernel.Follows, htaken, hhandled] at hfollow
        exact absurd hfollow.2.2.2 (by decide)
    · rw [if_neg (by simpa using hhandled)]
      apply report_turn hended htried.redirect
      · exact fun _ => rfl
      · intro hpending hfits
        exact ⟨hdone, hpending, hfits, htaken.trans (Bool.eq_false_iff.mpr hhandled)⟩
  · rw [hproceed]
    dsimp only
    rw [if_pos (show true = true ∨ env.handled = true from .inl rfl)]
    apply Turn.starts
    · refine ⟨[.agentDone k.conn.gotResp], htried.trace, fun action hmem => ?_⟩
      rw [List.mem_singleton.mp hmem]
      rfl
    · exact fun _ => rfl
    · rfl
    · rintro _ ⟨⟩ hfollow
      have htaken := hfollow.2.2.2
      rw [Kernel.taken, hactive, hsome] at htaken
      cases htaken

theorem udp_command {payload : Bytes} {reply : ReplyTo} {env : CommandEnv}
    (h : k.step config (.udp payload reply env) = .ok k') :
    ∃ cmd, Event.command (.udp payload reply env) = some (cmd, env) := by
  change (udpCommand payload >>= _) = _ at h
  cases hcmd : udpCommand payload with
  | error trap =>
    rw [hcmd] at h
    cases h
  | ok cmd => exact ⟨cmd, by simp [Event.command, toOption_eq hcmd]⟩

theorem line_command {text : Bytes} {env : CommandEnv}
    (h : k.step config (.line text env) = .ok k') :
    ∃ cmd, Event.command (.line text env) = some (cmd, env) := by
  change (uartCommand text >>= _) = _ at h
  cases hcmd : uartCommand text with
  | error trap =>
    rw [hcmd] at h
    cases h
  | ok cmd => exact ⟨cmd, by simp [Event.command, toOption_eq hcmd]⟩

theorem step_turn (hoauth : k.redirect.pending = true → k.request.oauthActive = false)
    (h : k.step config event = .ok k') : Turn config k event k' := by
  cases event with
  | arp gateway dns =>
    cases h
    obtain ⟨conn, heq, -, -⟩ := receiveArp_eq k gateway dns
    refine .goes (receiveArp_continues k gateway dns) ?_ rfl rfl
    rw [heq]
    exact .of_eq rfl rfl
  | dnsReply datagram now =>
    have hdns := receiveDns_step h
    refine .goes ?_ ?_ rfl rfl
    · cases hdns with
      | ignored => exact continues_conn k Iff.rfl
      | resolved state => exact ⟨rfl, rfl, rfl, by simp [state], _, rfl, by simp [Action.within]⟩
      | tooLarge => exact continues_conn k Iff.rfl
    · cases hdns <;> exact .of_eq rfl rfl
  | segment seg env =>
    exact .goes (continues_segment (receiveSegment_step h)) (receiveSegment_catches h) rfl rfl
  | tick env => exact .goes (tick_continues h) (tick_catches h) rfl rfl
  | reply sent =>
    cases h
    unfold Kernel.sendReply
    split_ifs
    · refine .settles rfl (.inl rfl) (Quiet.of_eq rfl) (fun _ hbusy => ⟨hbusy, id⟩) ?_
        (ended_of_not_ends rfl)
      intro hspoils
      cases hspoils
    · exact Turn.same rfl rfl
  | udp payload reply env =>
    obtain ⟨cmd, hcmd⟩ := udp_command h
    obtain ⟨answerTo, rfl⟩ := step_command h hcmd
    exact command_turn answerTo hcmd
  | line text env =>
    obtain ⟨cmd, hcmd⟩ := line_command h
    obtain ⟨answerTo, rfl⟩ := step_command h hcmd
    exact command_turn answerTo hcmd
  | done env =>
    cases h
    split_ifs with hdone
    · exact finishFetch_turn hdone hoauth
    · refine .settles rfl (.inl rfl) (Quiet.of_eq rfl) (fun _ hbusy => ⟨hbusy, id⟩) ?_ ?_
      · intro hspoils
        cases hspoils
      · rintro _ ⟨⟩ hfollow
        exact hdone hfollow.1

end Turn

section Invariant

variable {config : Config} {k k' : Kernel} {s : Following} {event : Event}

/-- What holds of the redirects in every run. -/
structure Counted (s : Following) : Prop where
  redirecting : Redirecting s.kernel.http s.kernel.redirect
  chain : s.chain.length ≤ s.kernel.redirect.followed

theorem following_kernel (hs : (following config).Reachable s) :
    (kernelMachine config).Reachable s.kernel := by
  induction hs with
  | init hinit => exact .init hinit.1
  | @step before event _ hallowed ih =>
    have hnext : ((following config).step before event).kernel =
        (kernelMachine config).step before.kernel event := by
      change (Following.next _ _ _).kernel = _
      unfold Following.next
      split
      · rfl
      · split_ifs <;> rfl
    rw [hnext]
    exact ih.step hallowed

theorem startedBy_quiet (h : Quiet k k') : startedBy k k' = none := by
  obtain ⟨new, htrace, hnew⟩ := h
  unfold startedBy
  rw [htrace, List.drop_left, List.findSome?_eq_none_iff]
  exact hnew

theorem startedBy_launch {p : Kernel} {owner : Owner} {env : StartEnv} {target : Target}
    {reply : ReplyTo} {redirectStart : Bool} (h : Quiet k p) :
    startedBy k (p.launch config owner env target reply redirectStart) =
      some ⟨owner, p.request.aim target, p.dnsCache, env.now⟩ := by
  obtain ⟨new, htrace, hnew⟩ := h
  have hall : (p.launch config owner env target reply redirectStart).trace =
      k.trace ++ (new ++ [.start owner (p.request.aim target) p.dnsCache env.now]) := by
    rw [← List.append_assoc, ← htrace]
    rfl
  unfold startedBy
  rw [hall, List.drop_left, List.findSome?_append, List.findSome?_eq_none_iff.mpr hnew]
  rfl

theorem next_quiet (event : Event) (h : Quiet s.kernel k') : s.next event k' = ⟨k', s.chain⟩ := by
  unfold Following.next
  rw [startedBy_quiet h]

theorem next_start {p : Kernel} {owner : Owner} {env : StartEnv} {target : Target} {reply : ReplyTo}
    {redirectStart : Bool} (h : Quiet s.kernel p) (howner : event.ends → owner = .agent) :
    s.next event (p.launch config owner env target reply redirectStart) =
      ⟨p.launch config owner env target reply redirectStart, []⟩ := by
  unfold Following.next
  rw [startedBy_launch h]
  apply if_neg
  rintro ⟨hends, hcommand⟩
  rw [howner hends] at hcommand
  cases hcommand

theorem next_follow {p : Kernel} {env : DoneEnv} {start : StartEnv} {target : Target} {reply : ReplyTo}
    {redirectStart : Bool} (h : Quiet s.kernel p) :
    s.next (.done env) (p.launch config .command start target reply redirectStart) =
      ⟨p.launch config .command start target reply redirectStart,
        s.chain ++ [⟨s.kernel.http.header, p.request.aim target⟩]⟩ := by
  unfold Following.next
  rw [startedBy_launch h]
  exact if_pos ⟨rfl, rfl⟩

theorem Continues.quiet (h : Continues k k') : Quiet k k' := by
  obtain ⟨new, htrace, hnew⟩ := h.trace
  exact ⟨new, htrace, fun action hmem => started_within (hnew action hmem)⟩

theorem followed_le (r : Redirect) : r.followed ≤ r.count := by
  unfold Redirect.followed
  split_ifs <;> omega

theorem counted_next (h : Counted s) (hturn : Turn config s.kernel event k') :
    Counted (s.next event k') := by
  cases hturn with
  | goes continues catches =>
    obtain ⟨hredirecting, hfollowed⟩ := catches h.redirecting
    rw [next_quiet event continues.quiet]
    exact ⟨hredirecting, hfollowed ▸ h.chain⟩
  | settles http redirect quiet =>
    rw [next_quiet event quiet]
    rcases redirect with hsame | ⟨hcount, hfree⟩
    · refine ⟨?_, ?_⟩
      · rw [http, hsame]
        exact h.redirecting
      · rw [hsame]
        exact h.chain
    · refine ⟨⟨hcount ▸ h.redirecting.count, fun hpending => ?_⟩, ?_⟩
      · rw [hfree] at hpending
        cases hpending
      · have hle := followed_le s.kernel.redirect
        have hall : k'.redirect.followed = k'.redirect.count := by
          simp [Redirect.followed, hfree]
        have hchain := h.chain
        change s.chain.length ≤ k'.redirect.followed
        omega
  | starts quiet asker =>
    rw [next_start quiet asker]
    exact ⟨⟨Nat.zero_le _, fun hpending => by cases hpending⟩, Nat.zero_le _⟩
  | @follows p env reply done follows quiet redirect plain =>
    subst done
    rw [next_follow quiet]
    have hcount : (p.launch config .command env.start s.kernel.redirect.goal reply true).redirect.count =
        s.kernel.redirect.count := by
      change p.redirect.count = _
      rw [redirect]
    refine ⟨⟨hcount ▸ h.redirecting.count, fun hpending => by cases hpending⟩, ?_⟩
    have hpos := (h.redirecting.captured follows.2.1).1
    have hchain := h.chain
    have hbefore : s.kernel.redirect.followed = s.kernel.redirect.count - 1 := if_pos follows.2.1
    have hafter : (p.launch config .command env.start s.kernel.redirect.goal reply true).redirect.followed =
        s.kernel.redirect.count := hcount
    rw [hafter, List.length_append, List.length_singleton]
    omega

theorem following_turn (hs : (following config).Reachable s) (hallowed : (following config).allowed s event) :
    Turn config s.kernel event ((kernelMachine config).step s.kernel event) := by
  have hkernel : (kernelMachine config).allowed s.kernel event := hallowed
  exact step_turn (requests_confined (following_kernel hs)).redirect (Machine.ofChecked_step hkernel).2

theorem following_counted (hs : (following config).Reachable s) : Counted s := by
  induction hs with
  | init hinit =>
    obtain ⟨hkernel, hchain⟩ := hinit
    constructor
    · rw [show _ = ({} : Kernel) from hkernel]
      exact ⟨Nat.zero_le _, fun hpending => by cases hpending⟩
    · rw [hchain]
      exact Nat.zero_le _
  | @step before event hbefore hallowed ih =>
    exact counted_next ih (following_turn hbefore hallowed)

theorem Counted.bound (h : Counted s) : s.chain.length ≤ fetchMaxRedirects :=
  (h.chain.trans (followed_le _)).trans h.redirecting.count

/-- A step keeps the discipline just if it is sound. -/
theorem disciplined_next (h : s.Disciplined) (hcounted : Counted s)
    (hturn : Turn config s.kernel event k') :
    (s.next event k').Disciplined ↔ Sound config s event := by
  have hbound := (counted_next hcounted hturn).bound
  cases hturn with
  | goes continues catches spoils ends =>
    rw [next_quiet event continues.quiet] at hbound ⊢
    constructor
    · intro _
      constructor
      · exact ended_of_not_ends ends
      · intro h
        rw [spoils] at h
        cases h
    · intro _
      refine ⟨h.followed, hbound, fun hchain hbusy => ?_⟩
      change k'.request.Plain
      rw [continues.request]
      apply h.inFlight hchain
      simpa [Kernel.busy, continues.idle] using hbusy
  | settles http redirect quiet request post ends =>
    rw [next_quiet event quiet] at hbound ⊢
    constructor
    · intro hnext
      refine ⟨fun env henv hfollow => absurd hfollow (ends env henv), fun hspoils hchain => ?_⟩
      obtain ⟨hbusy, hpost⟩ := post hspoils
      rw [← hbusy]
      by_contra hin
      have hplain := hnext.inFlight hchain (by simpa using hin)
      rw [hplain.1] at hpost
      cases hpost
    · intro hsound
      refine ⟨h.followed, hbound, fun hchain hbusy => ?_⟩
      cases hspoils : event.spoils with
      | false =>
        obtain ⟨hbefore, hplain⟩ := request hspoils hbusy
        exact hplain (h.inFlight hchain hbefore)
      | true =>
        have hidle := hsound.2 hspoils hchain
        rw [← (post hspoils).1] at hidle
        rw [hidle] at hbusy
        cases hbusy
  | starts quiet asker spoils ends =>
    rw [next_start quiet asker] at hbound ⊢
    constructor
    · intro _
      refine ⟨fun env henv hfollow => absurd hfollow (ends env henv), fun hspoils => ?_⟩
      rw [spoils] at hspoils
      cases hspoils
    · exact fun _ => ⟨fun f hf => absurd hf List.not_mem_nil, hbound, fun hchain => absurd rfl hchain⟩
  | @follows p env reply done follows quiet redirect plain =>
    subst done
    rw [next_follow quiet] at hbound ⊢
    obtain ⟨-, hfound⟩ := hcounted.redirecting.captured follows.2.1
    constructor
    · intro hnext
      constructor
      · rintro _ ⟨⟩ _
        obtain ⟨code, hcode, hrange⟩ :=
          (hnext.followed _ (List.mem_append_right _ (List.mem_singleton_self _))).status
        rw [hfound.status] at hcode
        cases hcode
        exact hrange
      · intro hspoils
        cases hspoils
    · intro hsound
      have hrange := hsound.1 env rfl follows
      refine ⟨fun f hf => ?_, hbound, fun _ _ => plain⟩
      rcases List.mem_append.mp hf with hold | hnew
      · exact h.followed f hold
      · rw [List.mem_singleton.mp hnew]
        constructor
        · exact ⟨_, hfound.status, hrange⟩
        · exact redirectTarget_ensures _ _ hfound.location _ rfl
        · exact plain

/-- A run that begins when the kernel does is disciplined just if all its steps are sound. -/
theorem redirects_disciplined (config : Config) {s : Following} (hinit : (following config).init s)
    {events : List Event} (hallowed : (following config).Allows s events) :
    (following config).Throughout Following.Disciplined s events ↔
      (following config).Meets (Sound config) s events := by
  have hstart : s.Disciplined := by
    refine ⟨fun f hf => ?_, ?_, fun hchain => absurd hinit.2 hchain⟩
    · rw [hinit.2] at hf
      cases hf
    · rw [hinit.2]
      exact Nat.zero_le _
  apply Machine.throughout_iff
  · intro s event hs hdisciplined hallowed
    exact disciplined_next hdisciplined (following_counted hs) (following_turn hs hallowed)
  · exact .init hinit
  · exact hstart
  · exact hallowed

end Invariant

section Runs

/-- A fetch that is answered with a `Location` field. -/
def redirectRun (answer : String) : List Event :=
  [urlLine "http://a.com/" 0 true, plainTick 10, .dnsReply (addressReply (ascii "a.com") firstIp) 20,
    plainTick 30, .segment ⟨firstIp, 80, 40000, 7, 0x1001, 0x12, []⟩ ⟨40, true, true⟩,
    .segment ⟨firstIp, 80, 40000, 8, 0x1001, 0x11,
      ascii answer ++ [cr, lf] ++ ascii "Location: http://b.com/" ++ headerTerminator⟩ ⟨50, true, true⟩,
    .done ⟨false, [], false, ⟨60, true, true, 0⟩, true, true⟩]

/-- The redirect of a response with status 200 is followed. -/
theorem success_redirected : ¬ ∀ (config : Config) (s : Following) (events : List Event),
    (following config).init s → (following config).Allows s events →
      (following config).Throughout Following.Disciplined s events := by
  intro h
  let s : Following := ⟨{}, []⟩
  let events := redirectRun "HTTP/1.1 200 OK"
  have hallowed : (following plainConfig).Allows s events := by
    decide +kernel
  have hlast := (h plainConfig s events ⟨rfl, rfl⟩ hallowed).last
  have hchain : ((following plainConfig).run s events).chain.map Followed.header =
      [ascii "HTTP/1.1 200 OK" ++ [cr, lf] ++ ascii "Location: http://b.com/" ++ headerTerminator] := by
    decide +kernel
  generalize (following plainConfig).run s events = last at hlast hchain
  obtain ⟨f, hf, hheader⟩ := List.map_eq_singleton_iff.mp hchain
  have hstatus := (hlast.followed f (hf ▸ List.mem_singleton_self f)).status
  rw [hheader] at hstatus
  obtain ⟨code, hcode, hlow, -⟩ := hstatus
  have htwo : parseStatus (ascii "HTTP/1.1 200 OK" ++ [cr, lf] ++ ascii "Location: http://b.com/" ++
      headerTerminator) 44 = .ok 200 := by
    decide +kernel
  rw [show (ascii "HTTP/1.1 200 OK" ++ [cr, lf] ++ ascii "Location: http://b.com/" ++
    headerTerminator).length = 44 from by decide +kernel, htwo] at hcode
  cases hcode
  omega

theorem redirects_disciplined_moved :
    let s : Following := ⟨{}, []⟩
    let events := redirectRun "HTTP/1.1 301 Moved Permanently"
    ((following plainConfig).run s events).chain ≠ [] ∧
      (following plainConfig).Throughout Following.Disciplined s events := by
  intro s events
  have hinit : (following plainConfig).init s := ⟨rfl, rfl⟩
  have hallowed : (following plainConfig).Allows s events := by
    decide +kernel
  have hsound : (following plainConfig).Meets (Sound plainConfig) s events := by
    decide +kernel
  have hchain : ((following plainConfig).run s events).chain ≠ [] := by
    decide +kernel
  exact ⟨hchain, (redirects_disciplined plainConfig hinit hallowed).mpr hsound⟩

end Runs

end MiniAgentOS.Fetch
