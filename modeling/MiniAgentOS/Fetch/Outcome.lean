import MiniAgentOS.Fetch.Loop

/-! What a command and the end of a fetch come to: a new fetch is started for a request that was
prepared, or none is. -/
namespace MiniAgentOS.Fetch
open Checked Net Http

/-- Both requests ask the same host for the same path. -/
structure SameAim (r s : Request) : Prop where
  domain : s.domain = r.domain
  path : s.path = r.path
  https : s.https = r.https
  targetPort : s.targetPort = r.targetPort

theorem SameAim.refl (r : Request) : SameAim r r := ⟨rfl, rfl, rfl, rfl⟩

theorem SameAim.trans {r s t : Request} (h : SameAim r s) (h' : SameAim s t) : SameAim r t :=
  ⟨h'.domain.trans h.domain, h'.path.trans h.path, h'.https.trans h.https,
    h'.targetPort.trans h.targetPort⟩

/-- A connection without its state and what closing it and an error change. -/
def Conn.transport (c : Conn) : Conn :=
  { c with
    state := .idle
    errorReason := []
    openaiRequest := false
    openaiReusable := false
    established := false
    peerClosed := false }

/-- The host that a credential is for. -/
def CredentialKind.host : CredentialKind → Bytes
  | .openai => openaiResponsesHost
  | .x => xapiDomain

/-- The agent was told that its fetch is done, or nothing was done. -/
def Told (k : Kernel) (done : List Action) : Prop :=
  done = [] ∨
    (k.agent.taskActive = true ∧ k.conn.state = .done ∧ done = [.agentDone k.conn.gotResp])

/-- A fetch that got all of its response from the model, over a connection that may be kept. -/
def Kernel.LeftOpen (k : Kernel) : Prop :=
  k.conn.state = .done ∧ k.conn.openaiRequest ∧ k.conn.established ∧ k.http.state = .complete

instance (k : Kernel) : Decidable k.LeftOpen := inferInstanceAs (Decidable (_ ∧ _))

/-- The kernel `p` is `k` but for its replies, its redirect and what is written before a request is
sent. -/
structure Prepared (k p : Kernel) : Prop where
  aim : SameAim k.request p.request
  transport : p.conn.transport = k.conn.transport
  reusable : p.conn.openaiReusable → k.conn.openaiReusable ∨ k.LeftOpen
  established : p.conn.established → k.conn.established
  state : p.conn.state = k.conn.state ∨ p.conn.state = .idle
  http : p.http = k.http
  dnsCache : p.dnsCache = k.dnsCache
  trace : ∃ done, p.trace = k.trace ++ done ∧ Told k done

/-- No fetch was started: the request may have lost its header, and the agent its task. -/
structure Settled (k k' : Kernel) : Prop extends Prepared k k' where
  header : k'.request.extraHeader = none ∨ k'.request.extraHeader = k.request.extraHeader
  oauth : k'.request.oauthActive → k.request.oauthActive
  kept : k'.request.extraHeader ≠ none → k'.request.oauthActive = k.request.oauthActive
  pending : k'.redirect.pending → k.redirect.pending
  agent : (k'.agent = k.agent ∧ (k.agent.taskActive = true → k'.conn.state = k.conn.state)) ∨
    (k'.conn.state = .idle ∧ k'.agent.taskActive = false)

/-- The agent begins to capture a response. -/
def Agent.Entered (agent : Agent) : Prop :=
  agent.taskActive = true ∧
    (agent.phase.captures → agent.capture.body = [] ∧ agent.capture.outputText = [])

/-- The kernel `p` is `k` with a request of `owner` that is about to be sent to `target`. -/
structure Launching (k p : Kernel) (owner : Owner) (target : Target) : Prop extends Prepared k p where
  header : ∀ credential, p.request.extraHeader = some credential →
    (target.https ∧ target.domain = credential.kind.host ∧ p.request.oauthActive) ∨
      (k.redirect.pending ∧ k.request.oauthActive)
  agent : (owner = .command ∧ (p.agent = k.agent ∨ p.agent.taskActive = false)) ∨
    (owner = .agent ∧ p.agent.Entered)
  domain : target.domain ≠ [] ∧ target.domain.length ≤ fetchDomainLen

/-- The commands that are refused. -/
def Kernel.refuses (k : Kernel) : Command → Bool
  | .agentTask | .goal => k.agent.taskActive || k.busy
  | .post _ _ => false
  | _ => k.busy

/-- What is done with a request: no fetch is started, or the one of `attempt`. A fetch that is not one
of an agent at work is asked for by a command that is not refused. -/
inductive Outcome (config : Config) (attempt : Option (StartEnv × Target)) (command : Option Command)
    (k : Kernel) : Kernel → Prop where
  | settled {k' : Kernel} (h : Settled k k') : Outcome config attempt command k k'
  | launched {p : Kernel} {owner : Owner} {env : StartEnv} {target : Target} {reply : ReplyTo}
      {redirectStart : Bool} (h : Launching k p owner target) (hattempt : attempt = some (env, target))
      (hcommand : owner = .command → p.agent.taskActive = true →
        ∃ cmd, command = some cmd ∧ k.refuses cmd = false) :
      Outcome config attempt command k (p.launch config owner env target reply redirectStart)

section Start

variable {config : Config} {k k' : Kernel} {owner : Owner} {env : StartEnv} {target : Target}
  {reply : ReplyTo} {redirectStart : Bool}

/-- The three checks of a start: a host, and room for it and for the path. -/
def Target.fits (target : Target) : Prop :=
  target.domain ≠ [] ∧ target.domain.length ≤ fetchDomainLen ∧ target.path.length ≤ fetchPathLen

instance (target : Target) : Decidable target.fits := inferInstanceAs (Decidable (_ ∧ _))

/-- The start of a target, if it is one. -/
def Target.attempt (target : Target) (env : StartEnv) : Option (StartEnv × Target) :=
  if target.fits then some (env, target) else none

theorem fetchStartEx_of_fits (h : target.fits) (k : Kernel) (config : Config) (owner : Owner)
    (env : StartEnv) (reply : ReplyTo) (redirectStart : Bool) :
    k.fetchStartEx config owner env target reply redirectStart =
      (Kernel.launch { k with request := k.request.dropHeader } config owner env target reply
        redirectStart, true) := by
  obtain ⟨hhost, hdomain, hpath⟩ := h
  unfold Kernel.fetchStartEx
  dsimp only
  rw [if_neg hhost, if_neg (Nat.not_lt.mpr hdomain), if_neg (Nat.not_lt.mpr hpath)]

/-- A start that fails leaves an error, and the request without a header unless there is OAuth. -/
theorem fetchStartEx_of_not_fits (h : ¬ target.fits) (k : Kernel) (config : Config) (owner : Owner)
    (env : StartEnv) (reply : ReplyTo) (redirectStart : Bool) :
    ∃ request reason, (request = k.request ∨ request = k.request.dropHeader) ∧
      k.fetchStartEx config owner env target reply redirectStart =
        ({ k with request, conn := k.conn.fail reason }, false) := by
  unfold Kernel.fetchStartEx
  dsimp only
  split_ifs with hhost hdomain hpath
  · exact ⟨_, _, .inl rfl, rfl⟩
  · exact ⟨_, _, .inr rfl, rfl⟩
  · exact ⟨_, _, .inr rfl, rfl⟩
  · exact absurd ⟨hhost, Nat.le_of_not_lt hdomain, Nat.le_of_not_lt hpath⟩ h

theorem sameAim_dropHeader (request : Request) : SameAim request request.dropHeader := by
  unfold Request.dropHeader
  split_ifs
  · exact SameAim.refl request
  · exact ⟨rfl, rfl, rfl, rfl⟩

theorem dropHeader_oauth (request : Request) :
    request.dropHeader.oauthActive = request.oauthActive := by
  unfold Request.dropHeader
  split_ifs <;> rfl

theorem dropHeader_of_none {request : Request} (h : request.extraHeader = none) :
    request.dropHeader = request := by
  unfold Request.dropHeader
  split_ifs
  · rfl
  · rw [← h]

/-- What is left of a header is a header of OAuth. -/
theorem dropHeader_extraHeader {request : Request} {credential : Credential}
    (h : request.dropHeader.extraHeader = some credential) :
    request.extraHeader = some credential ∧ request.oauthActive := by
  unfold Request.dropHeader at h
  split_ifs at h with hoauth
  exact ⟨h, hoauth⟩

end Start

section AgentStarts

variable {config : Config} {k k' p : Kernel} {start : AgentStart} {target : Target}

def openaiTarget : Target := ⟨openaiResponsesHost, openaiResponsesPath, true, 443, none⟩

theorem agentTarget_openai : agentTarget openaiResponsesUrl = some openaiTarget := by
  decide

/-- A request of the agent with a credential goes to the host that the credential is for. -/
theorem prepare_header {request : Request} {asked : AgentRequest} {credential : Credential}
    (h : (asked.prepare request).extraHeader = some credential)
    (htarget : asked.target config = some target) :
    target.https ∧ target.domain = credential.kind.host ∧ (asked.prepare request).oauthActive := by
  cases asked with
  | openai body header =>
    obtain rfl : (⟨.openai, header⟩ : Credential) = credential := Option.some.inj h
    obtain rfl : openaiTarget = target := Option.some.inj (agentTarget_openai.symm.trans htarget)
    exact ⟨rfl, rfl, rfl⟩
  | xapi path body header =>
    obtain rfl : (⟨.x, header⟩ : Credential) = credential := Option.some.inj h
    obtain rfl : xapiTarget path = target := Option.some.inj htarget
    exact ⟨rfl, rfl, rfl⟩
  | bridge path body => cases body <;> cases h
  | url url body => cases body <;> cases h

theorem sameAim_prepare (request : Request) (asked : AgentRequest) :
    SameAim request (asked.prepare request) := by
  cases asked with
  | openai body header => exact ⟨rfl, rfl, rfl, rfl⟩
  | xapi path body header => exact ⟨rfl, rfl, rfl, rfl⟩
  | bridge path body => cases body <;> exact ⟨rfl, rfl, rfl, rfl⟩
  | url url body => cases body <;> exact ⟨rfl, rfl, rfl, rfl⟩

/-- The kernel `p` is `k` after starts of the agent that failed. -/
structure Tried (k p : Kernel) : Prop where
  aim : SameAim k.request p.request
  transport : p.conn.transport = k.conn.transport
  reusable : p.conn.openaiReusable = k.conn.openaiReusable
  established : p.conn.established = k.conn.established
  state : p.conn.state = k.conn.state
  http : p.http = k.http
  dnsCache : p.dnsCache = k.dnsCache
  trace : p.trace = k.trace
  redirect : p.redirect = k.redirect
  taskActive : p.agent.taskActive = k.agent.taskActive

theorem Tried.trans {q : Kernel} (h : Tried k p) (h' : Tried p q) : Tried k q :=
  ⟨h.aim.trans h'.aim, h'.transport.trans h.transport, h'.reusable.trans h.reusable,
    h'.established.trans h.established, h'.state.trans h.state, h'.http.trans h.http,
    h'.dnsCache.trans h.dnsCache, h'.trace.trans h.trace, h'.redirect.trans h.redirect,
    h'.taskActive.trans h.taskActive⟩

/-- What an attempt of the agent begins with. -/
def Kernel.agentPrepare (k : Kernel) (start : AgentStart) : Kernel :=
  { k with request := (start.request.prepare k.request).dropHeader, agent := k.agent.enter start.phase }

theorem tried_agentPrepare (k : Kernel) (start : AgentStart) : Tried k (k.agentPrepare start) :=
  ⟨(sameAim_prepare _ _).trans (sameAim_dropHeader _), rfl, rfl, rfl, rfl, rfl, rfl, rfl, rfl, rfl⟩

/-- The start of a request of the agent, if it is one. -/
def AgentStart.attempt (config : Config) (start : AgentStart) : Option (StartEnv × Target) :=
  (start.request.target config).bind fun target => target.attempt start.env

theorem agentStart_cases (k : Kernel) (config : Config) (start : AgentStart) :
    (∃ p, Tried k p ∧ start.attempt config = none ∧ k.agentStart config start = (p, false)) ∨
      ∃ target, start.request.target config = some target ∧ target.fits ∧
        start.attempt config = some (start.env, target) ∧ k.agentStart config start =
          ((k.agentPrepare start).launch config .agent start.env target noReply false, true) := by
  have haim := sameAim_prepare k.request start.request
  unfold Kernel.agentStart AgentStart.attempt
  dsimp only
  cases htarget : start.request.target config with
  | none =>
    left
    refine ⟨_, ?_, rfl, rfl⟩
    exact ⟨haim, rfl, rfl, rfl, rfl, rfl, rfl, rfl, rfl, rfl⟩
  | some target =>
    by_cases hfits : target.fits
    · right
      refine ⟨target, rfl, hfits, if_pos hfits, ?_⟩
      exact fetchStartEx_of_fits hfits _ config .agent start.env noReply false
    · left
      obtain ⟨request, reason, hrequest, hstart⟩ := fetchStartEx_of_not_fits hfits
        { k with
          request := start.request.prepare k.request
          agent := k.agent.enter start.phase } config .agent start.env noReply false
      refine ⟨_, ?_, if_neg hfits, hstart⟩
      refine ⟨?_, rfl, rfl, rfl, rfl, rfl, rfl, rfl, rfl, rfl⟩
      rcases hrequest with rfl | rfl
      · exact haim
      · exact haim.trans (sameAim_dropHeader _)

/-- The start among a list of requests of the agent: the first that is one. -/
def agentAttempt (config : Config) (starts : List AgentStart) : Option (StartEnv × Target) :=
  starts.findSome? (AgentStart.attempt config)

/-- The agent starts a request of the list, or its task ends. -/
theorem agentProceed_cases (k : Kernel) (config : Config) (starts : List AgentStart) :
    (∃ p, Tried k p ∧ agentAttempt config starts = none ∧
        k.agentProceed config starts = (p.agentFinish, false)) ∨
      ∃ (p : Kernel) (start : AgentStart) (target : Target),
        start.request.target config = some target ∧ target.fits ∧ Tried k p ∧
        agentAttempt config starts = some (start.env, target) ∧ k.agentProceed config starts =
          ((p.agentPrepare start).launch config .agent start.env target noReply false, true) := by
  induction starts generalizing k with
  | nil => exact .inl ⟨k, ⟨SameAim.refl _, rfl, rfl, rfl, rfl, rfl, rfl, rfl, rfl, rfl⟩, rfl, rfl⟩
  | cons start starts ih =>
    unfold Kernel.agentProceed agentAttempt
    rw [List.findSome?_cons]
    rcases agentStart_cases k config start with
      ⟨p, htried, hattempt, hstart⟩ | ⟨target, htarget, hfits, hattempt, hstart⟩
    · rw [hstart, hattempt]
      rcases ih p with ⟨q, hq, hnone, hproceed⟩ | ⟨q, later, target, htarget, hfits, hq, hsome, hproceed⟩
      · exact .inl ⟨q, htried.trans hq, hnone, hproceed⟩
      · exact .inr ⟨q, later, target, htarget, hfits, htried.trans hq, hsome, hproceed⟩
    · rw [hstart, hattempt]
      exact .inr ⟨k, start, target, htarget, hfits,
        ⟨SameAim.refl _, rfl, rfl, rfl, rfl, rfl, rfl, rfl, rfl, rfl⟩, rfl, rfl⟩

theorem entered_agentPrepare (h : k.agent.taskActive = true) (start : AgentStart) :
    (k.agentPrepare start).agent.Entered := by
  refine ⟨h, fun hcaptures => ?_⟩
  have hphase : start.phase ≠ .postResult := by
    intro hpost
    change start.phase.captures = true at hcaptures
    rw [hpost] at hcaptures
    cases hcaptures
  have hcapture : (k.agentPrepare start).agent.capture =
      { k.agent.capture with body := [], outputText := [] } := if_neg hphase
  rw [hcapture]
  exact ⟨rfl, rfl⟩

theorem Prepared.tried {base : Kernel} (h : Prepared k base) (h' : Tried base p) : Prepared k p := by
  constructor
  · exact h.aim.trans h'.aim
  · exact h'.transport.trans h.transport
  · rw [h'.reusable]
    exact h.reusable
  · rw [h'.established]
    exact h.established
  · rw [h'.state]
    exact h.state
  · exact h'.http.trans h.http
  · exact h'.dnsCache.trans h.dnsCache
  · rw [h'.trace]
    exact h.trace

/-- What an agent that is at work makes of a list of requests. -/
theorem agentProceed_outcome {base : Kernel} (config : Config) (hbase : Prepared k base)
    (hactive : base.agent.taskActive = true) (hpending : base.redirect.pending → k.redirect.pending)
    (starts : List AgentStart) :
    (∃ p, Tried base p ∧ agentAttempt config starts = none ∧
        base.agentProceed config starts = (p.agentFinish, false) ∧ Settled k p.agentFinish) ∨
      ∃ (p : Kernel) (env : StartEnv) (target : Target), base.agentProceed config starts =
          (p.launch config .agent env target noReply false, true) ∧
        Launching k p .agent target ∧ agentAttempt config starts = some (env, target) := by
  rcases agentProceed_cases base config starts with
    ⟨p, htried, hnone, hproceed⟩ | ⟨p, start, target, htarget, hfits, htried, hsome, hproceed⟩
  · left
    have hprepared := hbase.tried htried
    refine ⟨p, htried, hnone, hproceed, ⟨hprepared.aim.trans ⟨rfl, rfl, rfl, rfl⟩,
      hprepared.transport, hprepared.reusable, hprepared.established, .inr rfl, hprepared.http,
      hprepared.dnsCache, hprepared.trace⟩, .inl rfl,
      ?_, ?_, ?_, ?_⟩
    · intro h
      cases h
    · intro h
      exact absurd rfl h
    · intro h
      apply hpending
      rw [← htried.redirect]
      exact h
    · exact .inr ⟨rfl, rfl⟩
  · right
    have hprepare := hbase.tried (htried.trans (tried_agentPrepare p start))
    refine ⟨_, start.env, target, hproceed, ⟨hprepare, ?_, ?_, hfits.1, hfits.2.1⟩, hsome⟩
    · intro credential hcredential
      obtain ⟨hheader, hoauth⟩ := dropHeader_extraHeader hcredential
      obtain ⟨hhttps, hhost, -⟩ := prepare_header hheader htarget
      exact .inl ⟨hhttps, hhost, (dropHeader_oauth _).trans hoauth⟩
    · exact .inr ⟨rfl, entered_agentPrepare (htried.taskActive.trans hactive) start⟩

end AgentStarts

section Commands

variable {config : Config} {k : Kernel} {target : Target}

theorem Prepared.refl (k : Kernel) : Prepared k k :=
  ⟨SameAim.refl _, rfl, .inl, id, .inl rfl, rfl, rfl, [], (List.append_nil _).symm, .inl rfl⟩

theorem Settled.refl (k : Kernel) : Settled k k :=
  ⟨Prepared.refl k, .inr rfl, id, fun _ => rfl, id, .inl ⟨rfl, fun _ => rfl⟩⟩

/-- The start that a command makes when it is not refused. -/
def Command.attempt (config : Config) (env : CommandEnv) : Command → Option (StartEnv × Target)
  | .agentTask | .goal => env.agent.bind (agentAttempt config)
  | .sync => syncTarget.attempt env.start
  | .tlsLocal => tlsLocalTarget.attempt env.start
  | .bridge => env.bridge.bind fun (path, _) => (bridgeTarget config path).attempt env.start
  | .tweet _ => env.tweet.bind fun _ => (xapiTarget xapiPath).attempt env.start
  | .post parts _ | .url parts =>
    (plainTarget parts.domain parts.path parts.https).attempt env.start
  | .other => none

theorem startCommand_outcome {request : Request} {env : CommandEnv} {cmd : Command} (reply : ReplyTo)
    (hfree : k.refuses cmd = false) (haim : SameAim k.request request)
    (hheader : ∀ credential, request.extraHeader = some credential →
      target.fits ∧ target.https ∧ target.domain = credential.kind.host ∧ request.oauthActive)
    (hoauth : request.oauthActive → target.fits) :
    Outcome config (target.attempt env.start) (some cmd) k
      (k.startCommand config env reply request target) := by
  unfold Kernel.startCommand
  by_cases hfits : target.fits
  · rw [fetchStartEx_of_fits hfits]
    refine .launched
      ⟨⟨haim.trans (sameAim_dropHeader _), rfl, .inl, id, .inl rfl, rfl, rfl, [], ?_, .inl rfl⟩,
      ?_, .inl ⟨rfl, .inl rfl⟩, hfits.1, hfits.2.1⟩ (if_pos hfits) fun _ _ => ⟨cmd, rfl, hfree⟩
    · exact (List.append_nil _).symm
    · intro credential hcredential
      obtain ⟨hextra, hactive⟩ := dropHeader_extraHeader hcredential
      obtain ⟨-, hhttps, hhost, -⟩ := hheader credential hextra
      exact .inl ⟨hhttps, hhost, (dropHeader_oauth _).trans hactive⟩
  · obtain ⟨failed, reason, hfailed, hstart⟩ := fetchStartEx_of_not_fits hfits
      { k with request } config .command env.start reply false
    rw [hstart]
    have hnone : request.extraHeader = none := by
      cases hextra : request.extraHeader with
      | none => rfl
      | some credential => exact absurd (hheader credential hextra).1 hfits
    have hno : request.oauthActive = false := by
      by_contra hactive
      exact hfits (hoauth (by simpa using hactive))
    have hsame : failed = request := by
      rcases hfailed with rfl | rfl
      · rfl
      · exact dropHeader_of_none hnone
    subst hsame
    refine .settled ⟨⟨haim, rfl, .inl, id, .inl rfl, rfl, rfl, [], (List.append_nil _).symm, .inl rfl⟩,
      .inl hnone, ?_, ?_, id, .inl ⟨rfl, fun _ => rfl⟩⟩
    · intro h
      exact absurd h (by simp [hno])
    · intro h
      exact absurd hnone h

theorem agentProceed_fst_outcome {base : Kernel} {starts : List AgentStart} (command : Option Command)
    (hbase : Prepared k base) (hactive : base.agent.taskActive = true)
    (hpending : base.redirect.pending → k.redirect.pending) :
    Outcome config (agentAttempt config starts) command k (base.agentProceed config starts).1 := by
  rcases agentProceed_outcome config hbase hactive hpending starts with
    ⟨p, -, -, hproceed, hsettled⟩ | ⟨p, env, target, hproceed, hlaunching, hsome⟩
  · rw [hproceed]
    exact .settled hsettled
  · rw [hproceed]
    apply Outcome.launched hlaunching hsome
    intro howner
    cases howner

/-- Commands that write the request even while a fetch is in flight. -/
def Command.writes : Command → Bool
  | .post _ _ | .url _ => true
  | _ => false

/-- All other commands leave a fetch in flight alone. -/
theorem command_busy (config : Config) (reply : ReplyTo) (env : CommandEnv) (cmd : Command)
    (hbusy : k.busy = true) (hwrites : cmd.writes = false) : k.command config reply env cmd = k := by
  cases cmd with
  | post url body => cases hwrites
  | url url => cases hwrites
  | other => rfl
  | _ => simp [Kernel.command, Kernel.agentCommand, hbusy]

theorem sameAim_send (request : Request) (body : Option Bytes) : SameAim request (request.send body) := by
  cases body <;> exact ⟨rfl, rfl, rfl, rfl⟩

theorem send_header (request : Request) (body : Option Bytes) :
    (request.send body).extraHeader = none ∧ (request.send body).oauthActive = false := by
  cases body <;> exact ⟨rfl, rfl⟩

/-- A command that starts a request without a credential. -/
theorem plainCommand_outcome {env : CommandEnv} {cmd : Command} (reply : ReplyTo)
    (hfree : k.refuses cmd = false) (body : Option Bytes) :
    Outcome config (target.attempt env.start) (some cmd) k
      (k.startCommand config env reply (k.request.send body) target) := by
  obtain ⟨hheader, hoauth⟩ := send_header k.request body
  apply startCommand_outcome reply hfree (sameAim_send _ _)
  · intro credential hcredential
    rw [hheader] at hcredential
    cases hcredential
  · intro h
    exact absurd h (by simp [hoauth])

theorem fits_xapi : (xapiTarget xapiPath).fits := by
  unfold Target.fits
  decide

theorem agentCommand_outcome (k : Kernel) (config : Config) (env : CommandEnv)
    (command : Option Command) :
    Outcome config (env.agent.bind (agentAttempt config)) command k (k.agentCommand config env) := by
  unfold Kernel.agentCommand
  split_ifs with hrefused
  · exact .settled (Settled.refl k)
  cases hstarts : env.agent with
  | none => exact .settled (Settled.refl k)
  | some starts =>
    apply agentProceed_fst_outcome
    · exact ⟨SameAim.refl _, rfl, .inl, id, .inl rfl, rfl, rfl, [], (List.append_nil _).symm, .inl rfl⟩
    · rfl
    · exact id

theorem command_outcome (config : Config) (reply : ReplyTo) (env : CommandEnv) {cmd : Command}
    (hfree : k.refuses cmd = false) :
    Outcome config (cmd.attempt config env) (some cmd) k (k.command config reply env cmd) := by
  have hidle : k.refuses cmd = k.busy → ¬ k.busy = true := by
    intro hsame hbusy
    rw [hsame, hbusy] at hfree
    cases hfree
  cases cmd with
  | agentTask => exact agentCommand_outcome k config env _
  | goal => exact agentCommand_outcome k config env _
  | other => exact .settled (Settled.refl k)
  | sync =>
    unfold Kernel.command
    dsimp only
    rw [if_neg (hidle rfl)]
    exact plainCommand_outcome reply hfree none
  | tlsLocal =>
    unfold Kernel.command
    dsimp only
    rw [if_neg (hidle rfl)]
    exact plainCommand_outcome reply hfree none
  | bridge =>
    unfold Kernel.command Command.attempt
    dsimp only
    rw [if_neg (hidle rfl)]
    cases hbridge : env.bridge with
    | none => exact .settled (Settled.refl k)
    | some asked => exact plainCommand_outcome reply hfree asked.2
  | tweet text =>
    unfold Kernel.command Command.attempt
    dsimp only
    rw [if_neg (hidle rfl)]
    cases htweet : env.tweet with
    | none => exact .settled (Settled.refl k)
    | some signed =>
      have haim : SameAim k.request (k.request.authorize (some signed.1) ⟨.x, signed.2⟩) :=
        ⟨rfl, rfl, rfl, rfl⟩
      apply startCommand_outcome reply hfree haim
      · intro credential hcredential
        obtain rfl := Option.some.inj hcredential
        exact ⟨fits_xapi, rfl, rfl, rfl⟩
      · exact fun _ => fits_xapi
  | post url body => exact plainCommand_outcome reply hfree (some body)
  | url url =>
    unfold Kernel.command
    dsimp only
    rw [if_neg (hidle rfl)]
    exact plainCommand_outcome reply hfree none

end Commands

section Done

variable {config : Config} {k : Kernel}

def Redirect.goal (r : Redirect) : Target := plainTarget r.target.domain r.target.path r.target.https

/-- The start that a redirect leads to. -/
def Redirect.attempt (r : Redirect) (env : StartEnv) : Option (StartEnv × Target) :=
  if r.pending then r.goal.attempt env else none

/-- The start that the end of a fetch leads to. -/
def Kernel.doneAttempt (k : Kernel) (config : Config) (env : DoneEnv) :
    Option (StartEnv × Target) :=
  if k.agent.taskActive then
    match agentAttempt config env.agent with
    | some attempt => some attempt
    | none => if env.handled then none else k.redirect.attempt env.start
  else k.redirect.attempt env.start

theorem closeDone_settled (hdone : k.conn.state = .done) (config : Config) (env : DoneEnv) :
    Settled k (k.closeDone config env) := by
  have hconn : (k.closeDone config env).conn.transport = k.conn.transport ∧
      (k.closeDone config env).conn.state = k.conn.state ∧
      ((k.closeDone config env).conn.openaiReusable → k.LeftOpen) ∧
      ((k.closeDone config env).conn.established → k.conn.established) := by
    unfold Kernel.closeDone
    dsimp only
    split_ifs with hkeep
    · refine ⟨rfl, rfl, fun _ => ⟨hdone, ?_⟩, id⟩
      simp only [Bool.and_eq_true, beq_iff_eq] at hkeep
      obtain ⟨⟨⟨⟨⟨⟨⟨-, hrequest⟩, hup⟩, -⟩, -⟩, -⟩, hcomplete⟩, -⟩ := hkeep
      exact ⟨hrequest, hup, hcomplete⟩
    · exact ⟨rfl, rfl, fun h => Bool.noConfusion h, fun h => Bool.noConfusion h⟩
  obtain ⟨htransport, hstate, hopen, hup⟩ := hconn
  exact ⟨⟨SameAim.refl _, htransport, fun h => .inr (hopen h), hup, .inl hstate, rfl, rfl, [],
    (List.append_nil _).symm, .inl rfl⟩, .inr rfl, id, fun _ => rfl, id, .inl ⟨rfl, fun _ => hstate⟩⟩

variable {base : Kernel}

theorem Settled.release (h : Settled k base) (hfree : base.agent.taskActive = false) :
    Settled k base.release := by
  refine ⟨⟨h.aim.trans ⟨rfl, rfl, rfl, rfl⟩, h.transport, h.reusable, h.established, .inr rfl, h.http,
    h.dnsCache, h.trace⟩,
    .inl rfl, ?_, ?_, h.pending, .inr ⟨rfl, hfree⟩⟩
  · intro hoauth
    cases hoauth
  · intro hheader
    exact absurd rfl hheader

/-- Replies, and the flags of a redirect that is given up, are no part of what is kept. -/
theorem Settled.withReply (h : Settled k base) (reply : Reply) : Settled k { base with reply } :=
  ⟨⟨h.aim, h.transport, h.reusable, h.established, h.state, h.http, h.dnsCache, h.trace⟩,
    h.header, h.oauth, h.kept, h.pending, h.agent⟩

theorem Settled.answer (h : Settled k base) (hfree : base.agent.taskActive = false) (env : DoneEnv) :
    Settled k (base.answer env) := by
  unfold Kernel.answer
  split_ifs
  · exact h.withReply _
  · exact h
  · exact h.release hfree
  · exact (h.withReply _).release hfree

/-- A redirect is given up when its target does not fit. -/
theorem Settled.giveUp (h : Settled k base) {request : Request} (redirect : Redirect)
    (hrequest : SameAim base.request request)
    (hheader : request.extraHeader = none ∨ request.extraHeader = base.request.extraHeader)
    (hoauth : request.oauthActive = base.request.oauthActive) (hpending : redirect.pending = false)
    (reason : Bytes) :
    Settled k { base with request, redirect, conn := base.conn.fail reason } := by
  refine ⟨⟨h.aim.trans hrequest, h.transport, h.reusable, h.established, h.state, h.http,
    h.dnsCache, h.trace⟩, ?_, ?_, ?_, ?_,
    h.agent⟩
  · rcases hheader with hnone | hsame
    · exact .inl hnone
    · rcases h.header with hnone | hbase
      · exact .inl (hsame.trans hnone)
      · exact .inr (hsame.trans hbase)
  · intro hactive
    exact h.oauth (hoauth ▸ hactive)
  · intro hne
    rcases hheader with hnone | hsame
    · exact absurd hnone hne
    · rw [hoauth]
      exact h.kept (hsame ▸ hne)
  · intro hp
    exact absurd hp (by simp [hpending])

/-- The request of a redirect is a GET. -/
def Kernel.bare (k : Kernel) : Kernel :=
  { k with request := { k.request with methodPost := false, body := [] } }

theorem Settled.bare (h : Settled k base) : Settled k base.bare :=
  ⟨⟨h.aim.trans ⟨rfl, rfl, rfl, rfl⟩, h.transport, h.reusable, h.established, h.state,
    h.http, h.dnsCache, h.trace⟩, h.header, h.oauth, h.kept, h.pending, h.agent⟩

/-- The start of the fetch that a redirect leads to. -/
def Kernel.followRedirect (k : Kernel) (config : Config) (env : DoneEnv) : Kernel × Bool :=
  k.fetchStartEx config .command env.start k.redirect.goal ⟨k.reply.ip, k.reply.srcPort⟩ true

def Kernel.endRedirect (k : Kernel) : Kernel :=
  { k with redirect := { k.redirect with pending := false, suppressOk := false } }

theorem report_eq (h : k.redirect.pending = true) (config : Config) (env : DoneEnv) :
    k.report config env =
      if (k.bare.followRedirect config env).2 then (k.bare.followRedirect config env).1.endRedirect
      else (k.bare.followRedirect config env).1.endRedirect.answer env := if_pos h

theorem followRedirect_outcome (h : Settled k base) (hfree : base.agent.taskActive = false)
    (hpending : k.redirect.pending = true) (config : Config) (env : DoneEnv) :
    Outcome config (base.redirect.goal.attempt env.start) none k
      (if (base.followRedirect config env).2 then (base.followRedirect config env).1.endRedirect
      else (base.followRedirect config env).1.endRedirect.answer env) := by
  unfold Kernel.followRedirect
  by_cases hfits : base.redirect.goal.fits
  · rw [fetchStartEx_of_fits hfits, if_pos rfl]
    have hlaunching : Launching k { base with request := base.request.dropHeader } .command
        base.redirect.goal := by
      refine ⟨⟨h.aim.trans (sameAim_dropHeader _), h.transport, h.reusable, h.established,
        h.state, h.http, h.dnsCache, h.trace⟩, ?_, .inl ⟨rfl, .inr hfree⟩, hfits.1, hfits.2.1⟩
      intro credential hcredential
      obtain ⟨hextra, hactive⟩ := dropHeader_extraHeader hcredential
      have hne : base.request.extraHeader ≠ none := by
        intro hnone
        rw [hnone] at hextra
        cases hextra
      exact .inr ⟨hpending, (h.kept hne).symm.trans hactive⟩
    have hcommand : Owner.command = .command → base.agent.taskActive = true →
        ∃ cmd, none = some cmd ∧ k.refuses cmd = false := by
      intro _ hactive
      rw [hfree] at hactive
      cases hactive
    have hstart : Outcome config (base.redirect.goal.attempt env.start) none k
        (({ base with request := base.request.dropHeader } : Kernel).launch config .command env.start
          base.redirect.goal ⟨base.reply.ip, base.reply.srcPort⟩ true) :=
      .launched hlaunching (if_pos hfits) hcommand
    exact hstart
  · obtain ⟨failed, reason, hfailed, hstart⟩ := fetchStartEx_of_not_fits hfits base config .command
      env.start ⟨base.reply.ip, base.reply.srcPort⟩ true
    rw [hstart, if_neg Bool.false_ne_true]
    apply Outcome.settled
    apply Settled.answer
    swap
    · exact hfree
    rcases hfailed with rfl | rfl
    · exact h.giveUp _ (SameAim.refl _) (.inr rfl) rfl rfl reason
    · refine h.giveUp _ (sameAim_dropHeader _) ?_ (dropHeader_oauth _) rfl reason
      unfold Request.dropHeader
      split_ifs
      · exact .inr rfl
      · exact .inl rfl

theorem report_outcome (h : Settled k base) (hfree : base.agent.taskActive = false)
    (hredirect : base.redirect = k.redirect) (config : Config) (env : DoneEnv) :
    Outcome config (k.redirect.attempt env.start) none k (base.report config env) := by
  by_cases hpending : base.redirect.pending = true
  · have hattempt : k.redirect.attempt env.start = base.bare.redirect.goal.attempt env.start := by
      unfold Redirect.attempt
      rw [if_pos (hredirect ▸ hpending), ← hredirect]
      rfl
    rw [report_eq hpending, hattempt]
    exact followRedirect_outcome h.bare hfree (hredirect ▸ hpending) config env
  · have hanswer : base.report config env = base.answer env := if_neg hpending
    rw [hanswer]
    exact .settled (h.answer hfree env)

/-- The agent is told. -/
theorem Settled.told (h : Settled k base) (htrace : base.trace = k.trace)
    (hactive : k.agent.taskActive = true) (hdone : k.conn.state = .done) :
    Settled k (base.emit [.agentDone k.conn.gotResp]) :=
  ⟨⟨h.aim, h.transport, h.reusable, h.established, h.state, h.http, h.dnsCache, _,
    congrArg (· ++ _) htrace,
    .inr ⟨hactive, hdone, rfl⟩⟩, h.header, h.oauth, h.kept, h.pending, h.agent⟩

theorem finishFetch_outcome (hdone : k.conn.state = .done) (config : Config) (env : DoneEnv) :
    Outcome config (k.doneAttempt config env) none k (k.finishFetch config env) := by
  have hclose := closeDone_settled hdone config env
  unfold Kernel.finishFetch Kernel.doneAttempt
  dsimp only
  by_cases hactive : k.agent.taskActive = true
  swap
  · rw [if_neg hactive, if_neg (show ¬ (k.closeDone config env).agent.taskActive = true from hactive)]
    exact report_outcome hclose (Bool.not_eq_true _ ▸ hactive) rfl config env
  rw [if_pos hactive, if_pos (show (k.closeDone config env).agent.taskActive = true from hactive)]
  have hbase := (hclose.told rfl hactive hdone).toPrepared
  rcases agentProceed_outcome config hbase hactive id env.agent with
    ⟨p, htried, hnone, hproceed, hsettled⟩ | ⟨p, start, target, hproceed, hlaunching, hsome⟩
  · rw [hproceed, hnone]
    dsimp only
    by_cases hhandled : env.handled = true
    · have hboth : false = true ∨ env.handled = true := .inr hhandled
      rw [if_pos hboth, if_pos hhandled]
      exact .settled hsettled
    · have hneither : ¬ (false = true ∨ env.handled = true) := by simpa using hhandled
      rw [if_neg hneither, if_neg hhandled]
      exact report_outcome hsettled rfl htried.redirect config env
  · rw [hproceed, hsome]
    dsimp only
    have hstarted : true = true ∨ env.handled = true := .inl rfl
    rw [if_pos hstarted]
    apply Outcome.launched hlaunching rfl
    intro howner
    cases howner

end Done

end MiniAgentOS.Fetch
