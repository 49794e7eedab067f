import MiniAgentOS.Agent.Allowed
import MiniAgentOS.Agent.GoalText
import MiniAgentOS.Agent.Steps
import MiniAgentOS.Lib.Trace

/-! What a step of a governed task leads to: a request is started behind the deeds that led to it, or the terminal
event is emitted and the task is over. -/
set_option maxRecDepth 4000

namespace MiniAgentOS.Agent.Goals
open Checked Fetch Net Session

section Checks

variable {env : GoalEnv} {s next : Governed} {skill : Skill} {url : Option Bytes} {terminal : Terminal}

/-- What a task goes by. -/
structure Plan where
  active : Bool
  mode : Mode
  sourceUrl : Bytes
  sinkUrl : Bytes
  modelUrl : Bytes
  policy : Policy

def Governed.plan (s : Governed) : Plan := ⟨s.active, s.mode, s.sourceUrl, s.sinkUrl, s.modelUrl, s.policy⟩

/-- A task that goes on behind some deeds. -/
structure Follows (s : Governed) (deeds : List Deed) (next : Governed) : Prop where
  plan : next.plan = s.plan
  trail : next.trail = s.trail ++ deeds

/-- A task that goes on in the same phase. -/
structure Goes (s : Governed) (deeds : List Deed) (next : Governed) : Prop extends Follows s deeds next where
  phase : next.phase = s.phase
  terminal : next.terminal = s.terminal
  retries : next.summaryRetries = s.summaryRetries

theorem agentPolicyCheck_returns (p : Policy) (skill : Bytes) (step : ℕ) (url : Option Bytes) :
    ∃ denied, agentPolicyCheck p skill step url = .ok denied := by
  obtain ⟨allowed, hallowed, -⟩ := agentSkillAllowed_eq p skill
  unfold agentPolicyCheck
  rw [hallowed, ok_bind]
  cases allowed with
  | false => exact ⟨_, rfl⟩
  | true =>
    cases url with
    | none =>
      simp only [Bool.not_true, Bool.false_eq_true, if_false, pure_bind]
      split_ifs
      · exact ⟨_, rfl⟩
      · exact ⟨_, rfl⟩
    | some target =>
      obtain ⟨hostAllowed, hhost, -⟩ := agentHostAllowed_eq p target
      simp only [Bool.not_true, Bool.false_eq_true, if_false, hhost, ok_bind]
      split_ifs
      · exact ⟨_, rfl⟩
      · exact ⟨_, rfl⟩
      · exact ⟨_, rfl⟩

/-- What the policy says of a skill at its step. -/
def Allowed (p : Policy) (skill : Skill) (url : Option Bytes) : Prop :=
  agentPolicyCheck p (skillName skill) (skillStep skill) url = .ok none

instance (p : Policy) (skill : Skill) (url : Option Bytes) : Decidable (Allowed p skill url) :=
  inferInstanceAs (Decidable (_ = _))

theorem policyCheck_goes (skill : Skill) (url : Option Bytes) (s : Governed) :
    Returns (policyCheck skill url s) fun r => ∃ denied, (denied = none ↔ Allowed s.policy skill url) ∧
      r.2 = denied.isNone ∧ Goes s [.checked s.policy skill url denied] r.1 := by
  obtain ⟨denied, hdenied⟩ := agentPolicyCheck_returns s.policy (skillName skill) (skillStep skill) url
  unfold policyCheck
  rw [hdenied, ok_bind]
  have hallowed : denied = none ↔ Allowed s.policy skill url := by
    rw [Allowed, hdenied, Except.ok.injEq]
  cases denied with
  | none => exact ⟨_, rfl, none, hallowed, rfl, ⟨rfl, rfl⟩, rfl, rfl, rfl⟩
  | some denial => exact ⟨_, rfl, some denial, hallowed, rfl, ⟨rfl, rfl⟩, rfl, rfl, rfl⟩

end Checks

section Conclusions

variable {env : GoalEnv} {s other next : Governed} {terminal : Terminal} {deeds : List Deed}

/-- A task that is over. -/
def closed (s : Governed) (deeds : List Deed) : Governed := { trail := s.trail ++ deeds }

/-- The check of the post, which the mode M1 makes alone. -/
def postChecks (s : Governed) : List Deed :=
  if s.mode = .m1 then [.checked s.policy .postResult (some s.sinkUrl) none] else []

def PostAllowed (s : Governed) : Prop := s.mode = .m1 → Allowed s.policy .postResult (some s.sinkUrl)

instance (s : Governed) : Decidable (PostAllowed s) := inferInstanceAs (Decidable (_ → _))

/-- What comes of the end of a task: the result is shown, or a post of it is denied, fails to start, or is started. -/
inductive Concluded (env : GoalEnv) (terminal : Terminal) (s : Governed) : Governed → Prop where
  | shown : s.sinkUrl = [] → Concluded env terminal s (closed s [.ended terminal])
  | denied {denial : Denial} : s.sinkUrl ≠ [] → ¬ PostAllowed s → Concluded env terminal s
      (closed s [.checked s.policy .postResult (some s.sinkUrl) (some denial), .ended terminal])
  | unstarted : s.sinkUrl ≠ [] → fetchStartAgentUrl env s.sinkUrl = false →
      Concluded env terminal s (closed s (postChecks s ++ [.ended terminal]))
  | posted {body : Bytes} {next : Governed} : s.sinkUrl ≠ [] → PostAllowed s →
      fetchStartAgentUrl env s.sinkUrl = true → next.phase = .postResult → next.inFlight = true →
      next.terminal = some terminal →
      Follows s (postChecks s ++ [.requested ⟨s.mode, s.policy, .postResult, s.sinkUrl, body⟩]) next →
      Concluded env terminal s next

theorem finish_eq {s : Governed} (h : s.terminal = some terminal) :
    agentFinishNow (agentEmitTerminalEvent s) = closed s [.ended terminal] := by
  rw [agentEmitTerminalEvent, h]
  rfl

theorem Follows.closed {mid : Governed} (h : Follows s deeds mid) (more : List Deed) :
    Goals.closed mid more = Goals.closed s (deeds ++ more) := by
  rw [Goals.closed, h.trail, List.append_assoc]
  rfl

/-- The post of a task whose checks are made. -/
theorem post_concluded {mid : Governed} (hgoes : Follows s (postChecks s) mid) (hterminal : mid.terminal = some terminal)
    (hsink : s.sinkUrl ≠ []) (hallowed : PostAllowed s) :
    Returns (if fetchStartAgentUrl env mid.sinkUrl then
        pure (mid.send .postResult mid.sinkUrl (buildAgentResultBody mid) .postResult)
      else
        let reason := startReason env mid.sinkUrl "post result start failed"
        pure (agentFinishNow (agentEmitTerminalEvent (agentSetResult "error" reason mid)))) (Concluded env terminal s) := by
  have hplan := hgoes.plan
  have hmode : mid.mode = s.mode := congrArg Plan.mode hplan
  have hpolicy : mid.policy = s.policy := congrArg Plan.policy hplan
  have hurl : mid.sinkUrl = s.sinkUrl := congrArg Plan.sinkUrl hplan
  rw [hurl]
  apply Returns.ite
  · intro hstarts
    apply returns_pure.mpr
    have htrail : (mid.send .postResult s.sinkUrl (buildAgentResultBody mid) .postResult).trail = s.trail ++
        (postChecks s ++ [.requested ⟨s.mode, s.policy, .postResult, s.sinkUrl, buildAgentResultBody mid⟩]) := by
      rw [← List.append_assoc, ← hgoes.trail, ← hmode, ← hpolicy]
      rfl
    exact .posted hsink hallowed hstarts rfl rfl hterminal ⟨hplan, htrail⟩
  · intro hstarts
    apply returns_pure.mpr
    have hend : (agentSetResult "error" (startReason env s.sinkUrl "post result start failed") mid).terminal =
        some terminal := hterminal
    have hfinal : Goals.closed (agentSetResult "error" (startReason env s.sinkUrl "post result start failed") mid)
        [.ended terminal] = Goals.closed s (postChecks s ++ [.ended terminal]) := hgoes.closed _
    rw [finish_eq hend, hfinal]
    exact .unstarted hsink (Bool.eq_false_iff.mpr hstarts)

theorem agentStartTerminalPost_concluded (env : GoalEnv) (terminal : Terminal) (s : Governed) :
    Returns (agentStartTerminalPost env terminal s) (Concluded env terminal s) := by
  unfold agentStartTerminalPost
  dsimp only
  apply Returns.ite
  · intro hsink
    exact returns_pure.mpr (.shown hsink)
  intro hsink
  by_cases hmode : s.mode = .m1
  · have hchecks : postChecks s = [.checked s.policy .postResult (some s.sinkUrl) none] := if_pos hmode
    rw [if_pos hmode]
    apply (policyCheck_goes .postResult (some s.sinkUrl) { s with terminal := some terminal }).bind
    rintro ⟨mid, allowed⟩ ⟨denied, hdenied, rfl, hgoes⟩
    have hfollows : Follows s [.checked s.policy .postResult (some s.sinkUrl) denied] mid := ⟨hgoes.plan, hgoes.trail⟩
    have hterminal : mid.terminal = some terminal := hgoes.terminal
    cases denied with
    | some denial =>
      change Returns (pure (agentFinishNow (agentEmitTerminalEvent mid))) _
      rw [finish_eq hterminal, hfollows.closed]
      apply returns_pure.mpr
      apply Concluded.denied hsink
      intro hallowed
      cases hdenied.mpr (hallowed hmode)
    | none =>
      rw [← hchecks] at hfollows
      exact post_concluded hfollows hterminal hsink fun _ => hdenied.mp rfl
  · have hchecks : postChecks s = [] := if_neg hmode
    have hfollows : Follows s (postChecks s) { s with terminal := some terminal } := by
      rw [hchecks]
      exact ⟨rfl, (List.append_nil _).symm⟩
    rw [if_neg hmode, pure_bind, if_neg (by simp)]
    exact post_concluded hfollows rfl hsink fun h => absurd h hmode

theorem postOrFinish_concluded (env : GoalEnv) (terminal : Terminal) (s : Governed) :
    Returns (postOrFinish env terminal s) (Concluded env terminal s) := by
  unfold postOrFinish
  apply Returns.ite
  · intro _
    exact agentStartTerminalPost_concluded env terminal s
  · intro hsink
    exact returns_pure.mpr (.shown (not_not.mp hsink))

end Conclusions

section Starts

variable {env : GoalEnv} {a s mid next : Governed} {deeds more : List Deed} {terminal : Terminal}

/-- A deed that starts and ends nothing, and is no check of a post. -/
def Deed.Quiet : Deed → Prop
  | .planned _ _ _ _ | .answered _ _ _ | .summarized _ => True
  | .checked _ skill _ _ => skill ≠ .postResult
  | _ => False

def plannedDeed (s : Governed) : Deed := .planned s.mode s.sourceUrl s.modelUrl s.sinkUrl

/-- The check of the source, which every mode but M0 makes. -/
def sourceChecks (s : Governed) : List Deed :=
  if s.mode = .m0 then [] else [.checked s.policy .fetchUrl (some s.sourceUrl) none]

def SourceAllowed (s : Governed) : Prop := s.mode ≠ .m0 → Allowed s.policy .fetchUrl (some s.sourceUrl)

/-- What comes of a plan: the source is fetched, or the task is over and not completed. -/
inductive Started (env : GoalEnv) (a : Governed) : Governed → Prop where
  | fetching {next : Governed} : SourceAllowed a → next.phase = .fetchSource → next.inFlight = true →
      Follows a (plannedDeed a :: sourceChecks a ++ [.requested ⟨a.mode, a.policy, .fetchUrl, a.sourceUrl, []⟩]) next →
      Started env a next
  | failed {deeds : List Deed} {terminal : Terminal} {mid next : Governed} : a.mode = .m1 → terminal ≠ .completed →
      (∀ deed ∈ deeds, deed.Quiet) → Follows a deeds mid → Concluded env terminal mid next → Started env a next
  | shown {deeds : List Deed} {terminal : Terminal} : terminal ≠ .completed → (∀ deed ∈ deeds, deed.Quiet) →
      Started env a (closed a (deeds ++ [.ended terminal]))

theorem Follows.append (h : Follows s deeds mid) (h' : Follows mid more next) : Follows s (deeds ++ more) next where
  plan := h'.plan.trans h.plan
  trail := by rw [h'.trail, h.trail, List.append_assoc]

/-- The request for the source, behind the checks. -/
theorem source_fetching (hallowed : SourceAllowed a) (h : Follows a (plannedDeed a :: sourceChecks a) mid) :
    Started env a (mid.send .fetchUrl mid.sourceUrl [] .fetchSource) := by
  have hplan := h.plan
  have hmode : mid.mode = a.mode := congrArg Plan.mode hplan
  have hpolicy : mid.policy = a.policy := congrArg Plan.policy hplan
  have hurl : mid.sourceUrl = a.sourceUrl := congrArg Plan.sourceUrl hplan
  apply Started.fetching hallowed rfl rfl
  apply h.append
  rw [← hmode, ← hpolicy, ← hurl]
  exact ⟨rfl, rfl⟩

theorem refused_ne : Terminal.refused ≠ .completed := by decide

theorem m2_ne : Mode.m2 ≠ .m0 := by decide

theorem m3_ne : Mode.m3 ≠ .m0 := by decide

theorem failed_ne : Terminal.failed ≠ .completed := by decide

/-- The rule of a check. -/
theorem check_bind {skill : Skill} {url : Option Bytes} {f : Governed × Bool → Checked Governed} {P : Governed → Prop}
    (h : Follows a deeds s)
    (hdenied : ∀ mid denial, ¬ Allowed a.policy skill url →
      Follows a (deeds ++ [.checked a.policy skill url (some denial)]) mid → Returns (f (mid, false)) P)
    (hallowed : ∀ mid, Allowed a.policy skill url → mid.summaryRetries = s.summaryRetries →
      Follows a (deeds ++ [.checked a.policy skill url none]) mid → Returns (f (mid, true)) P) :
    Returns (policyCheck skill url s >>= f) P := by
  have hpolicy : s.policy = a.policy := congrArg Plan.policy h.plan
  apply (policyCheck_goes skill url s).bind
  rintro ⟨mid, allowed⟩ ⟨denied, hiff, rfl, hgoes⟩
  rw [hpolicy] at hiff hgoes
  have hfollows := h.append hgoes.toFollows
  cases denied with
  | none => exact hallowed mid (hiff.mp rfl) hgoes.retries hfollows
  | some denial =>
    apply hdenied mid denial ?_ hfollows
    intro hyes
    cases hiff.mpr hyes

theorem startGovernedM1Task_started (env : GoalEnv) (s : Governed) :
    Returns (startGovernedM1Task env s) (Started env { s with mode := .m1 }) := by
  unfold startGovernedM1Task
  dsimp only
  generalize hplanned : Governed.act _ (agentSetResult "ok" [] _) = planned
  have hfollows : Follows { s with mode := .m1 } [plannedDeed { s with mode := .m1 }] planned := by
    rw [← hplanned]
    exact ⟨rfl, rfl⟩
  have hurl : planned.sourceUrl = s.sourceUrl := congrArg Plan.sourceUrl hfollows.plan
  have hquiet : ∀ denied, ∀ deed ∈ [plannedDeed { s with mode := .m1 }, .checked s.policy .fetchUrl (some s.sourceUrl) denied],
      deed.Quiet := by
    simp [plannedDeed, Deed.Quiet]
  rw [hurl]
  apply check_bind hfollows
  · intro mid denial _ hmid
    apply (agentStartTerminalPost_concluded env .refused mid).mono
    intro next hnext
    exact .failed rfl refused_ne (hquiet _) hmid hnext
  · intro mid hallowed _ hmid
    simp only [Bool.not_true, Bool.false_eq_true, if_false]
    apply Returns.ite
    · intro _
      exact returns_pure.mpr (source_fetching (fun _ => hallowed) hmid)
    · intro _
      have hfailed : Follows { s with mode := .m1 } _ (agentSetResult "error"
          (startReason env mid.sourceUrl "fetch start failed") { mid with summary := [] }) := ⟨hmid.plan, hmid.trail⟩
      apply (agentStartTerminalPost_concluded env .failed _).mono
      intro next hnext
      exact .failed rfl failed_ne (hquiet _) hfailed hnext

theorem agentFinishLocal_eq (terminal : Terminal) (s : Governed) :
    agentFinishLocal terminal s = closed s [.ended terminal] := rfl

theorem startLocalSummaryTaskWithMode_started (env : GoalEnv) {mode : Mode} (hmode : mode ≠ .m0) (s : Governed) :
    Returns (startLocalSummaryTaskWithMode env mode s) (Started env { s with mode }) := by
  unfold startLocalSummaryTaskWithMode
  dsimp only
  generalize hplanned : Governed.act _ (agentSetResult "ok" [] _) = planned
  have hfollows : Follows { s with mode } [plannedDeed { s with mode }] planned := by
    rw [← hplanned]
    exact ⟨rfl, rfl⟩
  have hurl : planned.sourceUrl = s.sourceUrl := congrArg Plan.sourceUrl hfollows.plan
  have hquiet : ∀ denied, ∀ deed ∈ [plannedDeed { s with mode }, .checked s.policy .fetchUrl (some s.sourceUrl) denied],
      deed.Quiet := by
    simp [plannedDeed, Deed.Quiet]
  rw [hurl]
  apply check_bind hfollows
  · intro mid denial _ hmid
    apply returns_pure.mpr
    rw [agentFinishLocal_eq, hmid.closed]
    exact .shown refused_ne (hquiet _)
  · intro mid hallowed _ hmid
    simp only [Bool.not_true, Bool.false_eq_true, if_false]
    apply Returns.ite
    · intro _
      apply returns_pure.mpr
      apply source_fetching (fun _ => hallowed)
      have hchecks : sourceChecks { s with mode } = [.checked s.policy .fetchUrl (some s.sourceUrl) none] := if_neg hmode
      rw [hchecks]
      exact hmid
    · intro _
      apply returns_pure.mpr
      have hfailed : Follows { s with mode } _ (agentSetResult "error" (startReason env mid.sourceUrl "fetch start failed")
          { mid with summary := [] }) := ⟨hmid.plan, hmid.trail⟩
      rw [agentFinishLocal_eq, hfailed.closed]
      exact .shown failed_ne (hquiet _)

theorem startM0Task_started (env : GoalEnv) (s : Governed) :
    Started env { s with mode := .m0 } (startM0Task env s) := by
  unfold startM0Task
  dsimp only
  generalize hplanned : Governed.act _ (agentSetResult "ok" [] _) = planned
  have hfollows : Follows { s with mode := .m0 } [plannedDeed { s with mode := .m0 }] planned := by
    rw [← hplanned]
    exact ⟨rfl, rfl⟩
  split_ifs
  · exact source_fetching (fun h => absurd rfl h) hfollows
  · have hfailed : Follows { s with mode := .m0 } _ (agentSetResult "error"
        (startReason env planned.sourceUrl "fetch start failed") planned) := ⟨hfollows.plan, hfollows.trail⟩
    have hquiet : ∀ deed ∈ [plannedDeed { s with mode := .m0 }], deed.Quiet := by
      simp [plannedDeed, Deed.Quiet]
    change Started env _ (Goals.closed _ [.ended .failed])
    rw [hfailed.closed]
    exact .shown failed_ne hquiet

end Starts

section Summaries

variable {env : GoalEnv} {o : FetchOutcome} {s mid next : Governed} {deeds : List Deed} {terminal : Terminal}
  {capacity skip : ℕ} {out src bytes : Bytes}

theorem appendBytes_ne (h : out ≠ []) (bytes : Bytes) : appendBytes capacity out bytes ≠ [] :=
  List.append_ne_nil_of_left_ne_nil h _

theorem escapeLoop_ne (h : out ≠ []) : escapeLoop capacity skip out src ≠ [] := by
  fun_induction escapeLoop capacity skip out src with
  | case1 => exact h
  | case2 _ _ _ _ ih => exact ih h
  | case3 => exact h
  | case4 => exact h
  | case5 _ _ _ _ _ _ _ ih => exact ih (List.append_ne_nil_of_left_ne_nil h _)
  | case6 _ _ _ _ _ _ _ ih => exact ih (List.append_ne_nil_of_left_ne_nil h _)
  | case7 => exact h
  | case8 _ _ _ _ _ _ _ _ ih => exact ih (List.append_ne_nil_of_left_ne_nil h _)

theorem jsonEscapeAppend_ne (h : out ≠ []) (src : Bytes) : jsonEscapeAppend capacity out src ≠ [] := escapeLoop_ne h

theorem buildOpenaiSummaryRequestBody_ne (s : Governed) (response : Bytes) :
    buildOpenaiSummaryRequestBody s response ≠ [] := by
  have hhead : appendBytes fetchBodyMax [] (ascii "\x7b\"model\":\"") ≠ [] := by decide
  unfold buildOpenaiSummaryRequestBody
  dsimp only
  repeat first | exact hhead | apply appendBytes_ne | apply jsonEscapeAppend_ne

/-- The model may be asked for a summary. -/
structure ModelOpen (env : GoalEnv) (p : Policy) : Prop where
  allowed : Allowed p .callModel (some responsesUrl)
  header : env.apiHeader = true
  starts : fetchStartAgentUrl env responsesUrl = true

/-- What comes of asking the model for a summary. -/
inductive SummaryAsked (env : GoalEnv) (s : Governed) : Governed → Prop where
  | asked {body : Bytes} {next : Governed} : ModelOpen env s.policy → next.phase = .callModel → next.inFlight = true →
      next.summaryRetries = s.summaryRetries →
      Follows s [.checked s.policy .callModel (some responsesUrl) none,
        .requested ⟨s.mode, s.policy, .callModel, responsesUrl, body⟩] next → SummaryAsked env s next
  | failed {deeds : List Deed} {terminal : Terminal} {mid next : Governed} : ¬ ModelOpen env s.policy →
      terminal ≠ .completed → (∀ deed ∈ deeds, deed.Quiet) → Follows s deeds mid → Concluded env terminal mid next →
      SummaryAsked env s next

theorem startM3OpenaiSummaryRequest_asked (env : GoalEnv) (o : FetchOutcome) (s : Governed) :
    Returns (startM3OpenaiSummaryRequest env o s) (SummaryAsked env s) := by
  have hquiet : ∀ denied, ∀ deed ∈ [Deed.checked s.policy .callModel (some responsesUrl) denied], deed.Quiet := by
    simp [Deed.Quiet]
  have hstart : Follows s [] s := ⟨rfl, (List.append_nil _).symm⟩
  unfold startM3OpenaiSummaryRequest
  dsimp only
  apply check_bind hstart
  · intro mid denial hdenied hmid
    apply (postOrFinish_concluded env .refused mid).mono
    intro next hnext
    exact .failed (fun hopen => hdenied hopen.allowed) refused_ne (hquiet _) hmid hnext
  · intro mid hallowed hretries hmid
    simp only [Bool.not_true, Bool.false_eq_true, if_false]
    have hfailed : ∀ reason, Follows s _ (agentSetResult "error" reason mid) := fun _ => ⟨hmid.plan, hmid.trail⟩
    apply Returns.ite
    · intro hbuild
      apply (postOrFinish_concluded env .failed _).mono
      intro next hnext
      refine .failed (fun hopen => ?_) failed_ne (hquiet _) (hfailed _) hnext
      have hheader := hopen.header
      simp [buildOpenaiSummaryRequestBody_ne, hheader] at hbuild
    intro hbuild
    have hheader : env.apiHeader = true := by
      simpa [buildOpenaiSummaryRequestBody_ne] using hbuild
    apply Returns.ite
    · intro hstarts
      apply returns_pure.mpr
      have hmode : mid.mode = s.mode := congrArg Plan.mode hmid.plan
      have hpolicy : mid.policy = s.policy := congrArg Plan.policy hmid.plan
      have hsent : Follows mid [.requested ⟨s.mode, s.policy, .callModel, responsesUrl,
          buildOpenaiSummaryRequestBody mid o.capture.body⟩] (mid.send .callModel responsesUrl
            (buildOpenaiSummaryRequestBody mid o.capture.body) .callModel) := by
        rw [← hmode, ← hpolicy]
        exact ⟨rfl, rfl⟩
      exact .asked ⟨hallowed, hheader, hstarts⟩ rfl rfl hretries (hmid.append hsent)
    · intro hstarts
      apply (postOrFinish_concluded env .failed _).mono
      intro next hnext
      exact .failed (fun hopen => hstarts hopen.starts) failed_ne (hquiet _) (hfailed _) hnext

end Summaries

section Ends

variable {env : GoalEnv} {o : FetchOutcome} {s mid next : Governed} {deeds : List Deed} {terminal : Terminal}

/-- The summary in the answer of a model: of its gateway in mode M1, of the model itself in mode M3. -/
def readSummary (mode : Mode) (o : FetchOutcome) : Checked (Option Bytes) :=
  let body := o.capture.body
  if mode = .m1 then jsonExtractString body body.length (ascii "summary") agentSummaryLen
  else (·.filter (· ≠ [])) <$> extractOpenaiOutputText body o.capture.outputText agentSummaryLen

/-- The model answered with a summary. -/
def ModelOk (mode : Mode) (o : FetchOutcome) : Prop :=
  o.success = true ∧ ∃ text, readSummary mode o = .ok (some text)

/-- The end of a request behind which the summary is there. -/
def Finishes (env : GoalEnv) (o : FetchOutcome) (s : Governed) : Prop :=
  (s.phase = .fetchSource ∧ s.mode ≠ .m1 ∧ o.ok = true ∧ ¬ (s.mode = .m3 ∧ env.apiKey = true) ∧
    Allowed s.policy .summarizeText none) ∨ (s.phase = .callModel ∧ ModelOk s.mode o)

/-- The end of a request in mode M3 behind which the model is asked for a summary. -/
structure AsksSummary (env : GoalEnv) (o : FetchOutcome) (s : Governed) : Prop where
  mode : s.mode = .m3
  due : (s.phase = .fetchSource ∧ o.ok = true ∧ env.apiKey = true) ∨
    (s.phase = .callModel ∧ ¬ ModelOk .m3 o ∧ openaiFailureRetryable o = true ∧
      s.summaryRetries < agentOpenaiMaxRetries)
  opened : ModelOpen env s.policy

/-- The request to a model, behind the end of the source or of an earlier request. -/
structure AskedModel (env : GoalEnv) (o : FetchOutcome) (s : Governed) (url body : Bytes) (next : Governed) :
    Prop where
  mode : s.mode = .m1 ∨ s.mode = .m3
  allowed : Allowed s.policy .callModel (some url)
  phase : next.phase = .callModel
  inFlight : next.inFlight = true
  summary : s.mode = .m3 → AsksSummary env o s
  target : s.mode = .m1 → url = s.modelUrl

/-- What comes of the end of a fetch of the source or the model. -/
inductive Answered (env : GoalEnv) (o : FetchOutcome) (s : Governed) : Governed → Prop where
  | failed {deeds : List Deed} {terminal : Terminal} {mid next : Governed} : ¬ AsksSummary env o s →
      terminal ≠ .completed → (∀ deed ∈ deeds, deed.Quiet) → Follows s deeds mid → Concluded env terminal mid next →
      Answered env o s next
  | summarized {mid next : Governed} : ¬ AsksSummary env o s → s.phase = .fetchSource → s.mode ≠ .m1 → o.ok = true →
      Follows s [.answered .fetchUrl o.ok o.status, .checked s.policy .summarizeText none none] mid →
      Concluded env .completed mid next → Finishes env o s → Answered env o s next
  | captured {text : Bytes} {mid next : Governed} : ¬ AsksSummary env o s → s.phase = .callModel → o.success = true →
      Follows s [.answered .callModel o.ok o.status, .summarized text] mid → Concluded env .completed mid next →
      Finishes env o s → Answered env o s next
  | asked {url body : Bytes} {next : Governed} : s.phase = .fetchSource → (s.mode = .m1 → o.success = true) →
      o.ok = true → AskedModel env o s url body next →
      Follows s [.answered .fetchUrl o.ok o.status, .checked s.policy .callModel (some url) none,
        .requested ⟨s.mode, s.policy, .callModel, url, body⟩] next → Answered env o s next
  | again {url body : Bytes} {next : Governed} : s.phase = .callModel → next.summaryRetries = s.summaryRetries + 1 →
      s.summaryRetries < agentOpenaiMaxRetries → AskedModel env o s url body next →
      Follows s [.answered .callModel o.ok o.status, .checked s.policy .callModel (some url) none,
        .requested ⟨s.mode, s.policy, .callModel, url, body⟩] next → Answered env o s next

/-- The rule of the end of a request. -/
theorem answered_follows (skill : Skill) (o : FetchOutcome) (s : Governed) (flying : Bool) :
    Follows s [.answered skill o.ok o.status] ({ s with inFlight := flying }.act (.answered skill o.ok o.status)) :=
  ⟨rfl, rfl⟩

theorem success_ok (h : o.success = true) : o.ok = true := by
  unfold FetchOutcome.success at h
  simp only [Bool.and_eq_true] at h
  exact h.1

theorem sourceDoneM1_answered (hmode : s.mode = .m1) (hphase : s.phase = .fetchSource) :
    Returns (sourceDoneM1 env o { s with inFlight := false }) (Answered env o s) := by
  have hanswered := answered_follows .fetchUrl o s false
  have hother : ¬ AsksSummary env o s := fun h => by cases hmode.symm.trans h.mode
  unfold sourceDoneM1
  dsimp only
  generalize Governed.act _ _ = answered at hanswered ⊢
  have hfailed {deeds : List Deed} {mid : Governed} (hquiet : ∀ deed ∈ deeds, deed.Quiet) (hmid : Follows s deeds mid)
      {terminal : Terminal} (hterminal : terminal ≠ .completed) :
      Returns (agentStartTerminalPost env terminal mid) (Answered env o s) :=
    (agentStartTerminalPost_concluded env terminal mid).mono fun _ hnext =>
      .failed hother hterminal hquiet hmid hnext
  have hquiet : ∀ url denied, ∀ deed ∈ [Deed.answered .fetchUrl o.ok o.status, .checked s.policy .callModel url denied],
      deed.Quiet := by
    simp [Deed.Quiet]
  have hurl : answered.modelUrl = s.modelUrl := congrArg Plan.modelUrl hanswered.plan
  apply Returns.ite
  · intro _
    have hmid : Follows s [.answered .fetchUrl o.ok o.status] (agentSetResult "error" (ascii "fetch failed")
        { answered with summary := [] }) := ⟨hanswered.plan, hanswered.trail⟩
    exact hfailed (by simp [Deed.Quiet]) hmid failed_ne
  intro hsuccess
  have hsuccess : o.success = true := by simpa using hsuccess
  rw [hurl]
  apply check_bind hanswered
  · intro mid denial _ hmid
    exact hfailed (hquiet _ _) hmid refused_ne
  intro mid hallowed _ hmid
  simp only [Bool.not_true, Bool.false_eq_true, if_false]
  have hresult : ∀ reason, Follows s _ (agentSetResult "error" reason mid) := fun _ => ⟨hmid.plan, hmid.trail⟩
  apply Returns.ite
  · intro _
    exact hfailed (hquiet _ _) (hresult _) failed_ne
  intro _
  have hmidUrl : mid.modelUrl = s.modelUrl := congrArg Plan.modelUrl hmid.plan
  have hmidMode : mid.mode = s.mode := congrArg Plan.mode hmid.plan
  have hpolicy : mid.policy = s.policy := congrArg Plan.policy hmid.plan
  rw [hmidUrl]
  apply Returns.ite
  · intro _
    apply returns_pure.mpr
    have hsent : Follows mid [.requested ⟨s.mode, s.policy, .callModel, s.modelUrl,
        buildModelRequestBody mid o.capture.body⟩] (mid.send .callModel s.modelUrl
          (buildModelRequestBody mid o.capture.body) .callModel) := by
      rw [← hmidMode, ← hpolicy]
      exact ⟨rfl, rfl⟩
    have hasked : AskedModel env o s s.modelUrl (buildModelRequestBody mid o.capture.body)
        (mid.send .callModel s.modelUrl (buildModelRequestBody mid o.capture.body) .callModel) :=
      ⟨.inl hmode, hallowed, rfl, rfl, fun h => (by cases hmode.symm.trans h), fun _ => rfl⟩
    exact .asked hphase (fun _ => hsuccess) (success_ok hsuccess) hasked (hmid.append hsent)
  · intro _
    exact hfailed (hquiet _ _) (hresult _) failed_ne

theorem readSummary_returns (mode : Mode) (o : FetchOutcome) : ∃ summary, readSummary mode o = .ok summary := by
  have hbound : o.capture.body.length < 2 ^ 64 := by
    have hlength := o.bounded
    unfold agentResponseBodyLen at hlength
    omega
  unfold readSummary
  dsimp only
  split_ifs
  · obtain ⟨summary, hsummary, -⟩ : Returns (jsonExtractString o.capture.body o.capture.body.length
        (ascii "summary") agentSummaryLen) _ := jsonExtractString_returns le_rfl
    exact ⟨summary, hsummary⟩
  · obtain ⟨text, htext, -⟩ := extractOpenaiOutputText_returns hbound o.capture.outputText agentSummaryLen
    rw [htext]
    exact ⟨_, rfl⟩

/-- The rule of the answer of a model. -/
theorem summary_rule {mode : Mode} {capture : Checked (Governed × Bool)} {f : Governed × Bool → Checked Governed}
    {P : Governed → Prop} (hcapture : capture = (fun summary => keepSummary summary s) <$> readSummary mode o)
    (hnone : ¬ ModelOk mode o → Returns (f (s, false)) P)
    (hsome : ∀ text mid, ModelOk mode o → mid.summaryRetries = s.summaryRetries → Follows s [.summarized text] mid →
      Returns (f (mid, true)) P) :
    Returns (if o.success then capture >>= f else pure (s, false) >>= f) P := by
  obtain ⟨summary, hread⟩ := readSummary_returns mode o
  apply Returns.ite
  · intro hsuccess
    rw [hcapture, hread, Except.map_ok, ok_bind]
    cases summary with
    | none =>
      apply hnone
      intro ⟨_, text, htext⟩
      cases hread.symm.trans htext
    | some text => exact hsome text _ ⟨hsuccess, text, hread⟩ rfl ⟨rfl, rfl⟩
  · intro hsuccess
    exact hnone fun h => hsuccess h.1

theorem modelDoneM1_answered (hmode : s.mode = .m1) (hphase : s.phase = .callModel) :
    Returns (modelDoneM1 env o { s with inFlight := false }) (Answered env o s) := by
  have hanswered := answered_follows .callModel o s false
  have hother : ¬ AsksSummary env o s := fun h => by cases hmode.symm.trans h.mode
  unfold modelDoneM1
  dsimp only
  generalize Governed.act _ _ = answered at hanswered ⊢
  apply summary_rule (show captureModelSummary o answered = _ <$> readSummary .m1 o from rfl)
  · intro _
    have hmid : Follows s [.answered .callModel o.ok o.status] (agentSetResult "error" (ascii "model gateway error")
        { answered with summary := [] }) := ⟨hanswered.plan, hanswered.trail⟩
    have hquiet : ∀ deed ∈ [Deed.answered .callModel o.ok o.status], deed.Quiet := by
      simp [Deed.Quiet]
    exact (agentStartTerminalPost_concluded env .failed _).mono fun _ hnext =>
      .failed hother failed_ne hquiet hmid hnext
  · intro text mid hmodel _ hmid
    have hresult : Follows s [.answered .callModel o.ok o.status, .summarized text] (agentSetResult "ok" [] mid) :=
      hanswered.append ⟨hmid.plan, hmid.trail⟩
    have hfinishes : Finishes env o s := .inr ⟨hphase, hmode ▸ hmodel⟩
    exact (agentStartTerminalPost_concluded env .completed _).mono fun _ hnext =>
      .captured hother hphase hmodel.1 hresult hnext hfinishes

theorem summaryAsked_answered (hquiet : ∀ deed ∈ deeds, deed.Quiet)
    (hmid : Follows s deeds mid) (hnext : SummaryAsked env mid next)
    (hnot : ¬ ModelOpen env s.policy → ¬ AsksSummary env o s)
    (hasked : ∀ body, ModelOpen env s.policy → next.phase = .callModel → next.inFlight = true →
      next.summaryRetries = mid.summaryRetries → Follows s (deeds ++ [.checked s.policy .callModel (some responsesUrl) none,
        .requested ⟨s.mode, s.policy, .callModel, responsesUrl, body⟩]) next → Answered env o s next) :
    Answered env o s next := by
  have hpolicy : mid.policy = s.policy := congrArg Plan.policy hmid.plan
  have hmode : mid.mode = s.mode := congrArg Plan.mode hmid.plan
  cases hnext with
  | asked hopen hphase hflight hretries hfollows =>
    rw [hpolicy] at hopen hfollows
    rw [hmode] at hfollows
    exact hasked _ hopen hphase hflight hretries (hmid.append hfollows)
  | failed hopen hterminal hmore hfollows hconcluded =>
    rw [hpolicy] at hopen
    apply Answered.failed (hnot hopen) hterminal ?_ (hmid.append hfollows) hconcluded
    intro deed hdeed
    rcases List.mem_append.mp hdeed with hin | hin
    · exact hquiet deed hin
    · exact hmore deed hin

theorem sourceDone_answered (hmode : s.mode ≠ .m1) (hphase : s.phase = .fetchSource) :
    Returns (sourceDone env o { s with inFlight := false }) (Answered env o s) := by
  have hanswered := answered_follows .fetchUrl o s false
  have hquiet : ∀ deed ∈ [Deed.answered .fetchUrl o.ok o.status], deed.Quiet := by
    simp [Deed.Quiet]
  unfold sourceDone
  dsimp only
  generalize Governed.act _ _ = answered at hanswered ⊢
  have hmodeEq : answered.mode = s.mode := congrArg Plan.mode hanswered.plan
  have hdue : AsksSummary env o s → o.ok = true ∧ env.apiKey = true := by
    intro h
    rcases h.due with ⟨-, hok, hkey⟩ | ⟨hmodel, -⟩
    · exact ⟨hok, hkey⟩
    · cases hphase.symm.trans hmodel
  rw [hmodeEq]
  apply Returns.ite
  · intro hok
    have hother : ¬ AsksSummary env o s := by
      intro h
      simp [(hdue h).1] at hok
    have hmid : Follows s [.answered .fetchUrl o.ok o.status] (agentSetResult "error" (ascii "fetch failed") answered) :=
      ⟨hanswered.plan, hanswered.trail⟩
    exact (postOrFinish_concluded env .failed _).mono fun _ hnext => .failed hother failed_ne hquiet hmid hnext
  intro hok
  have hok : o.ok = true := by simpa using hok
  apply Returns.ite
  · intro ⟨hm3, hkey⟩
    apply (startM3OpenaiSummaryRequest_asked env o answered).mono
    intro next hnext
    apply summaryAsked_answered hquiet hanswered hnext
    · intro hclosed h
      exact hclosed h.opened
    · intro body hopen hcall hflight _ hfollows
      have hasked : AskedModel env o s responsesUrl body next :=
        ⟨.inr hm3, hopen.allowed, hcall, hflight, fun _ => ⟨hm3, .inl ⟨hphase, hok, hkey⟩, hopen⟩,
          fun h => absurd h hmode⟩
      exact .asked hphase (fun h => absurd h hmode) hok hasked hfollows
  · intro hlocal
    have hother : ¬ AsksSummary env o s := fun h => hlocal ⟨h.mode, (hdue h).2⟩
    apply check_bind hanswered
    · intro mid denial _ hmid
      have hdenied : ∀ deed ∈ [Deed.answered .fetchUrl o.ok o.status] ++
          [.checked s.policy .summarizeText none (some denial)], deed.Quiet := by
        simp [Deed.Quiet]
      exact (postOrFinish_concluded env .refused _).mono fun _ hnext => .failed hother refused_ne hdenied hmid hnext
    · intro mid hallowed _ hmid
      have hfinishes : Finishes env o s := .inl ⟨hphase, hmode, hok, hlocal, hallowed⟩
      have hresult : Follows s [.answered .fetchUrl o.ok o.status, .checked s.policy .summarizeText none none]
          (agentSetResult "ok" [] { mid with summary := summarizeAgentResponse o.capture.body mid.sentences }) :=
        ⟨hmid.plan, hmid.trail⟩
      exact (postOrFinish_concluded env .completed _).mono fun _ hnext =>
        .summarized hother hphase hmode hok hresult hnext hfinishes

theorem captureOpenaiSummary_eq (o : FetchOutcome) (s : Governed) :
    captureOpenaiSummary o s = (fun summary => keepSummary summary s) <$> readSummary .m3 o := by
  have hbound : o.capture.body.length < 2 ^ 64 := by
    have hlength := o.bounded
    unfold agentResponseBodyLen at hlength
    omega
  obtain ⟨text, htext, -⟩ := extractOpenaiOutputText_returns hbound o.capture.outputText agentSummaryLen
  unfold captureOpenaiSummary readSummary
  dsimp only
  rw [htext]
  rfl

theorem modelDoneM3_answered (hmode : s.mode = .m3) (hphase : s.phase = .callModel) :
    Returns (modelDoneM3 env o { s with inFlight := false }) (Answered env o s) := by
  have hanswered := answered_follows .callModel o s false
  have hquiet : ∀ deed ∈ [Deed.answered .callModel o.ok o.status], deed.Quiet := by
    simp [Deed.Quiet]
  have hdue : AsksSummary env o s → ¬ ModelOk .m3 o ∧ openaiFailureRetryable o = true ∧
      s.summaryRetries < agentOpenaiMaxRetries := by
    intro h
    rcases h.due with ⟨hsource, -⟩ | ⟨-, h⟩
    · cases hphase.symm.trans hsource
    · exact h
  unfold modelDoneM3
  dsimp only
  have hretries : ({ s with inFlight := false }.act (.answered .callModel o.ok o.status)).summaryRetries =
      s.summaryRetries := rfl
  generalize Governed.act _ _ = answered at hanswered hretries ⊢
  apply summary_rule (captureOpenaiSummary_eq o answered)
  · intro hmodel
    simp only [Bool.not_false, if_true]
    rw [hretries]
    apply Returns.ite
    · intro hagain
      rw [Bool.and_eq_true, decide_eq_true_eq] at hagain
      obtain ⟨hretryable, hleft⟩ := hagain
      have hmid : Follows s [.answered .callModel o.ok o.status]
          { answered with summary := [], summaryRetries := (s.summaryRetries + 1) % 256 } :=
        ⟨hanswered.plan, hanswered.trail⟩
      apply (startM3OpenaiSummaryRequest_asked env o _).mono
      intro next hnext
      apply summaryAsked_answered hquiet hmid hnext
      · intro hclosed h
        exact hclosed h.opened
      · intro body hopen hcall hflight hcount hfollows
        have hasked : AskedModel env o s responsesUrl body next :=
          ⟨.inr hmode, hopen.allowed, hcall, hflight, fun _ => ⟨hmode, .inr ⟨hphase, hmodel, hretryable, hleft⟩, hopen⟩,
            fun h => by cases hmode.symm.trans h⟩
        have hone : (s.summaryRetries + 1) % 256 = s.summaryRetries + 1 := by
          unfold agentOpenaiMaxRetries at hleft
          omega
        exact .again hphase (hcount.trans hone) hleft hasked hfollows
    · intro hlast
      have hother : ¬ AsksSummary env o s := by
        intro h
        obtain ⟨-, hretryable, hleft⟩ := hdue h
        rw [Bool.and_eq_true, decide_eq_true_eq] at hlast
        exact hlast ⟨hretryable, hleft⟩
      apply (buildOpenaiFailureReason_returns _ _).bind
      intro reason _
      have hmid : Follows s [.answered .callModel o.ok o.status]
          (agentSetResult "error" reason { answered with summary := [], summaryRetries := s.summaryRetries }) :=
        ⟨hanswered.plan, hanswered.trail⟩
      exact (postOrFinish_concluded env .failed _).mono fun _ hnext => .failed hother failed_ne hquiet hmid hnext
  · intro text mid hmodel _ hmid
    have hother : ¬ AsksSummary env o s := fun h => (hdue h).1 hmodel
    have hresult : Follows s [.answered .callModel o.ok o.status, .summarized text] (agentSetResult "ok" [] mid) :=
      hanswered.append ⟨hmid.plan, hmid.trail⟩
    have hfinishes : Finishes env o s := .inr ⟨hphase, hmode ▸ hmodel⟩
    exact (postOrFinish_concluded env .completed _).mono fun _ hnext =>
      .captured hother hphase hmodel.1 hresult hnext hfinishes

end Ends

section Interpretation

variable {env : GoalEnv} {o : FetchOutcome} {s mid next : Governed}

/-- What comes of asking a model to interpret a goal. -/
inductive InterpretAsked (s : Governed) : Governed → Prop where
  | asked {body : Bytes} {next : Governed} : next.phase = s.phase → next.inFlight = true →
      next.interpretRetries = s.interpretRetries → Follows s [.interpreting body] next → InterpretAsked s next
  | failed {terminal : Terminal} : terminal ≠ .completed → InterpretAsked s (closed s [.ended terminal])

theorem finishGoalInterpretationFailure_eq (reason : Bytes) (s : Governed) : ∃ terminal, terminal ≠ .completed ∧
    finishGoalInterpretationFailure reason s = closed s [.ended terminal] := by
  unfold finishGoalInterpretationFailure
  dsimp only
  split_ifs
  · exact ⟨.refused, refused_ne, rfl⟩
  · exact ⟨.failed, failed_ne, rfl⟩

theorem startOpenaiInterpretationRequest_asked (env : GoalEnv) (s : Governed) :
    InterpretAsked s (startOpenaiInterpretationRequest env s) := by
  have hfailed : ∀ reason, InterpretAsked s (finishGoalInterpretationFailure reason s) := by
    intro reason
    obtain ⟨terminal, hterminal, hclosed⟩ := finishGoalInterpretationFailure_eq reason s
    rw [hclosed]
    exact .failed hterminal
  unfold startOpenaiInterpretationRequest
  dsimp only
  split_ifs
  · exact hfailed _
  · exact hfailed _
  · exact hfailed _
  · exact .asked rfl rfl rfl ⟨rfl, rfl⟩
  · exact hfailed _

/-- The URLs that an interpretation is read to have. -/
structure ReadUrls (text : Bytes) (s : Governed) : Prop where
  source : jsonExtractString text text.length (ascii "source_url") agentUrlLen = .ok (some s.sourceUrl)
  sink : s.sinkUrl ≠ [] → jsonExtractString text text.length (ascii "sink_url") agentUrlLen = .ok (some s.sinkUrl)

/-- A plan that is read in the text of a response. -/
structure PlanRead (text : Bytes) (s mid : Governed) : Prop where
  active : mid.active = s.active
  trail : mid.trail = s.trail
  urls : ReadUrls text mid

theorem planInterpreted_ok {action : Bytes} {text : Bytes} (h : planInterpreted action s = .ok mid)
    (hurls : ReadUrls text s) : PlanRead text s mid := by
  have hstored : ∀ task, agentStoreTaskJson task s = some mid → PlanRead text s mid := by
    intro task htask
    unfold agentStoreTaskJson at htask
    split_ifs at htask
    obtain rfl := Option.some.inj htask
    exact ⟨rfl, rfl, hurls.source, hurls.sink⟩
  unfold planInterpreted at h
  dsimp only at h
  split_ifs at h
  all_goals
    split at h
    · rename_i stored hstore
      obtain rfl := Except.ok.inj h
      exact hstored _ hstore
    · cases h

theorem extract_ok (buf key : Bytes) (capacity : ℕ) : ∃ value, jsonExtractString buf buf.length key capacity = .ok value := by
  obtain ⟨value, hvalue, -⟩ : Returns (jsonExtractString buf buf.length key capacity) _ := jsonExtractString_returns le_rfl
  exact ⟨value, hvalue⟩

theorem extractU64_ok (buf key : Bytes) : ∃ value, jsonExtractU64 buf buf.length key = .ok value := by
  obtain ⟨value, hvalue, -⟩ : Returns (jsonExtractU64 buf buf.length key) _ := jsonExtractU64_returns le_rfl
  exact ⟨value, hvalue⟩

theorem applyInterpretationResponse_read (text : Bytes) (s : Governed) :
    Returns (applyInterpretationResponse text s) fun r => ∀ mid, r = .ok mid → PlanRead text s mid := by
  have herror : ∀ reason, Returns (pure (.error reason) : Checked (Except Bytes Governed))
      fun r => ∀ mid, r = .ok mid → PlanRead text s mid := by
    intro reason
    apply returns_pure.mpr
    intro mid h
    cases h
  unfold applyInterpretationResponse
  dsimp only
  obtain ⟨status, hstatus⟩ := extract_ok text (ascii "status") 16
  rw [hstatus, ok_bind]
  cases status with
  | none => exact herror _
  | some status =>
    dsimp only
    apply Returns.ite
    · intro _
      obtain ⟨reason, hreason⟩ := extract_ok text (ascii "reason") 128
      rw [hreason, ok_bind]
      exact herror _
    intro _
    obtain ⟨action, haction⟩ := extract_ok text (ascii "action") 32
    rw [haction, ok_bind]
    cases action with
    | none => exact herror _
    | some action =>
      dsimp only
      obtain ⟨source, hsource⟩ := extract_ok text (ascii "source_url") agentUrlLen
      rw [hsource, ok_bind]
      cases source with
      | none => exact herror _
      | some source =>
        obtain ⟨sink, hsink⟩ := extract_ok text (ascii "sink_url") agentUrlLen
        obtain ⟨items, hitems⟩ := extractU64_ok text (ascii "max_items")
        obtain ⟨language, hlanguage⟩ := extract_ok text (ascii "output_language") 16
        obtain ⟨style, hstyle⟩ := extract_ok text (ascii "style") 16
        dsimp only
        rw [hsink, ok_bind, hitems, ok_bind, hlanguage, ok_bind, hstyle, ok_bind]
        apply returns_pure.mpr
        intro mid hmid
        have hread : PlanRead text _ mid := planInterpreted_ok hmid ⟨hsource, ?_⟩
        · exact ⟨hread.active, hread.trail, hread.urls⟩
        · intro hne
          cases sink with
          | none => exact absurd rfl hne
          | some sink => exact hsink

/-- What comes of the end of a request for an interpretation. -/
inductive InterpretDone (env : GoalEnv) (o : FetchOutcome) (s : Governed) : Governed → Prop where
  | again {body : Bytes} {next : Governed} : next.phase = .interpretGoal → next.inFlight = true →
      next.interpretRetries = s.interpretRetries + 1 → s.interpretRetries < agentOpenaiMaxRetries →
      Follows s [.interpreting body] next → InterpretDone env o s next
  | failed {deeds : List Deed} {terminal : Terminal} : terminal ≠ .completed →
      (∀ deed ∈ deeds, ∃ reply text, deed = .interpreted reply text) →
      InterpretDone env o s (closed s (deeds ++ [.ended terminal]))
  | planned {reply text : Bytes} {mid next : Governed} : interpretationText 1024 o = .ok text →
      interpretationText agentResponseBodyLen o = .ok reply →
      PlanRead text (s.act (.interpreted reply text)) mid → Started env { mid with mode := .m3 } next →
      InterpretDone env o s next

theorem InterpretAsked.again (h : InterpretAsked mid next) (hplan : mid.plan = s.plan) (htrail : mid.trail = s.trail)
    (hphase : mid.phase = .interpretGoal) (hcount : mid.interpretRetries = s.interpretRetries + 1)
    (hleft : s.interpretRetries < agentOpenaiMaxRetries) : InterpretDone env o s next := by
  cases h with
  | asked hnext hflight hretries hfollows =>
    exact .again (hnext.trans hphase) hflight (hretries.trans hcount) hleft
      ⟨hfollows.plan.trans hplan, by rw [hfollows.trail, htrail]⟩
  | failed hterminal =>
    have hnone : ∀ deed ∈ ([] : List Deed), ∃ reply text, deed = .interpreted reply text := by
      simp
    rw [Goals.closed, htrail]
    exact .failed hterminal hnone

theorem interpretationText_ok (capacity : ℕ) (o : FetchOutcome) : ∃ text, interpretationText capacity o = .ok text := by
  have hbound : o.capture.body.length < 2 ^ 64 := by
    have hlength := o.bounded
    unfold agentResponseBodyLen at hlength
    omega
  obtain ⟨text, htext, -⟩ := extractOpenaiOutputText_returns hbound o.capture.outputText capacity
  unfold interpretationText
  rw [htext, ok_bind]
  exact ⟨_, rfl⟩

theorem goalInterpretationDone_done (hphase : s.phase = .interpretGoal) :
    Returns (goalInterpretationDone env o { s with inFlight := false }) (InterpretDone env o s) := by
  have hfailed : ∀ reason (mid : Governed), mid.trail = s.trail →
      InterpretDone env o s (finishGoalInterpretationFailure reason mid) := by
    intro reason mid htrail
    obtain ⟨terminal, hterminal, hclosed⟩ := finishGoalInterpretationFailure_eq reason mid
    have hnone : ∀ deed ∈ ([] : List Deed), ∃ reply text, deed = .interpreted reply text := by
      simp
    rw [hclosed, Goals.closed, htrail]
    exact .failed hterminal hnone
  unfold goalInterpretationDone
  apply Returns.ite
  · intro _
    apply Returns.ite
    · intro hagain
      rw [Bool.and_eq_true, decide_eq_true_eq] at hagain
      have hleft : s.interpretRetries < agentOpenaiMaxRetries := hagain.2
      have hone : (s.interpretRetries + 1) % 256 = s.interpretRetries + 1 := by
        unfold agentOpenaiMaxRetries at hleft
        omega
      apply returns_pure.mpr
      have hnext := startOpenaiInterpretationRequest_asked env
        { s with inFlight := false, interpretRetries := (s.interpretRetries + 1) % 256 }
      exact hnext.again rfl rfl hphase hone hleft
    · intro _
      apply (buildOpenaiFailureReason_returns _ _).bind
      intro reason _
      exact returns_pure.mpr (hfailed _ _ rfl)
  intro _
  apply Returns.ite
  · intro _
    exact returns_pure.mpr (hfailed _ _ rfl)
  intro _
  obtain ⟨text, htext⟩ := interpretationText_ok 1024 o
  obtain ⟨reply, hreply⟩ := interpretationText_ok agentResponseBodyLen o
  rw [htext, ok_bind, hreply, ok_bind]
  apply (applyInterpretationResponse_read text _).bind
  intro r hread
  cases r with
  | error reason =>
    obtain ⟨terminal, hterminal, hclosed⟩ :=
      finishGoalInterpretationFailure_eq reason ({ s with inFlight := false }.act (.interpreted reply text))
    apply returns_pure.mpr
    rw [hclosed]
    have hinterpreted : ∀ deed ∈ [Deed.interpreted reply text], ∃ reply text, deed = .interpreted reply text := by
      simp
    have hall : Goals.closed ({ s with inFlight := false }.act (.interpreted reply text)) [.ended terminal] =
        Goals.closed s ([.interpreted reply text] ++ [.ended terminal]) := by
      simp [Goals.closed, Governed.act]
    rw [hall]
    exact .failed hterminal hinterpreted
  | ok mid =>
    have hplan := hread mid rfl
    apply (startLocalSummaryTaskWithMode_started env m3_ne mid).mono
    intro next hnext
    exact .planned htext hreply ⟨hplan.active, hplan.trail, hplan.urls⟩ hnext

end Interpretation

section Events

variable {env : GoalEnv} {o : FetchOutcome} {s mid next : Governed} {line : Bytes}

/-- A task whose fetch is in flight. -/
structure Waiting (s : Governed) : Prop where
  active : s.active = true
  phase : (s.phase = .interpretGoal ∧ s.mode = .m3) ∨ s.phase = .fetchSource ∨
    (s.phase = .callModel ∧ (s.mode = .m1 ∨ s.mode = .m3)) ∨ (s.phase = .postResult ∧ s.terminal.isSome)

/-- What comes of the end of a fetch. -/
inductive FetchEnded (env : GoalEnv) (o : FetchOutcome) (s : Governed) : Governed → Prop where
  | interpreted {next : Governed} : s.phase = .interpretGoal → InterpretDone env o s next → FetchEnded env o s next
  | answered {next : Governed} : s.phase = .fetchSource ∨ s.phase = .callModel → Answered env o s next →
      FetchEnded env o s next
  | posted {terminal : Terminal} : s.phase = .postResult → s.terminal = some terminal →
      FetchEnded env o s (closed s [.answered .postResult o.ok o.status, .ended terminal])

theorem postDone_eq {terminal : Terminal} (h : s.terminal = some terminal) :
    postDone o s = closed s [.answered .postResult o.ok o.status, .ended terminal] := by
  have hanswered : (s.act (.answered .postResult o.ok o.status)).terminal = some terminal := h
  have hsome : (s.act (.answered .postResult o.ok o.status)).terminal.isSome = true := by
    rw [hanswered]
    rfl
  unfold postDone
  dsimp only
  rw [if_pos (.inr hsome), finish_eq hanswered]
  simp [closed, Governed.act]

theorem phaseDone_interpretGoal (h : s.phase = .interpretGoal) (hmode : s.mode = .m3) :
    phaseDone env o s = goalInterpretationDone env o s := by
  unfold phaseDone
  rw [h]
  exact if_pos hmode

theorem phaseDone_fetchSource (h : s.phase = .fetchSource) :
    phaseDone env o s = if s.mode = .m1 then sourceDoneM1 env o s else sourceDone env o s := by
  unfold phaseDone
  rw [h]

theorem phaseDone_callModel (h : s.phase = .callModel) (hmode : s.mode = .m1 ∨ s.mode = .m3) :
    phaseDone env o s = if s.mode = .m1 then modelDoneM1 env o s else modelDoneM3 env o s := by
  unfold phaseDone
  rw [h]
  dsimp only
  rcases hmode with hm1 | hm3
  · rw [if_pos hm1, if_pos hm1]
  · have hne : ¬ s.mode = .m1 := by
      rw [hm3]
      decide
    rw [if_neg hne, if_neg hne, if_pos hm3]

theorem phaseDone_postResult (h : s.phase = .postResult) : phaseDone env o s = pure (postDone o s) := by
  unfold phaseDone
  rw [h]

theorem handleAgentFetchDone_ended (env : GoalEnv) (o : FetchOutcome) (h : Waiting s) :
    Returns (handleAgentFetchDone env o s) (FetchEnded env o s) := by
  unfold handleAgentFetchDone
  rw [if_neg (by rw [h.active]; decide)]
  rcases h.phase with ⟨hphase, hmode⟩ | hphase | ⟨hphase, hmode⟩ | ⟨hphase, hterminal⟩
  · have heq : phaseDone env o { s with inFlight := false } = goalInterpretationDone env o { s with inFlight := false } :=
      phaseDone_interpretGoal hphase hmode
    rw [heq]
    exact (goalInterpretationDone_done hphase).mono fun _ hnext => .interpreted hphase hnext
  · have heq : phaseDone env o { s with inFlight := false } = if s.mode = .m1 then
        sourceDoneM1 env o { s with inFlight := false } else sourceDone env o { s with inFlight := false } :=
      phaseDone_fetchSource hphase
    rw [heq]
    apply Returns.ite
    · intro hm1
      exact (sourceDoneM1_answered hm1 hphase).mono fun _ hnext => .answered (.inl hphase) hnext
    · intro hm1
      exact (sourceDone_answered hm1 hphase).mono fun _ hnext => .answered (.inl hphase) hnext
  · have heq : phaseDone env o { s with inFlight := false } = if s.mode = .m1 then
        modelDoneM1 env o { s with inFlight := false } else modelDoneM3 env o { s with inFlight := false } :=
      phaseDone_callModel hphase hmode
    rw [heq]
    apply Returns.ite
    · intro hm1
      exact (modelDoneM1_answered hm1 hphase).mono fun _ hnext => .answered (.inr hphase) hnext
    · intro hm1
      have hm3 : s.mode = .m3 := hmode.resolve_left hm1
      exact (modelDoneM3_answered hm3 hphase).mono fun _ hnext => .answered (.inr hphase) hnext
  · obtain ⟨terminal, hsome⟩ := Option.isSome_iff_exists.mp hterminal
    have hpost : postDone o { s with inFlight := false } =
        closed s [.answered .postResult o.ok o.status, .ended terminal] := postDone_eq hsome
    have heq : phaseDone env o { s with inFlight := false } = pure (postDone o { s with inFlight := false }) :=
      phaseDone_postResult hphase
    rw [heq, hpost]
    exact returns_pure.mpr (.posted hphase hsome)

/-- The URLs that a task in JSON is read to have. -/
structure TaskUrls (line : Bytes) (a : Governed) : Prop where
  source : jsonExtractString line line.length (ascii "source_url") agentUrlLen = .ok (some a.sourceUrl)
  sink : jsonExtractString line line.length (ascii "sink_url") agentUrlLen = .ok (some a.sinkUrl)
  model : a.mode = .m1 → jsonExtractString line line.length (ascii "model_url") agentUrlLen = .ok (some a.modelUrl)
  kind : a.mode = .m1 →
    jsonExtractString line line.length (ascii "kind") 64 ≠ .ok (some (ascii "fetch_summarize_post"))

/-- What comes of a line with a task. -/
inductive TaskLine (env : GoalEnv) (line : Bytes) (s : Governed) : Governed → Prop where
  | ignored : TaskLine env line s s
  | refused : s.active = false → TaskLine env line s (agentReset s)
  | started {a next : Governed} : s.active = false → a.active = true → a.trail = [.task line] →
      a.mode = .m0 ∨ a.mode = .m1 → TaskUrls line a → Started env a next → TaskLine env line s next

theorem handleAgentTaskLine_taken (env : GoalEnv) (line : Bytes) (s : Governed) :
    Returns (handleAgentTaskLine env line s) (TaskLine env line s) := by
  unfold handleAgentTaskLine
  dsimp only
  apply Returns.ite
  · exact fun _ => returns_pure.mpr .ignored
  intro _
  apply Returns.ite
  · exact fun _ => returns_pure.mpr .ignored
  intro hbusy
  have hidle : s.active = false := by
    simp only [Bool.or_eq_true, not_or, Bool.not_eq_true] at hbusy
    exact hbusy.1
  obtain ⟨kind, hkind⟩ := extract_ok line (ascii "kind") 64
  obtain ⟨goalId, hgoalId⟩ := extract_ok line (ascii "goal_id") 96
  obtain ⟨source, hsource⟩ := extract_ok line (ascii "source_url") agentUrlLen
  obtain ⟨sink, hsink⟩ := extract_ok line (ascii "sink_url") agentUrlLen
  rw [hkind, ok_bind]
  apply Returns.ite
  · exact fun _ => returns_pure.mpr .ignored
  intro _
  rw [hgoalId, ok_bind, hsource, ok_bind, hsink, ok_bind]
  rcases goalId with _ | goalId
  · exact returns_pure.mpr .ignored
  rcases source with _ | source
  · exact returns_pure.mpr .ignored
  rcases sink with _ | sink
  · exact returns_pure.mpr .ignored
  dsimp only
  apply Returns.ite
  · intro _
    obtain ⟨sentences, hsentences⟩ := extractU64_ok line (ascii "summary_sentences")
    rw [hsentences, ok_bind]
    have hstart := startM0Task_started env
      { acceptTask line goalId source sink s with sentences := clampItems (sentences.getD 3) }
    apply returns_pure.mpr
    refine .started hidle ?_ ?_ ?_ ?_ hstart
    · rfl
    · rfl
    · exact .inl rfl
    · exact ⟨hsource, hsink, nofun, nofun⟩
  · intro hother
    obtain ⟨model, hmodel⟩ := extract_ok line (ascii "model_url") agentUrlLen
    obtain ⟨steps, hsteps⟩ := extractU64_ok line (ascii "max_steps")
    obtain ⟨items, hitems⟩ := extractU64_ok line (ascii "max_items")
    rw [hmodel, ok_bind]
    rcases model with _ | model
    · exact returns_pure.mpr (.refused hidle)
    cases hstored : agentStoreTaskJson line (acceptTask line goalId source sink s) with
    | none => exact returns_pure.mpr (.refused hidle)
    | some stored =>
      have hsame : ∃ policy, stored = { acceptTask line goalId source sink s with policy } := by
        unfold agentStoreTaskJson at hstored
        split_ifs at hstored
        exact ⟨_, (Option.some.inj hstored).symm⟩
      obtain ⟨policy, rfl⟩ := hsame
      dsimp only
      rw [hsteps, ok_bind, hitems, ok_bind]
      apply (startGovernedM1Task_started env _).mono
      intro next hnext
      refine .started hidle ?_ ?_ ?_ ?_ hnext
      · rfl
      · rfl
      · exact .inr rfl
      · refine ⟨hsource, hsink, fun _ => hmodel, fun _ hm0 => hother ?_⟩
        rw [Except.ok.inj (hkind.symm.trans hm0)]
        rfl

/-- What comes of a line with a goal in words. -/
inductive GoalLine (env : GoalEnv) (line : Bytes) (s : Governed) : Governed → Prop where
  | ignored : GoalLine env line s s
  | started {a next : Governed} : s.active = false → a.active = true → a.trail = [.goal line] →
      a.mode = .m1 ∨ (a.mode = .m2 ∧ a.sinkUrl = []) → Started env a next → GoalLine env line s next
  | interpreting {a next : Governed} : s.active = false → a.active = true → a.trail = [.goal line] → a.mode = .m3 →
      a.phase = .interpretGoal → a.interpretRetries = 0 → InterpretAsked a next → GoalLine env line s next

theorem agentStoreTaskJson_some {task : Bytes} (h : task.length ≤ agentTaskJsonLen) (s : Governed) :
    agentStoreTaskJson task s = some { s with policy := { s.policy with task } } := if_pos h

/-- What a compilation leaves of a task, and why it may fail. -/
theorem compileGoalLocally_shape (s : Governed) : (compileGoalLocally s).1.active = s.active ∧
    (compileGoalLocally s).1.trail = s.trail ∧ ((compileGoalLocally s).2 = none ∨
      (compileGoalLocally s).2 = some "unsupported goal" ∨
      (compileGoalLocally s).2 = some "goal compilation failed") := by
  have hdefault : defaultGoalPolicy.length ≤ agentTaskJsonLen := by decide +kernel
  have hlocal : localSummaryPolicy.length ≤ agentTaskJsonLen := by decide +kernel
  unfold compileGoalLocally
  dsimp only
  split
  · exact ⟨rfl, rfl, .inr (.inr rfl)⟩
  split
  · exact ⟨rfl, rfl, .inr (.inl rfl)⟩
  split
  · exact ⟨rfl, rfl, .inr (.inl rfl)⟩
  rw [agentStoreTaskJson_some (by split_ifs; exact hdefault; exact hlocal)]
  dsimp only
  split_ifs
  · exact ⟨rfl, rfl, .inl rfl⟩
  · exact ⟨rfl, rfl, .inl rfl⟩
  · exact ⟨rfl, rfl, .inl rfl⟩

theorem copySinkHintFromGoal_same (s : Governed) :
    (copySinkHintFromGoal s).active = s.active ∧ (copySinkHintFromGoal s).trail = s.trail := by
  unfold copySinkHintFromGoal
  dsimp only
  split_ifs
  · exact ⟨rfl, rfl⟩
  · exact ⟨rfl, rfl⟩

theorem handleGoalLine_taken (env : GoalEnv) (line : Bytes) (s : Governed) :
    Returns (handleGoalLine env line s) (GoalLine env line s) := by
  unfold handleGoalLine
  apply Returns.ite
  · exact fun _ => returns_pure.mpr .ignored
  intro _
  apply Returns.ite
  · exact fun _ => returns_pure.mpr .ignored
  intro hbusy
  have hidle : s.active = false := by
    simp only [Bool.or_eq_true, not_or, Bool.not_eq_true] at hbusy
    exact hbusy.1
  have hinterpret : ∀ a : Governed, a.active = true → a.trail = [.goal line] →
      GoalLine env line s (startGoalInterpretation env a) := by
    intro a hactive htrail
    refine .interpreting hidle ?_ ?_ ?_ ?_ ?_ (startOpenaiInterpretationRequest_asked env _)
    · exact hactive
    · exact htrail
    · rfl
    · rfl
    · rfl
  dsimp only
  apply Returns.ite
  swap
  · exact fun _ => returns_pure.mpr (hinterpret _ rfl rfl)
  intro _
  obtain ⟨hhintActive, hhintTrail⟩ := copySinkHintFromGoal_same (acceptGoal line s)
  obtain ⟨hactive, htrail, hreason⟩ := compileGoalLocally_shape (copySinkHintFromGoal (acceptGoal line s))
  rw [hhintActive] at hactive
  rw [hhintTrail] at htrail
  generalize compileGoalLocally (copySinkHintFromGoal (acceptGoal line s)) = compiled at hactive htrail hreason ⊢
  obtain ⟨a, reason⟩ := compiled
  dsimp only at hactive htrail hreason ⊢
  rcases hreason with rfl | rfl | rfl
  · dsimp only
    apply Returns.ite
    · intro _
      apply (startGovernedM1Task_started env a).mono
      intro next hnext
      exact .started hidle (a := { a with mode := .m1 }) hactive htrail (.inl rfl) hnext
    · intro hsink
      apply (startLocalSummaryTaskWithMode_started env m2_ne a).mono
      intro next hnext
      exact .started hidle (a := { a with mode := .m2 }) hactive htrail (.inr ⟨rfl, not_not.mp hsink⟩) hnext
  · exact returns_pure.mpr (hinterpret a hactive htrail)
  · exact returns_pure.mpr (hinterpret a hactive htrail)

/-- What comes of an event. -/
inductive Step (s : Governed) : GoalEvent → Governed → Prop where
  | task {env : GoalEnv} {line : Bytes} {next : Governed} : TaskLine env line s next → Step s (.task env line) next
  | goal {env : GoalEnv} {line : Bytes} {next : Governed} : GoalLine env line s next → Step s (.goal env line) next
  | fetchDone {env : GoalEnv} {o : FetchOutcome} {next : Governed} : FetchEnded env o s next →
      Step s (.fetchDone env o) next

/-- No event traps while a task that has a fetch in flight waits for it. -/
theorem handle_step {event : GoalEvent} (hwaiting : s.inFlight = true → Waiting s) (hpossible : event.Possible s) :
    Returns (s.handle event) (Step s event) := by
  cases event with
  | task env line => exact (handleAgentTaskLine_taken env line s).mono fun _ => .task
  | goal env line => exact (handleGoalLine_taken env line s).mono fun _ => .goal
  | fetchDone env o => exact (handleAgentFetchDone_ended env o (hwaiting hpossible)).mono fun _ => .fetchDone

end Events

end MiniAgentOS.Agent.Goals
