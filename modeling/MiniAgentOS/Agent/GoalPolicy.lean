import MiniAgentOS.Agent.GoalRuns

/-! Which requests of a governed task its policy was asked for before. The posts of a task that a model interpreted
are not among them. -/
set_option maxRecDepth 4000

namespace MiniAgentOS.Agent.Goals
open Checked Fetch Net Session

section Policies

variable {env : GoalEnv} {o : FetchOutcome} {s mid next a : Governed} {deeds trail : List Deed} {terminal : Terminal}
  {events : List GoalEvent}

/-- The policy of the request was asked before whether it allows the skill with this URL, and it does. -/
structure Covered (before : List Deed) (request : SkillRequest) : Prop where
  checked : .checked request.policy request.skill (some request.url) none ∈ before
  allowed : Allowed request.policy request.skill (some request.url)

/-- Every request of a governed task is covered by what was done before. -/
def RequestsGoverned (s : Governed) : Prop := ∀ before request after,
  s.trail = before ++ .requested request :: after → request.mode ≠ .m0 → Covered before request

theorem requestsGoverned_iff (s : Governed) : RequestsGoverned s ↔
    Guarded (fun before request => request.mode ≠ .m0 → Covered before request) (fun _ _ => True) s.trail := by
  constructor
  · intro h before deed after heq
    cases deed with
    | requested request => exact h before request after heq
    | _ => trivial
  · exact fun h before request after heq => h before _ after heq

/-- A task that a model interpreted comes to no post: it has no sink that the fetch engine takes a request for, or the
model is asked for the summary first. -/
def PostsChecked (s : Governed) : GoalEvent → Prop
  | .fetchDone env o => s.mode = .m3 → s.phase = .fetchSource ∨ s.phase = .callModel → s.sinkUrl ≠ [] →
      fetchStartAgentUrl env s.sinkUrl = true → AsksSummary env o s
  | _ => True

theorem covered_post (hmode : s.mode = .m1) (h : PostStarts env s) (deeds : List Deed) (body : Bytes) :
    Covered (deeds ++ postChecks s) ⟨s.mode, s.policy, .postResult, s.sinkUrl, body⟩ := by
  have hchecks : postChecks s = [.checked s.policy .postResult (some s.sinkUrl) none] := if_pos hmode
  rw [hchecks]
  exact ⟨List.mem_append_right _ List.mem_cons_self, h.1 hmode⟩

theorem Started.governed (h : Started env a next) (ha : RequestsGoverned a) : RequestsGoverned next := by
  rw [requestsGoverned_iff] at ha ⊢
  apply h.guarded ha
  · exact fun _ _ _ => trivial
  · intro hallowed hmode
    have hchecks : sourceChecks a = [.checked a.policy .fetchUrl (some a.sourceUrl) none] := if_neg hmode
    refine ⟨?_, hallowed hmode⟩
    rw [hchecks]
    simp
  · intro deeds body _ hmode _ hstarts _
    exact covered_post hmode hstarts _ body

def Deed.asksPost : Deed → Bool
  | .checked _ .postResult _ _ => true
  | _ => false

/-- The policy was asked for no post. -/
def Unasked (trail : List Deed) : Prop := ∀ p url denied, .checked p .postResult url denied ∉ trail

/-- A task that is on has a mode; one that the kernel compiled without a post has no sink; and the policy is asked for
no post in mode M3. -/
structure Moded (s : Governed) : Prop where
  mode : s.mode ≠ .none
  sink : s.mode = .m2 → s.sinkUrl = []
  unasked : s.mode = .m3 → s.phase ≠ .postResult → Unasked s.trail

theorem Answered.governed (h : Answered env o s next) (hs : RequestsGoverned s) (hmoded : Moded s)
    (hm3 : s.mode = .m3 → s.sinkUrl ≠ [] → fetchStartAgentUrl env s.sinkUrl = true → AsksSummary env o s) :
    RequestsGoverned next := by
  rw [requestsGoverned_iff] at hs ⊢
  have hpost : ∀ (deeds : List Deed) body, ¬ AsksSummary env o s → s.sinkUrl ≠ [] → PostStarts env s → s.mode ≠ .m0 →
      Covered (s.trail ++ deeds ++ postChecks s) ⟨s.mode, s.policy, .postResult, s.sinkUrl, body⟩ := by
    intro deeds body hother hsink hstarts hmode
    cases hs : s.mode with
    | none => exact absurd hs hmoded.mode
    | m0 => exact absurd hs hmode
    | m1 =>
      rw [← hs]
      exact covered_post hs hstarts _ body
    | m2 => exact absurd (hmoded.sink hs) hsink
    | m3 => exact absurd (hm3 hs hsink hstarts.2) hother
  apply h.guarded hs
  · exact fun _ _ _ => trivial
  · intro mid hcompletes hconcluded
    obtain ⟨deeds, hquiet, hfollows⟩ := hcompletes.quiet
    have hother : ¬ AsksSummary env o s := by
      cases hcompletes with
      | summarized hother => exact hother
      | captured hother => exact hother
    exact hconcluded.guarded_behind hfollows hs hquiet (fun _ => trivial)
      fun body hsink hstarts => hpost deeds body hother hsink hstarts
  · exact fun deeds body _ => hpost deeds body
  · intro skill url body hasked _
    exact ⟨by simp, hasked.allowed⟩

theorem InterpretAsked.governed (h : InterpretAsked s next) (hs : RequestsGoverned s) : RequestsGoverned next := by
  rw [requestsGoverned_iff] at hs ⊢
  cases h with
  | asked _ _ _ hfollows =>
    rw [hfollows.trail]
    exact hs.free (by simp [Deed.Free])
  | failed => exact hs.finish no_deeds_free trivial

theorem InterpretDone.governed (h : InterpretDone env o s next) (hs : RequestsGoverned s) : RequestsGoverned next := by
  cases h with
  | again _ _ _ _ hfollows =>
    rw [requestsGoverned_iff] at hs ⊢
    rw [hfollows.trail]
    exact hs.free (by simp [Deed.Free])
  | failed _ hinterpreted =>
    rw [requestsGoverned_iff] at hs ⊢
    refine hs.finish (fun deed hdeed => ?_) trivial
    obtain ⟨reply, text, rfl⟩ := hinterpreted deed hdeed
    trivial
  | planned _ _ hread hstarted =>
    apply hstarted.governed
    rw [requestsGoverned_iff] at hs ⊢
    rw [hread.trail]
    exact hs.free (by simp [Deed.Free])

theorem FetchEnded.governed (h : FetchEnded env o s next) (hs : RequestsGoverned s) (hmoded : Moded s)
    (hcond : PostsChecked s (.fetchDone env o)) : RequestsGoverned next := by
  cases h with
  | interpreted _ hdone => exact hdone.governed hs
  | answered hphase hanswered =>
    exact hanswered.governed hs hmoded fun hmode hsink hstarts => hcond hmode hphase hsink hstarts
  | posted =>
    rw [requestsGoverned_iff] at hs ⊢
    have hfree : ∀ deed ∈ [Deed.answered .postResult o.ok o.status], deed.Free := by
      simp [Deed.Free]
    exact hs.finish hfree trivial

end Policies

section Modes

variable {env : GoalEnv} {o : FetchOutcome} {s mid next a : Governed} {deeds trail : List Deed} {terminal : Terminal}
  {event : GoalEvent}

theorem unasked_of_none (h : trail.all (! ·.asksPost) = true) : Unasked trail := by
  intro p url denied hin
  cases List.all_eq_true.mp h _ hin

theorem unasked_quiet (hquiet : ∀ deed ∈ deeds, deed.Quiet) : Unasked deeds :=
  fun _ _ _ hin => hquiet _ hin rfl

theorem Unasked.append (h : Unasked trail) (hnew : Unasked deeds) : Unasked (trail ++ deeds) := by
  intro p url denied hin
  rcases List.mem_append.mp hin with hold | hin
  · exact h _ _ _ hold
  · exact hnew _ _ _ hin

/-- A task that goes on keeps its mode and its sink. -/
theorem Follows.moded (h : Follows s deeds next) (hs : Moded s)
    (hasked : s.mode = .m3 → next.phase ≠ .postResult → Unasked next.trail) : Moded next where
  mode := by
    rw [h.mode]
    exact hs.mode
  sink hmode := by
    rw [h.sinkUrl]
    exact hs.sink (h.mode.symm.trans hmode)
  unasked hmode := hasked (h.mode.symm.trans hmode)

/-- A request other than a post leaves the policy unasked for one. -/
theorem Follows.moded_asking (h : Follows s deeds next) (hs : Moded s) (hphase : s.phase ≠ .postResult)
    (hdeeds : Unasked deeds) : Moded next := by
  apply h.moded hs
  intro hmode _
  rw [h.trail]
  exact (hs.unasked hmode hphase).append hdeeds

/-- A task that is on has what `Moded` says. -/
def Tidy (s : Governed) : Prop := s.active = true → Moded s

theorem tidy_closed (s : Governed) (deeds : List Deed) : Tidy (closed s deeds) := nofun

theorem Concluded.tidy (h : Concluded env terminal mid next) (hfollows : Follows s deeds mid) (hs : Moded s) :
    Tidy next := by
  cases h with
  | shown => exact tidy_closed _ _
  | denied => exact tidy_closed _ _
  | unstarted => exact tidy_closed _ _
  | posted _ _ _ hphase _ _ hposted =>
    intro _
    apply (hfollows.append hposted).moded hs
    intro _ hother
    exact absurd hphase hother

theorem Started.tidy (h : Started env a next) (ha : Moded a) (hasked : Unasked a.trail) : Tidy next := by
  cases h with
  | fetching _ _ _ hfollows =>
    intro _
    apply hfollows.moded ha
    intro _ _
    rw [hfollows.trail]
    apply hasked.append
    unfold sourceChecks plannedDeed Unasked
    split_ifs
    · simp
    · simp
  | failed _ _ _ hfollows hconcluded => exact hconcluded.tidy hfollows ha
  | shown => exact tidy_closed _ _

theorem unasked_request (answer : Deed) (p : Policy) (skill : Skill) (url : Bytes) (request : SkillRequest)
    (hanswer : answer.Quiet) (hskill : skill ≠ .postResult) :
    Unasked [answer, .checked p skill (some url) none, .requested request] := by
  intro q target denied hin
  simp only [List.mem_cons, List.not_mem_nil, or_false] at hin
  rcases hin with rfl | hin | hin
  · exact hanswer rfl
  · cases hin
    exact hskill rfl
  · cases hin

theorem callModel_ne : Skill.callModel ≠ .postResult := by decide

theorem Answered.tidy (h : Answered env o s next) (hs : Moded s) (hphase : s.phase ≠ .postResult) : Tidy next := by
  cases h with
  | failed _ _ _ hfollows hconcluded => exact hconcluded.tidy hfollows hs
  | summarized _ _ _ _ hfollows hconcluded => exact hconcluded.tidy hfollows hs
  | captured _ _ _ hfollows hconcluded => exact hconcluded.tidy hfollows hs
  | asked _ _ _ _ hfollows =>
    exact fun _ => hfollows.moded_asking hs hphase (unasked_request _ _ _ _ _ trivial callModel_ne)
  | again _ _ _ _ hfollows =>
    exact fun _ => hfollows.moded_asking hs hphase (unasked_request _ _ _ _ _ trivial callModel_ne)

theorem unasked_interpreting (body : Bytes) : Unasked [.interpreting body] := by
  simp [Unasked]

theorem InterpretAsked.tidy (h : InterpretAsked s next) (hs : Moded s) (hphase : s.phase ≠ .postResult) :
    Tidy next := by
  cases h with
  | asked _ _ _ hfollows => exact fun _ => hfollows.moded_asking hs hphase (unasked_interpreting _)
  | failed => exact tidy_closed _ _

theorem InterpretDone.tidy (h : InterpretDone env o s next) (hs : Moded s) (hphase : s.phase = .interpretGoal)
    (hmode : s.mode = .m3) : Tidy next := by
  have hother : s.phase ≠ .postResult := by
    rw [hphase]
    decide
  cases h with
  | again _ _ _ _ hfollows => exact fun _ => hfollows.moded_asking hs hother (unasked_interpreting _)
  | failed => exact tidy_closed _ _
  | planned htext hreply hread hstarted =>
    rename_i reply text mid
    have htrail : Unasked mid.trail := by
      rw [hread.trail]
      apply (hs.unasked hmode hother).append
      simp [Unasked]
    have hmoded : Moded { mid with mode := .m3 } := ⟨nofun, nofun, fun _ _ => htrail⟩
    exact hstarted.tidy hmoded htrail

theorem FetchEnded.tidy (h : FetchEnded env o s next) (hwaiting : Waiting s) (hs : Moded s) : Tidy next := by
  cases h with
  | interpreted hphase hdone =>
    apply hdone.tidy hs hphase
    rcases hwaiting.phase with ⟨-, hmode⟩ | hother | ⟨hother, -⟩ | ⟨hother, -⟩
    · exact hmode
    · cases hphase.symm.trans hother
    · cases hphase.symm.trans hother
    · cases hphase.symm.trans hother
  | answered hphase hanswered =>
    apply hanswered.tidy hs
    rcases hphase with hphase | hphase
    · rw [hphase]
      decide
    · rw [hphase]
      decide
  | posted => exact tidy_closed _ _

/-- A task that was just accepted. -/
theorem moded_start {deed : Deed} (hmode : a.mode ≠ .none) (hsink : a.mode = .m2 → a.sinkUrl = [])
    (htrail : a.trail = [deed]) (hdeed : ∀ p url denied, deed ≠ .checked p .postResult url denied) :
    Moded a ∧ Unasked a.trail := by
  have hasked : Unasked a.trail := by
    intro p url denied hin
    rw [htrail, List.mem_singleton] at hin
    exact hdeed p url denied hin.symm
  exact ⟨⟨hmode, hsink, fun _ _ => hasked⟩, hasked⟩

theorem Step.tidy (hstep : Step s event next) (hlively : Lively s) (hpossible : event.Possible s) (hs : Tidy s) :
    Tidy next := by
  cases hstep with
  | task hline =>
    cases hline with
    | ignored => exact hs
    | refused => exact nofun
    | started hidle hactive htrail hmode hurls hstarted =>
      rename_i a
      have hnot : a.mode ≠ .none ∧ a.mode ≠ .m2 := by
        rcases hmode with hmode | hmode <;> simp [hmode]
      obtain ⟨hmoded, hasked⟩ := moded_start hnot.1 (absurd · hnot.2) htrail nofun
      exact hstarted.tidy hmoded hasked
  | goal hline =>
    cases hline with
    | ignored => exact hs
    | started hidle hactive htrail hmode hstarted =>
      rename_i a
      have hnot : a.mode ≠ .none ∧ (a.mode = .m2 → a.sinkUrl = []) := by
        rcases hmode with hmode | ⟨hmode, hsink⟩
        · simp [hmode]
        · simp [hmode, hsink]
      obtain ⟨hmoded, hasked⟩ := moded_start hnot.1 hnot.2 htrail nofun
      exact hstarted.tidy hmoded hasked
    | interpreting hidle hactive htrail hmode hphase hretries hasked =>
      rename_i a
      have hnot : a.mode ≠ .none ∧ a.mode ≠ .m2 := by
        simp [hmode]
      obtain ⟨hmoded, -⟩ := moded_start hnot.1 (absurd · hnot.2) htrail nofun
      apply hasked.tidy hmoded
      rw [hphase]
      decide
  | fetchDone hended =>
    have hwaiting := hlively.waiting hpossible
    exact hended.tidy hwaiting (hs hwaiting.active)

theorem reachable_tidy (h : governedTasks.Reachable s) : Tidy s := by
  induction h with
  | init hstart =>
    obtain rfl := hstart
    exact nofun
  | step hbefore hallowed ih =>
    obtain ⟨hpossible, hstep⟩ := step_of_allowed hbefore hallowed
    exact hstep.tidy (reachable_lively hbefore) hpossible ih

end Modes

section Runs

variable {env : GoalEnv} {o : FetchOutcome} {s mid next a : Governed} {deeds trail : List Deed} {terminal : Terminal}
  {event : GoalEvent} {events : List GoalEvent}

/-- A post that the policy was not asked for. -/
theorem ungoverned_post {request : SkillRequest} (hin : .requested request ∈ s.trail) (hskill : request.skill = .postResult)
    (hmode : request.mode ≠ .m0) (hasked : Unasked s.trail) : ¬ RequestsGoverned s := by
  intro hgoverned
  obtain ⟨before, after, htrail⟩ := List.append_of_mem hin
  have hchecked := (hgoverned before request after htrail hmode).checked
  rw [hskill] at hchecked
  apply hasked
  rw [htrail]
  exact List.mem_append_left _ hchecked

/-- A task in mode M3 that ends without asking the model posts what no check allowed. -/
theorem Concluded.ungoverned (h : Concluded env terminal mid next) (hfollows : Follows s deeds mid)
    (hquiet : ∀ deed ∈ deeds, deed.Quiet) (hmode : s.mode = .m3) (hasked : Unasked s.trail) (hsink : s.sinkUrl ≠ [])
    (hstarts : fetchStartAgentUrl env s.sinkUrl = true) : ¬ RequestsGoverned next := by
  have hmid : mid.mode = .m3 := hfollows.mode.trans hmode
  have hurl : mid.sinkUrl = s.sinkUrl := hfollows.sinkUrl
  have hother : mid.mode ≠ .m1 := by
    rw [hmid]
    decide
  have hchecks : postChecks mid = [] := if_neg hother
  cases h with
  | shown hnone => exact absurd (hurl ▸ hnone) hsink
  | denied _ hdenied => exact absurd (fun hm1 => absurd hm1 hother) hdenied
  | unstarted _ hstopped =>
    rw [hurl, hstarts] at hstopped
    cases hstopped
  | posted hsent hallowed hgo hphase hflight hterminal hposted =>
    rename_i body
    have htrail := hposted.trail
    rw [hfollows.trail, hchecks, List.nil_append] at htrail
    have hunasked : Unasked next.trail := by
      rw [htrail]
      apply (hasked.append (unasked_quiet hquiet)).append
      simp [Unasked]
    have hnot : mid.mode ≠ .m0 := by
      rw [hmid]
      decide
    have hin : .requested ⟨mid.mode, mid.policy, .postResult, mid.sinkUrl, body⟩ ∈ next.trail := by
      rw [htrail]
      exact List.mem_append_right _ List.mem_cons_self
    exact ungoverned_post hin rfl hnot hunasked

theorem Answered.ungoverned (h : Answered env o s next) (hmode : s.mode = .m3) (hasked : Unasked s.trail)
    (hsink : s.sinkUrl ≠ []) (hstarts : fetchStartAgentUrl env s.sinkUrl = true) (hother : ¬ AsksSummary env o s) :
    ¬ RequestsGoverned next := by
  cases h with
  | failed _ _ hquiet hfollows hconcluded => exact hconcluded.ungoverned hfollows hquiet hmode hasked hsink hstarts
  | summarized _ _ _ _ hfollows hconcluded =>
    exact hconcluded.ungoverned hfollows (by simp [Deed.Quiet]) hmode hasked hsink hstarts
  | captured _ _ _ hfollows hconcluded =>
    exact hconcluded.ungoverned hfollows (by simp [Deed.Quiet]) hmode hasked hsink hstarts
  | asked _ _ _ hnew => exact absurd (hnew.summary hmode) hother
  | again _ _ _ hnew => exact absurd (hnew.summary hmode) hother

theorem governed_start {deed : Deed} (htrail : a.trail = [deed]) (hdeed : deed.Free) : RequestsGoverned a := by
  rw [requestsGoverned_iff, htrail]
  have hnone : Guarded (fun before request => request.mode ≠ .m0 → Covered before request) (fun _ _ => True) [] :=
    Trace.always_nil
  exact hnone.free (by simpa using hdeed)

/-- A step keeps the requests governed just if it comes to no post of an interpreted task. -/
theorem Step.governed_iff (hstep : Step s event next) (hlively : Lively s) (hpossible : event.Possible s)
    (htidy : Tidy s) (hs : RequestsGoverned s) : RequestsGoverned next ↔ PostsChecked s event := by
  cases hstep with
  | task hline =>
    refine iff_of_true ?_ trivial
    cases hline with
    | ignored => exact hs
    | refused => exact hs
    | started _ _ htrail _ _ hstarted => exact hstarted.governed (governed_start htrail trivial)
  | goal hline =>
    refine iff_of_true ?_ trivial
    cases hline with
    | ignored => exact hs
    | started _ _ htrail _ hstarted => exact hstarted.governed (governed_start htrail trivial)
    | interpreting _ _ htrail _ _ _ hasked => exact hasked.governed (governed_start htrail trivial)
  | fetchDone hended =>
    have hmoded := htidy (hlively.waiting hpossible).active
    constructor
    · intro hgoverned hmode hphase hsink hstarts
      cases hended with
      | interpreted hother =>
        rcases hphase with hphase | hphase
        · cases hother.symm.trans hphase
        · cases hother.symm.trans hphase
      | answered _ hanswered =>
        have hasked : Unasked s.trail := by
          apply hmoded.unasked hmode
          rcases hphase with hphase | hphase <;> simp [hphase]
        by_contra hnone
        exact hanswered.ungoverned hmode hasked hsink hstarts hnone hgoverned
      | posted hother =>
        rcases hphase with hphase | hphase
        · cases hother.symm.trans hphase
        · cases hother.symm.trans hphase
    · exact fun hcond => hended.governed hs hmoded hcond

/-- A run keeps every request of its tasks governed just if no task that a model interpreted comes to a post. -/
theorem requests_governed_iff (h : governedTasks.Allows {} events) :
    governedTasks.Throughout RequestsGoverned {} events ↔ governedTasks.Meets PostsChecked {} events := by
  have hstart : governedTasks.Reachable {} := .init rfl
  have hnone : RequestsGoverned {} := by
    intro before request after heq
    simp at heq
  apply Machine.throughout_iff ?_ hstart hnone h
  intro s event hreach hs hallowed
  obtain ⟨hpossible, hstep⟩ := step_of_allowed hreach hallowed
  exact hstep.governed_iff (reachable_lively hreach) hpossible (reachable_tidy hreach) hs

instance (s : Governed) (event : GoalEvent) : Decidable (governedTasks.allowed s event) :=
  inferInstanceAs (Decidable (_ ∧ _))

/-- The line of a task in mode M1, all of whose requests its policy allows. -/
def taskLine : Bytes := textOf [
  "\x7b\"kind\":\"agent_task\",\"goal_id\":\"g\",\"source_url\":\"http://10.0.2.2/s\",\"sink_url\":\"http://10.0.2.2/k\",",
  "\"model_url\":\"http://10.0.2.2/m\",\"allowed_skills\":[\"fetch_url\",\"call_model\",\"post_result\"],",
  "\"allowed_hosts\":[\"10.0.2.2\"]\x7d"]

def pageReply : FetchOutcome := ⟨true, 200, ⟨ascii "page", false, []⟩, [], by decide⟩

def gatewayReply : FetchOutcome := ⟨true, 200, ⟨ascii "\x7b\"summary\":\"S\"\x7d", false, []⟩, [], by decide⟩

def postReply : FetchOutcome := ⟨true, 200, {}, [], by decide⟩

def taskRun : List GoalEvent :=
  [.task {} taskLine, .fetchDone {} pageReply, .fetchDone {} gatewayReply, .fetchDone {} postReply]

theorem requests_governed_task : governedTasks.Throughout RequestsGoverned {} taskRun := by
  obtain ⟨hallows, hmode⟩ : governedTasks.Allows {} taskRun ∧ governedTasks.Meets (fun s _ => s.mode ≠ .m3) {} taskRun := by
    decide +kernel
  apply (requests_governed_iff hallows).mpr
  apply hmode.mono
  intro s event hother
  cases event with
  | fetchDone env o => exact fun hm3 => absurd hm3 hother
  | _ => trivial

theorem buildOpenaiInterpretationRequestBody_ne (goal : Bytes) : buildOpenaiInterpretationRequestBody goal ≠ [] := by
  have hhead : appendBytes fetchBodyMax [] (ascii "\x7b\"model\":\"") ≠ [] := by decide
  unfold buildOpenaiInterpretationRequestBody
  apply appendBytes_ne
  apply jsonEscapeAppend_ne
  apply appendBytes_ne
  apply jsonEscapeAppend_ne
  apply appendBytes_ne
  exact jsonEscapeAppend_ne hhead _

/-- A goal that a model is asked to interpret. -/
def interpreting (goal : Bytes) : Governed where
  active := true
  mode := .m3
  phase := .interpretGoal
  inFlight := true
  goalId := goalShellId
  goal := goal
  policy := ⟨[], goalDefaultMaxSteps⟩
  trail := [.goal goal, .interpreting (buildOpenaiInterpretationRequestBody goal)]

theorem handleGoalLine_please : handleGoalLine {} (ascii "please") {} = .ok (interpreting (ascii "please")) := by
  have hbody := buildOpenaiInterpretationRequestBody_ne (ascii "please")
  have hstarts : fetchStartAgentUrl {} responsesUrl = true := by
    decide +kernel
  have hshort : (ascii "please").take 768 = ascii "please" := by
    decide
  have hfetch : startsWithFetchGoal (ascii "please") = false := by
    decide +kernel
  unfold handleGoalLine
  rw [if_neg (by decide), if_neg (by decide)]
  dsimp only
  rw [hfetch, if_neg (by decide)]
  unfold startGoalInterpretation startOpenaiInterpretationRequest acceptGoal interpreting
  dsimp only
  rw [hshort, if_neg (by decide), if_neg hbody, if_neg (by decide), if_pos hstarts]
  rfl

theorem governedTasks_handle (event : GoalEvent) (hpossible : event.Possible s) (h : s.handle event = .ok next) :
    governedTasks.allowed s event ∧ governedTasks.step s event = next := by
  change (event.Possible s ∧ (s.handle event).toOption.isSome = true) ∧ (s.handle event).toOption.getD s = next
  rw [h]
  exact ⟨⟨hpossible, rfl⟩, rfl⟩

/-- An interpretation as a summary that is not posted, which names a sink nevertheless. -/
def sinkReply : FetchOutcome := ⟨true, 200, ⟨textOf [
  "\x7b\"status\":\"ok\",\"action\":\"local_summary\",\"source_url\":\"http://e.com/\",",
  "\"sink_url\":\"http://evil.com/x\"\x7d"], false, []⟩, [], by decide⟩

def lostReply : FetchOutcome := ⟨false, 0, {}, [], by decide⟩

def sinkRun : List GoalEvent := [.fetchDone {} sinkReply, .fetchDone {} lostReply]

/-- The policy of the task lists no `post_result`, and its result is posted. -/
theorem ungoverned_sink :
    ¬ ∀ events, governedTasks.Allows {} events → governedTasks.Throughout RequestsGoverned {} events := by
  obtain ⟨hfirst, hstep⟩ := governedTasks_handle (s := {}) (.goal {} (ascii "please")) trivial handleGoalLine_please
  obtain ⟨hrest, hpost, hnone⟩ : governedTasks.Allows (interpreting (ascii "please")) sinkRun ∧
      .requested ⟨.m3, ⟨m3SummaryPolicy, 6⟩, .postResult, ascii "http://evil.com/x",
        ascii "\x7b\"goal_id\":\"goal-shell\",\"status\":\"error\",\"reason\":\"fetch failed\"\x7d"⟩ ∈
          (governedTasks.run (interpreting (ascii "please")) sinkRun).trail ∧
      (governedTasks.run (interpreting (ascii "please")) sinkRun).trail.all (! ·.asksPost) = true := by
    decide +kernel
  have hallows : governedTasks.Allows {} (.goal {} (ascii "please") :: sinkRun) := ⟨hfirst, hstep ▸ hrest⟩
  intro hall
  have hlast := (hall _ hallows).last
  rw [Machine.run_cons, hstep] at hlast
  exact ungoverned_post hpost rfl m3_ne (unasked_of_none hnone) hlast

end Runs

end MiniAgentOS.Agent.Goals
