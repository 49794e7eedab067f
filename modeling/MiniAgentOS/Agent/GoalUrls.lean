import MiniAgentOS.Agent.GoalPolicy
import MiniAgentOS.Text.Members

/-! The URLs that a task contacts are those of the members of its line, or of the reply that interprets it, where these
are read whole. -/
set_option maxRecDepth 4000

namespace MiniAgentOS.Agent.Goals
open Checked Fetch Net Session

section Urls

variable {env : GoalEnv} {o : FetchOutcome} {s mid next a : Governed} {deeds trail : List Deed} {terminal : Terminal}
  {event : GoalEvent} {events : List GoalEvent} {line reply text : Bytes} {request : SkillRequest}

/-- The member that names the URL of a skill. -/
def urlKey : Skill → Bytes
  | .fetchUrl => ascii "source_url"
  | .callModel => ascii "model_url"
  | _ => ascii "sink_url"

/-- The URL of a request is that of its member: of the line with the task, or of the reply that interprets the goal,
which names no model. -/
structure UrlKept (before : List Deed) (request : SkillRequest) : Prop where
  line : ∀ line, .task line ∈ before → MemberIs line (urlKey request.skill) request.url
  reply : ∀ reply text, .interpreted reply text ∈ before → request.skill ≠ .callModel →
    MemberIs reply (urlKey request.skill) request.url

/-- Every URL that a task contacts is kept. -/
def UrlsKept (s : Governed) : Prop := ∀ before request after,
  s.trail = before ++ .requested request :: after → UrlKept before request

/-- If a URL is read in the text, it is that of the member of the document, whole. -/
def ReadsUrl (text doc key : Bytes) : Prop :=
  ∀ url, jsonExtractString text text.length key agentUrlLen = .ok (some url) → ReadsMember text doc key agentUrlLen

/-- The URLs of a line, of which a task of the first kind has no model. -/
structure ReadsLine (line : Bytes) : Prop where
  source : ReadsUrl line line (ascii "source_url")
  sink : ReadsUrl line line (ascii "sink_url")
  model : jsonExtractString line line.length (ascii "kind") 64 ≠ .ok (some (ascii "fetch_summarize_post")) →
    ReadsUrl line line (ascii "model_url")

/-- The URLs of a reply, which are read in the front of it. -/
structure ReadsReply (text reply : Bytes) : Prop where
  source : ReadsUrl text reply (ascii "source_url")
  sink : ReadsUrl text reply (ascii "sink_url")

/-- The lines and the replies whose URLs are read whole. -/
def ReadsUrls (s : Governed) : GoalEvent → Prop
  | .task _ line => ReadsLine line
  | .fetchDone _ o => s.phase = .interpretGoal → ∀ text reply, interpretationText 1024 o = .ok text →
      interpretationText agentResponseBodyLen o = .ok reply → ReadsReply text reply
  | _ => True

theorem urlsKept_iff (s : Governed) : UrlsKept s ↔ Guarded UrlKept (fun _ _ => True) s.trail := by
  constructor
  · intro h before deed after heq
    cases deed with
    | requested request => exact h before request after heq
    | _ => trivial
  · exact fun h before request after heq => h before _ after heq

/-- A deed that brings no URLs. -/
def Deed.Plain : Deed → Prop
  | .task _ | .interpreted _ _ => False
  | _ => True

theorem Deed.Quiet.plain {deed : Deed} (h : deed.Quiet) : deed.Plain := by
  cases deed with
  | task line => exact h
  | interpreted reply text => exact h
  | _ => trivial

theorem mem_of_plain {deed : Deed} (hin : deed ∈ trail ++ deeds) (hplain : ∀ deed ∈ deeds, deed.Plain)
    (hdeed : ¬ deed.Plain) : deed ∈ trail := by
  rcases List.mem_append.mp hin with hold | hnew
  · exact hold
  · exact absurd (hplain deed hnew) hdeed

/-- The URLs of the line of a task. -/
structure LineKept (line : Bytes) (s : Governed) : Prop where
  mode : s.mode = .m0 ∨ s.mode = .m1
  source : MemberIs line (ascii "source_url") s.sourceUrl
  sink : MemberIs line (ascii "sink_url") s.sinkUrl
  model : s.mode = .m1 → MemberIs line (ascii "model_url") s.modelUrl

/-- The URLs of the reply for a goal. -/
structure ReplyKept (reply : Bytes) (s : Governed) : Prop where
  source : MemberIs reply (ascii "source_url") s.sourceUrl
  sink : s.sinkUrl ≠ [] → MemberIs reply (ascii "sink_url") s.sinkUrl

/-- A task goes by the URLs that it was given. -/
structure Kept (s : Governed) : Prop where
  line : ∀ line, .task line ∈ s.trail → LineKept line s
  reply : ∀ reply text, .interpreted reply text ∈ s.trail → ReplyKept reply s

theorem Follows.kept (h : Follows s deeds next) (hs : Kept s) (hplain : ∀ deed ∈ deeds, deed.Plain) : Kept next := by
  have hmode := h.mode
  have hsource : next.sourceUrl = s.sourceUrl := congrArg Plan.sourceUrl h.plan
  have hmodel : next.modelUrl = s.modelUrl := congrArg Plan.modelUrl h.plan
  have hsink := h.sinkUrl
  constructor
  · intro line hin
    rw [h.trail] at hin
    have hline := hs.line line (mem_of_plain hin hplain id)
    refine ⟨?_, ?_, ?_, ?_⟩
    · rw [hmode]
      exact hline.mode
    · rw [hsource]
      exact hline.source
    · rw [hsink]
      exact hline.sink
    · rw [hmode, hmodel]
      exact hline.model
  · intro reply text hin
    rw [h.trail] at hin
    have hreply := hs.reply reply text (mem_of_plain hin hplain id)
    constructor
    · rw [hsource]
      exact hreply.source
    · rw [hsink]
      exact hreply.sink

theorem kept_of_plain (h : ∀ deed ∈ s.trail, deed.Plain) : Kept s where
  line _ hin := (h _ hin).elim
  reply _ _ hin := (h _ hin).elim

theorem Kept.urlKept_source (hs : Kept s) (hplain : ∀ deed ∈ deeds, deed.Plain) (body : Bytes) :
    UrlKept (s.trail ++ deeds) ⟨s.mode, s.policy, .fetchUrl, s.sourceUrl, body⟩ where
  line line hin := (hs.line line (mem_of_plain hin hplain id)).source
  reply reply text hin _ := (hs.reply reply text (mem_of_plain hin hplain id)).source

theorem Kept.urlKept_sink (hs : Kept s) (hplain : ∀ deed ∈ deeds, deed.Plain) (hsink : s.sinkUrl ≠ []) (body : Bytes) :
    UrlKept (s.trail ++ deeds) ⟨s.mode, s.policy, .postResult, s.sinkUrl, body⟩ where
  line line hin := (hs.line line (mem_of_plain hin hplain id)).sink
  reply reply text hin _ := (hs.reply reply text (mem_of_plain hin hplain id)).sink hsink

theorem Kept.urlKept_model {url : Bytes} (hs : Kept s) (hplain : ∀ deed ∈ deeds, deed.Plain)
    (hmode : s.mode = .m1 ∨ s.mode = .m3) (hurl : s.mode = .m1 → url = s.modelUrl) (body : Bytes) :
    UrlKept (s.trail ++ deeds) ⟨s.mode, s.policy, .callModel, url, body⟩ where
  line line hin := by
    have hline := hs.line line (mem_of_plain hin hplain id)
    have hm1 : s.mode = .m1 := by
      rcases hmode with hm1 | hm3
      · exact hm1
      · rcases hline.mode with hm0 | hm1
        · cases hm3.symm.trans hm0
        · exact hm1
    rw [hurl hm1]
    exact hline.model hm1
  reply _ _ _ hskill := absurd rfl hskill

theorem plain_postChecks (s : Governed) : ∀ deed ∈ postChecks s, deed.Plain := by
  unfold postChecks
  split_ifs
  · simp [Deed.Plain]
  · simp

theorem plain_append (hdeeds : ∀ deed ∈ deeds, deed.Plain) (htrail : ∀ deed ∈ trail, deed.Plain) :
    ∀ deed ∈ deeds ++ trail, deed.Plain := List.forall_mem_append.mpr ⟨hdeeds, htrail⟩

/-- A task goes by the URLs that it was given, and has none before its goal is interpreted. -/
structure Going (s : Governed) : Prop where
  kept : Kept s
  plain : s.phase = .interpretGoal → ∀ deed ∈ s.trail, deed.Plain

/-- The URLs that were contacted are kept, and a task that is on goes by its own. -/
structure Contacts (s : Governed) : Prop where
  kept : UrlsKept s
  going : s.active = true → Going s

theorem contacts_closed (h : UrlsKept (closed s deeds)) : Contacts (closed s deeds) := ⟨h, nofun⟩

theorem going_of_phase (h : Kept s) (hphase : s.phase ≠ .interpretGoal) : Going s := ⟨h, fun h => absurd h hphase⟩

/-- A conclusion keeps the URLs of the task. -/
theorem Concluded.going (h : Concluded env terminal mid next) (hmid : Kept mid) : next.active = true → Going next := by
  intro hactive
  cases h with
  | shown => cases hactive
  | denied => cases hactive
  | unstarted => cases hactive
  | posted _ _ _ hphase _ _ hfollows =>
    have hnew : ∀ body, ∀ deed ∈ [Deed.requested ⟨mid.mode, mid.policy, .postResult, mid.sinkUrl, body⟩],
        deed.Plain := by
      simp [Deed.Plain]
    apply going_of_phase (hfollows.kept hmid (plain_append (plain_postChecks mid) (hnew _)))
    simp [hphase]

theorem Started.contacts (h : Started env a next) (ha : UrlsKept a) (hkept : Kept a) : Contacts next := by
  have hchecks : ∀ deed ∈ plannedDeed a :: sourceChecks a, deed.Plain := by
    unfold sourceChecks plannedDeed
    split_ifs
    · simp [Deed.Plain]
    · simp [Deed.Plain]
  constructor
  · rw [urlsKept_iff] at ha ⊢
    apply h.guarded ha
    · exact fun _ _ _ => trivial
    · exact fun _ => hkept.urlKept_source hchecks []
    · intro deeds body hquiet _ hsink _
      rw [List.append_assoc]
      exact hkept.urlKept_sink (plain_append (fun deed hdeed => (hquiet deed hdeed).plain) (plain_postChecks a)) hsink body
  · intro hactive
    cases h with
    | fetching _ hphase _ hfollows =>
      have hnew : ∀ deed ∈ [Deed.requested ⟨a.mode, a.policy, .fetchUrl, a.sourceUrl, []⟩], deed.Plain := by
        simp [Deed.Plain]
      apply going_of_phase (hfollows.kept hkept (plain_append hchecks hnew))
      simp [hphase]
    | failed _ _ hquiet hfollows hconcluded =>
      exact hconcluded.going (hfollows.kept hkept fun deed hdeed => (hquiet deed hdeed).plain) hactive
    | shown => cases hactive

theorem Answered.contacts (h : Answered env o s next) (hs : UrlsKept s) (hkept : Kept s) : Contacts next := by
  have hpost : ∀ (deeds : List Deed) body, (∀ deed ∈ deeds, deed.Quiet) → s.sinkUrl ≠ [] →
      UrlKept (s.trail ++ deeds ++ postChecks s) ⟨s.mode, s.policy, .postResult, s.sinkUrl, body⟩ := by
    intro deeds body hquiet hsink
    rw [List.append_assoc]
    exact hkept.urlKept_sink (plain_append (fun deed hdeed => (hquiet deed hdeed).plain) (plain_postChecks s)) hsink body
  constructor
  · rw [urlsKept_iff] at hs ⊢
    apply h.guarded hs
    · exact fun _ _ _ => trivial
    · intro mid hcompletes hconcluded
      obtain ⟨deeds, hquiet, hfollows⟩ := hcompletes.quiet
      exact hconcluded.guarded_behind hfollows hs hquiet (fun _ => trivial)
        fun body hsink _ => hpost deeds body hquiet hsink
    · exact fun deeds body hquiet _ hsink _ => hpost deeds body hquiet hsink
    · intro skill url body hasked
      exact hkept.urlKept_model (by simp [Deed.Plain]) hasked.mode hasked.target body
  · intro hactive
    cases h with
    | failed _ _ hquiet hfollows hconcluded =>
      exact hconcluded.going (hfollows.kept hkept fun deed hdeed => (hquiet deed hdeed).plain) hactive
    | summarized _ _ _ _ hfollows hconcluded =>
      exact hconcluded.going (hfollows.kept hkept (by simp [Deed.Plain])) hactive
    | captured _ _ _ hfollows hconcluded =>
      exact hconcluded.going (hfollows.kept hkept (by simp [Deed.Plain])) hactive
    | asked _ _ _ hasked hfollows =>
      apply going_of_phase (hfollows.kept hkept (by simp [Deed.Plain]))
      simp [hasked.phase]
    | again _ _ _ hasked hfollows =>
      apply going_of_phase (hfollows.kept hkept (by simp [Deed.Plain]))
      simp [hasked.phase]

theorem contacts_start {deed : Deed} (htrail : a.trail = [deed]) (hdeed : deed.Free) : UrlsKept a := by
  rw [urlsKept_iff, htrail]
  have hnone : Guarded UrlKept (fun _ _ => True) [] := Trace.always_nil
  exact hnone.free (by simpa using hdeed)

/-- Deeds that start nothing keep the URLs. -/
theorem UrlsKept.free (h : UrlsKept s) (htrail : next.trail = s.trail ++ deeds) (hfree : ∀ deed ∈ deeds, deed.Free) :
    UrlsKept next := by
  rw [urlsKept_iff] at h ⊢
  rw [htrail]
  exact Guarded.free h hfree

theorem UrlsKept.closed (h : UrlsKept s) (hfree : ∀ deed ∈ deeds, deed.Free) (terminal : Terminal) :
    UrlsKept (Goals.closed s (deeds ++ [.ended terminal])) := by
  rw [urlsKept_iff] at h ⊢
  exact Guarded.finish h hfree trivial

/-- A goal without URLs that goes on to be interpreted. -/
theorem contacts_interpreting (h : UrlsKept s) (hplain : ∀ deed ∈ s.trail, deed.Plain) {body : Bytes}
    (hfollows : Follows s [.interpreting body] next) : Contacts next := by
  have hnext : ∀ deed ∈ next.trail, deed.Plain := by
    rw [hfollows.trail]
    exact plain_append hplain (by simp [Deed.Plain])
  exact ⟨h.free hfollows.trail (by simp [Deed.Free]), fun _ => ⟨kept_of_plain hnext, fun _ => hnext⟩⟩

theorem InterpretAsked.contacts (h : InterpretAsked s next) (hs : UrlsKept s) (hplain : ∀ deed ∈ s.trail, deed.Plain) :
    Contacts next := by
  cases h with
  | asked _ _ _ hfollows => exact contacts_interpreting hs hplain hfollows
  | failed => exact contacts_closed (hs.closed no_deeds_free _)

/-- The URLs of a reply that is read whole. -/
theorem PlanRead.kept (h : PlanRead text s mid) (hreads : ReadsReply text reply) : ReplyKept reply mid where
  source := (hreads.source _ h.urls.source).extract h.urls.source
  sink hsink := (hreads.sink _ (h.urls.sink hsink)).extract (h.urls.sink hsink)

theorem InterpretDone.contacts (h : InterpretDone env o s next) (hs : UrlsKept s) (hplain : ∀ deed ∈ s.trail, deed.Plain)
    (hread : ∀ text reply, interpretationText 1024 o = .ok text → interpretationText agentResponseBodyLen o = .ok reply →
      ReadsReply text reply) : Contacts next := by
  cases h with
  | again _ _ _ _ hfollows => exact contacts_interpreting hs hplain hfollows
  | failed _ hinterpreted =>
    apply contacts_closed
    apply hs.closed
    intro deed hdeed
    obtain ⟨reply, text, rfl⟩ := hinterpreted deed hdeed
    trivial
  | planned htext hreply hplan hstarted =>
    rename_i reply text mid
    have htrail : mid.trail = s.trail ++ [.interpreted reply text] := hplan.trail
    have hurls : ReplyKept reply mid := hplan.kept (hread text reply htext hreply)
    apply hstarted.contacts
    · exact hs.free htrail (by simp [Deed.Free])
    · constructor
      · intro line hin
        have hin : .task line ∈ s.trail ++ [.interpreted reply text] := htrail ▸ hin
        rcases List.mem_append.mp hin with hold | hnew
        · exact (hplain _ hold).elim
        · cases List.mem_singleton.mp hnew
      · intro other front hin
        have hin : .interpreted other front ∈ s.trail ++ [.interpreted reply text] := htrail ▸ hin
        rcases List.mem_append.mp hin with hold | hnew
        · exact (hplain _ hold).elim
        · cases List.mem_singleton.mp hnew
          exact ⟨hurls.source, hurls.sink⟩

/-- The URLs of a line that is read whole. -/
theorem TaskUrls.kept (h : TaskUrls line a) (hmode : a.mode = .m0 ∨ a.mode = .m1) (hreads : ReadsLine line) :
    LineKept line a where
  mode := hmode
  source := (hreads.source _ h.source).extract h.source
  sink := (hreads.sink _ h.sink).extract h.sink
  model hm1 := (hreads.model (h.kind hm1) _ (h.model hm1)).extract (h.model hm1)

theorem FetchEnded.contacts (h : FetchEnded env o s next) (hwaiting : Waiting s) (hs : Contacts s)
    (hread : ReadsUrls s (.fetchDone env o)) : Contacts next := by
  have hgoing := hs.going hwaiting.active
  cases h with
  | interpreted hphase hdone => exact hdone.contacts hs.kept (hgoing.plain hphase) (hread hphase)
  | answered _ hanswered => exact hanswered.contacts hs.kept hgoing.kept
  | posted =>
    have hfree : ∀ deed ∈ [Deed.answered .postResult o.ok o.status], deed.Free := by simp [Deed.Free]
    apply contacts_closed
    exact hs.kept.closed hfree _

theorem Step.contacts (hstep : Step s event next) (hlively : Lively s) (hpossible : event.Possible s) (hs : Contacts s)
    (hread : ReadsUrls s event) : Contacts next := by
  have hgoal {a : Governed} {line : Bytes} (htrail : a.trail = [.goal line]) :
      UrlsKept a ∧ ∀ deed ∈ a.trail, deed.Plain := by
    refine ⟨contacts_start htrail trivial, ?_⟩
    rw [htrail]
    simp [Deed.Plain]
  cases hstep with
  | task hline =>
    cases hline with
    | ignored => exact hs
    | refused => exact ⟨hs.kept, nofun⟩
    | started _ _ htrail hmode hurls hstarted =>
      rename_i line a
      apply hstarted.contacts (contacts_start htrail trivial)
      constructor
      · intro other hin
        rw [htrail, List.mem_singleton] at hin
        cases hin
        exact hurls.kept hmode hread
      · intro reply text hin
        rw [htrail, List.mem_singleton] at hin
        cases hin
  | goal hline =>
    cases hline with
    | ignored => exact hs
    | started _ _ htrail _ hstarted =>
      obtain ⟨hurls, hplain⟩ := hgoal htrail
      exact hstarted.contacts hurls (kept_of_plain hplain)
    | interpreting _ _ htrail _ _ _ hasked =>
      obtain ⟨hurls, hplain⟩ := hgoal htrail
      exact hasked.contacts hurls hplain
  | fetchDone hended => exact hended.contacts (hlively.waiting hpossible) hs hread

/-- A run that reads the URLs of its tasks whole contacts no others. -/
theorem urls_kept (h : governedTasks.Allows {} events) (hread : governedTasks.Meets ReadsUrls {} events) :
    governedTasks.Throughout UrlsKept {} events := by
  have hstart : governedTasks.Reachable {} := .init rfl
  have hnone : UrlsKept {} := by
    intro before request after heq
    simp at heq
  have hall : governedTasks.Throughout Contacts {} events := by
    apply Machine.Meets.throughout ?_ hread hstart ⟨hnone, nofun⟩ h
    intro s event hreach hs hallowed hcond
    obtain ⟨hpossible, hstep⟩ := step_of_allowed hreach hallowed
    exact hstep.contacts (reachable_lively hreach) hpossible hs hcond
  exact hall.mono fun _ hs => hs.kept

end Urls

section Lines

variable {s : Governed} {line : Bytes} {request : SkillRequest}

/-- The line of a task in mode M0, for a source. -/
def summaryLine (source : Bytes) : Bytes := plainObject [(ascii "kind", ascii "fetch_summarize_post"),
  (ascii "goal_id", ascii "g"), (ascii "source_url", source), (ascii "sink_url", ascii "http://10.0.2.2/k")]

def pageUrl : Bytes := ascii "http://10.0.2.2/s"

theorem memberIs_summaryLine {source key v : Bytes} (h : PlainBytes source)
    (hin : (key, v) ∈ [(ascii "kind", ascii "fetch_summarize_post"), (ascii "goal_id", ascii "g"),
      (ascii "source_url", source), (ascii "sink_url", ascii "http://10.0.2.2/k")]) :
    MemberIs (summaryLine source) key v := by
  apply memberIs_plain ?_ ?_ hin
  · simp only [List.forall_mem_cons]
    exact ⟨by decide +kernel, by decide +kernel, ⟨by decide +kernel, h⟩, by decide +kernel, by simp⟩
  · simp only [List.map_cons, List.map_nil]
    decide +kernel

def summaryRun : List GoalEvent := [.fetchDone {} pageReply, .fetchDone {} postReply]

/-- A fetch that ends in another phase than that of the interpretation. -/
def endsTask (s : Governed) : GoalEvent → Bool
  | .fetchDone _ _ => s.phase ≠ .interpretGoal
  | _ => false

theorem urls_kept_summary : governedTasks.Throughout UrlsKept {} (.task {} (summaryLine pageUrl) :: summaryRun) := by
  obtain ⟨hallows, hends⟩ : governedTasks.Allows {} (.task {} (summaryLine pageUrl) :: summaryRun) ∧
      governedTasks.Meets (fun s event => endsTask s event = true)
        (governedTasks.step {} (.task {} (summaryLine pageUrl))) summaryRun := by
    decide +kernel
  have hkind : jsonExtractString (summaryLine pageUrl) (summaryLine pageUrl).length (ascii "kind") 64 =
      .ok (some (ascii "fetch_summarize_post")) := by
    decide +kernel
  have hsource : stringBehind (summaryLine pageUrl) (ascii "source_url") = pageUrl := by
    decide +kernel
  have hsink : stringBehind (summaryLine pageUrl) (ascii "sink_url") = ascii "http://10.0.2.2/k" := by
    decide +kernel
  have hplain : PlainBytes pageUrl := by
    decide
  have hline : ReadsLine (summaryLine pageUrl) := by
    refine ⟨fun _ _ => ⟨?_, ?_⟩, fun _ _ => ⟨?_, ?_⟩, fun hother => absurd hkind hother⟩
    · rw [hsource]
      exact memberIs_summaryLine hplain (by simp)
    · rw [hsource]
      decide
    · rw [hsink]
      exact memberIs_summaryLine hplain (by simp)
    · rw [hsink]
      decide
  apply urls_kept hallows
  refine ⟨hline, hends.mono ?_⟩
  intro s event hevent
  cases event with
  | fetchDone env o =>
    intro hphase
    simp [endsTask, hphase] at hevent
  | _ => cases hevent

/-- A URL of 266 bytes. -/
def longUrl : Bytes := ascii "http://10.0.2.2/" ++ List.replicate 250 97

theorem not_urlsKept_of_head (hhead : s.trail.head? = some (.task line)) (hin : .requested request ∈ s.trail)
    (hnot : ¬ MemberIs line (urlKey request.skill) request.url) : ¬ UrlsKept s := by
  intro hkept
  obtain ⟨before, after, htrail⟩ := List.append_of_mem hin
  apply hnot
  apply (hkept before request after htrail).line
  rw [htrail] at hhead
  cases before with
  | nil => cases hhead
  | cons deed before =>
    obtain rfl := Option.some.inj hhead
    exact List.mem_cons_self

/-- The source that is contacted ends where the buffer of the URL does. -/
theorem long_url_cut :
    ¬ ∀ events, governedTasks.Allows {} events → governedTasks.Throughout UrlsKept {} events := by
  have hsent : governedTasks.Allows {} [.task {} (summaryLine longUrl)] ∧
      (governedTasks.run {} [.task {} (summaryLine longUrl)]).trail.head? = some (.task (summaryLine longUrl)) ∧
      .requested ⟨.m0, ⟨[], 0⟩, .fetchUrl, longUrl.take 256, []⟩ ∈
        (governedTasks.run {} [.task {} (summaryLine longUrl)]).trail := by
    decide +kernel
  have hplain : backslash ∉ summaryLine longUrl := by
    decide +kernel
  have hcut : ¬ quote :: longUrl.take 256 ++ [quote] <:+: summaryLine longUrl := by
    decide +kernel
  intro hall
  exact not_urlsKept_of_head hsent.2.1 hsent.2.2 (fun h => hcut (h.inside hplain)) (hall _ hsent.1).last

end Lines

end MiniAgentOS.Agent.Goals
