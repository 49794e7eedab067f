import MiniAgentOS.Agent.GoalPolicy

/-! Which tasks are said to be completed. Every task has one terminal event, but a task whose source came with an error,
and one whose result was not posted, are completed as well. -/
set_option maxRecDepth 4000

namespace MiniAgentOS.Agent.Goals
open Checked Fetch Net Session

section Left

variable {env : GoalEnv} {o : FetchOutcome} {s mid next a : Governed} {deeds : List Deed} {terminal : Terminal}
  {event : GoalEvent} {events : List GoalEvent}

/-- How many fetches of a task may still end. -/
def fetchesLeft (s : Governed) : ℕ :=
  if s.active then
    match s.phase with
    | .interpretGoal => 5 + (agentOpenaiMaxRetries - s.interpretRetries)
    | .fetchSource => 4
    | .callModel => 2 + (agentOpenaiMaxRetries - s.summaryRetries)
    | .postResult => 1
    | _ => 0
  else 0

theorem fetchesLeft_closed (s : Governed) (deeds : List Deed) : fetchesLeft (closed s deeds) = 0 := rfl

theorem fetchesLeft_le (s : Governed) : fetchesLeft s ≤ 6 := by
  unfold fetchesLeft agentOpenaiMaxRetries
  split_ifs
  · split <;> omega
  · omega

theorem Concluded.left (h : Concluded env terminal s next) : fetchesLeft next ≤ 1 := by
  cases h with
  | shown => exact Nat.zero_le _
  | denied => exact Nat.zero_le _
  | unstarted => exact Nat.zero_le _
  | posted _ _ _ hphase =>
    unfold fetchesLeft
    rw [hphase]
    split_ifs <;> simp

theorem Started.left (h : Started env a next) : fetchesLeft next ≤ 4 := by
  cases h with
  | fetching _ hphase =>
    unfold fetchesLeft
    rw [hphase]
    split_ifs <;> simp
  | failed _ _ _ _ hconcluded => exact hconcluded.left.trans (by omega)
  | shown => exact Nat.zero_le _

theorem AskedModel.left {url body : Bytes} (h : AskedModel env o s url body next) :
    fetchesLeft next ≤ 2 + (agentOpenaiMaxRetries - next.summaryRetries) := by
  unfold fetchesLeft
  rw [h.phase]
  split_ifs
  · exact le_rfl
  · exact Nat.zero_le _

theorem Answered.left (h : Answered env o s next) (hactive : s.active = true)
    (hphase : s.phase = .fetchSource ∨ s.phase = .callModel) : fetchesLeft next < fetchesLeft s := by
  have hleft : 2 ≤ fetchesLeft s := by
    unfold fetchesLeft
    rw [if_pos hactive]
    rcases hphase with hphase | hphase
    · rw [hphase]
      simp
    · rw [hphase]
      simp
  cases h with
  | failed _ _ _ _ hconcluded => exact hconcluded.left.trans_lt hleft
  | summarized _ _ _ _ _ hconcluded => exact hconcluded.left.trans_lt hleft
  | captured _ _ _ _ hconcluded => exact hconcluded.left.trans_lt hleft
  | asked hsource _ _ hasked =>
    have hnext := hasked.left
    have hs : fetchesLeft s = 4 := by
      unfold fetchesLeft
      rw [if_pos hactive, hsource]
    unfold agentOpenaiMaxRetries at hnext
    omega
  | again hmodel hretries hbelow hasked =>
    have hnext := hasked.left
    have hs : fetchesLeft s = 2 + (agentOpenaiMaxRetries - s.summaryRetries) := by
      unfold fetchesLeft
      rw [if_pos hactive, hmodel]
    rw [hretries] at hnext
    unfold agentOpenaiMaxRetries at *
    omega

theorem InterpretDone.left (h : InterpretDone env o s next) (hactive : s.active = true)
    (hphase : s.phase = .interpretGoal) : fetchesLeft next < fetchesLeft s := by
  have hs : fetchesLeft s = 5 + (agentOpenaiMaxRetries - s.interpretRetries) := by
    unfold fetchesLeft
    rw [if_pos hactive, hphase]
  cases h with
  | again hagain _ hretries hbelow =>
    have hnext : fetchesLeft next ≤ 5 + (agentOpenaiMaxRetries - next.interpretRetries) := by
      unfold fetchesLeft
      rw [hagain]
      split_ifs
      · exact le_rfl
      · exact Nat.zero_le _
    rw [hretries] at hnext
    unfold agentOpenaiMaxRetries at *
    omega
  | failed =>
    rw [fetchesLeft_closed, hs]
    omega
  | planned _ _ _ hstarted =>
    have hnext := hstarted.left
    omega

/-- Every end of a fetch leaves fewer. -/
theorem FetchEnded.left (h : FetchEnded env o s next) (hactive : s.active = true) : fetchesLeft next < fetchesLeft s := by
  cases h with
  | interpreted hphase hdone => exact hdone.left hactive hphase
  | answered hphase hanswered => exact hanswered.left hactive hphase
  | posted hphase =>
    rw [fetchesLeft_closed]
    unfold fetchesLeft
    rw [if_pos hactive, hphase]
    exact Nat.zero_lt_one

def GoalEvent.EndsFetch : GoalEvent → Prop
  | .fetchDone _ _ => True
  | _ => False

theorem length_le_fetchesLeft (h : governedTasks.Reachable s) (hends : ∀ event ∈ events, event.EndsFetch)
    (hallowed : governedTasks.Allows s events) : events.length ≤ fetchesLeft s := by
  induction events generalizing s with
  | nil => exact Nat.zero_le _
  | cons event events ih =>
    obtain ⟨hfirst, hrest⟩ := hallowed
    obtain ⟨hevent, hends⟩ := List.forall_mem_cons.mp hends
    have hrestLength := ih (h.step hfirst) hends hrest
    obtain ⟨hpossible, hstep⟩ := step_of_allowed h hfirst
    have hlively := reachable_lively h
    cases event with
    | fetchDone env o =>
      cases hstep with
      | fetchDone hended =>
        have hless := hended.left (hlively.waiting hpossible).active
        rw [List.length_cons]
        omega
    | _ => exact hevent.elim

end Left

section Honest

variable {env : GoalEnv} {o : FetchOutcome} {s mid next a : Governed} {deeds trail : List Deed} {terminal : Terminal}
  {event : GoalEvent} {events : List GoalEvent}

/-- An answer of the second hundred. -/
def Good (status : ℕ) : Prop := 200 ≤ status ∧ status < 300

def SourceCame (trail : List Deed) : Prop := ∃ status, Good status ∧ .answered .fetchUrl true status ∈ trail

def Deed.asksModel : Deed → Bool
  | .requested request => request.skill = .callModel
  | _ => false

def ModelAsked (trail : List Deed) : Prop := ∃ deed ∈ trail, deed.asksModel = true

/-- A model that was asked answered with a summary. -/
def ModelCame (trail : List Deed) : Prop := ModelAsked trail →
  ∃ status text, Good status ∧ [.answered .callModel true status, .summarized text] <:+: trail

/-- What is planned with a sink is posted there. -/
def ResultCame (trail : List Deed) : Prop := ∀ mode source model sink, .planned mode source model sink ∈ trail →
  sink ≠ [] → ∃ status, Good status ∧ .answered .postResult true status ∈ trail

/-- What a task has behind it that is completed. -/
structure Done (trail : List Deed) : Prop where
  source : SourceCame trail
  model : ModelCame trail
  result : ResultCame trail

/-- A task that is on has no terminal event, and one that is over has one; no more than six fetches end before that;
and the task is completed only if all of it is done. -/
structure Accounted (s : Governed) : Prop where
  on : s.active = true → s.inFlight = true ∧ ends s.trail = 0
  off : s.active = false → s.trail = [] ∨ ends s.trail = 1
  finite : ∀ events, (∀ event ∈ events, event.EndsFetch) → governedTasks.Allows s events → events.length ≤ 6
  completed : ∀ before after, s.trail = before ++ .ended .completed :: after → Done before

/-- The end of a fetch behind which a task is not completed by mistake: an answer with the source is of the second
hundred, the post of a result starts, and its answer is of the second hundred. -/
structure Faithful (env : GoalEnv) (o : FetchOutcome) (s : Governed) : Prop where
  source : s.phase = .fetchSource → s.mode ≠ .m1 → o.ok = true → o.success = true
  starts : Finishes env o s → s.sinkUrl ≠ [] → PostStarts env s
  posts : s.phase = .postResult → s.terminal = some .completed → o.success = true

def EndsFaithfully (s : Governed) : GoalEvent → Prop
  | .fetchDone env o => Faithful env o s
  | _ => True

def Truthful (trail : List Deed) : Prop :=
  Guarded (fun _ _ => True) (fun before terminal => terminal = .completed → Done before) trail

def Deed.isPlan : Deed → Bool
  | .planned _ _ _ _ => true
  | _ => false

def Unplanned (trail : List Deed) : Prop := ∀ deed ∈ trail, deed.isPlan = false

/-- The task goes by what was planned. -/
def Sinks (s : Governed) : Prop := ∀ mode source model sink, .planned mode source model sink ∈ s.trail → sink = s.sinkUrl

/-- What holds of a task that may be completed yet. -/
structure Honest (s : Governed) : Prop where
  unplanned : s.phase = .interpretGoal → Unplanned s.trail
  sinks : Sinks s
  unasked : s.phase = .interpretGoal ∨ s.phase = .fetchSource → ¬ ModelAsked s.trail
  source : s.phase = .callModel ∨ s.phase = .postResult → SourceCame s.trail
  model : s.phase = .postResult → ModelCame s.trail

/-- A task that is on, and whose post, if it comes to one, is that of a summary. -/
def OnCourse (s : Governed) : Prop := s.active = true ∧ (s.phase = .postResult → s.terminal = some .completed)

theorem good_of_success (h : o.success = true) : o.ok = true ∧ Good o.status := by
  unfold FetchOutcome.success at h
  simpa [Good] using h

theorem SourceCame.append (h : SourceCame trail) (deeds : List Deed) : SourceCame (trail ++ deeds) := by
  obtain ⟨status, hgood, hin⟩ := h
  exact ⟨status, hgood, List.mem_append_left _ hin⟩

theorem sourceCame_of_success (h : o.success = true) (hin : .answered .fetchUrl o.ok o.status ∈ trail) :
    SourceCame trail := by
  obtain ⟨hok, hgood⟩ := good_of_success h
  rw [hok] at hin
  exact ⟨o.status, hgood, hin⟩

theorem modelAsked_append : ModelAsked (trail ++ deeds) ↔ ModelAsked trail ∨ ModelAsked deeds := by
  simp only [ModelAsked, List.mem_append, or_and_right, exists_or]

theorem ModelCame.append (h : ModelCame trail) (hdeeds : ¬ ModelAsked deeds) : ModelCame (trail ++ deeds) := by
  intro hasked
  obtain ⟨status, text, hgood, hin⟩ := h ((modelAsked_append.mp hasked).resolve_right hdeeds)
  exact ⟨status, text, hgood, hin.trans (List.prefix_append trail deeds).isInfix⟩

theorem Unplanned.append (h : Unplanned trail) (hdeeds : Unplanned deeds) : Unplanned (trail ++ deeds) :=
  List.forall_mem_append.mpr ⟨h, hdeeds⟩

/-- Deeds without a plan leave the sink that was planned. -/
theorem Follows.sinks (h : Follows s deeds next) (hs : Sinks s) (hdeeds : Unplanned deeds) : Sinks next := by
  intro mode source model sink hin
  rw [h.trail, List.mem_append] at hin
  rw [h.sinkUrl]
  rcases hin with hin | hin
  · exact hs mode source model sink hin
  · cases hdeeds _ hin

theorem Unplanned.sinks (h : Unplanned s.trail) : Sinks s := by
  intro mode source model sink hin
  cases h _ hin

theorem postChecks_plain (s : Governed) : Unplanned (postChecks s) ∧ ¬ ModelAsked (postChecks s) := by
  unfold postChecks
  split_ifs
  · simp [Unplanned, ModelAsked, Deed.isPlan, Deed.asksModel]
  · simp [Unplanned, ModelAsked]

/-- A task that ends otherwise is not on its course. -/
theorem Concluded.off_course (h : Concluded env terminal mid next) (hterminal : terminal ≠ .completed) :
    ¬ OnCourse next := by
  intro hcourse
  cases h with
  | shown => cases hcourse.1
  | denied => cases hcourse.1
  | unstarted => cases hcourse.1
  | posted _ _ _ hphase _ hnext =>
    have hcompleted := hnext.symm.trans (hcourse.2 hphase)
    exact hterminal (Option.some.inj hcompleted)

/-- The post of a result. -/
theorem Concluded.honest (h : Concluded env terminal mid next) (hsinks : Sinks mid) (hsource : SourceCame mid.trail)
    (hmodel : ModelCame mid.trail) : OnCourse next → Honest next := by
  intro hcourse
  cases h with
  | shown => cases hcourse.1
  | denied => cases hcourse.1
  | unstarted => cases hcourse.1
  | posted hsink hallowed hstarts hphase hflight hterminal hfollows =>
    rename_i body
    obtain ⟨hplain, hquiet⟩ := postChecks_plain mid
    have hunplanned : Unplanned (postChecks mid ++
        [.requested ⟨mid.mode, mid.policy, .postResult, mid.sinkUrl, body⟩]) := by
      apply hplain.append
      simp [Unplanned, Deed.isPlan]
    have hunasked : ¬ ModelAsked (postChecks mid ++
        [.requested ⟨mid.mode, mid.policy, .postResult, mid.sinkUrl, body⟩]) := by
      rw [modelAsked_append, not_or]
      exact ⟨hquiet, by simp [ModelAsked, Deed.asksModel]⟩
    refine ⟨?_, hfollows.sinks hsinks hunplanned, ?_, ?_, ?_⟩
    · simp [hphase]
    · simp [hphase]
    · intro _
      rw [hfollows.trail]
      exact hsource.append _
    · intro _
      rw [hfollows.trail]
      exact hmodel.append hunasked

theorem Started.honest (h : Started env a next) (hplain : Unplanned a.trail) (hquiet : ¬ ModelAsked a.trail) :
    OnCourse next → Honest next := by
  intro hcourse
  cases h with
  | fetching _ hphase _ hfollows =>
    refine ⟨?_, ?_, ?_, ?_, ?_⟩
    · simp [hphase]
    · intro mode source model sink hin
      have hchecks : Unplanned (sourceChecks a) := by
        unfold sourceChecks
        split_ifs
        · simp [Unplanned]
        · simp [Unplanned, Deed.isPlan]
      rw [hfollows.sinkUrl]
      rw [hfollows.trail, List.mem_append, List.mem_append, List.mem_cons, List.mem_singleton] at hin
      rcases hin with hin | (hin | hin) | hin
      · cases hplain _ hin
      · cases hin
        rfl
      · cases hchecks _ hin
      · cases hin
    · intro _
      have hchecks : ¬ ModelAsked (sourceChecks a) := by
        unfold sourceChecks
        split_ifs
        · simp [ModelAsked]
        · simp [ModelAsked, Deed.asksModel]
      rw [hfollows.trail, modelAsked_append, ← List.singleton_append, List.append_assoc, modelAsked_append,
        modelAsked_append]
      simp only [hquiet, hchecks, false_or]
      simp [ModelAsked, Deed.asksModel, plannedDeed]
    · simp [hphase]
    · simp [hphase]
  | failed _ hterminal _ _ hconcluded => exact absurd hcourse (hconcluded.off_course hterminal)
  | shown => cases hcourse.1

theorem Started.truthful (h : Started env a next) (ha : Truthful a.trail) : Truthful next.trail := by
  apply h.guarded ha
  · exact fun _ _ hterminal hcompleted => absurd hcompleted hterminal
  · exact fun _ => trivial
  · exact fun _ _ _ _ _ _ => trivial

theorem Completes.finishes (h : Completes env o s mid) : Finishes env o s := by
  cases h with
  | summarized _ _ _ _ _ hfinishes => exact hfinishes
  | captured _ _ _ _ hfinishes => exact hfinishes

/-- What is behind a task whose summary is there. -/
theorem Completes.done (h : Completes env o s mid) (hs : Honest s) (hfaithful : Faithful env o s) :
    Sinks mid ∧ SourceCame mid.trail ∧ ModelCame mid.trail := by
  cases h with
  | summarized _ hphase hmode hok hfollows =>
    refine ⟨hfollows.sinks hs.sinks (by simp [Unplanned, Deed.isPlan]), ?_, ?_⟩
    · rw [hfollows.trail]
      exact sourceCame_of_success (hfaithful.source hphase hmode hok) (by simp)
    · intro hasked
      rw [hfollows.trail, modelAsked_append] at hasked
      rcases hasked with hasked | hasked
      · exact absurd hasked (hs.unasked (.inr hphase))
      · simp [ModelAsked, Deed.asksModel] at hasked
  | captured hother hphase hsuccess hfollows hfinishes =>
    rename_i text
    obtain ⟨hok, hgood⟩ := good_of_success hsuccess
    refine ⟨hfollows.sinks hs.sinks (by simp [Unplanned, Deed.isPlan]), ?_, ?_⟩
    · rw [hfollows.trail]
      exact (hs.source (.inl hphase)).append _
    · intro _
      rw [hfollows.trail, hok]
      exact ⟨o.status, text, hgood, (List.suffix_append _ _).isInfix⟩

theorem Answered.truthful (h : Answered env o s next) (hs : Honest s) (htruthful : Truthful s.trail)
    (hfaithful : Faithful env o s) : Truthful next.trail := by
  apply h.guarded htruthful
  · exact fun _ _ hterminal hcompleted => absurd hcompleted hterminal
  · intro mid hcompletes hconcluded
    obtain ⟨hsinks, hsource, hmodel⟩ := hcompletes.done hs hfaithful
    obtain ⟨deeds, hquiet, hfollows⟩ := hcompletes.quiet
    apply hconcluded.guarded
    · rw [hfollows.trail]
      exact htruthful.quiet hquiet
    · intro hsink _
      refine ⟨hsource, hmodel, ?_⟩
      intro mode source model sink hin hne
      exact absurd ((hsinks _ _ _ _ hin).trans hsink) hne
    · intro _ hsink hstopped
      rw [hfollows.sinkUrl] at hsink
      rw [hfollows.postStarts] at hstopped
      exact absurd (hfaithful.starts hcompletes.finishes hsink) hstopped
    · exact fun _ _ _ => trivial
  · exact fun _ _ _ _ _ _ => trivial
  · exact fun _ _ _ _ => trivial

theorem Answered.honest (h : Answered env o s next) (hs : Honest s) (hfaithful : Faithful env o s) :
    OnCourse next → Honest next := by
  have hconcludes {mid : Governed} (hcompletes : Completes env o s mid) (hconcluded : Concluded env .completed mid next) :
      OnCourse next → Honest next := by
    obtain ⟨hsinks, hsource, hmodel⟩ := hcompletes.done hs hfaithful
    exact hconcluded.honest hsinks hsource hmodel
  have hasks {url body : Bytes} {skill : Skill} (hasked : AskedModel env o s url body next)
      (hfollows : Follows s [.answered skill o.ok o.status, .checked s.policy .callModel (some url) none,
        .requested ⟨s.mode, s.policy, .callModel, url, body⟩] next) (hsource : SourceCame next.trail) : Honest next := by
    have hphase := hasked.phase
    refine ⟨?_, hfollows.sinks hs.sinks (by simp [Unplanned, Deed.isPlan]), ?_, fun _ => hsource, ?_⟩
    · simp [hphase]
    · simp [hphase]
    · simp [hphase]
  cases h with
  | failed _ hterminal _ _ hconcluded => exact fun hcourse => absurd hcourse (hconcluded.off_course hterminal)
  | summarized hother hphase hmode hok hfollows hconcluded hfinishes =>
    exact hconcludes (.summarized hother hphase hmode hok hfollows hfinishes) hconcluded
  | captured hother hphase hsuccess hfollows hconcluded hfinishes =>
    exact hconcludes (.captured hother hphase hsuccess hfollows hfinishes) hconcluded
  | asked hphase hm1 hok hasked hfollows =>
    intro _
    apply hasks hasked hfollows
    have hsuccess : o.success = true := by
      by_cases hmode : s.mode = .m1
      · exact hm1 hmode
      · exact hfaithful.source hphase hmode hok
    rw [hfollows.trail]
    exact sourceCame_of_success hsuccess (by simp)
  | again hphase _ _ hasked hfollows =>
    intro _
    apply hasks hasked hfollows
    rw [hfollows.trail]
    exact (hs.source (.inl hphase)).append _

theorem InterpretAsked.honest (h : InterpretAsked s next) (hphase : s.phase = .interpretGoal) (hplain : Unplanned s.trail)
    (hquiet : ¬ ModelAsked s.trail) : OnCourse next → Honest next := by
  intro hcourse
  cases h with
  | asked hnext hflight hretries hfollows =>
    rename_i body
    rw [hphase] at hnext
    have hunplanned : Unplanned [.interpreting body] := by
      simp [Unplanned, Deed.isPlan]
    refine ⟨?_, hfollows.sinks hplain.sinks hunplanned, ?_, ?_, ?_⟩
    · intro _
      rw [hfollows.trail]
      exact hplain.append hunplanned
    · intro _
      rw [hfollows.trail, modelAsked_append, not_or]
      exact ⟨hquiet, by simp [ModelAsked, Deed.asksModel]⟩
    · simp [hnext]
    · simp [hnext]
  | failed => cases hcourse.1

theorem InterpretAsked.truthful (h : InterpretAsked s next) (hs : Truthful s.trail) : Truthful next.trail := by
  cases h with
  | asked _ _ _ hfollows =>
    rw [hfollows.trail]
    exact hs.free (by simp [Deed.Free])
  | failed hterminal => exact hs.finish no_deeds_free fun hcompleted => absurd hcompleted hterminal

theorem InterpretDone.honest (h : InterpretDone env o s next) (hphase : s.phase = .interpretGoal) (hs : Honest s)
    (htruthful : Truthful s.trail) : Truthful next.trail ∧ (OnCourse next → Honest next) := by
  have hplain := hs.unplanned hphase
  have hquiet := hs.unasked (.inl hphase)
  cases h with
  | again hnext hflight hretries _ hfollows =>
    rename_i body
    have hasked : InterpretAsked { s with interpretRetries := next.interpretRetries } next :=
      .asked (hnext.trans hphase.symm) hflight rfl ⟨hfollows.plan, hfollows.trail⟩
    exact ⟨hasked.truthful htruthful, hasked.honest hphase hplain hquiet⟩
  | failed hterminal hinterpreted =>
    refine ⟨htruthful.finish ?_ fun hcompleted => absurd hcompleted hterminal, fun hcourse => nomatch hcourse.1⟩
    intro deed hdeed
    obtain ⟨reply, text, rfl⟩ := hinterpreted deed hdeed
    trivial
  | planned htext hreply hread hstarted =>
    rename_i reply text mid
    have htrail : mid.trail = s.trail ++ [.interpreted reply text] := hread.trail
    have hfree : Truthful mid.trail := by
      rw [htrail]
      exact htruthful.free (by simp [Deed.Free])
    have hunplanned : Unplanned mid.trail := by
      rw [htrail]
      exact hplain.append (by simp [Unplanned, Deed.isPlan])
    have hunasked : ¬ ModelAsked mid.trail := by
      rw [htrail, modelAsked_append, not_or]
      exact ⟨hquiet, by simp [ModelAsked, Deed.asksModel]⟩
    exact ⟨hstarted.truthful hfree, hstarted.honest hunplanned hunasked⟩

/-- What was done before the terminal events of a task, and what holds of it until then. -/
structure Sincere (s : Governed) : Prop where
  truthful : Truthful s.trail
  honest : OnCourse s → Honest s

theorem FetchEnded.sincere (h : FetchEnded env o s next) (hwaiting : Waiting s) (hs : Sincere s)
    (hfaithful : Faithful env o s) : Sincere next := by
  have hactive := hwaiting.active
  cases h with
  | interpreted hphase hdone =>
    have hcourse : OnCourse s := ⟨hactive, by simp [hphase]⟩
    obtain ⟨htruthful, hhonest⟩ := hdone.honest hphase (hs.honest hcourse) hs.truthful
    exact ⟨htruthful, hhonest⟩
  | answered hphase hanswered =>
    have hcourse : OnCourse s := by
      refine ⟨hactive, ?_⟩
      rcases hphase with hphase | hphase
      · simp [hphase]
      · simp [hphase]
    have hhonest := hs.honest hcourse
    exact ⟨hanswered.truthful hhonest hs.truthful hfaithful, hanswered.honest hhonest hfaithful⟩
  | posted hphase hterminal =>
    refine ⟨?_, fun hcourse => nomatch hcourse.1⟩
    have hfree : ∀ deed ∈ [Deed.answered .postResult o.ok o.status], deed.Free := by simp [Deed.Free]
    apply hs.truthful.finish hfree
    rintro rfl
    have hhonest := hs.honest ⟨hactive, fun _ => hterminal⟩
    obtain ⟨hok, hgood⟩ := good_of_success (hfaithful.posts hphase hterminal)
    refine ⟨(hhonest.source (.inr hphase)).append _, ?_, ?_⟩
    · exact (hhonest.model hphase).append (by simp [ModelAsked, Deed.asksModel])
    · intro _ _ _ _ _ _
      rw [hok]
      exact ⟨o.status, hgood, by simp⟩

theorem truthful_start {deed : Deed} (htrail : a.trail = [deed]) (hdeed : deed.Free) : Truthful a.trail := by
  rw [htrail]
  have hnone : Truthful [] := Trace.always_nil
  exact hnone.free (by simpa using hdeed)

theorem Step.sincere (hstep : Step s event next) (hlively : Lively s) (hpossible : event.Possible s) (hs : Sincere s)
    (hfaithful : EndsFaithfully s event) : Sincere next := by
  have hfresh {a : Governed} {deed : Deed} (htrail : a.trail = [deed]) (hplan : deed.isPlan = false)
      (hask : deed.asksModel = false) : Unplanned a.trail ∧ ¬ ModelAsked a.trail := by
    rw [htrail]
    simp [Unplanned, ModelAsked, hplan, hask]
  cases hstep with
  | task hline =>
    cases hline with
    | ignored => exact hs
    | refused => exact ⟨hs.truthful, fun hcourse => nomatch hcourse.1⟩
    | started _ _ htrail _ _ hstarted =>
      obtain ⟨hplain, hquiet⟩ := hfresh htrail rfl rfl
      exact ⟨hstarted.truthful (truthful_start htrail trivial), hstarted.honest hplain hquiet⟩
  | goal hline =>
    cases hline with
    | ignored => exact hs
    | started _ _ htrail _ hstarted =>
      obtain ⟨hplain, hquiet⟩ := hfresh htrail rfl rfl
      exact ⟨hstarted.truthful (truthful_start htrail trivial), hstarted.honest hplain hquiet⟩
    | interpreting _ _ htrail _ hphase _ hasked =>
      obtain ⟨hplain, hquiet⟩ := hfresh htrail rfl rfl
      exact ⟨hasked.truthful (truthful_start htrail trivial), hasked.honest hphase hplain hquiet⟩
  | fetchDone hended => exact hended.sincere (hlively.waiting hpossible) hs hfaithful

theorem Sincere.accounted (h : Sincere s) (hreach : governedTasks.Reachable s) : Accounted s where
  on hactive := (reachable_lively hreach).on hactive |>.2
  off hidle := ((reachable_lively hreach).off hidle).2
  finite _ hends hallowed := (length_le_fetchesLeft hreach hends hallowed).trans (fetchesLeft_le s)
  completed before after heq := h.truthful before _ after heq rfl

/-- A run that is faithful at every end of a fetch completes no task that is not done. -/
theorem completed_done (h : governedTasks.Allows {} events) (hfaithful : governedTasks.Meets EndsFaithfully {} events) :
    governedTasks.Throughout Accounted {} events := by
  have hstart : governedTasks.Reachable {} := .init rfl
  have hnone : Sincere {} := ⟨Trace.always_nil, fun hcourse => nomatch hcourse.1⟩
  have hall : governedTasks.Throughout (fun s => Sincere s ∧ governedTasks.Reachable s) {} events := by
    apply Machine.Meets.throughout ?_ hfaithful hstart ⟨hnone, hstart⟩ h
    intro s event hreach ⟨hs, _⟩ hallowed hcond
    obtain ⟨hpossible, hstep⟩ := step_of_allowed hreach hallowed
    exact ⟨hstep.sincere (reachable_lively hreach) hpossible hs hcond, hreach.step hallowed⟩
  apply hall.mono
  intro s ⟨hs, hreach⟩
  exact hs.accounted hreach

end Honest

section Runs

variable {s : Governed} {trail : List Deed}

/-- A fetch that ends well, of a task whose post would start. -/
def endsWell (s : Governed) : GoalEvent → Bool
  | .fetchDone env o => o.success && decide (PostStarts env s)
  | _ => true

/-- The run of a task all of whose fetches end well. -/
theorem completed_task : governedTasks.Throughout Accounted {} taskRun := by
  obtain ⟨hallows, hgood⟩ : governedTasks.Allows {} taskRun ∧
      governedTasks.Meets (fun s event => endsWell s event = true) {} taskRun := by
    decide +kernel
  apply completed_done hallows
  apply hgood.mono
  intro s event hevent
  cases event with
  | fetchDone env o =>
    have hwell : o.success = true ∧ PostStarts env s := by
      simpa [endsWell] using hevent
    exact ⟨fun _ _ _ => hwell.1, fun _ _ => hwell.2, fun _ _ => hwell.1⟩
  | _ => trivial

def Deed.plansPost : Deed → Bool
  | .planned _ _ _ sink => sink ≠ []
  | _ => false

def Deed.postsWell : Deed → Bool
  | .answered .postResult true status => 200 ≤ status && status < 300
  | _ => false

/-- A completed task with a sink that no post came to. -/
def endsUndone (trail : List Deed) : Bool :=
  trail.getLast? == some (.ended .completed) && trail.dropLast.any Deed.plansPost &&
    trail.dropLast.all (! ·.postsWell)

theorem not_accounted_of_endsUndone (h : endsUndone s.trail = true) : ¬ Accounted s := by
  intro haccounted
  unfold endsUndone at h
  rw [Bool.and_eq_true, Bool.and_eq_true, beq_iff_eq] at h
  obtain ⟨⟨hlast, hplans⟩, hposts⟩ := h
  have htrail : s.trail = s.trail.dropLast ++ [.ended .completed] :=
    (List.dropLast_append_getLast? _ hlast).symm
  have hdone := haccounted.completed _ [] htrail
  obtain ⟨deed, hin, hplan⟩ := List.any_eq_true.mp hplans
  cases deed with
  | planned mode source model sink =>
    have hsink : sink ≠ [] := by
      simpa [Deed.plansPost] using hplan
    obtain ⟨status, hgood, hpost⟩ := hdone.result mode source model sink hin hsink
    have hnot := List.all_eq_true.mp hposts _ hpost
    simp [Deed.postsWell, hgood.1, hgood.2] at hnot
  | _ => cases hplan

theorem brokenPost_bounded : ({} : Capture).body.length ≤ agentResponseBodyLen := by
  decide

/-- The sink answers the post of the result with an error. -/
def brokenPost : FetchOutcome := ⟨true, 500, {}, [], brokenPost_bounded⟩

def brokenRun : List GoalEvent :=
  [.task {} taskLine, .fetchDone {} pageReply, .fetchDone {} gatewayReply, .fetchDone {} brokenPost]

/-- The task is completed, though its post was answered with 500. -/
theorem completed_undone :
    ¬ ∀ events, governedTasks.Allows {} events → governedTasks.Throughout Accounted {} events := by
  obtain ⟨hallows, hundone⟩ : governedTasks.Allows {} brokenRun ∧
      endsUndone (governedTasks.run {} brokenRun).trail = true := by
    decide +kernel
  intro hall
  exact not_accounted_of_endsUndone hundone (hall _ hallows).last

end Runs

end MiniAgentOS.Agent.Goals
