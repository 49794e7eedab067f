import MiniAgentOS.Agent.GoalSteps

/-! The runs of governed tasks: a task waits for a fetch of its own until its terminal event, and what its deeds meet
step by step they meet in every state of a run. -/
namespace MiniAgentOS.Agent.Goals
open Checked Fetch Net Session

section Lively

variable {env : GoalEnv} {o : FetchOutcome} {s mid next a : Governed} {deeds trail : List Deed} {terminal : Terminal}

def Deed.isEnd : Deed → Bool
  | .ended _ => true
  | _ => false

/-- How many terminal events are emitted. -/
def ends (trail : List Deed) : ℕ := trail.countP Deed.isEnd

@[simp] theorem ends_append (front back : List Deed) : ends (front ++ back) = ends front + ends back :=
  List.countP_append

theorem ends_quiet (h : ∀ deed ∈ deeds, deed.Quiet) : ends deeds = 0 := by
  rw [ends, List.countP_eq_zero]
  intro deed hdeed
  cases deed with
  | ended terminal => exact absurd (h _ hdeed) id
  | _ => simp [Deed.isEnd]

/-- A task that is on has a fetch in flight and no terminal event yet; one that is over has exactly one. -/
structure Lively (s : Governed) : Prop where
  on : s.active = true → Waiting s ∧ s.inFlight = true ∧ ends s.trail = 0
  off : s.active = false → s.inFlight = false ∧ (s.trail = [] ∨ ends s.trail = 1)

theorem lively_closed (h : ends (s.trail ++ deeds) = 1) : Lively (closed s deeds) where
  on h := nomatch h
  off _ := ⟨rfl, .inr h⟩

theorem Follows.active (h : Follows s deeds next) : next.active = s.active := congrArg Plan.active h.plan

theorem Follows.mode (h : Follows s deeds next) : next.mode = s.mode := congrArg Plan.mode h.plan

theorem Follows.policy (h : Follows s deeds next) : next.policy = s.policy := congrArg Plan.policy h.plan

theorem Follows.sinkUrl (h : Follows s deeds next) : next.sinkUrl = s.sinkUrl := congrArg Plan.sinkUrl h.plan

/-- A task that goes on with a request. -/
theorem lively_sent (hactive : s.active = true) (hends : ends s.trail = 0) (h : Follows s deeds next)
    (hnew : ends deeds = 0) (hphase : Waiting next) (hflight : next.inFlight = true) : Lively next where
  on _ := ⟨hphase, hflight, by rw [h.trail, ends_append, hends, hnew]⟩
  off hidle := by
    rw [h.active, hactive] at hidle
    cases hidle

theorem ends_postChecks (s : Governed) : ends (postChecks s) = 0 := by
  unfold postChecks
  split_ifs
  · rfl
  · rfl

theorem Concluded.lively (h : Concluded env terminal s next) (hactive : s.active = true) (hends : ends s.trail = 0) :
    Lively next := by
  cases h with
  | shown => exact lively_closed (by rw [ends_append, hends]; rfl)
  | denied => exact lively_closed (by rw [ends_append, hends]; rfl)
  | unstarted => exact lively_closed (by rw [ends_append, ends_append, hends, ends_postChecks]; rfl)
  | posted _ _ _ hphase hflight hterminal hfollows =>
    have hwaiting : Waiting next :=
      ⟨hfollows.active.trans hactive, .inr (.inr (.inr ⟨hphase, by rw [hterminal]; rfl⟩))⟩
    exact lively_sent hactive hends hfollows (by rw [ends_append, ends_postChecks]; rfl) hwaiting hflight

theorem Follows.ends (h : Follows s deeds next) (hquiet : ∀ deed ∈ deeds, deed.Quiet) (hends : ends s.trail = 0) :
    Goals.ends next.trail = 0 := by
  rw [h.trail, ends_append, hends, ends_quiet hquiet]

theorem Started.lively (h : Started env a next) (hactive : a.active = true) (hends : ends a.trail = 0) : Lively next := by
  cases h with
  | fetching _ hphase hflight hfollows =>
    have hwaiting : Waiting next := ⟨hfollows.active.trans hactive, .inr (.inl hphase)⟩
    refine lively_sent hactive hends hfollows ?_ hwaiting hflight
    unfold sourceChecks
    split_ifs
    · rfl
    · rfl
  | failed _ _ hquiet hfollows hconcluded =>
    exact hconcluded.lively (hfollows.active.trans hactive) (hfollows.ends hquiet hends)
  | shown _ hquiet => exact lively_closed (by rw [ends_append, ends_append, hends, ends_quiet hquiet]; rfl)

theorem Answered.lively (h : Answered env o s next) (hactive : s.active = true) (hends : ends s.trail = 0) :
    Lively next := by
  have hsent {url body : Bytes} {sent : List Deed} (hasked : AskedModel env o s url body next)
      (hfollows : Follows s sent next) (hnew : Goals.ends sent = 0) : Lively next := by
    have hmode : next.mode = .m1 ∨ next.mode = .m3 := by
      rw [hfollows.mode]
      exact hasked.mode
    have hwaiting : Waiting next := ⟨hfollows.active.trans hactive, .inr (.inr (.inl ⟨hasked.phase, hmode⟩))⟩
    exact lively_sent hactive hends hfollows hnew hwaiting hasked.inFlight
  cases h with
  | failed _ _ hquiet hfollows hconcluded =>
    exact hconcluded.lively (hfollows.active.trans hactive) (hfollows.ends hquiet hends)
  | summarized _ _ _ _ hfollows hconcluded =>
    exact hconcluded.lively (hfollows.active.trans hactive) (by rw [hfollows.trail, ends_append, hends]; rfl)
  | captured _ _ _ hfollows hconcluded =>
    exact hconcluded.lively (hfollows.active.trans hactive) (by rw [hfollows.trail, ends_append, hends]; rfl)
  | asked _ _ _ hasked hfollows => exact hsent hasked hfollows rfl
  | again _ _ _ hasked hfollows => exact hsent hasked hfollows rfl

theorem InterpretAsked.lively (h : InterpretAsked s next) (hactive : s.active = true) (hends : ends s.trail = 0)
    (hphase : s.phase = .interpretGoal) (hmode : s.mode = .m3) : Lively next := by
  cases h with
  | asked hnext hflight _ hfollows =>
    have hwaiting : Waiting next :=
      ⟨hfollows.active.trans hactive, .inl ⟨hnext.trans hphase, hfollows.mode.trans hmode⟩⟩
    exact lively_sent hactive hends hfollows rfl hwaiting hflight
  | failed => exact lively_closed (by rw [ends_append, hends]; rfl)

theorem InterpretDone.lively (h : InterpretDone env o s next) (hactive : s.active = true) (hends : ends s.trail = 0)
    (hmode : s.mode = .m3) : Lively next := by
  cases h with
  | again hphase hflight _ _ hfollows =>
    have hwaiting : Waiting next := ⟨hfollows.active.trans hactive, .inl ⟨hphase, hfollows.mode.trans hmode⟩⟩
    exact lively_sent hactive hends hfollows rfl hwaiting hflight
  | failed _ hinterpreted =>
    apply lively_closed
    have hnone : Goals.ends _ = 0 := List.countP_eq_zero.mpr fun deed hdeed => by
      obtain ⟨reply, text, rfl⟩ := hinterpreted deed hdeed
      simp [Deed.isEnd]
    rw [ends_append, ends_append, hends, hnone]
    rfl
  | planned htext hreply hread hstarted =>
    rename_i reply text mid
    apply hstarted.lively (hread.active.trans hactive)
    have htrail : Governed.trail { mid with mode := .m3 } = s.trail ++ [.interpreted reply text] := hread.trail
    rw [htrail, ends_append, hends]
    rfl

theorem FetchEnded.lively (h : FetchEnded env o s next) (hwaiting : Waiting s) (hends : ends s.trail = 0) :
    Lively next := by
  have hactive := hwaiting.active
  cases h with
  | interpreted hphase hdone =>
    apply hdone.lively hactive hends
    rcases hwaiting.phase with ⟨-, hmode⟩ | hother | ⟨hother, -⟩ | ⟨hother, -⟩
    · exact hmode
    · cases hphase.symm.trans hother
    · cases hphase.symm.trans hother
    · cases hphase.symm.trans hother
  | answered _ hanswered => exact hanswered.lively hactive hends
  | posted => exact lively_closed (by rw [ends_append, hends]; rfl)

theorem ends_start {deed : Deed} (h : a.trail = [deed]) (hdeed : deed.isEnd = false) : ends a.trail = 0 := by
  rw [h, ends, List.countP_singleton, hdeed]
  rfl

theorem lively_same (h : Lively s) (hidle : s.active = false) : Lively (agentReset s) where
  on h := nomatch h
  off _ := ⟨rfl, (h.off hidle).2⟩

theorem Step.lively {event : GoalEvent} (h : Lively s) (hpossible : event.Possible s) (hstep : Step s event next) :
    Lively next := by
  cases hstep with
  | task hline =>
    cases hline with
    | ignored => exact h
    | refused hidle => exact lively_same h hidle
    | started _ hactive htrail _ _ hstarted => exact hstarted.lively hactive (ends_start htrail rfl)
  | goal hline =>
    cases hline with
    | ignored => exact h
    | started _ hactive htrail _ hstarted => exact hstarted.lively hactive (ends_start htrail rfl)
    | interpreting _ hactive htrail hmode hphase _ hasked =>
      exact hasked.lively hactive (ends_start htrail rfl) hphase hmode
  | fetchDone hended =>
    have hflight : s.inFlight = true := hpossible
    cases hactive : s.active with
    | true =>
      obtain ⟨hwaiting, -, hends⟩ := h.on hactive
      exact hended.lively hwaiting hends
    | false =>
      rw [(h.off hactive).1] at hflight
      cases hflight

theorem Lively.waiting (h : Lively s) (hflight : s.inFlight = true) : Waiting s := by
  cases hactive : s.active with
  | true => exact (h.on hactive).1
  | false =>
    rw [(h.off hactive).1] at hflight
    cases hflight

theorem lively_init : Lively {} where
  on h := nomatch h
  off _ := ⟨rfl, .inl rfl⟩

theorem reachable_lively (h : governedTasks.Reachable s) : Lively s := by
  apply h.invariant
  · intro state hinit
    obtain rfl : state = {} := hinit
    exact lively_init
  · intro state event hlively hallowed
    obtain ⟨hpossible, hok⟩ := Machine.ofChecked_step hallowed
    have hstep := handle_step hlively.waiting hpossible
    exact Step.lively hlively hpossible (hstep.of_eq hok)

/-- What an event leads to in a run. -/
theorem step_of_allowed {event : GoalEvent} (h : governedTasks.Reachable s) (hallowed : governedTasks.allowed s event) :
    event.Possible s ∧ Step s event (governedTasks.step s event) := by
  obtain ⟨hpossible, hok⟩ := Machine.ofChecked_step hallowed
  exact ⟨hpossible, (handle_step (reachable_lively h).waiting hpossible).of_eq hok⟩

end Lively

section Guarded

open Trace

variable {env : GoalEnv} {o : FetchOutcome} {s mid next a : Governed} {deeds trail : List Deed} {terminal : Terminal}
  {R : List Deed → SkillRequest → Prop} {E : List Deed → Terminal → Prop}

/-- What requests and terminal events meet, given what was done before. -/
def guard (R : List Deed → SkillRequest → Prop) (E : List Deed → Terminal → Prop) (before : List Deed) : Deed → Prop
  | .requested request => R before request
  | .ended terminal => E before terminal
  | _ => True

def Guarded (R : List Deed → SkillRequest → Prop) (E : List Deed → Terminal → Prop) (trail : List Deed) : Prop :=
  Always (guard R E) trail

/-- A deed that is no request and no terminal event. -/
def Deed.Free : Deed → Prop
  | .requested _ | .ended _ => False
  | _ => True

theorem Deed.Quiet.free {deed : Deed} (h : deed.Quiet) : deed.Free := by
  cases deed with
  | requested request => exact h
  | ended terminal => exact h
  | _ => trivial

theorem Guarded.free (h : Guarded R E trail) (hfree : ∀ deed ∈ deeds, deed.Free) : Guarded R E (trail ++ deeds) := by
  apply Always.append h
  intro deed hdeed before
  have hthis := hfree deed hdeed
  cases deed with
  | requested request => exact hthis.elim
  | ended terminal => exact hthis.elim
  | _ => trivial

theorem Guarded.quiet (h : Guarded R E trail) (hquiet : ∀ deed ∈ deeds, deed.Quiet) : Guarded R E (trail ++ deeds) :=
  h.free fun deed hdeed => (hquiet deed hdeed).free

/-- Free deeds, and one that meets the guard behind them. -/
theorem Guarded.last {deed : Deed} (h : Guarded R E trail) (hfree : ∀ deed ∈ deeds, deed.Free)
    (hlast : guard R E (trail ++ deeds) deed) : Guarded R E (trail ++ (deeds ++ [deed])) := by
  rw [← List.append_assoc]
  exact (h.free hfree).snoc hlast

/-- A terminal event behind free deeds. -/
theorem Guarded.finish (h : Guarded R E s.trail) (hfree : ∀ deed ∈ deeds, deed.Free)
    (hlast : E (s.trail ++ deeds) terminal) : Guarded R E (closed s (deeds ++ [.ended terminal])).trail :=
  h.last hfree hlast

theorem no_deeds_free : ∀ deed ∈ ([] : List Deed), deed.Free := by
  simp

/-- The post of a task is started: its checks let it through, and the fetch engine takes it. -/
def PostStarts (env : GoalEnv) (s : Governed) : Prop := PostAllowed s ∧ fetchStartAgentUrl env s.sinkUrl = true

instance (env : GoalEnv) (s : Governed) : Decidable (PostStarts env s) := inferInstanceAs (Decidable (_ ∧ _))

theorem postChecks_free (s : Governed) : ∀ deed ∈ postChecks s, deed.Free := by
  unfold postChecks
  split_ifs
  · simp [Deed.Free]
  · simp

theorem Concluded.guarded (h : Concluded env terminal s next) (hs : Guarded R E s.trail)
    (hshown : s.sinkUrl = [] → E s.trail terminal)
    (hlost : ∀ checks : List Deed, s.sinkUrl ≠ [] → ¬ PostStarts env s → E (s.trail ++ checks) terminal)
    (hposted : ∀ body, s.sinkUrl ≠ [] → PostStarts env s →
      R (s.trail ++ postChecks s) ⟨s.mode, s.policy, .postResult, s.sinkUrl, body⟩) : Guarded R E next.trail := by
  cases h with
  | shown hsink => exact hs.snoc (hshown hsink)
  | denied hsink hdenied =>
    rename_i denial
    have hfree : ∀ deed ∈ [Deed.checked s.policy .postResult (some s.sinkUrl) (some denial)], deed.Free := by
      simp [Deed.Free]
    exact hs.last hfree (hlost _ hsink fun hstarts => hdenied hstarts.1)
  | unstarted hsink hstopped =>
    apply hs.last (postChecks_free s)
    apply hlost _ hsink
    intro hstarts
    rw [hstarts.2] at hstopped
    cases hstopped
  | posted hsink hallowed hstarts _ _ _ hfollows =>
    rw [hfollows.trail]
    exact hs.last (postChecks_free s) (hposted _ hsink ⟨hallowed, hstarts⟩)

theorem Follows.postChecks (h : Follows s deeds mid) : Goals.postChecks mid = Goals.postChecks s := by
  unfold Goals.postChecks
  rw [h.mode, h.policy, h.sinkUrl]

theorem Follows.postStarts (h : Follows s deeds mid) : PostStarts env mid ↔ PostStarts env s := by
  unfold PostStarts PostAllowed
  rw [h.mode, h.policy, h.sinkUrl]

/-- A conclusion behind some deeds, with what its post and its end must meet. -/
theorem Concluded.guarded_behind (h : Concluded env terminal mid next) (hfollows : Follows s deeds mid)
    (hs : Guarded R E s.trail) (hquiet : ∀ deed ∈ deeds, deed.Quiet)
    (hended : ∀ before, E before terminal)
    (hposted : ∀ body, s.sinkUrl ≠ [] → PostStarts env s →
      R (s.trail ++ deeds ++ postChecks s) ⟨s.mode, s.policy, .postResult, s.sinkUrl, body⟩) :
    Guarded R E next.trail := by
  apply h.guarded
  · rw [hfollows.trail]
    exact hs.quiet hquiet
  · exact fun _ => hended _
  · exact fun _ _ _ => hended _
  · intro body hsink hstarts
    rw [hfollows.trail, hfollows.postChecks, hfollows.mode, hfollows.policy, hfollows.sinkUrl]
    rw [hfollows.sinkUrl] at hsink
    exact hposted body hsink (hfollows.postStarts.mp hstarts)

theorem Started.guarded (h : Started env a next) (ha : Guarded R E a.trail)
    (hended : ∀ before terminal, terminal ≠ .completed → E before terminal)
    (hsource : SourceAllowed a →
      R (a.trail ++ plannedDeed a :: sourceChecks a) ⟨a.mode, a.policy, .fetchUrl, a.sourceUrl, []⟩)
    (hposted : ∀ (deeds : List Deed) body, (∀ deed ∈ deeds, deed.Quiet) → a.mode = .m1 → a.sinkUrl ≠ [] →
      PostStarts env a →
      R (a.trail ++ deeds ++ postChecks a) ⟨a.mode, a.policy, .postResult, a.sinkUrl, body⟩) :
    Guarded R E next.trail := by
  cases h with
  | fetching hallowed _ _ hfollows =>
    have hlast : guard R E (a.trail ++ plannedDeed a :: sourceChecks a)
        (.requested ⟨a.mode, a.policy, .fetchUrl, a.sourceUrl, []⟩) := hsource hallowed
    have hfree : ∀ deed ∈ plannedDeed a :: sourceChecks a, deed.Free := by
      unfold sourceChecks plannedDeed
      split_ifs
      · simp [Deed.Free]
      · simp [Deed.Free]
    rw [hfollows.trail]
    exact ha.last hfree hlast
  | failed hmode hterminal hquiet hfollows hconcluded =>
    exact hconcluded.guarded_behind hfollows ha hquiet (fun _ => hended _ _ hterminal)
      fun body hsink hstarts => hposted _ body hquiet hmode hsink hstarts
  | shown hterminal hquiet =>
    exact ha.last (fun deed hdeed => (hquiet deed hdeed).free) (hended _ _ hterminal)

/-- The end of a request behind which a task is completed. -/
inductive Completes (env : GoalEnv) (o : FetchOutcome) (s mid : Governed) : Prop where
  | summarized : ¬ AsksSummary env o s → s.phase = .fetchSource → s.mode ≠ .m1 → o.ok = true →
      Follows s [.answered .fetchUrl o.ok o.status, .checked s.policy .summarizeText none none] mid →
      Finishes env o s → Completes env o s mid
  | captured {text : Bytes} : ¬ AsksSummary env o s → s.phase = .callModel → o.success = true →
      Follows s [.answered .callModel o.ok o.status, .summarized text] mid → Finishes env o s →
      Completes env o s mid

theorem Completes.quiet (h : Completes env o s mid) : ∃ deeds, (∀ deed ∈ deeds, deed.Quiet) ∧ Follows s deeds mid := by
  cases h with
  | summarized _ _ _ _ hfollows => exact ⟨_, by simp [Deed.Quiet], hfollows⟩
  | captured _ _ _ hfollows => exact ⟨_, by simp [Deed.Quiet], hfollows⟩

theorem Answered.guarded (h : Answered env o s next) (hs : Guarded R E s.trail)
    (hended : ∀ before terminal, terminal ≠ .completed → E before terminal)
    (hcompleted : ∀ mid, Completes env o s mid → Concluded env .completed mid next → Guarded R E next.trail)
    (hposted : ∀ (deeds : List Deed) body, (∀ deed ∈ deeds, deed.Quiet) → ¬ AsksSummary env o s → s.sinkUrl ≠ [] →
      PostStarts env s →
      R (s.trail ++ deeds ++ postChecks s) ⟨s.mode, s.policy, .postResult, s.sinkUrl, body⟩)
    (hasked : ∀ (skill : Skill) url body, AskedModel env o s url body next →
      R (s.trail ++ [.answered skill o.ok o.status, .checked s.policy .callModel (some url) none])
        ⟨s.mode, s.policy, .callModel, url, body⟩) : Guarded R E next.trail := by
  have hsent {skill : Skill} {url body : Bytes} (hnew : AskedModel env o s url body next)
      (hfollows : Follows s [.answered skill o.ok o.status, .checked s.policy .callModel (some url) none,
        .requested ⟨s.mode, s.policy, .callModel, url, body⟩] next) : Guarded R E next.trail := by
    have hfree : ∀ deed ∈ [Deed.answered skill o.ok o.status, .checked s.policy .callModel (some url) none],
        deed.Free := by
      simp [Deed.Free]
    rw [hfollows.trail]
    exact hs.last hfree (hasked skill url body hnew)
  cases h with
  | failed hother hterminal hquiet hfollows hconcluded =>
    exact hconcluded.guarded_behind hfollows hs hquiet (fun _ => hended _ _ hterminal)
      fun body hsink hstarts => hposted _ body hquiet hother hsink hstarts
  | summarized hother hphase hmode hok hfollows hconcluded hfinishes =>
    exact hcompleted _ (.summarized hother hphase hmode hok hfollows hfinishes) hconcluded
  | captured hother hphase hsuccess hfollows hconcluded hfinishes =>
    exact hcompleted _ (.captured hother hphase hsuccess hfollows hfinishes) hconcluded
  | asked _ _ _ hnew hfollows => exact hsent hnew hfollows
  | again _ _ _ hnew hfollows => exact hsent hnew hfollows

end Guarded

end MiniAgentOS.Agent.Goals
