import MiniAgentOS.Agent.Steps

/-! The budget of a turn: how many tools are called in it, and how many requests are sent to the model. -/
namespace MiniAgentOS.Agent
open Checked Fetch Net Session

section Counts

variable {env : LoopEnv} {s mid next : Loop} {deeds : List Deed} {r : Loop × Bool}

def Deed.isCall : Deed → Bool
  | .called _ => true
  | _ => false

def Deed.isAsk : Deed → Bool
  | .requested (.model _) | .requested .summary => true
  | _ => false

/-- The tools that were called in the turn. -/
def Loop.calls (s : Loop) : ℕ := s.turn.countP Deed.isCall

/-- The requests that were sent to the model in the turn. -/
def Loop.asks (s : Loop) : ℕ := s.turn.countP Deed.isAsk

theorem calls_append (h : next.turn = s.turn ++ deeds) : next.calls = s.calls + deeds.countP Deed.isCall := by
  rw [Loop.calls, h, List.countP_append]
  rfl

theorem asks_append (h : next.turn = s.turn ++ deeds) : next.asks = s.asks + deeds.countP Deed.isAsk := by
  rw [Loop.asks, h, List.countP_append]
  rfl

@[simp] theorem closeTurn_calls (text : Bytes) (terminal : Terminal) (s : Loop) :
    (closeTurn text terminal s).calls = s.calls := calls_append (closeTurn_turn text terminal s)

@[simp] theorem closeTurn_asks (text : Bytes) (terminal : Terminal) (s : Loop) :
    (closeTurn text terminal s).asks = s.asks := asks_append (closeTurn_turn text terminal s)

theorem agentFinishLocal_turn (terminal : Terminal) (s : Loop) :
    (agentFinishLocal terminal s).turn = s.turn ++ [.finished terminal] := rfl

theorem sendRequest_turn (request : LoopRequest) (phase : AgentPhase) (s : Loop) :
    (sendRequest request phase s).turn = s.turn ++ [.requested request] := rfl

theorem act_turn (deed : Deed) (s : Loop) : (s.act deed).turn = s.turn ++ [deed] := rfl

@[simp] theorem agentFinishLocal_calls (terminal : Terminal) (s : Loop) : (agentFinishLocal terminal s).calls = s.calls :=
  calls_append (agentFinishLocal_turn terminal s)

@[simp] theorem agentFinishLocal_asks (terminal : Terminal) (s : Loop) : (agentFinishLocal terminal s).asks = s.asks :=
  asks_append (agentFinishLocal_turn terminal s)

@[simp] theorem sendRequest_calls (request : LoopRequest) (phase : AgentPhase) (s : Loop) :
    (sendRequest request phase s).calls = s.calls := calls_append (sendRequest_turn request phase s)

theorem sendRequest_asks (request : LoopRequest) (phase : AgentPhase) (s : Loop) :
    (sendRequest request phase s).asks = s.asks + [Deed.requested request].countP Deed.isAsk :=
  asks_append (sendRequest_turn request phase s)

@[simp] theorem sendModel_asks (body : Bytes) (phase : AgentPhase) (s : Loop) :
    (sendRequest (.model body) phase s).asks = s.asks + 1 := sendRequest_asks _ _ _

@[simp] theorem sendSummary_asks (phase : AgentPhase) (s : Loop) :
    (sendRequest .summary phase s).asks = s.asks + 1 := sendRequest_asks _ _ _

theorem sendTool_asks {request : LoopRequest} (h : ¬ request.AsksModel) (phase : AgentPhase) (s : Loop) :
    (sendRequest request phase s).asks = s.asks := by
  rw [sendRequest_asks]
  cases request with
  | model body => exact absurd trivial h
  | summary => exact absurd trivial h
  | _ => rfl

@[simp] theorem act_called_calls (tool : Tool) (s : Loop) : (s.act (.called tool)).calls = s.calls + 1 :=
  calls_append (act_turn _ s)

@[simp] theorem act_called_asks (tool : Tool) (s : Loop) : (s.act (.called tool)).asks = s.asks :=
  asks_append (act_turn _ s)

@[simp] theorem act_completed_calls (ok : Bool) (s : Loop) : (s.act (.completed ok)).calls = s.calls :=
  calls_append (act_turn _ s)

@[simp] theorem act_completed_asks (ok : Bool) (s : Loop) : (s.act (.completed ok)).asks = s.asks :=
  asks_append (act_turn _ s)

/-- How the requests to the model go with the calls and the retries, for as long as the turn goes on. -/
structure Counted (s : Loop) : Prop where
  retries : s.retries ≤ m4OpenaiMaxRetries
  model : s.active = true → s.phase = .m4Model → s.asks = 1 + s.calls + s.retries
  tool : s.active = true → ¬ AsksPhase s.phase → s.asks = s.calls + s.retries

theorem closeTurn_counted (text : Bytes) (terminal : Terminal) (s : Loop) : Counted (closeTurn text terminal s) where
  retries := Nat.zero_le _
  model := by
    intro h
    cases h
  tool := by
    intro h
    cases h

theorem agentFinishLocal_counted (terminal : Terminal) (s : Loop) : Counted (agentFinishLocal terminal s) where
  retries := Nat.zero_le _
  model := by
    intro h
    cases h
  tool := by
    intro h
    cases h

theorem Asked.counted (h : Asked env s r) (hretries : s.retries ≤ m4OpenaiMaxRetries) (hasks : s.asks = s.calls + s.retries) :
    Counted r.1 := by
  cases h with
  | sent body =>
    refine ⟨hretries, fun _ _ => ?_, fun _ hphase => absurd (.inl rfl) hphase⟩
    rw [sendModel_asks, sendRequest_calls, hasks]
    change _ = 1 + s.calls + s.retries
    omega
  | closed reason => exact closeTurn_counted _ _ _
  | dropped => exact agentFinishLocal_counted _ _

theorem Summarizing.counted (h : Summarizing env s next) (hretries : s.retries ≤ m4OpenaiMaxRetries) : Counted next := by
  cases h with
  | sent =>
    refine ⟨hretries, fun _ hphase => ?_, fun _ hphase => absurd (.inr rfl) hphase⟩
    cases hphase
  | closed text => exact closeTurn_counted _ _ _

theorem ToolStarted.counted (h : ToolStarted env s next) (hretries : s.retries ≤ m4OpenaiMaxRetries)
    (hasks : s.asks = s.calls + s.retries) : Counted next := by
  cases h with
  | sent hrequest hphase =>
    refine ⟨hretries, fun _ hmodel => absurd (.inl hmodel) hphase, fun _ _ => ?_⟩
    rw [sendTool_asks hrequest, sendRequest_calls]
    exact hasks
  | closed text terminal => exact closeTurn_counted _ _ _

theorem Executed.counted {tool : Tool} {call : ToolCall} (h : Executed env tool call s next)
    (hretries : s.retries ≤ m4OpenaiMaxRetries) (hasks : s.asks = 1 + s.calls + s.retries) : Counted next := by
  by_cases hatOnce : AtOnce tool call s
  · obtain ⟨result, mid, started, hprepared, -, hasked⟩ := h.atOnce hatOnce
    have hcalls : mid.calls = s.calls + 1 := calls_append hprepared.turn
    have hmid : mid.asks = s.asks := asks_append hprepared.turn
    refine hasked.counted (hprepared.retries ▸ hretries) ?_
    rw [hmid, hcalls, hprepared.retries, hasks]
    omega
  · cases h.deferred hatOnce with
    | denied text terminal => exact closeTurn_counted _ _ _
    | refused text terminal => exact closeTurn_counted _ _ _
    | called _ hstarted =>
      apply hstarted.counted hretries
      rw [act_called_asks, act_called_calls]
      change s.asks = s.calls + 1 + s.retries
      omega

theorem Completed.counted {key : Option Bytes} (h : Completed env key s mid r) (hretries : s.retries ≤ m4OpenaiMaxRetries)
    (hasks : s.asks = s.calls + s.retries) : Counted r.1 := by
  by_cases hgoes : GoesOn s.toolResult s
  · have hcalls : mid.calls = s.calls := calls_append h.prepared.turn
    have hmid : mid.asks = s.asks := asks_append h.prepared.turn
    refine (h.asked hgoes).counted (h.prepared.retries ▸ hretries) ?_
    rw [hmid, hcalls, h.prepared.retries, hasks]
  · obtain ⟨text, terminal, rfl⟩ := h.closed hgoes
    exact closeTurn_counted _ _ _

theorem FetchDone.counted {o : FetchOutcome} (h : FetchDone env o s next) (hs : Counted s) (hactive : s.active = true) :
    Counted next := by
  cases h with
  | model hphase hmodel =>
    have hasks := hs.model hactive hphase
    cases hmodel with
    | retried _ _ hretries hasked =>
      refine hasked.counted hretries ?_
      change s.asks = s.calls + (s.retries + 1)
      omega
    | failed reason => exact closeTurn_counted _ _ _
    | answered terminal => exact closeTurn_counted _ _ _
    | executed _ _ _ hexecuted => exact hexecuted.counted hs.retries hasks
    | reparsed _ _ hretries hasked =>
      split_ifs
      · refine hasked.counted hretries ?_
        change s.asks = s.calls + (s.retries + 1)
        omega
      · exact closeTurn_counted _ _ _
    | unparsed => exact closeTurn_counted _ _ _
  | summary _ hsummary =>
    cases hsummary with
    | retried _ _ hretries hsummarizing => exact hsummarizing.counted hretries
    | closed text terminal => exact closeTurn_counted _ _ _
  | bridge hphase hbridge =>
    have hasks := hs.tool hactive (by simp [hphase, AsksPhase])
    cases hbridge with
    | truncated text => exact closeTurn_counted _ _ _
    | completed _ _ hcompleted => exact hcompleted.counted hs.retries hasks
  | tool hmodel hsummary _ htool =>
    have hasks := hs.tool hactive (not_or.mpr ⟨hmodel, hsummary⟩)
    cases htool with
    | failed => exact closeTurn_counted _ _ _
    | searched _ _ hcompleted => exact hcompleted.counted hs.retries hasks
    | summarized _ _ _ _ _ hretries hsummarizing =>
      apply hsummarizing.counted
      rw [hretries]
      exact Nat.zero_le _
    | completed _ _ _ hfetched hcompleted =>
      have hcalls : _ = s.calls := congrArg (List.countP Deed.isCall) hfetched.turn
      have hkept : _ = s.asks := congrArg (List.countP Deed.isAsk) hfetched.turn
      apply hcompleted.counted (hfetched.retries ▸ hs.retries)
      rw [Loop.asks, Loop.calls, hkept, hcalls, hfetched.retries]
      exact hasks

theorem beginTurn_calls (goal : Bytes) (s : Loop) : (beginTurn goal s).calls = 0 := by
  simp [Loop.calls, beginTurn, appendUserTurn]

theorem beginTurn_asks (goal : Bytes) (s : Loop) : (beginTurn goal s).asks = 0 := by
  simp [Loop.asks, beginTurn, appendUserTurn]

theorem beginTurn_retries (goal : Bytes) (s : Loop) : (beginTurn goal s).retries = 0 := by
  simp [beginTurn, appendUserTurn]

theorem Handled.counted {event : LoopEvent} (h : Handled s event next) (hs : Counted s) : Counted next := by
  cases h with
  | line hline =>
    cases hline with
    | ignored => exact hs
    | answered text => exact closeTurn_counted _ _ _
    | asked _ _ hasked =>
      apply hasked.counted
      · rw [beginTurn_retries]
        exact Nat.zero_le _
      · rw [beginTurn_asks, beginTurn_calls, beginTurn_retries]
  | stray env o => exact hs
  | fetchDone hactive hdone => exact hdone.counted hs hactive
  | sessionReset => exact ⟨hs.retries, hs.model, hs.tool⟩

theorem reachable_counted (h : sessionLoop.Reachable s) : Counted s := by
  apply h.invariant
  · rintro _ rfl
    exact ⟨Nat.zero_le _, fun hactive => absurd hactive (by decide), fun hactive => absurd hactive (by decide)⟩
  · intro s event hs _
    exact (sessionLoop_handled s event).counted hs

end Counts

section Budget

variable {env : LoopEnv} {o : FetchOutcome} {s mid next : Loop} {r : Loop × Bool} {event : LoopEvent}
  {events : List LoopEvent}

/-- How many requests a turn may send to the model: one for each tool and for the line, and the retries. -/
def modelRequestLimit : ℕ := m4LoopMaxSteps + 1 + m4OpenaiMaxRetries

structure WithinBudget (s : Loop) : Prop where
  calls : s.calls ≤ m4LoopMaxSteps
  asks : s.asks ≤ modelRequestLimit

/-- A reply names a tool, and the loop calls it. -/
def NamesTool (env : LoopEnv) (o : FetchOutcome) (s : Loop) : Prop :=
  s.phase = .m4Model ∧ o.success = true ∧ ∃ call tool, parseM4ModelResponse o s.context = .ok (.ok (.tool call)) ∧
    executedTool call.name = some tool ∧ ¬ Denied env tool

/-- A request for a summary fails, and is sent again. -/
def RetriesSummary (env : LoopEnv) (o : FetchOutcome) (s : Loop) : Prop :=
  s.phase = .m4SummaryModel ∧ o.success = false ∧ openaiFailureRetryable o = true ∧ s.retries < m4OpenaiMaxRetries ∧
    MaySummarize env s

/-- The model names no tool once the calls of the turn are used up, and no summary is asked for again once the requests
are. -/
def Frugal (s : Loop) : LoopEvent → Prop
  | .fetchDone env o => s.active = true → (NamesTool env o s → s.calls < m4LoopMaxSteps) ∧
      (RetriesSummary env o s → s.asks < modelRequestLimit)
  | _ => True

theorem Asked.counts (h : Asked env s r) : r.1.calls = s.calls ∧ r.1.asks ≤ s.asks + 1 := by
  cases h with
  | sent body => simp
  | closed reason => simp
  | dropped => simp

theorem Asked.withinBudget (h : Asked env s r) (hcalls : s.calls ≤ m4LoopMaxSteps) (hasks : s.asks < modelRequestLimit) :
    WithinBudget r.1 := by
  obtain ⟨hsame, hmore⟩ := h.counts
  exact ⟨hsame ▸ hcalls, by omega⟩

theorem closeTurn_withinBudget {text : Bytes} {terminal : Terminal} (h : WithinBudget s) :
    WithinBudget (closeTurn text terminal s) where
  calls := by simpa using h.calls
  asks := by simpa using h.asks

theorem atOnce_allowed {tool : Tool} {call : ToolCall} (h : AtOnce tool call s) (env : LoopEnv) : ¬ Denied env tool := by
  cases tool with
  | postTweet => exact h.elim
  | searchRecentPosts => exact h.elim
  | getUserPosts => exact h.elim
  | _ => exact id

theorem Deferred.counts {tool : Tool} (h : Deferred env tool s next) : next.asks = s.asks ∧
    (Denied env tool ∧ next.calls = s.calls ∨ ¬ Denied env tool ∧ next.calls = s.calls + 1) := by
  cases h with
  | denied text terminal hdenied => exact ⟨by simp, .inl ⟨hdenied, by simp⟩⟩
  | refused text terminal hallowed => exact ⟨by simp, .inr ⟨hallowed, by simp⟩⟩
  | called hallowed hstarted =>
    cases hstarted with
    | sent hrequest => exact ⟨by simp [sendTool_asks hrequest], .inr ⟨hallowed, by simp⟩⟩
    | closed text terminal => exact ⟨by simp, .inr ⟨hallowed, by simp⟩⟩

theorem Executed.withinBudget_iff {tool : Tool} {call : ToolCall} (h : Executed env tool call s next)
    (hs : WithinBudget s) (hasks : s.asks = 1 + s.calls + s.retries) (hretries : s.retries ≤ m4OpenaiMaxRetries) :
    WithinBudget next ↔ (¬ Denied env tool → s.calls < m4LoopMaxSteps) := by
  by_cases hatOnce : AtOnce tool call s
  · obtain ⟨result, mid, started, hprepared, -, hasked⟩ := h.atOnce hatOnce
    have hcalls : mid.calls = s.calls + 1 := calls_append hprepared.turn
    have hmid : mid.asks = s.asks := asks_append hprepared.turn
    rw [imp_iff_right (atOnce_allowed hatOnce env)]
    constructor
    · intro hnext
      have hle := hnext.calls
      rw [hasked.counts.1, hcalls] at hle
      exact hle
    · intro hlt
      apply hasked.withinBudget
      · omega
      · unfold modelRequestLimit
        omega
  · obtain ⟨hsame, hcalls⟩ := (h.deferred hatOnce).counts
    have hfit : next.asks ≤ modelRequestLimit := hsame ▸ hs.asks
    rcases hcalls with ⟨hdenied, hnone⟩ | ⟨hallowed, hone⟩
    · exact iff_of_true ⟨hnone ▸ hs.calls, hfit⟩ fun h => absurd hdenied h
    · rw [imp_iff_right hallowed]
      constructor
      · intro hnext
        have hle := hnext.calls
        rw [hone] at hle
        exact hle
      · intro hlt
        refine ⟨?_, hfit⟩
        rw [hone]
        exact hlt

theorem Completed.withinBudget {key : Option Bytes} (h : Completed env key s mid r) (hs : WithinBudget s)
    (hasks : s.asks < modelRequestLimit) : WithinBudget r.1 := by
  have hcalls : mid.calls = s.calls := calls_append h.prepared.turn
  have hmid : mid.asks = s.asks := asks_append h.prepared.turn
  by_cases hgoes : GoesOn s.toolResult s
  · exact (h.asked hgoes).withinBudget (hcalls ▸ hs.calls) (hmid ▸ hasks)
  · obtain ⟨text, terminal, rfl⟩ := h.closed hgoes
    exact closeTurn_withinBudget ⟨hcalls ▸ hs.calls, hmid ▸ hs.asks⟩

theorem Summarizing.withinBudget_iff (h : Summarizing env s next) (hs : WithinBudget s) :
    WithinBudget next ↔ (MaySummarize env s → s.asks < modelRequestLimit) := by
  cases h with
  | sent hmay =>
    rw [imp_iff_right hmay]
    constructor
    · intro hnext
      have hle := hnext.asks
      rwa [sendSummary_asks] at hle
    · intro hlt
      refine ⟨?_, ?_⟩
      · rw [sendRequest_calls]
        exact hs.calls
      · rwa [sendSummary_asks]
  | closed text hnot => exact iff_of_true (closeTurn_withinBudget hs) fun hmay => absurd hmay hnot

/-- Every other phase leaves both conditions empty. -/
theorem frugal_other (hmodel : s.phase ≠ .m4Model) (hsummary : s.phase ≠ .m4SummaryModel) : Frugal s (.fetchDone env o) :=
  fun _ => ⟨fun h => absurd h.1 hmodel, fun h => absurd h.1 hsummary⟩

theorem frugal_model (hphase : s.phase = .m4Model) (hactive : s.active = true) :
    Frugal s (.fetchDone env o) ↔ (NamesTool env o s → s.calls < m4LoopMaxSteps) := by
  constructor
  · exact fun h => (h hactive).1
  · intro h _
    refine ⟨h, fun hsummary => ?_⟩
    cases hphase.symm.trans hsummary.1

theorem frugal_summary (hphase : s.phase = .m4SummaryModel) (hactive : s.active = true) :
    Frugal s (.fetchDone env o) ↔ (RetriesSummary env o s → s.asks < modelRequestLimit) := by
  constructor
  · exact fun h => (h hactive).2
  · intro h _
    refine ⟨fun hmodel => ?_, h⟩
    cases hphase.symm.trans hmodel.1

theorem ModelDone.withinBudget_iff (h : ModelDone env o { s with inFlight := false } next) (hphase : s.phase = .m4Model)
    (hs : WithinBudget s) (hcounted : Counted s) (hactive : s.active = true) :
    WithinBudget next ↔ (NamesTool env o s → s.calls < m4LoopMaxSteps) := by
  have hasks := hcounted.model hactive hphase
  have hcalls := hs.calls
  have hretry : s.retries < m4OpenaiMaxRetries → s.asks < modelRequestLimit := by
    intro hless
    unfold modelRequestLimit
    omega
  have hfailed : o.success = false → ¬ NamesTool env o s := by
    intro hfailed ⟨_, hsuccess, _⟩
    rw [hfailed] at hsuccess
    cases hsuccess
  have hother : ∀ reply, parseM4ModelResponse o s.context = .ok reply → (∀ call, reply ≠ .ok (.tool call)) →
      ¬ NamesTool env o s := by
    intro reply hparse hne ⟨_, _, call, tool, hcall, _⟩
    exact hne call (Except.ok.inj (hparse.symm.trans hcall))
  cases h with
  | retried hfail _ hless hasked =>
    exact iff_of_true (hasked.withinBudget hcalls (hretry hless)) fun hnames => absurd hnames (hfailed hfail)
  | failed reason hfail => exact iff_of_true (closeTurn_withinBudget ⟨hs.calls, hs.asks⟩) fun hnames => absurd hnames (hfailed hfail)
  | answered terminal _ hparse =>
    exact iff_of_true (closeTurn_withinBudget ⟨hs.calls, hs.asks⟩) fun hnames =>
      absurd hnames (hother _ hparse fun _ h => by cases h)
  | executed hsuccess hparse htool hexecuted =>
    rw [hexecuted.withinBudget_iff ⟨hs.calls, hs.asks⟩ hasks hcounted.retries]
    constructor
    · intro hlt ⟨_, _, call, tool, hcall, hfound, hallowed⟩
      cases Except.ok.inj (hparse.symm.trans hcall)
      obtain rfl := Option.some.inj (htool.symm.trans hfound)
      exact hlt hallowed
    · exact fun hlt hallowed => hlt ⟨hphase, hsuccess, _, _, hparse, htool, hallowed⟩
  | reparsed _ hparse hless hasked =>
    refine iff_of_true ?_ fun hnames => absurd hnames (hother _ hparse fun _ h => by cases h)
    split_ifs
    · exact hasked.withinBudget hcalls (hretry hless)
    · exact closeTurn_withinBudget (hasked.withinBudget hcalls (hretry hless))
  | unparsed _ hparse =>
    exact iff_of_true (closeTurn_withinBudget ⟨hs.calls, hs.asks⟩) fun hnames =>
      absurd hnames (hother _ hparse fun _ h => by cases h)

theorem FetchDone.withinBudget_iff (h : FetchDone env o s next) (hs : WithinBudget s) (hcounted : Counted s)
    (hactive : s.active = true) : WithinBudget next ↔ Frugal s (.fetchDone env o) := by
  have hcalls := hs.calls
  have hretries := hcounted.retries
  cases h with
  | model hphase hmodel =>
    rw [frugal_model hphase hactive]
    exact hmodel.withinBudget_iff hphase hs hcounted hactive
  | summary hphase hsummary =>
    rw [frugal_summary hphase hactive]
    cases hsummary with
    | retried hfailed hretry hless hsummarizing =>
      rw [hsummarizing.withinBudget_iff ⟨hs.calls, hs.asks⟩]
      constructor
      · exact fun h hagain => h hagain.2.2.2.2
      · exact fun h hmay => h ⟨hphase, hfailed, hretry, hless, hmay⟩
    | closed text terminal hlast =>
      refine iff_of_true (closeTurn_withinBudget ⟨hs.calls, hs.asks⟩) fun hagain => ?_
      exact absurd ⟨hagain.2.1, hagain.2.2.1, hagain.2.2.2.1⟩ hlast
  | bridge hphase hbridge =>
    have hasks := hcounted.tool hactive (by simp [hphase, AsksPhase])
    have hless : s.asks < modelRequestLimit := by
      unfold modelRequestLimit
      omega
    refine iff_of_true ?_ (frugal_other (by simp [hphase]) (by simp [hphase]))
    cases hbridge with
    | truncated text =>
      apply closeTurn_withinBudget
      constructor
      · rw [act_completed_calls]
        exact hs.calls
      · rw [act_completed_asks]
        exact hs.asks
    | completed _ _ hcompleted => exact hcompleted.withinBudget ⟨hs.calls, hs.asks⟩ hless
  | tool hmodel hsummary _ htool =>
    have hasks := hcounted.tool hactive (not_or.mpr ⟨hmodel, hsummary⟩)
    have hless : s.asks < modelRequestLimit := by
      unfold modelRequestLimit
      omega
    refine iff_of_true ?_ (frugal_other hmodel hsummary)
    cases htool with
    | failed =>
      apply closeTurn_withinBudget
      constructor
      · rw [act_completed_calls]
        exact hs.calls
      · rw [act_completed_asks]
        exact hs.asks
    | searched _ _ hcompleted => exact hcompleted.withinBudget ⟨hs.calls, hs.asks⟩ hless
    | @summarized _ summarizing _ _ _ hturn _ _ _ hsummarizing =>
      have hsame : summarizing.calls = s.calls := calls_append hturn
      have hkept : summarizing.asks = s.asks := asks_append hturn
      apply (hsummarizing.withinBudget_iff ⟨hsame ▸ hs.calls, hkept ▸ hs.asks⟩).mpr
      exact fun _ => hkept ▸ hless
    | @completed _ kept _ _ _ _ _ hfetched hcompleted =>
      have hsame : kept.calls = s.calls := congrArg (List.countP Deed.isCall) hfetched.turn
      have hkept : kept.asks = s.asks := congrArg (List.countP Deed.isAsk) hfetched.turn
      exact hcompleted.withinBudget ⟨hsame ▸ hs.calls, hkept ▸ hs.asks⟩ (hkept ▸ hless)

theorem Handled.withinBudget_iff (h : Handled s event next) (hs : WithinBudget s) (hcounted : Counted s) :
    WithinBudget next ↔ Frugal s event := by
  cases h with
  | line hline =>
    refine iff_of_true ?_ trivial
    cases hline with
    | ignored => exact hs
    | answered text => exact closeTurn_withinBudget ⟨by simp [beginTurn_calls], by simp [beginTurn_asks]⟩
    | asked _ _ hasked =>
      apply hasked.withinBudget
      · simp [beginTurn_calls]
      · rw [beginTurn_asks]
        decide
  | stray env o hidle => exact iff_of_true hs fun hactive => by simp [hidle] at hactive
  | fetchDone hactive hdone => exact hdone.withinBudget_iff hs hcounted hactive
  | sessionReset => exact iff_of_true ⟨hs.calls, hs.asks⟩ trivial

/-- The budget of every turn is kept just where the model is frugal. -/
theorem within_budget_iff (hallowed : sessionLoop.Allows {} events) :
    sessionLoop.Throughout WithinBudget {} events ↔ sessionLoop.Meets Frugal {} events := by
  have hstart : WithinBudget {} := ⟨by decide, by decide⟩
  apply Machine.throughout_iff _ (.init rfl) hstart hallowed
  intro s event hreachable hs _
  exact (sessionLoop_handled s event).withinBudget_iff hs (reachable_counted hreachable)

def statusText : Bytes := ascii "\x7b\"type\":\"tool\",\"tool\":\"memory_status\"\x7d"

def statusCall : ToolCall := ⟨ascii "memory_status", [], []⟩

def statusReply : FetchOutcome :=
  replied statusText
    (ascii "\x7b\"type\":\"output_text\",\"text\":\"\x7b\\\"type\\\":\\\"tool\\\",\\\"tool\\\":\\\"memory_status\\\"\x7d\"\x7d")
    (by decide)

theorem statusText_parse (c : PromptContext) : parseM4Reply c statusText = .ok (.ok (.tool statusCall)) := by
  have hkind : jsonExtractStringLocal statusText (ascii "type") m4ToolNameMax = .ok (ascii "tool") := by decide +kernel
  have hname : jsonExtractStringLocal statusText (ascii "tool") m4ToolNameMax = .ok (ascii "memory_status") := by
    decide +kernel
  rw [parseM4Reply_tool hkind rfl hname (by decide)]
  decide +kernel

theorem statusReply_parse (c : PromptContext) :
    parseM4ModelResponse statusReply c = .ok (.ok (.tool statusCall)) :=
  replied_parse _ (by decide) (by decide) (statusText_parse c)

/-- The model asks for the status of the memory. -/
theorem Asking.status (h : Asking s) (hleads : sessionLoop.Leads {} events s) :
    ∃ next, sessionLoop.Leads {} (events ++ [.fetchDone {} statusReply]) next ∧ Asking next ∧
      next.calls = s.calls + 1 := by
  have htool : executedTool statusCall.name = some .memoryStatus := by decide
  obtain ⟨next, hnext, hexecuted⟩ : Returns (executeTool {} statusCall { s with inFlight := false }) _ :=
    executeTool_executed htool
  have hlast := h.called hleads rfl (statusReply_parse _) hnext
  obtain ⟨result, mid, started, hprepared, -, hasked⟩ := hexecuted.atOnce trivial
  have hcalls : mid.calls = s.calls + 1 := calls_append hprepared.turn
  cases hasked with
  | sent body => exact ⟨_, hlast, ⟨hprepared.active.trans h.active, hprepared.started h.started, rfl, rfl⟩, by simp [hcalls]⟩
  | closed _ _ hbusy => cases hbusy
  | dropped hlacks => exact absurd hlacks.2 (by decide)

def statusRun (n : ℕ) : List LoopEvent := .line {} (ascii "hello") :: List.replicate n (.fetchDone {} statusReply)

theorem statusRun_succ (n : ℕ) : statusRun (n + 1) = statusRun n ++ [.fetchDone {} statusReply] := by
  rw [statusRun, statusRun, List.replicate_succ', List.cons_append]

theorem statusRun_leads (n : ℕ) : ∃ s, sessionLoop.Leads {} (statusRun n) s ∧ Asking s ∧ s.calls = n := by
  induction n with
  | zero =>
    obtain ⟨body, hasked, hasking⟩ := @line_asked (ascii "hello") (by decide +kernel) (by decide +kernel)
    exact ⟨_, hasked, hasking, by rw [sendRequest_calls, beginTurn_calls]⟩
  | succ n ih =>
    obtain ⟨s, hleads, hasking, hcalls⟩ := ih
    obtain ⟨next, hnext, hagain, hone⟩ := hasking.status hleads
    rw [statusRun_succ]
    exact ⟨next, hnext, hagain, by rw [hone, hcalls]⟩

/-- Twelve calls keep the budget. -/
theorem statusRun_frugal {n : ℕ} (hn : n ≤ m4LoopMaxSteps) : sessionLoop.Meets Frugal {} (statusRun n) := by
  induction n with
  | zero => exact ⟨trivial, trivial⟩
  | succ n ih =>
    obtain ⟨s, hleads, hasking, hcalls⟩ := statusRun_leads n
    rw [statusRun_succ]
    refine hleads.meets_snoc.mpr ⟨ih (Nat.le_of_lt hn), fun _ => ⟨fun _ => ?_, fun hsummary => ?_⟩⟩
    · rw [hcalls]
      exact hn
    · cases hasking.phase.symm.trans hsummary.1

theorem within_budget_twelve : sessionLoop.Throughout WithinBudget {} (statusRun 12) := by
  obtain ⟨s, hleads, -⟩ := statusRun_leads 12
  exact (within_budget_iff hleads.1).mpr (statusRun_frugal (by decide))

theorem thirteenth_call : ¬ ∀ events, sessionLoop.Allows {} events → sessionLoop.Throughout WithinBudget {} events := by
  intro hall
  obtain ⟨s, hleads, -, hcalls⟩ := statusRun_leads 13
  have hbudget := hleads.2 ▸ (hall _ hleads.1).last
  have hle := hbudget.calls
  rw [hcalls] at hle
  exact absurd hle (by decide)

end Budget

end MiniAgentOS.Agent
