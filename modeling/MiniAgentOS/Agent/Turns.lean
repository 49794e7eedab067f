import MiniAgentOS.Agent.Steps

/-! One outcome for each turn of the user: it is answered and finished once, and nothing is started after that. -/
namespace MiniAgentOS.Agent
open Checked Fetch Net Session

section Outcomes

variable {env : LoopEnv} {s mid next : Loop} {turn deeds : List Deed} {r : Loop × Bool}

def Deed.isFinished : Deed → Bool
  | .finished _ => true
  | _ => false

def Deed.isAnswered : Deed → Bool
  | .answered _ => true
  | _ => false

/-- The deed starts a request to the model or calls a tool. -/
def Deed.Starts : Deed → Prop
  | .called _ | .requested _ => True
  | _ => False

/-- A turn that is over: it has one assistant turn and one end, and nothing is started after its end. -/
structure Settled (turn : List Deed) : Prop where
  finished : turn.countP Deed.isFinished = 1
  answered : turn.countP Deed.isAnswered = 1
  last : ∀ before terminal after, turn = before ++ .finished terminal :: after → ∀ deed ∈ after, ¬ deed.Starts

/-- A turn that goes on. -/
structure Unsettled (turn : List Deed) : Prop where
  finished : turn.countP Deed.isFinished = 0
  answered : turn.countP Deed.isAnswered = 0

/-- A turn that goes on waits for a request, and every other one is over. -/
structure OneOutcome (s : Loop) : Prop where
  waits : s.active = true → s.inFlight = true ∧ Unsettled s.turn
  ended : s.active = false → s.turn = [] ∨ Settled s.turn

theorem Unsettled.append (h : Unsettled turn) (hdeeds : Unsettled deeds) : Unsettled (turn ++ deeds) where
  finished := by rw [List.countP_append, h.finished, hdeeds.finished]
  answered := by rw [List.countP_append, h.answered, hdeeds.answered]

theorem Unsettled.settle (h : Unsettled turn) (text : Bytes) (terminal : Terminal) :
    Settled (turn ++ [.answered text, .finished terminal]) where
  finished := by rw [List.countP_append, h.finished]; rfl
  answered := by rw [List.countP_append, h.answered]; rfl
  last := by
    intro before other after hturn deed hdeed
    have hcount := congrArg (List.countP Deed.isFinished) hturn
    have hend : (Deed.finished other :: after).countP Deed.isFinished = after.countP Deed.isFinished + 1 :=
      List.countP_cons_of_pos rfl
    rw [List.countP_append, h.finished, List.countP_append, hend] at hcount
    change 0 + 1 = _ at hcount
    rcases List.eq_nil_or_concat after with rfl | ⟨front, back, rfl⟩
    · cases hdeed
    · have hback : back = .finished terminal := by
        have hlast : (before ++ .finished other :: front.concat back).getLast? = some back := by
          rw [List.concat_eq_append, ← List.cons_append, ← List.append_assoc, List.getLast?_concat]
        rw [← hturn] at hlast
        simpa using hlast.symm
      rw [List.concat_eq_append, List.countP_append, hback] at hcount
      have hone : ([.finished terminal] : List Deed).countP Deed.isFinished = 1 := rfl
      omega

theorem closeTurn_oneOutcome {text : Bytes} {terminal : Terminal} (h : Unsettled s.turn) :
    OneOutcome (closeTurn text terminal s) where
  waits := by
    intro hactive
    cases hactive
  ended := by
    intro _
    right
    rw [closeTurn_turn]
    exact h.settle text terminal

theorem sendRequest_oneOutcome {request : LoopRequest} {phase : AgentPhase} (h : Unsettled s.turn)
    (hactive : s.active = true) : OneOutcome (sendRequest request phase s) where
  waits := fun _ => ⟨rfl, h.append ⟨rfl, rfl⟩⟩
  ended := fun hidle => absurd hactive (by rw [show s.active = false from hidle]; decide)

/-- A turn that is dropped has no assistant turn. -/
theorem dropped_no_outcome (h : Unsettled s.turn) (terminal : Terminal) : ¬ OneOutcome (agentFinishLocal terminal s) := by
  intro hone
  rcases hone.ended rfl with hnil | hsettled
  · exact absurd hnil (by simp [agentFinishLocal, Loop.act])
  · have hanswered : (s.turn ++ [Deed.finished terminal]).countP Deed.isAnswered = 1 := hsettled.answered
    rw [List.countP_append, h.answered] at hanswered
    cases hanswered

/-- A turn that is closed when it is over already is finished twice. -/
theorem closed_twice (h : 0 < s.turn.countP Deed.isFinished) (text : Bytes) (terminal : Terminal) :
    ¬ OneOutcome (closeTurn text terminal s) := by
  intro hone
  rcases hone.ended rfl with hnil | hsettled
  · simp at hnil
  · have hfinished := hsettled.finished
    rw [closeTurn_turn, List.countP_append] at hfinished
    have hlast : ([.answered text, .finished terminal] : List Deed).countP Deed.isFinished = 1 := rfl
    omega

theorem Asked.oneOutcome_iff (h : Asked env s r) (hs : Unsettled s.turn) (hactive : s.active = true) :
    OneOutcome r.1 ↔ ¬ LacksKey env s := by
  cases h with
  | sent body hkey => exact iff_of_true (sendRequest_oneOutcome hs hactive) hkey
  | closed reason hkey => exact iff_of_true (closeTurn_oneOutcome hs) hkey
  | dropped hlacks => exact iff_of_false (dropped_no_outcome hs _) (not_not_intro hlacks)

/-- After a reply that is not understood, a retry that does not start finishes the turn once more. -/
theorem Asked.reparsed_iff (h : Asked env s r) (hs : Unsettled s.turn) (hactive : s.active = true) (text : Bytes) :
    OneOutcome (if r.2 then r.1 else closeTurn text .failed r.1) ↔ ¬ LacksKey env s ∧ env.starts = true := by
  cases h with
  | sent body hkey hstarts => exact iff_of_true (sendRequest_oneOutcome hs hactive) ⟨hkey, hstarts⟩
  | closed reason hkey hbusy =>
    refine iff_of_false (closed_twice ?_ _ _) (by simp [hbusy])
    rw [closeTurn_turn, List.countP_append]
    exact Nat.lt_add_left _ Nat.one_pos
  | dropped hlacks =>
    refine iff_of_false (closed_twice ?_ _ _) fun h => h.1 hlacks
    change 0 < (s.turn ++ [Deed.finished .failed]).countP Deed.isFinished
    rw [List.countP_append]
    exact Nat.lt_add_left _ Nat.one_pos

end Outcomes

section Steps

variable {env : LoopEnv} {o : FetchOutcome} {s mid next : Loop} {r : Loop × Bool} {event : LoopEvent}
  {events : List LoopEvent}

/-- A reply after which the model is asked again. -/
def ReplyDue (reply : Checked (Except Bytes Reply)) (s : Loop) : Prop :=
  match reply with
  | .ok (.ok (.tool call)) => ∃ tool, executedTool call.name = some tool ∧ AtOnce tool call s
  | .ok (.error _) => s.retries < m4OpenaiMaxRetries
  | _ => False

/-- The end of a fetch after which the model is asked again. -/
def ModelDue (o : FetchOutcome) (s : Loop) : Prop :=
  match s.phase with
  | .m4Model =>
    if o.success then ReplyDue (parseM4ModelResponse o s.context) s
    else openaiFailureRetryable o = true ∧ s.retries < m4OpenaiMaxRetries
  | .m4SummaryModel => False
  | .m5BridgeTool => o.capture.truncated = false ∧ ∃ result, bridgeResult o = .ok result ∧ GoesOn result s
  | _ => ¬ Summarized s ∧ ∃ result, fetchedResult o s = .ok (true, result) ∧ GoesOn (keptResult o result s) s

/-- The loop when it asks the model again: a tool of the bridge decides whether the bridge asks for it. -/
def asker (s : Loop) : Loop :=
  if s.phase = .m5BridgeTool then { s with hostBridge := bridgeToolPrefersHostOpenai s.call.name } else s

/-- The reply of the model is not understood. -/
def NotUnderstood (o : FetchOutcome) (s : Loop) : Prop :=
  s.phase = .m4Model ∧ o.success = true ∧ ∃ reason, parseM4ModelResponse o s.context = .ok (.error reason)

/-- Nothing hinders the loop where it asks the model: it has the key, or a bridge that needs none, and a retry after a
reply that is not understood starts. -/
def Unhindered (s : Loop) : LoopEvent → Prop
  | .line env text => Accepted env text s → looksLikeToolInventoryRequest (m4Goal text) = false →
      ¬ LacksKey env (beginTurn (m4Goal text) s)
  | .fetchDone env o => s.active = true → ModelDue o s →
      ¬ LacksKey env (asker s) ∧ (NotUnderstood o s → env.starts = true)
  | .sessionReset => True

theorem beginTurn_turn (goal : Bytes) (s : Loop) : (beginTurn goal s).turn = [] := by
  simp [beginTurn, appendUserTurn]

theorem beginTurn_active (goal : Bytes) (s : Loop) : (beginTurn goal s).active = true := by
  simp [beginTurn, appendUserTurn]

theorem beginTurn_unsettled (goal : Bytes) (s : Loop) : Unsettled (beginTurn goal s).turn := by
  rw [beginTurn_turn]
  exact ⟨rfl, rfl⟩

theorem Prepared.unsettled {deeds : List Deed} (h : Prepared deeds s mid) (hs : Unsettled s.turn) (hdeeds : Unsettled deeds) :
    Unsettled mid.turn := by
  rw [h.turn]
  exact hs.append hdeeds

theorem Executed.oneOutcome_iff {tool : Tool} {call : ToolCall} (h : Executed env tool call s next)
    (hs : Unsettled s.turn) (hactive : s.active = true) :
    OneOutcome next ↔ (AtOnce tool call s → ¬ LacksKey env s) := by
  by_cases hatOnce : AtOnce tool call s
  · obtain ⟨result, mid, started, hprepared, -, hasked⟩ := h.atOnce hatOnce
    rw [hasked.oneOutcome_iff (hprepared.unsettled hs ⟨rfl, rfl⟩) (hprepared.active.trans hactive),
      hprepared.lacksKey_iff]
    exact (imp_iff_right hatOnce).symm
  · refine iff_of_true ?_ fun h => absurd h hatOnce
    have hcall : Unsettled (s.turn ++ [.called tool]) := hs.append ⟨rfl, rfl⟩
    cases h.deferred hatOnce with
    | denied text terminal => exact closeTurn_oneOutcome hs
    | refused text terminal => exact closeTurn_oneOutcome (hcall.append ⟨rfl, rfl⟩)
    | called _ hproper =>
      cases hproper with
      | sent => exact sendRequest_oneOutcome hcall hactive
      | closed text terminal => exact closeTurn_oneOutcome hcall

theorem Completed.oneOutcome_iff {key : Option Bytes} (h : Completed env key s mid r) (hs : Unsettled s.turn)
    (hactive : s.active = true) : OneOutcome r.1 ↔ (GoesOn s.toolResult s → ¬ LacksKey env s) := by
  have hmid : Unsettled mid.turn := h.prepared.unsettled hs ⟨rfl, rfl⟩
  by_cases hgoes : GoesOn s.toolResult s
  · rw [(h.asked hgoes).oneOutcome_iff hmid (h.prepared.active.trans hactive), h.prepared.lacksKey_iff]
    exact (imp_iff_right hgoes).symm
  · obtain ⟨text, terminal, rfl⟩ := h.closed hgoes
    exact iff_of_true (closeTurn_oneOutcome hmid) fun h => absurd h hgoes

theorem Summarizing.oneOutcome (h : Summarizing env s next) (hs : Unsettled s.turn) (hactive : s.active = true) :
    OneOutcome next := by
  cases h with
  | sent => exact sendRequest_oneOutcome hs hactive
  | closed text => exact closeTurn_oneOutcome hs

/-- The phases of the tools that fetch. -/
def ToolPhase (s : Loop) : Prop := s.phase ≠ .m4Model ∧ s.phase ≠ .m4SummaryModel ∧ s.phase ≠ .m5BridgeTool

theorem modelDue_tool (h : ToolPhase s) : ModelDue o s ↔
    ¬ Summarized s ∧ ∃ result, fetchedResult o s = .ok (true, result) ∧ GoesOn (keptResult o result s) s := by
  unfold ModelDue
  split
  · next hphase => exact absurd hphase h.1
  · next hphase => exact absurd hphase h.2.1
  · next hphase => exact absurd hphase h.2.2
  · exact Iff.rfl

theorem asker_of_ne (h : s.phase ≠ .m5BridgeTool) : asker s = s := if_neg h

theorem unhindered_iff (hactive : s.active = true) (hunderstood : ¬ NotUnderstood o s) :
    Unhindered s (.fetchDone env o) ↔ (ModelDue o s → ¬ LacksKey env (asker s)) := by
  constructor
  · exact fun h hdue => (h hactive hdue).1
  · exact fun h _ hdue => ⟨h hdue, fun hnot => absurd hnot hunderstood⟩

theorem modelDue_model (hphase : s.phase = .m4Model) :
    ModelDue o s ↔ if o.success then ReplyDue (parseM4ModelResponse o s.context) s
      else openaiFailureRetryable o = true ∧ s.retries < m4OpenaiMaxRetries := by
  unfold ModelDue
  rw [hphase]

theorem modelDue_failed (hphase : s.phase = .m4Model) (hfailed : o.success = false) :
    ModelDue o s ↔ openaiFailureRetryable o = true ∧ s.retries < m4OpenaiMaxRetries := by
  rw [modelDue_model hphase, hfailed]
  exact Iff.rfl

theorem modelDue_parsed {reply : Except Bytes Reply} (hphase : s.phase = .m4Model) (hsuccess : o.success = true)
    (hparse : parseM4ModelResponse o s.context = .ok reply) : ModelDue o s ↔ ReplyDue (.ok reply) s := by
  rw [modelDue_model hphase, hsuccess, hparse]
  exact Iff.rfl

theorem understood_of_failed (hfailed : o.success = false) : ¬ NotUnderstood o s := by
  intro ⟨_, hsuccess, _⟩
  rw [hfailed] at hsuccess
  cases hsuccess

theorem understood_of_parsed {reply : Reply} (hparse : parseM4ModelResponse o s.context = .ok (.ok reply)) :
    ¬ NotUnderstood o s := by
  intro ⟨_, _, reason, hreason⟩
  rw [hparse] at hreason
  cases hreason

theorem ModelDone.oneOutcome_iff (h : ModelDone env o { s with inFlight := false } next) (hphase : s.phase = .m4Model)
    (hs : Unsettled s.turn) (hactive : s.active = true) : OneOutcome next ↔ Unhindered s (.fetchDone env o) := by
  have hasker : asker s = s := asker_of_ne (by rw [hphase]; decide)
  have hturn : ∀ n, Unsettled ({ s with inFlight := false, retries := n } : Loop).turn := fun _ => hs
  cases h with
  | retried hfailed hretry hretries hasked =>
    rw [unhindered_iff hactive (understood_of_failed hfailed), modelDue_failed hphase hfailed, hasker,
      hasked.oneOutcome_iff (hturn _) hactive]
    exact (imp_iff_right ⟨hretry, hretries⟩).symm
  | failed reason hfailed hlast =>
    rw [unhindered_iff hactive (understood_of_failed hfailed), modelDue_failed hphase hfailed]
    exact iff_of_true (closeTurn_oneOutcome hs) fun h => absurd h hlast
  | answered terminal hsuccess hparse =>
    rw [unhindered_iff hactive (understood_of_parsed hparse), modelDue_parsed hphase hsuccess hparse]
    exact iff_of_true (closeTurn_oneOutcome hs) False.elim
  | executed hsuccess hparse htool hexecuted =>
    rw [unhindered_iff hactive (understood_of_parsed hparse), modelDue_parsed hphase hsuccess hparse, hasker,
      hexecuted.oneOutcome_iff hs hactive]
    constructor
    · intro hkey ⟨other, hother, hatOnce⟩
      obtain rfl := Option.some.inj (htool.symm.trans hother)
      exact hkey hatOnce
    · exact fun hkey hatOnce => hkey ⟨_, htool, hatOnce⟩
  | reparsed hsuccess hparse hretries hasked =>
    have hnot : NotUnderstood o s := ⟨hphase, hsuccess, _, hparse⟩
    have hdue : ModelDue o s := (modelDue_parsed hphase hsuccess hparse).mpr hretries
    rw [hasked.reparsed_iff (hturn _) hactive]
    constructor
    · intro ⟨hkey, hstarts⟩ _ _
      exact ⟨hasker.symm ▸ hkey, fun _ => hstarts⟩
    · intro h
      have hkey := h hactive hdue
      rw [hasker] at hkey
      exact ⟨hkey.1, hkey.2 hnot⟩
  | unparsed hsuccess hparse hretries =>
    refine iff_of_true (closeTurn_oneOutcome hs) fun _ hdue => ?_
    exact absurd ((modelDue_parsed hphase hsuccess hparse).mp hdue) hretries

theorem understood_of_phase (hphase : s.phase ≠ .m4Model) : ¬ NotUnderstood o s := fun h => hphase h.1

theorem SummaryDone.oneOutcome (h : SummaryDone env o s next) (hs : Unsettled s.turn) (hactive : s.active = true) :
    OneOutcome next := by
  cases h with
  | retried _ _ _ hsummarizing => exact hsummarizing.oneOutcome hs hactive
  | closed text terminal => exact closeTurn_oneOutcome hs

theorem modelDue_bridge {result : Bytes} (hphase : s.phase = .m5BridgeTool) (hresult : bridgeResult o = .ok result) :
    ModelDue o s ↔ o.capture.truncated = false ∧ GoesOn result s := by
  unfold ModelDue
  rw [hphase, hresult]
  simp

theorem BridgeDone.oneOutcome_iff (h : BridgeDone env o { s with inFlight := false } next) (hphase : s.phase = .m5BridgeTool)
    (hs : Unsettled s.turn) (hactive : s.active = true) : OneOutcome next ↔ Unhindered s (.fetchDone env o) := by
  obtain ⟨result, hresult, -⟩ := bridgeResult_returns o
  rw [unhindered_iff hactive (understood_of_phase (by rw [hphase]; decide)), modelDue_bridge hphase hresult]
  cases h with
  | truncated text htruncated =>
    refine iff_of_true (closeTurn_oneOutcome ?_) fun hdue => by simp [htruncated] at hdue
    exact hs.append ⟨rfl, rfl⟩
  | completed hwhole hother hcompleted =>
    obtain rfl := Except.ok.inj (hresult.symm.trans hother)
    rw [hcompleted.oneOutcome_iff hs hactive, asker, if_pos hphase]
    exact ⟨fun hkey hdue => hkey hdue.2, fun hkey hgoes => hkey ⟨hwhole, hgoes⟩⟩

theorem Fetched.goesOn_iff {result : Bytes} {kept : Loop} (h : Fetched o result s kept) :
    GoesOn kept.toolResult kept ↔ GoesOn (keptResult o result s) s := by
  unfold GoesOn AnswersDirectly
  rw [h.toolResult, h.step, h.call, h.goal]

theorem Fetched.lacksKey_iff {result : Bytes} {kept : Loop} (h : Fetched o result s kept) :
    LacksKey env kept ↔ LacksKey env s := by
  unfold LacksKey useHostOpenaiBridge
  rw [h.hostBridge]

theorem modelDue_fetched {result : Bytes} (hphase : ToolPhase s) (hfetched : fetchedResult o s = .ok (true, result)) :
    ModelDue o s ↔ ¬ Summarized s ∧ GoesOn (keptResult o result s) s := by
  rw [modelDue_tool hphase, hfetched]
  simp

theorem search_phase (hsearch : IsSearch s) : s.phase ≠ .m4FetchUrl := by
  rcases hsearch with h | h
  · simp [h]
  · simp [h]

theorem ToolDone.oneOutcome_iff (h : ToolDone env o { s with inFlight := false } next) (hphase : ToolPhase s)
    (hs : Unsettled s.turn) (hactive : s.active = true) : OneOutcome next ↔ Unhindered s (.fetchDone env o) := by
  rw [unhindered_iff hactive (understood_of_phase hphase.1), asker_of_ne hphase.2.2]
  cases h with
  | failed hfailed =>
    refine iff_of_true (closeTurn_oneOutcome (hs.append ⟨rfl, rfl⟩)) fun hdue => ?_
    obtain ⟨-, result, hresult, -⟩ := (modelDue_tool hphase).mp hdue
    cases hfailed.symm.trans hresult
  | searched hfetched hsearch hcompleted =>
    have hkept : ∀ result, keptResult o result s = result := fun _ => if_neg (search_phase hsearch)
    rw [modelDue_fetched hphase hfetched, hkept, hcompleted.oneOutcome_iff hs hactive]
    constructor
    · exact fun hkey hdue => hkey hdue.2
    · exact fun hkey hgoes => hkey ⟨fun h => search_phase hsearch h.1, hgoes⟩
  | summarized hfetched hsummarized hturn hmid _ _ hsummarizing =>
    rw [modelDue_fetched hphase hfetched]
    refine iff_of_true (hsummarizing.oneOutcome ?_ (hmid.trans hactive)) fun hdue => absurd hsummarized hdue.1
    rw [hturn]
    exact hs.append ⟨rfl, rfl⟩
  | completed hfetched hsearch hsummarized hkept hcompleted =>
    rw [modelDue_fetched hphase hfetched, hcompleted.oneOutcome_iff (hkept.turn.symm ▸ hs) (hkept.active.trans hactive),
      hkept.goesOn_iff, hkept.lacksKey_iff]
    constructor
    · exact fun hkey hdue => hkey hdue.2
    · exact fun hkey hgoes => hkey ⟨hsummarized, hgoes⟩

theorem FetchDone.oneOutcome_iff (h : FetchDone env o s next) (hs : Unsettled s.turn) (hactive : s.active = true) :
    OneOutcome next ↔ Unhindered s (.fetchDone env o) := by
  cases h with
  | model hphase hmodel => exact hmodel.oneOutcome_iff hphase hs hactive
  | summary hphase hsummary =>
    refine iff_of_true (hsummary.oneOutcome hs hactive) fun _ hdue => ?_
    unfold ModelDue at hdue
    rw [hphase] at hdue
    exact hdue.elim
  | bridge hphase hbridge => exact hbridge.oneOutcome_iff hphase hs hactive
  | tool hmodel hsummary hbridge htool => exact htool.oneOutcome_iff ⟨hmodel, hsummary, hbridge⟩ hs hactive

theorem Handled.oneOutcome_iff (h : Handled s event next) (hs : OneOutcome s) : OneOutcome next ↔ Unhindered s event := by
  cases h with
  | line hline =>
    cases hline with
    | ignored hnot => exact iff_of_true hs fun h => absurd h hnot
    | answered text haccepted hinventory =>
      exact iff_of_true (closeTurn_oneOutcome (beginTurn_unsettled _ _)) fun _ hplain => by simp [hinventory] at hplain
    | asked haccepted hplain hasked =>
      rw [hasked.oneOutcome_iff (beginTurn_unsettled _ _) (beginTurn_active _ _)]
      exact ⟨fun h _ _ => h, fun h => h haccepted hplain⟩
  | stray env o hidle => exact iff_of_true hs fun hactive => by simp [hidle] at hactive
  | fetchDone hactive hdone => exact hdone.oneOutcome_iff (hs.waits hactive).2 hactive
  | sessionReset => exact iff_of_true ⟨hs.waits, hs.ended⟩ trivial

/-- Every turn has one outcome just where nothing hinders the loop. -/
theorem one_outcome_iff (hallowed : sessionLoop.Allows {} events) :
    sessionLoop.Throughout OneOutcome {} events ↔ sessionLoop.Meets Unhindered {} events := by
  have hstart : OneOutcome {} := ⟨fun h => absurd h (by decide), fun _ => .inl rfl⟩
  apply Machine.throughout_iff _ (.init rfl) hstart hallowed
  intro s event _ hs _
  exact (sessionLoop_handled s event).oneOutcome_iff hs

theorem refusal_bounded : ({} : Capture).body.length ≤ agentResponseBodyLen := by
  decide

/-- The model refuses the request. -/
def refusal : FetchOutcome := ⟨true, 400, {}, [], refusal_bounded⟩

def refusedRun : List LoopEvent := [.line {} (ascii "hello"), .fetchDone {} refusal]

theorem one_outcome_refused : sessionLoop.Throughout OneOutcome {} refusedRun := by
  obtain ⟨body, hasked, hasking⟩ := @line_asked (ascii "hello") (by decide +kernel) (by decide +kernel)
  have hpossible : LoopEvent.Possible _ (.fetchDone {} refusal) := hasking.inFlight
  have hallowed : sessionLoop.Allows {} refusedRun := (hasked.snoc (sessionLoop_allowed.mpr hpossible)).1
  apply (one_outcome_iff hallowed).mpr
  have hline : Unhindered {} (.line {} (ascii "hello")) := fun _ _ hlacks => absurd hlacks.2 (by decide)
  have hfirst : sessionLoop.Meets Unhindered {} [.line {} (ascii "hello")] := ⟨hline, trivial⟩
  refine hasked.meets_snoc.mpr ⟨hfirst, fun _ hdue => ?_⟩
  exact absurd ((modelDue_failed rfl (by decide)).mp hdue).1 (by decide +kernel)

/-- A response of the model that holds no reply. -/
def noReply : FetchOutcome := received (ascii "x") (by decide)

/-- The model's reply is not understood, and the fetch engine does not take the retry. -/
def retryRun : List LoopEvent := [.line {} (ascii "hello"), .fetchDone { starts := false } noReply]

theorem retry_finishes_twice : ¬ ∀ events, sessionLoop.Allows {} events → sessionLoop.Throughout OneOutcome {} events := by
  intro hall
  obtain ⟨body, hasked, hasking⟩ := @line_asked (ascii "hello") (by decide +kernel) (by decide +kernel)
  have hpossible : LoopEvent.Possible _ (.fetchDone { starts := false } noReply) := hasking.inFlight
  have hallowed : sessionLoop.Allows {} retryRun := (hasked.snoc (sessionLoop_allowed.mpr hpossible)).1
  have hlast := (hasked.meets_snoc.mp ((one_outcome_iff hallowed).mp (hall _ hallowed))).2
  have hparse : ∀ c, parseM4ModelResponse noReply c = .ok (.error (ascii "empty model response")) := by
    intro c
    have htext : extractOpenaiOutputText noReply.capture.body noReply.capture.outputText 16384 = .ok none := by
      decide +kernel
    rw [parseM4ModelResponse, htext]
    rfl
  have hdue : ModelDue noReply (sendRequest (.model body) .m4Model (beginTurn (m4Goal (ascii "hello")) {})) :=
    (modelDue_parsed rfl rfl (hparse _)).mpr (show (0 : ℕ) < m4OpenaiMaxRetries by decide)
  have hstarts := (hlast rfl hdue).2 ⟨rfl, rfl, _, hparse _⟩
  cases hstarts

end Steps

end MiniAgentOS.Agent
