import MiniAgentOS.Agent.Steps
import MiniAgentOS.Fetch.Rounds
import MiniAgentOS.Lib.Runs
import MiniAgentOS.Text.Cut

/-! What is recorded as the result of a tool: the posts that are kept after a search, and the status of a tool of the
bridge. -/
namespace MiniAgentOS.Agent
open Checked Fetch Net Session

section Posts

variable {env : LoopEnv} {o : FetchOutcome} {s mid next : Loop} {key result : Bytes} {r : Loop × Bool} {event : LoopEvent}
  {events : List LoopEvent}

def lastPosts : Bytes := ascii "last_posts"

/-- The step completes a tool with the status `ok` and records its result. -/
def CompletesWith (tool result : Bytes) (s next : Loop) : Prop :=
  ∃ rest, next.turn = s.turn ++ .completed true :: .recorded tool result :: rest

/-- After a search that completes, nothing is kept of an earlier one. -/
def FreshPosts (s : Loop) : LoopEvent → Prop
  | .fetchDone env o => IsSearch s → ∀ next result, s.handle (.fetchDone env o) = .ok next →
      CompletesWith s.call.name result s next → ∀ room, readSessionState room lastPosts next.state <+: result
  | _ => True

/-- The posts that a search brings have room, or go on from those that are kept. -/
def PostsFit (s : Loop) : LoopEvent → Prop
  | .fetchDone _ o => IsSearch s → o.success = true → o.capture.truncated = false →
      ∀ posts, captureRawResponseBody o.capture.body = .ok posts →
        posts.length ≤ sessionStateValueMax ∨ s.state.value lastPosts <+: posts
  | _ => True

theorem reads_prefix_iff {state : SessionState} :
    (∀ room, readSessionState room key state <+: result) ↔ state.value key <+: result := by
  constructor
  · intro h
    have hread := h (state.value key).length
    rwa [readSessionState_eq, List.take_length] at hread
  · intro h room
    rw [readSessionState_eq]
    exact (List.take_prefix room _).trans h

/-- What is kept is in front of the new result, if the write of it is accepted. -/
theorem autoStore_prefix_iff {state : SessionState} (hkey : key ≠ []) (hlen : key.length ≤ sessionStateKeyMax) :
    (autoStore (some key) result state).value key <+: result ↔
      result.length ≤ sessionStateValueMax ∨ state.value key <+: result := by
  unfold autoStore writeSessionState
  by_cases hlong : sessionStateValueMax < result.length
  · have hrefused : Refused key result := .inr (.inr hlong)
    simp only [hrefused, dite_true, Nat.not_le.mpr hlong, false_or]
  · have haccepted : ¬ Refused key result := by
      rintro (hnil | hkeyLong | hvalue)
      · exact hkey hnil
      · omega
      · exact hlong hvalue
    simp only [haccepted, dite_false]
    rw [store_value, if_pos rfl]
    exact iff_of_true (copyUtf8Prefix_isPrefix _ _) (.inl (Nat.not_lt.mp hlong))

theorem Asked.state (h : Asked env s r) (hstarted : s.started = true) : r.1.state = s.state := by
  cases h with
  | sent body => rfl
  | closed reason => exact closeTurn_state hstarted _ _
  | dropped => rfl

theorem Completed.kept {stored : Option Bytes} (h : Completed env stored s mid r) (hstarted : s.started = true) :
    r.1.state = autoStore stored s.toolResult s.state := by
  have hmid := h.prepared.started hstarted
  rw [← h.state hstarted]
  by_cases hgoes : GoesOn s.toolResult s
  · exact (h.asked hgoes).state hmid
  · obtain ⟨text, terminal, rfl⟩ := h.closed hgoes
    exact closeTurn_state hmid _ _

theorem Asked.turn (h : Asked env s r) : ∃ rest, r.1.turn = s.turn ++ rest := by
  cases h with
  | sent body => exact ⟨_, rfl⟩
  | closed reason => exact ⟨_, closeTurn_turn _ _ _⟩
  | dropped => exact ⟨_, rfl⟩

theorem Completed.completesWith {stored : Option Bytes} (h : Completed env stored s mid r) :
    CompletesWith s.call.name s.toolResult s r.1 := by
  have hrest : ∃ rest, r.1.turn = mid.turn ++ rest := by
    by_cases hgoes : GoesOn s.toolResult s
    · exact (h.asked hgoes).turn
    · obtain ⟨text, terminal, rfl⟩ := h.closed hgoes
      exact ⟨_, closeTurn_turn _ _ _⟩
  obtain ⟨rest, hturn⟩ := hrest
  refine ⟨rest, ?_⟩
  rw [hturn, h.prepared.turn, List.append_assoc]
  rfl

theorem CompletesWith.same {tool other : Bytes} (h : CompletesWith tool result s next)
    (hother : CompletesWith tool other s next) : result = other := by
  obtain ⟨rest, hrest⟩ := h
  obtain ⟨more, hmore⟩ := hother
  rw [hrest] at hmore
  have hdeeds := List.append_cancel_left hmore
  simp only [List.cons.injEq, Deed.recorded.injEq, true_and] at hdeeds
  exact hdeeds.1

/-- The result of a search that succeeds is what its response holds. -/
theorem searched_result (hsearch : IsSearch s) :
    fetchedResult o s = .ok (true, result) ↔
      o.success = true ∧ o.capture.truncated = false ∧ captureRawResponseBody o.capture.body = .ok result := by
  have hfetch : s.phase ≠ .m4FetchUrl := by
    rcases hsearch with h | h <;> simp [h]
  have hpost : s.phase ≠ .m4PostUrl := by
    rcases hsearch with h | h <;> simp [h]
  unfold fetchedResult
  simp only [hfetch, hpost, false_and, decide_false, Bool.or_false, if_false]
  by_cases hsuccess : o.success = true
  · by_cases htruncated : o.capture.truncated = true
    · simp only [hsuccess, htruncated, Bool.not_true, Bool.and_false, Bool.and_true, if_true, if_false,
        Bool.false_eq_true]
      constructor
      · intro h
        cases h
      · intro ⟨_, h, _⟩
        cases h
    · obtain ⟨captured, hcaptured, -⟩ := captureRawResponseBody_returns o.capture.body
      simp [hsuccess, htruncated, hcaptured]
  · obtain ⟨reason, hreason, -⟩ := buildOpenaiFailureReason_returns (phaseName s.call.name) o
    simp [hsuccess, hreason]

/-- A search ends as completed, or with the status `error`. -/
theorem search_done (h : FetchDone env o s next) (hsearch : IsSearch s) :
    (∃ result mid r, fetchedResult o s = .ok (true, result) ∧
      Completed env (some lastPosts) { s with inFlight := false, toolResult := result } mid r ∧ next = r.1) ∨
    ∃ result rest, fetchedResult o s = .ok (false, result) ∧ next.turn = s.turn ++ .completed false :: rest := by
  have hnot : s.phase ≠ .m4Model ∧ s.phase ≠ .m4SummaryModel ∧ s.phase ≠ .m5BridgeTool ∧ s.phase ≠ .m4FetchUrl := by
    rcases hsearch with h | h <;> simp [h]
  cases h with
  | model hphase => exact absurd hphase hnot.1
  | summary hphase => exact absurd hphase hnot.2.1
  | bridge hphase => exact absurd hphase hnot.2.2.1
  | tool _ _ _ htool =>
    cases htool with
    | @failed result hfetched =>
      right
      refine ⟨result, [.answered result, .finished .failed], hfetched, ?_⟩
      simp [Loop.act]
    | searched hfetched _ hcompleted => exact .inl ⟨_, _, _, hfetched, hcompleted, rfl⟩
    | summarized _ hsummarized => exact absurd hsummarized.1 hnot.2.2.2
    | completed _ hother => exact absurd hsearch hother

theorem freshPosts_iff (hs : Awaits s) (hpossible : event.Possible s) : FreshPosts s event ↔ PostsFit s event := by
  cases event with
  | line env text => exact Iff.rfl
  | sessionReset => exact Iff.rfl
  | fetchDone env o =>
    obtain ⟨hactive, hstarted⟩ := hs hpossible
    obtain ⟨next, hnext, hhandled⟩ := handle_returns s (.fetchDone env o)
    have hdone : FetchDone env o s next := by
      cases hhandled with
      | stray _ _ hidle => exact absurd hactive (by simp [hidle])
      | fetchDone _ hdone => exact hdone
    have hkept : ∀ hsearch : IsSearch s, ∀ result mid (r : Loop × Bool),
        Completed env (some lastPosts) { s with inFlight := false, toolResult := result } mid r →
        (r.1.state.value lastPosts <+: result ↔
          result.length ≤ sessionStateValueMax ∨ s.state.value lastPosts <+: result) := by
      intro _ result mid r hcompleted
      rw [hcompleted.kept hstarted]
      exact autoStore_prefix_iff (by decide) (by decide)
    constructor
    · intro hfresh hsearch hsuccess hwhole posts hposts
      have hfetched := (searched_result hsearch).mpr ⟨hsuccess, hwhole, hposts⟩
      rcases search_done hdone hsearch with ⟨result, mid, r, hresult, hcompleted, rfl⟩ | ⟨result, rest, hresult, -⟩
      · rw [hfetched, Except.ok.injEq, Prod.mk.injEq] at hresult
        obtain ⟨-, rfl⟩ := hresult
        rw [← hkept hsearch posts mid r hcompleted, ← reads_prefix_iff]
        exact hfresh hsearch r.1 posts hnext hcompleted.completesWith
      · rw [hfetched] at hresult
        cases hresult
    · intro hfit hsearch other result hother hcompletes
      rw [hnext, Except.ok.injEq] at hother
      obtain rfl := hother
      rw [reads_prefix_iff]
      rcases search_done hdone hsearch with ⟨found, mid, r, hfound, hcompleted, rfl⟩ | ⟨found, rest, -, hturn⟩
      · obtain rfl : found = result := CompletesWith.same hcompleted.completesWith hcompletes
        obtain ⟨hsuccess, hwhole, hposts⟩ := (searched_result hsearch).mp hfound
        rw [hkept hsearch found mid r hcompleted]
        exact hfit hsearch hsuccess hwhole found hposts
      · obtain ⟨more, hmore⟩ := hcompletes
        rw [hturn] at hmore
        have hdeeds := List.append_cancel_left hmore
        simp at hdeeds

def searchText : Bytes := ascii "\x7b\"type\":\"tool\",\"tool\":\"search_recent_posts\",\"query\":\"q\"\x7d"

def searchCall : ToolCall := ⟨ascii "search_recent_posts", ascii "q", []⟩

def searchReply : FetchOutcome :=
  replied searchText
    (ascii "\x7b\"type\":\"output_text\",\"text\":\"\x7b\\\"type\\\":\\\"tool\\\",\\\"tool\\\":\\\"search_recent_posts\\\",\\\"query\\\":\\\"q\\\"\x7d\"\x7d")
    (by decide)

theorem searchText_parse (c : PromptContext) : parseM4Reply c searchText = .ok (.ok (.tool searchCall)) := by
  have hkind : jsonExtractStringLocal searchText (ascii "type") m4ToolNameMax = .ok (ascii "tool") := by decide +kernel
  have hname : jsonExtractStringLocal searchText (ascii "tool") m4ToolNameMax = .ok (ascii "search_recent_posts") := by
    decide +kernel
  rw [parseM4Reply_tool hkind rfl hname (by decide)]
  decide +kernel

/-- The loop waits for the posts of a search. -/
structure Searching (steps : ℕ) (posts : Bytes) (s : Loop) : Prop where
  active : s.active = true
  started : s.started = true
  inFlight : s.inFlight = true
  phase : s.phase = .m4SearchRecent
  call : s.call = searchCall
  step : s.step = steps
  kept : s.state.value lastPosts = posts

theorem Asking.search {steps : ℕ} {posts : Bytes} (h : Asking s) (hstep : s.step = steps)
    (hkept : s.state.value lastPosts = posts) (hleads : sessionLoop.Leads {} events s) :
    ∃ next, sessionLoop.Leads {} (events ++ [.fetchDone {} searchReply]) next ∧ Searching steps posts next := by
  have hsync : firstNamed syncTools searchCall.name = none := by decide
  have hasync : firstNamed asyncTools searchCall.name = some .searchRecentPosts := by decide
  have hpath : buildSearchPath m4PathBufLen searchCall.arg1 ≠ [] := by decide +kernel
  have hparse : ∀ c, parseM4ModelResponse searchReply c = .ok (.ok (.tool searchCall)) :=
    fun c => replied_parse _ (by decide) (by decide) (searchText_parse c)
  have hnext : ∀ s : Loop, executeTool {} searchCall s =
      .ok (sendRequest (.search (buildSearchPath m4PathBufLen searchCall.arg1)) .m4SearchRecent
        ({ s with call := searchCall }.act (.called .searchRecentPosts))) := by
    intro s
    unfold executeTool executeSyncTool executeAsyncTool
    rw [hsync, hasync]
    simp [hpath, startRequest_eq]
    rfl
  exact ⟨_, h.called hleads rfl (hparse _) (hnext _), h.active, h.started, rfl, rfl, rfl, hstep, hkept⟩

theorem Searching.complete {steps : ℕ} {old posts body : Bytes} (h : Searching steps old s)
    (hleads : sessionLoop.Leads {} events s) (hsteps : steps < 12) (bounded : body.length ≤ agentResponseBodyLen)
    (hposts : captureRawResponseBody body = .ok posts) (hlen : posts.length ≤ sessionStateValueMax) :
    ∃ next, sessionLoop.Leads {} (events ++ [.fetchDone {} (received body bounded)]) next ∧
      Asking next ∧ next.step = steps + 1 ∧
        next.state.value lastPosts = copyUtf8Prefix sessionStateValueMax posts := by
  obtain ⟨next, hnext, hhandled⟩ := handle_returns s (.fetchDone {} (received body bounded))
  have hsearch : IsSearch s := .inl h.phase
  have hfetched : fetchedResult (received body bounded) s = .ok (true, posts) :=
    (searched_result hsearch).mpr ⟨rfl, rfl, hposts⟩
  have hkept : (autoStore (some lastPosts) posts s.state).value lastPosts = copyUtf8Prefix sessionStateValueMax posts := by
    have haccepted : ¬ Refused lastPosts posts := by
      rintro (hkey | hkey | hvalue)
      · exact absurd hkey (by decide)
      · exact absurd hkey (by decide)
      · omega
    simp only [autoStore, writeSessionState, haccepted, dite_false]
    rw [store_value, if_pos rfl]
  cases hhandled with
  | stray _ _ hidle => exact absurd h.active (by simp [hidle])
  | fetchDone _ hdone =>
    rcases search_done hdone hsearch with ⟨result, mid, r, hresult, hcompleted, rfl⟩ | ⟨result, rest, hresult, -⟩
    swap
    · rw [hfetched] at hresult
      cases hresult
    rw [hfetched, Except.ok.injEq, Prod.mk.injEq] at hresult
    obtain ⟨-, rfl⟩ := hresult
    have hgoes : GoesOn posts { s with inFlight := false, toolResult := posts } := by
      refine ⟨?_, fun hdirect => ?_⟩
      · change (s.step + 1) % 256 ≤ 12
        rw [h.step]
        omega
      · have hname := hdirect.1
        change startsWithTool s.call.name (ascii "read_process_output") = true at hname
        rw [h.call] at hname
        exact absurd hname (by decide)
    have hstep := hcompleted.step
    have hstate := hcompleted.state h.started
    have hprepared := hcompleted.prepared
    have hpossible : LoopEvent.Possible s (.fetchDone {} (received body bounded)) := h.inFlight
    have hlast := leads_handle hleads hpossible hnext
    cases hcompleted.asked hgoes with
    | sent request =>
      refine ⟨_, hlast, ⟨hprepared.active.trans h.active, hprepared.started h.started, rfl, rfl⟩, ?_, ?_⟩
      · change mid.step = steps + 1
        rw [hstep]
        change (s.step + 1) % 256 = steps + 1
        rw [h.step]
        omega
      · change mid.state.value lastPosts = _
        rw [hstate]
        exact hkept
    | closed _ _ hbusy => cases hbusy
    | dropped hlacks => exact absurd hlacks.2 (by decide)

/-- The posts that are kept are fresh after every search just where they have room. -/
theorem posts_fresh_iff (hallowed : sessionLoop.Allows {} events) :
    sessionLoop.Meets FreshPosts {} events ↔ sessionLoop.Meets PostsFit {} events := by
  apply Machine.meets_congr _ (.init rfl) hallowed
  intro s event hs hevent
  exact freshPosts_iff (reachable_awaits hs) (sessionLoop_allowed.mp hevent)

def freshRun : List LoopEvent :=
  [.line {} (ascii "find posts"), .fetchDone {} searchReply, .fetchDone {} (received (ascii "old") (by decide))]

theorem posts_fresh_first : sessionLoop.Meets FreshPosts {} freshRun := by
  obtain ⟨body, hasked, hasking⟩ := @line_asked (ascii "find posts") (by decide +kernel) (by decide +kernel)
  obtain ⟨searching, hcalled, hsearching⟩ := hasking.search (show _ = 0 from rfl) (show _ = [] from rfl) hasked
  have hold : captureRawResponseBody (ascii "old") = .ok (ascii "old") := by decide +kernel
  obtain ⟨again, hfound, -⟩ := hsearching.complete hcalled (by decide) (by decide) hold (by decide)
  have hallowed : sessionLoop.Allows {} freshRun := hfound.1
  apply (posts_fresh_iff hallowed).mpr
  have hfirst : sessionLoop.Meets PostsFit {} [.line {} (ascii "find posts")] := ⟨trivial, trivial⟩
  have hreply : PostsFit (sendRequest (.model body) .m4Model (beginTurn (m4Goal (ascii "find posts")) {}))
      (.fetchDone {} searchReply) := by
    rintro (hphase | hphase)
    · cases hphase
    · cases hphase
  have hfits : PostsFit searching (.fetchDone {} (received (ascii "old") (by decide))) := by
    intro _ _ _ posts hposts
    left
    rw [received, hold, Except.ok.injEq] at hposts
    rw [← hposts]
    decide
  exact hcalled.meets_snoc.mpr ⟨hasked.meets_snoc.mpr ⟨hfirst, hreply⟩, hfits⟩

/-- The second search brings more than the state holds. -/
def manyPosts : Bytes := 98 :: (List.replicate 2047 98 ++ [98])

theorem manyPosts_length : manyPosts.length = 2049 := by
  unfold manyPosts
  rw [List.length_cons, List.length_append, List.length_replicate]
  rfl

theorem manyPosts_all : ∀ b ∈ manyPosts, b = 98 := by
  intro b hb
  rcases List.mem_cons.mp hb with rfl | hb
  · rfl
  · rcases List.mem_append.mp hb with hb | hb
    · exact List.eq_of_mem_replicate hb
    · exact List.mem_singleton.mp hb

theorem manyPosts_captured : captureRawResponseBody manyPosts = .ok manyPosts := by
  have hall : manyPosts.take toolResultLimit = manyPosts := by
    rw [List.take_of_length_le]
    rw [manyPosts_length]
    decide
  have htrim : trimText manyPosts = .ok manyPosts := trimText_eq (by decide) (by decide)
  rw [captureRawResponseBody, htrim, Except.map_ok, hall]

theorem manyPosts_bounded : manyPosts.length ≤ agentResponseBodyLen := by
  rw [manyPosts_length]
  decide

def staleRun : List LoopEvent :=
  [.line {} (ascii "find posts"), .fetchDone {} searchReply, .fetchDone {} (received (ascii "old") (by decide)),
    .fetchDone {} searchReply, .fetchDone {} (received manyPosts manyPosts_bounded)]

theorem stale_posts_kept : ¬ ∀ events, sessionLoop.Allows {} events → sessionLoop.Meets FreshPosts {} events := by
  intro hall
  obtain ⟨body, hasked, hasking⟩ := @line_asked (ascii "find posts") (by decide +kernel) (by decide +kernel)
  obtain ⟨searching, hcalled, hsearching⟩ := hasking.search (show _ = 0 from rfl) (show _ = [] from rfl) hasked
  have hold : captureRawResponseBody (ascii "old") = .ok (ascii "old") := by decide +kernel
  obtain ⟨again, hfound, hagain, hstep, hkept⟩ := hsearching.complete hcalled (by decide) (by decide) hold (by decide)
  obtain ⟨last, hlast, hwaits⟩ := hagain.search hstep hkept hfound
  have hpossible : LoopEvent.Possible last (.fetchDone {} (received manyPosts manyPosts_bounded)) := hwaits.inFlight
  have hrun : sessionLoop.Allows {} staleRun := (hlast.snoc (sessionLoop_allowed.mpr hpossible)).1
  have hfit := (hlast.meets_snoc.mp ((posts_fresh_iff hrun).mp (hall _ hrun))).2
  rcases hfit (.inl hwaits.phase) rfl rfl manyPosts manyPosts_captured with hlong | hkept
  · rw [manyPosts_length] at hlong
    exact absurd hlong (by decide)
  · rw [hwaits.kept] at hkept
    have hold : (111 : UInt8) ∈ manyPosts := hkept.subset (by decide +kernel)
    exact absurd (manyPosts_all _ hold) (by decide)

end Posts

section BridgeStatus

variable {env : LoopEnv} {o : FetchOutcome} {s next : Loop} {event : LoopEvent} {events : List LoopEvent}

/-- The headers of a response were read: `HTTP_STATUS` is 0 from the start of a request until then. -/
def FetchOutcome.Answered (o : FetchOutcome) : Prop := o.status ≠ 0

/-- The fetch ended with a failure. The one reason that does not end it is that of a redirect. -/
def FetchOutcome.Broken (o : FetchOutcome) : Prop := o.reason ≠ [] ∧ o.reason ≠ ascii "redirect url too long"

/-- A step gives a tool the status `ok`, or records a result of it. -/
def Reports (s next : Loop) : Prop :=
  ∃ deeds, next.turn = s.turn ++ deeds ∧ (.completed true ∈ deeds ∨ ∃ tool result, .recorded tool result ∈ deeds)

/-- A tool of the bridge has the status `ok`, and a result that is recorded, only after a response of the bridge. -/
def HonestStatus (s : Loop) : LoopEvent → Prop
  | .fetchDone env o => s.phase = .m5BridgeTool → ∀ next, s.handle (.fetchDone env o) = .ok next → Reports s next →
      o.Answered ∧ ¬ o.Broken
  | _ => True

/-- The bridge answers, or the flag of the capture is up. -/
def BridgeAnswers (s : Loop) : LoopEvent → Prop
  | .fetchDone _ o => s.phase = .m5BridgeTool → o.capture.truncated = true ∨ o.Answered ∧ ¬ o.Broken
  | _ => True

theorem honestStatus_iff (hs : Awaits s) (hpossible : event.Possible s) : HonestStatus s event ↔ BridgeAnswers s event := by
  cases event with
  | line env text => exact Iff.rfl
  | sessionReset => exact Iff.rfl
  | fetchDone env o =>
    obtain ⟨hactive, -⟩ := hs hpossible
    obtain ⟨next, hnext, hhandled⟩ := handle_returns s (.fetchDone env o)
    apply imp_congr_right
    intro hphase
    have hbridge : BridgeDone env o { s with inFlight := false } next := by
      cases hhandled with
      | stray _ _ hidle => exact absurd hactive (by simp [hidle])
      | fetchDone _ hdone =>
        cases hdone with
        | model hother => exact absurd (hphase.symm.trans hother) (by decide)
        | summary hother => exact absurd (hphase.symm.trans hother) (by decide)
        | bridge _ hbridge => exact hbridge
        | tool _ _ hother => exact absurd hphase hother
    have hreports : Reports s next ↔ o.capture.truncated = false := by
      cases hbridge with
      | truncated text htruncated =>
        refine iff_of_false ?_ (by simp [htruncated])
        intro ⟨deeds, hdeeds, hreport⟩
        rw [closeTurn_turn, Loop.act, List.append_assoc] at hdeeds
        have hsame := List.append_cancel_left hdeeds
        rw [← hsame] at hreport
        simp at hreport
      | completed hwhole _ hcompleted =>
        refine iff_of_true ?_ hwhole
        obtain ⟨rest, hrest⟩ := hcompleted.completesWith
        exact ⟨_, hrest, .inl List.mem_cons_self⟩
    constructor
    · intro hhonest
      by_cases htruncated : o.capture.truncated = true
      · exact .inl htruncated
      · exact .inr (hhonest next hnext (hreports.mpr (by simpa using htruncated)))
    · intro hanswers other hother hreport
      rw [hnext, Except.ok.injEq] at hother
      obtain rfl := hother
      rw [hreports] at hreport
      exact hanswers.resolve_left (by simp [hreport])

/-- The status of the tools of the bridge is honest just where the bridge answers. -/
theorem bridge_honest_iff (hallowed : sessionLoop.Allows {} events) :
    sessionLoop.Meets HonestStatus {} events ↔ sessionLoop.Meets BridgeAnswers {} events := by
  apply Machine.meets_congr _ (.init rfl) hallowed
  intro s event hs hevent
  exact honestStatus_iff (reachable_awaits hs) (sessionLoop_allowed.mp hevent)

def listText : Bytes := ascii "\x7b\"type\":\"tool\",\"tool\":\"list_workspace\",\"path\":\"src\"\x7d"

def listCall : ToolCall := ⟨ascii "list_workspace", ascii "src", []⟩

def listReply : FetchOutcome :=
  replied listText
    (ascii "\x7b\"type\":\"output_text\",\"text\":\"\x7b\\\"type\\\":\\\"tool\\\",\\\"tool\\\":\\\"list_workspace\\\",\\\"path\\\":\\\"src\\\"\x7d\"\x7d")
    (by decide)

theorem listText_parse (c : PromptContext) : parseM4Reply c listText = .ok (.ok (.tool listCall)) := by
  have hkind : jsonExtractStringLocal listText (ascii "type") m4ToolNameMax = .ok (ascii "tool") := by decide +kernel
  have hname : jsonExtractStringLocal listText (ascii "tool") m4ToolNameMax = .ok (ascii "list_workspace") := by
    decide +kernel
  rw [parseM4Reply_tool hkind rfl hname (by decide)]
  decide +kernel

theorem Asking.list (h : Asking s) (hleads : sessionLoop.Leads {} events s) :
    ∃ next, sessionLoop.Leads {} (events ++ [.fetchDone {} listReply]) next ∧ next.phase = .m5BridgeTool ∧
      next.inFlight = true := by
  have hsync : firstNamed syncTools listCall.name = none := by decide
  have hasync : firstNamed asyncTools listCall.name = some .listWorkspace := by decide
  have hparse : parseM4ModelResponse listReply s.context = .ok (.ok (.tool listCall)) :=
    replied_parse _ (by decide) (by decide) (listText_parse _)
  have hnext : executeTool {} listCall { s with inFlight := false } =
      .ok (sendRequest (.bridgeGet (buildM5ListPath m4PathBufLen listCall.arg1)) .m5BridgeTool
        ({ s with inFlight := false, call := listCall }.act (.called .listWorkspace))) := by
    unfold executeTool executeSyncTool executeAsyncTool
    rw [hsync, hasync]
    simp [bridgeRead, startRequest_eq]
    rfl
  exact ⟨_, h.called hleads rfl hparse hnext, rfl, rfl⟩

def listedRun (o : FetchOutcome) : List LoopEvent :=
  [.line {} (ascii "list my files"), .fetchDone {} listReply, .fetchDone {} o]

/-- A run in which the bridge ends with any outcome. -/
theorem listed_meets (o : FetchOutcome) : sessionLoop.Allows {} (listedRun o) ∧
    (sessionLoop.Meets BridgeAnswers {} (listedRun o) ↔ o.capture.truncated = true ∨ o.Answered ∧ ¬ o.Broken) := by
  obtain ⟨body, hasked, hasking⟩ := @line_asked (ascii "list my files") (by decide +kernel) (by decide +kernel)
  obtain ⟨listing, hcalled, hphase, hflight⟩ := hasking.list hasked
  have hpossible : LoopEvent.Possible listing (.fetchDone {} o) := hflight
  refine ⟨(hcalled.snoc (sessionLoop_allowed.mpr hpossible)).1, ?_⟩
  have hfirst : sessionLoop.Meets BridgeAnswers {} [.line {} (ascii "list my files")] := ⟨trivial, trivial⟩
  have hreply : BridgeAnswers (sendRequest (.model body) .m4Model (beginTurn (m4Goal (ascii "list my files")) {}))
      (.fetchDone {} listReply) := by
    intro hother
    cases hother
  have hlast : BridgeAnswers listing (.fetchDone {} o) ↔ o.capture.truncated = true ∨ o.Answered ∧ ¬ o.Broken :=
    forall_prop_of_true hphase
  rw [← hlast]
  refine hcalled.meets_snoc.trans (and_iff_right ?_)
  exact hasked.meets_snoc.mpr ⟨hfirst, hreply⟩

theorem bridge_honest_listed :
    sessionLoop.Meets HonestStatus {} (listedRun (received (ascii "\x7b\"entries\":[]\x7d") (by decide))) := by
  obtain ⟨hallowed, hmeets⟩ := listed_meets (received (ascii "\x7b\"entries\":[]\x7d") (by decide))
  apply (bridge_honest_iff hallowed).mpr
  rw [hmeets]
  right
  refine ⟨by unfold FetchOutcome.Answered; decide, fun hbroken => hbroken.1 rfl⟩

/-- What the loop is told of the end of a fetch. -/
def fetchOutcome (k : Kernel) (bounded : k.agent.capture.body.length ≤ agentResponseBodyLen) : FetchOutcome :=
  ⟨k.conn.gotResp, k.http.status, k.agent.capture, k.conn.errorReason, bounded⟩

/-- The bridge does not answer in any of the rounds of a request. -/
def silentRun : List Event :=
  [.line (ascii "\x7b\x7d") ⟨⟨0, true, true, 0⟩, none, none, some
    [⟨⟨0, true, true, 0⟩, .m5BridgeTool, .bridge (ascii "/workspace/list?path=src") none⟩]⟩,
   localTick 31000, localTick 62000, localTick 93000, localTick 124000]

theorem silentRun_done :
    let k := (kernelMachine localConfig).run {} silentRun
    k.conn.state = .done ∧ k.conn.errorReason = ascii "network request timed out" ∧ k.http.status = 0 ∧
      k.agent.capture = {} := by
  decide +kernel

theorem timeout_reported_ok : ¬ ∀ events, sessionLoop.Allows {} events → sessionLoop.Meets HonestStatus {} events := by
  intro hall
  obtain ⟨-, -, hstatus, hcapture⟩ := silentRun_done
  let k := (kernelMachine localConfig).run {} silentRun
  have hbounded : k.agent.capture.body.length ≤ agentResponseBodyLen := by
    rw [show k.agent.capture = {} from hcapture]
    decide
  obtain ⟨hallowed, hmeets⟩ := listed_meets (fetchOutcome k hbounded)
  rcases hmeets.mp ((bridge_honest_iff hallowed).mp (hall _ hallowed)) with htruncated | ⟨hanswered, -⟩
  · change k.agent.capture.truncated = true at htruncated
    rw [show k.agent.capture = {} from hcapture] at htruncated
    cases htruncated
  · exact hanswered hstatus

end BridgeStatus

end MiniAgentOS.Agent
