import MiniAgentOS.Http.Segmentation
import MiniAgentOS.Lib.Partial

/-! What the parser hands on of a response whose headers come whole: body bytes, and no complaint about the headers. -/
namespace MiniAgentOS.Http
open Checked

variable {http next : HttpParser} {data stream : Bytes} {pieces : List Bytes} {effects : List HttpEffect}

section Rounds

variable {s : FeedState}

/-- Body bytes where there are some, or something else than that the headers are too large. -/
def HttpEffect.Proper : HttpEffect → Prop
  | .body data _ => data ≠ []
  | .headersTooLarge => False
  | _ => True

/-- The loop is behind the headers, and what it has handed on is proper. -/
structure BehindHeaders (s : FeedState) : Prop where
  state : s.http.state ≠ .headers
  proper : ∀ effect ∈ s.effects, effect.Proper

theorem BehindHeaders.body (h : BehindHeaders s) {piece : Bytes} (hne : piece ≠ []) (json : Bool) :
    ∀ effect ∈ s.effects ++ [.body piece json], effect.Proper := by
  intro effect hin
  rcases List.mem_append.mp hin with hold | hnew
  · exact h.proper effect hold
  · rw [List.mem_singleton.mp hnew]
    exact hne

theorem slice_ne {start stop : ℕ} {piece : Bytes} (h : slice data start stop = .ok piece) (hlt : start < stop) : piece ≠ [] := by
  unfold slice at h
  split_ifs at h with hfits
  · obtain rfl := Except.ok.inj h
    apply List.ne_nil_of_length_pos
    rw [List.length_drop, List.length_take]
    omega

theorem feedBody_proper (h : BehindHeaders s) (hstate : s.http.state = .body) :
    Ensures (feedBody data s) (RoundEnsures BehindHeaders fun r => ∀ effect ∈ r.2, effect.Proper) := by
  unfold feedBody
  rw [ensures_bind]
  intro rest _
  dsimp only
  rw [ensures_ite]
  constructor
  · exact fun _ => ensures_pure.mpr h.proper
  · intro htake
    rw [ensures_bind]
    intro piece hpiece
    have hbody := h.body (slice_ne hpiece (by omega)) s.http.isJson
    rw [ensures_ite]
    constructor
    · exact fun _ => ensures_pure.mpr hbody
    · exact fun _ => ensures_pure.mpr ⟨by simp [hstate], hbody⟩

theorem feedChunkData_proper (h : BehindHeaders s) (hstate : s.http.state = .chunkData) :
    Ensures (feedChunkData data s) (RoundEnsures BehindHeaders fun r => ∀ effect ∈ r.2, effect.Proper) := by
  unfold feedChunkData
  rw [ensures_bind]
  intro rest _
  dsimp only
  rw [ensures_ite]
  constructor
  · exact fun _ => ensures_pure.mpr h.proper
  · intro htake
    rw [ensures_bind]
    intro piece hpiece
    have hbody := h.body (slice_ne hpiece (by omega)) s.http.isJson
    refine ensures_pure.mpr ⟨?_, hbody⟩
    dsimp only
    split_ifs
    · simp
    · simp [hstate]

theorem feedChunkSize_proper (h : BehindHeaders s) (hstate : s.http.state = .chunkSize) :
    Ensures (feedChunkSize data s) (RoundEnsures BehindHeaders fun r => ∀ effect ∈ r.2, effect.Proper) := by
  unfold feedChunkSize
  rw [ensures_bind]
  intro b _
  rw [chunkSizeByte_eq, ok_bind]
  refine ensures_pure.mpr ⟨?_, h.proper⟩
  rcases chunkSizeStep_state hstate b with hsame | ⟨-, hne⟩
  · simp [hsame]
  · exact hne

theorem feedChunkEnd_proper (h : BehindHeaders s) :
    Ensures (feedChunkEnd data s) (RoundEnsures BehindHeaders fun r => ∀ effect ∈ r.2, effect.Proper) := by
  unfold feedChunkEnd
  rw [ensures_bind]
  intro b _
  rw [ensures_ite]
  constructor
  · intro _
    rw [ensures_bind]
    intro skip _
    exact ensures_pure.mpr ⟨by simp, h.proper⟩
  · exact fun _ => ensures_pure.mpr ⟨h.state, h.proper⟩

theorem feedRound_proper (h : BehindHeaders s) :
    Ensures (feedRound data s) (RoundEnsures BehindHeaders fun r => ∀ effect ∈ r.2, effect.Proper) := by
  unfold feedRound
  rw [ensures_ite]
  constructor
  · intro _
    cases hstate : s.http.state with
    | headers => exact absurd hstate h.state
    | body => exact feedBody_proper h hstate
    | chunkSize => exact feedChunkSize_proper h hstate
    | chunkData => exact feedChunkData_proper h hstate
    | chunkEnd => exact feedChunkEnd_proper h
    | complete => exact ensures_pure.mpr h.proper
  · exact fun _ => ensures_pure.mpr h.proper

theorem loop_proper (h : BehindHeaders s) (fuel : ℕ) :
    Ensures (loop (feedRound data) fuel s) fun r => ∀ effect ∈ r.2, effect.Proper :=
  ensures_loop BehindHeaders (fun _ => feedRound_proper) h fuel

end Rounds

section Pieces

theorem feedAll_cons_eq_ok (h : feedAll http (data :: pieces) = .ok (next, effects)) :
    ∃ mid first later, httpFeed http data = .ok (mid, first) ∧ feedAll mid pieces = .ok (next, later) ∧
      effects = first ++ later := by
  rw [feedAll] at h
  cases hfeed : httpFeed http data with
  | error trap =>
    rw [hfeed] at h
    cases h
  | ok fed =>
    obtain ⟨mid, first⟩ := fed
    rw [hfeed, ok_bind] at h
    dsimp only at h
    cases hrest : feedAll mid pieces with
    | error trap =>
      rw [hrest] at h
      cases h
    | ok rest =>
      rw [hrest] at h
      cases h
      exact ⟨mid, first, rest.2, rfl, hrest, rfl⟩

theorem httpFeed_inBody (hbody : InBody http) (h : httpFeed http data = .ok (next, effects)) : InBody next := by
  have hrun := congrArg Prod.fst ((httpFeed_body hbody data).of_eq h)
  have hnext := hbody.run data
  rwa [← hrun] at hnext

theorem httpFeed_proper (hbody : InBody http) (h : httpFeed http data = .ok (next, effects)) :
    ∀ effect ∈ effects, effect.Proper := by
  have hstart : BehindHeaders ⟨http, [], 0⟩ := ⟨hbody.state, by simp⟩
  exact loop_proper hstart _ _ h

theorem applyHeaders_proper (http : HttpParser) (info : HeaderInfo) :
    ∀ effect ∈ (applyHeaders http info).2, effect.Proper := by
  unfold applyHeaders
  dsimp only
  intro effect hin
  simp only [List.mem_append, List.mem_map] at hin
  rcases hin with (⟨_, -, rfl⟩ | ⟨_, -, rfl⟩) | hstatus
  · trivial
  · trivial
  · split_ifs at hstatus
    · rw [List.mem_singleton.mp hstatus]
      trivial
    · cases hstatus

/-- A piece that completes the headers, which fit. -/
theorem httpFeed_some_proper {e : ℕ} (hstate : http.state = .headers) (hend : headerEnd data = some e)
    (hfits : http.header.length + e ≤ headerBufLen) (h : httpFeed http data = .ok (next, effects)) :
    ∀ effect ∈ effects, effect.Proper := by
  obtain ⟨hfour, hle, -⟩ := headerEnd_eq_some hend
  have hpos : 0 < data.length := by omega
  have hfind := findHeaderEnd_eq data 0 (Nat.zero_le _)
  rw [List.drop_zero, hend] at hfind
  have hslice : slice data 0 e = .ok (data.take e) := by
    rw [slice_eq (Nat.zero_le _) hle, List.drop_zero]
  have hfits' : http.header.length + (data.take e).length ≤ headerBufLen := by
    rw [List.length_take]
    omega
  rw [httpFeed, loop, feedRound_headers hpos hstate] at h
  simp only [feedHeaders, hfind, Option.map_some, ok_bind, hslice, hfits', if_true, extend_eq hfits', Nat.add_zero] at h
  cases hinfo : httpParseHeaders (http.header ++ data.take e) (http.header ++ data.take e).length
    http.chunked http.isJson http.contentLen with
  | error trap =>
    rw [hinfo] at h
    cases h
  | ok info =>
    rw [hinfo] at h
    have hbody := inBody_applyHeaders { http with header := http.header ++ data.take e } info
    have hproper := applyHeaders_proper { http with header := http.header ++ data.take e } info
    refine loop_proper ?_ _ _ h
    refine ⟨hbody.state, ?_⟩
    intro effect hin
    rcases List.mem_append.mp hin with hheader | hmore
    · rw [List.mem_singleton.mp hheader]
      trivial
    · exact hproper effect hmore

/-- A piece of the headers, which fits. -/
theorem httpFeed_none_proper (hstate : http.state = .headers) (hend : headerEnd data = none)
    (hfits : http.header.length + data.length ≤ headerBufLen) (h : httpFeed http data = .ok (next, effects)) :
    ∀ effect ∈ effects, effect.Proper := by
  by_cases hne : data = []
  · rw [hne, httpFeed_nil] at h
    cases h
    simp
  have hpos : 0 < data.length := List.length_pos_iff.mpr hne
  have hfind := findHeaderEnd_eq data 0 (Nat.zero_le _)
  rw [List.drop_zero, hend] at hfind
  have hslice : slice data 0 data.length = .ok data := by
    rw [slice_eq (Nat.zero_le _) le_rfl, List.take_length, List.drop_zero]
  rw [httpFeed, loop, feedRound_headers hpos hstate] at h
  simp only [feedHeaders, hfind, Option.map_none, ok_bind, hslice, hfits, if_true, extend_eq hfits] at h
  cases h
  simp [HttpEffect.Proper]

theorem feedAll_body_proper (hbody : InBody http) (h : feedAll http pieces = .ok (next, effects)) :
    ∀ effect ∈ effects, effect.Proper := by
  induction pieces generalizing http effects with
  | nil =>
    cases h
    simp
  | cons data pieces ih =>
    obtain ⟨mid, first, later, hfeed, hrest, rfl⟩ := feedAll_cons_eq_ok h
    intro effect hin
    rcases List.mem_append.mp hin with hfirst | hlater
    · exact httpFeed_proper hbody hfeed effect hfirst
    · exact ih (httpFeed_inBody hbody hfeed) hrest effect hlater

/-- A piece that completes the headers leads into the body. -/
theorem httpFeed_some_inBody {e : ℕ} (hstate : http.state = .headers) (hend : headerEnd data = some e)
    (hfits : http.header.length + e ≤ headerBufLen) (h : httpFeed http data = .ok (next, effects)) :
    InBody next := by
  have hdelivered := httpFeed_headers_some hstate hend hfits
  rw [h] at hdelivered
  cases hread : readHeaders http (http.header ++ data.take e) with
  | error trap =>
    rw [hread] at hdelivered
    cases hdelivered
  | ok parsed =>
    rw [hread] at hdelivered
    have hrun : (next, bodyBytes effects) = bodyRun parsed (data.drop e) := Except.ok.inj hdelivered
    have hbody := (readHeaders_inBody parsed hread).run (data.drop e)
    rwa [← congrArg Prod.fst hrun] at hbody

/-- Pieces of headers that fit, one that completes them, and what follows. -/
theorem feedAll_headers_proper {e : ℕ} (before after : List Bytes) (hstate : http.state = .headers)
    (hnone : ∀ m, ¬ Piece.At (http.header ++ before.flatten) m headerTerminator)
    (hend : headerEnd data = some e) (hroom : (http.header ++ before.flatten).length + e ≤ headerBufLen)
    (h : feedAll http (before ++ data :: after) = .ok (next, effects)) : ∀ effect ∈ effects, effect.Proper := by
  induction before generalizing http effects with
  | nil =>
    rw [List.flatten_nil, List.append_nil] at hroom
    obtain ⟨mid, first, later, hfeed, hrest, rfl⟩ := feedAll_cons_eq_ok h
    intro effect hin
    rcases List.mem_append.mp hin with hfirst | hlater
    · exact httpFeed_some_proper hstate hend hroom hfeed effect hfirst
    · exact feedAll_body_proper (httpFeed_some_inBody hstate hend hroom hfeed) hrest effect hlater
  | cons piece before ih =>
    rw [List.flatten_cons, ← List.append_assoc] at hnone hroom
    have hpiece : headerEnd piece = none :=
      headerEnd_eq_none.mpr fun m hat => hnone _ (at_append_right _ (at_append_left _ hat))
    have hfits : http.header.length + piece.length ≤ headerBufLen := by
      rw [List.length_append, List.length_append] at hroom
      omega
    obtain ⟨mid, first, later, hfeed, hrest, rfl⟩ := feedAll_cons_eq_ok h
    have hdelivered := httpFeed_headers_none hstate hpiece
    rw [hfeed, keepHeader, if_pos hfits] at hdelivered
    have hmid : mid = { http with header := http.header ++ piece } :=
      congrArg Prod.fst (Except.ok.inj hdelivered)
    have hmidState : mid.state = .headers := by rw [hmid, hstate]
    have hmidHeader : mid.header = http.header ++ piece := by rw [hmid]
    intro effect hin
    rcases List.mem_append.mp hin with hfirst | hlater
    · exact httpFeed_none_proper hstate hpiece hfits hfeed effect hfirst
    · exact ih hmidState (hmidHeader ▸ hnone) (hmidHeader ▸ hroom) hrest effect hlater

end Pieces

section Status

theorem bodyStep_status (http : HttpParser) (b : UInt8) : (bodyStep http b).1.status = http.status := by
  unfold bodyStep
  split
  · split_ifs <;> rfl
  · unfold chunkSizeStep
    split_ifs <;> rfl
  · split_ifs <;> rfl
  · split_ifs <;> rfl
  · rfl
  · rfl

theorem bodyRun_status (data : Bytes) : ∀ http, (bodyRun http data).1.status = http.status := by
  induction data with
  | nil => exact fun _ => rfl
  | cons b data ih => exact fun http => (ih (bodyStep http b).1).trans (bodyStep_status http b)

/-- Behind the headers the status stays. -/
theorem feedAll_status (hbody : InBody http) (h : feedAll http pieces = .ok (next, effects)) :
    next.status = http.status := by
  have hall := feedAll_body pieces hbody
  rw [h] at hall
  have hrun : (next, bodyBytes effects) = bodyRun http pieces.flatten := Except.ok.inj hall
  have hnext := congrArg (fun r => r.1.status) hrun
  exact hnext.trans (bodyRun_status _ http)

/-- Within the headers nothing of the body comes. -/
theorem httpFeed_headers_cases (hstate : http.state = .headers) (h : httpFeed http data = .ok (next, effects)) :
    (next.state = .headers ∧ bodyBytes effects = []) ∨ InBody next := by
  cases hend : headerEnd data with
  | none =>
    have hdelivered := httpFeed_headers_none hstate hend
    rw [h] at hdelivered
    have hsame : (next, bodyBytes effects) = _ := Except.ok.inj hdelivered
    injection hsame with hnext hnone
    left
    rw [hnext]
    exact ⟨hstate, hnone⟩
  | some e =>
    by_cases hfits : http.header.length + e ≤ headerBufLen
    · exact .inr (httpFeed_some_inBody hstate hend hfits h)
    · have hdelivered := httpFeed_headers_large hstate hend (by omega)
      rw [h] at hdelivered
      have hsame : (next, bodyBytes effects) = _ := Except.ok.inj hdelivered
      injection hsame with hnext hnone
      left
      rw [hnext]
      exact ⟨hstate, hnone⟩

end Status

section Response

variable {n : ℕ}

/-- The first header terminator of the response is at `n`, within the header buffer. -/
structure HeadersEnd (stream : Bytes) (n : ℕ) : Prop where
  ends : Piece.At stream n headerTerminator
  first : ∀ m < n, ¬ Piece.At stream m headerTerminator
  fits : n + headerTerminator.length ≤ headerBufLen

/-- What the parser makes of a response whose headers end at `n`, and its body. -/
def responseAt (stream : Bytes) (n : ℕ) : Checked (HttpParser × Bytes) :=
  (bodyRun · (stream.drop (n + 4))) <$> readHeaders httpReset (stream.take (n + 4))

theorem HeadersEnd.front {front : Bytes} (h : HeadersEnd stream n) (hfront : front <+: stream)
    (hlong : n + headerTerminator.length ≤ front.length) : HeadersEnd front n := by
  obtain ⟨rest, rfl⟩ := hfront
  refine ⟨?_, fun m hm hat => h.first m hm (at_append_right rest hat), h.fits⟩
  have hends := h.ends
  have hterm : headerTerminator.length = 4 := rfl
  rw [Piece.At, List.drop_append_of_le_length (by omega)] at hends
  apply List.prefix_of_prefix_length_le hends (List.prefix_append _ _)
  rw [List.length_drop]
  omega

theorem TerminatorWhole.length_le (h : TerminatorWhole pieces n) :
    n + headerTerminator.length ≤ pieces.flatten.length := by
  obtain ⟨before, data, after, rfl, hbefore, hdata⟩ := h
  simp only [List.flatten_append, List.flatten_cons, List.length_append]
  omega

/-- The headers come whole and the response too, or as much of it as the parser needs. -/
structure Delivers (stream : Bytes) (n : ℕ) (pieces : List Bytes) (http : HttpParser) : Prop where
  terminator : TerminatorWhole pieces n
  all : pieces.flatten = stream ∨ pieces.flatten <+: stream ∧ http.state = .complete

theorem Delivers.front (h : Delivers stream n pieces http) : pieces.flatten <+: stream := by
  rcases h.all with hall | ⟨hfront, -⟩
  · rw [hall]
  · exact hfront

/-- Pieces that deliver a response come to the same. -/
theorem Delivers.response (h : Delivers stream n pieces next) (hend : HeadersEnd stream n)
    (hfeed : feedAll httpReset pieces = .ok (next, effects)) :
    responseAt stream n = .ok (next, bodyBytes effects) ∧ ∀ effect ∈ effects, effect.Proper := by
  have hpart := hend.front h.front h.terminator.length_le
  have hblock := headerBlock_whole rfl hpart.ends hpart.first hpart.fits h.terminator
  have hall := feedAll_headers pieces (show httpReset.state = .headers from rfl)
  rw [httpReset_header, hblock, hfeed] at hall
  dsimp only at hall
  constructor
  · obtain ⟨rest, hrest⟩ := h.front
    have hlong := h.terminator.length_le
    have hterm : headerTerminator.length = 4 := rfl
    rw [responseAt, ← hrest, List.take_append_of_le_length (by omega), List.drop_append_of_le_length (by omega)]
    cases hread : readHeaders httpReset (pieces.flatten.take (n + 4)) with
    | error trap =>
      rw [hread] at hall
      cases hall
    | ok parsed =>
      rw [hread] at hall
      have hrun : (next, bodyBytes effects) = bodyRun parsed (pieces.flatten.drop (n + 4)) := Except.ok.inj hall
      change Except.ok (bodyRun parsed (pieces.flatten.drop (n + 4) ++ rest)) = _
      rw [bodyRun_append, ← hrun]
      rcases h.all with hsame | ⟨-, hcomplete⟩
      · have hnil : rest = [] := by
          rw [hsame] at hrest
          simpa using hrest
        rw [hnil, bodyRun, List.append_nil]
      · rw [bodyRun_complete hcomplete, List.append_nil]
  · obtain ⟨before, data, after, rfl, hbefore, hdata⟩ := h.terminator
    have hflat : (before ++ data :: after).flatten = before.flatten ++ data ++ after.flatten := by simp
    rw [hflat] at hpart
    have hdataEnd := headerEnd_middle hpart.ends hpart.first hbefore hdata
    have hnone := no_terminator_before hpart.first hbefore
    have hfits := hpart.fits
    have hterm : headerTerminator.length = 4 := rfl
    refine feedAll_headers_proper before after rfl ?_ hdataEnd ?_ hfeed
    · rw [httpReset_header, List.nil_append]
      exact hnone
    · rw [httpReset_header, List.nil_append]
      omega

end Response

end MiniAgentOS.Http
