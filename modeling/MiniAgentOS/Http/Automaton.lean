import MiniAgentOS.Http.Feed

/-! The body states of the response parser as an automaton that takes one byte at a time. Once
the headers are read, feeding a piece runs the automaton over it. -/
namespace MiniAgentOS.Http
open Checked

variable {http : HttpParser} {data : Bytes}

/-- One byte of a chunk size line. -/
def chunkSizeStep (http : HttpParser) (b : UInt8) : HttpParser :=
  if http.chunkExpectLf then
    if b = lf then
      { http with
        chunkParse := 0
        chunkHaveDigit := false
        chunkExt := false
        chunkExpectLf := false
        chunkRemain := http.chunkParse.toNat
        state := if http.chunkParse = 0 then .complete else .chunkData }
    else http
  else if b = cr then { http with chunkExpectLf := true }
  else if http.chunkExt then http
  else if b = semicolon then { http with chunkExt := true }
  else if isHex b then
    { http with
      chunkParse := (http.chunkParse <<< 4) ||| UInt64.ofNat (hexDigit b)
      chunkHaveDigit := true }
  else http

/-- One byte of the response behind its headers: the parser, and the byte if it is body. -/
def bodyStep (http : HttpParser) (b : UInt8) : HttpParser × Bytes :=
  match http.state with
  | .body =>
    if http.contentLen > 0 ∧ http.bodyRecv ≥ http.contentLen then (http, [])
    else
      let bodyRecv := saturatingAdd http.bodyRecv 1
      let state := if http.contentLen > 0 ∧ bodyRecv ≥ http.contentLen then .complete else .body
      ({ http with bodyRecv, state }, [b])
  | .chunkSize => (chunkSizeStep http b, [])
  | .chunkData =>
    if http.chunkRemain = 0 then (http, [])
    else
      let chunkRemain := http.chunkRemain - 1
      let state := if chunkRemain = 0 then .chunkEnd else .chunkData
      ({ http with chunkRemain, state }, [b])
  | .chunkEnd => (if b = cr then { http with state := .chunkSize } else http, [])
  | .headers => (http, [])
  | .complete => (http, [])

def bodyRun (http : HttpParser) : Bytes → HttpParser × Bytes
  | [] => (http, [])
  | b :: data =>
    let step := bodyStep http b
    let rest := bodyRun step.1 data
    (rest.1, step.2 ++ rest.2)

theorem bodyRun_append (more : Bytes) : ∀ http, bodyRun http (data ++ more) =
    ((bodyRun (bodyRun http data).1 more).1,
      (bodyRun http data).2 ++ (bodyRun (bodyRun http data).1 more).2) := by
  induction data with
  | nil => exact fun _ => rfl
  | cons b data ih =>
    intro http
    rw [List.cons_append, bodyRun, bodyRun, ih, List.append_assoc]

/-- A parser that each of the bytes leaves as it is, without output. -/
theorem bodyRun_stuck (hstuck : ∀ b ∈ data, bodyStep http b = (http, [])) :
    bodyRun http data = (http, []) := by
  induction data with
  | nil => rfl
  | cons b data ih =>
    have hrest := ih fun c hc => hstuck c (List.mem_cons_of_mem b hc)
    rw [bodyRun, hstuck b List.mem_cons_self, hrest, List.append_nil]

theorem bodyRun_complete (h : http.state = .complete) (data : Bytes) :
    bodyRun http data = (http, []) :=
  bodyRun_stuck fun b _ => by rw [bodyStep, h]

/-- A stretch of the body that does not pass the content length. -/
theorem bodyRun_body (data : Bytes) : ∀ {http : HttpParser}, http.state = .body →
    (http.contentLen > 0 → http.bodyRecv < http.contentLen) →
    (http.contentLen > 0 → http.bodyRecv + data.length ≤ http.contentLen) → data ≠ [] →
    bodyRun http data =
      ({ http with
          bodyRecv := saturatingAdd http.bodyRecv data.length
          state := if http.contentLen > 0 ∧ saturatingAdd http.bodyRecv data.length ≥ http.contentLen
            then .complete else .body }, data) := by
  induction data with
  | nil => exact fun _ _ _ hne => absurd rfl hne
  | cons b data ih =>
    intro http hstate hstart hroom _
    rw [List.length_cons] at hroom
    have hgo : ¬ (http.contentLen > 0 ∧ http.bodyRecv ≥ http.contentLen) := by omega
    rw [bodyRun, bodyStep, hstate]
    simp only [hgo, if_false]
    cases data with
    | nil => rfl
    | cons c data =>
      rw [List.length_cons] at hroom
      have hnext : ¬ (http.contentLen > 0 ∧ saturatingAdd http.bodyRecv 1 ≥ http.contentLen) := by
        unfold saturatingAdd
        omega
      have hmore : http.contentLen > 0 →
          saturatingAdd http.bodyRecv 1 + (c :: data).length ≤ http.contentLen := by
        rw [List.length_cons]
        unfold saturatingAdd
        omega
      have hlt : http.contentLen > 0 → saturatingAdd http.bodyRecv 1 < http.contentLen := by
        unfold saturatingAdd
        omega
      have hrest := @ih { http with bodyRecv := saturatingAdd http.bodyRecv 1, state := .body }
        rfl hlt hmore (List.cons_ne_nil c data)
      simp only [hnext, if_false, hrest, saturatingAdd_assoc]
      rw [Nat.add_comm 1]
      rfl

/-- A stretch of chunk data that does not pass the chunk. -/
theorem bodyRun_chunkData (data : Bytes) : ∀ {http : HttpParser}, http.state = .chunkData →
    data.length ≤ http.chunkRemain → data ≠ [] →
    bodyRun http data =
      ({ http with
          chunkRemain := http.chunkRemain - data.length
          state := if http.chunkRemain - data.length = 0 then .chunkEnd else .chunkData }, data) := by
  induction data with
  | nil => exact fun _ _ hne => absurd rfl hne
  | cons b data ih =>
    intro http hstate hroom _
    rw [List.length_cons] at hroom
    have hgo : http.chunkRemain ≠ 0 := by omega
    rw [bodyRun, bodyStep, hstate]
    simp only [hgo, if_false]
    cases data with
    | nil => rfl
    | cons c data =>
      rw [List.length_cons] at hroom
      have hnext : http.chunkRemain - 1 ≠ 0 := by omega
      have hmore : (c :: data).length ≤ http.chunkRemain - 1 := by
        rw [List.length_cons]
        omega
      have hrest := @ih { http with chunkRemain := http.chunkRemain - 1, state := .chunkData }
        rfl hmore (List.cons_ne_nil c data)
      simp only [hnext, if_false, hrest, List.length_cons, Nat.sub_sub]
      rw [Nat.add_comm 1]
      rfl

/-- The parser is behind the headers, and expects no line feed where none can come. -/
structure InBody (http : HttpParser) : Prop where
  state : http.state ≠ .headers
  noLf : http.state = .chunkData ∨ http.state = .chunkEnd → http.chunkExpectLf = false

theorem chunkSizeStep_state (h : http.state = .chunkSize) (b : UInt8) :
    (chunkSizeStep http b).state = .chunkSize ∨ (chunkSizeStep http b).chunkExpectLf = false ∧
      (chunkSizeStep http b).state ≠ .headers := by
  unfold chunkSizeStep
  split_ifs <;> simp [h]

theorem InBody.step (h : InBody http) (b : UInt8) : InBody (bodyStep http b).1 := by
  unfold bodyStep
  cases hstate : http.state with
  | headers => exact absurd hstate h.state
  | complete => exact h
  | body =>
    dsimp only
    split_ifs
    · exact h
    · exact ⟨by simp, by simp⟩
    · exact ⟨by simp, by simp⟩
  | chunkSize =>
    rcases chunkSizeStep_state hstate b with hsame | ⟨hlf, hne⟩
    · exact ⟨by simp [hsame], by simp [hsame]⟩
    · exact ⟨hne, fun _ => hlf⟩
  | chunkData =>
    have hlf := h.noLf (Or.inl hstate)
    dsimp only
    split_ifs
    · exact h
    · exact ⟨by simp, fun _ => hlf⟩
    · exact ⟨by simp, fun _ => hlf⟩
  | chunkEnd =>
    dsimp only
    split_ifs
    · exact ⟨by simp, by simp⟩
    · exact h

theorem InBody.run (data : Bytes) : ∀ {http}, InBody http → InBody (bodyRun http data).1 := by
  induction data with
  | nil => exact id
  | cons b data ih => exact fun h => ih (h.step b)

/-- The body bytes among what was handed on. -/
def bodyBytes (effects : List HttpEffect) : Bytes :=
  effects.flatMap fun
    | .body data _ => data
    | _ => []

@[simp] theorem bodyBytes_nil : bodyBytes [] = [] := rfl

@[simp] theorem bodyBytes_append (effects more : List HttpEffect) :
    bodyBytes (effects ++ more) = bodyBytes effects ++ bodyBytes more := List.flatMap_append

@[simp] theorem bodyBytes_body (data : Bytes) (json : Bool) :
    bodyBytes [.body data json] = data := List.append_nil data

/-- Where the loop will leave the parser, and all body bytes it will have handed on by then. -/
def outcome (data : Bytes) (s : FeedState) : HttpParser × Bytes :=
  let rest := bodyRun s.http (data.drop s.idx)
  (rest.1, bodyBytes s.effects ++ rest.2)

/-- The loop may skip a stretch that the automaton passes. -/
theorem outcome_skip {s : FeedState} {http : HttpParser} {piece : Bytes} {n : ℕ}
    {more : List HttpEffect} (hrun : bodyRun s.http ((data.drop s.idx).take n) = (http, piece))
    (hmore : bodyBytes more = piece) :
    outcome data ⟨http, s.effects ++ more, s.idx + n⟩ = outcome data s := by
  have hsplit : bodyRun s.http (data.drop s.idx) =
      bodyRun s.http ((data.drop s.idx).take n ++ data.drop (s.idx + n)) := by
    rw [← List.drop_drop, List.take_append_drop]
  unfold outcome
  rw [hsplit, bodyRun_append, hrun]
  simp [hmore]

/-- In a parser that is done with the piece nothing more comes. -/
theorem outcome_stuck {s : FeedState} (hstuck : ∀ b, bodyStep s.http b = (s.http, [])) :
    outcome data s = (s.http, bodyBytes s.effects) := by
  simp only [outcome, bodyRun_stuck fun b _ => hstuck b, List.append_nil]

theorem outcome_end {s : FeedState} (h : data.length ≤ s.idx) :
    outcome data s = (s.http, bodyBytes s.effects) := by
  simp only [outcome, List.drop_of_length_le h, bodyRun, List.append_nil]

/-- What a round of the loop behind the headers keeps: the outcome. -/
def RoundKeeps (data : Bytes) (s : FeedState) : Round FeedState FeedResult → Prop :=
  RoundPost (fun t => (InBody t.http ∧ t.idx ≤ data.length) ∧ outcome data t = outcome data s)
    (fun t => data.length - t.idx) (fun r => (r.1, bodyBytes r.2) = outcome data s) s

variable {s : FeedState}

theorem slice_piece {n : ℕ} (h : s.idx + n ≤ data.length) :
    slice data s.idx (s.idx + n) = .ok ((data.drop s.idx).take n) := by
  rw [slice_eq (Nat.le_add_right _ _) h, List.drop_take]
  congr 2
  omega

theorem length_piece {n : ℕ} (h : s.idx + n ≤ data.length) :
    ((data.drop s.idx).take n).length = n := by
  rw [List.length_take, List.length_drop]
  omega

theorem bodyTake_bounds (http : HttpParser) (rest : ℕ) : bodyTake http rest ≤ rest ∧
    (http.contentLen > 0 → http.bodyRecv < http.contentLen →
      http.bodyRecv + bodyTake http rest ≤ http.contentLen) := by
  unfold bodyTake
  split_ifs <;> omega

theorem bodyTake_zero {rest : ℕ} (hrest : 0 < rest) :
    bodyTake http rest = 0 ↔ http.contentLen > 0 ∧ http.bodyRecv ≥ http.contentLen := by
  unfold bodyTake
  split_ifs <;> omega

theorem feedBody_keeps (hbody : InBody s.http) (hstate : s.http.state = .body)
    (hidx : s.idx < data.length) : Returns (feedBody data s) (RoundKeeps data s) := by
  have hrest : 0 < data.length - s.idx := by omega
  obtain ⟨hle, hroom⟩ := bodyTake_bounds s.http (data.length - s.idx)
  rw [feedBody, returns_bind, returns_sub]
  refine ⟨by omega, ?_⟩
  rw [returns_ite, bodyTake_zero hrest]
  constructor
  · intro hfull
    have hstuck : ∀ b, bodyStep s.http b = (s.http, []) := fun b => by
      simp only [bodyStep, hstate, hfull, and_self, if_true]
    exact returns_pure.mpr (outcome_stuck hstuck).symm
  · intro hopen
    have hpos := mt (bodyTake_zero hrest).mp hopen
    have hfits : s.idx + bodyTake s.http (data.length - s.idx) ≤ data.length := by omega
    have hrun := bodyRun_body ((data.drop s.idx).take _) hstate (by omega)
      (by rw [length_piece hfits]; omega) (List.length_pos_iff.mp (by rw [length_piece hfits]; omega))
    rw [length_piece hfits] at hrun
    rw [slice_piece hfits, ok_bind, returns_ite]
    constructor
    · intro hdone
      rw [if_pos hdone] at hrun
      have hskip := outcome_skip hrun (bodyBytes_body _ s.http.isJson)
      rw [outcome_stuck fun b => rfl] at hskip
      exact returns_pure.mpr hskip
    · intro hmore
      rw [if_neg hmore, ← hstate] at hrun
      have hskip := outcome_skip hrun (bodyBytes_body _ s.http.isJson)
      refine returns_pure.mpr ⟨⟨⟨⟨hbody.state, hbody.noLf⟩, hfits⟩, hskip⟩, ?_⟩
      change data.length - (s.idx + _) < data.length - s.idx
      omega

theorem feedChunkData_keeps (hbody : InBody s.http) (hstate : s.http.state = .chunkData)
    (hidx : s.idx < data.length) : Returns (feedChunkData data s) (RoundKeeps data s) := by
  rw [feedChunkData, returns_bind, returns_sub]
  refine ⟨by omega, ?_⟩
  rw [returns_ite]
  constructor
  · intro hzero
    have hempty : s.http.chunkRemain = 0 := by omega
    have hstuck : ∀ b, bodyStep s.http b = (s.http, []) := fun b => by
      simp only [bodyStep, hstate, hempty, if_true]
    exact returns_pure.mpr (outcome_stuck hstuck).symm
  · intro hpos
    have hfits : s.idx + min (data.length - s.idx) s.http.chunkRemain ≤ data.length := by omega
    have hrun := bodyRun_chunkData ((data.drop s.idx).take _) hstate
      (by rw [length_piece hfits]; omega) (List.length_pos_iff.mp (by rw [length_piece hfits]; omega))
    rw [length_piece hfits, ← hstate] at hrun
    have hskip := outcome_skip hrun (bodyBytes_body _ s.http.isJson)
    have hlf := hbody.noLf (Or.inl hstate)
    rw [slice_piece hfits, ok_bind]
    refine returns_pure.mpr ⟨⟨⟨⟨?_, fun _ => hlf⟩, hfits⟩, hskip⟩, ?_⟩
    · dsimp only
      split_ifs
      · simp
      · exact hbody.state
    · change data.length - (s.idx + _) < data.length - s.idx
      omega

theorem take_one (hidx : s.idx < data.length) : (data.drop s.idx).take 1 = [data[s.idx]] := by
  rw [List.drop_eq_getElem_cons hidx]
  rfl

theorem chunkSizeByte_eq (http : HttpParser) (b : UInt8) :
    chunkSizeByte http b = .ok (chunkSizeStep http b) := by
  by_cases hhex : isHex b
  · simp only [chunkSizeByte, chunkSizeStep, hhex, hexVal_eq hhex, ok_bind]
    split_ifs <;> rfl
  · simp only [chunkSizeByte, chunkSizeStep, hhex, Bool.false_eq_true, if_false]
    split_ifs <;> rfl

/-- A round that consumes bytes without body keeps the outcome. -/
theorem roundKeeps_skip {piece : Bytes} {n : ℕ} {next : HttpParser} (hbody : InBody s.http)
    (htake : (data.drop s.idx).take n = piece) (hpos : 0 < n) (hfits : s.idx + n ≤ data.length)
    (hrun : bodyRun s.http piece = (next, [])) :
    RoundKeeps data s (.next ⟨next, s.effects, s.idx + n⟩) := by
  have hskip := outcome_skip (htake ▸ hrun) bodyBytes_nil
  have hnext := hbody.run piece
  rw [hrun] at hnext
  rw [List.append_nil] at hskip
  refine ⟨⟨⟨hnext, hfits⟩, hskip⟩, ?_⟩
  change data.length - (s.idx + n) < data.length - s.idx
  omega

theorem feedChunkSize_keeps (hbody : InBody s.http) (hstate : s.http.state = .chunkSize)
    (hidx : s.idx < data.length) : Returns (feedChunkSize data s) (RoundKeeps data s) := by
  have hrun : bodyRun s.http [data[s.idx]] = (chunkSizeStep s.http data[s.idx], []) := by
    rw [bodyRun, bodyStep, hstate]
    rfl
  rw [feedChunkSize, index_eq hidx, ok_bind, chunkSizeByte_eq, ok_bind]
  exact returns_pure.mpr (roundKeeps_skip hbody (take_one hidx) Nat.one_pos hidx hrun)

/-- A line feed behind the carriage return that ends a chunk is ignored in the size line. -/
theorem chunkSizeStep_lf (h : http.chunkExpectLf = false) : chunkSizeStep http lf = http := by
  have hcr : lf ≠ cr := by decide
  have hsemi : lf ≠ semicolon := by decide
  have hhex : isHex lf = false := by decide
  simp only [chunkSizeStep, h, hcr, hsemi, hhex, if_false, ite_self, Bool.false_eq_true]

theorem feedChunkEnd_keeps (hbody : InBody s.http) (hstate : s.http.state = .chunkEnd)
    (hidx : s.idx < data.length) : Returns (feedChunkEnd data s) (RoundKeeps data s) := by
  rw [feedChunkEnd, index_eq hidx, ok_bind, returns_ite]
  constructor
  · intro hcr
    have hlf := hbody.noLf (Or.inr hstate)
    have hrun : bodyRun s.http [data[s.idx]] = ({ s.http with state := .chunkSize }, []) := by
      rw [bodyRun, bodyStep, hstate, hcr]
      rfl
    have hone : RoundKeeps data s
        (.next ⟨{ s.http with state := .chunkSize }, s.effects, s.idx + 1⟩) :=
      roundKeeps_skip hbody (take_one hidx) Nat.one_pos hidx hrun
    rw [testAt, returns_bind, returns_ite, returns_map, returns_pure]
    refine ⟨fun hlt => returns_index hlt fun c hc => returns_pure.mpr ?_,
      fun _ => returns_pure.mpr hone⟩
    by_cases hskip : c = lf
    · have hcell : data[s.idx + 1] = lf := by
        rw [List.getElem?_eq_getElem hlt, Option.some.injEq] at hc
        exact hc.trans hskip
      have htake : (data.drop s.idx).take 2 = [data[s.idx], lf] := by
        rw [List.drop_eq_getElem_cons hidx, List.drop_eq_getElem_cons hlt, hcell]
        rfl
      have hrun' : bodyRun s.http [data[s.idx], lf] = ({ s.http with state := .chunkSize }, []) := by
        rw [← List.singleton_append, bodyRun_append, hrun, bodyRun, bodyStep]
        dsimp only
        rw [chunkSizeStep_lf (by exact hlf)]
        rfl
      simpa [hskip] using roundKeeps_skip hbody htake Nat.two_pos hlt hrun'
    · simpa [hskip] using hone
  · intro hcr
    have hrun : bodyRun s.http [data[s.idx]] = (s.http, []) := by
      rw [bodyRun, bodyStep, hstate]
      simp only [hcr, if_false]
      rfl
    exact returns_pure.mpr (roundKeeps_skip hbody (take_one hidx) Nat.one_pos hidx hrun)

/-- Behind the headers the loop is the automaton. -/
theorem loop_feedRound {fuel : ℕ} (hbody : InBody s.http) (hidx : s.idx ≤ data.length)
    (hfuel : data.length - s.idx < fuel) :
    Returns (loop (feedRound data) fuel s) fun r => (r.1, bodyBytes r.2) = outcome data s := by
  refine returns_loop
    (fun t => (InBody t.http ∧ t.idx ≤ data.length) ∧ outcome data t = outcome data s)
    (fun t => data.length - t.idx) ?_ ⟨⟨hbody, hidx⟩, rfl⟩ hfuel
  intro t ⟨⟨hbody, hidx⟩, hout⟩
  have hround : Returns (feedRound data t) (RoundKeeps data t) := by
    rw [feedRound, returns_ite]
    constructor
    · intro hlt
      cases hstate : t.http.state with
      | headers => exact absurd hstate hbody.state
      | body => exact feedBody_keeps hbody hstate hlt
      | chunkSize => exact feedChunkSize_keeps hbody hstate hlt
      | chunkData => exact feedChunkData_keeps hbody hstate hlt
      | chunkEnd => exact feedChunkEnd_keeps hbody hstate hlt
      | complete =>
        refine returns_pure.mpr (outcome_stuck fun b => ?_).symm
        rw [bodyStep, hstate]
    · exact fun hge => returns_pure.mpr (outcome_end (by omega)).symm
  refine hround.mono fun round hkeeps => ?_
  cases round with
  | next after => exact ⟨⟨hkeeps.1.1, hkeeps.1.2.trans hout⟩, hkeeps.2⟩
  | done result => exact Eq.trans hkeeps hout

/-- Feeding a piece behind the headers. -/
theorem httpFeed_body (hbody : InBody http) (data : Bytes) :
    Returns (httpFeed http data) fun r => (r.1, bodyBytes r.2) = bodyRun http data :=
  (loop_feedRound (s := ⟨http, [], 0⟩) hbody (Nat.zero_le _) (by omega)).mono fun r hr => by
    simpa [outcome] using hr

end MiniAgentOS.Http
