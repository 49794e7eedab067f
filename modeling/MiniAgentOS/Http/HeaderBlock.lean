import MiniAgentOS.Http.Automaton
import MiniAgentOS.Lib.Piece

/-! Where the headers of a response end. The parser looks for the terminator within each piece by
itself, so which bytes it takes for the header block depends on how the response is cut. -/
namespace MiniAgentOS.Http
open Checked

variable {http : HttpParser} {data : Bytes}

/-- The end of the first header terminator in `data`. -/
def headerEnd : Bytes → Option ℕ
  | [] => none
  | b :: data =>
    if headerTerminator <+: b :: data then some 4 else (headerEnd data).map (· + 1)

theorem headerEnd_eq_none : headerEnd data = none ↔ ∀ n, ¬ Piece.At data n headerTerminator := by
  induction data with
  | nil => simp [headerEnd, Piece.At, headerTerminator]
  | cons b data ih =>
    rw [headerEnd]
    by_cases h : headerTerminator <+: b :: data
    · rw [if_pos h]
      exact iff_of_false (by simp) fun hnone => hnone 0 h
    · rw [if_neg h, Option.map_eq_none_iff, ih]
      constructor
      · intro hnone n
        cases n with
        | zero => exact h
        | succ n => exact hnone n
      · exact fun hnone n => hnone (n + 1)

theorem headerEnd_eq_some {e : ℕ} (h : headerEnd data = some e) :
    4 ≤ e ∧ e ≤ data.length ∧ Piece.At data (e - 4) headerTerminator ∧
      ∀ n, n + 4 < e → ¬ Piece.At data n headerTerminator := by
  induction data generalizing e with
  | nil => cases h
  | cons b data ih =>
    rw [headerEnd] at h
    by_cases hfirst : headerTerminator <+: b :: data
    · rw [if_pos hfirst, Option.some.injEq] at h
      subst h
      exact ⟨le_rfl, hfirst.length_le, hfirst, fun n hn => absurd hn (by omega)⟩
    · rw [if_neg hfirst, Option.map_eq_some_iff] at h
      obtain ⟨e', he', rfl⟩ := h
      obtain ⟨hlow, hhigh, hat, hbefore⟩ := ih he'
      refine ⟨by omega, Nat.succ_le_succ hhigh, ?_, ?_⟩
      · obtain ⟨k, rfl⟩ : ∃ k, e' = k + 4 := ⟨e' - 4, by omega⟩
        exact hat
      · intro n hn
        cases n with
        | zero => exact hfirst
        | succ n => exact hbefore n (by omega)

theorem headerEnd_of_at_zero (h : headerTerminator <+: data) : headerEnd data = some 4 := by
  cases data with
  | nil => exact absurd h (by decide)
  | cons b data => rw [headerEnd, if_pos h]

/-- The search of the parser finds the first terminator. -/
theorem findHeaderEnd_eq (data : Bytes) (idx : ℕ) (h : idx ≤ data.length) :
    findHeaderEnd data idx = .ok ((headerEnd (data.drop idx)).map (· + idx)) := by
  obtain ⟨n, hn⟩ : ∃ n, data.length - idx = n := ⟨_, rfl⟩
  unfold findHeaderEnd
  rw [hn]
  induction n generalizing idx with
  | zero =>
    have hend : ¬ idx + 3 < data.length := by omega
    rw [List.drop_of_length_le (by omega), loop]
    simp only [hend, if_false]
    rfl
  | succ n ih =>
    have hidx : idx < data.length := by omega
    have hdrop := List.drop_eq_getElem_cons hidx
    rw [loop]
    by_cases hroom : idx + 3 < data.length
    · have hfits : idx + headerTerminator.length ≤ data.length := hroom
      simp only [hroom, if_true, matchesAt_eq hfits, ok_bind]
      by_cases hat : headerTerminator <+: data.drop idx
      · simp only [hat, decide_true, if_true]
        rw [hdrop] at hat ⊢
        rw [headerEnd, if_pos hat, Option.map_some, Nat.add_comm]
        rfl
      · simp only [hat, decide_false]
        rw [hdrop] at hat ⊢
        rw [headerEnd, if_neg hat]
        refine (ih (idx + 1) hidx (by omega)).trans ?_
        rw [Option.map_map]
        congr 2
        funext e
        change e + (idx + 1) = e + 1 + idx
        omega
    · have hnone : headerEnd (data.drop idx) = none := by
        rw [headerEnd_eq_none]
        intro k hat
        have hlen := hat.length_le
        rw [List.length_drop, List.length_drop] at hlen
        have hfour : headerTerminator.length = 4 := rfl
        omega
      rw [hnone]
      simp only [hroom, if_false]
      rfl

/-- What of a result counts: the parser, and the body bytes. -/
def delivered (r : FeedResult) : HttpParser × Bytes := (r.1, bodyBytes r.2)

/-- The parser with a header block read. -/
def readHeaders (http : HttpParser) (block : Bytes) : Checked HttpParser := do
  let info ← httpParseHeaders block block.length http.chunked http.isJson http.contentLen
  pure (applyHeaders { http with header := block } info).1

/-- The header buffer behind bytes without a terminator: it drops what does not fit. -/
def keepHeader (header data : Bytes) : Bytes :=
  if header.length + data.length ≤ headerBufLen then header ++ data else header

theorem inBody_applyHeaders (http : HttpParser) (info : HeaderInfo) :
    InBody (applyHeaders http info).1 := by
  unfold applyHeaders
  constructor
  · dsimp only
    split_ifs <;> simp
  · dsimp only
    split_ifs <;> simp

theorem bodyBytes_applyHeaders (http : HttpParser) (info : HeaderInfo) :
    bodyBytes (applyHeaders http info).2 = [] := by
  unfold applyHeaders
  cases info.date <;> cases info.redirect <;> dsimp only <;> split_ifs <;> rfl

theorem httpFeed_nil (http : HttpParser) : httpFeed http [] = .ok (http, []) := rfl

theorem feedRound_headers {s : FeedState} (hidx : s.idx < data.length)
    (hstate : s.http.state = .headers) : feedRound data s = feedHeaders data s := by
  rw [feedRound, if_pos hidx, hstate]

/-- A piece without a terminator goes into the header buffer. -/
theorem httpFeed_headers_none (hstate : http.state = .headers) (hend : headerEnd data = none) :
    delivered <$> httpFeed http data =
      .ok ({ http with header := keepHeader http.header data }, []) := by
  by_cases hne : data = []
  · rw [hne, httpFeed_nil, keepHeader, List.append_nil, ite_self]
    rfl
  have hpos : 0 < data.length := List.length_pos_iff.mpr hne
  have hfind := findHeaderEnd_eq data 0 (Nat.zero_le _)
  rw [List.drop_zero, hend] at hfind
  have hslice : slice data 0 data.length = .ok data := by
    rw [slice_eq (Nat.zero_le _) le_rfl, List.take_length, List.drop_zero]
  rw [httpFeed, loop, feedRound_headers hpos hstate]
  simp only [feedHeaders, hfind, Option.map_none, ok_bind, hslice]
  by_cases hfits : http.header.length + data.length ≤ headerBufLen
  · rw [keepHeader, if_pos hfits, if_pos hfits, extend_eq hfits]
    rfl
  · rw [keepHeader, if_neg hfits, if_neg hfits]
    rfl

/-- A piece with a terminator completes the header block, and its rest is body. -/
theorem httpFeed_headers_some {e : ℕ} (hstate : http.state = .headers)
    (hend : headerEnd data = some e) (hfits : http.header.length + e ≤ headerBufLen) :
    delivered <$> httpFeed http data =
      (bodyRun · (data.drop e)) <$> readHeaders http (http.header ++ data.take e) := by
  obtain ⟨hfour, hle, -⟩ := headerEnd_eq_some hend
  have hpos : 0 < data.length := by omega
  have hfind := findHeaderEnd_eq data 0 (Nat.zero_le _)
  rw [List.drop_zero, hend] at hfind
  have hslice : slice data 0 e = .ok (data.take e) := by
    rw [slice_eq (Nat.zero_le _) hle, List.drop_zero]
  have hlen : (data.take e).length = e := by
    rw [List.length_take]
    omega
  have hfits' : http.header.length + (data.take e).length ≤ headerBufLen := by
    rw [hlen]
    exact hfits
  rw [httpFeed, loop, feedRound_headers hpos hstate]
  simp only [feedHeaders, hfind, Option.map_some, ok_bind, hslice, hfits', if_true,
    extend_eq hfits', readHeaders, Nat.add_zero]
  cases httpParseHeaders (http.header ++ data.take e) (http.header ++ data.take e).length
    http.chunked http.isJson http.contentLen with
  | error trap => rfl
  | ok info =>
    have hbody := inBody_applyHeaders { http with header := http.header ++ data.take e } info
    have hnone := bodyBytes_applyHeaders { http with header := http.header ++ data.take e } info
    simp only [ok_bind]
    generalize applyHeaders { http with header := http.header ++ data.take e } info = applied
      at hbody hnone ⊢
    have hloop := loop_feedRound (s := ⟨applied.1, [.headerBytes (data.take e)] ++ applied.2, e⟩)
      hbody hle (Nat.sub_lt hpos (show 0 < e by omega))
    obtain ⟨r, hr, hout⟩ := hloop
    have hkept : outcome data ⟨applied.1, [.headerBytes (data.take e)] ++ applied.2, e⟩ =
        bodyRun applied.1 (data.drop e) := by
      simp only [outcome, bodyBytes_append, hnone]
      rfl
    rw [hkept] at hout
    change delivered <$> loop (feedRound data) data.length _ = .ok (bodyRun applied.1 (data.drop e))
    rw [← hout]
    exact congrArg (delivered <$> ·) hr

/-- A header block that does not fit is dropped. -/
theorem httpFeed_headers_large {e : ℕ} (hstate : http.state = .headers)
    (hend : headerEnd data = some e) (hlarge : headerBufLen < http.header.length + e) :
    delivered <$> httpFeed http data = .ok (http, []) := by
  obtain ⟨hfour, hle, -⟩ := headerEnd_eq_some hend
  have hpos : 0 < data.length := by omega
  have hfind := findHeaderEnd_eq data 0 (Nat.zero_le _)
  rw [List.drop_zero, hend] at hfind
  have hslice : slice data 0 e = .ok (data.take e) := by
    rw [slice_eq (Nat.zero_le _) hle, List.drop_zero]
  have hlarge' : ¬ http.header.length + (data.take e).length ≤ headerBufLen := by
    rw [List.length_take]
    omega
  rw [httpFeed, loop, feedRound_headers hpos hstate]
  simp only [feedHeaders, hfind, Option.map_some, ok_bind, hslice, hlarge', if_false, Nat.add_zero]
  rfl

/-- The header block that a response in pieces makes, behind the header bytes kept so far, with
the body bytes behind it; none as long as it makes none. -/
def headerBlock : Bytes → List Bytes → Option (Bytes × Bytes)
  | _, [] => none
  | header, data :: pieces =>
    match headerEnd data with
    | some e =>
      if header.length + e ≤ headerBufLen then
        some (header ++ data.take e, data.drop e ++ pieces.flatten)
      else headerBlock header pieces
    | none => headerBlock (keepHeader header data) pieces

theorem feedAll_cons (http : HttpParser) (data : Bytes) (pieces : List Bytes) :
    delivered <$> feedAll http (data :: pieces) = (do
      let (http, body) ← delivered <$> httpFeed http data
      let (http, rest) ← delivered <$> feedAll http pieces
      pure (http, body ++ rest)) := by
  rw [feedAll]
  cases httpFeed http data with
  | error trap => rfl
  | ok r =>
    obtain ⟨http, effects⟩ := r
    have hstep : delivered <$> (.ok (http, effects) : Checked FeedResult) =
        .ok (http, bodyBytes effects) := rfl
    rw [hstep, ok_bind, ok_bind]
    dsimp only
    cases feedAll http pieces with
    | error trap => rfl
    | ok r =>
      obtain ⟨http, rest⟩ := r
      exact congrArg (fun body => Except.ok (http, body)) (bodyBytes_append effects rest)

theorem feedAll_skip {next : HttpParser} (h : delivered <$> httpFeed http data = .ok (next, []))
    (pieces : List Bytes) :
    delivered <$> feedAll http (data :: pieces) = delivered <$> feedAll next pieces := by
  rw [feedAll_cons, h, ok_bind]
  dsimp only
  cases feedAll next pieces with
  | error trap => rfl
  | ok r => rfl

/-- Behind the headers, pieces are as good as what they make together. -/
theorem feedAll_body (pieces : List Bytes) : ∀ {http}, InBody http →
    delivered <$> feedAll http pieces = .ok (bodyRun http pieces.flatten) := by
  induction pieces with
  | nil => exact fun _ => rfl
  | cons data pieces ih =>
    intro http hbody
    obtain ⟨r, hr, hrun⟩ := httpFeed_body hbody data
    have hnext := hbody.run data
    have hfirst : delivered <$> httpFeed http data = .ok (bodyRun http data) := by
      rw [hr, ← hrun]
      rfl
    rw [feedAll_cons, hfirst, List.flatten_cons, bodyRun_append]
    simp only [ok_bind, ih hnext]
    rfl

theorem readHeaders_inBody {block : Bytes} :
    ∀ next, readHeaders http block = .ok next → InBody next := by
  intro next hread
  rw [readHeaders] at hread
  cases hinfo : httpParseHeaders block block.length http.chunked http.isJson http.contentLen with
  | error trap =>
    rw [hinfo] at hread
    cases hread
  | ok info =>
    rw [hinfo] at hread
    cases hread
    exact inBody_applyHeaders _ info

/-- What feeding a response in pieces delivers: nothing but header bytes until a header block is
complete, and then the body automaton's result on all that follows. -/
theorem feedAll_headers (pieces : List Bytes) : ∀ {http}, http.state = .headers →
    match headerBlock http.header pieces with
    | none => ∃ header, delivered <$> feedAll http pieces = .ok ({ http with header }, [])
    | some (block, rest) => delivered <$> feedAll http pieces =
        (bodyRun · rest) <$> readHeaders http block := by
  induction pieces with
  | nil => exact fun {http} _ => ⟨http.header, rfl⟩
  | cons data pieces ih =>
    intro http hstate
    rw [headerBlock]
    cases hend : headerEnd data with
    | none =>
      simp only [feedAll_skip (httpFeed_headers_none hstate hend)]
      exact @ih { http with header := keepHeader http.header data } hstate
    | some e =>
      by_cases hfits : http.header.length + e ≤ headerBufLen
      · simp only [hfits, if_true, feedAll_cons, httpFeed_headers_some hstate hend hfits]
        cases hread : readHeaders http (http.header ++ data.take e) with
        | error trap => rfl
        | ok next =>
          have hbody := (readHeaders_inBody next hread).run (data.drop e)
          have hall := feedAll_body pieces hbody
          have hmap : (bodyRun · (data.drop e)) <$> (.ok next : Checked HttpParser) =
              .ok (bodyRun next (data.drop e)) := rfl
          rw [hmap, ok_bind, hall]
          exact congrArg Except.ok (bodyRun_append pieces.flatten next).symm
      · simp only [hfits, if_false, feedAll_skip (httpFeed_headers_large hstate hend (by omega))]
        exact ih hstate

end MiniAgentOS.Http
