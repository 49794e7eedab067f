import MiniAgentOS.Http.Feed
import MiniAgentOS.Lib.Partial

/-! The `Location` field of a header block, and the redirect that the parser hands on from it. -/
namespace MiniAgentOS.Http
open Checked

section Field

/-- A line of the block is a `Location` field with this value. -/
def LocationField (block value : Bytes) : Prop :=
  ∃ before name blanks after, block = before ++ name ++ blanks ++ value ++ after ∧
    (before = [] ∨ before.getLast? = some lf) ∧
    name.map asciiLower = ascii "location:" ∧
    (∀ b ∈ blanks, isBlank b) ∧ value ≠ [] ∧ (∀ b ∈ value, isLineEnd b = false) ∧
    ∀ b ∈ after.head?, isLineEnd b

/-- `parse_url` takes the value apart into the target. -/
def Leads (value : Bytes) (target : RedirectTarget) : Prop :=
  ∃ parts, parseUrl value value.length = .ok (some parts) ∧
    slice value parts.domainStart (parts.domainStart + parts.domainLen) = .ok target.domain ∧
    slice value parts.pathStart (parts.pathStart + parts.pathLen) = .ok target.path ∧
    parts.https = target.https

variable {buf name : Bytes} {i start stop : ℕ}

theorem matchesLower_ensures : Ensures (matchesLower buf i name) fun found => found = true →
    ((buf.drop i).take name.length).map asciiLower = name.map asciiLower := by
  induction name generalizing i with
  | nil => exact ensures_pure.mpr fun _ => by simp
  | cons c name ih =>
    rw [matchesLower, ensures_bind]
    intro b hb
    have hcell : i < buf.length := by
      by_contra hout
      rw [index, List.getElem?_eq_none (by omega)] at hb
      cases hb
    rw [index_eq hcell] at hb
    cases hb
    rw [ensures_ite]
    constructor
    · intro _
      exact ensures_pure.mpr fun h => by cases h
    · intro hsame
      refine ih.mono fun found hfound htrue => ?_
      rw [List.drop_eq_getElem_cons hcell, List.length_cons, List.take_succ_cons, List.map_cons,
        List.map_cons, hfound htrue, not_not.mp hsame]

theorem lineStart_ensures : Ensures (lineStart buf i) fun found => found = true →
    buf.take i = [] ∨ (buf.take i).getLast? = some lf := by
  rw [lineStart, ensures_ite]
  constructor
  · intro hzero
    exact ensures_pure.mpr fun _ => .inl (by rw [hzero, List.take_zero])
  · intro hpos found hfound htrue
    right
    cases hcell : buf[i - 1]? with
    | none =>
      rw [index, hcell] at hfound
      cases hfound
    | some b =>
      rw [index, hcell] at hfound
      cases hfound
      have hlen : i - 1 < buf.length := (List.getElem?_eq_some_iff.mp hcell).1
      rw [List.getLast?_eq_getElem?, List.length_take, List.getElem?_take_of_lt (by omega),
        show min i buf.length - 1 = i - 1 by omega, hcell]
      exact congrArg some (beq_iff_eq.mp htrue)

theorem mem_take_drop {b : UInt8} (h : b ∈ (buf.take stop).drop start) :
    ∃ k, start ≤ k ∧ k < stop ∧ buf[k]? = some b := by
  obtain ⟨n, hn⟩ := List.mem_iff_getElem?.mp h
  rw [List.getElem?_drop, List.getElem?_take] at hn
  split_ifs at hn with hlt
  exact ⟨start + n, Nat.le_add_right start n, hlt, hn⟩

/-- A field value: blanks, then bytes up to the end of the line. -/
structure ValueAt (buf : Bytes) (start : ℕ) (bounds : ℕ × ℕ) : Prop where
  order : start ≤ bounds.1 ∧ bounds.1 < bounds.2 ∧ bounds.2 ≤ buf.length
  blanks : ∀ b ∈ (buf.take bounds.1).drop start, isBlank b
  value : ∀ b ∈ (buf.take bounds.2).drop bounds.1, isLineEnd b = false
  stop : ∀ b ∈ (buf.drop bounds.2).head?, isLineEnd b

theorem fieldValue_ensures (hstart : start ≤ buf.length) :
    Ensures (fieldValue buf buf.length start) fun r => ∀ bounds, r = some bounds →
      ValueAt buf start bounds := by
  rw [fieldValue, ensures_bind]
  refine (skipWhile_spec isBlank hstart le_rfl).ensures.mono ?_
  rintro first ⟨⟨hlow, hhigh⟩, hblanks, -⟩
  rw [ensures_bind]
  refine (skipWhile_spec _ hhigh le_rfl).ensures.mono ?_
  rintro last ⟨⟨hle, hend⟩, hvalue, hstop⟩
  rw [ensures_ite]
  constructor
  swap
  · exact fun _ => ensures_pure.mpr fun _ h => by cases h
  intro hlt
  rw [ensures_pure]
  rintro bounds ⟨⟩
  constructor
  · exact ⟨hlow, hlt, hend⟩
  · intro b hb
    obtain ⟨k, hk, hk', hcell⟩ := mem_take_drop hb
    exact hblanks k hk hk' b hcell
  · intro b hb
    obtain ⟨k, hk, hk', hcell⟩ := mem_take_drop hb
    simpa using hvalue k hk hk' b hcell
  · intro b hb
    rw [List.head?_drop] at hb
    have hin : last < buf.length := (List.getElem?_eq_some_iff.mp hb).1
    simpa using hstop hin b hb

theorem split_buffer {i k start stop : ℕ} (h : k ≤ start) (h' : start ≤ stop) :
    buf = buf.take i ++ (buf.drop i).take (k - i) ++ (buf.take start).drop k ++
      (buf.take stop).drop start ++ buf.drop stop ∨ k < i := by
  by_cases hik : k < i
  · exact .inr hik
  left
  have hfirst : buf.take i ++ (buf.drop i).take (k - i) = buf.take k := by
    rw [← List.take_add, show i + (k - i) = k by omega]
  have hnext : ∀ {m n : ℕ}, m ≤ n → buf.take m ++ (buf.take n).drop m = buf.take n := by
    intro m n hmn
    conv_lhs => rw [← min_eq_left hmn, ← List.take_take]
    rw [min_eq_left hmn, List.take_append_drop]
  rw [hfirst, hnext h, hnext h', List.take_append_drop]

theorem findLocation_ensures (buf : Bytes) :
    Ensures (findLocation buf buf.length) fun r => ∀ bounds, r = some bounds →
      bounds.2 ≤ buf.length ∧ bounds.1 ≤ bounds.2 ∧
        LocationField buf ((buf.take bounds.2).drop bounds.1) := by
  refine ensures_loop (fun _ => True) ?_ trivial _
  intro i _
  rw [ensures_ite]
  constructor
  swap
  · exact fun _ => ensures_pure.mpr fun _ h => by cases h
  intro hfits
  rw [locationAt, ensures_bind, ensures_bind]
  refine lineStart_ensures.mono fun atLine hline => ?_
  cases atLine with
  | false => exact ensures_pure.mpr (ensures_pure.mpr trivial)
  | true =>
    refine matchesLower_ensures.mono fun found hfound => ?_
    cases found with
    | false => exact ensures_pure.mpr trivial
    | true =>
      have hname := hfound rfl
      rw [if_pos rfl, ensures_map]
      refine (fieldValue_ensures hfits).mono fun r hr => ?_
      intro bounds hbounds
      obtain ⟨⟨hlow, hlt, hhigh⟩, hblanks, hvalue, hstop⟩ := hr bounds hbounds
      refine ⟨hhigh, hlt.le, buf.take i, (buf.drop i).take (i + 9 - i),
        (buf.take bounds.1).drop (i + 9), buf.drop bounds.2, ?_, hline rfl, ?_, hblanks, ?_, hvalue,
        hstop⟩
      · exact (split_buffer hlow hlt.le).resolve_right (by omega)
      · rw [Nat.add_sub_cancel_left]
        exact hname
      · apply List.ne_nil_of_length_pos
        rw [List.length_drop, List.length_take]
        omega

/-- The target of a redirect is where a `Location` field leads. -/
theorem redirectTarget_ensures (buf : Bytes) :
    Ensures (redirectTarget buf buf.length) fun r => ∀ target, r = some target →
      ∃ value, LocationField buf value ∧ Leads value target := by
  rw [redirectTarget, ensures_bind]
  refine (findLocation_ensures buf).mono fun r hr => ?_
  cases r with
  | none => exact ensures_pure.mpr fun _ h => by cases h
  | some bounds =>
    obtain ⟨hend, hle, hfield⟩ := hr bounds rfl
    dsimp only
    rw [slice_eq hle hend, ok_bind, ensures_bind]
    intro parts hparts
    cases parts with
    | none => exact ensures_pure.mpr fun _ h => by cases h
    | some parts =>
      dsimp only
      rw [ensures_bind]
      intro domain hdomain
      rw [ensures_bind]
      intro path hpath
      rw [ensures_pure]
      rintro target ⟨⟩
      exact ⟨_, hfield, parts, hparts, hdomain, hpath, rfl⟩

end Field

section Redirects

/-- The parser is behind a header block, whose status and redirect these are. -/
structure Found (http : HttpParser) (target : RedirectTarget) : Prop where
  behind : http.state ≠ .headers
  status : parseStatus http.header http.header.length = .ok http.status
  location : redirectTarget http.header http.header.length = .ok (some target)

/-- Behind the headers the parser keeps them and hands on no redirect. -/
structure Behind (http : HttpParser) (effects : List HttpEffect) (r : FeedResult) : Prop where
  behind : r.1.state ≠ .headers
  header : r.1.header = http.header
  status : r.1.status = http.status
  effects : ∃ more, r.2 = effects ++ more ∧ ∀ target, .redirect target ∉ more

variable {http : HttpParser} {data : Bytes} {s : FeedState} {target : RedirectTarget}

theorem Behind.refl {effects : List HttpEffect} (h : http.state ≠ .headers) :
    Behind http effects (http, effects) :=
  ⟨h, rfl, rfl, [], (List.append_nil _).symm, fun _ => List.not_mem_nil⟩

theorem Behind.trans {effects : List HttpEffect} {r last : FeedResult} (h : Behind http effects r)
    (h' : Behind r.1 r.2 last) : Behind http effects last := by
  obtain ⟨more, heffects, hmore⟩ := h.effects
  obtain ⟨later, heffects', hlater⟩ := h'.effects
  refine ⟨h'.behind, h'.header.trans h.header, h'.status.trans h.status, more ++ later, ?_, ?_⟩
  · rw [heffects', heffects, List.append_assoc]
  · intro target hmem
    exact (List.mem_append.mp hmem).elim (hmore target) (hlater target)

theorem Behind.found {effects : List HttpEffect} {r : FeedResult} (h : Behind http effects r)
    (hfound : Found http target) : Found r.1 target := by
  constructor
  · exact h.behind
  · rw [h.header, h.status]
    exact hfound.status
  · rw [h.header]
    exact hfound.location

/-- A byte of a chunk size line changes the framing only. -/
theorem chunkSizeByte_behind (h : http.state ≠ .headers) (b : UInt8) :
    Ensures (chunkSizeByte http b) fun next => next.state ≠ .headers ∧ next.header = http.header ∧
      next.status = http.status := by
  have hsame : ∀ expectLf ext,
      Ensures (pure { http with chunkExpectLf := expectLf, chunkExt := ext } : Checked HttpParser)
        fun next => next.state ≠ .headers ∧ next.header = http.header ∧ next.status = http.status :=
    fun _ _ => ensures_pure.mpr ⟨h, rfl, rfl⟩
  unfold chunkSizeByte
  split_ifs
  · exact ensures_pure.mpr ⟨by simp, rfl, rfl⟩
  · exact ensures_pure.mpr ⟨by simp, rfl, rfl⟩
  · exact hsame _ _
  · exact hsame true _
  · exact hsame _ _
  · exact hsame _ true
  · rw [ensures_bind]
    exact (ensures_true _).mono fun digit _ => ensures_pure.mpr ⟨h, rfl, rfl⟩
  · exact hsame _ _

/-- What a round of the parser behind the headers ensures. -/
def RoundBehind (s : FeedState) : Round FeedState FeedResult → Prop
  | .next t => Behind s.http s.effects (t.http, t.effects)
  | .done r => Behind s.http s.effects r

theorem Behind.body {next : HttpParser} (piece : Bytes) (json : Bool) (h : next.state ≠ .headers)
    (hheader : next.header = s.http.header) (hstatus : next.status = s.http.status) :
    Behind s.http s.effects (next, s.effects ++ [.body piece json]) :=
  ⟨h, hheader, hstatus, _, rfl, by simp⟩

theorem feedRound_behind (h : s.http.state ≠ .headers) :
    Ensures (feedRound data s) (RoundBehind s) := by
  have hstay : RoundBehind s (.done (s.http, s.effects)) := Behind.refl h
  rw [feedRound, ensures_ite]
  constructor
  swap
  · exact fun _ => ensures_pure.mpr hstay
  intro _
  cases hstate : s.http.state with
  | headers => exact absurd hstate h
  | complete => exact ensures_pure.mpr hstay
  | body =>
    dsimp only
    rw [feedBody, ensures_bind]
    refine (ensures_true _).mono fun rest _ => ?_
    rw [ensures_ite]
    refine ⟨fun _ => ensures_pure.mpr hstay, fun _ => ?_⟩
    rw [ensures_bind]
    refine (ensures_true _).mono fun piece _ => ?_
    rw [ensures_ite, ensures_pure, ensures_pure]
    constructor
    · exact fun _ => Behind.body _ _ (by simp) rfl rfl
    · exact fun _ => Behind.body _ _ h rfl rfl
  | chunkSize =>
    dsimp only
    rw [feedChunkSize, ensures_bind]
    refine (ensures_true _).mono fun b _ => ?_
    rw [ensures_bind]
    refine (chunkSizeByte_behind h b).mono fun next hnext => ?_
    rw [ensures_pure]
    exact ⟨hnext.1, hnext.2.1, hnext.2.2, [], (List.append_nil _).symm, fun _ => List.not_mem_nil⟩
  | chunkData =>
    dsimp only
    rw [feedChunkData, ensures_bind]
    refine (ensures_true _).mono fun rest _ => ?_
    rw [ensures_ite]
    refine ⟨fun _ => ensures_pure.mpr hstay, fun _ => ?_⟩
    rw [ensures_bind]
    refine (ensures_true _).mono fun piece _ => ?_
    rw [ensures_pure]
    apply Behind.body
    · dsimp only
      split_ifs
      · simp
      · exact h
    · rfl
    · rfl
  | chunkEnd =>
    dsimp only
    rw [feedChunkEnd, ensures_bind]
    refine (ensures_true _).mono fun b _ => ?_
    rw [ensures_ite]
    constructor
    · intro _
      rw [ensures_bind]
      refine (ensures_true _).mono fun skipLf _ => ?_
      rw [ensures_pure]
      exact ⟨by simp, rfl, rfl, [], (List.append_nil _).symm, fun _ => List.not_mem_nil⟩
    · exact fun _ => ensures_pure.mpr (Behind.refl h)

/-- A redirect that is handed on is the one of the header block that was read. -/
def Announced (r : FeedResult) : Prop := ∀ target, .redirect target ∈ r.2 → Found r.1 target

/-- What a round of the parser in the headers ensures. -/
def RoundAnnounced : Round FeedState FeedResult → Prop
  | .next t => Announced (t.http, t.effects)
  | .done r => Announced r

theorem httpParseHeaders_redirect {buf : Bytes} {chunked isJson : Bool} {contentLen : ℕ} :
    Ensures (httpParseHeaders buf buf.length chunked isJson contentLen) fun info =>
      parseStatus buf buf.length = .ok info.status ∧
        redirectTarget buf buf.length = .ok info.redirect := by
  rw [httpParseHeaders]
  simp only [ensures_bind]
  intro status hstatus nowChunked _ contentLen _ nowJson _ date _ redirect hredirect
  rw [ensures_pure]
  exact ⟨hstatus, hredirect⟩

theorem feedHeaders_announced (hnone : ∀ target, .redirect target ∉ s.effects) :
    Ensures (feedHeaders data s) RoundAnnounced := by
  have hpiece : ∀ http piece, Announced (http, s.effects ++ [.headerBytes piece]) := by
    intro http piece target hmem
    exact absurd hmem (by simp [hnone])
  have hlarge : ∀ http piece,
      Announced (http, s.effects ++ [.headerBytes piece] ++ [.headersTooLarge]) := by
    intro http piece target hmem
    exact absurd hmem (by simp [hnone])
  rw [feedHeaders, ensures_bind]
  refine (ensures_true _).mono fun found _ => ?_
  cases found with
  | none =>
    rw [ensures_bind]
    refine (ensures_true _).mono fun piece _ => ?_
    rw [ensures_ite, ensures_pure, ensures_bind]
    constructor
    · intro _
      exact (ensures_true _).mono fun header _ => ensures_pure.mpr (hpiece _ _)
    · exact fun _ => hlarge _ _
  | some hEnd =>
    rw [ensures_bind]
    refine (ensures_true _).mono fun piece _ => ?_
    rw [ensures_ite, ensures_pure, ensures_bind]
    constructor
    swap
    · exact fun _ => hlarge _ _
    intro _
    refine (ensures_true _).mono fun header _ => ?_
    rw [ensures_bind]
    refine httpParseHeaders_redirect.mono fun info hinfo => ?_
    rw [ensures_pure]
    intro target hmem
    have hredirect : info.redirect = some target := by
      unfold applyHeaders at hmem
      simpa [hnone] using hmem
    unfold applyHeaders
    constructor
    · dsimp only
      split_ifs <;> simp
    · exact hinfo.1
    · exact hredirect ▸ hinfo.2

/-- What feeding a piece does to the redirect: behind the headers nothing, else a header block may
announce one. -/
theorem httpFeed_redirect : Ensures (httpFeed http data) fun r =>
    (http.state ≠ .headers → Behind http [] r) ∧ Announced r := by
  have hnone : Announced (http, []) := fun _ h => absurd h List.not_mem_nil
  refine ensures_loop
    (fun s => (http.state ≠ .headers → Behind http [] (s.http, s.effects)) ∧
      Announced (s.http, s.effects)) ?_ ⟨Behind.refl, hnone⟩ _
  rintro s ⟨hbehind, hannounced⟩
  by_cases hstate : s.http.state = .headers
  · have hfirst : ∀ {P : Prop}, http.state ≠ .headers → P :=
      fun hne => absurd hstate (hbehind hne).behind
    have hquiet : ∀ target, .redirect target ∉ s.effects :=
      fun target hmem => (hannounced target hmem).behind hstate
    rw [feedRound, ensures_ite]
    constructor
    · intro _
      simp only [hstate]
      refine (feedHeaders_announced hquiet).mono fun round hround => ?_
      cases round with
      | next t => exact ⟨hfirst, hround⟩
      | done r => exact ⟨hfirst, hround⟩
    · exact fun _ => ensures_pure.mpr ⟨hbehind, hannounced⟩
  · have hon : ∀ r, Behind s.http s.effects r →
        (http.state ≠ .headers → Behind http [] r) ∧ Announced r := by
      intro r hr
      refine ⟨fun hne => (hbehind hne).trans hr, fun target hmem => ?_⟩
      obtain ⟨more, heffects, hmore⟩ := hr.effects
      rw [heffects] at hmem
      rcases List.mem_append.mp hmem with hold | hnew
      · exact hr.found (hannounced target hold)
      · exact absurd hnew (hmore target)
    refine (feedRound_behind hstate).mono fun round hround => ?_
    cases round with
    | next t => exact hon _ hround
    | done r => exact hon _ hround

end Redirects

end MiniAgentOS.Http
