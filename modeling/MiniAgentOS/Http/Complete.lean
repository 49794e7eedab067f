import MiniAgentOS.Http.Chunked

/-! A parser that is complete was given the whole body that the headers frame. -/
namespace MiniAgentOS.Http
open Checked

variable {http : HttpParser} {pieces : List Bytes} {data : Bytes}

/-- The body is the one that the headers frame, all of it: as many bytes as the content length says,
or the data of a sequence of chunks that was received up to its end. -/
def WholeBody (http : HttpParser) (pieces : List Bytes) (body : Bytes) : Prop :=
  ∃ block rest, headerBlock [] pieces = some (block, rest) ∧
    if http.chunked then
      ∀ bytes chunks, ChunkedBody bytes chunks → (bytes <+: rest ∨ rest <+: bytes) →
        bytes <+: rest ∧ body = chunks
    else 0 < http.contentLen ∧ http.contentLen ≤ rest.length ∧ body = rest.take http.contentLen

theorem bodyStep_framing (http : HttpParser) (b : UInt8) :
    (bodyStep http b).1.chunked = http.chunked ∧ (bodyStep http b).1.contentLen = http.contentLen := by
  unfold bodyStep chunkSizeStep
  cases http.state with
  | chunkEnd =>
    dsimp only
    split_ifs <;> exact ⟨rfl, rfl⟩
  | headers => exact ⟨rfl, rfl⟩
  | complete => exact ⟨rfl, rfl⟩
  | _ =>
    dsimp only
    split_ifs <;> exact ⟨rfl, rfl⟩

/-- Behind the headers the framing stays what it is. -/
theorem bodyRun_framing (data : Bytes) : ∀ http, (bodyRun http data).1.chunked = http.chunked ∧
    (bodyRun http data).1.contentLen = http.contentLen := by
  induction data with
  | nil => exact fun _ => ⟨rfl, rfl⟩
  | cons b data ih =>
    intro http
    obtain ⟨hchunked, hlen⟩ := ih (bodyStep http b).1
    obtain ⟨hchunked', hlen'⟩ := bodyStep_framing http b
    exact ⟨hchunked.trans hchunked', hlen.trans hlen'⟩

/-- A counter at its limit does not reach the content length. -/
theorem bodyRun_saturated (data : Bytes) : ∀ {http : HttpParser}, http.state = .body →
    2 ^ 64 - 1 ≤ http.bodyRecv → http.bodyRecv < http.contentLen →
    (bodyRun http data).1.state = .body := by
  induction data with
  | nil => exact fun hstate _ _ => hstate
  | cons b data ih =>
    intro http hstate hfull hroom
    have hgo : ¬ (http.contentLen > 0 ∧ http.bodyRecv ≥ http.contentLen) := by omega
    have hstay : ¬ (http.contentLen > 0 ∧ saturatingAdd http.bodyRecv 1 ≥ http.contentLen) := by
      unfold saturatingAdd
      omega
    rw [bodyRun, bodyStep, hstate]
    simp only [hgo, hstay, if_false]
    apply ih rfl
    · unfold saturatingAdd
      dsimp only
      omega
    · unfold saturatingAdd
      dsimp only
      omega

/-- A body with a content length is complete after just that many bytes. -/
theorem bodyRun_contentLength (data : Bytes) : ∀ {http : HttpParser}, http.state = .body →
    0 < http.contentLen → http.bodyRecv < http.contentLen →
    (bodyRun http data).1.state = .complete →
    http.contentLen - http.bodyRecv ≤ data.length ∧
      (bodyRun http data).2 = data.take (http.contentLen - http.bodyRecv) := by
  induction data with
  | nil =>
    intro http hstate _ _ hcomplete
    rw [bodyRun, hstate] at hcomplete
    cases hcomplete
  | cons b data ih =>
    intro http hstate hpos hroom hcomplete
    have hgo : ¬ (http.contentLen > 0 ∧ http.bodyRecv ≥ http.contentLen) := by omega
    rw [bodyRun, bodyStep, hstate] at hcomplete ⊢
    simp only [hgo, if_false] at hcomplete ⊢
    by_cases hlast : http.contentLen > 0 ∧ saturatingAdd http.bodyRecv 1 ≥ http.contentLen
    · simp only [hlast, and_self, if_true] at hcomplete ⊢
      have hone : http.contentLen - http.bodyRecv = 1 := by
        have hreach := hlast.2
        unfold saturatingAdd at hreach
        omega
      rw [hone, bodyRun_complete rfl]
      simp
    · simp only [hlast, if_false] at hcomplete ⊢
      have hmore : saturatingAdd http.bodyRecv 1 < http.contentLen := by omega
      by_cases hfull : 2 ^ 64 - 1 ≤ http.bodyRecv
      · have hstuck := @bodyRun_saturated data
          { http with bodyRecv := saturatingAdd http.bodyRecv 1, state := .body } rfl
          (by unfold saturatingAdd; dsimp only; omega) hmore
        rw [hstuck] at hcomplete
        cases hcomplete
      · have hnext : saturatingAdd http.bodyRecv 1 = http.bodyRecv + 1 := by
          unfold saturatingAdd
          omega
        obtain ⟨hlen, hout⟩ := @ih
          { http with bodyRecv := saturatingAdd http.bodyRecv 1, state := .body } rfl hpos hmore
          hcomplete
        dsimp only at hlen hout
        rw [hnext] at hlen hout
        have hsplit : http.contentLen - http.bodyRecv = http.contentLen - (http.bodyRecv + 1) + 1 := by
          omega
        rw [hnext, hout, hsplit, List.length_cons, List.take_succ_cons]
        exact ⟨by omega, rfl⟩

/-- A sequence of chunks that the response begins with, or that begins with the response, was
received if the parser is complete. -/
theorem bodyRun_chunked {rest bytes chunks : Bytes} (hstart : AtSizeLine http)
    (hcomplete : (bodyRun http rest).1.state = .complete) (hchunks : ChunkedBody bytes chunks)
    (hpre : bytes <+: rest ∨ rest <+: bytes) : bytes <+: rest ∧ (bodyRun http rest).2 = chunks := by
  obtain ⟨found, body, hfound, hbody⟩ := (bodyRun_complete_iff hstart).mp hcomplete
  have hsame : found = bytes ∧ body = chunks := by
    rcases hpre with hwhole | hpart
    · exact hbody.unique hchunks.lenient hfound hwhole
    · exact hbody.unique hchunks.lenient (hfound.trans hpart) (List.prefix_refl bytes)
  obtain ⟨rfl, rfl⟩ := hsame
  exact ⟨hfound, bodyRun_body_eq hstart hbody hfound⟩

theorem readHeaders_atBody {block : Bytes} (hread : readHeaders httpReset block = .ok http)
    (hchunked : http.chunked = false) : http.state = .body ∧ http.bodyRecv = 0 := by
  rw [readHeaders] at hread
  cases hinfo : httpParseHeaders block block.length httpReset.chunked httpReset.isJson
      httpReset.contentLen with
  | error trap =>
    rw [hinfo] at hread
    cases hread
  | ok info =>
    rw [hinfo] at hread
    cases hread
    have hstate : info.chunked = false := hchunked
    exact ⟨by simp [applyHeaders, hstate], rfl⟩

/-- A body without any framing has no end that the parser could see. -/
theorem bodyRun_unframed (data : Bytes) : ∀ {http : HttpParser}, http.state = .body →
    http.contentLen = 0 → (bodyRun http data).1.state = .body := by
  induction data with
  | nil => exact fun hstate _ => hstate
  | cons b data ih =>
    intro http hstate hzero
    have hgo : ∀ n, ¬ (http.contentLen > 0 ∧ n ≥ http.contentLen) := by omega
    rw [bodyRun, bodyStep, hstate]
    simp only [hgo, if_false]
    exact ih rfl hzero

/-- A complete parser was given the whole body, and has handed it on. -/
theorem complete_whole {effects : List HttpEffect}
    (hfeed : feedAll httpReset pieces = .ok (http, effects)) (hcomplete : http.state = .complete) :
    WholeBody http pieces (bodyBytes effects) := by
  have hall := feedAll_headers pieces (show httpReset.state = .headers from rfl)
  rw [hfeed, httpReset_header] at hall
  cases hblock : headerBlock [] pieces with
  | none =>
    rw [hblock] at hall
    obtain ⟨header, heq⟩ := hall
    have hhttp : http = { httpReset with header } := congrArg Prod.fst (Except.ok.inj heq)
    rw [hhttp] at hcomplete
    cases hcomplete
  | some found =>
    obtain ⟨block, rest⟩ := found
    rw [hblock] at hall
    dsimp only at hall
    refine ⟨block, rest, hblock, ?_⟩
    cases hread : readHeaders httpReset block with
    | error trap =>
      rw [hread] at hall
      cases hall
    | ok next =>
      rw [hread] at hall
      have hrun : (http, bodyBytes effects) = bodyRun next rest := Except.ok.inj hall
      have hhttp : http = (bodyRun next rest).1 := congrArg Prod.fst hrun
      have hbody : bodyBytes effects = (bodyRun next rest).2 := congrArg Prod.snd hrun
      obtain ⟨hchunked, hlen⟩ := bodyRun_framing rest next
      rw [hhttp] at hcomplete
      rw [hhttp, hbody, hchunked, hlen]
      cases hframe : next.chunked with
      | true =>
        rw [if_pos rfl]
        intro bytes chunks hchunks hpre
        exact bodyRun_chunked (readHeaders_atSizeLine hread hframe) hcomplete hchunks hpre
      | false =>
        rw [if_neg Bool.false_ne_true]
        obtain ⟨hstate, hzero⟩ := readHeaders_atBody hread hframe
        have hpos : 0 < next.contentLen := by
          by_contra hno
          rw [bodyRun_unframed rest hstate (by omega)] at hcomplete
          cases hcomplete
        obtain ⟨henough, hout⟩ := bodyRun_contentLength rest hstate hpos (hzero ▸ hpos) hcomplete
        rw [hzero, Nat.sub_zero] at henough hout
        exact ⟨hpos, henough, hout⟩

end MiniAgentOS.Http
