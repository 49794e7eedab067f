import MiniAgentOS.Fetch.Commands
import MiniAgentOS.Text.Capacity

/-! What the agent keeps of a response: the text that it reads out of the front of a body is the text of the
whole body, and its flag for a cut body is cleared by the first byte of the next one only. -/
namespace MiniAgentOS.Agent
open Checked Fetch Net

section Streaming

variable {phase : AgentPhase} {status capacity : ℕ} {body text : Bytes} {c : Capture}

/-- The capture after the pieces of a body. -/
def captureAll (phase : AgentPhase) (status : ℕ) (c : Capture) (chunks : List Bytes) : Checked Capture :=
  chunks.foldlM (captureBody phase status) c

/-- The output text of the body fits a buffer: with more room it would be the same. -/
def TextFits (body : Bytes) (capacity : ℕ) : Prop :=
  ∀ more, extractOpenaiNestedOutputText body (capacity + more) = extractOpenaiNestedOutputText body capacity

/-- The nested text at the end of the front `front` of a body, or none so far. -/
structure Streamed (seen : Bytes) (c : Capture) : Prop where
  cached : c.outputText ≠ [] → c.body ≠ [] ∧ c.body <+: seen ∧
    extractOpenaiNestedOutputText c.body agentOutputTextLen = .ok (some c.outputText)
  plain : c.outputText = [] → c.body = seen

/-- The text of a body that is no longer than the buffer fits it. -/
theorem TextFits.of_length (h : body.length ≤ capacity) : TextFits body capacity :=
  extractOpenaiNestedOutputText_more h

theorem extract_nil (capacity : ℕ) : extractOpenaiNestedOutputText [] capacity = .ok none := rfl

theorem captureBody_streamed {seen chunk : Bytes} (hphase : phase.openai = true)
    (hstatus : statusSuccess status = true) (h : Streamed seen c)
    (hfits : (seen ++ chunk).length ≤ agentResponseBodyLen) :
    Returns (captureBody phase status c chunk) (Streamed (seen ++ chunk)) := by
  by_cases hcached : c.outputText = []
  swap
  · obtain ⟨hne, hpre, htext⟩ := h.cached hcached
    have hkeep : captureBody phase status c chunk = .ok c := by
      unfold captureBody
      rw [if_neg hne, if_pos ⟨hphase, hcached, hstatus⟩]
      rfl
    rw [hkeep, returns_ok]
    exact ⟨fun _ => ⟨hne, hpre.trans (List.prefix_append _ _), htext⟩, fun hnil => absurd hnil hcached⟩
  have hbody := h.plain hcached
  -- the state behind the reset at the first byte
  obtain ⟨start, hstart, hstartBody, hstartText⟩ : ∃ start : Capture,
      (if c.body = [] then { c with truncated := false, outputText := [] } else c) = start ∧
        start.body = seen ∧ start.outputText = [] := by
    by_cases hnil : c.body = []
    · exact ⟨_, if_pos hnil, hbody, rfl⟩
    · exact ⟨_, if_neg hnil, hbody, hcached⟩
  have happend : (start.append chunk).body = seen ++ chunk ∧ (start.append chunk).outputText = [] := by
    rw [List.length_append] at hfits
    refine ⟨?_, hstartText⟩
    change start.body ++ chunk.take _ = _
    rw [hstartBody, List.take_of_length_le (by omega)]
  unfold captureBody
  rw [hstart]
  dsimp only
  rw [if_neg fun hall => hall.2.1 hstartText, if_pos ⟨hphase, hstatus⟩]
  have hword : (start.append chunk).body.length < 2 ^ 64 := by
    rw [happend.1]
    unfold agentResponseBodyLen at hfits
    omega
  obtain ⟨r, hr, -⟩ := extractOpenaiNestedOutputText_returns hword agentOutputTextLen
  rw [hr, ok_bind]
  cases r with
  | none =>
    apply Returns.pure
    exact ⟨fun hne => absurd happend.2 hne, fun _ => happend.1⟩
  | some text =>
    apply Returns.pure
    by_cases hnil : text = []
    · constructor
      · intro hne
        exact absurd (by rw [if_pos hnil, happend.2]) hne
      · exact fun _ => happend.1
    · constructor
      · intro _
        dsimp only
        rw [if_neg hnil, happend.1]
        rw [happend.1] at hr
        refine ⟨?_, List.prefix_refl _, hr⟩
        intro hempty
        rw [hempty, extract_nil] at hr
        cases hr
      · intro hempty
        dsimp only at hempty
        rw [if_neg hnil] at hempty
        exact absurd hempty hnil

theorem captureAll_streamed (hphase : phase.openai = true) (hstatus : statusSuccess status = true)
    (chunks : List Bytes) : ∀ {seen : Bytes} {c : Capture}, Streamed seen c →
    (seen ++ chunks.flatten).length ≤ agentResponseBodyLen →
    Returns (captureAll phase status c chunks) (Streamed (seen ++ chunks.flatten)) := by
  induction chunks with
  | nil =>
    intro seen c h _
    rw [List.flatten_nil, List.append_nil]
    exact Returns.pure h
  | cons chunk chunks ih =>
    intro seen c h hfits
    rw [List.flatten_cons, ← List.append_assoc] at hfits ⊢
    rw [captureAll, List.foldlM_cons]
    have hchunk : (seen ++ chunk).length ≤ agentResponseBodyLen := by
      rw [List.length_append] at hfits
      omega
    apply Returns.bind (captureBody_streamed hphase hstatus h hchunk)
    exact fun next hnext => ih hnext hfits

theorem trimText_length_le (text : Bytes) : Returns (trimText text) fun r => r.length ≤ text.length := by
  apply Returns.bind (skipWhile_returns isSpace (Nat.zero_le _) le_rfl)
  intro start hstart
  apply Returns.bind (trimEnd_returns hstart.2 le_rfl)
  intro stop hstop
  apply returns_slice hstop.1 hstop.2
  rw [List.length_drop, List.length_take]
  omega

/-- The nested text keeps to its buffer. -/
theorem extractNested_length_le (hbody : body.length < 2 ^ 64) (capacity : ℕ) :
    Returns (extractOpenaiNestedOutputText body capacity) fun r => ∀ text, r = some text →
      text.length ≤ capacity := by
  refine returns_loop (fun _ => True) (fun scan => body.length - scan) ?_ trivial (by omega)
  intro scan _
  apply Returns.ite
  swap
  · exact fun _ => Returns.pure (by simp)
  intro hscan
  apply Returns.bind (jsonExtractStringFrom_returns le_rfl scan)
  intro r hr
  cases r with
  | none => exact Returns.pure (by simp)
  | some value =>
    obtain ⟨valueStart, kind⟩ := value
    have hstart : scan < valueStart := (hr _ rfl).1
    apply Returns.bind (startsWithAt_returns le_rfl)
    intro hit _
    apply Returns.ite
    swap
    · intro _
      apply Returns.pure
      rw [roundPost_next]
      refine ⟨trivial, ?_⟩
      unfold saturatingAdd
      omega
    intro _
    apply Returns.bind (jsonExtractStringFrom_returns le_rfl valueStart)
    intro r hr
    cases r with
    | none => exact Returns.pure (by simp)
    | some value =>
      obtain ⟨off, text⟩ := value
      simp only [returns_map]
      refine (trimText_length_le text).mono fun trimmed htrimmed => ?_
      rw [roundPost_done]
      rintro found ⟨⟩
      exact htrimmed.trans (hr _ rfl).2

/-- Reading the text out of the fronts of a body, and keeping the first that is found, gives the text that the
whole body gives. -/
theorem streaming_extraction {chunks : List Bytes} (hphase : phase.openai = true)
    (hstatus : statusSuccess status = true) (hfits : chunks.flatten.length ≤ agentResponseBodyLen)
    (htext : TextFits chunks.flatten agentOutputTextLen) (hout : TextFits chunks.flatten capacity) :
    (do let c ← captureAll phase status {} chunks
        extractOpenaiOutputText c.body c.outputText capacity) =
      extractOpenaiOutputText chunks.flatten [] capacity := by
  have hstart : Streamed [] ({} : Capture) := ⟨fun hne => absurd rfl hne, fun _ => rfl⟩
  obtain ⟨c, hc, hstreamed⟩ := captureAll_streamed hphase hstatus chunks hstart (by simpa using hfits)
  rw [List.nil_append] at hstreamed
  rw [hc, ok_bind]
  by_cases hcached : c.outputText = []
  · rw [hstreamed.plain hcached, hcached]
  · obtain ⟨-, ⟨more, hmore⟩, hfound⟩ := hstreamed.cached hcached
    have hword : chunks.flatten.length < 2 ^ 64 := by
      unfold agentResponseBodyLen at hfits
      omega
    have hwhole := extractOpenaiNestedOutputText_append hfound more
    rw [hmore] at hwhole
    have hsame : extractOpenaiNestedOutputText chunks.flatten capacity = .ok (some c.outputText) := by
      rw [← hout agentOutputTextLen, Nat.add_comm, htext capacity, hwhole]
    obtain ⟨r, hr, hlen⟩ := extractNested_length_le hword capacity
    rw [hsame] at hr
    have hle := hlen c.outputText (Except.ok.inj hr).symm
    rw [extractOpenaiOutputText, if_pos hcached, List.take_of_length_le hle, extractOpenaiOutputText,
      if_neg (fun h => h rfl), hsame]
    rfl

/-- A reply that arrives in two pieces, the first of which ends in a key. -/
theorem streaming_extraction_two_pieces :
    (do let c ← captureAll .m4Model 200 {} [ascii "\x7b\"type\":\"output_text\",\"te", ascii "xt\":\"hi\"\x7d"]
        extractOpenaiOutputText c.body c.outputText agentOutputTextLen) =
      extractOpenaiOutputText [ascii "\x7b\"type\":\"output_text\",\"te", ascii "xt\":\"hi\"\x7d"].flatten []
        agentOutputTextLen := by
  have hlen : [ascii "\x7b\"type\":\"output_text\",\"te", ascii "xt\":\"hi\"\x7d"].flatten.length ≤ agentOutputTextLen := by
    rw [List.flatten_cons, List.flatten_singleton, List.length_append, ascii_length rfl, ascii_length rfl]
    decide
  have hfits := TextFits.of_length hlen
  exact streaming_extraction rfl rfl (hlen.trans (by decide)) hfits hfits

end Streaming

section Flag

variable {phase : AgentPhase} {status : ℕ}

/-- A fetch with the agent in a phase: the status of the response and the pieces of its body, as
`send_body_chunks` gets them. -/
structure CapturedFetch where
  phase : AgentPhase
  status : ℕ
  chunks : List Bytes
  nonempty : ∀ chunk ∈ chunks, chunk ≠ []

/-- The capture behind a fetch: the start clears it, except for its flag, unless the phase keeps no body. -/
def runFetch (c : Capture) (f : CapturedFetch) : Checked Capture :=
  if f.phase.captures then captureAll f.phase f.status { c with body := [], outputText := [] } f.chunks
  else pure c

def nonemptyText : Checked (Option Bytes) → Bool
  | .ok (some text) => text != []
  | _ => false

/-- A text is cached once a nonempty one is found in what was stored. -/
def cachedText (phase : AgentPhase) (status : ℕ) (stored : Bytes) : Bool :=
  phase.openai && statusSuccess status && nonemptyText (extractOpenaiNestedOutputText stored agentOutputTextLen)

/-- The number of body bytes that arrive up to the one with which a text is cached, `seen` being those that
arrived already. -/
def countedBytes (phase : AgentPhase) (status : ℕ) : Bytes → List Bytes → ℕ
  | seen, [] => seen.length
  | seen, chunk :: chunks =>
    if cachedText phase status ((seen ++ chunk).take agentResponseBodyLen) then (seen ++ chunk).length
    else countedBytes phase status (seen ++ chunk) chunks

/-- The body of the response did not fit. -/
def CapturedFetch.Overflows (f : CapturedFetch) : Prop :=
  f.phase.captures ∧ agentResponseBodyLen < countedBytes f.phase f.status [] f.chunks

/-- Some byte of the body was captured. -/
def CapturedFetch.Captured (f : CapturedFetch) : Prop := f.phase.captures ∧ f.chunks ≠ []

/-- After each of the fetches the flag says whether the body of its response did not fit. -/
def FlagsRight : Capture → List CapturedFetch → Prop
  | _, [] => True
  | c, f :: fetches => ∃ next, runFetch c f = .ok next ∧ (next.truncated = true ↔ f.Overflows) ∧
      FlagsRight next fetches

/-- The capture in the middle of a body, without a cached text yet. -/
structure Storing (seen : Bytes) (c : Capture) : Prop where
  body : c.body = seen.take agentResponseBodyLen
  flag : seen ≠ [] → (c.truncated = true ↔ agentResponseBodyLen < seen.length)
  text : c.outputText = []

theorem captureBody_storing {seen chunk : Bytes} {c : Capture} (h : Storing seen c) :
    ∃ next, captureBody phase status c chunk = .ok next ∧
      next.body = (seen ++ chunk).take agentResponseBodyLen ∧
      (next.truncated = true ↔ agentResponseBodyLen < (seen ++ chunk).length) ∧
      if cachedText phase status ((seen ++ chunk).take agentResponseBodyLen) then
        next.outputText ≠ [] ∧ phase.openai = true ∧ statusSuccess status = true
      else next.outputText = [] := by
  have hcap : 0 < agentResponseBodyLen := by decide
  have hempty : c.body = [] ↔ seen = [] := by
    rw [h.body, List.take_eq_nil_iff]
    exact or_iff_right hcap.ne'
  -- the state behind the reset at the first byte
  obtain ⟨start, hstart, hbody, htext, hflag⟩ : ∃ start : Capture,
      (if c.body = [] then { c with truncated := false, outputText := [] } else c) = start ∧
        start.body = seen.take agentResponseBodyLen ∧ start.outputText = [] ∧
        (start.truncated = true ↔ agentResponseBodyLen < seen.length) := by
    by_cases hnil : c.body = []
    · refine ⟨_, if_pos hnil, h.body, rfl, ?_⟩
      rw [hempty.mp hnil, List.length_nil]
      exact iff_of_false Bool.false_ne_true (Nat.not_lt_zero _)
    · exact ⟨c, if_neg hnil, h.body, h.text, h.flag (fun hseen => hnil (hempty.mpr hseen))⟩
  have hlen : start.body.length = min agentResponseBodyLen seen.length := by rw [hbody, List.length_take]
  have happend : (start.append chunk).body = (seen ++ chunk).take agentResponseBodyLen := by
    change start.body ++ chunk.take (agentResponseBodyLen - start.body.length) = _
    rw [hlen, hbody, List.take_append]
    congr 2
    omega
  have hflag' : (start.append chunk).truncated = true ↔ agentResponseBodyLen < (seen ++ chunk).length := by
    change (start.truncated || decide (agentResponseBodyLen - start.body.length < chunk.length)) = true ↔ _
    rw [Bool.or_eq_true, hflag, decide_eq_true_iff, hlen, List.length_append]
    omega
  unfold captureBody
  rw [hstart]
  dsimp only
  rw [if_neg fun hall => hall.2.1 htext]
  by_cases hopenai : phase.openai = true ∧ statusSuccess status = true
  swap
  · have hnever : cachedText phase status ((seen ++ chunk).take agentResponseBodyLen) = false := by
      unfold cachedText
      rw [Bool.and_eq_false_iff, Bool.and_eq_false_iff, Bool.eq_false_iff, Bool.eq_false_iff]
      exact .inl (not_and_or.mp hopenai)
    rw [if_neg hopenai, hnever]
    refine ⟨_, rfl, happend, hflag', ?_⟩
    rw [if_neg Bool.false_ne_true]
    exact htext
  have hword : (start.append chunk).body.length < 2 ^ 64 := by
    have hle := List.length_take_le agentResponseBodyLen (seen ++ chunk)
    rw [happend]
    unfold agentResponseBodyLen at hle ⊢
    omega
  obtain ⟨r, hr, -⟩ := extractOpenaiNestedOutputText_returns hword agentOutputTextLen
  have hcached : cachedText phase status ((seen ++ chunk).take agentResponseBodyLen) =
      nonemptyText (.ok r) := by
    unfold cachedText
    rw [hopenai.1, hopenai.2, ← happend, hr]
    rfl
  rw [if_pos hopenai, hr, ok_bind, hcached]
  cases r with
  | none =>
    have hnone : ¬ nonemptyText (.ok none) = true := Bool.false_ne_true
    refine ⟨_, rfl, happend, hflag', ?_⟩
    rw [if_neg hnone]
    exact htext
  | some text =>
    have hsome : nonemptyText (.ok (some text)) = true ↔ text ≠ [] := bne_iff_ne
    by_cases hnil : text = []
    · refine ⟨_, rfl, happend, hflag', ?_⟩
      rw [if_neg fun h => hsome.mp h hnil, if_pos hnil]
      exact htext
    · refine ⟨_, rfl, happend, hflag', ?_⟩
      rw [if_pos (hsome.mpr hnil), if_neg hnil]
      exact ⟨hnil, hopenai⟩

/-- Once a text is cached, nothing more is stored. -/
theorem captureAll_cached {c : Capture} (hphase : phase.openai = true) (hstatus : statusSuccess status = true)
    (hbody : c.body ≠ []) (htext : c.outputText ≠ []) (chunks : List Bytes) :
    captureAll phase status c chunks = .ok c := by
  induction chunks with
  | nil => rfl
  | cons chunk chunks ih =>
    have hkeep : captureBody phase status c chunk = .ok c := by
      unfold captureBody
      rw [if_neg hbody, if_pos ⟨hphase, htext, hstatus⟩]
      rfl
    rw [captureAll, List.foldlM_cons, hkeep, ok_bind]
    exact ih

theorem captureAll_flag (chunks : List Bytes) : ∀ {seen : Bytes} {c : Capture}, Storing seen c →
    (∀ chunk ∈ chunks, chunk ≠ []) → ∃ next, captureAll phase status c chunks = .ok next ∧
      (seen ++ chunks.flatten ≠ [] →
        (next.truncated = true ↔ agentResponseBodyLen < countedBytes phase status seen chunks)) ∧
      (chunks = [] → next = c) := by
  induction chunks with
  | nil =>
    intro seen c h _
    refine ⟨c, rfl, ?_, fun _ => rfl⟩
    rw [List.flatten_nil, List.append_nil]
    exact h.flag
  | cons chunk chunks ih =>
    intro seen c h hne
    have hchunk := hne chunk List.mem_cons_self
    obtain ⟨next, hnext, hbody, hflag, htext⟩ := @captureBody_storing phase status seen chunk c h
    rw [captureAll, List.foldlM_cons, hnext, ok_bind, countedBytes]
    have hseen : seen ++ chunk ≠ [] := fun hnil => hchunk (List.append_eq_nil_iff.mp hnil).2
    have hstored : next.body ≠ [] := by
      have hcap : agentResponseBodyLen ≠ 0 := by decide
      rw [hbody, Ne, List.take_eq_nil_iff]
      exact not_or.mpr ⟨hcap, hseen⟩
    by_cases hcached : cachedText phase status ((seen ++ chunk).take agentResponseBodyLen) = true
    · rw [if_pos hcached] at htext ⊢
      refine ⟨next, captureAll_cached htext.2.1 htext.2.2 hstored htext.1 chunks, fun _ => hflag, ?_⟩
      exact fun h => nomatch h
    · rw [if_neg hcached] at htext ⊢
      obtain ⟨last, hlast, hright, -⟩ := ih ⟨hbody, fun _ => hflag, htext⟩
        fun other hother => hne other (List.mem_cons_of_mem chunk hother)
      refine ⟨last, hlast, fun _ => hright ?_, fun h => nomatch h⟩
      exact fun hnil => hseen (List.append_eq_nil_iff.mp hnil).1

/-- A fetch of which something is captured sets the flag; another leaves it. -/
theorem runFetch_flag (c : Capture) (f : CapturedFetch) : ∃ next, runFetch c f = .ok next ∧
    (f.Captured → (next.truncated = true ↔ f.Overflows)) ∧
    (¬ f.Captured → next.truncated = c.truncated ∧ ¬ f.Overflows) := by
  unfold runFetch CapturedFetch.Captured CapturedFetch.Overflows
  by_cases hcaptures : f.phase.captures = true
  swap
  · rw [if_neg hcaptures]
    exact ⟨c, rfl, fun h => absurd h.1 hcaptures, fun _ => ⟨rfl, fun h => hcaptures h.1⟩⟩
  have hstart : Storing [] { c with body := [], outputText := [] } :=
    ⟨List.take_nil.symm, fun h => absurd rfl h, rfl⟩
  obtain ⟨next, hnext, hflag, hkeep⟩ :=
    @captureAll_flag f.phase f.status f.chunks [] { c with body := [], outputText := [] } hstart f.nonempty
  rw [if_pos hcaptures]
  refine ⟨next, hnext, ?_, ?_⟩
  · intro hcaptured
    rw [and_iff_right hcaptures]
    apply hflag
    obtain ⟨chunk, chunks, hchunks⟩ := List.exists_cons_of_ne_nil hcaptured.2
    have hne := f.nonempty chunk (hchunks ▸ List.mem_cons_self)
    rw [hchunks, List.nil_append, List.flatten_cons]
    exact fun hnil => hne (List.append_eq_nil_iff.mp hnil).1
  · intro hnot
    have hnil : f.chunks = [] := by
      by_contra hne
      exact hnot ⟨hcaptures, hne⟩
    refine ⟨by rw [hkeep hnil], ?_⟩
    rw [hnil]
    exact fun h => absurd h.2 (Nat.not_lt_zero _)

theorem CapturedFetch.Overflows.captured {f : CapturedFetch} (h : f.Overflows) : f.Captured := by
  refine ⟨h.1, fun hnil => ?_⟩
  have hover := h.2
  rw [hnil] at hover
  exact absurd hover (Nat.not_lt_zero _)

/-- No fetch without a captured byte directly follows one whose body did not fit. -/
def NoneAfterOverflow : List CapturedFetch → Prop := List.IsChain fun f next => f.Overflows → next.Captured

theorem flagsRight_iff (fetches : List CapturedFetch) : ∀ c : Capture,
    (FlagsRight c fetches ↔ (c.truncated = true → ∀ f ∈ fetches.head?, f.Captured) ∧ NoneAfterOverflow fetches) := by
  induction fetches with
  | nil => exact fun c => iff_of_true trivial ⟨fun _ f hf => (nomatch hf), .nil⟩
  | cons f fetches ih =>
    intro c
    obtain ⟨next, hnext, hcaptured, hkept⟩ := runFetch_flag c f
    have hsplit : FlagsRight c (f :: fetches) ↔
        (next.truncated = true ↔ f.Overflows) ∧ FlagsRight next fetches := by
      constructor
      · rintro ⟨other, hother, hrest⟩
        rw [hnext] at hother
        cases hother
        exact hrest
      · exact fun h => ⟨next, hnext, h⟩
    have hchain : NoneAfterOverflow (f :: fetches) ↔
        (∀ g ∈ fetches.head?, f.Overflows → g.Captured) ∧ NoneAfterOverflow fetches := List.isChain_cons
    rw [hsplit, ih next, hchain]
    by_cases hf : f.Captured
    · have hflag := hcaptured hf
      constructor
      · rintro ⟨-, hhead, hrest⟩
        exact ⟨fun _ g hg => (by cases hg; exact hf), fun g hg hover => hhead (hflag.mpr hover) g hg, hrest⟩
      · rintro ⟨-, hhead, hrest⟩
        exact ⟨hflag, fun hset g hg => hhead g hg (hflag.mp hset), hrest⟩
    · obtain ⟨hsame, hnone⟩ := hkept hf
      constructor
      · rintro ⟨hright, hhead, hrest⟩
        refine ⟨fun hset => ?_, fun g hg hover => absurd hover hnone, hrest⟩
        rw [← hsame] at hset
        exact absurd (hright.mp hset) hnone
      · rintro ⟨hset, -, hrest⟩
        have hclear : next.truncated ≠ true := by
          intro h
          rw [hsame] at h
          exact hf (hset h f rfl)
        exact ⟨iff_of_false hclear hnone, fun h => absurd h hclear, hrest⟩

theorem countedBytes_plain (hphase : phase.openai = false) (seen : Bytes) (chunks : List Bytes) :
    countedBytes phase status seen chunks = (seen ++ chunks.flatten).length := by
  induction chunks generalizing seen with
  | nil => rw [countedBytes, List.flatten_nil, List.append_nil]
  | cons chunk chunks ih =>
    have hnever : cachedText phase status ((seen ++ chunk).take agentResponseBodyLen) = false := by
      unfold cachedText
      rw [hphase]
      rfl
    rw [countedBytes, hnever, if_neg Bool.false_ne_true, ih, List.flatten_cons, List.append_assoc]

end Flag

end MiniAgentOS.Agent
