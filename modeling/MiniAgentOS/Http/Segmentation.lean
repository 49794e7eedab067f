import MiniAgentOS.Http.HeaderBlock

/-! When the way a response is cut into pieces matters: the header terminator has to lie in one
piece, so a response with a terminator that the header buffer can hold is always cut somewhere. -/
namespace MiniAgentOS.Http
open Checked

variable {stream : Bytes} {pieces : List Bytes}

/-- What a response comes to: the status, the parse state, the framing fields and the body. -/
structure Observed where
  status : ℕ
  state : ParseState
  chunked : Bool
  contentLen : ℕ
  bodyRecv : ℕ
  chunkRemain : ℕ
  chunkParse : UInt64
  chunkHaveDigit : Bool
  chunkExt : Bool
  chunkExpectLf : Bool
  body : Bytes
  deriving DecidableEq, Repr

def observe (r : HttpParser × Bytes) : Observed where
  status := r.1.status
  state := r.1.state
  chunked := r.1.chunked
  contentLen := r.1.contentLen
  bodyRecv := r.1.bodyRecv
  chunkRemain := r.1.chunkRemain
  chunkParse := r.1.chunkParse
  chunkHaveDigit := r.1.chunkHaveDigit
  chunkExt := r.1.chunkExt
  chunkExpectLf := r.1.chunkExpectLf
  body := r.2

/-- Feeding the pieces in order to a parser that was just reset. -/
def observed (pieces : List Bytes) : Checked Observed :=
  observe <$> delivered <$> feedAll httpReset pieces

def Cuts (stream : Bytes) (pieces : List Bytes) : Prop :=
  pieces.flatten = stream ∧ ∀ data ∈ pieces, data ≠ []

instance : Decidable (Cuts stream pieces) := inferInstanceAs (Decidable (_ ∧ _))

/-- Any two ways of cutting the response come to the same. -/
def CutsAgree (stream : Bytes) : Prop :=
  ∀ first second, Cuts stream first → Cuts stream second → observed first = observed second

/-- Each header terminator of the response ends within the four bytes behind the room of the
header buffer. -/
def NoUsableTerminator (stream : Bytes) : Prop :=
  ∀ n, Piece.At stream n headerTerminator →
    headerBufLen < n + headerTerminator.length ∧
      n + headerTerminator.length ≤ headerBufLen + headerTerminator.length

/-- The bytes of the terminator at `n` come in one piece. -/
def TerminatorWhole (pieces : List Bytes) (n : ℕ) : Prop :=
  ∃ before data after, pieces = before ++ data :: after ∧ before.flatten.length ≤ n ∧
    n + headerTerminator.length ≤ before.flatten.length + data.length

theorem observed_of_none (h : headerBlock [] pieces = none) :
    observed pieces = .ok (observe (httpReset, [])) := by
  have hfeed := feedAll_headers pieces (show httpReset.state = .headers from rfl)
  rw [httpReset_header, h] at hfeed
  obtain ⟨header, hfeed⟩ := hfeed
  rw [observed, hfeed]
  rfl

theorem observed_of_some {block rest : Bytes} (h : headerBlock [] pieces = some (block, rest)) :
    observed pieces = (fun next => observe (bodyRun next rest)) <$> readHeaders httpReset block := by
  have hfeed := feedAll_headers pieces (show httpReset.state = .headers from rfl)
  rw [httpReset_header, h] at hfeed
  rw [observed, hfeed]
  cases readHeaders httpReset block <;> rfl

/-- A response with its headers read is not what no header block comes to. -/
theorem observed_ne {r : Bytes × Bytes} (h : headerBlock [] pieces = some r) :
    observed pieces ≠ .ok (observe (httpReset, [])) := by
  obtain ⟨block, rest⟩ := r
  rw [observed_of_some h]
  cases hread : readHeaders httpReset block with
  | error trap => exact fun heq => by cases heq
  | ok next =>
    have hbody := (readHeaders_inBody next hread).run rest
    intro heq
    exact hbody.state (congrArg Observed.state (Except.ok.inj heq))

/-- A response fed byte by byte never completes its headers. -/
theorem headerBlock_bytewise (stream : Bytes) :
    ∀ header, headerBlock header (stream.map fun b => [b]) = none := by
  induction stream with
  | nil => exact fun _ => rfl
  | cons b stream ih =>
    intro header
    have hend : headerEnd [b] = none := by
      simp [headerEnd, headerTerminator]
    rw [List.map_cons, headerBlock]
    simp only [hend]
    exact ih _

theorem cuts_bytewise (stream : Bytes) : Cuts stream (stream.map fun b => [b]) := by
  constructor
  · induction stream with
    | nil => rfl
    | cons b stream ih => rw [List.map_cons, List.flatten_cons, ih, List.singleton_append]
  · intro data hdata
    obtain ⟨b, -, rfl⟩ := List.mem_map.mp hdata
    simp

theorem cuts_whole (hne : stream ≠ []) : Cuts stream [stream] :=
  ⟨List.append_nil stream, fun _ hdata => List.mem_singleton.mp hdata ▸ hne⟩

theorem at_append_left (front : Bytes) {data : Bytes} {n : ℕ} (h : Piece.At data n headerTerminator) :
    Piece.At (front ++ data) (front.length + n) headerTerminator := by
  rw [Piece.At, List.drop_length_add_append]
  exact h

theorem at_append_right (tail : Bytes) {data : Bytes} {n : ℕ} (h : Piece.At data n headerTerminator) :
    Piece.At (data ++ tail) n headerTerminator := by
  have hle := h.end_le (by decide)
  have hdrop : (data ++ tail).drop n = data.drop n ++ tail := List.drop_append_of_le_length (by omega)
  rw [Piece.At, hdrop]
  exact h.trans (List.prefix_append _ _)

theorem length_keepHeader_le {header data : Bytes} (h : header.length ≤ headerBufLen) :
    (keepHeader header data).length ≤ headerBufLen := by
  unfold keepHeader
  split_ifs with hfits
  · rw [List.length_append]
    exact hfits
  · exact h

/-- What was fed is the header buffer, or more than it can hold. -/
def HeaderKept (seen header : Bytes) : Prop :=
  header.length ≤ headerBufLen ∧ (header = seen ∨ headerBufLen < seen.length)

/-- Without a usable terminator no cut completes the headers. -/
theorem headerBlock_none {header seen : Bytes} (hkept : HeaderKept seen header)
    (hnone : NoUsableTerminator (seen ++ pieces.flatten)) : headerBlock header pieces = none := by
  induction pieces generalizing header seen with
  | nil => rfl
  | cons data pieces ih =>
    obtain ⟨hroom, hseen⟩ := hkept
    rw [List.flatten_cons, ← List.append_assoc] at hnone
    rw [headerBlock]
    cases hend : headerEnd data with
    | none =>
      refine ih ⟨length_keepHeader_le hroom, ?_⟩ hnone
      rw [List.length_append, keepHeader]
      split_ifs with hfits
      · rcases hseen with rfl | hlarge
        · exact Or.inl rfl
        · exact Or.inr (by omega)
      · rcases hseen with rfl | hlarge
        · exact Or.inr (by omega)
        · exact Or.inr (by omega)
    | some e =>
      obtain ⟨hfour, hle, hat, -⟩ := headerEnd_eq_some hend
      have hwhole := hnone (seen.length + (e - 4)) (at_append_right _ (at_append_left _ hat))
      have hterm : headerTerminator.length = 4 := rfl
      have hlarge : ¬ header.length + e ≤ headerBufLen := by
        rcases hseen with rfl | hlarge <;> omega
      simp only [hlarge, if_false]
      refine ih ⟨hroom, Or.inr ?_⟩ hnone
      rw [List.length_append]
      rcases hseen with rfl | hlarge <;> omega

theorem observed_none (hcuts : Cuts stream pieces) (hnone : NoUsableTerminator stream) :
    observed pieces = .ok (observe (httpReset, [])) := by
  have hkept : HeaderKept [] [] := ⟨Nat.zero_le _, Or.inl rfl⟩
  exact observed_of_none (headerBlock_none hkept (hcuts.1 ▸ hnone))

/-- A response whose terminator is usable can be cut so that its headers complete. -/
theorem exists_cut_completes {n : ℕ} (hat : Piece.At stream n headerTerminator)
    (husable : n + 4 ≤ headerBufLen ∨ headerBufLen < n) :
    ∃ pieces, Cuts stream pieces ∧ headerBlock [] pieces ≠ none := by
  have hle : n + 4 ≤ stream.length := hat.end_le (by decide)
  have hne : stream ≠ [] := List.length_pos_iff.mp (by omega)
  by_cases hsmall : ∃ e, headerEnd stream = some e ∧ e ≤ headerBufLen
  · obtain ⟨e, hend, hfits⟩ := hsmall
    refine ⟨[stream], cuts_whole hne, ?_⟩
    rw [headerBlock]
    simp [hend, hfits]
  · have hfirst : ∀ m, Piece.At stream m headerTerminator → headerBufLen < m + 4 := by
      intro m hm
      by_contra hsmall'
      cases hend : headerEnd stream with
      | none => exact headerEnd_eq_none.mp hend m hm
      | some e =>
        obtain ⟨hfour, -, -, hbefore⟩ := headerEnd_eq_some hend
        have hle : e ≤ m + 4 := Nat.not_lt.mp fun hlt => hbefore m hlt hm
        exact hsmall ⟨e, hend, by omega⟩
    have hlarge : headerBufLen < n := by
      rcases husable with hsmall' | hlarge
      · exact absurd (hfirst n hat) (by omega)
      · exact hlarge
    have hlength : (stream.take n).length = n := by
      rw [List.length_take]
      omega
    have hcut : stream.take n ++ stream.drop n = stream := List.take_append_drop n stream
    refine ⟨[stream.take n, stream.drop n], ⟨by simp, ?_⟩, ?_⟩
    · have hfront : stream.take n ≠ [] := List.length_pos_iff.mp (by omega)
      have hback : stream.drop n ≠ [] := by
        apply List.length_pos_iff.mp
        rw [List.length_drop]
        omega
      simp [hfront, hback]
    · have hsecond : headerBlock [] [stream.drop n] ≠ none := by
        rw [headerBlock]
        simp [headerEnd_of_at_zero hat, headerBufLen]
      rw [headerBlock]
      cases hend : headerEnd (stream.take n) with
      | none =>
        have hkeep : keepHeader [] (stream.take n) = [] := by
          rw [keepHeader, if_neg]
          rw [List.length_nil, hlength]
          omega
        simp only [hkeep]
        exact hsecond
      | some e =>
        obtain ⟨hfour, -, hat', -⟩ := headerEnd_eq_some hend
        have hwhole := at_append_right (stream.drop n) hat'
        rw [hcut] at hwhole
        have hbig := hfirst _ hwhole
        have hdrop : ¬ ([] : Bytes).length + e ≤ headerBufLen := by
          rw [List.length_nil]
          omega
        simp only [List.length_nil] at hdrop ⊢
        simp only [hdrop, if_false]
        exact hsecond

/-- A terminator at `n` that lies in `data` behind `front`. -/
theorem at_middle {front data tail : Bytes} {n : ℕ}
    (hat : Piece.At (front ++ data ++ tail) n headerTerminator) (hfront : front.length ≤ n)
    (hfits : n + headerTerminator.length ≤ front.length + data.length) :
    Piece.At data (n - front.length) headerTerminator := by
  obtain ⟨k, rfl⟩ := Nat.exists_eq_add_of_le hfront
  have hdrop : (front ++ data ++ tail).drop (front.length + k) = data.drop k ++ tail := by
    rw [List.append_assoc, List.drop_length_add_append, List.drop_append_of_le_length (by omega)]
  rw [Piece.At, hdrop] at hat
  rw [Nat.add_sub_cancel_left]
  apply List.prefix_of_prefix_length_le hat (List.prefix_append _ _)
  rw [List.length_drop]
  omega

/-- Pieces that make no terminator go into the header buffer while they fit. -/
theorem headerBlock_append {header : Bytes} (before rest : List Bytes)
    (hnone : ∀ m, ¬ Piece.At (header ++ before.flatten) m headerTerminator)
    (hroom : (header ++ before.flatten).length ≤ headerBufLen) :
    headerBlock header (before ++ rest) = headerBlock (header ++ before.flatten) rest := by
  induction before generalizing header with
  | nil => rw [List.flatten_nil, List.append_nil, List.nil_append]
  | cons data before ih =>
    rw [List.flatten_cons, ← List.append_assoc] at hnone hroom ⊢
    have hend : headerEnd data = none :=
      headerEnd_eq_none.mpr fun m hat => hnone _ (at_append_right _ (at_append_left _ hat))
    have hkeep : keepHeader header data = header ++ data := by
      rw [keepHeader, if_pos]
      rw [List.length_append, List.length_append] at hroom
      omega
    rw [List.cons_append, headerBlock]
    simp only [hend, hkeep]
    exact ih hnone hroom

/-- The first terminator of a response lies in a piece as it lies in the response. -/
theorem headerEnd_middle {before after : List Bytes} {data : Bytes} {n : ℕ}
    (hat : Piece.At (before.flatten ++ data ++ after.flatten) n headerTerminator)
    (hfirst : ∀ m, m < n → ¬ Piece.At (before.flatten ++ data ++ after.flatten) m headerTerminator)
    (hbefore : before.flatten.length ≤ n)
    (hdata : n + headerTerminator.length ≤ before.flatten.length + data.length) :
    headerEnd data = some (n + 4 - before.flatten.length) := by
  have hterm : headerTerminator.length = 4 := rfl
  have hhere := at_middle hat hbefore hdata
  cases hend : headerEnd data with
  | none => exact absurd hhere (headerEnd_eq_none.mp hend _)
  | some e =>
    obtain ⟨hfour, -, hat', hleast⟩ := headerEnd_eq_some hend
    have hglobal := at_append_right after.flatten (at_append_left before.flatten hat')
    have hlow : ¬ before.flatten.length + (e - 4) < n := fun hlt => hfirst _ hlt hglobal
    have hhigh : ¬ n - before.flatten.length + 4 < e := fun hlt => hleast _ hlt hhere
    congr 1
    omega

/-- In front of the first terminator there is none. -/
theorem no_terminator_before {before after : List Bytes} {data : Bytes} {n : ℕ}
    (hfirst : ∀ m, m < n → ¬ Piece.At (before.flatten ++ data ++ after.flatten) m headerTerminator)
    (hbefore : before.flatten.length ≤ n) : ∀ m, ¬ Piece.At before.flatten m headerTerminator := by
  intro m hm
  have hend := hm.end_le (by decide)
  have hterm : headerTerminator.length = 4 := rfl
  refine hfirst m (by omega) ?_
  rw [List.append_assoc]
  exact at_append_right _ hm

/-- The header block of a cut that leaves the first terminator whole. -/
theorem headerBlock_whole {n : ℕ} (hcuts : pieces.flatten = stream)
    (hat : Piece.At stream n headerTerminator)
    (hfirst : ∀ m, m < n → ¬ Piece.At stream m headerTerminator)
    (hfits : n + headerTerminator.length ≤ headerBufLen) (hwhole : TerminatorWhole pieces n) :
    headerBlock [] pieces = some (stream.take (n + 4), stream.drop (n + 4)) := by
  obtain ⟨before, data, after, rfl, hbefore, hdata⟩ := hwhole
  have hterm : headerTerminator.length = 4 := rfl
  have hstream : stream = before.flatten ++ data ++ after.flatten := by
    rw [← hcuts]
    simp
  subst hstream
  have hnone : ∀ m, ¬ Piece.At ([] ++ before.flatten) m headerTerminator := by
    rw [List.nil_append]
    exact no_terminator_before hfirst hbefore
  have hroom : ([] ++ before.flatten).length ≤ headerBufLen := by
    rw [List.nil_append]
    omega
  have hend := headerEnd_middle hat hfirst hbefore hdata
  have hblock : ([] ++ before.flatten).length + (n + 4 - before.flatten.length) ≤ headerBufLen := by
    rw [List.nil_append]
    omega
  rw [headerBlock_append before _ hnone hroom, headerBlock]
  simp only [hend, hblock, if_true]
  have hle : n + 4 - before.flatten.length ≤ data.length := by omega
  have hsplit : n + 4 = before.flatten.length + (n + 4 - before.flatten.length) := by omega
  rw [hsplit, Nat.add_sub_cancel_left, List.nil_append, List.append_assoc,
    List.take_length_add_append, List.drop_length_add_append, List.take_append_of_le_length hle,
    List.drop_append_of_le_length hle]

/-- A response comes to the same however it is cut exactly when it has no usable terminator. Where
it has one within the header buffer, the cuts that leave it whole come to the same. -/
theorem cuts_agree (stream : Bytes) :
    (CutsAgree stream ↔ NoUsableTerminator stream) ∧
      ∀ n first second, Piece.At stream n headerTerminator →
        (∀ m, m < n → ¬ Piece.At stream m headerTerminator) →
        n + headerTerminator.length ≤ headerBufLen →
        Cuts stream first → Cuts stream second → TerminatorWhole first n → TerminatorWhole second n →
        observed first = observed second := by
  constructor
  · constructor
    · intro hagree n hat
      by_contra hcond
      have hterm : headerTerminator.length = 4 := rfl
      obtain ⟨pieces, hcuts, hblock⟩ := exists_cut_completes hat (by omega)
      obtain ⟨r, hr⟩ := Option.ne_none_iff_exists'.mp hblock
      have heq := hagree pieces _ hcuts (cuts_bytewise stream)
      rw [observed_of_none (headerBlock_bytewise stream [])] at heq
      exact observed_ne hr heq
    · intro hnone first second hfirst hsecond
      rw [observed_none hfirst hnone, observed_none hsecond hnone]
  · intro n first second hat hbefore hfits hfirst hsecond hwhole hwhole'
    rw [observed_of_some (headerBlock_whole hfirst.1 hat hbefore hfits hwhole),
      observed_of_some (headerBlock_whole hsecond.1 hat hbefore hfits hwhole')]

/-- A short answer without a body, as a server sends it. -/
def emptyAnswer : Bytes := ascii "HTTP/1.1 204 No Content" ++ headerTerminator

theorem bytewise_answer_differs : ¬ ∀ stream, CutsAgree stream := by
  intro hagree
  have heq := hagree emptyAnswer [emptyAnswer] (emptyAnswer.map fun b => [b]) (by decide) (by decide)
  have hne : observed [emptyAnswer] ≠ observed (emptyAnswer.map fun b => [b]) := by decide
  exact hne heq

theorem cuts_agree_empty_answer :
    observed [emptyAnswer] = observed [emptyAnswer.take 10, emptyAnswer.drop 10] :=
  (cuts_agree emptyAnswer).2 23 _ _ (by decide) (by decide) (by decide) (by decide) (by decide)
    ⟨[], emptyAnswer, [], by decide⟩ ⟨[emptyAnswer.take 10], emptyAnswer.drop 10, [], by decide⟩

end MiniAgentOS.Http
