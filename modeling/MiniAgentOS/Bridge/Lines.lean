import MiniAgentOS.Bridge.Patch

/-! The lines of a text: they make up the text, and a patch makes its text from theirs. -/
namespace MiniAgentOS.Bridge

theorem except_bind_ok {α β ε : Type} {x : Except ε α} {f : α → Except ε β} {b : β} :
    (x >>= f) = .ok b ↔ ∃ a, x = .ok a ∧ f a = .ok b := by
  cases x with
  | error e => exact ⟨fun h => (nomatch h), fun ⟨_, h, _⟩ => (nomatch h)⟩
  | ok a =>
    constructor
    · exact fun h => ⟨a, rfl, h⟩
    · rintro ⟨_, ⟨⟩, h⟩
      exact h

section Lines

variable {s t : PyStr} {c : ℕ}

/-- The line with its end. -/
def Line.full (line : Line) : PyStr := line.text ++ line.ending

theorem endedLines_flat (s : PyStr) : (endedLines s).flatMap Line.full = s := by
  fun_induction endedLines s with
  | case1 => rfl
  | case2 rest ih => rw [List.flatMap_cons, ih]; rfl
  | case3 c rest _ hbreak ih => rw [List.flatMap_cons, ih]; rfl
  | case4 c rest _ hbreak hnil ih =>
    rw [hnil] at ih
    rw [← ih]
    rfl
  | case5 c rest _ hbreak line lines hlines ih =>
    rw [hlines, List.flatMap_cons] at ih
    rw [List.flatMap_cons, ← ih]
    rfl

theorem splitlines_mem {line : PyStr} (h : line ∈ splitlines s) : line ⊆ s := by
  obtain ⟨ended, hended, rfl⟩ := List.mem_map.mp h
  intro c hc
  rw [← endedLines_flat s]
  exact List.mem_flatMap.mpr ⟨ended, hended, List.mem_append_left _ hc⟩

@[simp] theorem joinLines_nil (trailing : Bool) : joinLines [] trailing = [] := rfl

theorem joinLines_singleton (line : PyStr) (trailing : Bool) :
    joinLines [line] trailing = line ++ if trailing then str "\n" else [] := by
  unfold joinLines
  rw [if_neg (List.cons_ne_nil _ _), List.intercalate_singleton]

theorem joinLines_cons_cons (line next : PyStr) (lines : List PyStr) (trailing : Bool) :
    joinLines (line :: next :: lines) trailing = line ++ str "\n" ++ joinLines (next :: lines) trailing := by
  unfold joinLines
  rw [if_neg (List.cons_ne_nil _ _), if_neg (List.cons_ne_nil _ _), List.intercalate_cons_cons]
  simp only [List.append_assoc]

end Lines

section Encoding

variable {s t : PyStr} {lines : List PyStr}

def AllEncodable (lines : List PyStr) : Prop := ∀ line ∈ lines, Encodable line

instance (lines : List PyStr) : Decidable (AllEncodable lines) :=
  inferInstanceAs (Decidable (∀ line ∈ lines, Encodable line))

theorem Encodable.of_subset (h : Encodable s) (hsub : t ⊆ s) : Encodable t := fun c hc => h c (hsub hc)

theorem encodable_append : Encodable (s ++ t) ↔ Encodable s ∧ Encodable t := List.forall_mem_append

theorem encodable_newline : Encodable (str "\n") := by decide

theorem encodable_splitlines (h : Encodable s) : AllEncodable (splitlines s) :=
  fun _ hline => h.of_subset (splitlines_mem hline)

theorem encodable_universalNewlines (h : Encodable s) : Encodable (universalNewlines s) := by
  fun_induction universalNewlines s with
  | case1 => exact h
  | case2 rest ih =>
    have hrest : Encodable rest := h.of_subset fun c hc => List.mem_cons_of_mem _ (List.mem_cons_of_mem _ hc)
    exact List.forall_mem_cons.mpr ⟨.inl (by decide), ih hrest⟩
  | case3 c rest _ ih =>
    obtain ⟨hc, hrest⟩ := List.forall_mem_cons.mp h
    refine List.forall_mem_cons.mpr ⟨?_, ih hrest⟩
    by_cases hcr : c = 13
    · rw [if_pos hcr]
      exact .inl (by decide)
    · rwa [if_neg hcr]

theorem encodable_joinLines (h : AllEncodable lines) (trailing : Bool) : Encodable (joinLines lines trailing) := by
  have hend : Encodable (if trailing then str "\n" else []) := by
    cases trailing with
    | false => exact fun c hc => (List.not_mem_nil hc).elim
    | true => exact encodable_newline
  induction lines with
  | nil => exact fun c hc => (List.not_mem_nil hc).elim
  | cons line lines ih =>
    obtain ⟨hline, hlines⟩ := List.forall_mem_cons.mp h
    cases lines with
    | nil =>
      rw [joinLines_singleton]
      exact encodable_append.mpr ⟨hline, hend⟩
    | cons next lines =>
      rw [joinLines_cons_cons]
      exact encodable_append.mpr ⟨encodable_append.mpr ⟨hline, encodable_newline⟩, ih hlines⟩

theorem encodable_newChunk {hunk : List PyStr} (h : AllEncodable hunk) : AllEncodable (newChunk hunk) := by
  intro line hline
  obtain ⟨marked, hmarked, rfl⟩ := List.mem_map.mp hline
  exact (h marked (List.mem_filter.mp hmarked).1).of_subset (List.drop_subset 1 marked)

/-- What a splice holds comes from the text and from the patch. -/
structure Splice.Encodable (s : Splice) : Prop where
  newLines : AllEncodable s.newLines
  hunkLines : AllEncodable s.hunkLines

variable {original body : List PyStr} {splice next : Splice}

theorem flushHunk_encodable (horiginal : AllEncodable original) (hs : splice.Encodable)
    (h : flushHunk original splice = .ok next) : next.Encodable := by
  unfold flushHunk at h
  split_ifs at h with hnil
  · exact Except.ok.inj h ▸ hs
  · obtain ⟨matchIndex, -, h⟩ := except_bind_ok.mp h
    cases Except.ok.inj h
    refine ⟨?_, hs.hunkLines⟩
    intro line hline
    rw [List.mem_append, List.mem_append] at hline
    rcases hline with (hline | hline) | hline
    · exact hs.newLines line hline
    · exact horiginal line (List.mem_of_mem_take (List.mem_of_mem_drop hline))
    · exact encodable_newChunk hs.hunkLines line hline

theorem updateLine_encodable {line : PyStr} (horiginal : AllEncodable original) (hline : Encodable line)
    (hs : splice.Encodable) (h : updateLine original splice line = .ok next) : next.Encodable := by
  unfold updateLine at h
  split_ifs at h with hmark hkind
  · obtain ⟨flushed, hflush, h⟩ := except_bind_ok.mp h
    cases Except.ok.inj h
    exact ⟨(flushHunk_encodable horiginal hs hflush).newLines, fun _ hmem => (List.not_mem_nil hmem).elim⟩
  · cases Except.ok.inj h
    refine ⟨hs.newLines, ?_⟩
    intro other hother
    rcases List.mem_append.mp hother with hother | hother
    · exact hs.hunkLines other hother
    · rwa [List.mem_singleton.mp hother]

theorem foldlM_updateLine_encodable (horiginal : AllEncodable original) (hbody : AllEncodable body)
    (hs : splice.Encodable) (h : body.foldlM (updateLine original) splice = .ok next) : next.Encodable := by
  induction body generalizing splice with
  | nil => exact Except.ok.inj h ▸ hs
  | cons line body ih =>
    obtain ⟨hline, hbody⟩ := List.forall_mem_cons.mp hbody
    rw [List.foldlM_cons] at h
    obtain ⟨after, hstep, h⟩ := except_bind_ok.mp h
    exact ih hbody (updateLine_encodable horiginal hline hs hstep) h

theorem updateText_encodable {text out : PyStr} (htext : Encodable text) (hbody : AllEncodable body)
    (h : updateText text body = .ok out) : Encodable out := by
  have hlines := encodable_splitlines htext
  obtain ⟨lines, hupdate, hout⟩ := except_bind_ok.mp h
  obtain ⟨splice, hfold, hupdate⟩ := except_bind_ok.mp hupdate
  obtain ⟨flushed, hflush, hupdate⟩ := except_bind_ok.mp hupdate
  have hnone : Splice.Encodable {} :=
    ⟨fun _ hmem => (List.not_mem_nil hmem).elim, fun _ hmem => (List.not_mem_nil hmem).elim⟩
  have hsplice := foldlM_updateLine_encodable hlines hbody hnone hfold
  have hflushed := flushHunk_encodable hlines hsplice hflush
  split_ifs at hupdate
  cases Except.ok.inj hupdate
  cases Except.ok.inj hout
  apply encodable_joinLines
  intro line hline
  rcases List.mem_append.mp hline with hline | hline
  · exact hflushed.newLines line hline
  · exact hlines line (List.mem_of_mem_drop hline)

end Encoding

end MiniAgentOS.Bridge
