import MiniAgentOS.Bridge.Process

/-! The output of a process, page by page: two streams of their own lengths are read with one offset. -/
namespace MiniAgentOS.Bridge
open Raising

section Pages

variable {α : Type} {s t : List α} {offset limit next : ℕ}

/-- A page is all that a stream has up to any later offset that is no less than the end of the page. -/
theorem drop_eq_page (s : List α) (hlow : offset + ((s.drop offset).take limit).length ≤ next)
    (hhigh : next ≤ offset + limit) : s.drop offset = (s.drop offset).take limit ++ s.drop next := by
  rw [List.length_take, List.length_drop] at hlow
  by_cases hfull : s.length ≤ next
  · rw [List.drop_of_length_le hfull, List.append_nil, List.take_of_length_le]
    rw [List.length_drop]
    omega
  · have hnext : next = offset + limit := by omega
    rw [hnext, ← List.drop_drop, List.take_append_drop]

/-- The page that `s[offset : offset + limit]` is. -/
theorem pySlice_page (s : PyStr) (offset limit : ℕ) : pySlice s offset (offset + limit) = (s.drop offset).take limit := by
  have hstart : sliceIndex s.length offset = min offset s.length := if_neg (by omega)
  have hstop : sliceIndex s.length (offset + limit) = min (offset + limit) s.length := if_neg (by omega)
  have hcut : s.drop (min offset s.length) = s.drop offset := by
    by_cases hle : offset ≤ s.length
    · rw [Nat.min_eq_left hle]
    · rw [Nat.min_eq_right (by omega), List.drop_length, List.drop_of_length_le (by omega)]
  unfold pySlice
  rw [hstart, hstop, List.drop_take, hcut, List.take_eq_take_iff, List.length_drop]
  omega

end Pages

section Client

variable {h : Host} {processId : PyStr} {run : ProcessRun} {offset limit fuel : ℕ}

/-- What the reader of an output takes from a reply. -/
structure Page where
  stdout : PyStr
  stderr : PyStr
  nextOffset : ℤ
  truncated : Bool

def readPage : Json → Option Page
  | .dict entries =>
    match entries.lookup (str "stdout"), entries.lookup (str "stderr"), entries.lookup (str "next_offset"),
      entries.lookup (str "truncated") with
    | some (.str stdout), some (.str stderr), some (.int nextOffset), some (.bool truncated) =>
      some ⟨stdout, stderr, nextOffset, truncated⟩
    | _, _, _, _ => none
  | _ => none

/-- Reads from an offset on until a reply is not truncated. -/
def collectOutput (processId : PyStr) (limit : ℤ) : ℕ → ℤ → Py (Option (PyStr × PyStr))
  | 0, _ => pure none
  | fuel + 1, offset => do
    let payload ← getOutput processId offset limit
    match readPage payload with
    | none => pure none
    | some page =>
      if page.truncated then
        let rest ← collectOutput processId limit fuel page.nextOffset
        pure (rest.map fun rest => (page.stdout ++ rest.1, page.stderr ++ rest.2))
      else pure (some (page.stdout, page.stderr))

/-- The offset of the page behind the longer one of both pages. -/
def ProcessRun.nextOffset (run : ProcessRun) (limit offset : ℕ) : ℕ :=
  offset + max ((run.stdout.drop offset).take limit).length ((run.stderr.drop offset).take limit).length

/-- The page of a run behind an offset. -/
def ProcessRun.page (run : ProcessRun) (limit offset : ℕ) : Page where
  stdout := (run.stdout.drop offset).take limit
  stderr := (run.stderr.drop offset).take limit
  nextOffset := run.nextOffset limit offset
  truncated := run.nextOffset limit offset < max run.stdout.length run.stderr.length

theorem ProcessRun.stdout_le (run : ProcessRun) (limit offset : ℕ) :
    offset + ((run.stdout.drop offset).take limit).length ≤ run.nextOffset limit offset :=
  Nat.add_le_add_left (le_max_left _ _) offset

theorem ProcessRun.stderr_le (run : ProcessRun) (limit offset : ℕ) :
    offset + ((run.stderr.drop offset).take limit).length ≤ run.nextOffset limit offset :=
  Nat.add_le_add_left (le_max_right _ _) offset

theorem ProcessRun.nextOffset_le (run : ProcessRun) (limit offset : ℕ) :
    run.nextOffset limit offset ≤ offset + limit :=
  Nat.add_le_add_left (max_le (List.length_take_le _ _) (List.length_take_le _ _)) offset

/-- A page that is not the last one has an output. -/
theorem ProcessRun.lt_nextOffset (run : ProcessRun) (hlimit : 1 ≤ limit)
    (hmore : run.nextOffset limit offset < max run.stdout.length run.stderr.length) :
    offset < run.nextOffset limit offset := by
  unfold ProcessRun.nextOffset at hmore ⊢
  rw [List.length_take, List.length_take, List.length_drop, List.length_drop] at hmore ⊢
  omega

theorem getOutput_page (hrun : h.runs.lookup processId = some run) (limit offset : ℕ) :
    ∃ payload, exec (getOutput processId offset limit) h = (.ok payload, h) ∧
      readPage payload = some (run.page limit offset) := by
  unfold getOutput
  rw [exec_bind_ok (exec_get h), hrun]
  dsimp only
  rw [exec_pure, pySlice_page, pySlice_page]
  refine ⟨_, rfl, ?_⟩
  simp only [← Nat.cast_add, Nat.cast_lt]
  rfl

/-- What is left of both streams behind an offset is collected. -/
theorem collectOutput_from (offset : ℕ) (hrun : h.runs.lookup processId = some run) (hlimit : 1 ≤ limit)
    (hfuel : max run.stdout.length run.stderr.length - offset < fuel) :
    exec (collectOutput processId limit fuel offset) h =
      (.ok (some (run.stdout.drop offset, run.stderr.drop offset)), h) := by
  induction fuel generalizing offset with
  | zero => cases hfuel
  | succ fuel ih =>
    obtain ⟨payload, hpayload, hpage⟩ := getOutput_page hrun limit offset
    rw [collectOutput, exec_bind_ok hpayload, hpage]
    dsimp only
    have hnext : (run.page limit offset).nextOffset = (run.nextOffset limit offset : ℕ) := rfl
    have hmark : (run.page limit offset).truncated =
        decide (run.nextOffset limit offset < max run.stdout.length run.stderr.length) := rfl
    have hstdout := drop_eq_page run.stdout (run.stdout_le limit offset) (run.nextOffset_le limit offset)
    have hstderr := drop_eq_page run.stderr (run.stderr_le limit offset) (run.nextOffset_le limit offset)
    by_cases hmore : run.nextOffset limit offset < max run.stdout.length run.stderr.length
    · have hgrows := run.lt_nextOffset hlimit hmore
      have hrest := ih (run.nextOffset limit offset) (by omega)
      rw [hmark, if_pos (decide_eq_true hmore), hnext, exec_bind_ok hrest, exec_pure, hstdout, hstderr]
      rfl
    · have hend : ∀ s : PyStr, s.length ≤ max run.stdout.length run.stderr.length →
          s.drop (run.nextOffset limit offset) = [] := by
        intro s hs
        exact List.drop_of_length_le (by omega)
      rw [hend _ (le_max_left _ _), List.append_nil] at hstdout
      rw [hend _ (le_max_right _ _), List.append_nil] at hstderr
      rw [hmark, if_neg (by simpa using hmore), exec_pure, hstdout, hstderr]
      rfl

/-- The reads end, and what they bring is what is stored. -/
theorem collectOutput_exact {limit : ℤ} (hrun : h.runs.lookup processId = some run) (hlimit : 1 ≤ limit) :
    ∃ rounds, ∀ fuel ≥ rounds, exec (collectOutput processId limit fuel 0) h =
      (.ok (some (run.stdout, run.stderr)), h) := by
  obtain ⟨n, rfl⟩ := Int.eq_ofNat_of_zero_le (by omega : 0 ≤ limit)
  refine ⟨max run.stdout.length run.stderr.length + 1, fun fuel hfuel => ?_⟩
  exact collectOutput_from 0 hrun (by omega) (by omega)

/-- A host that keeps one run. -/
def runHost : Host := { bareHost with runs := [(str "1", ⟨str "exited", 0, str "hello", str "no"⟩)] }

theorem collectOutput_exact_hello : ∃ rounds, ∀ fuel ≥ rounds,
    exec (collectOutput (str "1") 2 fuel 0) runHost = (.ok (some (str "hello", str "no")), runHost) := by
  have hrun : runHost.runs.lookup (str "1") = some ⟨str "exited", 0, str "hello", str "no"⟩ := by
    decide
  have hlimit : (1 : ℤ) ≤ 2 := by decide
  exact collectOutput_exact hrun hlimit

end Client

end MiniAgentOS.Bridge
