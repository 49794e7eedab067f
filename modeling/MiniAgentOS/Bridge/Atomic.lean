import MiniAgentOS.Bridge.Calls
import MiniAgentOS.Bridge.Lines

/-! When a patch that fails leaves the workspace as it was: an operation that raises changes no file, but those
in front of it stay done. -/
namespace MiniAgentOS.Bridge
open FileTree Raising

section Files

variable {h h' : Host} {p q : FilePath} {purpose : Purpose} {access : Access}

/-- Every file has the content that it had. -/
def SameFiles (h h' : Host) : Prop := ∀ p, h'.tree.file? p = h.tree.file? p

theorem SameFiles.refl (h : Host) : SameFiles h h := fun _ => rfl

theorem SameFiles.symm (hsame : SameFiles h h') : SameFiles h' h := fun p => (hsame p).symm

theorem SameFiles.trans {h'' : Host} (hfirst : SameFiles h h') (hsecond : SameFiles h' h'') : SameFiles h h'' :=
  fun p => (hsecond p).trans (hfirst p)

theorem sameFiles_touch (h : Host) (purpose : Purpose) (access : Access) (q : FilePath) :
    SameFiles h (h.touch purpose access q) := fun _ => rfl

theorem ensureDirs_sameFiles (purpose : Purpose) (base : FilePath) (names : List PyStr) :
    Keeps SameFiles (ensureDirs purpose base names) := by
  induction names generalizing base with
  | nil => exact Keeps.pure SameFiles.refl _
  | cons name names ih =>
    have htrans : ∀ r s t, SameFiles r s → SameFiles s t → SameFiles r t := fun _ _ _ => SameFiles.trans
    apply Keeps.bind htrans _ fun _ => ih _
    intro h
    apply (ensureDir_ends purpose base name names.isEmpty h).mono
    · rintro _ t (rfl | ⟨parent, -, hnone, rfl⟩)
      · exact SameFiles.refl _
      · exact fun p => Tree.file?_set_dir hnone p
    · rintro _ t rfl
      exact SameFiles.refl _

/-- A text that can be encoded is written or changes nothing. -/
theorem writeText_sameFiles {s : PyStr} (hs : Encodable s) (purpose : Purpose) (p : FilePath) (h : Host) :
    Ends (writeText purpose p s) h (fun _ _ => True) fun _ h' => SameFiles h h' := by
  apply (writeText_ends purpose p s h).mono fun _ _ _ => trivial
  rintro _ t (rfl | ⟨hnone, -⟩)
  · exact SameFiles.refl _
  · obtain ⟨chars, hchars, -⟩ := encode_eq_some hs
    rw [hchars] at hnone
    cases hnone

end Files

section Operations

variable {resolve : Resolve} {root : FilePath} {h h' : Host}

def Operation.body : Operation → List PyStr
  | .update _ body | .add _ body => body
  | .delete _ => []

theorem applyUpdatePatch_error {body : List PyStr} (hbody : AllEncodable body) (raw : PyStr) (h : Host) :
    Ends (applyUpdatePatch resolve root raw body) h (fun _ _ => True) fun _ h' => SameFiles h h' := by
  apply Ends.bind ((resolveWorkspacePath_ends resolve root raw h).mono (fun _ _ hpost => hpost) _)
  · rintro p _ ⟨rfl, -⟩
    rename_i t
    apply Ends.bind ((readText_ends p t).mono (fun _ _ hpost => hpost) _)
    · rintro text _ ⟨q, chars, -, -, rfl, rfl⟩
      apply Ends.bind ((ofExcept_ends _ _).mono (fun _ _ hpost => hpost) _)
      · rintro updated _ ⟨rfl, hupdated⟩
        have hchars := encodable_universalNewlines (encodable_decode chars)
        have hencodable := updateText_encodable hchars hbody hupdated
        apply (writeText_sameFiles hencodable .request p _).mono fun _ _ _ => trivial
        exact fun _ _ hsame => (sameFiles_touch t .request .read q).trans hsame
      · rintro _ _ ⟨rfl, -⟩
        exact sameFiles_touch t .request .read q
    · rintro _ _ (rfl | ⟨q, -, rfl⟩)
      · exact SameFiles.refl _
      · exact sameFiles_touch t .request .read q
  · rintro _ _ ⟨rfl, -⟩
    exact SameFiles.refl _

theorem addedLines_encodable {body added : List PyStr} (hbody : AllEncodable body)
    (h : addedLines body = .ok added) : AllEncodable added := by
  induction body generalizing added with
  | nil =>
    cases Except.ok.inj h
    exact fun _ hmem => (List.not_mem_nil hmem).elim
  | cons line body ih =>
    obtain ⟨hline, hbody⟩ := List.forall_mem_cons.mp hbody
    unfold addedLines at h
    split_ifs at h with hmark hplus
    · exact ih hbody h
    · obtain ⟨rest, hrest, h⟩ := except_bind_ok.mp h
      cases Except.ok.inj h
      exact List.forall_mem_cons.mpr ⟨hline.of_subset (List.drop_subset 1 line), ih hbody hrest⟩

theorem applyAddPatch_error {body : List PyStr} (hbody : AllEncodable body) (raw : PyStr) (h : Host) :
    Ends (applyAddPatch resolve root raw body) h (fun _ _ => True) fun _ h' => SameFiles h h' := by
  apply Ends.bind ((resolveWorkspacePath_ends resolve root raw h).mono (fun _ _ hpost => hpost) _)
  · rintro p t ⟨rfl, -⟩
    apply Ends.get
    apply Ends.ite
    · exact fun _ => Ends.throw (SameFiles.refl _)
    intro _
    apply Ends.bind ((ofExcept_ends _ t).mono (fun _ _ hpost => hpost) _)
    · rintro added u ⟨hu, hadded⟩
      rw [hu]
      have hencodable := encodable_joinLines (addedLines_encodable hbody hadded) (added ≠ [])
      apply Ends.bind (ensureDirs_sameFiles .request [] p.dropLast t)
      intro _ u hsame
      apply (writeText_sameFiles hencodable .request p u).mono fun _ _ _ => trivial
      exact fun _ _ hlast => hsame.trans hlast
    · rintro _ _ ⟨rfl, -⟩
      exact SameFiles.refl _
  · rintro _ _ ⟨rfl, -⟩
    exact SameFiles.refl _

theorem applyDeletePatch_error (raw : PyStr) (h : Host) :
    Ends (applyDeletePatch resolve root raw) h (fun _ _ => True) fun _ h' => SameFiles h h' := by
  apply Ends.bind ((resolveWorkspacePath_ends resolve root raw h).mono (fun _ _ hpost => hpost) _)
  · rintro p t ⟨rfl, -⟩
    apply Ends.get
    apply Ends.ite
    · intro _
      apply (unlink_ends p t).mono fun _ _ _ => trivial
      rintro _ _ rfl
      exact SameFiles.refl _
    · exact fun _ => Ends.throw (SameFiles.refl _)
  · rintro _ _ ⟨rfl, -⟩
    exact SameFiles.refl _

/-- An operation that raises has changed no file. -/
theorem applyOperation_error {op : Operation} (hbody : AllEncodable op.body) (h : Host) :
    Ends (applyOperation resolve root op) h (fun _ _ => True) fun _ h' => SameFiles h h' := by
  cases op with
  | update path body => exact applyUpdatePatch_error hbody path h
  | add path body => exact applyAddPatch_error hbody path h
  | delete path => exact applyDeletePatch_error path h

end Operations

section Patches

variable {resolve : Resolve} {root : FilePath} {h h' : Host} {steps before after : List (Option Operation)}
  {step : Option Operation} {r r' : PatchResult}

/-- The step raises: its operation does, or its line begins none. -/
def Fails (resolve : Resolve) (root : FilePath) (h : Host) : Option Operation → Prop
  | none => True
  | some op => ∃ e h', exec (applyOperation resolve root op) h = (.error e, h')

def StepsEncodable (steps : List (Option Operation)) : Prop := ∀ op, some op ∈ steps → AllEncodable op.body

theorem applyOperations_append (hbefore : exec (applyOperations resolve root r before) h = (.ok r', h'))
    (steps : List (Option Operation)) :
    exec (applyOperations resolve root r (before ++ steps)) h = exec (applyOperations resolve root r' steps) h' := by
  induction before generalizing r h with
  | nil =>
    cases hbefore
    rfl
  | cons first before ih =>
    cases first with
    | none => cases hbefore
    | some op =>
      rw [applyOperations] at hbefore
      rw [List.cons_append, applyOperations]
      rcases hop : exec (applyOperation resolve root op) h with ⟨result, t⟩
      cases result with
      | error e =>
        rw [exec_bind_error hop] at hbefore
        cases hbefore
      | ok _ =>
        rw [exec_bind_ok hop] at hbefore ⊢
        exact ih hbefore

/-- A step that fails ends the patch, and changes no file. -/
theorem applyOperations_fails (hstep : ∀ op, step = some op → AllEncodable op.body)
    (h : Fails resolve root h' step) (r : PatchResult) (after : List (Option Operation)) :
    ∃ e t, exec (applyOperations resolve root r (step :: after)) h' = (.error e, t) ∧ SameFiles h' t := by
  cases step with
  | none => exact ⟨_, h', rfl, SameFiles.refl _⟩
  | some op =>
    obtain ⟨e, t, hexec⟩ := h
    have hsame := (applyOperation_error (hstep op rfl) h').of_error hexec
    exact ⟨e, t, exec_bind_error hexec, hsame⟩

/-- A patch that raises does so at a step of which those in front return. -/
theorem applyOperations_error {e : PyError} (herror : exec (applyOperations resolve root r steps) h = (.error e, h')) :
    ∃ before step after t r', steps = before ++ step :: after ∧
      exec (applyOperations resolve root r before) h = (.ok r', t) ∧ Fails resolve root t step := by
  induction steps generalizing r h with
  | nil => cases herror
  | cons step steps ih =>
    cases step with
    | none => exact ⟨[], none, steps, h, r, rfl, rfl, trivial⟩
    | some op =>
      rw [applyOperations] at herror
      rcases hop : exec (applyOperation resolve root op) h with ⟨result, t⟩
      cases result with
      | error e => exact ⟨[], some op, steps, h, r, rfl, rfl, e, t, hop⟩
      | ok _ =>
        rw [exec_bind_ok hop] at herror
        obtain ⟨before, step, after, u, r', rfl, hbefore, hfails⟩ := ih herror
        refine ⟨some op :: before, step, after, u, r', rfl, ?_, hfails⟩
        rw [applyOperations, exec_bind_ok hop]
        exact hbefore

theorem operationsFrom_encodable {lines : List PyStr} (h : AllEncodable lines) (skip : ℕ) :
    StepsEncodable (operationsFrom skip lines) := by
  induction lines generalizing skip with
  | nil => exact fun op hop => by cases skip <;> cases hop
  | cons line lines ih =>
    have hlines := (List.forall_mem_cons.mp h).2
    cases skip with
    | succ skip => exact ih hlines skip
    | zero =>
      rw [operationsFrom]
      cases hat : operationAt line lines with
      | none =>
        intro op hop
        cases List.mem_singleton.mp hop
      | some first =>
        intro op hop
        rcases List.mem_cons.mp hop with heq | hop
        · cases heq
          unfold operationAt at hat
          dsimp only at hat
          split_ifs at hat
          · cases hat
            exact fun other hother => hlines other ((List.takeWhile_sublist _).subset hother)
          · cases hat
            exact fun other hother => hlines other ((List.takeWhile_sublist _).subset hother)
          · cases hat
            exact fun other hother => (List.not_mem_nil hother).elim
        · exact ih hlines first.bodyLength op hop

theorem patchOperations_encodable {patch : PyStr} (h : patchOperations patch = .ok steps) : StepsEncodable steps := by
  unfold patchOperations at h
  cases hencode : encode patch with
  | none =>
    rw [hencode] at h
    cases h
  | some chars =>
    rw [hencode] at h
    dsimp only at h
    have hpatch : Encodable patch := decode_of_encode hencode ▸ encodable_decode chars
    split_ifs at h
    cases Except.ok.inj h
    apply operationsFrom_encodable
    intro line hline
    exact encodable_splitlines hpatch line (List.mem_of_mem_tail (List.mem_of_mem_dropLast hline))

/-- A patch that raises leaves every file as it was. -/
def Atomic (resolve : Resolve) (root : FilePath) (h : Host) (patch : PyStr) : Prop :=
  ∀ e h', exec (applyPatch resolve root patch) h = (.error e, h') → SameFiles h h'

/-- The operations in front of one that fails leave every file as it was. -/
def FailsClean (resolve : Resolve) (root : FilePath) (h : Host) (patch : PyStr) : Prop :=
  ∀ before step after, patchOperations patch = .ok (before ++ step :: after) →
    ∀ r t, exec (applyOperations resolve root {} before) h = (.ok r, t) → Fails resolve root t step → SameFiles h t

/-- A patch that adds the same file twice. -/
def twoAdds : PyStr := str "*** Begin Patch\n*** Add File: a\n+x\n*** Add File: a\n+x\n*** End Patch"

end Patches

end MiniAgentOS.Bridge
