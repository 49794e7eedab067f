import MiniAgentOS.Bridge.Calls

/-! No operation touches a file outside of the workspace root, whatever links stand in the tree: what it
touches is at its resolved path. Only the artifact recorder writes elsewhere. -/
namespace MiniAgentOS.Bridge
open FileTree Raising

section Log

variable {root p q : FilePath} {h h' h'' : Host} {purpose : Purpose} {access : Access}

/-- Every new access for the request is at or below the root. -/
def LogWithin (root : FilePath) (h h' : Host) : Prop :=
  ∃ new, h'.log = h.log ++ new ∧ ∀ touch ∈ new, touch.purpose = .request → root <+: touch.path

theorem LogWithin.refl (h : Host) : LogWithin root h h :=
  ⟨[], (List.append_nil _).symm, fun _ hmem => (List.not_mem_nil hmem).elim⟩

theorem LogWithin.trans (hfirst : LogWithin root h h') (hsecond : LogWithin root h' h'') : LogWithin root h h'' := by
  obtain ⟨new, hnew, hin⟩ := hfirst
  obtain ⟨more, hmore, hin'⟩ := hsecond
  refine ⟨new ++ more, ?_, ?_⟩
  · rw [hmore, hnew, List.append_assoc]
  · exact fun touch htouch => (List.mem_append.mp htouch).elim (hin touch) (hin' touch)

theorem logWithin_touch (hin : purpose = .request → root <+: q) (hlog : h'.log = (h.touch purpose access q).log) :
    LogWithin root h h' := by
  refine ⟨[{ purpose, access, path := q }], hlog, ?_⟩
  intro touch htouch
  rw [List.mem_singleton.mp htouch]
  exact hin

/-- The accesses are within the root, no link is new, and no directory is lost. -/
structure Within (root : FilePath) (h h' : Host) : Prop where
  log : LogWithin root h h'
  links : ∀ q absolute target, h'.tree.node q = some (.link absolute target) →
    h.tree.node q = some (.link absolute target)
  dirs : ∀ q, h.tree.node q = some .dir → h'.tree.node q = some .dir

theorem Within.refl (h : Host) : Within root h h :=
  ⟨LogWithin.refl h, fun _ _ _ hlink => hlink, fun _ hdir => hdir⟩

theorem Within.trans (hfirst : Within root h h') (hsecond : Within root h' h'') : Within root h h'' :=
  ⟨hfirst.log.trans hsecond.log, fun q a target hlink => hfirst.links q a target (hsecond.links q a target hlink),
    fun q hdir => hsecond.dirs q (hfirst.dirs q hdir)⟩

theorem Within.linkFree (hwithin : Within root h h') (hfree : h.tree.LinkFree p) : h'.tree.LinkFree p :=
  fun q hq absolute target hlink => hfree q hq absolute target (hwithin.links q absolute target hlink)

theorem within_touch (hin : purpose = .request → root <+: q) : Within root h (h.touch purpose access q) :=
  ⟨logWithin_touch hin rfl, fun _ _ _ hlink => hlink, fun _ hdir => hdir⟩

theorem within_put {new : Option (Node PyStr Content)} (hnew : ∀ absolute target, new ≠ some (.link absolute target)) :
    Within root h (h.put q new) :=
  ⟨LogWithin.refl h, fun _ _ _ hlink => Tree.set_link hnew hlink, fun _ hdir => Tree.set_dir hdir⟩

theorem within_touch_put {new : Option (Node PyStr Content)} (hin : purpose = .request → root <+: q)
    (hnew : ∀ absolute target, new ≠ some (.link absolute target)) :
    Within root h ((h.touch purpose access q).put q new) :=
  (within_touch hin).trans (within_put hnew)

end Log

section Calls

variable {resolve : Resolve} {root p : FilePath} {h h' : Host} {purpose : Purpose} {raw s : PyStr}

/-- The computation stays within the root. -/
def Stays {α : Type} (root : FilePath) (x : Py α) (h : Host) : Prop :=
  Ends x h (fun _ h' => Within root h h') fun _ h' => Within root h h'

/-- What a path that is let through leads to. -/
theorem resolveIn_inside (hresolve : resolve.Full) (hroot : h.tree.node root = some .dir)
    (hp : resolveIn resolve root h.tree raw = .ok p) : root <+: p ∧ h.tree.LinkFree p := by
  unfold resolveIn at hp
  by_cases hnil : raw = []
  · rw [if_pos hnil] at hp
    cases hp
    refine ⟨List.prefix_refl _, Tree.linkFree_of_node ?_ ?_⟩
    · rw [hroot]
      exact Option.some_ne_none _
    · intro absolute target hlink
      rw [hroot] at hlink
      cases hlink
  · rw [if_neg hnil] at hp
    dsimp only at hp
    split_ifs at hp
    cases hcall : resolve h.tree (root ++ pathParts raw) with
    | error e =>
      rw [hcall] at hp
      cases hp
    | ok resolved =>
      rw [hcall] at hp
      dsimp only at hp
      split_ifs at hp with hin
      cases hp
      exact ⟨(List.mem_inits _ _).mp hin, hresolve _ _ _ hcall⟩

theorem readText_stays (hp : root <+: p) (hfree : h.tree.LinkFree p) : Stays root (readText p) h := by
  apply (readText_ends p h).mono
  · rintro text _ ⟨q, chars, hq, -, -, rfl⟩
    rw [hfree.follow hq]
    exact within_touch fun _ => hp
  · rintro e _ (rfl | ⟨q, hq, rfl⟩)
    · exact Within.refl _
    · rw [hfree.follow hq]
      exact within_touch fun _ => hp

theorem writeText_stays (hp : root <+: p) (hfree : h.tree.LinkFree p) : Stays root (writeText .request p s) h := by
  apply (writeText_ends .request p s h).mono
  · rintro _ _ ⟨q, chars, hq, -, -, rfl⟩
    rw [hfree.follow hq]
    exact within_touch_put (fun _ => hp) fun _ _ hlink => nomatch hlink
  · rintro e _ (rfl | ⟨-, q, hq, -, rfl⟩)
    · exact Within.refl _
    · rw [hfree.follow hq]
      exact within_touch_put (fun _ => hp) fun _ _ hlink => nomatch hlink

theorem unlink_stays (hp : root <+: p) (hfree : h.tree.LinkFree p) : Stays root (unlink p) h := by
  apply (unlink_ends p h).mono
  · rintro _ _ ⟨parent, name, hlast, hparent, -, rfl⟩
    have hsplit : p.dropLast ++ [name] = p := List.dropLast_append_getLast? name hlast
    have hdir : h.tree.LinkFree p.dropLast := fun q hq => hfree q (hq.trans (List.dropLast_prefix p))
    rw [hdir.follow hparent, hsplit]
    exact within_touch_put (fun _ => hp) fun _ _ hlink => nomatch hlink
  · rintro e _ rfl
    exact Within.refl _

/-- The directories that are missing on the way to a place below the root are below the root. -/
theorem ensureDirs_stays {base : FilePath} {names : List PyStr} (hroot : h.tree.node root = some .dir)
    (hfree : h.tree.LinkFree (base ++ names)) (hcomparable : ∀ q, q <+: base ++ names → q <+: root ∨ root <+: q) :
    Stays root (ensureDirs .request base names) h := by
  induction names generalizing base h with
  | nil => exact Ends.pure (Within.refl _)
  | cons name names ih =>
    have hsplit : base ++ name :: names = (base ++ [name]) ++ names := by simp
    have hbase : h.tree.LinkFree base := fun q hq => hfree q (hq.trans (List.prefix_append _ _))
    rw [hsplit] at hfree hcomparable
    have hstep : Stays root (ensureDir .request base name names.isEmpty) h := by
      apply (ensureDir_ends .request base name names.isEmpty h).mono
      · rintro _ _ (rfl | ⟨parent, hparent, hnone, rfl⟩)
        · exact Within.refl _
        · rw [hbase.follow hparent] at hnone ⊢
          have hin : root <+: base ++ [name] := by
            rcases hcomparable (base ++ [name]) (List.prefix_append _ _) with ⟨rest, hrest⟩ | hin
            · by_cases hnil : rest = []
              · rw [hnil, List.append_nil] at hrest
                rw [hrest]
              · have habove : h.tree.node (base ++ [name]) = some .dir := by
                  apply h.tree.node_above _ hnil
                  rw [hrest, hroot]
                  exact Option.some_ne_none _
                rw [hnone] at habove
                cases habove
            · exact hin
          exact within_touch_put (fun _ => hin) fun _ _ hlink => nomatch hlink
      · rintro e _ rfl
        exact Within.refl _
    apply Ends.bind hstep
    intro _ t ht
    apply (ih (ht.dirs root hroot) (ht.linkFree hfree) hcomparable).mono
    · exact fun _ _ hrest => ht.trans hrest
    · exact fun _ _ hrest => ht.trans hrest

theorem mkdirParents_stays (hroot : h.tree.node root = some .dir) (hp : root <+: p) (hfree : h.tree.LinkFree p) :
    Stays root (mkdirParents .request p.dropLast) h := by
  apply ensureDirs_stays hroot
  · exact fun q hq => hfree q (hq.trans (List.dropLast_prefix p))
  · exact fun q hq => List.prefix_or_prefix_of_prefix (hq.trans (List.dropLast_prefix p)) hp

theorem Stays.bind {α β : Type} {x : Py α} {f : α → Py β} (hx : Stays root x h)
    (hf : ∀ a t, Within root h t → Stays root (f a) t) : Stays root (x >>= f) h := by
  apply Ends.bind hx
  intro a t ht
  exact (hf a t ht).mono (fun _ _ hrest => ht.trans hrest) fun _ _ hrest => ht.trans hrest

theorem ofExcept_stays {α : Type} (x : Except PyError α) (h : Host) : Stays root (ofExcept x) h := by
  apply (ofExcept_ends x h).mono
  · rintro _ _ ⟨rfl, -⟩
    exact Within.refl _
  · rintro _ _ ⟨rfl, -⟩
    exact Within.refl _

theorem encodedLength_stays (s : PyStr) (h : Host) : Stays root (encodedLength s) h := by
  unfold encodedLength
  cases encode s with
  | some chars => exact Ends.pure (Within.refl _)
  | none => exact Ends.throw (Within.refl _)

/-- The rule of an operation on a path: it goes on with a path of the root. -/
theorem resolved_stays {α : Type} {f : FilePath → Py α} (hresolve : resolve.Full)
    (hroot : h.tree.node root = some .dir)
    (hf : ∀ p, root <+: p → h.tree.LinkFree p → Stays root (f p) h) :
    Stays root (resolveWorkspacePath resolve root raw >>= f) h := by
  apply Ends.bind ((resolveWorkspacePath_ends resolve root raw h).mono (fun _ _ hpost => hpost) _)
  · rintro p _ ⟨rfl, hp⟩
    obtain ⟨hin, hfree⟩ := resolveIn_inside hresolve hroot hp
    exact hf p hin hfree
  · rintro e _ ⟨rfl, -⟩
    exact Within.refl _

end Calls

section Operations

variable {resolve : Resolve} {root : FilePath} {h : Host}

theorem readFile_stays (hresolve : resolve.Full) (hroot : h.tree.node root = some .dir) (raw : PyStr)
    (offset limit : ℤ) : Stays root (readFile resolve root raw offset limit) h := by
  apply resolved_stays hresolve hroot
  intro p hp hfree
  apply Stays.bind (readText_stays hp hfree)
  intro content t _
  apply Stays.bind (encodedLength_stays _ t)
  exact fun _ _ _ => Ends.pure (Within.refl _)

theorem writeFile_stays (hresolve : resolve.Full) (hroot : h.tree.node root = some .dir) (raw content : PyStr)
    (create overwrite : Bool) : Stays root (writeFile resolve root raw content create overwrite) h := by
  apply resolved_stays hresolve hroot
  intro p hp hfree
  apply Ends.get
  apply Ends.ite
  · exact fun _ => Ends.throw (Within.refl _)
  intro _
  apply Ends.ite
  · exact fun _ => Ends.throw (Within.refl _)
  intro _
  apply Stays.bind (mkdirParents_stays hroot hp hfree)
  intro _ t ht
  apply Stays.bind (writeText_stays hp (ht.linkFree hfree))
  intro _ u _
  apply Stays.bind (encodedLength_stays _ u)
  exact fun _ _ _ => Ends.pure (Within.refl _)

theorem applyOperation_stays (hresolve : resolve.Full) (hroot : h.tree.node root = some .dir) (op : Operation) :
    Stays root (applyOperation resolve root op) h := by
  cases op with
  | update raw body =>
    apply resolved_stays hresolve hroot
    intro p hp hfree
    apply Stays.bind (readText_stays hp hfree)
    intro text t ht
    apply Stays.bind (ofExcept_stays _ t)
    exact fun _ u hu => writeText_stays hp (hu.linkFree (ht.linkFree hfree))
  | add raw body =>
    apply resolved_stays hresolve hroot
    intro p hp hfree
    apply Ends.get
    apply Ends.ite
    · exact fun _ => Ends.throw (Within.refl _)
    intro _
    apply Stays.bind (ofExcept_stays _ h)
    intro added t ht
    apply Stays.bind (mkdirParents_stays (ht.dirs root hroot) hp (ht.linkFree hfree))
    exact fun _ u hu => writeText_stays hp (hu.linkFree (ht.linkFree hfree))
  | delete raw =>
    apply resolved_stays hresolve hroot
    intro p hp hfree
    apply Ends.get
    apply Ends.ite
    · exact fun _ => unlink_stays hp hfree
    · exact fun _ => Ends.throw (Within.refl _)

theorem applyOperations_stays (hresolve : resolve.Full) (hroot : h.tree.node root = some .dir) (r : PatchResult)
    (steps : List (Option Operation)) : Stays root (applyOperations resolve root r steps) h := by
  induction steps generalizing r h with
  | nil => exact Ends.pure (Within.refl _)
  | cons step steps ih =>
    cases step with
    | none => exact Ends.throw (Within.refl _)
    | some op =>
      apply Stays.bind (applyOperation_stays hresolve hroot op)
      exact fun _ t ht => ih (ht.dirs root hroot) (r.add op)

theorem applyPatch_stays (hresolve : resolve.Full) (hroot : h.tree.node root = some .dir) (patch : PyStr) :
    Stays root (applyPatch resolve root patch) h := by
  apply Stays.bind (ofExcept_stays _ h)
  exact fun steps t ht => applyOperations_stays hresolve (ht.dirs root hroot) {} steps

end Operations

section Recorder

variable {root : FilePath} {h : Host}

/-- The computation logs no access for a request outside of the root. -/
abbrev LogsWithin {α : Type} (root : FilePath) (x : Py α) : Prop := Keeps (LogWithin root) x

theorem LogsWithin.bind {α β : Type} {x : Py α} {f : α → Py β} (hx : LogsWithin root x)
    (hf : ∀ a, LogsWithin root (f a)) : LogsWithin root (x >>= f) :=
  Keeps.bind (fun _ _ _ => LogWithin.trans) hx hf

theorem artifact_touch {h' : Host} {access : Access} {q : FilePath}
    (hlog : h'.log = (h.touch .artifact access q).log) : LogWithin root h h' := by
  have hother : Purpose.artifact = .request → root <+: q := fun heq => nomatch heq
  exact logWithin_touch hother hlog

theorem writeText_logs (p : FilePath) (s : PyStr) : LogsWithin root (writeText .artifact p s) := by
  intro h
  apply (writeText_ends .artifact p s h).mono
  · rintro _ _ ⟨q, chars, -, -, -, rfl⟩
    exact artifact_touch rfl
  · rintro e _ (rfl | ⟨-, q, -, -, rfl⟩)
    · exact LogWithin.refl _
    · exact artifact_touch rfl

theorem ensureDir_logs (base : FilePath) (name : PyStr) (last : Bool) :
    LogsWithin root (ensureDir .artifact base name last) := by
  intro h
  apply (ensureDir_ends .artifact base name last h).mono
  · rintro _ _ (rfl | ⟨parent, -, -, rfl⟩)
    · exact LogWithin.refl _
    · exact artifact_touch rfl
  · rintro e _ rfl
    exact LogWithin.refl _

theorem ensureDirs_logs (base : FilePath) (names : List PyStr) : LogsWithin root (ensureDirs .artifact base names) := by
  induction names generalizing base with
  | nil => exact Keeps.pure LogWithin.refl _
  | cons name names ih => exact LogsWithin.bind (ensureDir_logs base name _) fun _ => ih _

theorem writeArtifact_logs (dir : FilePath) (name : PyStr) (value : Json) :
    LogsWithin root (writeArtifact dir name value) := by
  unfold writeArtifact mkdirParents
  apply LogsWithin.bind (ensureDirs_logs [] dir)
  exact fun _ => writeText_logs (dir ++ [name]) _

theorem writeProcessOutput_logs (dir : FilePath) (id stdout stderr : PyStr) :
    LogsWithin root (writeProcessOutput dir id stdout stderr) := by
  unfold writeProcessOutput
  apply LogsWithin.bind (writeText_logs _ stdout)
  exact fun _ => writeText_logs _ stderr

theorem forM_logs {γ : Type} {g : γ → Py PUnit} (hg : ∀ a, LogsWithin root (g a)) (l : List γ) :
    LogsWithin root (l.forM g) :=
  Keeps.forM LogWithin.refl (fun _ _ _ => LogWithin.trans) hg l

theorem flush_logs (r : ArtifactRecorder) : LogsWithin root r.flush := by
  unfold ArtifactRecorder.flush
  cases r.outputDir with
  | none => exact Keeps.pure LogWithin.refl _
  | some dir =>
    have hfile : ∀ file : PyStr × Json, LogsWithin root (writeArtifact dir file.1 file.2) :=
      fun file => writeArtifact_logs dir file.1 file.2
    have houtput : ∀ run : PyStr × PyStr × PyStr,
        LogsWithin root (writeProcessOutput (dir ++ [str "process_output"]) run.1 run.2.1 run.2.2) :=
      fun run => writeProcessOutput_logs _ run.1 run.2.1 run.2.2
    apply LogsWithin.bind (forM_logs hfile r.jsonFiles)
    intro _
    apply LogsWithin.bind (ensureDir_logs dir _ true)
    exact fun _ => forM_logs houtput r.processOutputs

theorem record_logs (add : ArtifactRecorder → ArtifactRecorder) : LogsWithin root (record add) := by
  intro h
  apply Ends.get
  cases h.artifacts with
  | none => exact Ends.pure (LogWithin.refl _)
  | some r =>
    apply Ends.modify
    apply (flush_logs (add r) _).mono
    · exact fun _ _ hlog => hlog
    · exact fun _ _ hlog => hlog

theorem encodedLength_logs (s : PyStr) : LogsWithin root (encodedLength s) :=
  fun h => (encodedLength_stays s h).mono (fun _ _ hwithin => hwithin.log) fun _ _ hwithin => hwithin.log

theorem truncateUtf8_logs (s : PyStr) (limit : ℕ) : LogsWithin root (truncateUtf8 s limit) := by
  unfold truncateUtf8
  cases encode s with
  | some chars => exact Keeps.pure LogWithin.refl _
  | none => exact Keeps.throw LogWithin.refl _

theorem processRun_logs (outcome : DockerOutcome) : LogsWithin root (processRun outcome) := by
  cases outcome with
  | completed exitCode stdout stderr =>
    apply LogsWithin.bind (truncateUtf8_logs _ _)
    exact fun _ => LogsWithin.bind (truncateUtf8_logs _ _) fun _ => Keeps.pure LogWithin.refl _
  | timeoutExpired stdout stderr =>
    apply LogsWithin.bind (truncateUtf8_logs _ _)
    exact fun _ => LogsWithin.bind (truncateUtf8_logs _ _) fun _ => Keeps.pure LogWithin.refl _
  | raised error => exact Keeps.throw LogWithin.refl _

theorem logWithin_of_eq {h' : Host} (hlog : h'.log = h.log) : LogWithin root h h' :=
  ⟨[], hlog.trans (List.append_nil _).symm, fun _ hmem => (List.not_mem_nil hmem).elim⟩

theorem modify_logs {g : Host → Host} (hg : ∀ h, (g h).log = h.log) : LogsWithin root (modify g : Py PUnit) :=
  fun h => logWithin_of_eq (hg h)

theorem saveRun_logs (processId relPath : PyStr) (outcome : DockerOutcome) (durationMs : ℤ) :
    LogsWithin root (saveRun processId relPath outcome durationMs) := by
  apply LogsWithin.bind (processRun_logs outcome)
  intro run
  refine LogsWithin.bind (modify_logs ?_) ?_
  · exact fun _ => rfl
  intro _
  apply LogsWithin.bind (encodedLength_logs run.stdout)
  intro stdoutBytes
  apply LogsWithin.bind (encodedLength_logs run.stderr)
  exact fun stderrBytes => record_logs _

variable {p : FilePath}

theorem runContainer_logs (docker : Docker) (hin : root <+: p) (hfree : h.tree.LinkFree p) (relPath : FilePath)
    (timeoutSec : ℤ) : Ends (runContainer docker p relPath timeoutSec) h (fun _ h' => LogWithin root h h')
      fun _ h' => LogWithin root h h' := by
  apply Ends.get
  apply Ends.modify
  generalize hcounted : ({ h with nextProcessId := h.nextProcessId + 1 } : Host) = counted
  have htree : counted.tree = h.tree := by rw [← hcounted]
  have hlog : counted.log = h.log := by rw [← hcounted]
  apply Ends.bind ((locate_ends p counted).mono (fun _ _ hpost => hpost) _)
  · rintro target _ ⟨rfl, htarget⟩
    rw [htree] at htarget
    rename_i counted
    have htouch : LogWithin root h (counted.touch .request .run p) := by
      obtain ⟨new, hnew, hall⟩ : LogWithin root counted (counted.touch .request .run p) :=
        logWithin_touch (fun _ => hin) rfl
      exact ⟨new, hlog ▸ hnew, hall⟩
    rw [hfree.follow htarget]
    apply Ends.modify
    apply Ends.modify
    apply Ends.bind ((saveRun_logs _ _ _ _ _).mono (fun _ _ hpost => hpost) _)
    · exact fun _ t ht => Ends.pure (htouch.trans ht)
    · exact fun _ t ht => htouch.trans ht
  · rintro e _ rfl
    exact logWithin_of_eq hlog

theorem runPython_logs {resolve : Resolve} (docker : Docker) (hresolve : resolve.Full)
    (hroot : h.tree.node root = some .dir) (raw : PyStr) (timeoutSec : ℤ) :
    Ends (runPython resolve root docker raw timeoutSec) h (fun _ h' => LogWithin root h h')
      fun _ h' => LogWithin root h h' := by
  apply Ends.bind ((resolveWorkspacePath_ends resolve root raw h).mono (fun _ _ hpost => hpost) _)
  · rintro p _ ⟨rfl, hp⟩
    obtain ⟨hin, hfree⟩ := resolveIn_inside hresolve hroot hp
    apply Ends.get
    apply Ends.ite
    · exact fun _ => Ends.throw (LogWithin.refl _)
    intro _
    apply Ends.ite
    · exact fun _ => Ends.throw (LogWithin.refl _)
    intro _
    apply Ends.bind (runContainer_logs docker hin hfree _ timeoutSec)
    exact fun _ _ hlog => Ends.pure hlog
  · rintro e _ ⟨rfl, -⟩
    exact LogWithin.refl _

end Recorder

section Confinement

variable {resolve : Resolve} {root : FilePath} {h : Host}

/-- The operations that the guest can ask for. -/
inductive FileOperation where
  | readFile (raw : PyStr) (offset limit : ℤ)
  | writeFile (raw content : PyStr) (create overwrite : Bool)
  | applyPatch (patch : PyStr)
  | runPython (raw : PyStr) (timeoutSec : ℤ)

def FileOperation.run (resolve : Resolve) (root : FilePath) (docker : Docker) : FileOperation → Py Unit
  | .readFile raw offset limit => do let _ ← Bridge.readFile resolve root raw offset limit
  | .writeFile raw content create overwrite => do let _ ← Bridge.writeFile resolve root raw content create overwrite
  | .applyPatch patch => do let _ ← Bridge.applyPatch resolve root patch
  | .runPython raw timeoutSec => do let _ ← Bridge.runPython resolve root docker raw timeoutSec

/-- The operations on one path. -/
inductive PathOperation where
  | readFile (offset limit : ℤ)
  | writeFile (content : PyStr) (create overwrite : Bool)
  | update (body : List PyStr)
  | add (body : List PyStr)
  | delete
  | runPython (timeoutSec : ℤ)

def PathOperation.run (resolve : Resolve) (root : FilePath) (docker : Docker) (raw : PyStr) : PathOperation → Py Unit
  | .readFile offset limit => do let _ ← Bridge.readFile resolve root raw offset limit
  | .writeFile content create overwrite => do let _ ← Bridge.writeFile resolve root raw content create overwrite
  | .update body => applyOperation resolve root (.update raw body)
  | .add body => applyOperation resolve root (.add raw body)
  | .delete => applyOperation resolve root (.delete raw)
  | .runPython timeoutSec => do let _ ← Bridge.runPython resolve root docker raw timeoutSec

theorem discard_ends {α : Type} {x : Py α} {P : Host → Prop} (hx : Ends x h (fun _ h' => P h') fun _ h' => P h') :
    P (exec (do let _ ← x) h).2 := by
  rcases hexec : exec x h with ⟨result, t⟩
  cases result with
  | ok a =>
    rw [exec_bind_ok hexec]
    exact hx.of_ok hexec
  | error e =>
    rw [exec_bind_error hexec]
    exact hx.of_error hexec

theorem Stays.logs {α : Type} {x : Py α} (hx : Stays root x h) :
    Ends x h (fun _ h' => LogWithin root h h') fun _ h' => LogWithin root h h' :=
  hx.mono (fun _ _ hwithin => hwithin.log) fun _ _ hwithin => hwithin.log

theorem FileOperation.logs (docker : Docker) (hresolve : resolve.Full) (hroot : h.tree.node root = some .dir)
    (op : FileOperation) : LogWithin root h (exec (op.run resolve root docker) h).2 := by
  cases op with
  | readFile raw offset limit => exact discard_ends (readFile_stays hresolve hroot raw offset limit).logs
  | writeFile raw content create overwrite =>
    exact discard_ends (writeFile_stays hresolve hroot raw content create overwrite).logs
  | applyPatch patch => exact discard_ends (applyPatch_stays hresolve hroot patch).logs
  | runPython raw timeoutSec => exact discard_ends (runPython_logs docker hresolve hroot raw timeoutSec)

/-- An operation on a path that is refused raises before all else. -/
theorem PathOperation.refused {docker : Docker} {raw : PyStr} {e : PyError}
    (he : resolveIn resolve root h.tree raw = .error e) (op : PathOperation) :
    exec (op.run resolve root docker raw) h = (.error e, h) := by
  have hresolve : exec (resolveWorkspacePath resolve root raw) h = (.error e, h) := by
    unfold resolveWorkspacePath
    rw [exec_bind_ok (exec_get h), he]
    rfl
  cases op with
  | readFile offset limit => exact exec_bind_error (exec_bind_error hresolve)
  | writeFile content create overwrite => exact exec_bind_error (exec_bind_error hresolve)
  | update body => exact exec_bind_error hresolve
  | add body => exact exec_bind_error hresolve
  | delete => exact exec_bind_error hresolve
  | runPython timeoutSec => exact exec_bind_error (exec_bind_error hresolve)

/-- Every access of an operation, less those of the recorder, is at or below the root behind all links, and an
operation on a path that does not lead there raises and touches nothing. -/
theorem confinement (docker : Docker) (hresolve : resolve.Full) (hroot : h.tree.node root = some .dir) :
    (∀ op : FileOperation, LogWithin root h (exec (op.run resolve root docker) h).2) ∧
      ∀ (op : PathOperation) (raw : PyStr), (¬ ∃ p, resolveIn resolve root h.tree raw = .ok p ∧ root <+: p) →
        ∃ e, exec (op.run resolve root docker raw) h = (.error e, h) := by
  refine ⟨fun op => op.logs docker hresolve hroot, ?_⟩
  intro op raw hout
  cases hp : resolveIn resolve root h.tree raw with
  | ok p => exact absurd ⟨p, hp, (resolveIn_inside hresolve hroot hp).1⟩ hout
  | error e => exact ⟨e, op.refused hp⟩

/-- A container that prints nothing and leaves the files alone. -/
def silentDocker : Docker where
  tree tree _ _ := tree
  outcome _ _ _ := .completed 0 [] []
  durationMs _ _ _ := 0

theorem confinement_bare :
    (∀ op : FileOperation, LogWithin [str "w"] bareHost (exec (op.run resolvePlain [str "w"] silentDocker) bareHost).2) ∧
      ∀ (op : PathOperation) (raw : PyStr),
        (¬ ∃ p, resolveIn resolvePlain [str "w"] bareHost.tree raw = .ok p ∧ [str "w"] <+: p) →
          ∃ e, exec (op.run resolvePlain [str "w"] silentDocker raw) bareHost = (.error e, bareHost) :=
  confinement silentDocker resolvePlain_full (by decide)

/-- A host that keeps artifacts in `/out`. -/
def recordingHost : Host := { fileHost ['x'] with artifacts := some { outputDir := some [str "out"] } }

/-- The recorder of a Python run writes into its own directory. -/
theorem recorder_writes_outside : ¬ ∀ (resolve : Resolve) (root : FilePath) (docker : Docker) (h : Host),
    resolve.Full → h.tree.node root = some .dir → ∀ op : FileOperation, ∃ new,
      (exec (op.run resolve root docker) h).2.log = h.log ++ new ∧ ∀ touch ∈ new, root <+: touch.path := by
  intro hall
  have hroot : recordingHost.tree.node [str "w"] = some .dir := by decide
  obtain ⟨new, hlog, hin⟩ := hall resolvePlain [str "w"] silentDocker recordingHost resolvePlain_full hroot
    (.runPython (str "f") 5)
  have hout : (exec (FileOperation.run resolvePlain [str "w"] silentDocker (.runPython (str "f") 5)) recordingHost).2.log.all
      (fun touch => [str "w"].isPrefixOf touch.path) = false := by decide +kernel
  rw [hlog] at hout
  have hall' : (recordingHost.log ++ new).all (fun touch => [str "w"].isPrefixOf touch.path) = true := by
    apply List.all_eq_true.mpr
    intro touch htouch
    exact List.isPrefixOf_iff_prefix.mpr (hin touch htouch)
  exact Bool.false_ne_true (hout.symm.trans hall')

end Confinement

end MiniAgentOS.Bridge
