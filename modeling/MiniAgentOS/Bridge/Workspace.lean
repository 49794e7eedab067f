import MiniAgentOS.Bridge.Confined
import MiniAgentOS.Bridge.Lossless

/-! The workspace is a store: the text that a file was written with is the text that is read of it, whatever happens to
other files in between. -/
namespace MiniAgentOS.Bridge
open FileTree Raising

section Frame

variable {P P' : FilePath → Prop} {h h' h'' : Host} {p q : FilePath} {purpose : Purpose} {access : Access}

/-- Two trees with the same links. -/
def SameLinks (t t' : Workspace) : Prop :=
  ∀ q absolute target, t'.node q = some (.link absolute target) ↔ t.node q = some (.link absolute target)

/-- No file has changed but those at some paths, the links are the same, and no directory is lost. -/
structure Changes (P : FilePath → Prop) (h h' : Host) : Prop where
  files : ∀ q, ¬ P q → h'.tree.file? q = h.tree.file? q
  links : SameLinks h.tree h'.tree
  dirs : ∀ q, h.tree.node q = some .dir → h'.tree.node q = some .dir
  denied : h'.denied = h.denied

theorem Changes.refl (h : Host) : Changes P h h := ⟨fun _ _ => rfl, fun _ _ _ => Iff.rfl, fun _ => id, rfl⟩

theorem Changes.trans (hfirst : Changes P h h') (hsecond : Changes P h' h'') : Changes P h h'' where
  files q hq := (hsecond.files q hq).trans (hfirst.files q hq)
  links q absolute target := (hsecond.links q absolute target).trans (hfirst.links q absolute target)
  dirs q hq := hsecond.dirs q (hfirst.dirs q hq)
  denied := hsecond.denied.trans hfirst.denied

theorem Changes.mono (h : Changes P h' h'') (hP : ∀ q, P q → P' q) : Changes P' h' h'' :=
  ⟨fun q hq => h.files q fun hp => hq (hP q hp), h.links, h.dirs, h.denied⟩

theorem Changes.linkFree (hchanges : Changes P h h') (hfree : h.tree.LinkFree p) : h'.tree.LinkFree p :=
  fun q hq absolute target hlink => hfree q hq absolute target ((hchanges.links q absolute target).mp hlink)

theorem changes_touch : Changes P h (h.touch purpose access q) :=
  ⟨fun _ _ => rfl, fun _ _ _ => Iff.rfl, fun _ => id, rfl⟩

theorem put_links {new : Option (Node PyStr Content)} (hold : ∀ absolute target, h.tree.node q ≠ some (.link absolute target))
    (hnew : ∀ absolute target, new ≠ some (.link absolute target)) : SameLinks h.tree (h.put q new).tree := by
  intro other absolute target
  constructor
  · exact Tree.set_link hnew
  · intro hlink
    have hne : other ≠ q := by
      rintro rfl
      exact hold absolute target hlink
    change (h.tree.set q new).node other = _
    rwa [Tree.set_node_of_ne hne]

theorem changes_put {new : Option (Node PyStr Content)} (hq : P q) (hfree : h.tree.LinkFree q)
    (hnew : ∀ absolute target, new ≠ some (.link absolute target)) :
    Changes P h ((h.touch purpose access q).put q new) where
  files other hother := by
    apply Tree.file?_set_of_ne
    rintro rfl
    exact hother hq
  links := put_links (h := h) (hfree q (List.prefix_refl q)) hnew
  dirs other hdir := Tree.set_dir hdir
  denied := rfl

theorem changes_mkdir (hnone : h.tree.node q = none) : Changes P h ((h.touch purpose access q).put q (some .dir)) where
  files other _ := Tree.file?_set_dir hnone other
  links := by
    have hold : ∀ absolute target, h.tree.node q ≠ some (.link absolute target) := by
      intro absolute target hlink
      cases hnone.symm.trans hlink
    exact put_links (h := h) hold fun _ _ hlink => nomatch hlink
  dirs other hdir := Tree.set_dir hdir
  denied := rfl

end Frame

section Calls

variable {α β : Type} {P P' : FilePath → Prop} {h : Host} {p : FilePath} {s : PyStr} {resolve : Resolve} {root : FilePath}

/-- The computation changes no file but those at some paths. -/
def Confines (P : FilePath → Prop) (x : Py α) (h : Host) : Prop :=
  Ends x h (fun _ h' => Changes P h h') fun _ h' => Changes P h h'

theorem Confines.bind {x : Py α} {f : α → Py β} (hx : Confines P x h)
    (hf : ∀ a t, Changes P h t → Confines P (f a) t) : Confines P (x >>= f) h := by
  apply Ends.bind hx
  intro a t ht
  exact (hf a t ht).mono (fun _ _ hrest => ht.trans hrest) fun _ _ hrest => ht.trans hrest

theorem ofExcept_confines (x : Except PyError α) : Confines P (ofExcept x) h := by
  apply (ofExcept_ends x h).mono
  · rintro _ _ ⟨rfl, -⟩
    exact Changes.refl _
  · rintro _ _ ⟨rfl, -⟩
    exact Changes.refl _

theorem encodedLength_confines : Confines P (encodedLength s) h := by
  unfold encodedLength
  cases encode s with
  | some chars => exact Ends.pure (Changes.refl _)
  | none => exact Ends.throw (Changes.refl _)

theorem readText_confines : Confines P (readText p) h := by
  apply (readText_ends p h).mono
  · rintro text _ ⟨q, chars, -, -, -, rfl⟩
    exact changes_touch
  · rintro e _ (rfl | ⟨q, -, rfl⟩)
    · exact Changes.refl _
    · exact changes_touch

theorem writeText_confines (hp : P p) (hfree : h.tree.LinkFree p) : Confines P (writeText .request p s) h := by
  apply (writeText_ends .request p s h).mono
  · rintro _ _ ⟨q, chars, hq, -, -, rfl⟩
    rw [hfree.follow hq]
    exact changes_put hp hfree fun _ _ hlink => nomatch hlink
  · rintro e _ (rfl | ⟨-, q, hq, -, rfl⟩)
    · exact Changes.refl _
    · rw [hfree.follow hq]
      exact changes_put hp hfree fun _ _ hlink => nomatch hlink

theorem unlink_confines (hp : P p) (hfree : h.tree.LinkFree p) : Confines P (unlink p) h := by
  apply (unlink_ends p h).mono
  · rintro _ _ ⟨parent, name, hlast, hparent, -, rfl⟩
    have hsplit : p.dropLast ++ [name] = p := List.dropLast_append_getLast? name hlast
    have hdir : h.tree.LinkFree p.dropLast := fun q hq => hfree q (hq.trans (List.dropLast_prefix p))
    rw [hdir.follow hparent, hsplit]
    exact changes_put hp hfree fun _ _ hlink => nomatch hlink
  · rintro e _ rfl
    exact Changes.refl _

theorem mkdirParents_confines : Confines P (mkdirParents .request p) h := by
  have hkeeps : ∀ base names, Keeps (Changes P) (ensureDirs .request base names) := by
    intro base names
    induction names generalizing base with
    | nil => exact Keeps.pure Changes.refl _
    | cons name names ih =>
      have htrans : ∀ r s t, Changes P r s → Changes P s t → Changes P r t := fun _ _ _ => Changes.trans
      apply Keeps.bind htrans _ fun _ => ih _
      intro h
      apply (ensureDir_ends .request base name names.isEmpty h).mono
      · rintro _ _ (rfl | ⟨parent, -, hnone, rfl⟩)
        · exact Changes.refl _
        · exact changes_mkdir hnone
      · rintro _ _ rfl
        exact Changes.refl _
  exact hkeeps [] p h

/-- The rule of an operation on a path. -/
theorem resolved_confines {raw : PyStr} {f : FilePath → Py α} (hresolve : resolve.Full)
    (hroot : h.tree.node root = some .dir) (hP : ∀ p, resolveIn resolve root h.tree raw = .ok p → P p)
    (hf : ∀ p, P p → h.tree.LinkFree p → Confines P (f p) h) :
    Confines P (resolveWorkspacePath resolve root raw >>= f) h := by
  apply Ends.bind ((resolveWorkspacePath_ends resolve root raw h).mono (fun _ _ hpost => hpost) _)
  · rintro p _ ⟨rfl, hp⟩
    exact hf p (hP p hp) (resolveIn_inside hresolve hroot hp).2
  · rintro e _ ⟨rfl, -⟩
    exact Changes.refl _

end Calls

section Operations

variable {resolve : Resolve} {root p : FilePath} {h h' : Host} {P : FilePath → Prop} {t t' : Workspace}

/-- What `Path.resolve` returns depends on the links in the tree. -/
def Resolve.LinksOnly (resolve : Resolve) : Prop := ∀ t t', SameLinks t t' → resolve t' = resolve t

theorem resolveIn_same (hlinks : resolve.LinksOnly) (hsame : SameLinks t t') (raw : PyStr) :
    resolveIn resolve root t' raw = resolveIn resolve root t raw := by
  rw [resolveIn, resolveIn, hlinks t t' hsame]

/-- The places that some paths lead to. -/
def Named (resolve : Resolve) (root : FilePath) (t : Workspace) (raws : List PyStr) (p : FilePath) : Prop :=
  ∃ raw ∈ raws, resolveIn resolve root t raw = .ok p

theorem named_same (hlinks : resolve.LinksOnly) (hsame : SameLinks t t') (raws : List PyStr) :
    Named resolve root t' raws = Named resolve root t raws := by
  funext p
  unfold Named
  simp only [resolveIn_same hlinks hsame]

def Operation.path : Operation → PyStr
  | .update path _ | .add path _ | .delete path => path

/-- The files that a patch names. -/
def patchFiles (patch : PyStr) : List PyStr :=
  match patchOperations patch with
  | .ok steps => (steps.filterMap id).map Operation.path
  | .error _ => []

theorem readFile_confines (raw : PyStr) (offset limit : ℤ) : Confines P (readFile resolve root raw offset limit) h := by
  apply Ends.bind ((resolveWorkspacePath_ends resolve root raw h).mono (fun _ _ hpost => hpost) _)
  · rintro p _ ⟨rfl, -⟩
    apply Confines.bind readText_confines
    intro content t _
    apply Confines.bind encodedLength_confines
    exact fun _ _ _ => Ends.pure (Changes.refl _)
  · rintro e _ ⟨rfl, -⟩
    exact Changes.refl _

theorem writeFile_confines (hresolve : resolve.Full) (hroot : h.tree.node root = some .dir) (raw content : PyStr)
    (create overwrite : Bool) :
    Confines (Named resolve root h.tree [raw]) (writeFile resolve root raw content create overwrite) h := by
  apply resolved_confines hresolve hroot fun p hp => ⟨raw, List.mem_singleton_self raw, hp⟩
  intro p hp hfree
  apply Ends.get
  apply Ends.ite
  · exact fun _ => Ends.throw (Changes.refl _)
  intro _
  apply Ends.ite
  · exact fun _ => Ends.throw (Changes.refl _)
  intro _
  apply Confines.bind mkdirParents_confines
  intro _ t ht
  apply Confines.bind (writeText_confines hp (ht.linkFree hfree))
  intro _ u _
  apply Confines.bind encodedLength_confines
  exact fun _ _ _ => Ends.pure (Changes.refl _)

theorem applyOperation_confines (hresolve : resolve.Full) (hroot : h.tree.node root = some .dir) (op : Operation) :
    Confines (Named resolve root h.tree [op.path]) (applyOperation resolve root op) h := by
  have hnamed : ∀ p, resolveIn resolve root h.tree op.path = .ok p → Named resolve root h.tree [op.path] p :=
    fun p hp => ⟨op.path, List.mem_singleton_self _, hp⟩
  cases op with
  | update raw body =>
    apply resolved_confines hresolve hroot hnamed
    intro p hp hfree
    apply Confines.bind readText_confines
    intro text t ht
    apply Confines.bind (ofExcept_confines _)
    exact fun _ u hu => writeText_confines hp (hu.linkFree (ht.linkFree hfree))
  | add raw body =>
    apply resolved_confines hresolve hroot hnamed
    intro p hp hfree
    apply Ends.get
    apply Ends.ite
    · exact fun _ => Ends.throw (Changes.refl _)
    intro _
    apply Confines.bind (ofExcept_confines _)
    intro added t ht
    apply Confines.bind mkdirParents_confines
    exact fun _ u hu => writeText_confines hp (hu.linkFree (ht.linkFree hfree))
  | delete raw =>
    apply resolved_confines hresolve hroot hnamed
    intro p hp hfree
    apply Ends.get
    apply Ends.ite
    · exact fun _ => unlink_confines hp hfree
    · exact fun _ => Ends.throw (Changes.refl _)

/-- A patch changes no file that it does not name, whether or not it is applied to its end. -/
theorem applyOperations_confines (hresolve : resolve.Full) (hlinks : resolve.LinksOnly)
    (hroot : h.tree.node root = some .dir) (r : PatchResult) (steps : List (Option Operation)) :
    Confines (Named resolve root h.tree ((steps.filterMap id).map Operation.path)) (applyOperations resolve root r steps)
      h := by
  induction steps generalizing r h with
  | nil => exact Ends.pure (Changes.refl _)
  | cons step steps ih =>
    cases step with
    | none => exact Ends.throw (Changes.refl _)
    | some op =>
      have hfirst : ∀ q, Named resolve root h.tree [op.path] q →
          Named resolve root h.tree (((some op :: steps).filterMap id).map Operation.path) q := by
        rintro q ⟨raw, hraw, hq⟩
        exact ⟨raw, by simp [List.mem_singleton.mp hraw], hq⟩
      have hrest : ∀ q, Named resolve root h.tree ((steps.filterMap id).map Operation.path) q →
          Named resolve root h.tree (((some op :: steps).filterMap id).map Operation.path) q := by
        rintro q ⟨raw, hraw, hq⟩
        exact ⟨raw, List.mem_cons_of_mem op.path hraw, hq⟩
      apply Confines.bind ((applyOperation_confines hresolve hroot op).mono (fun _ _ h => h.mono hfirst)
        fun _ _ h => h.mono hfirst)
      intro _ t ht
      have hnext := ih (ht.dirs root hroot) (r.add op)
      rw [named_same hlinks ht.links] at hnext
      exact hnext.mono (fun _ _ h => h.mono hrest) fun _ _ h => h.mono hrest

theorem applyPatch_confines (hresolve : resolve.Full) (hlinks : resolve.LinksOnly)
    (hroot : h.tree.node root = some .dir) (patch : PyStr) :
    Confines (Named resolve root h.tree (patchFiles patch)) (applyPatch resolve root patch) h := by
  unfold applyPatch patchFiles
  cases hsteps : patchOperations patch with
  | error e => exact Changes.refl h
  | ok steps => exact applyOperations_confines hresolve hlinks hroot {} steps

end Operations

section Runs

variable {resolve : Resolve} {root p : FilePath} {docker : Docker} {h h' : Host} {op : FileOperation}
  {ops : List FileOperation}

/-- The files that an operation names, if it does not run a program. -/
def FileOperation.files : FileOperation → Option (List PyStr)
  | .readFile _ _ _ => some []
  | .writeFile raw _ _ _ => some [raw]
  | .applyPatch patch => some (patchFiles patch)
  | .runPython _ _ => none

/-- The operation is on other files. -/
def FileOperation.Spares (resolve : Resolve) (root : FilePath) (t : Workspace) (p : FilePath) (op : FileOperation) : Prop :=
  ∃ raws, op.files = some raws ∧ ¬ Named resolve root t raws p

/-- The host after some operations, each of which may have raised. -/
def afterAll (resolve : Resolve) (root : FilePath) (docker : Docker) (ops : List FileOperation) (h : Host) : Host :=
  ops.foldl (fun h op => (exec (op.run resolve root docker) h).2) h

theorem FileOperation.Spares.changes (hspares : op.Spares resolve root h.tree p) (hresolve : resolve.Full)
    (hlinks : resolve.LinksOnly) (hroot : h.tree.node root = some .dir) :
    Changes (· ≠ p) h (exec (op.run resolve root docker) h).2 := by
  obtain ⟨raws, hfiles, hnot⟩ := hspares
  have hother : ∀ q, Named resolve root h.tree raws q → q ≠ p := by
    rintro q hq rfl
    exact hnot hq
  cases op with
  | readFile raw offset limit => exact discard_ends (readFile_confines raw offset limit)
  | writeFile raw content create overwrite =>
    obtain rfl := Option.some.inj hfiles
    exact (discard_ends (writeFile_confines hresolve hroot raw content create overwrite)).mono hother
  | applyPatch patch =>
    obtain rfl := Option.some.inj hfiles
    exact (discard_ends (applyPatch_confines hresolve hlinks hroot patch)).mono hother
  | runPython raw timeoutSec => cases hfiles

/-- Operations on other files leave a file as it was. -/
theorem afterAll_changes (hresolve : resolve.Full) (hlinks : resolve.LinksOnly) (hroot : h.tree.node root = some .dir)
    (hops : ∀ op ∈ ops, op.Spares resolve root h.tree p) : Changes (· ≠ p) h (afterAll resolve root docker ops h) := by
  induction ops generalizing h with
  | nil => exact Changes.refl h
  | cons op ops ih =>
    have hstep : Changes (· ≠ p) h (exec (op.run resolve root docker) h).2 :=
      (hops op List.mem_cons_self).changes hresolve hlinks hroot
    apply hstep.trans
    apply ih (hstep.dirs root hroot)
    intro other hother
    obtain ⟨raws, hfiles, hnot⟩ := hops other (List.mem_cons_of_mem op hother)
    exact ⟨raws, hfiles, by rwa [named_same hlinks hstep.links]⟩

end Runs

section ReadBack

variable {resolve : Resolve} {root p : FilePath} {docker : Docker} {h h' : Host} {raw content : PyStr} {chars : List Char}
  {ops : List FileOperation}

/-- A text that was written stands in its file. -/
theorem writeText_stands (hfree : h.tree.LinkFree p) :
    Ends (writeText .request p content) h
      (fun _ h' => ∃ chars, encode content = some chars ∧ h'.tree.file? p = some (.text chars)) fun _ _ => True := by
  apply (writeText_ends .request p content h).mono _ fun _ _ _ => trivial
  rintro _ _ ⟨q, chars, hq, hleaf, hencode, rfl⟩
  obtain rfl := hfree.follow hq
  have hne : q ≠ [] := by
    rintro rfl
    exact hleaf h.tree.root
  exact ⟨chars, hencode, Tree.file?_set hne (hfree.parent hne hq) hleaf⟩

theorem writeFile_stands {create overwrite : Bool} (hresolve : resolve.Full) (hroot : h.tree.node root = some .dir)
    (hpath : resolveIn resolve root h.tree raw = .ok p) :
    Ends (writeFile resolve root raw content create overwrite) h
      (fun _ h' => ∃ chars, encode content = some chars ∧ h'.tree.file? p = some (.text chars)) fun _ _ => True := by
  have hfree := (resolveIn_inside hresolve hroot hpath).2
  apply Ends.bind ((resolveWorkspacePath_ends resolve root raw h).mono (fun _ _ hpost => hpost) fun _ _ _ => trivial)
  rintro q t ⟨rfl, hq⟩
  obtain rfl := Except.ok.inj (hpath.symm.trans hq)
  apply Ends.get
  apply Ends.ite fun _ => Ends.throw trivial
  intro _
  apply Ends.ite fun _ => Ends.throw trivial
  intro _
  have hmkdir : Confines (fun _ => False) (mkdirParents .request p.dropLast) t := mkdirParents_confines
  apply Ends.bind (hmkdir.mono (fun _ _ hpost => hpost) fun _ _ _ => trivial)
  intro _ u hu
  apply Ends.bind (writeText_stands (hu.linkFree hfree))
  rintro _ v ⟨chars, hencode, hstands⟩
  rw [encodedLength, hencode]
  exact Ends.pure ⟨chars, rfl, hstands⟩

/-- The reply to a read of a text. -/
def fileReply (raw text : PyStr) (offset limit : ℤ) (bytesRead : ℕ) : Json :=
  let segment := pySlice text offset (offset + limit)
  .dict [
    (str "ok", .bool true),
    (str "path", .str raw),
    (str "content", .str segment),
    (str "offset", .int offset),
    (str "bytes_read", .int bytesRead),
    (str "eof", .bool (offset + segment.length ≥ text.length)),
    (str "truncated", .bool (offset + segment.length < text.length))]

theorem readFile_reply (hpath : resolveIn resolve root h.tree raw = .ok p)
    (hfile : h.tree.file? p = some (.text chars)) (hread : h.denied .read p = false) (offset limit : ℤ) :
    ∃ bytesRead h', exec (readFile resolve root raw offset limit) h =
      (.ok (fileReply raw (universalNewlines (decode chars)) offset limit bytesRead), h') := by
  have hresolve : exec (resolveWorkspacePath resolve root raw) h = (.ok p, h) := by
    unfold resolveWorkspacePath
    rw [exec_bind_ok (exec_get h), hpath]
    rfl
  have htext := encodable_universalNewlines (encodable_decode chars)
  have hsegment : Encodable (pySlice (universalNewlines (decode chars)) offset (offset + limit)) :=
    htext.of_subset fun _ hc => List.mem_of_mem_take (List.mem_of_mem_drop hc)
  obtain ⟨out, hout, -⟩ := encode_eq_some hsegment
  have hlength : exec (encodedLength (pySlice (universalNewlines (decode chars)) offset (offset + limit)))
      (h.touch .request .read p) = (.ok (utf8Length out), h.touch .request .read p) := by
    rw [encodedLength, hout]
    rfl
  refine ⟨utf8Length out, h.touch .request .read p, ?_⟩
  unfold readFile
  rw [exec_bind_ok hresolve, exec_bind_ok (readText_exec hfile hread), exec_bind_ok hlength]
  rfl

/-- A text that was written is what every read of its file gets, in pages of any size, whatever other files are read,
written or patched in between, with or without success. -/
theorem written_text_read (docker : Docker) (hresolve : resolve.Full) (hlinks : resolve.LinksOnly)
    (hroot : h.tree.node root = some .dir) (hpath : resolveIn resolve root h.tree raw = .ok p)
    (hread : h.denied .read p = false) {create overwrite : Bool} {reply : Json}
    (hwrite : exec (writeFile resolve root raw content create overwrite) h = (.ok reply, h'))
    (hops : ∀ op ∈ ops, op.Spares resolve root h.tree p) (offset limit : ℤ) :
    ∃ bytesRead after, exec (readFile resolve root raw offset limit) (afterAll resolve root docker ops h') =
      (.ok (fileReply raw (universalNewlines content) offset limit bytesRead), after) := by
  obtain ⟨chars, hencode, hfile⟩ := (writeFile_stands hresolve hroot hpath).of_ok hwrite
  have hchanges := (writeFile_confines hresolve hroot raw content create overwrite).of_ok hwrite
  have hspares : ∀ op ∈ ops, op.Spares resolve root h'.tree p := by
    intro op hop
    obtain ⟨raws, hfiles, hnot⟩ := hops op hop
    exact ⟨raws, hfiles, by rwa [named_same hlinks hchanges.links]⟩
  have hafter : Changes (· ≠ p) h' (afterAll resolve root docker ops h') :=
    afterAll_changes hresolve hlinks (hchanges.dirs root hroot) hspares
  have hsame : resolveIn resolve root (afterAll resolve root docker ops h').tree raw = .ok p := by
    rw [resolveIn_same hlinks hafter.links, resolveIn_same hlinks hchanges.links, hpath]
  have hstands : (afterAll resolve root docker ops h').tree.file? p = some (.text chars) := by
    rw [hafter.files p (not_not.mpr rfl), hfile]
  have hreadable : (afterAll resolve root docker ops h').denied .read p = false := by
    rw [hafter.denied, hchanges.denied, hread]
  rw [← decode_of_encode hencode]
  exact readFile_reply hsame hstands hreadable offset limit

theorem resolvePlain_linksOnly : resolvePlain.LinksOnly := by
  intro t t' hsame
  funext p
  have hlink : ∀ q, (t'.node q).any Node.isLink = (t.node q).any Node.isLink := by
    intro q
    rw [Bool.eq_iff_iff, Option.any_eq_true, Option.any_eq_true]
    constructor
    · rintro ⟨node, hnode, hlink⟩
      cases node with
      | link absolute target => exact ⟨_, (hsame q absolute target).mp hnode, rfl⟩
      | _ => cases hlink
    · rintro ⟨node, hnode, hlink⟩
      cases node with
      | link absolute target => exact ⟨_, (hsame q absolute target).mpr hnode, rfl⟩
      | _ => cases hlink
  simp only [resolvePlain, hlink]

/-- The host after a note of two lines was written. -/
def noteHost : Host :=
  (exec (writeFile resolvePlain [str "w"] (str "note") (str "a\r\nb") true true) bareHost).2

def noteReply : Json :=
  .dict [(str "ok", .bool true), (str "path", .str (str "note")), (str "bytes_written", .int 4), (str "created", .bool true)]

theorem noteHost_written :
    exec (writeFile resolvePlain [str "w"] (str "note") (str "a\r\nb") true true) bareHost = (.ok noteReply, noteHost) := rfl

theorem other_spares : ∀ op ∈ [FileOperation.writeFile (str "other") (str "x") true true, .readFile (str "note") 0 1],
    op.Spares resolvePlain [str "w"] bareHost.tree [str "w", str "note"] := by
  intro op hop
  rcases List.mem_pair.mp hop with rfl | rfl
  · refine ⟨[str "other"], rfl, ?_⟩
    rintro ⟨raw, hraw, hpath⟩
    obtain rfl := List.mem_singleton.mp hraw
    exact absurd hpath (by decide)
  · exact ⟨[], rfl, fun ⟨_, hraw, _⟩ => List.not_mem_nil hraw⟩

theorem written_text_read_note :
    ∃ bytesRead after, exec (readFile resolvePlain [str "w"] (str "note") 1 5) (afterAll resolvePlain [str "w"] silentDocker
        [.writeFile (str "other") (str "x") true true, .readFile (str "note") 0 1] noteHost) =
      (.ok (fileReply (str "note") (universalNewlines (str "a\r\nb")) 1 5 bytesRead), after) :=
  written_text_read silentDocker resolvePlain_full resolvePlain_linksOnly (by decide) rfl rfl noteHost_written other_spares
    1 5

end ReadBack

end MiniAgentOS.Bridge
