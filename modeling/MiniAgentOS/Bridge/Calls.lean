import MiniAgentOS.Bridge.Patch
import MiniAgentOS.Bridge.Process

/-! What each call does to the host, when it returns and when it raises. -/
namespace MiniAgentOS.Bridge
open FileTree Raising

variable {h h' : Host} {p q : FilePath} {purpose : Purpose} {s : PyStr} {resolve : Resolve} {root : FilePath}

theorem ofExcept_ends {α : Type} (x : Except PyError α) (h : Host) :
    Ends (ofExcept x) h (fun a h' => h' = h ∧ x = .ok a) fun e h' => h' = h ∧ x = .error e := by
  cases x with
  | error e => exact ⟨rfl, rfl⟩
  | ok a => exact ⟨rfl, rfl⟩

theorem locate_of_follow (hq : h.tree.follow maxSymlinks p = .ok q) : exec (locate p) h = (.ok q, h) := by
  unfold locate
  rw [exec_bind_ok (exec_get h), hq]
  rfl

theorem locate_ends (p : FilePath) (h : Host) :
    Ends (locate p) h (fun q h' => h' = h ∧ h.tree.follow maxSymlinks p = .ok q) fun _ h' => h' = h := by
  apply Ends.get
  cases h.tree.follow maxSymlinks p with
  | error e => exact Ends.throw rfl
  | ok q => exact Ends.pure ⟨rfl, rfl⟩

/-- A reader finds a text behind all links, or reads nothing of use. -/
theorem readText_ends (p : FilePath) (h : Host) : Ends (readText p) h
    (fun text h' => ∃ q chars, h.tree.follow maxSymlinks p = .ok q ∧ h.tree.file? q = some (.text chars) ∧
      text = universalNewlines (decode chars) ∧ h' = h.touch .request .read q)
    fun _ h' => h' = h ∨ ∃ q, h.tree.follow maxSymlinks p = .ok q ∧ h' = h.touch .request .read q := by
  apply Ends.bind ((locate_ends p h).mono (fun _ _ hpost => hpost) fun _ _ hsame => .inl hsame)
  rintro q t ⟨rfl, hq⟩
  apply Ends.get
  cases hnode : t.tree.node q with
  | none => exact Ends.throw (.inl rfl)
  | some node =>
    cases node with
    | dir => exact Ends.throw (.inl rfl)
    | link absolute target => exact Ends.throw (.inl rfl)
    | file content =>
      apply Ends.ite
      · exact fun _ => Ends.throw (.inl rfl)
      · intro _
        apply Ends.modify
        cases content with
        | text chars => exact Ends.pure ⟨q, chars, hq, Tree.file?_eq_some.mpr hnode, rfl, rfl⟩
        | binary bytes => exact Ends.throw (.inr ⟨q, hq, rfl⟩)

/-- A writer puts the text into the file behind all links; a text without encoding leaves the file empty. -/
theorem writeText_ends (purpose : Purpose) (p : FilePath) (s : PyStr) (h : Host) : Ends (writeText purpose p s) h
    (fun _ h' => ∃ q chars, h.tree.follow maxSymlinks p = .ok q ∧ h.tree.node q ≠ some .dir ∧
      encode s = some chars ∧ h' = (h.touch purpose .write q).put q (some (.file (.text chars))))
    fun _ h' => h' = h ∨ encode s = none ∧ ∃ q, h.tree.follow maxSymlinks p = .ok q ∧
      h.tree.node q ≠ some .dir ∧ h' = (h.touch purpose .write q).put q (some (.file (.text []))) := by
  apply Ends.bind ((locate_ends p h).mono (fun _ _ hpost => hpost) fun _ _ hsame => .inl hsame)
  rintro q t ⟨rfl, hq⟩
  apply Ends.get
  apply Ends.ite
  · exact fun _ => Ends.throw (.inl rfl)
  intro hdir
  apply Ends.ite
  · exact fun _ => Ends.throw (.inl rfl)
  intro _
  apply Ends.modify
  cases hencode : encode s with
  | some chars => exact ⟨q, chars, hq, hdir, rfl, rfl⟩
  | none => exact .inr ⟨rfl, q, hq, hdir, rfl⟩

/-- A directory is made where nothing stands. -/
theorem ensureDir_ends (purpose : Purpose) (base : FilePath) (name : PyStr) (last : Bool) (h : Host) :
    Ends (ensureDir purpose base name last) h
      (fun _ h' => h' = h ∨ ∃ parent, h.tree.follow maxSymlinks base = .ok parent ∧
        h.tree.node (parent ++ [name]) = none ∧
        h' = (h.touch purpose .mkdir (parent ++ [name])).put (parent ++ [name]) (some .dir))
      fun _ h' => h' = h := by
  apply Ends.bind (locate_ends base h)
  rintro parent t ⟨rfl, hparent⟩
  apply Ends.get
  apply Ends.ite
  · intro hnone
    apply Ends.ite
    · exact fun _ => Ends.throw rfl
    · exact fun _ => .inr ⟨parent, hparent, hnone, rfl⟩
  · intro _
    apply Ends.ite
    · exact fun _ => Ends.pure (.inl rfl)
    · exact fun _ => Ends.throw rfl

theorem unlink_ends (p : FilePath) (h : Host) : Ends (unlink p) h
    (fun _ h' => ∃ parent name, p.getLast? = some name ∧ h.tree.follow maxSymlinks p.dropLast = .ok parent ∧
      h.tree.node (parent ++ [name]) ≠ some .dir ∧
      h' = (h.touch .request .unlink (parent ++ [name])).put (parent ++ [name]) none)
    fun _ h' => h' = h := by
  unfold unlink
  cases hlast : p.getLast? with
  | none => exact Ends.throw rfl
  | some name =>
    apply Ends.bind (locate_ends p.dropLast h)
    rintro parent t ⟨rfl, hparent⟩
    apply Ends.get
    apply Ends.ite
    · exact fun _ => Ends.throw rfl
    intro _
    apply Ends.ite
    · exact fun _ => Ends.throw rfl
    intro hdir
    apply Ends.ite
    · exact fun _ => Ends.throw rfl
    · exact fun _ => ⟨parent, name, rfl, hparent, hdir, rfl⟩

theorem resolveWorkspacePath_ends (resolve : Resolve) (root : FilePath) (raw : PyStr) (h : Host) :
    Ends (resolveWorkspacePath resolve root raw) h
      (fun p h' => h' = h ∧ resolveIn resolve root h.tree raw = .ok p)
      fun e h' => h' = h ∧ resolveIn resolve root h.tree raw = .error e := by
  apply Ends.get
  exact ofExcept_ends _ h

end MiniAgentOS.Bridge
