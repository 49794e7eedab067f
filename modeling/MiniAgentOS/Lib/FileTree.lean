import Mathlib

/-! Directory trees with symbolic links, and the walk of a path through them. -/
namespace FileTree

/-- A component of a path that is walked. -/
inductive Part (Name : Type) where
  | up
  | down (name : Name)
  deriving DecidableEq, Repr

inductive Node (Name Content : Type) where
  | file (content : Content)
  | dir
  | link (absolute : Bool) (target : List (Part Name))
  deriving DecidableEq, Repr

def Node.isLink {Name Content : Type} : Node Name Content → Bool
  | .link _ _ => true
  | _ => false

/-- The names on the way from the root. -/
abbrev Path (Name : Type) := List Name

/-- A tree: what stands at each path, with a directory above everything. -/
structure Tree (Name Content : Type) where
  node : Path Name → Option (Node Name Content)
  root : node [] = some .dir
  parent : ∀ dir name, node (dir ++ [name]) ≠ none → node dir = some .dir

/-- Why a walk fails. -/
inductive WalkError where
  | noEntry
  | notDir
  | loop
  deriving DecidableEq, Repr

variable {Name Content : Type} {t : Tree Name Content} {p q dir : Path Name} {name : Name}

namespace Tree

def file? (t : Tree Name Content) (p : Path Name) : Option Content :=
  match t.node p with
  | some (.file content) => some content
  | _ => none

/-- No link stands on the way to `p`, nor at `p`. -/
def LinkFree (t : Tree Name Content) (p : Path Name) : Prop :=
  ∀ q, q <+: p → ∀ absolute target, t.node q ≠ some (.link absolute target)

theorem file?_eq_some {content : Content} : t.file? p = some content ↔ t.node p = some (.file content) := by
  unfold file?
  split
  · rename_i other h
    rw [h, Option.some.injEq, Option.some.injEq, Node.file.injEq]
  · rename_i h
    constructor
    · exact fun hnone => nomatch hnone
    · exact fun hfile => absurd hfile (h content)

/-- Above anything in the tree there are directories. -/
theorem node_above {rest : Path Name} (h : t.node (p ++ rest) ≠ none) (hne : rest ≠ []) :
    t.node p = some .dir := by
  induction rest using List.reverseRecOn with
  | nil => exact absurd rfl hne
  | append_singleton rest name ih =>
    rw [← List.append_assoc] at h
    have hdir := t.parent (p ++ rest) name h
    by_cases hrest : rest = []
    · rwa [hrest, List.append_nil] at hdir
    · apply ih _ hrest
      rw [hdir]
      exact fun hnone => nomatch hnone

theorem linkFree_of_node (h : t.node p ≠ none) (hlink : ∀ absolute target, t.node p ≠ some (.link absolute target)) :
    t.LinkFree p := by
  rintro q ⟨rest, rfl⟩
  by_cases hrest : rest = []
  · rwa [hrest, List.append_nil] at hlink
  · have hdir := t.node_above h hrest
    intro absolute target hq
    rw [hdir] at hq
    cases hq

end Tree

section Empty

theorem emptyNode_root : (if ([] : Path Name) = [] then some (.dir : Node Name Content) else none) = some .dir :=
  if_pos rfl

theorem emptyNode_parent (dir : Path Name) (name : Name)
    (h : (if dir ++ [name] = [] then some (.dir : Node Name Content) else none) ≠ none) :
    (if dir = [] then some (.dir : Node Name Content) else none) = some .dir := by
  rw [if_neg (List.append_ne_nil_of_right_ne_nil dir (List.cons_ne_nil name []))] at h
  exact absurd rfl h

/-- The tree with nothing below its root. -/
def Tree.empty : Tree Name Content :=
  ⟨fun p => if p = [] then some .dir else none, emptyNode_root, emptyNode_parent⟩

end Empty

section Walk

/-- The walk of the parts from a directory on, with `onLink` for the walk behind a link. -/
def walkWith (t : Tree Name Content) (onLink : Path Name → List (Part Name) → Except WalkError (Path Name)) :
    Path Name → List (Part Name) → Except WalkError (Path Name)
  | dir, [] => .ok dir
  | dir, .up :: parts => walkWith t onLink dir.dropLast parts
  | dir, .down name :: parts =>
    match t.node (dir ++ [name]) with
    | some .dir => walkWith t onLink (dir ++ [name]) parts
    | some (.link absolute target) => onLink (if absolute then [] else dir) (target ++ parts)
    | some (.file _) => if parts.isEmpty then .ok (dir ++ [name]) else .error .notDir
    | none => if parts.isEmpty then .ok (dir ++ [name]) else .error .noEntry

/-- A walk over at most so many links. -/
def walk (t : Tree Name Content) : ℕ → Path Name → List (Part Name) → Except WalkError (Path Name)
  | 0 => walkWith t fun _ _ => .error .loop
  | links + 1 => walkWith t (walk t links)

/-- Where a path leads behind all links: the last name need not exist. -/
def Tree.follow (t : Tree Name Content) (links : ℕ) (p : Path Name) : Except WalkError (Path Name) :=
  walk t links [] (p.map .down)

variable {onLink : Path Name → List (Part Name) → Except WalkError (Path Name)} {names : List Name}

theorem walkWith_linkFree (h : t.LinkFree (dir ++ names))
    (hwalk : walkWith t onLink dir (names.map .down) = .ok q) : q = dir ++ names := by
  induction names generalizing dir with
  | nil =>
    rw [List.append_nil]
    exact (Except.ok.inj hwalk).symm
  | cons name names ih =>
    have hsplit : dir ++ name :: names = (dir ++ [name]) ++ names := by simp
    rw [hsplit] at h ⊢
    rw [List.map_cons, walkWith] at hwalk
    have hnot := h (dir ++ [name]) (List.prefix_append _ _)
    have hlast : ∀ e : WalkError, (if (names.map Part.down).isEmpty = true then
        (.ok (dir ++ [name]) : Except WalkError (Path Name)) else .error e) = .ok q → q = dir ++ [name] ++ names := by
      intro e hend
      cases names with
      | nil =>
        rw [List.append_nil]
        exact (Except.ok.inj hend).symm
      | cons other names => cases hend
    cases hnode : t.node (dir ++ [name]) with
    | none =>
      rw [hnode] at hwalk
      exact hlast _ hwalk
    | some node =>
      rw [hnode] at hwalk
      cases node with
      | file content => exact hlast _ hwalk
      | dir => exact ih h hwalk
      | link absolute target => exact absurd hnode (hnot absolute target)

/-- A path without links leads to itself. -/
theorem Tree.LinkFree.follow {links : ℕ} (h : t.LinkFree p) (hwalk : t.follow links p = .ok q) : q = p := by
  unfold Tree.follow at hwalk
  cases links with
  | zero => exact walkWith_linkFree h hwalk
  | succ links => exact walkWith_linkFree h hwalk

theorem walkWith_parent (h : t.LinkFree (dir ++ names)) (hdir : t.node dir = some .dir) (hne : names ≠ [])
    (hwalk : walkWith t onLink dir (names.map .down) = .ok q) : t.node (dir ++ names).dropLast = some .dir := by
  induction names generalizing dir with
  | nil => exact absurd rfl hne
  | cons name names ih =>
    cases names with
    | nil => rwa [List.dropLast_concat]
    | cons other names =>
      have hsplit : dir ++ name :: other :: names = (dir ++ [name]) ++ other :: names := by simp
      rw [hsplit] at h ⊢
      rw [List.map_cons, walkWith] at hwalk
      have hnot := h (dir ++ [name]) (List.prefix_append _ _)
      cases hnode : t.node (dir ++ [name]) with
      | none =>
        rw [hnode] at hwalk
        cases hwalk
      | some node =>
        rw [hnode] at hwalk
        cases node with
        | file content => cases hwalk
        | dir => exact ih h hnode (List.cons_ne_nil _ _) hwalk
        | link absolute target => exact absurd hnode (hnot absolute target)

/-- Where the walk of a path without links ends, a directory stands above. -/
theorem Tree.LinkFree.parent {links : ℕ} (h : t.LinkFree p) (hne : p ≠ []) (hwalk : t.follow links p = .ok q) :
    t.node p.dropLast = some .dir := by
  unfold Tree.follow at hwalk
  cases links with
  | zero => exact walkWith_parent h t.root hne hwalk
  | succ links => exact walkWith_parent h t.root hne hwalk

theorem walkWith_dirs (h : ∀ above, above <+: names → above ≠ names → t.node (dir ++ above) = some .dir)
    (hlink : ∀ absolute target, t.node (dir ++ names) ≠ some (.link absolute target)) :
    walkWith t onLink dir (names.map .down) = .ok (dir ++ names) := by
  induction names generalizing dir with
  | nil =>
    rw [List.append_nil]
    rfl
  | cons name names ih =>
    have hsplit : dir ++ name :: names = (dir ++ [name]) ++ names := by simp
    rw [List.map_cons, walkWith]
    cases names with
    | nil =>
      cases hnode : t.node (dir ++ [name]) with
      | none => rfl
      | some node =>
        cases node with
        | file content => rfl
        | dir => rfl
        | link absolute target => exact absurd hnode (hlink absolute target)
    | cons other names =>
      have hdir := h [name] ⟨other :: names, rfl⟩ (by simp)
      rw [hdir, hsplit]
      apply ih
      · intro above habove hne
        have hfull := h (name :: above) (List.cons_prefix_cons.mpr ⟨rfl, habove⟩) (by simpa using hne)
        rwa [List.append_assoc]
      · rwa [← hsplit]

/-- The walk ends at a path below directories if no link stands there. -/
theorem Tree.follow_of_parent {links : ℕ} (hdir : t.node dir = some .dir)
    (hlink : ∀ absolute target, t.node (dir ++ [name]) ≠ some (.link absolute target)) :
    t.follow links (dir ++ [name]) = .ok (dir ++ [name]) := by
  have habove : ∀ above, above <+: dir ++ [name] → above ≠ dir ++ [name] → t.node ([] ++ above) = some .dir := by
    intro above habove hne
    rw [List.nil_append]
    rcases List.prefix_concat_iff.mp habove with heq | hpre
    · exact absurd heq hne
    · obtain ⟨rest, rfl⟩ := hpre
      by_cases hrest : rest = []
      · rwa [hrest, List.append_nil] at hdir
      · apply t.node_above _ hrest
        rw [hdir]
        exact fun h => nomatch h
  unfold Tree.follow
  cases links with
  | zero => exact walkWith_dirs habove hlink
  | succ links => exact walkWith_dirs habove hlink

/-- The walk ends at what stands at the path if this is no link. -/
theorem Tree.follow_of_node {links : ℕ} (h : t.node p ≠ none)
    (hlink : ∀ absolute target, t.node p ≠ some (.link absolute target)) : t.follow links p = .ok p := by
  rcases List.eq_nil_or_concat' p with rfl | ⟨dir, name, rfl⟩
  · cases links with
    | zero => rfl
    | succ links => rfl
  · exact t.follow_of_parent (t.parent dir name h) hlink

end Walk

section Set

variable [DecidableEq Name] {new : Option (Node Name Content)}

theorem set_root (hne : p ≠ []) : Function.update t.node p new [] = some .dir := by
  rw [Function.update_of_ne hne.symm]
  exact t.root

theorem set_parent (hdir : t.node p.dropLast = some .dir) (hleaf : t.node p ≠ some .dir) (dir : Path Name)
    (name : Name) (h : Function.update t.node p new (dir ++ [name]) ≠ none) :
    Function.update t.node p new dir = some .dir := by
  by_cases hat : dir ++ [name] = p
  · have hne : dir ≠ p := by
      intro heq
      have hlen := congrArg List.length (hat.trans heq.symm)
      simp at hlen
    rw [← hat, List.dropLast_concat] at hdir
    rwa [Function.update_of_ne hne]
  · rw [Function.update_of_ne hat] at h
    have hup := t.parent dir name h
    rwa [Function.update_of_ne]
    intro heq
    rw [heq] at hup
    exact hleaf hup

variable [DecidableEq Content]

/-- Put a node in the place of a file, of a link or of nothing, below a directory. -/
def Tree.set (t : Tree Name Content) (p : Path Name) (new : Option (Node Name Content)) : Tree Name Content :=
  if h : p ≠ [] ∧ t.node p.dropLast = some .dir ∧ t.node p ≠ some .dir then
    ⟨Function.update t.node p new, set_root h.1, set_parent h.2.1 h.2.2⟩
  else t

theorem Tree.set_node (hne : p ≠ []) (hdir : t.node p.dropLast = some .dir) (hleaf : t.node p ≠ some .dir) :
    (t.set p new).node = Function.update t.node p new := by
  unfold Tree.set
  rw [dif_pos ⟨hne, hdir, hleaf⟩]

theorem Tree.set_cases (t : Tree Name Content) (p : Path Name) (new : Option (Node Name Content)) :
    (t.set p new).node = Function.update t.node p new ∨ t.set p new = t := by
  unfold Tree.set
  split
  · exact .inl rfl
  · exact .inr rfl

@[simp] theorem Tree.set_node_of_ne (h : q ≠ p) : (t.set p new).node q = t.node q := by
  unfold Tree.set
  split
  · exact Function.update_of_ne h _ _
  · rfl

/-- No directory is lost. -/
theorem Tree.set_dir (h : t.node q = some .dir) : (t.set p new).node q = some .dir := by
  by_cases hq : q = p
  · unfold Tree.set
    split
    · rename_i hset
      exact absurd (hq ▸ h) hset.2.2
    · exact h
  · rwa [Tree.set_node_of_ne hq]

theorem Tree.set_link (hnew : ∀ absolute target, new ≠ some (.link absolute target)) {absolute : Bool}
    {target : List (Part Name)} (h : (t.set p new).node q = some (.link absolute target)) :
    t.node q = some (.link absolute target) := by
  by_cases hq : q = p
  · rcases t.set_cases p new with hset | hset
    · rw [hset, hq, Function.update_self] at h
      exact absurd h (hnew absolute target)
    · rwa [hset] at h
  · rwa [Tree.set_node_of_ne hq] at h

theorem Tree.file?_set_of_ne (h : q ≠ p) : (t.set p new).file? q = t.file? q := by
  unfold Tree.file?
  rw [Tree.set_node_of_ne h]

theorem Tree.file?_set {content : Content} (hne : p ≠ []) (hdir : t.node p.dropLast = some .dir)
    (hleaf : t.node p ≠ some .dir) : (t.set p (some (.file content))).file? p = some content := by
  rw [Tree.file?_eq_some, Tree.set_node hne hdir hleaf, Function.update_self]

/-- A directory in the place of nothing changes no file. -/
theorem Tree.file?_set_dir (h : t.node p = none) (q : Path Name) : (t.set p (some .dir)).file? q = t.file? q := by
  by_cases hq : q = p
  · rcases t.set_cases p (some .dir) with hset | hset
    · unfold Tree.file?
      rw [hset, hq, Function.update_self, h]
    · rw [hset]
  · exact Tree.file?_set_of_ne hq

end Set

end FileTree
