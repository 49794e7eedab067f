import MiniAgentOS.Lib.FileTree
import MiniAgentOS.Lib.Raising
import MiniAgentOS.Bridge.Json

/-! The host of the bridge: its files with the calls that touch them, the records that it keeps, and the check
of a path that the guest names. -/
namespace MiniAgentOS.Bridge
open FileTree Raising

section Model

/-- Why a system call fails. -/
inductive Errno where
  | noEntry
  | notDir
  | isDir
  | exists
  | loop
  | access
  deriving DecidableEq, Repr

/-- The exceptions: `os .noEntry` is `FileNotFoundError`, and `unicode` and `json` are kinds of `ValueError`. -/
inductive PyError where
  | os (errno : Errno)
  | value (message : String)
  | unicode
  | json
  | lookup (message : String)
  | runtime (message : PyStr)
  | attribute
  | type
  | overflow
  | timeout
  deriving DecidableEq, Repr

/-- What a file holds: the text that its bytes encode, or bytes that encode none. -/
inductive Content where
  | text (chars : List Char)
  | binary (bytes : List UInt8)
  deriving DecidableEq, Repr

abbrev Workspace := Tree PyStr Content
abbrev FilePath := FileTree.Path PyStr

inductive Access where
  | read
  | write
  | unlink
  | mkdir
  | run
  deriving DecidableEq, Repr

/-- Whether a call serves a request or the artifact recorder. -/
inductive Purpose where
  | request
  | artifact
  deriving DecidableEq, Repr

/-- An access to what stands at a path, which is one behind all links. -/
structure Touch where
  purpose : Purpose
  access : Access
  path : FilePath
  deriving DecidableEq, Repr

/-- `ArtifactRecorder`. -/
structure ArtifactRecorder where
  outputDir : Option FilePath
  fileReads : List Json := []
  fileWrites : List Json := []
  filePatches : List Json := []
  toolErrors : List Json := []
  processRuns : List Json := []
  processOutputs : List (PyStr × PyStr × PyStr) := []
  searches : List Json := []

/-- What `ProcessStore` keeps of a run. -/
structure ProcessRun where
  status : PyStr
  exitCode : ℤ
  stdout : PyStr
  stderr : PyStr
  deriving DecidableEq, Repr

/-- The tree with what its permissions deny, the accesses so far, the records and the runs. -/
structure Host where
  tree : Workspace
  denied : Access → FilePath → Bool := fun _ _ => false
  log : List Touch := []
  artifacts : Option ArtifactRecorder := none
  nextProcessId : ℕ := 1
  runs : List (PyStr × ProcessRun) := []

abbrev Py := Raising Host PyError

def Host.touch (h : Host) (purpose : Purpose) (access : Access) (path : FilePath) : Host :=
  { h with log := h.log ++ [{ purpose, access, path }] }

def Host.put (h : Host) (p : FilePath) (new : Option (Node PyStr Content)) : Host :=
  { h with tree := h.tree.set p new }

end Model

section Calls

/-- How many links the kernel follows. -/
def maxSymlinks : ℕ := 40

def walkErrno : WalkError → Errno
  | .noEntry => .noEntry
  | .notDir => .notDir
  | .loop => .loop

/-- Raise the error of a result. -/
def ofExcept {α : Type} : Except PyError α → Py α
  | .ok a => pure a
  | .error e => throw e

/-- The path behind all links. -/
def locate (p : FilePath) : Py FilePath := do
  ofExcept (((← get).tree.follow maxSymlinks p).mapError fun e => .os (walkErrno e))

/-- What stands at a path behind all links, for the tests that only look. -/
def Host.stat (h : Host) (p : FilePath) : Option (Node PyStr Content) :=
  match h.tree.follow maxSymlinks p with
  | .ok q => h.tree.node q
  | .error _ => none

/-- `Path.exists`. -/
def Host.exists (h : Host) (p : FilePath) : Bool := (h.stat p).isSome

/-- `Path.is_file`. -/
def Host.isFile (h : Host) (p : FilePath) : Bool :=
  match h.stat p with
  | some (.file _) => true
  | _ => false

/-- `Path.is_dir`. -/
def Host.isDir (h : Host) (p : FilePath) : Bool := h.stat p = some .dir

/-- `Path.read_text`. -/
def readText (p : FilePath) : Py PyStr := do
  let q ← locate p
  let h ← get
  match h.tree.node q with
  | none => throw (.os .noEntry)
  | some .dir => throw (.os .isDir)
  | some (.link _ _) => throw (.os .loop)
  | some (.file content) =>
    if h.denied .read q then throw (.os .access)
    else do
      modify (·.touch .request .read q)
      match content with
      | .text chars => pure (universalNewlines (decode chars))
      | .binary _ => throw .unicode

/-- `Path.write_text`: the file is opened, and so made empty, before the text is encoded. -/
def writeText (purpose : Purpose) (p : FilePath) (s : PyStr) : Py Unit := do
  let q ← locate p
  let h ← get
  if h.tree.node q = some .dir then throw (.os .isDir)
  else if h.denied .write q then throw (.os .access)
  else do
    modify (·.touch purpose .write q)
    match encode s with
    | some chars => modify (·.put q (some (.file (.text chars))))
    | none => do
      modify (·.put q (some (.file (.text []))))
      throw .unicode

/-- `Path.mkdir(exist_ok=True)` below `base`, or one name of `mkdir(parents=True)`, `last` for the last. -/
def ensureDir (purpose : Purpose) (base : FilePath) (name : PyStr) (last : Bool) : Py Unit := do
  let parent ← locate base
  let h ← get
  let q := parent ++ [name]
  if h.tree.node q = none then
    if h.denied .mkdir q then throw (.os .access)
    else do
      modify (·.touch purpose .mkdir q)
      modify (·.put q (some .dir))
  else if h.isDir (base ++ [name]) then pure ()
  else throw (.os (if last then .exists else .notDir))

def ensureDirs (purpose : Purpose) : FilePath → List PyStr → Py Unit
  | _, [] => pure ()
  | base, name :: rest => do
    ensureDir purpose base name rest.isEmpty
    ensureDirs purpose (base ++ [name]) rest

/-- `Path.mkdir(parents=True, exist_ok=True)`. -/
def mkdirParents (purpose : Purpose) (p : FilePath) : Py Unit := ensureDirs purpose [] p

/-- `Path.unlink`: a link in the last place is not followed. -/
def unlink (p : FilePath) : Py Unit := do
  match p.getLast? with
  | none => throw (.os .isDir)
  | some name => do
    let parent ← locate p.dropLast
    let h ← get
    let q := parent ++ [name]
    if h.tree.node q = none then throw (.os .noEntry)
    else if h.tree.node q = some .dir then throw (.os .isDir)
    else if h.denied .unlink q then throw (.os .access)
    else do
      modify (·.touch .request .unlink q)
      modify (·.put q none)

end Calls

section Paths

def slash : ℕ := 47

/-- `Path(raw).parts`, less the root of an absolute path. -/
def pathParts (raw : PyStr) : List PyStr := (raw.splitOn slash).filter fun part => part ≠ [] ∧ part ≠ str "."

def isAbsolute (raw : PyStr) : Bool := raw.head? = some slash

/-- `Path.resolve` in a tree. -/
abbrev Resolve := Workspace → FilePath → Except PyError FilePath

/-- What `Path.resolve` returns is a path without links. -/
def Resolve.Full (resolve : Resolve) : Prop := ∀ tree p q, resolve tree p = .ok q → tree.LinkFree q

def invalidPath : PyError := .value "invalid workspace path"

/-- `resolve_workspace_path` in a tree. -/
def resolveIn (resolve : Resolve) (root : FilePath) (tree : Workspace) (raw : PyStr) : Except PyError FilePath :=
  if raw = [] then .ok root
  else
    let rel := pathParts raw
    if isAbsolute raw ∨ rel.any (· ∈ [str "..", str "."]) then .error invalidPath
    else
      match resolve tree (root ++ rel) with
      | .error e => .error e
      | .ok resolved => if root ∈ resolved.inits then .ok resolved else .error invalidPath

def resolveWorkspacePath (resolve : Resolve) (root : FilePath) (raw : PyStr) : Py FilePath := do
  ofExcept (resolveIn resolve root (← get).tree raw)

/-- `Path.resolve` where no link is in the way. -/
def resolvePlain : Resolve := fun tree p =>
  if p.inits.all fun q => ! (tree.node q).any Node.isLink then .ok p else .error (.os .loop)

theorem resolvePlain_full : resolvePlain.Full := by
  intro tree p q hq
  unfold resolvePlain at hq
  split_ifs at hq with hall
  cases hq
  intro above habove absolute target hlink
  have hnot := List.all_eq_true.mp hall above ((List.mem_inits _ _).mpr habove)
  rw [hlink] at hnot
  cases hnot

/-- A workspace at `/w` that holds nothing. -/
def bareHost : Host := { tree := Tree.empty.set [str "w"] (some .dir) }

/-- A workspace at `/w` with the file `f`. -/
def fileHost (content : List Char) : Host := bareHost.put [str "w", str "f"] (some (.file (.text content)))

end Paths

section Recorder

def ArtifactRecorder.jsonFiles (r : ArtifactRecorder) : List (PyStr × Json) :=
  [(str "file_reads.json", .list r.fileReads),
   (str "file_writes.json", .list r.fileWrites),
   (str "file_patches.json", .list r.filePatches),
   (str "tool_errors.json", .list r.toolErrors),
   (str "process_runs.json", .list r.processRuns),
   (str "search_results.json", .dict [(str "searches", .list r.searches)])]

/-- `_write_json` of the recorder. -/
def writeArtifact (dir : FilePath) (name : PyStr) (value : Json) : Py Unit := do
  mkdirParents .artifact dir
  writeText .artifact (dir ++ [name]) (dumps 0 value ++ str "\n")

def writeProcessOutput (dir : FilePath) (id stdout stderr : PyStr) : Py Unit := do
  writeText .artifact (dir ++ [id ++ str ".stdout"]) stdout
  writeText .artifact (dir ++ [id ++ str ".stderr"]) stderr

/-- `_flush_locked`. -/
def ArtifactRecorder.flush (r : ArtifactRecorder) : Py Unit :=
  match r.outputDir with
  | none => pure ()
  | some dir => do
    r.jsonFiles.forM fun file => writeArtifact dir file.1 file.2
    ensureDir .artifact dir (str "process_output") true
    r.processOutputs.forM fun run => writeProcessOutput (dir ++ [str "process_output"]) run.1 run.2.1 run.2.2

/-- Add to the records and write them. -/
def record (add : ArtifactRecorder → ArtifactRecorder) : Py Unit := do
  match (← get).artifacts with
  | none => pure ()
  | some r => do
    modify fun h => { h with artifacts := some (add r) }
    (add r).flush

end Recorder

section Files

/-- The index that a slice bound stands for. -/
def sliceIndex (length : ℕ) (bound : ℤ) : ℕ :=
  if bound < 0 then (length + bound).toNat else min bound.toNat length

/-- `s[start:stop]`. -/
def pySlice (s : PyStr) (start stop : ℤ) : PyStr :=
  (s.take (sliceIndex s.length stop)).drop (sliceIndex s.length start)

/-- `len(s.encode("utf-8"))`. -/
def encodedLength (s : PyStr) : Py ℕ :=
  match encode s with
  | some chars => pure (utf8Length chars)
  | none => throw .unicode

variable (resolve : Resolve) (root : FilePath)

def readFile (raw : PyStr) (offset limit : ℤ) : Py Json := do
  let filePath ← resolveWorkspacePath resolve root raw
  let content ← readText filePath
  let segment := pySlice content offset (offset + limit)
  let bytesRead ← encodedLength segment
  pure (.dict [
    (str "ok", .bool true),
    (str "path", .str raw),
    (str "content", .str segment),
    (str "offset", .int offset),
    (str "bytes_read", .int bytesRead),
    (str "eof", .bool (offset + segment.length ≥ content.length)),
    (str "truncated", .bool (offset + segment.length < content.length))])

def writeFile (raw content : PyStr) (create overwrite : Bool) : Py Json := do
  let filePath ← resolveWorkspacePath resolve root raw
  let existed := (← get).exists filePath
  if existed ∧ ¬ overwrite then throw (.value "overwrite disabled")
  else if ¬ existed ∧ ¬ create then throw (.value "create disabled")
  else do
    mkdirParents .request filePath.dropLast
    writeText .request filePath content
    let bytesWritten ← encodedLength content
    pure (.dict [
      (str "ok", .bool true),
      (str "path", .str raw),
      (str "bytes_written", .int bytesWritten),
      (str "created", .bool (! existed))])

end Files

end MiniAgentOS.Bridge
