import MiniAgentOS.Bridge.Host

/-! Patches: their operations, and what each does to a file of the workspace. -/
namespace MiniAgentOS.Bridge
open Raising

section Update

def findSequence (haystack needle : List PyStr) (startIndex : ℕ) : Except PyError ℕ :=
  if needle = [] then .ok startIndex
  else
    let count := haystack.length + 1 - needle.length - startIndex
    match (List.range' startIndex count).find? fun i => (haystack.drop i).take needle.length = needle with
    | some i => .ok i
    | none => .error (.value "patch hunk did not match target file")

def joinLines (lines : List PyStr) (trailingNewline : Bool) : PyStr :=
  if lines = [] then []
  else (str "\n").intercalate lines ++ (if trailingNewline then str "\n" else [])

/-- The marks of a line of a hunk. -/
def space : ℕ := 32
def plus : ℕ := 43
def minus : ℕ := 45

/-- The variables of `apply_update_patch`. -/
structure Splice where
  newLines : List PyStr := []
  scanIndex : ℕ := 0
  hunkLines : List PyStr := []
  sawHunk : Bool := false
  deriving DecidableEq, Repr

def oldChunk (hunk : List PyStr) : List PyStr :=
  (hunk.filter fun line => line.head? = some space ∨ line.head? = some minus).map (·.drop 1)

def newChunk (hunk : List PyStr) : List PyStr :=
  (hunk.filter fun line => line.head? = some space ∨ line.head? = some plus).map (·.drop 1)

/-- `flush_hunk`. -/
def flushHunk (originalLines : List PyStr) (s : Splice) : Except PyError Splice :=
  if s.hunkLines = [] then .ok s
  else do
    let matchIndex ← findSequence originalLines (oldChunk s.hunkLines) s.scanIndex
    .ok { s with
      newLines := s.newLines ++ (originalLines.take matchIndex).drop s.scanIndex ++ newChunk s.hunkLines
      scanIndex := matchIndex + (oldChunk s.hunkLines).length
      sawHunk := true }

def updateLine (originalLines : List PyStr) (s : Splice) (line : PyStr) : Except PyError Splice :=
  if (str "@@").isPrefixOf line then do
    let s ← flushHunk originalLines s
    .ok { s with hunkLines := [] }
  else if line.head? = some space ∨ line.head? = some plus ∨ line.head? = some minus then
    .ok { s with hunkLines := s.hunkLines ++ [line] }
  else .error (.value "unsupported patch line in update hunk")

/-- The lines that an update patch leaves. -/
def updateLines (originalLines bodyLines : List PyStr) : Except PyError (List PyStr) := do
  let s ← bodyLines.foldlM (updateLine originalLines) {}
  let s ← flushHunk originalLines s
  if s.sawHunk then .ok (s.newLines ++ originalLines.drop s.scanIndex)
  else .error (.value "update patch did not contain a hunk")

/-- The text that an update patch makes of a text. -/
def updateText (originalText : PyStr) (bodyLines : List PyStr) : Except PyError PyStr := do
  let newLines ← updateLines (splitlines originalText) bodyLines
  .ok (joinLines newLines ((str "\n").isSuffixOf originalText))

end Update

section Operations

variable (resolve : Resolve) (root : FilePath)

def applyUpdatePatch (raw : PyStr) (bodyLines : List PyStr) : Py Unit := do
  let filePath ← resolveWorkspacePath resolve root raw
  let originalText ← readText filePath
  let updatedText ← ofExcept (updateText originalText bodyLines)
  writeText .request filePath updatedText

/-- The lines that an add patch adds. -/
def addedLines : List PyStr → Except PyError (List PyStr)
  | [] => .ok []
  | line :: lines =>
    if (str "@@").isPrefixOf line then addedLines lines
    else if line.head? = some plus then do
      let rest ← addedLines lines
      .ok (line.drop 1 :: rest)
    else .error (.value "add patch can only contain added lines")

def applyAddPatch (raw : PyStr) (bodyLines : List PyStr) : Py Unit := do
  let filePath ← resolveWorkspacePath resolve root raw
  if (← get).exists filePath then throw (.value "add patch target already exists")
  else do
    let added ← ofExcept (addedLines bodyLines)
    mkdirParents .request filePath.dropLast
    writeText .request filePath (joinLines added (added ≠ []))

def applyDeletePatch (raw : PyStr) : Py Unit := do
  let filePath ← resolveWorkspacePath resolve root raw
  if (← get).exists filePath then unlink filePath
  else throw (.value "delete patch target does not exist")

end Operations

section Patches

inductive Operation where
  | update (path : PyStr) (body : List PyStr)
  | add (path : PyStr) (body : List PyStr)
  | delete (path : PyStr)
  deriving DecidableEq, Repr

/-- `s.split(sep, 1)[1]`. -/
def afterFirst (sep : PyStr) : PyStr → PyStr
  | [] => []
  | c :: rest => if sep.isPrefixOf (c :: rest) then (c :: rest).drop sep.length else afterFirst sep rest

def isOperationLine (line : PyStr) : Bool := (str "*** ").isPrefixOf line

/-- The operation that a line begins, with the lines behind it. -/
def operationAt (line : PyStr) (rest : List PyStr) : Option Operation :=
  let path := afterFirst (str ": ") line
  let body := rest.takeWhile fun line => ! isOperationLine line
  if (str "*** Update File: ").isPrefixOf line then some (.update path body)
  else if (str "*** Add File: ").isPrefixOf line then some (.add path body)
  else if (str "*** Delete File: ").isPrefixOf line then some (.delete path)
  else none

def Operation.bodyLength : Operation → ℕ
  | .update _ body | .add _ body => body.length
  | .delete _ => 0

/-- The operations of a patch from a line on, `skip` lines of which belong to the operation before: `none` is a
line that begins none. -/
def operationsFrom : ℕ → List PyStr → List (Option Operation)
  | _, [] => []
  | skip + 1, _ :: rest => operationsFrom skip rest
  | 0, line :: rest =>
    match operationAt line rest with
    | some op => some op :: operationsFrom op.bodyLength rest
    | none => [none]

structure PatchResult where
  filesChanged : List PyStr := []
  createdFiles : List PyStr := []
  deletedFiles : List PyStr := []
  deriving DecidableEq, Repr

def PatchResult.add (r : PatchResult) : Operation → PatchResult
  | .update path _ => { r with filesChanged := r.filesChanged ++ [path] }
  | .add path _ => { r with filesChanged := r.filesChanged ++ [path], createdFiles := r.createdFiles ++ [path] }
  | .delete path => { r with filesChanged := r.filesChanged ++ [path], deletedFiles := r.deletedFiles ++ [path] }

variable (resolve : Resolve) (root : FilePath)

def applyOperation : Operation → Py Unit
  | .update path body => applyUpdatePatch resolve root path body
  | .add path body => applyAddPatch resolve root path body
  | .delete path => applyDeletePatch resolve root path

/-- The loop of `apply_patch`. -/
def applyOperations : PatchResult → List (Option Operation) → Py PatchResult
  | r, [] => pure r
  | _, none :: _ => throw (.value "unsupported patch operation")
  | r, some op :: steps => do
    applyOperation resolve root op
    applyOperations (r.add op) steps

def maxPatchBytes : ℕ := 65536

/-- The operations of a patch in its envelope. -/
def patchOperations (patch : PyStr) : Except PyError (List (Option Operation)) := do
  match encode patch with
  | none => .error .unicode
  | some chars =>
    let lines := splitlines patch
    if maxPatchBytes < utf8Length chars then .error (.value "patch exceeds size limit")
    else if lines.head? = some (str "*** Begin Patch") ∧ lines.getLast? = some (str "*** End Patch") then
      .ok (operationsFrom 0 lines.tail.dropLast)
    else .error (.value "invalid patch envelope")

def applyPatch (patch : PyStr) : Py PatchResult := do
  let steps ← ofExcept (patchOperations patch)
  applyOperations resolve root {} steps

end Patches

end MiniAgentOS.Bridge
