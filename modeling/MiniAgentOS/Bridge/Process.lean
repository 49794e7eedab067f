import MiniAgentOS.Bridge.Host

/-! `ProcessStore`: a Python file of the workspace run in a container, and what is kept of its output. -/
namespace MiniAgentOS.Bridge
open Raising

def processTimeoutMaxSec : ℤ := 30
def processOutputLimitBytes : ℕ := 2048

/-- How `docker run` ends: the process is through, it is killed at the timeout, or it cannot be run. -/
inductive DockerOutcome where
  | completed (returncode : ℤ) (stdout stderr : PyStr)
  | timeoutExpired (stdout stderr : PyStr)
  | raised (error : PyError)
  deriving DecidableEq, Repr

/-- The container gets the tree, the path below the root and the timeout. It may change the tree. -/
structure Docker where
  tree : Workspace → FilePath → ℤ → Workspace
  outcome : Workspace → FilePath → ℤ → DockerOutcome
  durationMs : Workspace → FilePath → ℤ → ℤ

/-- The characters that fit in `limit` bytes. -/
def truncateChars : List Char → ℕ → List Char
  | [], _ => []
  | c :: cs, limit => if c.utf8Size ≤ limit then c :: truncateChars cs (limit - c.utf8Size) else []

/-- `truncate_utf8`. -/
def truncateUtf8 (s : PyStr) (limit : ℕ) : Py PyStr :=
  match encode s with
  | some chars => pure (decode (truncateChars chars limit))
  | none => throw .unicode

/-- `as_posix` of a relative path. -/
def asPosix (p : FilePath) : PyStr := [slash].intercalate p

def getOutput (processId : PyStr) (offset limit : ℤ) : Py Json := do
  match (← get).runs.lookup processId with
  | none => throw (.lookup "process run was not found")
  | some run =>
    let stdout := pySlice run.stdout offset (offset + limit)
    let stderr := pySlice run.stderr offset (offset + limit)
    let nextOffset := offset + max stdout.length stderr.length
    pure (.dict [
      (str "ok", .bool true),
      (str "process_id", .str processId),
      (str "status", .str run.status),
      (str "stdout", .str stdout),
      (str "stderr", .str stderr),
      (str "exit_code", .int run.exitCode),
      (str "next_offset", .int nextOffset),
      (str "truncated", .bool (nextOffset < max run.stdout.length run.stderr.length))])

/-- What is kept of the output of a process. -/
def processRun : DockerOutcome → Py ProcessRun
  | .completed exitCode stdout stderr => do
    let stdout ← truncateUtf8 stdout processOutputLimitBytes
    let stderr ← truncateUtf8 stderr processOutputLimitBytes
    pure { status := str "exited", exitCode, stdout, stderr }
  | .timeoutExpired stdout stderr => do
    let stdout ← truncateUtf8 stdout processOutputLimitBytes
    let stderr ← truncateUtf8 stderr processOutputLimitBytes
    pure { status := str "timed_out", exitCode := 124, stdout, stderr }
  | .raised error => throw error

def DockerOutcome.timedOut : DockerOutcome → Bool
  | .timeoutExpired _ _ => true
  | _ => false

/-- The entry of a run in `process_runs`. -/
def processRecord (processId relPath : PyStr) (run : ProcessRun) (stdoutBytes stderrBytes : ℕ) (timedOut : Bool)
    (durationMs : ℤ) : Json :=
  .dict [
    (str "process_id", .str processId),
    (str "argv", .list [.str (str "python3"), .str relPath]),
    (str "cwd", .str []),
    (str "profile", .str (str "python")),
    (str "status", .str run.status),
    (str "exit_code", .int run.exitCode),
    (str "stdout_bytes", .int stdoutBytes),
    (str "stderr_bytes", .int stderrBytes),
    (str "timed_out", .bool timedOut),
    (str "duration_ms", .int durationMs)]

/-- What is kept of a run that is through. -/
def saveRun (processId relPath : PyStr) (outcome : DockerOutcome) (durationMs : ℤ) : Py Unit := do
  let run ← processRun outcome
  modify fun h => { h with runs := h.runs ++ [(processId, run)] }
  let stdoutBytes ← encodedLength run.stdout
  let stderrBytes ← encodedLength run.stderr
  let entry := processRecord processId relPath run stdoutBytes stderrBytes outcome.timedOut durationMs
  record fun r => { r with
    processRuns := r.processRuns ++ [entry]
    processOutputs := r.processOutputs ++ [(processId, run.stdout, run.stderr)] }

/-- The run of a file, which the interpreter opens behind all links. -/
def runContainer (docker : Docker) (filePath relPath : FilePath) (timeoutSec : ℤ) : Py PyStr := do
  let h ← get
  let processId := str (toString h.nextProcessId)
  let timeoutSec := max 1 (min timeoutSec processTimeoutMaxSec)
  modify fun h => { h with nextProcessId := h.nextProcessId + 1 }
  let target ← locate filePath
  modify (·.touch .request .run target)
  modify fun h => { h with tree := docker.tree h.tree relPath timeoutSec }
  saveRun processId (asPosix relPath) (docker.outcome h.tree relPath timeoutSec)
    (docker.durationMs h.tree relPath timeoutSec)
  pure processId

def runPython (resolve : Resolve) (root : FilePath) (docker : Docker) (raw : PyStr) (timeoutSec : ℤ) : Py Json := do
  let filePath ← resolveWorkspacePath resolve root raw
  let h ← get
  if ¬ h.exists filePath then throw (.os .noEntry)
  else if ¬ h.isFile filePath then throw (.value "path must reference a file")
  else do
    let processId ← runContainer docker filePath (filePath.drop root.length) timeoutSec
    pure (.dict [
      (str "ok", .bool true),
      (str "process_id", .str processId),
      (str "status", .str (str "running"))])

end MiniAgentOS.Bridge
