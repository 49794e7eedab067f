import MiniAgentOS.Fetch.Commands
import MiniAgentOS.Lib.Machine

/-! The main loop: packets, lines and ticks in any order, and what happens when a fetch is done. -/
namespace MiniAgentOS.Fetch
open Checked Net Http

/-- What the end of a fetch meets: whether the TLS library has data left, what the agent starts next
and whether its handler then says that it took the fetch, what a redirect meets, and whether the
reply to a command can be sent. -/
structure DoneEnv where
  tlsPending : Bool
  agent : List AgentStart
  handled : Bool
  start : StartEnv
  peerKnown : Bool
  replySent : Bool
  deriving DecidableEq, Repr

/-- `fetch_best_effort_close`. -/
def Kernel.closeDone (k : Kernel) (config : Config) (env : DoneEnv) : Kernel :=
  let keep := config.nativeOpenaiReuse && k.conn.openaiRequest && k.conn.established &&
    !k.conn.peerClosed && !k.http.chunked && k.http.contentLen != 0 && k.http.state == .complete &&
    !env.tlsPending
  { k with
    conn := if keep then { k.conn with openaiReusable := true, peerClosed := false } else k.conn.close }

/-- The fetch ends and its state is idle again. -/
def Kernel.release (k : Kernel) : Kernel :=
  { k with
    request := { k.request with extraHeader := none, oauthActive := false }
    conn := { k.conn with state := .idle } }

/-- Tell the outcome to whom the command came from. -/
def Kernel.answer (k : Kernel) (env : DoneEnv) : Kernel :=
  if k.reply.srcPort ≠ 0 ∧ !k.redirect.suppressOk then
    if !k.reply.sent ∧ env.peerKnown ∧ !env.replySent then
      { k with reply := { k.reply with pending := true } }
    else if k.reply.pending then k else k.release
  else Kernel.release { k with reply := { k.reply with donePrinted := true, pending := false } }

/-- Follow a redirect, or answer. -/
def Kernel.report (k : Kernel) (config : Config) (env : DoneEnv) : Kernel :=
  if k.redirect.pending then
    let target := k.redirect.target
    let (next, started) :=
      Kernel.fetchStartEx { k with request := { k.request with methodPost := false, body := [] } }
        config .command env.start (plainTarget target.domain target.path target.https)
        ⟨k.reply.ip, k.reply.srcPort⟩ true
    let next := { next with redirect := { next.redirect with pending := false, suppressOk := false } }
    if started then next else next.answer env
  else k.answer env

/-- The end of a fetch in `kmain`: the agent gets it if it has a task, else the command. -/
def Kernel.finishFetch (k : Kernel) (config : Config) (env : DoneEnv) : Kernel :=
  let ok := k.conn.gotResp
  let k := k.closeDone config env
  if k.agent.taskActive then
    let (next, started) := Kernel.agentProceed (k.emit [.agentDone ok]) config env.agent
    if started ∨ env.handled then next else next.report config env
  else k.report config env

/-- The reply that is due after a piece was read over TLS. -/
def Kernel.sendReply (k : Kernel) (sent : Bool) : Kernel :=
  if k.reply.pending ∧ !k.reply.sent ∧ k.reply.srcPort ≠ 0 ∧ sent then
    { k with reply := { k.reply with sent := true, pending := false } }
  else k

/-- What the main loop turns to next. -/
inductive Event where
  | arp (gateway dns : Bool)
  | dnsReply (datagram : Bytes) (now : ℕ)
  | segment (seg : TcpSegment) (env : SegmentEnv)
  | udp (payload : Bytes) (reply : ReplyTo) (env : CommandEnv)
  | line (line : Bytes) (env : CommandEnv)
  | tick (env : TickEnv)
  | reply (sent : Bool)
  | done (env : DoneEnv)
  deriving DecidableEq, Repr

def Kernel.step (config : Config) (k : Kernel) : Event → Checked Kernel
  | .arp gateway dns => pure (k.receiveArp gateway dns)
  | .dnsReply datagram now => k.receiveDns datagram now
  | .segment seg env => k.receiveSegment seg env
  | .udp payload reply env => do
    let command ← udpCommand payload
    pure (k.command config reply env command)
  | .line line env => do
    let command ← uartCommand line
    pure (k.command config noReply env command)
  | .tick env => k.tick env
  | .reply sent => pure (k.sendReply sent)
  | .done env => pure (if k.conn.state = .done then k.finishFetch config env else k)

/-- The kernel from its start, with any order of events. -/
def kernelMachine (config : Config) : Machine Kernel Event :=
  Machine.ofChecked (fun k => k = {}) (fun _ _ => True) (Kernel.step config)

instance (config : Config) (k : Kernel) (event : Event) :
    Decidable ((kernelMachine config).allowed k event) :=
  inferInstanceAs (Decidable (True ∧ _))

end MiniAgentOS.Fetch
