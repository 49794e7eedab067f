import MiniAgentOS.Fetch.KernelSteps

/-! Commands leave a fetch in flight alone, and the agent is told of its own requests only. -/
namespace MiniAgentOS.Fetch
open Checked Net Http

/-- The event carries a command that is refused, or one that has nothing to do with fetches. -/
def Kernel.rejects (k : Kernel) (event : Event) : Bool :=
  match event.command with
  | some (cmd, _) => k.refuses cmd || cmd == .other
  | none => false

/-- The last fetch that was started before the agent is told is one of the agent. -/
def OwnResponse (before : List Action) : Action → Prop
  | .agentDone _ => ∃ s after, lastStart before = some (s, after) ∧ s.owner = .agent
  | _ => True

structure Isolated (machine : Machine Kernel Event) (k : Kernel) : Prop where
  inFlight : ∀ event, machine.allowed k event → k.busy → k.rejects event →
    (machine.step k event).request = k.request ∧ (machine.step k event).conn = k.conn
  told : Trace.Always OwnResponse k.trace

/-- The commands that leave a request in flight as it is: all but `post`, and a URL if the request is
a GET without a header already. -/
def Command.spares (request : Request) : Command → Bool
  | .post _ _ => false
  | .url _ => request.get == request
  | _ => true

/-- The event carries no command that writes the request of a fetch in flight. -/
def Spared (k : Kernel) (event : Event) : Prop :=
  k.busy → ∀ command ∈ event.command, command.1.spares k.request

instance (k : Kernel) (event : Event) : Decidable (Spared k event) :=
  inferInstanceAs (Decidable (_ → ∀ command ∈ _, _))

/-- A task of the agent has a fetch of the agent in flight. -/
structure Owned (k : Kernel) : Prop where
  task : k.agent.taskActive = true → k.conn.state ≠ .idle ∧
    ∃ s after, lastStart k.trace = some (s, after) ∧ s.owner = .agent
  told : Trace.Always OwnResponse k.trace

variable {config : Config} {k k' : Kernel} {event : Event}

theorem command_spares (config : Config) (reply : ReplyTo) (env : CommandEnv) {cmd : Command}
    (hbusy : k.busy = true) (h : cmd.spares k.request = true) :
    k.command config reply env cmd = k := by
  cases hwrites : cmd.writes with
  | false => exact command_busy config reply env cmd hbusy hwrites
  | true =>
    cases cmd with
    | post url body => cases h
    | url url =>
      have hsame : k.request.get = k.request := by
        simpa [Command.spares] using h
      unfold Kernel.command
      dsimp only
      rw [if_pos hbusy, hsame]
    | _ => cases hwrites

theorem step_command {cmd : Command} {env : CommandEnv} (h : k.step config event = .ok k')
    (hcommand : event.command = some (cmd, env)) :
    ∃ reply, k' = k.command config reply env cmd := by
  cases event with
  | udp payload reply env' =>
    change (udpCommand payload >>= _) = _ at h
    dsimp only [Event.command] at hcommand
    cases hparse : udpCommand payload with
    | error trap =>
      rw [hparse] at h
      cases h
    | ok parsed =>
      rw [hparse] at h hcommand
      cases hcommand
      cases h
      exact ⟨reply, rfl⟩
  | line text env' =>
    change (uartCommand text >>= _) = _ at h
    dsimp only [Event.command] at hcommand
    cases hparse : uartCommand text with
    | error trap =>
      rw [hparse] at h
      cases h
    | ok parsed =>
      rw [hparse] at h hcommand
      cases hcommand
      cases h
      exact ⟨noReply, rfl⟩
  | _ => cases hcommand

/-- A command that comes while a fetch is in flight changes nothing. -/
theorem step_spared (h : k.step config event = .ok k') (hbusy : k.busy = true)
    (hspared : Spared k event) (hcommand : event.command.isSome) : k' = k := by
  obtain ⟨⟨cmd, env⟩, hsome⟩ := Option.isSome_iff_exists.mp hcommand
  obtain ⟨reply, rfl⟩ := step_command h hsome
  exact command_spares config reply env hbusy (hspared hbusy (cmd, env) hsome)

theorem owned_init : Owned {} := by
  constructor
  · intro hactive
    cases hactive
  · exact Trace.always_nil

theorem own_within {action : Action} (h : action.within = true) (before : List Action) :
    OwnResponse before action := by
  cases action with
  | agentDone ok => cases h
  | _ => trivial

/-- The agent is told of a fetch of its own. -/
theorem Owned.told_append (h : Owned k) {done : List Action} (htold : Told k done) :
    Trace.Always OwnResponse (k.trace ++ done) := by
  rcases htold with rfl | ⟨hactive, -, rfl⟩
  · rw [List.append_nil]
    exact h.told
  · exact h.told.snoc (h.task hactive).2

theorem Owned.continues (h : Owned k) (hc : Continues k k') : Owned k' := by
  obtain ⟨new, htrace, hnew⟩ := hc.trace
  constructor
  · intro hactive
    obtain ⟨hbusy, s, after, hlast, howner⟩ := h.task (hc.taskActive ▸ hactive)
    refine ⟨fun hidle => hbusy (hc.idle.mp hidle), s, after ++ new, ?_, howner⟩
    rw [htrace]
    exact lastStart_append (fun action hmem => started_within (hnew action hmem)) hlast
  · rw [htrace]
    exact h.told.append fun action hmem => own_within (hnew action hmem)

theorem Owned.settled (h : Owned k) (hs : Settled k k') : Owned k' := by
  obtain ⟨done, htrace, htold⟩ := hs.trace
  constructor
  · intro hactive
    rcases hs.agent with ⟨hsame, hstate⟩ | ⟨-, hfree⟩
    · rw [hsame] at hactive
      obtain ⟨hbusy, s, after, hlast, howner⟩ := h.task hactive
      rw [hstate hactive, htrace]
      exact ⟨hbusy, s, after ++ done, lastStart_append htold.started hlast, howner⟩
    · rw [hfree] at hactive
      cases hactive
  · rw [htrace]
    exact h.told_append htold

/-- Only the agent starts a fetch while it has a task. -/
theorem launch_owner {p : Kernel} {owner : Owner} {target : Target} (h : Owned k)
    (hspared : Spared k event) (hl : Launching k p owner target)
    (hcommand : owner = .command → p.agent.taskActive = true →
      ∃ cmd, event.command.map Prod.fst = some cmd ∧ k.refuses cmd = false)
    (hactive : p.agent.taskActive = true) : owner = .agent := by
  rcases hl.agent with ⟨howner, hsame | hfree⟩ | ⟨howner, -⟩
  · have htask : k.agent.taskActive = true := hsame ▸ hactive
    have hbusy : k.busy = true := by
      simpa [Kernel.busy] using (h.task htask).1
    obtain ⟨cmd, hmap, hrefuses⟩ := hcommand howner hactive
    obtain ⟨⟨found, env⟩, hsome, rfl⟩ := Option.map_eq_some_iff.mp hmap
    have hspares := hspared hbusy (found, env) hsome
    cases found with
    | post url body => cases hspares
    | _ => simp [Kernel.refuses, hbusy] at hrefuses
  · rw [hfree] at hactive
    cases hactive
  · exact howner

theorem owned_step (h : Owned k) (hspared : Spared k event) (hstep : KernelStep config k event k') :
    Owned k' := by
  rcases hstep.continues with hcontinues | hout
  · exact h.continues hcontinues
  cases hout with
  | settled hs => exact h.settled hs
  | @launched p owner env target reply redirectStart hl _ hcommand =>
    obtain ⟨done, htrace, htold⟩ := hl.trace
    constructor
    · intro hactive
      exact ⟨launch_busy p config owner env target reply redirectStart, _, _,
        lastStart_launch p config owner env target reply redirectStart,
        launch_owner h hspared hl hcommand hactive⟩
    · change Trace.Always OwnResponse (p.trace ++ [_])
      rw [htrace]
      exact (h.told_append htold).snoc trivial

/-- In every run in which no command writes the request of a fetch in flight, commands leave it alone
and the agent is told of its own requests only. -/
theorem busy_isolated (hk : ((kernelMachine config).restrict Spared).Reachable k) :
    Isolated ((kernelMachine config).restrict Spared) k := by
  have howned : Owned k := by
    apply hk.invariant
    · rintro _ rfl
      exact owned_init
    · intro k event h hallowed
      exact owned_step h hallowed.2 (kernel_step (Machine.ofChecked_step hallowed.1).2)
  constructor
  · intro event hallowed hbusy hrejects
    have hcommand : event.command.isSome := by
      unfold Kernel.rejects at hrejects
      cases hcmd : event.command with
      | none =>
        rw [hcmd] at hrejects
        cases hrejects
      | some command => rfl
    have hsame := step_spared (Machine.ofChecked_step hallowed.1).2 hbusy hallowed.2 hcommand
    exact ⟨congrArg Kernel.request hsame, congrArg Kernel.conn hsame⟩
  · exact howned.told

section Runs

def isolationConfig : Config := ⟨false, false, 1080, 8090⟩

def commandEnv (agent : Option (List AgentStart)) : CommandEnv :=
  ⟨⟨0, true, true, 0⟩, none, none, agent⟩

/-- A POST is in flight. -/
def postRun : List Event :=
  [.line (ascii "post http://a.com/log hello") (commandEnv none)]

/-- The request of a POST in flight turns into a GET when a URL is refused. -/
theorem refused_url_rewrites : ¬ ∀ (config : Config) (k : Kernel),
    (kernelMachine config).Reachable k → Isolated (kernelMachine config) k := by
  intro h
  let k := (kernelMachine isolationConfig).run {} postRun
  let event : Event := .line (ascii "http://b.com/") (commandEnv none)
  have hk : (kernelMachine isolationConfig).Reachable k :=
    Machine.Reachable.run (.init rfl)
      (show (kernelMachine isolationConfig).Allows {} postRun by decide +kernel)
  have hallowed : (kernelMachine isolationConfig).allowed k event := by
    decide +kernel
  have hbusy : k.busy = true := by
    decide +kernel
  have hrejects : k.rejects event = true := by
    decide +kernel
  have hchanged : ((kernelMachine isolationConfig).step k event).request ≠ k.request := by
    decide +kernel
  exact hchanged ((h isolationConfig k hk).inFlight event hallowed hbusy hrejects).1

/-- A task of the agent, and a command that is refused. -/
def taskRun : List Event :=
  [.line (ascii "{}") (commandEnv (some
      [⟨⟨0, true, true, 0⟩, .fetchSource, .url (ascii "http://a.com/") none⟩])),
    .line (ascii "sync") (commandEnv none)]

theorem busy_isolated_task :
    let k := (kernelMachine isolationConfig).run {} taskRun
    k.busy ∧ k.agent.taskActive ∧ Isolated ((kernelMachine isolationConfig).restrict Spared) k := by
  intro k
  have hk : ((kernelMachine isolationConfig).restrict Spared).Reachable k :=
    Machine.Reachable.run (.init rfl)
      (show ((kernelMachine isolationConfig).restrict Spared).Allows {} taskRun by decide +kernel)
  have hbusy : k.busy = true := by
    decide +kernel
  have htask : k.agent.taskActive = true := by
    decide +kernel
  exact ⟨hbusy, htask, busy_isolated hk⟩

end Runs

end MiniAgentOS.Fetch
