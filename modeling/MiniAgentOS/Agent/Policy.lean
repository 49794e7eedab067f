import MiniAgentOS.Fetch.Outcome
import MiniAgentOS.Text.Json

/-! The policy of a task: the skills and hosts that it allows, and the private addresses that no task reaches
without naming them. -/
namespace MiniAgentOS.Agent
open Checked Fetch Net

section Addresses

/-- The digits of an octet, with the value so far and whether there was a digit: the octet and what follows it. -/
def readOctet (value : ℕ) (saw : Bool) : Bytes → Option (UInt8 × Bytes)
  | [] => if saw then some (UInt8.ofNat value, []) else none
  | b :: rest =>
    if isDigit b then
      let next := pushDigit16 value b
      if 255 < next then none else readOctet next true rest
    else if saw then some (UInt8.ofNat value, b :: rest) else none

/-- The parts that are left, each but the last with a dot behind it. -/
def readOctets : ℕ → Bytes → Option (List UInt8 × Bytes)
  | 0, host => some ([], host)
  | parts + 1, host => do
    let (octet, rest) ← readOctet 0 false host
    if parts = 0 then some ([octet], rest)
    else
      let (octets, rest) ← readOctets parts (← skipDot rest)
      some (octet :: octets, rest)

def parseIpv4Octets (host : Bytes) : Option (List UInt8) := do
  let (octets, rest) ← readOctets 4 host
  if rest = [] then some octets else none

/-- The addresses 10/8, 127/8, 0/8, 169.254/16, 172.16/12 and 192.168/16. -/
def isPrivateIpv4 (host : Bytes) : Bool :=
  match parseIpv4Octets host with
  | none => false
  | some octets =>
    let first := octets[0]?.getD 0
    let second := octets[1]?.getD 0
    first == 10 || first == 127 || first == 0 || (first == 169 && second == 254) ||
      (first == 172 && (16 ≤ second && second ≤ 31)) || (first == 192 && second == 168)

end Addresses

section Policy

/-- `AGENT_TASK_JSON` and `AGENT_MAX_STEPS`. -/
structure Policy where
  task : Bytes
  maxSteps : ℕ
  deriving DecidableEq, Repr

def agentSkillAllowed (p : Policy) (skill : Bytes) : Checked Bool := do
  match ← jsonStringArrayContains p.task p.task.length (ascii "allowed_skills") skill with
  | some listed => pure listed
  | none => pure true

def agentAllowPublicHosts (p : Policy) : Checked Bool := do
  let allowed ← jsonExtractBool p.task p.task.length (ascii "allow_public_hosts")
  pure (allowed.getD false)

def agentHostAllowed (p : Policy) (url : Bytes) : Checked Bool := do
  match parseAgentUrl url with
  | none => pure false
  | some parts =>
    match ← jsonStringArrayContains p.task p.task.length (ascii "allowed_hosts") parts.host with
    | none => pure true
    | some true => pure true
    | some false =>
      let allowPublic ← agentAllowPublicHosts p
      pure (allowPublic && ! isPrivateIpv4 parts.host)

/-- Why a skill is denied. -/
inductive Denial where
  | skill
  | host
  | budget
  deriving DecidableEq, Repr

def denialReason : Denial → Bytes
  | .skill => ascii "skill denied by policy"
  | .host => ascii "host denied by policy"
  | .budget => ascii "step budget exceeded"

/-- `agent_policy_check`: the reason of a refusal. -/
def agentPolicyCheck (p : Policy) (skill : Bytes) (step : ℕ) (targetUrl : Option Bytes) : Checked (Option Denial) := do
  let skillAllowed ← agentSkillAllowed p skill
  if ! skillAllowed then pure (some .skill)
  else
    let hostAllowed ← match targetUrl with
      | some url => agentHostAllowed p url
      | none => pure true
    if ! hostAllowed then pure (some .host)
    else if p.maxSteps ≠ 0 ∧ p.maxSteps < step then pure (some .budget)
    else pure none

end Policy

section SameAddress

variable {buf : Bytes} {value : ℕ}

theorem pushDigit16_ge (value : ℕ) (b : UInt8) (h : 255 < value) : 255 < pushDigit16 value b := by
  unfold pushDigit16
  omega

theorem foldl_pushDigit16_ge (digits : Bytes) (h : 255 < value) : 255 < digits.foldl pushDigit16 value := by
  induction digits generalizing value with
  | nil => exact h
  | cons b digits ih => exact ih (pushDigit16_ge value b h)

/-- Reading digit by digit stops at the first value that is too large, as the value of all digits would be. -/
theorem readOctet_eq (hvalue : value ≤ 255) (saw : Bool) (buf : Bytes) : readOctet value saw buf =
    if (buf.takeWhile isDigit = [] ∧ saw = false) ∨ 255 < (buf.takeWhile isDigit).foldl pushDigit16 value then none
    else some (UInt8.ofNat ((buf.takeWhile isDigit).foldl pushDigit16 value), buf.dropWhile isDigit) := by
  induction buf generalizing value saw with
  | nil => cases saw <;> simp [readOctet, Nat.not_lt.mpr hvalue]
  | cons b rest ih =>
    by_cases hdigit : isDigit b = true
    · by_cases hlarge : 255 < pushDigit16 value b
      · simp [readOctet, hdigit, hlarge, foldl_pushDigit16_ge _ hlarge]
      · have hrest := ih (Nat.not_lt.mp hlarge) true
        simp [readOctet, hdigit, hlarge, hrest]
    · cases saw <;> simp [readOctet, hdigit, Nat.not_lt.mpr hvalue]

theorem readOctet_scan (buf : Bytes) : readOctet 0 false buf = scanOctet buf := by
  rw [readOctet_eq (by omega)]
  simp [scanOctet]

/-- The two parsers of addresses accept the same texts and read the same address. -/
theorem parseIpv4Octets_eq (host : Bytes) :
    parseIpv4Octets host = (parseIpv4Bytes host).map fun ip => [ip.a, ip.b, ip.c, ip.d] := by
  unfold parseIpv4Octets parseIpv4Bytes
  simp only [readOctets, readOctet_scan, Option.bind_eq_bind]
  rcases scanOctet host with _ | ⟨a, rest⟩
  · rfl
  rcases hb : skipDot rest with _ | rest
  · simp [hb]
  rcases hb' : scanOctet rest with _ | ⟨b, rest⟩
  · simp [hb, hb']
  rcases hc : skipDot rest with _ | rest
  · simp [hb, hb', hc]
  rcases hc' : scanOctet rest with _ | ⟨c, rest⟩
  · simp [hb, hb', hc, hc']
  rcases hd : skipDot rest with _ | rest
  · simp [hb, hb', hc, hc', hd]
  rcases hd' : scanOctet rest with _ | ⟨d, rest⟩
  · simp [hb, hb', hc, hc', hd, hd']
  · by_cases hend : rest = [] <;> simp [hb, hb', hc, hc', hd, hd', hend]

/-- The addresses 10/8, 127/8, 0/8, 169.254/16, 172.16/12 and 192.168/16. -/
def PrivateAddress (ip : Ipv4) : Prop :=
  ip.a = 10 ∨ ip.a = 127 ∨ ip.a = 0 ∨ (ip.a = 169 ∧ ip.b = 254) ∨ (ip.a = 172 ∧ 16 ≤ ip.b ∧ ip.b ≤ 31) ∨
    (ip.a = 192 ∧ ip.b = 168)

theorem isPrivateIpv4_iff {host : Bytes} {ip : Ipv4} (h : parseIpv4Bytes host = some ip) :
    isPrivateIpv4 host = true ↔ PrivateAddress ip := by
  simp [isPrivateIpv4, PrivateAddress, parseIpv4Octets_eq, h, or_assoc]

end SameAddress

section Direct

variable {config : Config} {k : Kernel} {start : AgentStart} {url : Bytes} {body : Option Bytes} {ip : Ipv4}
  {p : Policy}

/-- A connection to an address that the URL gives, over no proxy. -/
def ConnectsTo (c : Conn) (ip : Ipv4) : Prop := c.proxy = false ∧ c.haveFixedIp = true ∧ c.dstIp = ip

theorem start_connects {c : Conn} {env : StartEnv} {target : Target} {cached : Option Ipv4} {port : ℕ}
    (h : ConnectsTo (c.start config env target cached port) ip) : target.fixedIp = some ip := by
  obtain ⟨hproxy, hfixed, hip⟩ := h
  change useProxy config target = false at hproxy
  change target.fixedIp.isSome = true at hfixed
  obtain ⟨fixed, hsome⟩ := Option.isSome_iff_exists.mp hfixed
  rw [hsome, ← hip]
  simp [Conn.start, Conn.destination, hproxy, hsome]

theorem launch_connects {owner : Owner} {env : StartEnv} {target : Target} {reply : ReplyTo} {redirect : Bool}
    (h : ConnectsTo (k.launch config owner env target reply redirect).conn ip) : target.fixedIp = some ip := by
  unfold Kernel.launch at h
  dsimp only at h
  by_cases hreuse : (useProxy config target && reuseCandidate config target k) = true
  · rw [if_pos hreuse] at h
    cases h.1
  · rw [if_neg hreuse] at h
    exact start_connects h

/-- What a connection of `fetch_start_agent_url` to a given address says of the URL. -/
theorem agentStart_connects (hrequest : start.request = .url url body) (hstarted : (k.agentStart config start).2 = true)
    (h : ConnectsTo (k.agentStart config start).1.conn ip) :
    ∃ parts, parseAgentUrl url = some parts ∧ parts.fixedIp = some ip := by
  rcases agentStart_cases k config start with ⟨p, -, -, hstart⟩ | ⟨target, htarget, -, -, hstart⟩
  · rw [hstart] at hstarted
    cases hstarted
  · rw [hstart] at h
    have hfixed := launch_connects h
    rw [hrequest] at htarget
    obtain ⟨parts, hparts, rfl⟩ := Option.map_eq_some_iff.mp htarget
    exact ⟨parts, hparts, hfixed⟩

theorem parseAgentUrl_fixedIp {parts : AgentUrl} (h : parseAgentUrl url = some parts) :
    parts.fixedIp = parseIpv4Bytes parts.host := by
  unfold parseAgentUrl at h
  simp only [Option.bind_eq_bind, Option.bind_eq_some_iff] at h
  obtain ⟨scheme, -, authority, -, h⟩ := h
  split_ifs at h
  all_goals rw [← Option.some.inj h]

/-- The policy takes the host of a URL that is fetched from a private address for a private one, and denies it
where the task allows public hosts and does not list this one. -/
theorem private_address_denied (p : Policy) (hrequest : start.request = .url url body)
    (hstarted : (k.agentStart config start).2 = true) (hconnects : ConnectsTo (k.agentStart config start).1.conn ip)
    (hprivate : PrivateAddress ip) :
    ∃ parts, parseAgentUrl url = some parts ∧ isPrivateIpv4 parts.host = true ∧
      (jsonStringArrayContains p.task p.task.length (ascii "allowed_hosts") parts.host = .ok (some false) →
        agentHostAllowed p url = .ok false ∧ ∀ skill step, agentPolicyCheck p skill step (some url) ≠ .ok none) := by
  obtain ⟨parts, hparts, hfixed⟩ := agentStart_connects hrequest hstarted hconnects
  rw [parseAgentUrl_fixedIp hparts] at hfixed
  have hhost := (isPrivateIpv4_iff hfixed).mpr hprivate
  refine ⟨parts, hparts, hhost, ?_⟩
  intro hlisted
  have hdenied : agentHostAllowed p url = .ok false := by
    obtain ⟨allowPublic, hpublic, -⟩ : Returns (agentAllowPublicHosts p) fun _ => True := by
      unfold agentAllowPublicHosts
      exact returns_bind.mpr ((jsonExtractBool_returns le_rfl).mono fun _ _ => returns_pure.mpr trivial)
    simp [agentHostAllowed, hparts, hlisted, hpublic, hhost]
  refine ⟨hdenied, ?_⟩
  intro skill step hallowed
  unfold agentPolicyCheck at hallowed
  cases hskill : agentSkillAllowed p skill with
  | error trap => rw [hskill] at hallowed; cases hallowed
  | ok allowed =>
    rw [hskill] at hallowed
    cases allowed with
    | false => cases hallowed
    | true =>
      simp only [ok_bind, hdenied] at hallowed
      cases hallowed

/-- A request for an address of the host itself, with leading zeros in the address and a blank in front. -/
def loopbackStart : AgentStart where
  env := ⟨0, true, true, 0⟩
  phase := .m4FetchUrl
  request := .url (ascii " http://127.000.0.1:8090/workspace") none

def publicPolicy : Policy where
  task := ascii "\x7b\"allowed_hosts\":[],\"allow_public_hosts\":true\x7d"
  maxSteps := 0

theorem private_address_denied_loopback :
    agentHostAllowed publicPolicy (ascii " http://127.000.0.1:8090/workspace") = .ok false := by
  have hstarted : (({} : Kernel).agentStart ⟨false, false, 1080, 8090⟩ loopbackStart).2 = true := by decide
  have hconnects : ConnectsTo (({} : Kernel).agentStart ⟨false, false, 1080, 8090⟩ loopbackStart).1.conn
      ⟨127, 0, 0, 1⟩ := ⟨by decide, by decide, by decide⟩
  obtain ⟨parts, hparts, -, hdenied⟩ :=
    private_address_denied publicPolicy rfl hstarted hconnects (.inr (.inl rfl))
  have hurl : parseAgentUrl (ascii " http://127.000.0.1:8090/workspace") =
      some ⟨ascii "127.000.0.1", ascii "/workspace", false, 8090, some ⟨127, 0, 0, 1⟩⟩ := by decide
  obtain rfl := Option.some.inj (hurl.symm.trans hparts)
  exact (hdenied (by decide)).1

end Direct

end MiniAgentOS.Agent
