import MiniAgentOS.Agent.Loop

/-! The pauses of the session agent: before it asks the model again, and between two turns. -/
namespace MiniAgentOS.Agent
open Checked

section Timer

def ticksToMs (ticks freqHz : ℕ) : ℕ := if freqHz = 0 then 0 else saturatingMul ticks 1000 / freqHz

/-- The count that `delay_ms` waits for. -/
def delayTarget (freqHz start ms : ℕ) : ℕ := saturatingAdd start (saturatingMul ms freqHz / 1000)

/-- When a wait begins and when it is over. -/
structure Delay where
  start : ℕ
  stop : ℕ
  deriving DecidableEq, Repr

/-- A wait of `delay_ms`, which is not called for no time at all. -/
def Delay.Lasts (freqHz ms : ℕ) (d : Delay) : Prop :=
  d.start ≤ d.stop ∧ (ms ≠ 0 → delayTarget freqHz d.start ms ≤ d.stop)

/-- Counts for which no product saturates: the first nine years of a counter at 62.5 MHz. -/
def counterLimit : ℕ := 2 ^ 54

/-- A time in milliseconds is reached, but for a tick. -/
def Reached (freqHz ms tick : ℕ) : Prop := freqHz * ms < 1000 * (tick + 1)

variable {freqHz ms read tick tick' due : ℕ} {d : Delay}

theorem ticksToMs_eq (hfreq : 0 < freqHz) (htick : tick ≤ counterLimit) : ticksToMs tick freqHz = 1000 * tick / freqHz := by
  have hlimit : counterLimit = 2 ^ 54 := rfl
  have hproduct : saturatingMul tick 1000 = 1000 * tick := by
    unfold saturatingMul
    omega
  rw [ticksToMs, if_neg hfreq.ne', hproduct]

theorem ticksToMs_mono (hfreq : 0 < freqHz) (hle : tick ≤ tick') (htick : tick' ≤ counterLimit) :
    ticksToMs tick freqHz ≤ ticksToMs tick' freqHz := by
  rw [ticksToMs_eq hfreq (hle.trans htick), ticksToMs_eq hfreq htick]
  exact Nat.div_le_div_right (Nat.mul_le_mul_left 1000 hle)

theorem ticksToMs_le (hfreq : 0 < freqHz) (htick : tick ≤ counterLimit) : ticksToMs tick freqHz ≤ 1000 * counterLimit := by
  rw [ticksToMs_eq hfreq htick]
  exact (Nat.div_le_self _ _).trans (Nat.mul_le_mul_left 1000 htick)

/-- A wait lasts as long as it should, but for a tick. -/
theorem Delay.Lasts.waited (h : d.Lasts freqHz ms) (hms : ms ≤ 5000) (hfreq : freqHz < 2 ^ 32) (hstop : d.stop ≤ counterLimit) :
    1000 * d.start + ms * freqHz < 1000 * (d.stop + 1) := by
  have hlimit : counterLimit = 2 ^ 54 := rfl
  have hproduct : ms * freqHz ≤ 5000 * 2 ^ 32 := Nat.mul_le_mul hms hfreq.le
  by_cases hzero : ms = 0
  · rw [hzero, Nat.zero_mul]
    have := h.1
    omega
  · have htarget := h.2 hzero
    unfold delayTarget saturatingAdd saturatingMul at htarget
    omega

/-- A wait for a time that was taken from the counter before it. -/
theorem Delay.Lasts.reached (h : d.Lasts freqHz (due - ticksToMs read freqHz)) (hread : read ≤ d.start)
    (hms : due ≤ ticksToMs read freqHz + 5000) (hpos : 0 < freqHz) (hfreq : freqHz < 2 ^ 32)
    (hstop : d.stop ≤ counterLimit) : Reached freqHz due d.stop := by
  have hwaited := h.waited (by omega) hfreq hstop
  have hnow : freqHz * ticksToMs read freqHz ≤ 1000 * read := by
    rw [ticksToMs_eq hpos ((hread.trans h.1).trans hstop)]
    exact Nat.mul_div_le _ _
  have hdue : freqHz * due ≤ freqHz * ticksToMs read freqHz + (due - ticksToMs read freqHz) * freqHz := by
    rw [Nat.mul_comm _ freqHz, ← Nat.mul_add]
    exact Nat.mul_le_mul_left freqHz (by omega)
  unfold Reached
  omega

theorem Reached.mono (h : Reached freqHz due tick) (hle : ms ≤ due) : Reached freqHz ms tick :=
  Nat.lt_of_le_of_lt (Nat.mul_le_mul_left freqHz hle) h

end Timer

section Pacer

def m4UserTurnCooldownMs : ℕ := 3000

def m4UserTurnFailureCooldownMs : ℕ := 10000

def m4M5BridgeOpenaiCooldownMs : ℕ := 900

def m4RetryBackoffMs : ℕ → ℕ
  | 0 | 1 => 700
  | 2 => 1600
  | 3 => 3200
  | _ => 5000

/-- `M4_OPENAI_COOLDOWN_UNTIL_MS` and `M4_USER_TURN_COOLDOWN_UNTIL_MS`. -/
structure Pacer where
  openaiUntil : ℕ := 0
  userUntil : ℕ := 0
  deriving DecidableEq, Repr

def m4ScheduleOpenaiCooldown (now ms : ℕ) (p : Pacer) : Pacer :=
  if p.openaiUntil < saturatingAdd now ms then { p with openaiUntil := saturatingAdd now ms } else p

def m4ScheduleUserTurnCooldown (now : ℕ) (p : Pacer) : Pacer :=
  { p with userUntil := saturatingAdd now m4UserTurnCooldownMs }

def m4ScheduleUserTurnFailureCooldown (now : ℕ) (p : Pacer) : Pacer :=
  if p.userUntil < saturatingAdd now m4UserTurnFailureCooldownMs then
    { p with userUntil := saturatingAdd now m4UserTurnFailureCooldownMs } else p

/-- `m4_mark_retryable_openai_failure`, which takes the time twice. -/
def m4MarkRetryableOpenaiFailure (now now' : ℕ) (p : Pacer) : Pacer :=
  m4ScheduleUserTurnFailureCooldown now'
    { p with openaiUntil := saturatingAdd now (m4RetryBackoffMs (m4OpenaiMaxRetries + 1)) }

/-- What `m4_prepare_openai_attempt` waits for behind the cooldown. -/
def attemptBackoffMs (retries : ℕ) : ℕ := if retries = 0 then 0 else m4RetryBackoffMs retries

/-- A turn begins, the model is about to be asked, a tool of the bridge is done, a turn ends with a failure after the
last retry, or otherwise; with the counts at which each takes the time. -/
inductive PaceEvent where
  | turn (read : ℕ) (cooldown : Delay)
  | attempt (retries read : ℕ) (cooldown backoff : Delay)
  | bridged (read : ℕ)
  | exhausted (read read' read'' : ℕ)
  | finished (read : ℕ)
  deriving DecidableEq, Repr

/-- The pacer and the count after the last event. `dues` and `ended` are no globals: the times that were set for the
model since it was last asked, and when the last turn ended if none has begun since. -/
structure PaceState where
  tick : ℕ := 0
  pacer : Pacer := {}
  dues : List ℕ := []
  ended : Option ℕ := none

variable (freqHz : ℕ)

/-- The counter does not go back, and the waits last. -/
def PaceEvent.Possible (s : PaceState) : PaceEvent → Prop
  | .turn read cooldown => s.tick ≤ read ∧ read ≤ cooldown.start ∧
      cooldown.Lasts freqHz (s.pacer.userUntil - ticksToMs read freqHz) ∧ cooldown.stop ≤ counterLimit
  | .attempt retries read cooldown backoff => s.tick ≤ read ∧ read ≤ cooldown.start ∧
      cooldown.Lasts freqHz (s.pacer.openaiUntil - ticksToMs read freqHz) ∧ cooldown.stop ≤ backoff.start ∧
      backoff.Lasts freqHz (attemptBackoffMs retries) ∧ backoff.stop ≤ counterLimit
  | .bridged read => s.tick ≤ read ∧ read ≤ counterLimit
  | .exhausted read read' read'' => s.tick ≤ read ∧ read ≤ read' ∧ read' ≤ read'' ∧ read'' ≤ counterLimit
  | .finished read => s.tick ≤ read ∧ read ≤ counterLimit

def paceStep (s : PaceState) : PaceEvent → PaceState
  | .turn _ cooldown => { s with tick := cooldown.stop, pacer := { s.pacer with userUntil := 0 }, ended := none }
  | .attempt _ _ _ backoff => { s with tick := backoff.stop, pacer := { s.pacer with openaiUntil := 0 }, dues := [] }
  | .bridged read => { s with
      tick := read
      pacer := m4ScheduleOpenaiCooldown (ticksToMs read freqHz) m4M5BridgeOpenaiCooldownMs s.pacer
      dues := (ticksToMs read freqHz + m4M5BridgeOpenaiCooldownMs) :: s.dues }
  | .exhausted read read' read'' => { s with
      tick := read''
      pacer := m4ScheduleUserTurnCooldown (ticksToMs read'' freqHz)
        (m4MarkRetryableOpenaiFailure (ticksToMs read freqHz) (ticksToMs read' freqHz) s.pacer)
      dues := (ticksToMs read freqHz + m4RetryBackoffMs (m4OpenaiMaxRetries + 1)) :: s.dues
      ended := some read'' }
  | .finished read => { s with
      tick := read
      pacer := m4ScheduleUserTurnCooldown (ticksToMs read freqHz) s.pacer
      ended := some read }

/-- The calls of the pacer, in any order. -/
def pacing : Machine PaceState PaceEvent where
  init s := s = {}
  allowed s event := event.Possible freqHz s
  step := paceStep freqHz

end Pacer

section Pauses

variable {freqHz : ℕ} {s : PaceState} {event : PaceEvent}

/-- What an event waits for: a turn begins three seconds after the last one ended, and the model is asked after all times
that were set for it and, once more, after the backoff of the retry. -/
def KeepsPauses (freqHz : ℕ) (s : PaceState) : PaceEvent → Prop
  | .turn _ cooldown => ∀ t ∈ s.ended, Reached freqHz (ticksToMs t freqHz + m4UserTurnCooldownMs) cooldown.stop
  | .attempt retries _ cooldown backoff => (∀ due ∈ s.dues, Reached freqHz due cooldown.stop) ∧
      1000 * cooldown.stop + attemptBackoffMs retries * freqHz < 1000 * (backoff.stop + 1)
  | _ => True

structure Pacing (freqHz : ℕ) (s : PaceState) : Prop where
  tick : s.tick ≤ counterLimit
  dues : ∀ due ∈ s.dues, due ≤ s.pacer.openaiUntil
  model : s.pacer.openaiUntil ≤ ticksToMs s.tick freqHz + 5000
  ended : ∀ t ∈ s.ended, t ≤ s.tick
  user : s.pacer.userUntil = (s.ended.map fun t => ticksToMs t freqHz + m4UserTurnCooldownMs).getD 0

theorem saturatingAdd_time {tick ms : ℕ} (hfreq : 0 < freqHz) (htick : tick ≤ counterLimit) (hms : ms ≤ 10000) :
    saturatingAdd (ticksToMs tick freqHz) ms = ticksToMs tick freqHz + ms := by
  have hlimit : counterLimit = 2 ^ 54 := rfl
  have hle := ticksToMs_le hfreq htick
  unfold saturatingAdd
  omega

theorem attemptBackoffMs_le (retries : ℕ) : attemptBackoffMs retries ≤ 5000 := by
  unfold attemptBackoffMs m4RetryBackoffMs
  split_ifs
  · exact Nat.zero_le _
  · split <;> decide

theorem Pacing.step (h : Pacing freqHz s) (hpos : 0 < freqHz) (hpossible : event.Possible freqHz s) : Pacing freqHz (paceStep freqHz s event) := by
  have hmono : ∀ {read}, s.tick ≤ read → read ≤ counterLimit → ticksToMs s.tick freqHz ≤ ticksToMs read freqHz :=
    fun hle hlimit => ticksToMs_mono hpos hle hlimit
  have hbackoff : m4RetryBackoffMs (m4OpenaiMaxRetries + 1) = 5000 := rfl
  have hbridge : m4M5BridgeOpenaiCooldownMs = 900 := rfl
  have huser : m4UserTurnCooldownMs = 3000 := rfl
  cases event with
  | turn read cooldown =>
    obtain ⟨hread, hstart, hlasts, hstop⟩ := hpossible
    have htick : s.tick ≤ cooldown.stop := (hread.trans hstart).trans hlasts.1
    exact ⟨hstop, h.dues, h.model.trans (Nat.add_le_add_right (hmono htick hstop) 5000), nofun, rfl⟩
  | attempt retries read cooldown backoff =>
    obtain ⟨hread, hstart, hlasts, hnext, hagain, hstop⟩ := hpossible
    have htick : s.tick ≤ backoff.stop :=
      (((hread.trans hstart).trans hlasts.1).trans hnext).trans hagain.1
    exact ⟨hstop, nofun, Nat.zero_le _, fun t ht => (h.ended t ht).trans htick, h.user⟩
  | bridged read =>
    obtain ⟨hread, hlimit⟩ := hpossible
    have hnow := hmono hread hlimit
    have hmodel := h.model
    have htime := saturatingAdd_time hpos hlimit (by decide : m4M5BridgeOpenaiCooldownMs ≤ 10000)
    have huntil : (paceStep freqHz s (.bridged read)).pacer.openaiUntil =
        max s.pacer.openaiUntil (ticksToMs read freqHz + m4M5BridgeOpenaiCooldownMs) := by
      simp only [paceStep, m4ScheduleOpenaiCooldown, htime]
      split_ifs with hless
      · exact (max_eq_right hless.le).symm
      · exact (max_eq_left (not_lt.mp hless)).symm
    have hkept : (paceStep freqHz s (.bridged read)).pacer.userUntil = s.pacer.userUntil := by
      simp only [paceStep, m4ScheduleOpenaiCooldown]
      split_ifs <;> rfl
    refine ⟨hlimit, ?_, ?_, fun t ht => (h.ended t ht).trans hread, hkept.trans h.user⟩
    · rw [huntil]
      intro due hdue
      rcases List.mem_cons.mp hdue with rfl | hold
      · exact le_max_right _ _
      · exact (h.dues due hold).trans (le_max_left _ _)
    · rw [huntil]
      change _ ≤ ticksToMs read freqHz + 5000
      omega
  | exhausted read read' read'' =>
    obtain ⟨hread, hread', hread'', hlimit⟩ := hpossible
    have hfirst := (hread'.trans hread'').trans hlimit
    have hnow := hmono hread hfirst
    have hlater := ticksToMs_mono hpos (hread'.trans hread'') hlimit
    have hmodel := h.model
    have htime := saturatingAdd_time hpos hfirst (by decide : m4RetryBackoffMs (m4OpenaiMaxRetries + 1) ≤ 10000)
    have hended := saturatingAdd_time hpos hlimit (by decide : m4UserTurnCooldownMs ≤ 10000)
    have huntil : (paceStep freqHz s (.exhausted read read' read'')).pacer.openaiUntil =
        ticksToMs read freqHz + m4RetryBackoffMs (m4OpenaiMaxRetries + 1) := by
      rw [← htime]
      simp only [paceStep, m4ScheduleUserTurnCooldown, m4MarkRetryableOpenaiFailure, m4ScheduleUserTurnFailureCooldown]
      split_ifs <;> rfl
    refine ⟨hlimit, ?_, ?_, ?_, hended⟩
    · rw [huntil]
      intro due hdue
      rcases List.mem_cons.mp hdue with rfl | hold
      · exact le_rfl
      · have := h.dues due hold
        omega
    · rw [huntil]
      change _ ≤ ticksToMs read'' freqHz + 5000
      omega
    · intro t ht
      obtain rfl := Option.some.inj ht
      exact le_rfl
  | finished read =>
    obtain ⟨hread, hlimit⟩ := hpossible
    have hended := saturatingAdd_time hpos hlimit (by decide : m4UserTurnCooldownMs ≤ 10000)
    have hmodel := h.model.trans (Nat.add_le_add_right (hmono hread hlimit) 5000)
    constructor
    · exact hlimit
    · simpa only [paceStep, m4ScheduleUserTurnCooldown] using h.dues
    · simpa only [paceStep, m4ScheduleUserTurnCooldown] using hmodel
    · intro t ht
      obtain rfl := Option.some.inj ht
      exact le_rfl
    · exact hended

theorem Pacing.keepsPauses (h : Pacing freqHz s) (hpos : 0 < freqHz) (hfreq : freqHz < 2 ^ 32)
    (hpossible : event.Possible freqHz s) : KeepsPauses freqHz s event := by
  cases event with
  | turn read cooldown =>
    obtain ⟨hread, hstart, hlasts, hstop⟩ := hpossible
    intro t ht
    have huser := h.user
    rw [ht] at huser
    change s.pacer.userUntil = ticksToMs t freqHz + m4UserTurnCooldownMs at huser
    have hnow : ticksToMs t freqHz ≤ ticksToMs read freqHz :=
      ticksToMs_mono hpos ((h.ended t ht).trans hread) ((hstart.trans hlasts.1).trans hstop)
    have hcooldown : m4UserTurnCooldownMs = 3000 := rfl
    rw [← huser]
    exact hlasts.reached hstart (by omega) hpos hfreq hstop
  | attempt retries read cooldown backoff =>
    obtain ⟨hread, hstart, hlasts, hnext, hagain, hstop⟩ := hpossible
    have hfirst := (hnext.trans hagain.1).trans hstop
    have hnow : ticksToMs s.tick freqHz ≤ ticksToMs read freqHz :=
      ticksToMs_mono hpos hread ((hstart.trans hlasts.1).trans hfirst)
    have hmodel := h.model
    have hreached : Reached freqHz s.pacer.openaiUntil cooldown.stop :=
      hlasts.reached hstart (by omega) hpos hfreq hfirst
    refine ⟨fun due hdue => hreached.mono (h.dues due hdue), ?_⟩
    have hwaited := hagain.waited (attemptBackoffMs_le retries) hfreq hstop
    omega
  | bridged read => trivial
  | exhausted read read' read'' => trivial
  | finished read => trivial

/-- In any order of the calls every pause is kept, no pause is longer than five seconds, and a turn never waits for more
than three seconds after the last one: the longer cooldown that a failure sets is always written over before the next
turn. -/
theorem pauses_kept (hpos : 0 < freqHz) (hfreq : freqHz < 2 ^ 32) (h : (pacing freqHz).Reachable s) :
    (∀ event, (pacing freqHz).allowed s event → KeepsPauses freqHz s event) ∧
      s.pacer.openaiUntil ≤ ticksToMs s.tick freqHz + 5000 ∧
      s.pacer.userUntil = (s.ended.map fun t => ticksToMs t freqHz + m4UserTurnCooldownMs).getD 0 := by
  have hpacing : Pacing freqHz s := by
    apply h.invariant
    · rintro _ rfl
      exact ⟨Nat.zero_le _, nofun, Nat.zero_le _, nofun, rfl⟩
    · exact fun s event hs hpossible => hs.step hpos hpossible
  exact ⟨fun event hpossible => hpacing.keepsPauses hpos hfreq hpossible, hpacing.model, hpacing.user⟩

def failedRun : List PaceEvent := [.bridged 500, .exhausted 1000 1001 1002]

theorem failedRun_allowed : (pacing 62500000).Allows {} failedRun :=
  ⟨⟨by decide, by decide⟩, ⟨by decide, by decide, by decide, by decide⟩, trivial⟩

theorem pauses_kept_failed :
    (∀ event, (pacing 62500000).allowed ((pacing 62500000).run {} failedRun) event →
        KeepsPauses 62500000 ((pacing 62500000).run {} failedRun) event) ∧
      ((pacing 62500000).run {} failedRun).pacer.openaiUntil ≤
        ticksToMs ((pacing 62500000).run {} failedRun).tick 62500000 + 5000 ∧
      ((pacing 62500000).run {} failedRun).pacer.userUntil =
        (((pacing 62500000).run {} failedRun).ended.map fun t => ticksToMs t 62500000 + m4UserTurnCooldownMs).getD 0 :=
  pauses_kept (by decide) (by decide) (.run (.init rfl) failedRun_allowed)

example : ((pacing 62500000).run {} failedRun).pacer = ⟨5000, 3000⟩ := by decide

end Pauses

end MiniAgentOS.Agent
