import MiniAgentOS.Fetch.KernelSteps

/-! Credentials stay with the hosts that they are for. -/
namespace MiniAgentOS.Fetch
open Checked Net Http

/-- A credential in the request goes to its host, over TLS. -/
def Request.Confined (request : Request) : Prop :=
  ∀ credential, request.extraHeader = some credential →
    request.https ∧ request.domain = credential.kind.host

/-- The request that is kept is confined and its credential one of OAuth, which no redirect follows;
and so were all requests that were built. -/
structure Confinement (k : Kernel) : Prop where
  held : k.request.Confined
  oauth : k.request.extraHeader ≠ none → k.request.oauthActive = true
  redirect : k.redirect.pending → k.request.oauthActive = false
  built : ∀ request, .buildRequest request ∈ k.trace → request.Confined

variable {config : Config} {k k' : Kernel}

theorem confinement_init : Confinement {} := by
  constructor
  · intro credential h
    cases h
  · exact fun h => absurd rfl h
  · exact fun _ => rfl
  · exact fun request h => absurd h List.not_mem_nil

/-- A step that keeps the request, opens no redirect of OAuth and builds no other request. -/
theorem Confinement.frame (h : Confinement k) (hrequest : k'.request = k.request)
    (hpending : k'.redirect.pending → k.redirect.pending ∨ k.request.oauthActive = false)
    (hbuilt : ∀ request, .buildRequest request ∈ k'.trace →
      .buildRequest request ∈ k.trace ∨ request = k.request) : Confinement k' := by
  constructor
  · rw [hrequest]
    exact h.held
  · rw [hrequest]
    exact h.oauth
  · intro hp
    rw [hrequest]
    exact (hpending hp).elim h.redirect id
  · intro request hmem
    rcases hbuilt request hmem with hold | rfl
    · exact h.built request hold
    · exact h.held

theorem Told.no_build {done : List Action} (h : Told k done) (request : Request) :
    .buildRequest request ∉ done := by
  rcases h with rfl | ⟨-, -, rfl⟩
  · exact List.not_mem_nil
  · simp

theorem confinement_outcome {attempt : Option (StartEnv × Target)} {command : Option Command}
    (h : Confinement k) (hout : Outcome config attempt command k k') : Confinement k' := by
  cases hout with
  | settled hs =>
    obtain ⟨done, htrace, htold⟩ := hs.trace
    have hsame : k'.request.extraHeader ≠ none →
        k'.request.extraHeader = k.request.extraHeader := fun hne => hs.header.resolve_left hne
    constructor
    · intro credential hcredential
      have hne : k'.request.extraHeader ≠ none := by
        rw [hcredential]
        exact Option.some_ne_none _
      obtain ⟨hhttps, hhost⟩ := h.held credential ((hsame hne).symm.trans hcredential)
      exact ⟨hs.aim.https.trans hhttps, hs.aim.domain.trans hhost⟩
    · intro hne
      rw [hs.kept hne]
      exact h.oauth ((hsame hne) ▸ hne)
    · intro hpending
      have hoff := h.redirect (hs.pending hpending)
      by_contra hon
      have hactive := hs.oauth (by simpa using hon)
      rw [hoff] at hactive
      cases hactive
    · intro request hmem
      rw [htrace] at hmem
      rcases List.mem_append.mp hmem with hold | hnew
      · exact h.built request hold
      · exact absurd hnew (htold.no_build request)
  | @launched p owner env target reply redirectStart hl _ _ =>
    obtain ⟨done, htrace, htold⟩ := hl.trace
    have hheader : ∀ credential, p.request.extraHeader = some credential →
        target.https ∧ target.domain = credential.kind.host ∧ p.request.oauthActive := by
      intro credential hcredential
      rcases hl.header credential hcredential with hown | ⟨hpending, hactive⟩
      · exact hown
      · rw [h.redirect hpending] at hactive
        cases hactive
    constructor
    · intro credential hcredential
      obtain ⟨hhttps, hhost, -⟩ := hheader credential hcredential
      exact ⟨hhttps, hhost⟩
    · intro hne
      obtain ⟨credential, hcredential⟩ := Option.ne_none_iff_exists'.mp hne
      exact (hheader credential hcredential).2.2
    · intro hpending
      cases hpending
    · intro request hmem
      have hmem' : .buildRequest request ∈ p.trace ++ [.start owner (p.request.aim target) p.dnsCache
        env.now] := hmem
      rw [htrace] at hmem'
      simp only [List.mem_append, List.mem_singleton, reduceCtorEq, or_false] at hmem'
      exact hmem'.elim (h.built request) fun hnew => absurd hnew (htold.no_build request)

theorem Confinement.feeds {pieces : List Bytes} (h : Confinement k) (hfeeds : Feeds k pieces k')
    (conn : Conn) : Confinement { k' with conn } := by
  apply Confinement.frame h
  · exact hfeeds.request
  · exact hfeeds.pending
  intro request hmem
  change _ ∈ k'.trace at hmem
  rw [hfeeds.trace] at hmem
  exact .inl (by simpa using hmem)

theorem confinement_segment {seg : TcpSegment} {env : SegmentEnv} (h : Confinement k)
    (hstep : SegmentStep k seg env k') : Confinement k' := by
  cases hstep with
  | ignored => exact h
  | synAck => exact h.frame rfl .inl (by simp +contextual)
  | socksHello => exact h.frame rfl .inl fun request => .inl
  | socksConnect => exact h.frame rfl .inl fun request => .inl
  | http state accepts feeds => exact h.feeds feeds _

theorem confinement_tick {request : Request} {env : TickEnv} {r : TickResult} (h : Confinement k)
    (hrequest : k.request = request) (hstep : TickStep request k.conn env.now r) :
    Confinement { k with conn := r.conn, trace := k.trace ++ r.actions } := by
  apply Confinement.frame h
  · rfl
  · exact .inl
  intro built hmem
  rcases List.mem_append.mp hmem with hold | hnew
  · exact .inl hold
  · cases hstep with
    | restart => simp at hnew
    | progress hprogress => exact .inr ((hprogress.actions _ hnew).1.trans hrequest.symm)

theorem confinement_tlsSends (h : Confinement k) (c conn : Conn) (sends : List TlsSend) :
    Confinement { k with conn, trace := k.trace ++ (tlsSendAll c sends).2 } := by
  apply Confinement.frame h
  · rfl
  · exact .inl
  intro request hmem
  rcases List.mem_append.mp hmem with hold | hnew
  · exact .inl hold
  · obtain ⟨seq, data, queued, hdata⟩ := tlsSendAll_sendData _ _ _ hnew
    cases hdata

theorem confinement_step {event : Event} (h : Confinement k) (hstep : KernelStep config k event k') :
    Confinement k' := by
  cases hstep with
  | arp gateway dns =>
    unfold Kernel.receiveArp
    split_ifs
    · exact h.frame rfl .inl fun request => .inl
    · exact h.frame rfl .inl fun request => .inl
    · exact h
  | dns hdns =>
    cases hdns with
    | ignored => exact h
    | resolved => exact h.frame rfl .inl (by simp +contextual)
    | tooLarge => exact h.frame rfl .inl fun request => .inl
  | segment hsegment => exact confinement_segment h hsegment
  | outcome hout => exact confinement_outcome h hout
  | tick _ hstep _ => exact confinement_tick h rfl hstep
  | read _ _ _ _ _ begin feeds _ _ =>
    subst begin
    exact (confinement_tlsSends h _ _ _).feeds feeds _
  | reply => exact h.frame rfl .inl fun request => .inl

theorem requests_confined (hk : (kernelMachine config).Reachable k) : Confinement k := by
  apply hk.invariant
  · rintro _ rfl
    exact confinement_init
  · intro k event h hallowed
    exact confinement_step h (kernel_step (Machine.ofChecked_step hallowed).2)

section Tweet

/-- A tweet over the proxy, from the command to its request. -/
def tweetRun : List Event :=
  let env : TickEnv := ⟨10, true, true, [], .ok 0, []⟩
  let segmentEnv : SegmentEnv := ⟨10, true, true⟩
  let signed : Bytes × Bytes := (ascii "{}", ascii "Authorization: OAuth")
  [.line (ascii "tweet hi") ⟨⟨0, true, true, 0⟩, none, some signed, none⟩,
    .tick env,
    .segment ⟨hostIp, 1080, 40000, 7, 0x1001, 0x12, []⟩ segmentEnv,
    .tick { env with now := 100 },
    .segment ⟨hostIp, 1080, 40000, 8, 0x1004, 0x18, [5, 0]⟩ segmentEnv,
    .tick { env with now := 200 },
    .segment ⟨hostIp, 1080, 40000, 10, 0x1020, 0x18, [5, 0, 0, 1, 0, 0, 0, 0, 0, 0]⟩ segmentEnv,
    .tick { env with now := 300 },
    .tick { env with now := 400 }]

def tweetConfig : Config := ⟨true, false, 1080, 8090⟩

end Tweet

end MiniAgentOS.Fetch
