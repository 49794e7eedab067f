import MiniAgentOS.Text.Ascii

/-! `parse_url`: the URLs of commands and of redirects. -/
namespace MiniAgentOS
open Checked

structure UrlParts where
  domainStart : ℕ
  domainLen : ℕ
  pathStart : ℕ
  pathLen : ℕ
  https : Bool
  deriving DecidableEq, Repr

/-- The word `get` in front of a URL. -/
def skipGet (buf : Bytes) (stop start : ℕ) : Checked ℕ := do
  if ← startsWithAt buf stop start (ascii "get ") then skipWhile isSpace buf stop (start + 4)
  else pure start

/-- The scheme in front of a URL. -/
def skipScheme (buf : Bytes) (stop start : ℕ) : Checked (ℕ × Bool) := do
  if ← startsWithAt buf stop start (ascii "http://") then pure (start + 7, false)
  else if ← startsWithAt buf stop start (ascii "https://") then pure (start + 8, true)
  else pure (start, false)

/-- The scan over the domain: `none` at a character that a host name cannot have, else whether
there was a dot. -/
def scanDomain (buf : Bytes) (domainStart domainLen : ℕ) : Checked (Option Bool) :=
  loop (fun (j, dot) =>
    if j < domainLen then do
      let c ← index buf (domainStart + j)
      if c = 46 then pure (.next (j + 1, true))
      else if !isUrlHostChar c then pure (.done none)
      else pure (.next (j + 1, dot))
    else pure (.done (some dot))) (domainLen + 1) (0, false)

/-- Whether a domain may start or end with `c`. -/
def isDomainEdge (c : UInt8) : Bool := isUrlHostChar c && !(c == 46 || c == 45)

def isUrlPathStop (b : UInt8) : Bool := isSpace b || b == 47

/-- The path after the domain, possibly behind blanks. -/
def urlPath (buf : Bytes) (stop i : ℕ) : Checked (ℕ × ℕ) := do
  if ← testAt (· == 47) buf stop i then
    let p ← skipWhile (fun b => !isSpace b) buf stop i
    let len ← sub p i
    pure (i, len)
  else
    let p ← skipWhile isSpace buf stop i
    if ← testAt (· == 47) buf stop p then
      let q ← skipWhile (fun b => !isSpace b) buf stop p
      let len ← sub q p
      pure (p, len)
    else pure (0, 0)

/-- `parse_url` behind its scheme. -/
def parseUrlRest (buf : Bytes) (stop start : ℕ) (https : Bool) : Checked (Option UrlParts) := do
  if start ≥ stop then pure none
  else
    let i ← skipWhile (fun b => !isUrlPathStop b) buf stop start
    if i = start then pure none
    else
      let domainLen ← sub i start
      match ← scanDomain buf start domainLen with
      | none => pure none
      | some false => pure none
      | some true =>
        let first ← index buf start
        if !isDomainEdge first then pure none
        else
          let last ← sub (start + domainLen) 1
          let domainLast ← index buf last
          if !isDomainEdge domainLast then pure none
          else
            let (pathStart, pathLen) ← urlPath buf stop i
            pure (some ⟨start, domainLen, pathStart, pathLen, https⟩)

def parseUrl (buf : Bytes) (len : ℕ) : Checked (Option UrlParts) := do
  let start ← skipWhile isSpace buf len 0
  let stop ← trimEnd buf start len
  if start ≥ stop then pure none
  else
    let start ← skipGet buf stop start
    let (start, https) ← skipScheme buf stop start
    parseUrlRest buf stop start https

section Safety

variable {buf : Bytes} {start stop : ℕ}

theorem skipGet_returns (hstart : start ≤ stop) (hstop : stop ≤ buf.length) :
    Returns (skipGet buf stop start) fun i => start ≤ i ∧ i ≤ stop := by
  rw [skipGet, returns_bind]
  refine (startsWithAt_returns hstop).mono fun found hfound => ?_
  rw [returns_ite]
  refine ⟨fun htrue => ?_, fun _ => returns_pure.mpr ⟨le_rfl, hstart⟩⟩
  have hfits : start + 4 ≤ stop := hfound htrue
  exact (skipWhile_returns isSpace hfits hstop).mono fun i hi => by omega

theorem skipScheme_returns (hstart : start ≤ stop) (hstop : stop ≤ buf.length) :
    Returns (skipScheme buf stop start) fun r => start ≤ r.1 ∧ r.1 ≤ stop := by
  rw [skipScheme, returns_bind]
  refine (startsWithAt_returns hstop).mono fun http hhttp => ?_
  rw [returns_ite]
  refine ⟨fun htrue => ?_, fun _ => ?_⟩
  · have hfits : start + 7 ≤ stop := hhttp htrue
    rw [returns_pure]
    omega
  · rw [returns_bind]
    refine (startsWithAt_returns hstop).mono fun https hhttps => ?_
    rw [returns_ite]
    refine ⟨fun htrue => ?_, fun _ => returns_pure.mpr ⟨le_rfl, hstart⟩⟩
    have hfits : start + 8 ≤ stop := hhttps htrue
    rw [returns_pure]
    omega

theorem scanDomain_returns {domainStart domainLen : ℕ}
    (hlen : domainStart + domainLen ≤ buf.length) :
    Returns (scanDomain buf domainStart domainLen) fun _ => True := by
  refine returns_loop (fun _ => True) (fun s => domainLen - s.1) ?_ trivial (by simp)
  rintro ⟨j, dot⟩ -
  rw [returns_ite]
  refine ⟨fun hlt => ?_, fun _ => returns_pure.mpr trivial⟩
  rw [returns_bind]
  refine returns_index (by omega) fun c _ => ?_
  simp only [returns_ite, returns_pure, roundPost_next, roundPost_done, true_and, implies_true]
  constructor <;> intros <;> omega

theorem urlPath_returns {i : ℕ} (hi : i ≤ stop) (hstop : stop ≤ buf.length) :
    Returns (urlPath buf stop i) fun r => r.1 + r.2 ≤ stop := by
  rw [urlPath, returns_bind]
  refine (testAt_returns _ hstop).mono fun slash _ => ?_
  rw [returns_ite]
  refine ⟨fun _ => ?_, fun _ => ?_⟩
  · rw [returns_bind]
    refine (skipWhile_returns _ hi hstop).mono fun p hp => ?_
    rw [returns_bind, returns_sub, returns_pure]
    omega
  · rw [returns_bind]
    refine (skipWhile_returns _ hi hstop).mono fun p hp => ?_
    rw [returns_bind]
    refine (testAt_returns _ hstop).mono fun slash _ => ?_
    rw [returns_ite]
    refine ⟨fun _ => ?_, fun _ => returns_pure.mpr (Nat.zero_le _)⟩
    rw [returns_bind]
    refine (skipWhile_returns _ hp.2 hstop).mono fun q hq => ?_
    rw [returns_bind, returns_sub, returns_pure]
    omega

/-- The parts that `parse_url` returns lie within the text. -/
def UrlParts.Within (parts : UrlParts) (len : ℕ) : Prop :=
  parts.domainStart + parts.domainLen ≤ len ∧ parts.pathStart + parts.pathLen ≤ len

theorem parseUrlRest_returns {https : Bool} (hstop : stop ≤ buf.length) :
    Returns (parseUrlRest buf stop start https) fun r => ∀ parts, r = some parts →
      parts.Within stop := by
  have hnone : Returns (pure none : Checked (Option UrlParts)) fun r =>
      ∀ parts, r = some parts → parts.Within stop :=
    returns_pure.mpr fun _ h => by cases h
  rw [parseUrlRest, returns_ite]
  refine ⟨fun _ => hnone, fun hlt => ?_⟩
  rw [returns_bind]
  refine (skipWhile_returns _ (by omega) hstop).mono fun i hi => ?_
  rw [returns_ite]
  refine ⟨fun _ => hnone, fun hne => ?_⟩
  rw [returns_bind, returns_sub, returns_bind]
  refine ⟨hi.1, (scanDomain_returns (by omega)).mono fun dot _ => ?_⟩
  rcases dot with _ | _ | _
  · exact hnone
  · exact hnone
  · rw [returns_bind]
    refine returns_index (by omega) fun first _ => ?_
    rw [returns_ite]
    refine ⟨fun _ => hnone, fun _ => ?_⟩
    rw [returns_bind, returns_sub, returns_bind]
    refine ⟨by omega, returns_index (by omega) fun last _ => ?_⟩
    rw [returns_ite]
    refine ⟨fun _ => hnone, fun _ => ?_⟩
    rw [returns_bind]
    refine (urlPath_returns hi.2 hstop).mono fun path hpath => ?_
    rw [returns_pure]
    rintro parts ⟨⟩
    exact ⟨by dsimp only; omega, hpath⟩

theorem parseUrl_returns {len : ℕ} (hlen : len ≤ buf.length) :
    Returns (parseUrl buf len) fun r => ∀ parts, r = some parts → parts.Within len := by
  rw [parseUrl, returns_bind]
  refine (skipWhile_returns _ (Nat.zero_le _) hlen).mono fun start hstart => ?_
  rw [returns_bind]
  refine (trimEnd_returns hstart.2 hlen).mono fun stop hstop => ?_
  rw [returns_ite]
  refine ⟨fun _ => returns_pure.mpr (by simp), fun _ => ?_⟩
  rw [returns_bind]
  refine (skipGet_returns hstop.1 (by omega)).mono fun start hstart => ?_
  rw [returns_bind]
  refine (skipScheme_returns hstart.2 (by omega)).mono fun scheme _ => ?_
  refine (parseUrlRest_returns (by omega)).mono fun r hr parts hparts => ?_
  have hwithin := hr parts hparts
  exact ⟨hwithin.1.trans hstop.2, hwithin.2.trans hstop.2⟩

end Safety

end MiniAgentOS
