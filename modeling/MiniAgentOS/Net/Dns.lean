import MiniAgentOS.Net.Frame

/-! `dns_parse_response`: the address in a reply of the name server. -/
namespace MiniAgentOS.Net
open Checked

/-- What a reply comes to. A truncated reply also sets the error reason of the fetch. -/
inductive DnsReply where
  | address (ip : Ipv4)
  | tooLarge
  | rejected
  deriving DecidableEq, Repr

/-- The offset behind a name. At most 128 labels are passed. -/
def dnsSkipName (buf : Bytes) (len off : ℕ) : Checked (Option ℕ) :=
  loop (fun (off, seen) =>
    if off < len then do
      let b ← index buf off
      if b = 0 then pure (.done (some (off + 1)))
      else if b &&& 0xc0 = 0xc0 then
        if off + 1 ≥ len then pure (.done none) else pure (.done (some (off + 2)))
      else
        let l := b.toNat
        if off + 1 + l > len then pure (.done none)
        else do
          let seen ← add (2 ^ 32) seen 1
          if seen > 128 then pure (.done none) else pure (.next (off + 1 + l, seen))
    else pure (.done none)) (len - off + 1) (off, 0)

/-- Pass over `count` entries of the question section. -/
def dnsSkipQuestions (buf : Bytes) (len : ℕ) : ℕ → ℕ → Checked (Option ℕ)
  | 0, off => pure (some off)
  | count + 1, off => do
    match ← dnsSkipName buf len off with
    | none => pure none
    | some off => if off + 4 > len then pure none else dnsSkipQuestions buf len count (off + 4)

/-- The first address record among `count` answers. -/
def dnsFindAnswer (buf : Bytes) (len : ℕ) : ℕ → ℕ → Checked DnsReply
  | 0, _ => pure .rejected
  | count + 1, off => do
    match ← dnsSkipName buf len off with
    | none => pure .rejected
    | some off =>
      if off + 10 > len then pure .rejected
      else
        let typ ← read16 buf off
        let class_ ← read16 buf (off + 2)
        let rdlen ← read16 buf (off + 8)
        let off := off + 10
        if off + rdlen > len then pure .rejected
        else if typ = 1 ∧ class_ = 1 ∧ rdlen = 4 then .address <$> readIp buf off
        else dnsFindAnswer buf len count (off + rdlen)

def dnsParseResponse (buf : Bytes) (len id : ℕ) : Checked DnsReply :=
  if len < 12 then pure .rejected
  else do
    let rid ← read16 buf 0
    if rid ≠ id then pure .rejected
    else
      let flags ← read16 buf 2
      if flags / 0x0200 % 2 = 1 then pure .tooLarge
      else if flags / 0x8000 % 2 = 0 ∨ flags % 0x10 ≠ 0 then pure .rejected
      else
        let qd ← read16 buf 4
        let an ← read16 buf 6
        match ← dnsSkipQuestions buf len qd 12 with
        | none => pure .rejected
        | some off => dnsFindAnswer buf len an off

section Safety

variable {buf : Bytes} {len : ℕ}

/-- The offset behind a name is within the reply, or one byte behind its end at most. -/
theorem dnsSkipName_returns (hlen : len ≤ buf.length) (off : ℕ) :
    Returns (dnsSkipName buf len off) fun r => ∀ next, r = some next → next ≤ len := by
  have hnone : ∀ next : ℕ, none = some next → next ≤ len := by simp
  refine returns_loop (fun s => s.2 ≤ 128) (fun s => len - s.1) ?_ (Nat.zero_le _) (by simp)
  rintro ⟨off, seen⟩ hseen
  dsimp only at hseen
  apply Returns.ite
  swap
  · exact fun _ => Returns.pure hnone
  intro hoff
  apply Returns.bind (index_returns (by omega))
  intro b _
  apply Returns.ite
  · intro _
    apply Returns.pure
    rintro next ⟨⟩
    exact hoff
  intro _
  apply Returns.ite
  · intro _
    apply Returns.ite
    · exact fun _ => Returns.pure hnone
    · intro hroom
      apply Returns.pure
      rintro next ⟨⟩
      omega
  intro _
  apply Returns.ite
  · exact fun _ => Returns.pure hnone
  intro hroom
  apply Returns.bind (returns_add.mpr ⟨by omega, rfl⟩)
  rintro seen rfl
  apply Returns.ite
  · exact fun _ => Returns.pure hnone
  intro hmore
  apply Returns.pure
  rw [roundPost_next]
  dsimp only
  omega

theorem dnsSkipQuestions_returns (hlen : len ≤ buf.length) (count : ℕ) : ∀ off,
    Returns (dnsSkipQuestions buf len count off) fun _ => True := by
  induction count with
  | zero => exact fun off => Returns.pure trivial
  | succ count ih =>
    intro off
    apply Returns.bind (dnsSkipName_returns hlen off)
    intro r _
    cases r with
    | none => exact Returns.pure trivial
    | some off => exact Returns.ite (fun _ => Returns.pure trivial) fun _ => ih _

theorem dnsFindAnswer_returns (hlen : len ≤ buf.length) (count : ℕ) : ∀ off,
    Returns (dnsFindAnswer buf len count off) fun _ => True := by
  induction count with
  | zero => exact fun off => Returns.pure trivial
  | succ count ih =>
    intro off
    apply Returns.bind (dnsSkipName_returns hlen off)
    intro r _
    cases r with
    | none => exact Returns.pure trivial
    | some off =>
      apply Returns.ite
      · exact fun _ => Returns.pure trivial
      intro hfixed
      apply Returns.bind (read16_returns (by omega))
      intro typ _
      apply Returns.bind (read16_returns (by omega))
      intro class_ _
      apply Returns.bind (read16_returns (by omega))
      intro rdlen _
      apply Returns.ite
      · exact fun _ => Returns.pure trivial
      intro hdata
      apply Returns.ite
      · intro haddr
        rw [returns_map]
        exact readIp_returns (by omega)
      · exact fun _ => ih _

/-- Parsing a reply does not trap. -/
theorem dnsParseResponse_returns (hlen : len ≤ buf.length) (id : ℕ) :
    Returns (dnsParseResponse buf len id) fun _ => True := by
  apply Returns.ite
  · exact fun _ => Returns.pure trivial
  intro hheader
  apply Returns.bind (read16_returns (by omega))
  intro rid _
  apply Returns.ite
  · exact fun _ => Returns.pure trivial
  intro _
  apply Returns.bind (read16_returns (by omega))
  intro flags _
  apply Returns.ite
  · exact fun _ => Returns.pure trivial
  intro _
  apply Returns.ite
  · exact fun _ => Returns.pure trivial
  intro _
  apply Returns.bind (read16_returns (by omega))
  intro qd _
  apply Returns.bind (read16_returns (by omega))
  intro an _
  apply Returns.bind (dnsSkipQuestions_returns hlen qd 12)
  intro r _
  cases r with
  | none => exact Returns.pure trivial
  | some off => exact dnsFindAnswer_returns hlen an off

end Safety

end MiniAgentOS.Net
