import MiniAgentOS.Net.Frame

/-! `parse_agent_url`: the URLs that the agent contacts. -/
namespace MiniAgentOS.Net

/-- The host is an address or a name, with the port that the URL or its scheme gives. -/
structure AgentUrl where
  host : Bytes
  path : Bytes
  https : Bool
  port : ℕ
  fixedIp : Option Ipv4
  deriving DecidableEq, Repr

/-- `value.saturating_mul(10).saturating_add(digit)` on 16 bits. -/
def pushDigit16 (value : ℕ) (b : UInt8) : ℕ :=
  min (min (value * 10) 65535 + (b.toNat - 48)) 65535

/-- The digits in front, as a number up to 255, and what follows them. -/
def scanOctet (buf : Bytes) : Option (UInt8 × Bytes) :=
  let digits := buf.takeWhile isDigit
  let value := digits.foldl pushDigit16 0
  if digits = [] ∨ 255 < value then none
  else some (UInt8.ofNat value, buf.dropWhile isDigit)

def skipDot : Bytes → Option Bytes
  | 46 :: buf => some buf
  | _ => none

def parseIpv4Bytes (buf : Bytes) : Option Ipv4 := do
  let (a, buf) ← scanOctet buf
  let (b, buf) ← scanOctet (← skipDot buf)
  let (c, buf) ← scanOctet (← skipDot buf)
  let (d, buf) ← scanOctet (← skipDot buf)
  if buf = [] then some ⟨a, b, c, d⟩ else none

def trimSpaces (buf : Bytes) : Bytes :=
  ((buf.dropWhile isSpace).reverse.dropWhile isSpace).reverse

/-- The text behind the scheme, and whether that is `https`. -/
def stripScheme (buf : Bytes) : Option (Bytes × Bool) :=
  if (ascii "http://").isPrefixOf buf then some (buf.drop 7, false)
  else if (ascii "https://").isPrefixOf buf then some (buf.drop 8, true)
  else none

/-- The host and the port of an authority, split at its last colon. -/
def splitPort (authority : Bytes) (https : Bool) : Option (Bytes × ℕ) :=
  if authority.contains 58 then
    let digits := (authority.reverse.takeWhile (· != 58)).reverse
    let port := digits.foldl pushDigit16 0
    if digits.all isDigit ∧ port ≠ 0 then
      some (authority.take (authority.length - digits.length - 1), port)
    else none
  else some (authority, if https then 443 else 80)

def parseAgentUrl (buf : Bytes) : Option AgentUrl := do
  let (rest, https) ← stripScheme (trimSpaces buf)
  let authority := rest.takeWhile fun b => !isSpace b && b != 47
  let (host, port) ← splitPort authority https
  let rest := rest.drop authority.length
  let path := if rest.head? = some 47 then rest.takeWhile fun b => !isSpace b else []
  if host = [] then none else some ⟨host, path, https, port, parseIpv4Bytes host⟩

example : parseAgentUrl (ascii " https://10.0.2.2:8443/a?b c") =
    some ⟨ascii "10.0.2.2", ascii "/a?b", true, 8443, some ⟨10, 0, 2, 2⟩⟩ := by decide

end MiniAgentOS.Net
