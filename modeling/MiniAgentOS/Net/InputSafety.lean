import MiniAgentOS.Http.HeaderBlock
import MiniAgentOS.Net.Dns
import MiniAgentOS.Text.Json

/-! Which network input makes a parser of the kernel trap: only a response whose header block has
a content length that is no machine word. -/
namespace MiniAgentOS.Net
open Checked Http

/-- Size of `AGENT_RESPONSE_BODY`. -/
def agentResponseBodyLen : ℕ := 524288

/-- What the network can hand to the parsers: the pieces of a response, a reply of the name server,
the value of a date field, the text of a command, a frame, and a captured response body. -/
structure NetworkInput where
  response : List Bytes
  reply : Bytes
  replyLen : ℕ
  date : Bytes
  command : Bytes
  frame : RxBuffer
  body : Bytes
  reply_fits : replyLen ≤ reply.length
  body_fits : body.length ≤ agentResponseBodyLen

/-- The computation traps on no index, overflow or division, and it ends. -/
abbrev NoTrap {α : Type} (x : Checked α) : Prop := Returns x fun _ => True

/-- The JSON extractors do not trap on the body, whatever they look for. -/
structure ExtractorsSafe (body : Bytes) : Prop where
  findKey : ∀ len key start, len ≤ body.length → NoTrap (jsonFindKeyFrom body len key start)
  string : ∀ len key capacity, len ≤ body.length → NoTrap (jsonExtractString body len key capacity)
  stringFrom : ∀ len key capacity start, len ≤ body.length →
    NoTrap (jsonExtractStringFrom body len key capacity start)
  number : ∀ len key, len ≤ body.length → NoTrap (jsonExtractU64 body len key)
  bool : ∀ len key, len ≤ body.length → NoTrap (jsonExtractBool body len key)
  array : ∀ len key want, len ≤ body.length → NoTrap (jsonStringArrayContains body len key want)
  hasKey : ∀ key, NoTrap (jsonHasKeyLocal body key)
  explicitlyEmpty : ∀ key, NoTrap (jsonStringKeyIsExplicitlyEmpty body key)
  partialString : ∀ key capacity, NoTrap (jsonExtractStringPartialLocal body key capacity)
  outputText : ∀ cached capacity, NoTrap (extractOpenaiOutputText body cached capacity)

structure ParsersSafe (input : NetworkInput) : Prop where
  response : NoTrap (feedAll httpReset input.response)
  date : NoTrap (parseHttpDate input.date)
  name : ∀ off, NoTrap (dnsSkipName input.reply input.replyLen off)
  reply : ∀ id, NoTrap (dnsParseResponse input.reply input.replyLen id)
  command : NoTrap (parseUrl input.command input.command.length)
  udp : NoTrap (parseRxUdpAny input.frame)
  tcp : NoTrap (parseRxTcp input.frame)
  body : ExtractorsSafe input.body

theorem extractorsSafe {body : Bytes} (hbody : body.length ≤ agentResponseBodyLen) :
    ExtractorsSafe body where
  findKey _ _ start hlen := (jsonFindKeyFrom_returns hlen start).mono fun _ _ => trivial
  string _ _ _ hlen := (jsonExtractString_returns hlen).mono fun _ _ => trivial
  stringFrom _ _ _ start hlen := (jsonExtractStringFrom_returns hlen start).mono fun _ _ => trivial
  number _ _ hlen := jsonExtractU64_returns hlen
  bool _ _ hlen := jsonExtractBool_returns hlen
  array _ _ _ hlen := jsonStringArrayContains_returns hlen
  hasKey key := jsonHasKeyLocal_returns body key
  explicitlyEmpty key := jsonStringKeyIsExplicitlyEmpty_returns body key
  partialString key capacity := jsonExtractStringPartialLocal_returns body key capacity
  outputText cached capacity :=
    extractOpenaiOutputText_returns (lt_of_le_of_lt hbody (by decide)) cached capacity

/-- A header block ends with the terminator. -/
theorem headerBlock_getLast? (pieces : List Bytes) : ∀ {header block rest : Bytes},
    headerBlock header pieces = some (block, rest) → block.getLast? = some lf := by
  induction pieces with
  | nil =>
    intro header block rest h
    cases h
  | cons data pieces ih =>
    intro header block rest h
    rw [headerBlock] at h
    cases hend : headerEnd data with
    | none =>
      simp only [hend] at h
      exact ih h
    | some e =>
      simp only [hend] at h
      split_ifs at h with hfits
      · rw [Option.some.injEq, Prod.mk.injEq] at h
        obtain ⟨rfl, -⟩ := h
        obtain ⟨hfour, hle, ⟨tail, htail⟩, -⟩ := headerEnd_eq_some hend
        have htake : data.take e = data.take (e - 4) ++ headerTerminator := by
          have hsplit : e = (e - 4) + 4 := by omega
          rw [hsplit, List.take_add, ← htail]
          simp [headerTerminator]
        rw [htake, ← List.append_assoc, List.getLast?_append]
        rfl
      · exact ih h

/-- Feeding a response traps only on the content length of its header block. -/
theorem feedAll_returns_iff (pieces : List Bytes) :
    NoTrap (feedAll httpReset pieces) ↔
      ∀ block rest, headerBlock [] pieces = some (block, rest) → LengthFits block := by
  have hmap : NoTrap (feedAll httpReset pieces) ↔ NoTrap (delivered <$> feedAll httpReset pieces) :=
    (returns_map (P := fun _ => True)).symm
  have hfeed := feedAll_headers pieces (show httpReset.state = .headers from rfl)
  rw [httpReset_header] at hfeed
  rw [hmap]
  cases hblock : headerBlock [] pieces with
  | none =>
    rw [hblock] at hfeed
    obtain ⟨header, hfeed⟩ := hfeed
    rw [hfeed]
    simp
  | some r =>
    obtain ⟨block, rest⟩ := r
    rw [hblock] at hfeed
    dsimp only at hfeed
    have hparse : NoTrap (httpParseHeaders block block.length false false 0) ↔ LengthFits block :=
      httpParseHeaders_returns_iff (headerBlock_getLast? pieces hblock)
    have hread : NoTrap (readHeaders httpReset block) ↔ LengthFits block := by
      rw [← hparse, readHeaders, NoTrap, returns_bind]
      simp only [returns_pure]
      rfl
    rw [hfeed, NoTrap, returns_map, ← NoTrap, hread]
    simp

/-- No input makes a parser trap, unless it is a response whose header block has a content length
that does not fit a machine word; such a response always does. -/
theorem parsers_safe_iff (input : NetworkInput) : ParsersSafe input ↔
    ∀ block rest, headerBlock [] input.response = some (block, rest) → LengthFits block := by
  constructor
  · exact fun hsafe => (feedAll_returns_iff input.response).mp hsafe.response
  · intro hlength
    exact
      { response := (feedAll_returns_iff input.response).mpr hlength
        date := parseHttpDate_returns input.date
        name := fun off => (dnsSkipName_returns input.reply_fits off).mono fun _ _ => trivial
        reply := dnsParseResponse_returns input.reply_fits
        command := (parseUrl_returns le_rfl).mono fun _ _ => trivial
        udp := (parseRxUdpAny_returns input.frame).mono fun _ _ => trivial
        tcp := (parseRxTcp_returns input.frame).mono fun _ _ => trivial
        body := extractorsSafe input.body_fits }

/-- A response whose content length has twenty digits. -/
def hugeLengthAnswer : Bytes :=
  ascii "HTTP/1.1 200 OK" ++ [cr, lf] ++ ascii "Content-Length: 99999999999999999999" ++
    headerTerminator

theorem huge_content_length_traps : ¬ ∀ input, ParsersSafe input := by
  intro hsafe
  have hfeed := (hsafe
    { response := [hugeLengthAnswer]
      reply := []
      replyLen := 0
      date := []
      command := []
      frame := ⟨List.replicate rxBufLen 0, 0, false, List.length_replicate⟩
      body := []
      reply_fits := le_rfl
      body_fits := Nat.zero_le _ }).response
  have htrap : feedAll httpReset [hugeLengthAnswer] = .error .overflow := by decide
  rw [htrap] at hfeed
  exact returns_error.mp hfeed

end MiniAgentOS.Net
