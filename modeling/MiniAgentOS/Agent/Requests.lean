import MiniAgentOS.Lib.Bounded
import MiniAgentOS.Text.JsonText

/-! The bodies and the targets of the requests to the bridge. Each is built in a buffer of fixed size. -/
namespace MiniAgentOS.Agent

set_option maxRecDepth 4000

section Builders

def upperHex (n : UInt8) : UInt8 := if n ≤ 9 then 48 + n else 55 + n

def percent : UInt8 := 37

/-- `is_url_unreserved`. -/
def isUrlUnreserved (b : UInt8) : Bool :=
  (65 ≤ b && b ≤ 90) || (97 ≤ b && b ≤ 122) || (48 ≤ b && b ≤ 57) || b == 45 || b == 46 || b == 95 || b == 126

/-- `append_urlencoded`. -/
def appendUrlencoded (capacity : ℕ) : Bytes → Bytes → Bytes
  | out, [] => out
  | out, b :: src =>
    if out.length < capacity then
      if isUrlUnreserved b then appendUrlencoded capacity (out ++ [b]) src
      else if out.length + 3 ≤ capacity then
        appendUrlencoded capacity (out ++ [percent, upperHex (b >>> 4), upperHex (b &&& 0x0f)]) src
      else out
    else out

/-- `append_json_escaped`. -/
def appendJsonEscaped (capacity : ℕ) : Bytes → Bytes → Bytes
  | out, [] => out
  | out, b :: src =>
    if out.length < capacity then
      if b = quote ∨ b = backslash then
        if out.length + 2 ≤ capacity then appendJsonEscaped capacity (out ++ [backslash, b]) src else out
      else if b = lf then
        if out.length + 2 ≤ capacity then appendJsonEscaped capacity (out ++ [backslash, 110]) src else out
      else if b = cr then
        if out.length + 2 ≤ capacity then appendJsonEscaped capacity (out ++ [backslash, 114]) src else out
      else if b = tab then
        if out.length + 2 ≤ capacity then appendJsonEscaped capacity (out ++ [backslash, 116]) src else out
      else if b ≤ 0x1f ∨ b = 0x7f then
        if out.length + 6 ≤ capacity then
          appendJsonEscaped capacity
            (out ++ [backslash, 117, 48, 48, upperHex (b >>> 4), upperHex (b &&& 0x0f)]) src
        else out
      else appendJsonEscaped capacity (out ++ [b]) src
    else out

/-- `append_u64_dec`. -/
def appendU64Dec (capacity : ℕ) (out : Bytes) (n : ℕ) : Bytes := appendBytes capacity out (u64ToDec n)

def buildM5WriteBody (capacity : ℕ) (path content : Bytes) : Bytes :=
  let out := appendBytes capacity [] (ascii "\x7b\"path\":\"")
  let out := appendJsonEscaped capacity out path
  let out := appendBytes capacity out (ascii "\",\"content\":\"")
  let out := appendJsonEscaped capacity out content
  appendBytes capacity out (ascii "\",\"create\":true,\"overwrite\":true\x7d")

def buildM5PatchBody (capacity : ℕ) (patch : Bytes) : Bytes :=
  let out := appendBytes capacity [] (ascii "\x7b\"patch\":\"")
  let out := appendJsonEscaped capacity out patch
  appendBytes capacity out (ascii "\"\x7d")

def buildM5RunPythonBody (capacity : ℕ) (path : Bytes) (timeoutSec : ℕ) : Bytes :=
  let out := appendBytes capacity [] (ascii "\x7b\"path\":\"")
  let out := appendJsonEscaped capacity out path
  let out := appendBytes capacity out (ascii "\",\"timeout_sec\":")
  let out := appendU64Dec capacity out timeoutSec
  appendBytes capacity out (ascii "\x7d")

def m5BridgeListPrefix : Bytes := ascii "/workspace/list?path="
def m5BridgeListSuffix : Bytes := ascii "&depth=3"
def m5BridgeReadPrefix : Bytes := ascii "/workspace/read?path="
def m5BridgeReadSuffix : Bytes := ascii "&offset=0&limit=1024"
def m5BridgeOutputPrefix : Bytes := ascii "/process/output?id="
def m6BridgeSearchPrefix : Bytes := ascii "/search/web?query="
def m6BridgeSearchSuffix : Bytes := ascii "&top_k=3"
def xSearchRecentPathPrefix : Bytes := ascii "/2/tweets/search/recent?query="
def xSearchRecentPathSuffix : Bytes := ascii "&max_results=10&tweet.fields=created_at,public_metrics"

/-- A target with an argument between two fixed parts. -/
def buildTarget (capacity : ℕ) (front argument back : Bytes) : Bytes :=
  let out := appendBytes capacity [] front
  let out := appendUrlencoded capacity out argument
  appendBytes capacity out back

def buildM5ListPath (capacity : ℕ) (path : Bytes) : Bytes :=
  buildTarget capacity m5BridgeListPrefix path m5BridgeListSuffix

def buildM5ReadPath (capacity : ℕ) (path : Bytes) : Bytes :=
  buildTarget capacity m5BridgeReadPrefix path m5BridgeReadSuffix

def buildM5OutputPath (capacity : ℕ) (processId : Bytes) : Bytes :=
  appendUrlencoded capacity (appendBytes capacity [] m5BridgeOutputPrefix) processId

def buildM6SearchPath (capacity : ℕ) (query : Bytes) : Bytes :=
  buildTarget capacity m6BridgeSearchPrefix query m6BridgeSearchSuffix

def buildSearchPath (capacity : ℕ) (query : Bytes) : Bytes :=
  buildTarget capacity xSearchRecentPathPrefix query xSearchRecentPathSuffix

end Builders

section Pieces

variable {capacity : ℕ} {out src : Bytes}

/-- What `append_urlencoded` writes for a byte. -/
def urlencodedByte (b : UInt8) : Bytes :=
  if isUrlUnreserved b then [b] else [percent, upperHex (b >>> 4), upperHex (b &&& 0x0f)]

/-- What `append_json_escaped` writes for a byte. -/
def escapedByte (b : UInt8) : Bytes :=
  if b = quote ∨ b = backslash then [backslash, b]
  else if b = lf then [backslash, 110]
  else if b = cr then [backslash, 114]
  else if b = tab then [backslash, 116]
  else if b ≤ 0x1f ∨ b = 0x7f then [backslash, 117, 48, 48, upperHex (b >>> 4), upperHex (b &&& 0x0f)]
  else [b]

theorem urlencodedByte_pos (b : UInt8) : 0 < (urlencodedByte b).length := by
  unfold urlencodedByte
  split_ifs <;> exact Nat.succ_pos _

theorem escapedByte_pos (b : UInt8) : 0 < (escapedByte b).length := by
  unfold escapedByte
  split_ifs <;> exact Nat.succ_pos _

theorem appendUrlencoded_eq (capacity : ℕ) (out src : Bytes) :
    appendUrlencoded capacity out src = Bounded.appendEach capacity urlencodedByte out src := by
  induction src generalizing out with
  | nil => rfl
  | cons b src ih =>
    have hpos := urlencodedByte_pos b
    rw [appendUrlencoded, Bounded.appendEach]
    by_cases hroom : out.length < capacity
    · rw [if_pos hroom]
      by_cases hplain : isUrlUnreserved b = true
      · have hbyte : urlencodedByte b = [b] := if_pos hplain
        rw [if_pos hplain, hbyte, ih, List.length_singleton, if_pos (Nat.succ_le_of_lt hroom)]
      · have hbyte : urlencodedByte b = [percent, upperHex (b >>> 4), upperHex (b &&& 0x0f)] := if_neg hplain
        rw [if_neg hplain, hbyte, ih]
        rfl
    · rw [if_neg hroom, if_neg (by omega)]

theorem appendJsonEscaped_eq (capacity : ℕ) (out src : Bytes) :
    appendJsonEscaped capacity out src = Bounded.appendEach capacity escapedByte out src := by
  induction src generalizing out with
  | nil => rfl
  | cons b src ih =>
    have hpos := escapedByte_pos b
    rw [appendJsonEscaped, Bounded.appendEach]
    by_cases hroom : out.length < capacity
    swap
    · rw [if_neg hroom, if_neg (by omega)]
    rw [if_pos hroom]
    by_cases hself : b = quote ∨ b = backslash
    · have hbyte : escapedByte b = [backslash, b] := if_pos hself
      rw [if_pos hself, hbyte, ih]
      rfl
    rw [if_neg hself]
    by_cases hlf : b = lf
    · have hbyte : escapedByte b = [backslash, 110] := by rw [escapedByte, if_neg hself, if_pos hlf]
      rw [if_pos hlf, hbyte, ih]
      rfl
    rw [if_neg hlf]
    by_cases hcr : b = cr
    · have hbyte : escapedByte b = [backslash, 114] := by rw [escapedByte, if_neg hself, if_neg hlf, if_pos hcr]
      rw [if_pos hcr, hbyte, ih]
      rfl
    rw [if_neg hcr]
    by_cases htab : b = tab
    · have hbyte : escapedByte b = [backslash, 116] := by
        rw [escapedByte, if_neg hself, if_neg hlf, if_neg hcr, if_pos htab]
      rw [if_pos htab, hbyte, ih]
      rfl
    rw [if_neg htab]
    by_cases hcontrol : b ≤ 0x1f ∨ b = 0x7f
    · have hbyte : escapedByte b = [backslash, 117, 48, 48, upperHex (b >>> 4), upperHex (b &&& 0x0f)] := by
        rw [escapedByte, if_neg hself, if_neg hlf, if_neg hcr, if_neg htab, if_pos hcontrol]
      rw [if_pos hcontrol, hbyte, ih]
      rfl
    · have hbyte : escapedByte b = [b] := by
        rw [escapedByte, if_neg hself, if_neg hlf, if_neg hcr, if_neg htab, if_neg hcontrol]
      rw [if_neg hcontrol, hbyte, ih, List.length_singleton, if_pos (Nat.succ_le_of_lt hroom)]

theorem takes_bytes (capacity : ℕ) (bytes : Bytes) :
    Bounded.Takes capacity (fun out => appendBytes capacity out bytes) bytes := Bounded.takes_append capacity bytes

theorem takes_urlencoded (capacity : ℕ) (src : Bytes) :
    Bounded.Takes capacity (fun out => appendUrlencoded capacity out src) (src.flatMap urlencodedByte) := by
  simp only [appendUrlencoded_eq]
  exact Bounded.takes_each capacity urlencodedByte src

theorem takes_escaped (capacity : ℕ) (src : Bytes) :
    Bounded.Takes capacity (fun out => appendJsonEscaped capacity out src) (src.flatMap escapedByte) := by
  simp only [appendJsonEscaped_eq]
  exact Bounded.takes_each capacity escapedByte src

end Pieces

section Decoding

variable {src : Bytes}

theorem hexWord4_upper : ∀ b : UInt8, hexWord4 48 48 (upperHex (b >>> 4)) (upperHex (b &&& 0x0f)) = b.toNat ∧
    isHex (upperHex (b >>> 4)) = true ∧ isHex (upperHex (b &&& 0x0f)) = true := forall_byte (by decide)

/-- A byte of a text below 128 is written as a character that stands for it. -/
theorem escapedByte_low {b : UInt8} (h : b ≤ 0x7f) : JsonChar (escapedByte b) [b] := by
  unfold escapedByte
  split_ifs with hself hlf hcr htab hcontrol
  · apply JsonChar.letter
    rcases hself with rfl | rfl <;> decide
  · rw [hlf]
    exact .letter (by decide)
  · rw [hcr]
    exact .letter (by decide)
  · rw [htab]
    exact .letter (by decide)
  · obtain ⟨hword, hhigh, hlow⟩ := hexWord4_upper b
    have hbyte := utf8Bytes_ascii b h
    rw [← hbyte, ← hword]
    apply JsonChar.unicode
    · simp only [List.mem_cons, List.not_mem_nil, or_false, forall_eq_or_imp, forall_eq]
      exact ⟨by decide, by decide, hhigh, hlow⟩
    · have hlt := b.toNat_lt
      rw [hword]
      omega
  · have hall : ∀ b : UInt8, ¬ (b ≤ 0x1f ∨ b = 0x7f) → 0x20 ≤ b := forall_byte (by decide)
    apply JsonChar.plain (.one h)
    intro d hd
    rw [List.mem_singleton.mp hd]
    exact ⟨fun heq => hself (.inl heq), fun heq => hself (.inr heq), hall b hcontrol⟩

theorem escapedByte_high : ∀ b : UInt8, 0x80 ≤ b → escapedByte b = [b] ∧ b ≠ quote ∧ b ≠ backslash ∧ 0x20 ≤ b :=
  forall_byte (by decide)

theorem escaped_char {c : Bytes} (h : Utf8Char c) : JsonChar (c.flatMap escapedByte) c := by
  rcases h.high with ⟨b, rfl, hlow⟩ | hhigh
  · rw [List.flatMap_singleton]
    exact escapedByte_low hlow
  · have hself : c.flatMap escapedByte = c := by
      clear h
      induction c with
      | nil => rfl
      | cons b c ih =>
        rw [List.flatMap_cons, (escapedByte_high b (hhigh b List.mem_cons_self)).1,
          ih fun d hd => hhigh d (List.mem_cons_of_mem b hd)]
        rfl
    rw [hself]
    exact .plain h fun b hb => (escapedByte_high b (hhigh b hb)).2

/-- What `append_json_escaped` writes for a text is decoded to it. -/
theorem flatMap_escapedByte (h : Utf8 src) : JsonChars (src.flatMap escapedByte) src := by
  induction h with
  | nil => exact .nil
  | cons hchar _ ih =>
    rw [List.flatMap_append]
    exact .cons (escaped_char hchar) ih

theorem escaped_text (h : Utf8 src) : JsonText (.str src) (quote :: src.flatMap escapedByte ++ [quote]) :=
  .str (flatMap_escapedByte h)

end Decoding

section Bodies

/-- The bodies of the requests that change the workspace or run a file. -/
inductive BridgeBody where
  | write (path content : Bytes)
  | patch (text : Bytes)
  | runPython (path : Bytes) (timeoutSec : UInt32)
  deriving DecidableEq, Repr

def BridgeBody.build (capacity : ℕ) : BridgeBody → Bytes
  | .write path content => buildM5WriteBody capacity path content
  | .patch text => buildM5PatchBody capacity text
  | .runPython path timeoutSec => buildM5RunPythonBody capacity path timeoutSec.toNat

/-- What the body is meant to say. -/
def BridgeBody.value : BridgeBody → Json
  | .write path content => .obj [(ascii "path", .str path), (ascii "content", .str content),
      (ascii "create", .bool true), (ascii "overwrite", .bool true)]
  | .patch text => .obj [(ascii "patch", .str text)]
  | .runPython path timeoutSec => .obj [(ascii "path", .str path), (ascii "timeout_sec", .num timeoutSec.toNat)]

/-- The whole encoding. -/
def BridgeBody.encoded : BridgeBody → Bytes
  | .write path content => ascii "\x7b\"path\":\"" ++ path.flatMap escapedByte ++ ascii "\",\"content\":\"" ++
      content.flatMap escapedByte ++ ascii "\",\"create\":true,\"overwrite\":true\x7d"
  | .patch text => ascii "\x7b\"patch\":\"" ++ text.flatMap escapedByte ++ ascii "\"\x7d"
  | .runPython path timeoutSec => ascii "\x7b\"path\":\"" ++ path.flatMap escapedByte ++
      ascii "\",\"timeout_sec\":" ++ u64ToDec timeoutSec.toNat ++ ascii "\x7d"

/-- The arguments are texts. -/
def BridgeBody.Texts : BridgeBody → Prop
  | .write path content => Utf8 path ∧ Utf8 content
  | .patch text => Utf8 text
  | .runPython path _ => Utf8 path

/-- A body is complete and says what it is meant to say, and nothing is returned when it does not fit. -/
structure AllOrNothing (capacity : ℕ) (body : BridgeBody) : Prop where
  complete : body.Texts → body.build capacity ≠ [] → JsonText body.value (body.build capacity)
  nothing : capacity < body.encoded.length → body.build capacity = []

variable {capacity : ℕ} {body : BridgeBody} {name value : Bytes}

theorem keyText {s : String} {l : List Char} (h : s = String.ofList l) (hl : l.all PlainChar = true) :
    JsonText (.str (ascii s)) (quote :: ascii s ++ [quote]) := by
  have hplain := plain_ascii h hl
  have htext := jsonEscape_utf8 hplain.utf8
  rwa [hplain.escape] at htext

/-- The writers of a body behind its first piece. -/
theorem takes_encoded (capacity : ℕ) (body : BridgeBody) : ∃ lead next more, lead ≠ [] ∧
    Bounded.Takes capacity next more ∧ lead ++ more = body.encoded ∧
    body.build capacity = next (Bounded.append capacity [] lead) := by
  cases body with
  | write path content =>
    have hnext := (((takes_escaped capacity path).comp (takes_bytes capacity (ascii "\",\"content\":\""))).comp
      (takes_escaped capacity content)).comp
      (takes_bytes capacity (ascii "\",\"create\":true,\"overwrite\":true\x7d"))
    exact ⟨ascii "\x7b\"path\":\"", _, _, by decide, hnext, by simp [BridgeBody.encoded], rfl⟩
  | patch text =>
    have hnext := (takes_escaped capacity text).comp (takes_bytes capacity (ascii "\"\x7d"))
    exact ⟨ascii "\x7b\"patch\":\"", _, _, by decide, hnext, by simp [BridgeBody.encoded], rfl⟩
  | runPython path timeoutSec =>
    have hnext := (((takes_escaped capacity path).comp (takes_bytes capacity (ascii "\",\"timeout_sec\":"))).comp
      (takes_bytes capacity (u64ToDec timeoutSec.toNat))).comp (takes_bytes capacity (ascii "\x7d"))
    exact ⟨ascii "\x7b\"path\":\"", _, _, by decide, hnext, by simp [BridgeBody.encoded], rfl⟩

/-- The encoding is a text of the object. -/
theorem encoded_text (h : body.Texts) : JsonText body.value body.encoded := by
  have hpath : ascii "\x7b\"path\":\"" = openBrace :: quote :: (ascii "path" ++ [quote, colon, quote]) := by decide
  cases body with
  | write path content =>
    obtain ⟨hpathText, hcontentText⟩ := h
    have hcontent : ascii "\",\"content\":\"" = quote :: comma :: quote :: (ascii "content" ++ [quote, colon, quote]) := by
      decide
    have hflags : ascii "\",\"create\":true,\"overwrite\":true\x7d" = quote :: comma :: quote :: (ascii "create" ++
        quote :: colon :: (ascii "true" ++ comma :: quote :: (ascii "overwrite" ++ quote :: colon ::
          (ascii "true" ++ [closeBrace])))) := by decide
    have hmembers := JsonMembers.more (keyText (s := "path") rfl (by decide)) (escaped_text hpathText)
      (JsonMembers.more (keyText (s := "content") rfl (by decide)) (escaped_text hcontentText)
        (JsonMembers.more (keyText (s := "create") rfl (by decide)) .true
          (JsonMembers.one (keyText (s := "overwrite") rfl (by decide)) .true)))
    have htext := JsonText.obj hmembers
    rw [BridgeBody.encoded, hpath, hcontent, hflags]
    simpa [BridgeBody.value] using htext
  | patch text =>
    have hpatch : ascii "\x7b\"patch\":\"" = openBrace :: quote :: (ascii "patch" ++ [quote, colon, quote]) := by decide
    have hend : ascii "\"\x7d" = [quote, closeBrace] := by decide
    have htext := JsonText.obj (JsonMembers.one (keyText (s := "patch") rfl (by decide)) (escaped_text h))
    rw [BridgeBody.encoded, hpatch, hend]
    simpa [BridgeBody.value] using htext
  | runPython path timeoutSec =>
    have htimeout : ascii "\",\"timeout_sec\":" = quote :: comma :: quote :: (ascii "timeout_sec" ++ [quote, colon]) := by
      decide
    have hend : ascii "\x7d" = [closeBrace] := by decide
    have hsmall : timeoutSec.toNat < 10 ^ 20 := timeoutSec.toNat_lt.trans (by decide)
    have htext := JsonText.obj (JsonMembers.more (keyText (s := "path") rfl (by decide)) (escaped_text h)
      (JsonMembers.one (keyText (s := "timeout_sec") rfl (by decide)) (.num (u64ToDec_digits hsmall))))
    rw [BridgeBody.encoded, hpath, htimeout, hend]
    simpa [BridgeBody.value] using htext

/-- A body is all or nothing exactly when its encoding fits, or when there is no buffer at all. -/
theorem bridgeBody_iff (capacity : ℕ) (body : BridgeBody) :
    AllOrNothing capacity body ↔ body.encoded.length ≤ capacity ∨ capacity = 0 := by
  obtain ⟨lead, next, more, hlead, htakes, hencoded, hbuild⟩ := takes_encoded capacity body
  have hnil := htakes.eq_nil_iff hlead
  have hwhole := ((Bounded.takes_append capacity lead).comp htakes).eq_iff
  rw [← hbuild, hencoded] at hwhole
  rw [← hbuild] at hnil
  constructor
  · rintro ⟨-, hnothing⟩
    by_contra hneither
    obtain ⟨hlong, hcapacity⟩ := not_or.mp hneither
    exact hcapacity (hnil.mp (hnothing (Nat.not_le.mp hlong)))
  · intro h
    constructor
    · intro htexts hne
      rcases h with hfits | hzero
      · rw [hwhole.mpr hfits]
        exact encoded_text htexts
      · exact absurd (hnil.mpr hzero) hne
    · intro hlong
      rcases h with hfits | hzero
      · omega
      · exact hnil.mpr hzero

/-- A file of 800 lines is cut to the 1536 bytes of the buffer of the command. -/
theorem bridgeBody_cut : ¬ ∀ capacity body, AllOrNothing capacity body := by
  intro h
  have hlines : ((List.replicate 800 lf).flatMap escapedByte).length = 1600 := by
    rw [List.length_flatMap, List.map_replicate, List.sum_replicate]
    rfl
  rcases (bridgeBody_iff 1536 (.write (ascii "a.py") (List.replicate 800 lf))).mp (h _ _) with hfits | hzero
  · unfold BridgeBody.encoded at hfits
    simp only [List.length_append, hlines] at hfits
    omega
  · cases hzero

end Bodies

section Targets

/-- The targets of the requests that have an argument. -/
inductive BridgeTarget where
  | list (path : Bytes)
  | read (path : Bytes)
  | output (processId : Bytes)
  | web (query : Bytes)
  | recent (query : Bytes)
  deriving DecidableEq, Repr

def BridgeTarget.build (capacity : ℕ) : BridgeTarget → Bytes
  | .list path => buildM5ListPath capacity path
  | .read path => buildM5ReadPath capacity path
  | .output processId => buildM5OutputPath capacity processId
  | .web query => buildM6SearchPath capacity query
  | .recent query => buildSearchPath capacity query

def BridgeTarget.argument : BridgeTarget → Bytes
  | .list text | .read text | .output text | .web text | .recent text => text

def BridgeTarget.front : BridgeTarget → Bytes
  | .list _ => m5BridgeListPrefix
  | .read _ => m5BridgeReadPrefix
  | .output _ => m5BridgeOutputPrefix
  | .web _ => m6BridgeSearchPrefix
  | .recent _ => xSearchRecentPathPrefix

def BridgeTarget.back : BridgeTarget → Bytes
  | .list _ => m5BridgeListSuffix
  | .read _ => m5BridgeReadSuffix
  | .output _ => []
  | .web _ => m6BridgeSearchSuffix
  | .recent _ => xSearchRecentPathSuffix

/-- The whole target. -/
def BridgeTarget.encoded (t : BridgeTarget) : Bytes := t.front ++ t.argument.flatMap urlencodedByte ++ t.back

/-- What a percent-encoded text stands for. -/
def percentDecode : Bytes → Bytes
  | [] => []
  | b :: text =>
    match b, text with
    | 37, high :: low :: rest =>
      if isHex high && isHex low then UInt8.ofNat (hexDigit high * 16 + hexDigit low) :: percentDecode rest
      else 37 :: percentDecode (high :: low :: rest)
    | b, text => b :: percentDecode text

/-- A target is complete and its middle stands for the argument, and nothing is returned when it does not fit. -/
structure TargetDenotes (capacity : ℕ) (t : BridgeTarget) : Prop where
  complete : t.build capacity ≠ [] →
    ∃ text, t.build capacity = t.front ++ text ++ t.back ∧ percentDecode text = t.argument
  nothing : capacity < t.encoded.length → t.build capacity = []

variable {capacity : ℕ} {t : BridgeTarget}

theorem percentDecode_plain {b : UInt8} (h : b ≠ percent) (rest : Bytes) :
    percentDecode (b :: rest) = b :: percentDecode rest := by
  rw [percentDecode]
  intro _ _ _ hpercent
  exact absurd hpercent h

theorem upperHex_value : ∀ b : UInt8, isHex (upperHex (b >>> 4)) = true ∧ isHex (upperHex (b &&& 0x0f)) = true ∧
    UInt8.ofNat (hexDigit (upperHex (b >>> 4)) * 16 + hexDigit (upperHex (b &&& 0x0f))) = b := forall_byte (by decide)

theorem unreserved_plain : ∀ b : UInt8, isUrlUnreserved b = true → b ≠ percent := forall_byte (by decide)

/-- What is written for a byte stands for it. -/
theorem percentDecode_byte (b : UInt8) (rest : Bytes) :
    percentDecode (urlencodedByte b ++ rest) = b :: percentDecode rest := by
  unfold urlencodedByte
  split_ifs with hplain
  · exact percentDecode_plain (unreserved_plain b hplain) rest
  · obtain ⟨hhigh, hlow, hvalue⟩ := upperHex_value b
    have hdecode : ∀ high low, percentDecode (percent :: high :: low :: rest) =
        if isHex high && isHex low then UInt8.ofNat (hexDigit high * 16 + hexDigit low) :: percentDecode rest
        else 37 :: percentDecode (high :: low :: rest) := by
      intro high low
      have hsign : percent = 37 := rfl
      rw [hsign, percentDecode]
    change percentDecode (percent :: upperHex (b >>> 4) :: upperHex (b &&& 0x0f) :: rest) = _
    rw [hdecode, hhigh, hlow, hvalue]
    rfl

theorem percentDecode_flatMap (src : Bytes) : percentDecode (src.flatMap urlencodedByte) = src := by
  induction src with
  | nil => rfl
  | cons b src ih => rw [List.flatMap_cons, percentDecode_byte, ih]

theorem front_ne (t : BridgeTarget) : t.front ≠ [] := by
  have hall : ∀ front ∈ [m5BridgeListPrefix, m5BridgeReadPrefix, m5BridgeOutputPrefix, m6BridgeSearchPrefix,
      xSearchRecentPathPrefix], front ≠ [] := by decide
  apply hall
  cases t <;> simp [BridgeTarget.front]

/-- The writers of a target behind its first piece. -/
theorem takes_target (capacity : ℕ) (t : BridgeTarget) : ∃ next more, Bounded.Takes capacity next more ∧
    t.front ++ more = t.encoded ∧ t.build capacity = next (Bounded.append capacity [] t.front) := by
  have hnext := (takes_urlencoded capacity t.argument).comp (takes_bytes capacity t.back)
  cases t with
  | list text | read text | web text | recent text =>
    exact ⟨_, _, hnext, by simp [BridgeTarget.encoded], rfl⟩
  | output text =>
    refine ⟨_, _, takes_urlencoded capacity text, ?_, rfl⟩
    simp [BridgeTarget.encoded, BridgeTarget.argument, BridgeTarget.back]

/-- A target denotes its argument exactly when it fits, or when there is no buffer at all. -/
theorem bridgeTarget_iff (capacity : ℕ) (t : BridgeTarget) :
    TargetDenotes capacity t ↔ t.encoded.length ≤ capacity ∨ capacity = 0 := by
  obtain ⟨next, more, htakes, hencoded, hbuild⟩ := takes_target capacity t
  have hnil := htakes.eq_nil_iff (front_ne t)
  have hwhole := ((Bounded.takes_append capacity t.front).comp htakes).eq_iff
  rw [← hbuild, hencoded] at hwhole
  rw [← hbuild] at hnil
  constructor
  · rintro ⟨-, hnothing⟩
    by_contra hneither
    obtain ⟨hlong, hcapacity⟩ := not_or.mp hneither
    exact hcapacity (hnil.mp (hnothing (Nat.not_le.mp hlong)))
  · intro h
    constructor
    · intro hne
      rcases h with hfits | hzero
      · rw [hwhole.mpr hfits]
        exact ⟨t.argument.flatMap urlencodedByte, rfl, percentDecode_flatMap t.argument⟩
      · exact absurd (hnil.mpr hzero) hne
    · intro hlong
      rcases h with hfits | hzero
      · omega
      · exact hnil.mpr hzero

/-- A path of 180 slashes is cut to the 512 bytes of a target buffer, and the suffix is lost. -/
theorem bridgeTarget_cut : ¬ ∀ capacity t, TargetDenotes capacity t := by
  intro h
  have hslashes : ((List.replicate 180 47).flatMap urlencodedByte).length = 540 := by
    rw [List.length_flatMap, List.map_replicate, List.sum_replicate]
    rfl
  rcases (bridgeTarget_iff 512 (.read (List.replicate 180 47))).mp (h _ _) with hfits | hzero
  · unfold BridgeTarget.encoded BridgeTarget.argument at hfits
    simp only [List.length_append, hslashes] at hfits
    omega
  · cases hzero

end Targets

end MiniAgentOS.Agent
