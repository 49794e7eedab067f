import MiniAgentOS.Text.Ascii

/-! The JSON extractors of the agent. They look for a quoted key anywhere in the text and read the
value behind its colon; strings are unescaped into an output buffer, of which the bytes written so
far are kept. -/
namespace MiniAgentOS
open Checked

def quote : UInt8 := 34
def backslash : UInt8 := 92
def colon : UInt8 := 58

def hexNibble (b : UInt8) : Checked (Option ℕ) :=
  if 48 ≤ b ∧ b ≤ 57 then some <$> sub b.toNat 48
  else if 97 ≤ b ∧ b ≤ 102 then do
    let d ← sub b.toNat 97
    some <$> add (2 ^ 8) 10 d
  else if 65 ≤ b ∧ b ≤ 70 then do
    let d ← sub b.toNat 65
    some <$> add (2 ^ 8) 10 d
  else pure none

/-- Append a byte if the output buffer has room. -/
def putByte (capacity : ℕ) (out : Bytes) (b : UInt8) : Checked Bytes :=
  if out.length < capacity then extend out capacity [b] else pure out

/-- The UTF-8 encoding of a code point. -/
def utf8Bytes (cp : ℕ) : Bytes :=
  let tail (n : ℕ) : UInt8 := 0x80 ||| UInt8.ofNat (n % 64)
  if cp ≤ 0x7f then [UInt8.ofNat cp]
  else if cp ≤ 0x7ff then [0xc0 ||| UInt8.ofNat (cp / 64), tail cp]
  else if cp ≤ 0xffff then [0xe0 ||| UInt8.ofNat (cp / 4096), tail (cp / 64), tail cp]
  else [0xf0 ||| UInt8.ofNat (cp / 262144), tail (cp / 4096), tail (cp / 64), tail cp]

def appendUtf8Codepoint (capacity : ℕ) (out : Bytes) (cp : ℕ) : Checked Bytes :=
  if cp ≤ 0x10ffff ∧ out.length + (utf8Bytes cp).length ≤ capacity then
    extend out capacity (utf8Bytes cp)
  else pure out

/-- The four digits of a `\u` escape. -/
def readHex4 (buf : Bytes) (off : ℕ) : Checked (Option ℕ) := do
  let some d0 ← hexNibble (← index buf off) | pure none
  let some d1 ← hexNibble (← index buf (off + 1)) | pure none
  let some d2 ← hexNibble (← index buf (off + 2)) | pure none
  let some d3 ← hexNibble (← index buf (off + 3)) | pure none
  pure (some (d0 * 4096 + d1 * 256 + d2 * 16 + d3))

/-- Whether the key stands in quotes at `i`. -/
def quotedKeyAt (buf key : Bytes) (i : ℕ) : Checked Bool := do
  if (← index buf i) ≠ quote then pure false
  else if ← matchesAt buf (i + 1) key then (· == quote) <$> index buf (i + 1 + key.length)
  else pure false

def jsonFindKeyFrom (buf : Bytes) (len : ℕ) (key : Bytes) (start : ℕ) : Checked (Option ℕ) :=
  loop (fun i =>
    if i + key.length + 2 < len then do
      if ← quotedKeyAt buf key i then
        let off ← skipWhile isSpace buf len (i + key.length + 2)
        if ← testAt (· == colon) buf len off then pure (.done (some (off + 1)))
        else pure (.next (i + 1))
      else pure (.next (i + 1))
    else pure (.done none)) (len - start + 1) start

def jsonFindKey (buf : Bytes) (len : ℕ) (key : Bytes) : Checked (Option ℕ) :=
  jsonFindKeyFrom buf len key 0

/-- The escapes of one letter. Every other byte stands for itself. -/
def unescape (b : UInt8) : UInt8 :=
  if b = 110 then lf else if b = 114 then cr else if b = 116 then tab else b

/-- The rest of a string behind its opening quote. -/
def readString (buf : Bytes) (len capacity start : ℕ) : Checked (Option Bytes) :=
  loop (fun (off, out) =>
    if off < len then do
      let b ← index buf off
      if b = quote then pure (.done (some out))
      else if b = backslash then
        if off + 1 ≥ len then pure (.done none)
        else
          let esc ← index buf (off + 1)
          if esc = 117 then
            if off + 5 ≥ len then pure (.done none)
            else
              match ← readHex4 buf (off + 2) with
              | none => pure (.done none)
              | some cp =>
                let out ← appendUtf8Codepoint capacity out cp
                pure (.next (off + 6, out))
          else
            let out ← putByte capacity out (unescape esc)
            pure (.next (off + 2, out))
      else
        let out ← putByte capacity out b
        pure (.next (off + 1, out))
    else pure (.done none)) (len - start + 1) (start, [])

/-- The start of the value of a key: its offset behind the colon and blanks. -/
def jsonFindValue (buf : Bytes) (len : ℕ) (key : Bytes) (start : ℕ) : Checked (Option ℕ) := do
  match ← jsonFindKeyFrom buf len key start with
  | none => pure none
  | some off => some <$> skipWhile isSpace buf len off

def jsonExtractStringFrom (buf : Bytes) (len : ℕ) (key : Bytes) (capacity start : ℕ) :
    Checked (Option (ℕ × Bytes)) := do
  match ← jsonFindValue buf len key start with
  | none => pure none
  | some off =>
    if ← testAt (· == quote) buf len off then
      let text ← readString buf len capacity (off + 1)
      pure (text.map fun text => (off, text))
    else pure none

def jsonExtractString (buf : Bytes) (len : ℕ) (key : Bytes) (capacity : ℕ) :
    Checked (Option Bytes) := do
  let r ← jsonExtractStringFrom buf len key capacity 0
  pure (r.map Prod.snd)

/-- `json_extract_string_local`: the empty text when there is none. -/
def jsonExtractStringLocal (buf key : Bytes) (capacity : ℕ) : Checked Bytes := do
  let r ← jsonExtractString buf buf.length key capacity
  pure (r.getD [])

/-- Digits behind the blanks, up to the largest 64-bit integer. -/
def parseU64 (buf : Bytes) (len : ℕ) : Checked (Option ℕ) := do
  let start ← skipWhile isSpace buf len 0
  if start ≥ len then pure none
  else loop (fun (i, v, saw) =>
    if i < len then do
      let b ← index buf i
      if isDigit b then
        let digit ← digitVal b
        pure (.next (i + 1, saturatingAdd (saturatingMul v 10) digit, true))
      else pure (.done (if saw then some v else none))
    else pure (.done (if saw then some v else none))) (len - start + 1) (start, 0, false)

def jsonExtractU64 (buf : Bytes) (len : ℕ) (key : Bytes) : Checked (Option ℕ) := do
  match ← jsonFindValue buf len key 0 with
  | none => pure none
  | some off =>
    let rest ← slice buf off len
    parseU64 rest (len - off)

def jsonExtractBool (buf : Bytes) (len : ℕ) (key : Bytes) : Checked (Option Bool) := do
  match ← jsonFindValue buf len key 0 with
  | none => pure none
  | some off =>
    if ← startsWithAt buf len off (ascii "true") then pure (some true)
    else if ← startsWithAt buf len off (ascii "false") then pure (some false)
    else pure none

/-- Compare the rest of a string with `want`: whether they are equal, and the offset of the closing
quote. -/
def compareString (buf want : Bytes) (len start : ℕ) : Checked (Option (Bool × ℕ)) :=
  loop (fun (off, idx, matched) =>
    let next (off : ℕ) (b : UInt8) : Round (ℕ × ℕ × Bool) (Option (Bool × ℕ)) :=
      .next (off + 1, idx + 1, matched && want[idx]? == some b)
    if off < len then do
      let b ← index buf off
      if b = quote then pure (.done (some (matched && idx == want.length, off)))
      else if b = backslash then
        if off + 1 ≥ len then pure (.done none) else next (off + 1) <$> index buf (off + 1)
      else pure (next off b)
    else pure (.done none)) (len - start + 1) (start, 0, true)

def jsonStringArrayContains (buf : Bytes) (len : ℕ) (key want : Bytes) : Checked (Option Bool) := do
  match ← jsonFindValue buf len key 0 with
  | none => pure none
  | some off =>
    if ← testAt (· == 91) buf len off then
      loop (fun off => do
        let off ← skipWhile (fun b => isSpace b || b == 44) buf len off
        if off ≥ len then pure (.done none)
        else
          let b ← index buf off
          if b = 93 then pure (.done (some false))
          else if b ≠ quote then pure (.done none)
          else
            match ← compareString buf want len (off + 1) with
            | none => pure (.done none)
            | some (true, _) => pure (.done (some true))
            | some (false, off) => pure (.next (off + 1))) (len - off + 1) (off + 1)
    else pure none

def jsonHasKeyLocal (buf key : Bytes) : Checked Bool :=
  loop (fun i =>
    if i + key.length + 2 < buf.length then do
      if ← quotedKeyAt buf key i then pure (.done true) else pure (.next (i + 1))
    else pure (.done false)) (buf.length + 1) 0

def jsonStringKeyIsExplicitlyEmpty (buf key : Bytes) : Checked Bool := do
  match ← jsonFindValue buf buf.length key 0 with
  | none => pure false
  | some off =>
    if ← testAt (· == quote) buf buf.length off then testAt (· == quote) buf buf.length (off + 1)
    else pure false

/-- The escapes of one letter that the partial extractor knows. -/
def unescapePartial (b : UInt8) : UInt8 :=
  if b = 98 then 8 else if b = 102 then 12 else unescape b

/-- The rest of a string, as far as it is there and fits. -/
def readPartialString (buf : Bytes) (capacity start : ℕ) : Checked Bytes :=
  loop (fun (off, out) =>
    if off < buf.length ∧ out.length < capacity then do
      let b ← index buf off
      if b = quote then pure (.done out)
      else if b ≠ backslash then
        let out ← extend out capacity [b]
        pure (.next (off + 1, out))
      else if off + 1 ≥ buf.length then pure (.done out)
      else
        let esc ← index buf (off + 1)
        if esc = 117 then
          if off + 6 ≤ buf.length then
            match ← readHex4 buf (off + 2) with
            | none => pure (.done out)
            | some cp =>
              let out ← appendUtf8Codepoint capacity out cp
              pure (.next (off + 6, out))
          else pure (.done out)
        else
          let out ← extend out capacity [unescapePartial esc]
          pure (.next (off + 2, out))
    else pure (.done out)) (buf.length - start + 1) (start, [])

def jsonExtractStringPartialLocal (buf key : Bytes) (capacity : ℕ) : Checked Bytes :=
  loop (fun i =>
    if i + key.length + 2 < buf.length then do
      if ← quotedKeyAt buf key i then
        let off ← skipWhile isSpace buf buf.length (i + key.length + 2)
        if ← testAt (· == colon) buf buf.length off then
          let off ← skipWhile isSpace buf buf.length (off + 1)
          if ← testAt (· == quote) buf buf.length off then
            .done <$> readPartialString buf capacity (off + 1)
          else pure (.next (i + 1))
        else pure (.next (i + 1))
      else pure (.next (i + 1))
    else pure (.done [])) (buf.length + 1) 0

/-- The text between the blanks around it, as `trim_ascii_bounds` and the copy behind it leave it. -/
def trimText (text : Bytes) : Checked Bytes := do
  let start ← skipWhile isSpace text text.length 0
  let stop ← trimEnd text start text.length
  slice text start stop

/-- `extract_openai_nested_output_text`: the `text` of the first part of type `output_text`. -/
def extractOpenaiNestedOutputText (body : Bytes) (capacity : ℕ) : Checked (Option Bytes) :=
  loop (fun scan =>
    if scan < body.length then do
      match ← jsonExtractStringFrom body body.length (ascii "type") 32 scan with
      | none => pure (.done none)
      | some (valueStart, kind) =>
        if ← startsWith kind kind.length (ascii "output_text") then
          match ← jsonExtractStringFrom body body.length (ascii "text") capacity valueStart with
          | none => pure (.done none)
          | some (_, text) => .done <$> some <$> trimText text
        else pure (.next (saturatingAdd (saturatingAdd valueStart kind.length) 1))
    else pure (.done none)) (body.length + 1) 0

def extractOpenaiOutputText (body cached : Bytes) (capacity : ℕ) : Checked (Option Bytes) := do
  if cached ≠ [] then pure (some (cached.take capacity))
  else
    match ← extractOpenaiNestedOutputText body capacity with
    | some text => pure (some text)
    | none =>
      match ← jsonExtractString body body.length (ascii "output_text") capacity with
      | none => pure none
      | some text => some <$> trimText text

section Safety

variable {buf key out : Bytes} {len capacity off : ℕ}

theorem hexNibble_returns (b : UInt8) :
    Returns (hexNibble b) fun r => ∀ n, r = some n → n < 16 := by
  have hsome : ∀ m : ℕ, m < 16 → ∀ n, some m = some n → n < 16 := by
    rintro m hm n ⟨⟩
    exact hm
  simp only [hexNibble, UInt8.le_iff_toNat_le]
  apply Returns.ite
  · intro hdigit
    have hlow : 48 ≤ b.toNat := hdigit.1
    have hhigh : b.toNat ≤ 57 := hdigit.2
    rw [returns_map, returns_sub]
    exact ⟨hlow, hsome _ (by omega)⟩
  intro _
  apply Returns.ite
  · intro hlower
    have hlow : 97 ≤ b.toNat := hlower.1
    have hhigh : b.toNat ≤ 102 := hlower.2
    apply Returns.bind (returns_sub.mpr ⟨hlow, rfl⟩)
    rintro d rfl
    rw [returns_map, returns_add]
    exact ⟨by omega, hsome _ (by omega)⟩
  intro _
  apply Returns.ite
  · intro hupper
    have hlow : 65 ≤ b.toNat := hupper.1
    have hhigh : b.toNat ≤ 70 := hupper.2
    apply Returns.bind (returns_sub.mpr ⟨hlow, rfl⟩)
    rintro d rfl
    rw [returns_map, returns_add]
    exact ⟨by omega, hsome _ (by omega)⟩
  · exact fun _ => Returns.pure (by simp)

theorem extend_returns {piece : Bytes} (h : out.length + piece.length ≤ capacity) :
    Returns (extend out capacity piece) fun r => r.length ≤ capacity := by
  rw [extend_eq h, returns_ok, List.length_append]
  exact h

theorem putByte_returns (h : out.length ≤ capacity) (b : UInt8) :
    Returns (putByte capacity out b) fun r => r.length ≤ capacity := by
  apply Returns.ite
  · exact fun hroom => extend_returns hroom
  · exact fun _ => Returns.pure h

theorem appendUtf8Codepoint_returns (h : out.length ≤ capacity) (cp : ℕ) :
    Returns (appendUtf8Codepoint capacity out cp) fun r => r.length ≤ capacity := by
  apply Returns.ite
  · exact fun hroom => extend_returns hroom.2
  · exact fun _ => Returns.pure h

theorem readHex4_returns (h : off + 4 ≤ buf.length) : Returns (readHex4 buf off) fun _ => True := by
  apply Returns.bind (index_returns (by omega))
  intro b0 _
  apply Returns.bind (hexNibble_returns b0)
  intro d0 _
  cases d0 with
  | none => exact Returns.pure trivial
  | some d0 =>
    apply Returns.bind (index_returns (by omega))
    intro b1 _
    apply Returns.bind (hexNibble_returns b1)
    intro d1 _
    cases d1 with
    | none => exact Returns.pure trivial
    | some d1 =>
      apply Returns.bind (index_returns (by omega))
      intro b2 _
      apply Returns.bind (hexNibble_returns b2)
      intro d2 _
      cases d2 with
      | none => exact Returns.pure trivial
      | some d2 =>
        apply Returns.bind (index_returns (by omega))
        intro b3 _
        apply Returns.bind (hexNibble_returns b3)
        intro d3 _
        cases d3 with
        | none => exact Returns.pure trivial
        | some d3 => exact Returns.pure trivial

theorem quotedKeyAt_returns {i : ℕ} (h : i + key.length + 2 ≤ buf.length) :
    Returns (quotedKeyAt buf key i) fun _ => True := by
  apply Returns.bind (index_returns (by omega))
  intro b _
  apply Returns.ite
  · exact fun _ => Returns.pure trivial
  intro _
  apply Returns.bind (matchesAt_returns (by omega))
  intro found _
  apply Returns.ite
  · intro _
    rw [returns_map]
    exact index_returns (by omega)
  · exact fun _ => Returns.pure trivial

/-- A key is found behind the start of the search, with its colon within the text. -/
theorem jsonFindKeyFrom_returns (hlen : len ≤ buf.length) (start : ℕ) :
    Returns (jsonFindKeyFrom buf len key start) fun r =>
      ∀ off, r = some off → start < off ∧ off ≤ len := by
  refine returns_loop (fun i => start ≤ i) (fun i => len - i) ?_ le_rfl (by omega)
  intro i hi
  have hnext : Returns (pure (.next (i + 1)) : Checked (Round ℕ (Option ℕ)))
      (RoundPost (fun i => start ≤ i) (fun i => len - i)
        (fun r => ∀ off, r = some off → start < off ∧ off ≤ len) i) ↔ i < len := by
    rw [returns_pure, roundPost_next]
    omega
  apply Returns.ite
  swap
  · exact fun _ => Returns.pure (by simp)
  intro hroom
  apply Returns.bind (quotedKeyAt_returns (by omega))
  intro found _
  apply Returns.ite
  swap
  · exact fun _ => hnext.mpr (by omega)
  intro _
  apply Returns.bind (skipWhile_returns isSpace (by omega) hlen)
  intro off hoff
  apply Returns.bind (testAt_returns (· == colon) hlen)
  intro isColon hcolon
  apply Returns.ite
  swap
  · exact fun _ => hnext.mpr (by omega)
  intro h
  have hlt := hcolon h
  apply Returns.pure
  rintro off' ⟨⟩
  omega

theorem jsonFindValue_returns (hlen : len ≤ buf.length) (start : ℕ) :
    Returns (jsonFindValue buf len key start) fun r =>
      ∀ off, r = some off → start < off ∧ off ≤ len := by
  apply Returns.bind (jsonFindKeyFrom_returns hlen start)
  intro r hr
  cases r with
  | none => exact Returns.pure (by simp)
  | some off =>
    obtain ⟨hlow, hhigh⟩ := hr off rfl
    rw [returns_map]
    apply (skipWhile_returns isSpace hhigh hlen).mono
    rintro value hvalue off' ⟨⟩
    omega

theorem readString_returns (hlen : len ≤ buf.length) (start : ℕ) :
    Returns (readString buf len capacity start) fun r =>
      ∀ text, r = some text → text.length ≤ capacity := by
  refine returns_loop (fun s => s.2.length ≤ capacity) (fun s => len - s.1) ?_ (Nat.zero_le _)
    (Nat.lt_succ_self _)
  rintro ⟨off, out⟩ hout
  dsimp only at hout
  apply Returns.ite
  swap
  · exact fun _ => Returns.pure (by simp)
  intro hoff
  apply Returns.bind (index_returns (by omega))
  intro b _
  apply Returns.ite
  · intro _
    apply Returns.pure
    rintro text ⟨⟩
    exact hout
  intro _
  apply Returns.ite
  swap
  · intro _
    apply Returns.bind (putByte_returns hout b)
    intro out hout
    exact Returns.pure ⟨hout, by dsimp only; omega⟩
  intro _
  apply Returns.ite
  · exact fun _ => Returns.pure (by simp)
  intro hesc
  apply Returns.bind (index_returns (by omega))
  intro esc _
  apply Returns.ite
  swap
  · intro _
    apply Returns.bind (putByte_returns hout (unescape esc))
    intro out hout
    exact Returns.pure ⟨hout, by dsimp only; omega⟩
  intro _
  apply Returns.ite
  · exact fun _ => Returns.pure (by simp)
  intro hdigits
  apply Returns.bind (readHex4_returns (by omega))
  intro r _
  cases r with
  | none => exact Returns.pure (by simp)
  | some cp =>
    apply Returns.bind (appendUtf8Codepoint_returns hout cp)
    intro out hout
    exact Returns.pure ⟨hout, by dsimp only; omega⟩

/-- A string value starts behind the start of the search, and fits the output buffer. -/
theorem jsonExtractStringFrom_returns (hlen : len ≤ buf.length) (start : ℕ) :
    Returns (jsonExtractStringFrom buf len key capacity start) fun r =>
      ∀ value, r = some value → start < value.1 ∧ value.2.length ≤ capacity := by
  apply Returns.bind (jsonFindValue_returns hlen start)
  intro r hr
  cases r with
  | none => exact Returns.pure (by simp)
  | some off =>
    have hoff := (hr off rfl).1
    apply Returns.bind (testAt_returns (· == quote) hlen)
    intro opens _
    apply Returns.ite
    swap
    · exact fun _ => Returns.pure (by simp)
    intro _
    apply Returns.bind (readString_returns hlen (off + 1))
    intro text htext
    apply Returns.pure
    rintro value hvalue
    rw [Option.map_eq_some_iff] at hvalue
    obtain ⟨text', rfl, rfl⟩ := hvalue
    exact ⟨hoff, htext text' rfl⟩

theorem jsonExtractString_returns (hlen : len ≤ buf.length) :
    Returns (jsonExtractString buf len key capacity) fun r =>
      ∀ text, r = some text → text.length ≤ capacity := by
  apply Returns.bind (jsonExtractStringFrom_returns hlen 0)
  intro r hr
  apply Returns.pure
  intro text htext
  rw [Option.map_eq_some_iff] at htext
  obtain ⟨value, rfl, rfl⟩ := htext
  exact (hr value rfl).2

theorem jsonExtractStringLocal_returns (buf key : Bytes) (capacity : ℕ) :
    Returns (jsonExtractStringLocal buf key capacity) fun _ => True := by
  apply Returns.bind (jsonExtractString_returns le_rfl)
  exact fun _ _ => Returns.pure trivial

theorem parseU64_returns (hlen : len ≤ buf.length) :
    Returns (parseU64 buf len) fun _ => True := by
  apply Returns.bind (skipWhile_returns isSpace (Nat.zero_le _) hlen)
  intro start _
  apply Returns.ite
  · exact fun _ => Returns.pure trivial
  intro _
  refine returns_loop (fun _ => True) (fun s => len - s.1) ?_ trivial (by simp)
  rintro ⟨i, v, saw⟩ _
  apply Returns.ite
  swap
  · exact fun _ => Returns.pure trivial
  intro hi
  apply Returns.bind (index_returns (by omega))
  intro b _
  apply Returns.ite
  swap
  · exact fun _ => Returns.pure trivial
  intro hdigit
  apply Returns.bind (digitVal_returns hdigit)
  intro digit _
  exact Returns.pure ⟨trivial, by dsimp only; omega⟩

theorem jsonExtractU64_returns (hlen : len ≤ buf.length) :
    Returns (jsonExtractU64 buf len key) fun _ => True := by
  apply Returns.bind (jsonFindValue_returns hlen 0)
  intro r hr
  cases r with
  | none => exact Returns.pure trivial
  | some off =>
    have hoff := (hr off rfl).2
    dsimp only
    rw [slice_eq hoff hlen, ok_bind]
    apply parseU64_returns
    rw [List.length_drop, List.length_take]
    omega

theorem jsonExtractBool_returns (hlen : len ≤ buf.length) :
    Returns (jsonExtractBool buf len key) fun _ => True := by
  apply Returns.bind (jsonFindValue_returns hlen 0)
  intro r _
  cases r with
  | none => exact Returns.pure trivial
  | some off =>
    apply Returns.bind (startsWithAt_returns hlen)
    intro isTrue _
    apply Returns.ite
    · exact fun _ => Returns.pure trivial
    intro _
    apply Returns.bind (startsWithAt_returns hlen)
    intro isFalse _
    exact Returns.ite (fun _ => Returns.pure trivial) fun _ => Returns.pure trivial

theorem compareString_returns {want : Bytes} (hlen : len ≤ buf.length) (start : ℕ) :
    Returns (compareString buf want len start) fun r =>
      ∀ value, r = some value → start ≤ value.2 ∧ value.2 < len := by
  refine returns_loop (fun s => start ≤ s.1) (fun s => len - s.1) ?_ le_rfl (by simp)
  rintro ⟨off, idx, matched⟩ hstart
  dsimp only at hstart
  apply Returns.ite
  swap
  · exact fun _ => Returns.pure (by simp)
  intro hoff
  apply Returns.bind (index_returns (by omega))
  intro b _
  apply Returns.ite
  · intro _
    apply Returns.pure
    rintro value ⟨⟩
    exact ⟨hstart, hoff⟩
  intro _
  apply Returns.ite
  · intro _
    apply Returns.ite
    · exact fun _ => Returns.pure (by simp)
    intro hesc
    rw [returns_map]
    apply (index_returns (by omega)).mono
    intro esc _
    rw [roundPost_next]
    dsimp only
    omega
  · intro _
    apply Returns.pure
    rw [roundPost_next]
    dsimp only
    omega

theorem jsonStringArrayContains_returns {want : Bytes} (hlen : len ≤ buf.length) :
    Returns (jsonStringArrayContains buf len key want) fun _ => True := by
  apply Returns.bind (jsonFindValue_returns hlen 0)
  intro r _
  cases r with
  | none => exact Returns.pure trivial
  | some off =>
    apply Returns.bind (testAt_returns (· == 91) hlen)
    intro opens hopens
    apply Returns.ite
    swap
    · exact fun _ => Returns.pure trivial
    intro h
    have hoff := hopens h
    refine returns_loop (fun off => off ≤ len) (fun off => len - off) ?_ hoff (by omega)
    intro off hoff
    apply Returns.bind (skipWhile_returns _ hoff hlen)
    intro item hitem
    apply Returns.ite
    · exact fun _ => Returns.pure trivial
    intro hin
    apply Returns.bind (index_returns (by omega))
    intro b _
    apply Returns.ite
    · exact fun _ => Returns.pure trivial
    intro _
    apply Returns.ite
    · exact fun _ => Returns.pure trivial
    intro _
    apply Returns.bind (compareString_returns hlen (item + 1))
    intro r hr
    match r with
    | none => exact Returns.pure trivial
    | some (true, close) => exact Returns.pure trivial
    | some (false, close) =>
      have hclose := hr _ rfl
      apply Returns.pure
      rw [roundPost_next]
      dsimp only at hclose
      omega

theorem jsonHasKeyLocal_returns (buf key : Bytes) :
    Returns (jsonHasKeyLocal buf key) fun _ => True := by
  refine returns_loop (fun _ => True) (fun i => buf.length - i) ?_ trivial (by omega)
  intro i _
  apply Returns.ite
  swap
  · exact fun _ => Returns.pure trivial
  intro hroom
  apply Returns.bind (quotedKeyAt_returns (by omega))
  intro found _
  apply Returns.ite
  · exact fun _ => Returns.pure trivial
  · exact fun _ => Returns.pure ⟨trivial, by dsimp only; omega⟩

theorem jsonStringKeyIsExplicitlyEmpty_returns (buf key : Bytes) :
    Returns (jsonStringKeyIsExplicitlyEmpty buf key) fun _ => True := by
  apply Returns.bind (jsonFindValue_returns le_rfl 0)
  intro r _
  cases r with
  | none => exact Returns.pure trivial
  | some off =>
    apply Returns.bind (testAt_returns _ le_rfl)
    intro opens _
    apply Returns.ite
    · exact fun _ => (testAt_returns _ le_rfl).mono fun _ _ => trivial
    · exact fun _ => Returns.pure trivial

theorem readPartialString_returns (buf : Bytes) (capacity start : ℕ) :
    Returns (readPartialString buf capacity start) fun _ => True := by
  refine returns_loop (fun s => s.2.length ≤ capacity) (fun s => buf.length - s.1) ?_
    (Nat.zero_le _) (by simp)
  rintro ⟨off, out⟩ hout
  dsimp only at hout
  apply Returns.ite
  swap
  · exact fun _ => Returns.pure trivial
  rintro ⟨hoff, hroom⟩
  have hput : ∀ b : UInt8, Returns (extend out capacity [b]) fun r => r.length ≤ capacity :=
    fun b => extend_returns hroom
  apply Returns.bind (index_returns hoff)
  intro b _
  apply Returns.ite
  · exact fun _ => Returns.pure trivial
  intro _
  apply Returns.ite
  · intro _
    apply Returns.bind (hput b)
    intro out hout
    exact Returns.pure ⟨hout, by dsimp only; omega⟩
  intro _
  apply Returns.ite
  · exact fun _ => Returns.pure trivial
  intro hesc
  apply Returns.bind (index_returns (by omega))
  intro esc _
  apply Returns.ite
  swap
  · intro _
    apply Returns.bind (hput (unescapePartial esc))
    intro out hout
    exact Returns.pure ⟨hout, by dsimp only; omega⟩
  intro _
  apply Returns.ite
  swap
  · exact fun _ => Returns.pure trivial
  intro hdigits
  apply Returns.bind (readHex4_returns (by omega))
  intro r _
  cases r with
  | none => exact Returns.pure trivial
  | some cp =>
    apply Returns.bind (appendUtf8Codepoint_returns hout cp)
    intro out hout
    exact Returns.pure ⟨hout, by dsimp only; omega⟩

theorem jsonExtractStringPartialLocal_returns (buf key : Bytes) (capacity : ℕ) :
    Returns (jsonExtractStringPartialLocal buf key capacity) fun _ => True := by
  refine returns_loop (fun _ => True) (fun i => buf.length - i) ?_ trivial (by omega)
  intro i _
  apply Returns.ite
  swap
  · exact fun _ => Returns.pure trivial
  intro hroom
  have hnext : Returns (pure (.next (i + 1)) : Checked (Round ℕ Bytes))
      (RoundPost (fun _ => True) (fun i => buf.length - i) (fun _ => True) i) := by
    rw [returns_pure, roundPost_next]
    exact ⟨trivial, by omega⟩
  apply Returns.bind (quotedKeyAt_returns (by omega))
  intro found _
  apply Returns.ite
  swap
  · exact fun _ => hnext
  intro _
  apply Returns.bind (skipWhile_returns isSpace (by omega) le_rfl)
  intro off _
  apply Returns.bind (testAt_returns (· == colon) le_rfl)
  intro isColon hcolon
  apply Returns.ite
  swap
  · exact fun _ => hnext
  intro h
  apply Returns.bind (skipWhile_returns isSpace (hcolon h) le_rfl)
  intro value _
  apply Returns.bind (testAt_returns _ le_rfl)
  intro opens _
  apply Returns.ite
  swap
  · exact fun _ => hnext
  intro _
  rw [returns_map]
  exact readPartialString_returns buf capacity (value + 1)

theorem trimText_returns (text : Bytes) : Returns (trimText text) fun _ => True := by
  apply Returns.bind (skipWhile_returns isSpace (Nat.zero_le _) le_rfl)
  intro start hstart
  apply Returns.bind (trimEnd_returns hstart.2 le_rfl)
  intro stop hstop
  exact returns_slice hstop.1 hstop.2 trivial

/-- The scan for the output text ends in every body that the response buffer can hold. -/
theorem extractOpenaiNestedOutputText_returns {body : Bytes} (hbody : body.length < 2 ^ 64)
    (capacity : ℕ) : Returns (extractOpenaiNestedOutputText body capacity) fun _ => True := by
  refine returns_loop (fun _ => True) (fun scan => body.length - scan) ?_ trivial (by omega)
  intro scan _
  apply Returns.ite
  swap
  · exact fun _ => Returns.pure trivial
  intro hscan
  apply Returns.bind (jsonExtractStringFrom_returns le_rfl scan)
  intro r hr
  cases r with
  | none => exact Returns.pure trivial
  | some value =>
    obtain ⟨valueStart, kind⟩ := value
    have hstart : scan < valueStart := (hr _ rfl).1
    apply Returns.bind (startsWithAt_returns le_rfl)
    intro hit _
    apply Returns.ite
    swap
    · intro _
      apply Returns.pure
      rw [roundPost_next]
      refine ⟨trivial, ?_⟩
      unfold saturatingAdd
      omega
    intro _
    apply Returns.bind (jsonExtractStringFrom_returns le_rfl valueStart)
    intro r _
    cases r with
    | none => exact Returns.pure trivial
    | some value =>
      obtain ⟨_, text⟩ := value
      simp only [returns_map]
      exact trimText_returns text

theorem extractOpenaiOutputText_returns {body : Bytes} (hbody : body.length < 2 ^ 64)
    (cached : Bytes) (capacity : ℕ) :
    Returns (extractOpenaiOutputText body cached capacity) fun _ => True := by
  apply Returns.ite
  · exact fun _ => Returns.pure trivial
  intro _
  apply Returns.bind (extractOpenaiNestedOutputText_returns hbody capacity)
  intro r _
  cases r with
  | some text => exact Returns.pure trivial
  | none =>
    apply Returns.bind (jsonExtractString_returns le_rfl)
    intro r _
    cases r with
    | none => exact Returns.pure trivial
    | some text =>
      rw [returns_map]
      exact trimText_returns text

end Safety

end MiniAgentOS
