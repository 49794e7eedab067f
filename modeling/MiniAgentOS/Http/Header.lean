import MiniAgentOS.Http.Date
import MiniAgentOS.Text.Url

/-! Reading a complete header block: the status line, header fields and the redirect target. -/
namespace MiniAgentOS.Http
open Checked

/-- The value behind the colon of a field: its bounds, unless it is empty. -/
def fieldValue (buf : Bytes) (len start : ℕ) : Checked (Option (ℕ × ℕ)) := do
  let start ← skipWhile isBlank buf len start
  let stop ← skipWhile (fun b => !isLineEnd b) buf len start
  if start < stop then pure (some (start, stop)) else pure none

/-- Whether `name` and a colon stand at `i`. -/
def fieldAt (buf name : Bytes) (i : ℕ) : Checked Bool := do
  if ← matchesLower buf i name then (· == 58) <$> index buf (i + name.length) else pure false

/-- `header_value`: the first place where the name and a colon stand decides. -/
def headerValue (buf : Bytes) (len : ℕ) (name : Bytes) : Checked (Option (ℕ × ℕ)) :=
  loop (fun i =>
    if i + name.length + 1 < len then do
      if ← fieldAt buf name i then .done <$> fieldValue buf len (i + name.length + 1)
      else pure (.next (i + 1))
    else pure (.done none)) (len + 1) 0

/-- `parse_status`, 0 when there is no status. -/
def parseStatus (buf : Bytes) (len : ℕ) : Checked ℕ := do
  if len < 12 then pure 0
  else if !((ascii "HTTP/1.1").isPrefixOf buf || (ascii "HTTP/1.0").isPrefixOf buf) then pure 0
  else
    let i ← skipWhile (· == space) buf len 8
    if i + 2 ≥ len then pure 0
    else
      let a ← index buf i
      let b ← index buf (i + 1)
      let c ← index buf (i + 2)
      if !(isDigit a && isDigit b && isDigit c) then pure 0
      else
        let a ← digitVal a
        let b ← digitVal b
        let c ← digitVal c
        let hundreds ← mul (2 ^ 16) a 100
        let tens ← mul (2 ^ 16) b 10
        let high ← add (2 ^ 16) hundreds tens
        add (2 ^ 16) high c

/-- Whether a line starts at `i`. -/
def lineStart (buf : Bytes) (i : ℕ) : Checked Bool :=
  if i = 0 then pure true else (· == lf) <$> index buf (i - 1)

/-- Whether a line starts at `i` with the name of the `Location` field. -/
def locationAt (buf : Bytes) (i : ℕ) : Checked Bool := do
  if ← lineStart buf i then matchesLower buf i (ascii "location:") else pure false

def findLocation (buf : Bytes) (len : ℕ) : Checked (Option (ℕ × ℕ)) :=
  loop (fun i =>
    if i + 9 ≤ len then do
      if ← locationAt buf i then .done <$> fieldValue buf len (i + 9) else pure (.next (i + 1))
    else pure (.done none)) (len + 1) 0

/-- Where a redirect leads: domain, path and scheme. -/
structure RedirectTarget where
  domain : Bytes
  path : Bytes
  https : Bool
  deriving DecidableEq, Repr

/-- The search of `capture_redirect`. -/
def redirectTarget (buf : Bytes) (len : ℕ) : Checked (Option RedirectTarget) := do
  match ← findLocation buf len with
  | none => pure none
  | some (start, stop) =>
    let val ← slice buf start stop
    match ← parseUrl val val.length with
    | none => pure none
    | some parts =>
      let domain ← slice val parts.domainStart (parts.domainStart + parts.domainLen)
      let path ← slice val parts.pathStart (parts.pathStart + parts.pathLen)
      pure (some ⟨domain, path, parts.https⟩)

/-- Whether `token` stands in a field value, up to the byte behind the value. -/
def containsToken (buf token : Bytes) (start stop : ℕ) : Checked Bool :=
  loop (fun i =>
    if i + (token.length - 1) ≤ stop then do
      if ← matchesLower buf i token then pure (.done true) else pure (.next (i + 1))
    else pure (.done false)) (stop - start + 2) start

/-- One byte of the value of `Content-Length`: digits count, other bytes are skipped. -/
def lengthDigit (v : ℕ) (b : UInt8) : Checked ℕ :=
  if isDigit b then do
    let shifted ← mul (2 ^ 64) v 10
    let d ← digitVal b
    add (2 ^ 64) shifted d
  else pure v

def contentLength (buf : Bytes) (start stop : ℕ) : Checked ℕ := foldIndex lengthDigit buf stop start 0

/-- What `http_parse_headers` takes from a header block. Fields that are absent leave what was
there before. -/
structure HeaderInfo where
  status : ℕ
  chunked : Bool
  contentLen : ℕ
  isJson : Bool
  date : Option ℕ
  redirect : Option RedirectTarget
  deriving DecidableEq, Repr

/-- A test on the value of a field, false when it is absent. -/
def fieldHasToken (buf : Bytes) (len : ℕ) (name token : Bytes) : Checked Bool := do
  match ← headerValue buf len name with
  | some (start, stop) => containsToken buf token start stop
  | none => pure false

def parseContentLength (buf : Bytes) (len old : ℕ) : Checked ℕ := do
  match ← headerValue buf len (ascii "content-length") with
  | some (start, stop) => contentLength buf start stop
  | none => pure old

def parseDate (buf : Bytes) (len : ℕ) : Checked (Option ℕ) := do
  match ← headerValue buf len (ascii "date") with
  | some (start, stop) =>
    let val ← slice buf start stop
    parseHttpDate val
  | none => pure none

/-- `http_parse_headers`, given the framing fields as they are before. -/
def httpParseHeaders (buf : Bytes) (len : ℕ) (chunked isJson : Bool) (contentLen : ℕ) :
    Checked HeaderInfo := do
  let status ← parseStatus buf len
  let nowChunked ← fieldHasToken buf len (ascii "transfer-encoding") (ascii "chunked")
  let contentLen ← parseContentLength buf len contentLen
  let nowJson ← fieldHasToken buf len (ascii "content-type") (ascii "application/json")
  let date ← parseDate buf len
  let redirect ← redirectTarget buf len
  pure ⟨status, chunked || nowChunked, contentLen, isJson || nowJson, date, redirect⟩

section Safety

variable {buf name : Bytes} {start stop : ℕ}

theorem fieldValue_returns (hstart : start ≤ buf.length) :
    Returns (fieldValue buf buf.length start) fun r => ∀ bounds, r = some bounds →
      bounds.1 < bounds.2 ∧ bounds.2 ≤ buf.length ∧
        (buf.getLast? = some lf → bounds.2 < buf.length) := by
  rw [fieldValue, returns_bind]
  refine (skipWhile_returns isBlank hstart le_rfl).mono fun start hstart => ?_
  rw [returns_bind]
  refine (skipWhile_spec _ hstart.2 le_rfl).mono fun stop hstop => ?_
  obtain ⟨⟨hlow, hhigh⟩, hpassed, -⟩ := hstop
  rw [returns_ite]
  refine ⟨fun hlt => ?_, fun _ => returns_pure.mpr (by simp)⟩
  rw [returns_pure]
  rintro bounds ⟨⟩
  refine ⟨hlt, hhigh, fun hlast => ?_⟩
  by_contra hend
  have hfull : stop = buf.length := by omega
  have hcell : buf[buf.length - 1]? = some lf := by rw [← hlast, List.getLast?_eq_getElem?]
  have hnot := hpassed (buf.length - 1) (by omega) (by omega) lf hcell
  exact absurd hnot (by decide)

theorem fieldAt_returns {i : ℕ} (h : i + name.length < buf.length) :
    Returns (fieldAt buf name i) fun _ => True := by
  rw [fieldAt, returns_bind]
  refine (matchesLower_returns (by omega)).mono fun found _ => ?_
  rw [returns_ite, returns_map]
  exact ⟨fun _ => returns_index h fun _ _ => trivial, fun _ => returns_pure.mpr trivial⟩

theorem headerValue_returns (buf name : Bytes) :
    Returns (headerValue buf buf.length name) fun r => ∀ bounds, r = some bounds →
      bounds.1 < bounds.2 ∧ bounds.2 ≤ buf.length ∧
        (buf.getLast? = some lf → bounds.2 < buf.length) := by
  refine returns_loop (fun _ => True) (fun i => buf.length - i) ?_ trivial (by omega)
  intro i _
  rw [returns_ite]
  refine ⟨fun hlt => ?_, fun _ => returns_pure.mpr (roundPost_done.mpr (by simp))⟩
  rw [returns_bind]
  refine (fieldAt_returns (by omega)).mono fun hit _ => ?_
  rw [returns_ite, returns_map, returns_pure, roundPost_next]
  refine ⟨fun _ => ?_, fun _ => ⟨trivial, by omega⟩⟩
  exact fieldValue_returns (by omega)

theorem parseStatus_returns (buf : Bytes) :
    Returns (parseStatus buf buf.length) fun status => status ≤ 999 := by
  have hzero : Returns (pure 0 : Checked ℕ) fun status => status ≤ 999 :=
    returns_pure.mpr (Nat.zero_le _)
  rw [parseStatus, returns_ite]
  refine ⟨fun _ => hzero, fun hlen => ?_⟩
  rw [returns_ite]
  refine ⟨fun _ => hzero, fun _ => ?_⟩
  rw [returns_bind]
  refine (skipWhile_returns _ (by omega) le_rfl).mono fun i _ => ?_
  rw [returns_ite]
  refine ⟨fun _ => hzero, fun hlt => ?_⟩
  rw [returns_bind]
  refine returns_index (by omega) fun a _ => ?_
  rw [returns_bind]
  refine returns_index (by omega) fun b _ => ?_
  rw [returns_bind]
  refine returns_index (by omega) fun c _ => ?_
  rw [returns_ite]
  refine ⟨fun _ => hzero, fun hdigits => ?_⟩
  simp only [Bool.not_eq_true', Bool.not_eq_false, Bool.and_eq_true] at hdigits
  rw [returns_bind]
  refine (digitVal_returns hdigits.1.1).mono fun a ha => ?_
  rw [returns_bind]
  refine (digitVal_returns hdigits.1.2).mono fun b hb => ?_
  rw [returns_bind]
  refine (digitVal_returns hdigits.2).mono fun c hc => ?_
  simp only [returns_bind, returns_mul, returns_add]
  omega

theorem lineStart_returns {i : ℕ} (h : i ≤ buf.length) :
    Returns (lineStart buf i) fun _ => True := by
  rw [lineStart, returns_ite, returns_map]
  exact ⟨fun _ => returns_pure.mpr trivial,
    fun hne => returns_index (by omega) fun _ _ => trivial⟩

theorem locationAt_returns {i : ℕ} (h : i + 9 ≤ buf.length) :
    Returns (locationAt buf i) fun _ => True := by
  have htoken : i + (ascii "location:").length ≤ buf.length := h
  rw [locationAt, returns_bind]
  refine (lineStart_returns (by omega)).mono fun atLine _ => ?_
  rw [returns_ite]
  exact ⟨fun _ => matchesLower_returns htoken, fun _ => returns_pure.mpr trivial⟩

theorem findLocation_returns (buf : Bytes) :
    Returns (findLocation buf buf.length) fun r => ∀ bounds, r = some bounds →
      bounds.1 < bounds.2 ∧ bounds.2 ≤ buf.length := by
  refine returns_loop (fun _ => True) (fun i => buf.length - i) ?_ trivial (by omega)
  intro i _
  rw [returns_ite]
  refine ⟨fun hfits => ?_, fun _ => returns_pure.mpr (roundPost_done.mpr (by simp))⟩
  rw [returns_bind]
  refine (locationAt_returns hfits).mono fun hit _ => ?_
  rw [returns_ite, returns_map, returns_pure, roundPost_next]
  refine ⟨fun _ => ?_, fun _ => ⟨trivial, by omega⟩⟩
  refine (fieldValue_returns (by omega)).mono fun r hr bounds hbounds => ?_
  exact ⟨(hr bounds hbounds).1, (hr bounds hbounds).2.1⟩

theorem redirectTarget_returns (buf : Bytes) :
    Returns (redirectTarget buf buf.length) fun _ => True := by
  rw [redirectTarget, returns_bind]
  refine (findLocation_returns buf).mono fun r hr => ?_
  rcases r with _ | ⟨start, stop⟩
  · exact returns_pure.mpr trivial
  obtain ⟨hlt, hle⟩ := hr _ rfl
  rw [returns_bind]
  refine returns_slice (by omega) hle ?_
  rw [returns_bind]
  refine (parseUrl_returns le_rfl).mono fun r hr => ?_
  cases r with
  | none => exact returns_pure.mpr trivial
  | some parts =>
    obtain ⟨hdomain, hpath⟩ := hr parts rfl
    rw [returns_bind]
    refine returns_slice (by omega) hdomain ?_
    rw [returns_bind]
    exact returns_slice (by omega) hpath (returns_pure.mpr trivial)

/-- The search for a token looks at most one byte past the value. -/
theorem containsToken_returns {token : Bytes} (hstop : stop < buf.length) (hne : token ≠ []) :
    Returns (containsToken buf token start stop) fun _ => True := by
  have hpos : 0 < token.length := List.length_pos_iff.mpr hne
  refine returns_loop (fun _ => True) (fun i => stop + 1 - i) ?_ trivial (by omega)
  intro i _
  rw [returns_ite]
  refine ⟨fun hfits => ?_, fun _ => returns_pure.mpr trivial⟩
  rw [returns_bind]
  refine (matchesLower_returns (by omega)).mono fun hit _ => ?_
  rw [returns_ite, returns_pure, returns_pure, roundPost_next]
  exact ⟨fun _ => trivial, fun _ => ⟨trivial, by omega⟩⟩

theorem fieldHasToken_returns {token : Bytes} (hlast : buf.getLast? = some lf) (hne : token ≠ []) :
    Returns (fieldHasToken buf buf.length name token) fun _ => True := by
  rw [fieldHasToken, returns_bind]
  refine (headerValue_returns buf name).mono fun r hr => ?_
  rcases r with _ | ⟨start, stop⟩
  · exact returns_pure.mpr trivial
  · exact containsToken_returns ((hr _ rfl).2.2 hlast) hne

theorem parseDate_returns (buf : Bytes) : Returns (parseDate buf buf.length) fun _ => True := by
  rw [parseDate, returns_bind]
  refine (headerValue_returns buf _).mono fun r hr => ?_
  rcases r with _ | ⟨start, stop⟩
  · exact returns_pure.mpr trivial
  obtain ⟨hlt, hle, -⟩ := hr _ rfl
  rw [returns_bind]
  exact returns_slice (by omega) hle (parseHttpDate_returns _)

end Safety

section ContentLength

variable {buf : Bytes} {start stop : ℕ}

/-- The number that the digits among the bytes make, behind the digits of `v`. -/
def decimalValue (v : ℕ) (digits : Bytes) : ℕ :=
  digits.foldl (fun v b => if isDigit b then v * 10 + (b.toNat - 48) else v) v

theorem le_decimalValue (digits : Bytes) : ∀ v, v ≤ decimalValue v digits := by
  induction digits with
  | nil => exact fun v => le_rfl
  | cons b digits ih =>
    intro v
    refine le_trans ?_ (ih _)
    dsimp only
    split_ifs <;> omega

theorem lengthDigit_eq (v : ℕ) (b : UInt8) (hv : v < 2 ^ 64) :
    lengthDigit v b = if decimalValue v [b] < 2 ^ 64 then .ok (decimalValue v [b])
      else .error .overflow := by
  have hsingle : decimalValue v [b] = if isDigit b then v * 10 + (b.toNat - 48) else v := rfl
  rw [lengthDigit, hsingle]
  by_cases hdigit : isDigit b
  · rw [if_pos hdigit, if_pos hdigit, mul]
    by_cases hshift : v * 10 < 2 ^ 64
    · rw [if_pos hshift, ok_bind, digitVal_eq hdigit, ok_bind, add]
    · rw [if_neg hshift, error_bind, if_neg (by omega)]
  · rw [if_neg hdigit, if_neg hdigit, if_pos hv]
    rfl

theorem foldlM_lengthDigit (digits : Bytes) : ∀ v, v < 2 ^ 64 →
    digits.foldlM lengthDigit v =
      if decimalValue v digits < 2 ^ 64 then .ok (decimalValue v digits) else .error .overflow := by
  induction digits with
  | nil =>
    intro v hv
    exact (if_pos hv).symm
  | cons b digits ih =>
    intro v hv
    have hcons : decimalValue v (b :: digits) = decimalValue (decimalValue v [b]) digits := rfl
    rw [List.foldlM_cons, lengthDigit_eq v b hv, hcons]
    by_cases hstep : decimalValue v [b] < 2 ^ 64
    · rw [if_pos hstep, ok_bind, ih _ hstep]
    · have hge := le_decimalValue digits (decimalValue v [b])
      rw [if_neg hstep, error_bind, if_neg (by omega)]

/-- The content length is the number its digits make, and overflows when a machine word cannot
hold it. -/
theorem contentLength_eq (hstop : stop ≤ buf.length) :
    contentLength buf start stop =
      if decimalValue 0 ((buf.take stop).drop start) < 2 ^ 64
        then .ok (decimalValue 0 ((buf.take stop).drop start)) else .error .overflow := by
  rw [contentLength, foldIndex_eq _ _ hstop, foldlM_lengthDigit _ _ (by decide)]

/-- The digits of the `Content-Length` field, if there is one, make a machine word. -/
def LengthFits (buf : Bytes) : Prop :=
  ∀ bounds, headerValue buf buf.length (ascii "content-length") = .ok (some bounds) →
    decimalValue 0 ((buf.take bounds.2).drop bounds.1) < 2 ^ 64

/-- Parsing a complete header block traps only on a content length that is no machine word. -/
theorem httpParseHeaders_returns_iff {chunked isJson : Bool} {contentLen : ℕ}
    (hlast : buf.getLast? = some lf) :
    Returns (httpParseHeaders buf buf.length chunked isJson contentLen) (fun _ => True) ↔
      LengthFits buf := by
  have hlength : Returns (parseContentLength buf buf.length contentLen) (fun _ => True) ↔
      LengthFits buf := by
    obtain ⟨r, hr, hbounds⟩ := headerValue_returns buf (ascii "content-length")
    rw [parseContentLength, hr, ok_bind, LengthFits, hr]
    rcases r with _ | ⟨start, stop⟩
    · simp
    · obtain ⟨hlt, hle, -⟩ := hbounds _ rfl
      dsimp only
      rw [contentLength_eq hle, returns_ite, returns_ok, returns_error]
      simp
  have hrest : ∀ status nowChunked contentLen, Returns (do
      let nowJson ← fieldHasToken buf buf.length (ascii "content-type") (ascii "application/json")
      let date ← parseDate buf buf.length
      let redirect ← redirectTarget buf buf.length
      pure (HeaderInfo.mk status (chunked || nowChunked) contentLen (isJson || nowJson) date redirect))
        fun _ => True := by
    intro status nowChunked contentLen
    rw [returns_bind]
    refine (fieldHasToken_returns hlast (by decide)).mono fun nowJson _ => ?_
    rw [returns_bind]
    refine (parseDate_returns buf).mono fun date _ => ?_
    rw [returns_bind]
    exact (redirectTarget_returns buf).mono fun redirect _ => returns_pure.mpr trivial
  obtain ⟨status, hstatus, -⟩ := parseStatus_returns buf
  obtain ⟨nowChunked, hchunked, -⟩ : Returns (fieldHasToken buf buf.length
    (ascii "transfer-encoding") (ascii "chunked")) fun _ => True :=
    fieldHasToken_returns hlast (by decide)
  rw [httpParseHeaders, hstatus, ok_bind, hchunked, ok_bind, returns_bind, ← hlength]
  constructor
  · exact fun h => h.mono fun _ _ => trivial
  · exact fun h => h.mono fun _ _ => hrest _ _ _

end ContentLength

end MiniAgentOS.Http
