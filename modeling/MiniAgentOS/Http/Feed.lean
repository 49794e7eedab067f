import MiniAgentOS.Http.Header

/-! `http_feed`: the response parser, fed with pieces of the response as they arrive. -/
namespace MiniAgentOS.Http
open Checked

/-- `HTTP_PARSE_STATE`, 0 to 5. -/
inductive ParseState where
  | headers
  | body
  | chunkSize
  | chunkData
  | chunkEnd
  | complete
  deriving DecidableEq, Repr

/-- The `HTTP_*` globals. `header` is the first `HTTP_HEADER_LEN` bytes of `HTTP_HEADER_BUF`. -/
structure HttpParser where
  header : Bytes := []
  status : ℕ := 0
  chunked : Bool := false
  contentLen : ℕ := 0
  bodyRecv : ℕ := 0
  state : ParseState := .headers
  chunkRemain : ℕ := 0
  chunkParse : UInt64 := 0
  chunkHaveDigit : Bool := false
  chunkExt : Bool := false
  chunkExpectLf : Bool := false
  isJson : Bool := false
  statusSent : Bool := false
  deriving DecidableEq, Repr

def httpReset : HttpParser := {}

@[simp] theorem httpReset_header : httpReset.header = [] := rfl

/-- Length of `HTTP_HEADER_BUF`. -/
def headerBufLen : ℕ := 4096

/-- What the parser hands on: header bytes to `send_http_chunks`, the status to `send_status`,
the clock to `set_oauth_time`, the target of a `Location` field to the redirect capture, body
bytes to `send_body_chunks`. Headers that do not fit end the fetch without a response. -/
inductive HttpEffect where
  | headerBytes (data : Bytes)
  | status (code : ℕ)
  | setTime (epoch : ℕ)
  | redirect (target : RedirectTarget)
  | body (data : Bytes) (json : Bool)
  | headersTooLarge
  deriving DecidableEq, Repr

/-- The state of the loop of `http_feed`: the globals, what was handed on and the index. -/
structure FeedState where
  http : HttpParser
  effects : List HttpEffect
  idx : ℕ
  deriving DecidableEq, Repr

abbrev FeedResult := HttpParser × List HttpEffect

def headerTerminator : Bytes := [cr, lf, cr, lf]

/-- The end of the first header terminator within the rest of the piece. -/
def findHeaderEnd (data : Bytes) (idx : ℕ) : Checked (Option ℕ) :=
  loop (fun i =>
    if i + 3 < data.length then do
      if ← matchesAt data i headerTerminator then pure (.done (some (i + 4))) else pure (.next (i + 1))
    else pure (.done none)) (data.length - idx + 1) idx

/-- The globals after `http_parse_headers`, and what it hands on. -/
def applyHeaders (http : HttpParser) (info : HeaderInfo) : FeedResult :=
  let sendStatus := !http.statusSent && info.status != 0
  ({ http with
      status := info.status
      chunked := info.chunked
      contentLen := info.contentLen
      isJson := info.isJson
      statusSent := http.statusSent || sendStatus
      state := if info.chunked then .chunkSize else .body },
    info.date.toList.map .setTime ++ info.redirect.toList.map .redirect ++
      if sendStatus then [.status info.status] else [])

/-- State 0: collect header bytes up to the terminator, if the piece holds one. -/
def feedHeaders (data : Bytes) (s : FeedState) : Checked (Round FeedState FeedResult) := do
  match ← findHeaderEnd data s.idx with
  | some hEnd =>
    let piece ← slice data s.idx hEnd
    let effects := s.effects ++ [.headerBytes piece]
    if s.http.header.length + piece.length ≤ headerBufLen then
      let header ← extend s.http.header headerBufLen piece
      let info ← httpParseHeaders header header.length s.http.chunked s.http.isJson s.http.contentLen
      let (http, more) := applyHeaders { s.http with header } info
      pure (.next ⟨http, effects ++ more, hEnd⟩)
    else pure (.done (s.http, effects ++ [.headersTooLarge]))
  | none =>
    let piece ← slice data s.idx data.length
    let effects := s.effects ++ [.headerBytes piece]
    if s.http.header.length + piece.length ≤ headerBufLen then
      let header ← extend s.http.header headerBufLen piece
      pure (.done ({ s.http with header }, effects))
    else pure (.done (s.http, effects ++ [.headersTooLarge]))

/-- How many of the next bytes of the piece belong to the body. -/
def bodyTake (http : HttpParser) (rest : ℕ) : ℕ :=
  if http.contentLen > 0 then min rest (http.contentLen - http.bodyRecv) else rest

/-- State 1: the body, up to the content length if there is one. -/
def feedBody (data : Bytes) (s : FeedState) : Checked (Round FeedState FeedResult) := do
  let rest ← sub data.length s.idx
  let take := bodyTake s.http rest
  if take = 0 then pure (.done (s.http, s.effects))
  else
    let piece ← slice data s.idx (s.idx + take)
    let effects := s.effects ++ [.body piece s.http.isJson]
    let bodyRecv := saturatingAdd s.http.bodyRecv take
    if s.http.contentLen > 0 ∧ bodyRecv ≥ s.http.contentLen then
      pure (.done ({ s.http with bodyRecv, state := .complete }, effects))
    else pure (.next ⟨{ s.http with bodyRecv }, effects, s.idx + take⟩)

/-- One byte of a chunk size line. -/
def chunkSizeByte (http : HttpParser) (b : UInt8) : Checked HttpParser :=
  if http.chunkExpectLf then
    if b = lf then
      pure { http with
        chunkParse := 0
        chunkHaveDigit := false
        chunkExt := false
        chunkExpectLf := false
        chunkRemain := http.chunkParse.toNat
        state := if http.chunkParse = 0 then .complete else .chunkData }
    else pure http
  else if b = cr then pure { http with chunkExpectLf := true }
  else if http.chunkExt then pure http
  else if b = semicolon then pure { http with chunkExt := true }
  else if isHex b then do
    let digit ← hexVal b
    pure { http with
      chunkParse := (http.chunkParse <<< 4) ||| UInt64.ofNat digit
      chunkHaveDigit := true }
  else pure http

/-- State 2: the chunk size line. -/
def feedChunkSize (data : Bytes) (s : FeedState) : Checked (Round FeedState FeedResult) := do
  let b ← index data s.idx
  let http ← chunkSizeByte s.http b
  pure (.next { s with http, idx := s.idx + 1 })

/-- State 3: the data of a chunk. -/
def feedChunkData (data : Bytes) (s : FeedState) : Checked (Round FeedState FeedResult) := do
  let rest ← sub data.length s.idx
  let take := min rest s.http.chunkRemain
  if take = 0 then pure (.done (s.http, s.effects))
  else
    let piece ← slice data s.idx (s.idx + take)
    let effects := s.effects ++ [.body piece s.http.isJson]
    let chunkRemain := s.http.chunkRemain - take
    let state := if chunkRemain = 0 then .chunkEnd else s.http.state
    pure (.next ⟨{ s.http with chunkRemain, state }, effects, s.idx + take⟩)

/-- State 4: the line end after the data of a chunk. -/
def feedChunkEnd (data : Bytes) (s : FeedState) : Checked (Round FeedState FeedResult) := do
  let b ← index data s.idx
  if b = cr then
    let skipLf ← testAt (· == lf) data data.length (s.idx + 1)
    let idx := if skipLf then s.idx + 2 else s.idx + 1
    pure (.next { s with http := { s.http with state := .chunkSize }, idx })
  else pure (.next { s with idx := s.idx + 1 })

/-- The body of the loop of `http_feed`. -/
def feedRound (data : Bytes) (s : FeedState) : Checked (Round FeedState FeedResult) :=
  if s.idx < data.length then
    match s.http.state with
    | .headers => feedHeaders data s
    | .body => feedBody data s
    | .chunkSize => feedChunkSize data s
    | .chunkData => feedChunkData data s
    | .chunkEnd => feedChunkEnd data s
    | .complete => pure (.done (s.http, s.effects))
  else pure (.done (s.http, s.effects))

/-- `http_feed`: the globals afterwards, and what was handed on. -/
def httpFeed (http : HttpParser) (data : Bytes) : Checked FeedResult :=
  loop (feedRound data) (data.length + 1) ⟨http, [], 0⟩

/-- Feeding several pieces in order. -/
def feedAll (http : HttpParser) : List Bytes → Checked FeedResult
  | [] => pure (http, [])
  | data :: pieces => do
    let (http, effects) ← httpFeed http data
    let (http, rest) ← feedAll http pieces
    pure (http, effects ++ rest)

end MiniAgentOS.Http
