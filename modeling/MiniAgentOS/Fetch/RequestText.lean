import MiniAgentOS.Fetch.State
import MiniAgentOS.Http.RequestForm
import MiniAgentOS.Net.UrlForm

/-! `build_http_request` byte by byte, and when a strict parser reads its output back as the request that was
asked for. -/
namespace MiniAgentOS.Fetch
open Checked Net Http

section Writer

/-- `out[i] = b; i += 1;` -/
def putOne (s : Bytes × ℕ) (b : UInt8) : Checked (Bytes × ℕ) :=
  if s.2 < s.1.length then .ok (s.1.set s.2 b, s.2 + 1) else .error .index

/-- A piece, by the loops over its bytes. -/
def putAll (s : Bytes × ℕ) (piece : Bytes) : Checked (Bytes × ℕ) := piece.foldlM putOne s

/-- The digits of a number from the lowest on, at most `n` of them. -/
def lowDigits : ℕ → ℕ → Bytes
  | 0, _ => []
  | n + 1, v => if v = 0 then [] else UInt8.ofNat (48 + v % 10) :: lowDigits n (v / 10)

/-- `clen_buf` up to `clen_len`. -/
def contentLengthText (len : ℕ) : Bytes := if len = 0 then [48] else (lowDigits 20 len).reverse

def requestMid : Bytes := ascii " HTTP/1.1\r\nHost: "

def tailGet : Bytes :=
  ascii "User-Agent: minios\r\nAccept: */*\r\nAccept-Encoding: identity\r\nConnection: close\r\n"

def tailPost : Bytes :=
  ascii "User-Agent: minios\r\nAccept: */*\r\nAccept-Encoding: identity\r\n" ++
    ascii "Content-Type: application/json\r\nContent-Length: "

def Request.methodText (r : Request) : Bytes := if r.methodPost then ascii "POST " else ascii "GET "

def Request.pathText (r : Request) : Bytes := if r.path = [] then ascii "/" else r.path

def Request.extraText (r : Request) : Bytes := (r.extraHeader.map Credential.header).getD []

/-- `needed`. -/
def Request.needed (r : Request) : ℕ :=
  r.methodText.length + r.pathText.length + requestMid.length + r.domain.length + 2 + r.extraText.length +
    if r.methodPost then tailPost.length + (contentLengthText r.body.length).length + 4 + r.body.length
    else tailGet.length + 2

/-- `build_http_request` into `out`: what is in the buffer then, and the length that it returns. -/
def putHttpRequest (out : Bytes) (r : Request) : Checked (Bytes × ℕ) :=
  if r.domain = [] then pure (out, 0)
  else if out.length < r.needed then pure (out, 0)
  else do
    let s ← putAll (out, 0) r.methodText
    let s ← putAll s r.pathText
    let s ← putAll s requestMid
    let s ← putAll s r.domain
    let s ← putAll s crlf
    let s ← putAll s r.extraText
    if r.methodPost then do
      let s ← putAll s tailPost
      let s ← putAll s (contentLengthText r.body.length)
      let s ← putAll s (crlf ++ crlf)
      putAll s r.body
    else do
      let s ← putAll s tailGet
      putAll s crlf

variable {done rest piece : Bytes} {r : Request} {out : Bytes} {n v : ℕ}

theorem putAll_eq (h : piece.length ≤ rest.length) :
    putAll (done ++ rest, done.length) piece =
      .ok (done ++ piece ++ rest.drop piece.length, (done ++ piece).length) := by
  unfold putAll
  induction piece generalizing done rest with
  | nil => simp; rfl
  | cons b piece ih =>
    cases rest with
    | nil => simp at h
    | cons c rest =>
      have hput : putOne (done ++ c :: rest, done.length) b = .ok ((done ++ [b]) ++ rest, (done ++ [b]).length) := by
        rw [putOne, if_pos (by simp)]
        simp
      rw [List.foldlM_cons, hput, ok_bind, ih (by simpa using h)]
      simp

/-- The pieces of the request, in the order in which they are written. -/
def Request.pieces (r : Request) : List Bytes :=
  [r.methodText, r.pathText, requestMid, r.domain, crlf, r.extraText] ++
    if r.methodPost then [tailPost, contentLengthText r.body.length, crlf ++ crlf, r.body] else [tailGet, crlf]

theorem putPieces_eq (pieces : List Bytes) (h : pieces.flatten.length ≤ rest.length) :
    pieces.foldlM putAll (done ++ rest, done.length) =
      .ok (done ++ pieces.flatten ++ rest.drop pieces.flatten.length, (done ++ pieces.flatten).length) := by
  induction pieces generalizing done rest with
  | nil => simp; rfl
  | cons piece pieces ih =>
    rw [List.flatten_cons, List.length_append] at h
    rw [List.foldlM_cons, putAll_eq (by omega), ok_bind, ih (by rw [List.length_drop]; omega), List.flatten_cons,
      List.append_assoc done, List.drop_drop]
    simp only [List.length_append]

theorem needed_eq (r : Request) : r.needed = r.pieces.flatten.length := by
  unfold Request.needed Request.pieces
  cases r.methodPost with
  | true =>
    simp [crlf]
    omega
  | false =>
    simp [crlf]
    omega

/-- What is written is the pieces one after the other, as many bytes as were needed. -/
theorem putHttpRequest_eq (hdomain : r.domain ≠ []) (hroom : r.needed ≤ out.length) :
    putHttpRequest out r = .ok (r.pieces.flatten ++ out.drop r.needed, r.needed) := by
  have hrun : putHttpRequest out r = r.pieces.foldlM putAll (out, 0) := by
    rw [putHttpRequest, if_neg hdomain, if_neg (Nat.not_lt.mpr hroom), Request.pieces]
    cases r.methodPost <;> simp
  have hfits : r.pieces.flatten.length ≤ out.length := needed_eq r ▸ hroom
  have hall : r.pieces.foldlM putAll ([] ++ out, ([] : Bytes).length) =
      .ok ([] ++ r.pieces.flatten ++ out.drop r.pieces.flatten.length, ([] ++ r.pieces.flatten).length) :=
    putPieces_eq r.pieces hfits
  rw [hrun, needed_eq]
  exact hall

theorem requestMid_eq : requestMid = space :: (ascii "HTTP/1.1" ++ cr :: lf :: ascii "Host: ") := by decide +kernel

theorem tailGet_eq : tailGet = linesText ([ascii "User-Agent: minios", ascii "Accept: */*",
    ascii "Accept-Encoding: identity"] ++ [ascii "Connection: close"]) := by decide +kernel

theorem tailPost_eq : tailPost = linesText ([ascii "User-Agent: minios", ascii "Accept: */*",
    ascii "Accept-Encoding: identity"] ++ [ascii "Content-Type: application/json"]) ++ ascii "Content-Length: " := by
  decide +kernel

theorem lowDigits_digit (n v : ℕ) : ∀ b ∈ lowDigits n v, isDigit b := by
  induction n generalizing v with
  | zero => simp [lowDigits]
  | succ n ih =>
    rw [lowDigits]
    split_ifs
    · simp
    · intro b hb
      rcases List.mem_cons.mp hb with rfl | hb
      · have hlt : v % 10 < 10 := Nat.mod_lt v (by decide)
        generalize v % 10 = d at hlt
        interval_cases d <;> rfl
      · exact ih (v / 10) b hb

theorem lowDigits_value (n v : ℕ) (h : v < 10 ^ n) : Http.decimalValue 0 (lowDigits n v).reverse = v := by
  induction n generalizing v with
  | zero =>
    have hzero : v = 0 := by simpa using h
    rw [hzero]
    rfl
  | succ n ih =>
    rw [lowDigits]
    split_ifs with hzero
    · rw [hzero]
      rfl
    · have hdiv : v / 10 < 10 ^ n := by
        rw [Nat.div_lt_iff_lt_mul (by decide), ← Nat.pow_succ]
        exact h
      have hlt : v % 10 < 10 := Nat.mod_lt v (by decide)
      have hdigit : isDigit (UInt8.ofNat (48 + v % 10)) ∧ (UInt8.ofNat (48 + v % 10)).toNat - 48 = v % 10 := by
        generalize v % 10 = d at hlt
        interval_cases d <;> exact ⟨rfl, rfl⟩
      have hrest := ih (v / 10) hdiv
      unfold Http.decimalValue at hrest ⊢
      rw [List.reverse_cons, List.foldl_append, hrest, List.foldl_cons, List.foldl_nil, if_pos hdigit.1, hdigit.2]
      omega

theorem contentLengthText_spec {len : ℕ} (h : len < 10 ^ 20) : contentLengthText len ≠ [] ∧
    (contentLengthText len).all isDigit ∧ Http.decimalValue 0 (contentLengthText len) = len := by
  unfold contentLengthText
  split_ifs with hzero
  · rw [hzero]
    exact ⟨by decide, by decide, by decide⟩
  · refine ⟨?_, ?_, lowDigits_value 20 len h⟩
    · rw [lowDigits, if_neg hzero]
      simp
    · rw [List.all_eq_true]
      exact fun b hb => lowDigits_digit 20 len b (List.mem_reverse.mp hb)

theorem lowDigits_decimal (n v : ℕ) (h : v < 10 ^ n) (hpos : v ≠ 0) : (lowDigits n v).reverse = decimal v := by
  induction n generalizing v with
  | zero => exact absurd (by simpa using h) hpos
  | succ n ih =>
    have hlt : v % 10 < 10 := Nat.mod_lt v (by decide)
    have hlast : UInt8.ofNat (48 + v % 10) = UInt8.ofNat (Nat.digitChar (v % 10)).toNat := by
      generalize v % 10 = d at hlt
      interval_cases d <;> rfl
    rw [lowDigits, if_neg hpos, List.reverse_cons, hlast]
    by_cases hsmall : v < 10
    · have hzero : v / 10 = 0 := Nat.div_eq_of_lt hsmall
      have hnone : lowDigits n 0 = [] := by cases n <;> rfl
      rw [hzero, hnone, Nat.mod_eq_of_lt hsmall, decimal, Nat.toDigits_of_lt_base hsmall]
      simp [ascii]
    · have hdiv : v / 10 < 10 ^ n := by
        rw [Nat.div_lt_iff_lt_mul (by decide), ← Nat.pow_succ]
        exact h
      rw [ih (v / 10) hdiv (by omega), decimal, decimal, 
        Nat.toDigits_of_base_le (by decide) (Nat.le_of_not_lt hsmall)]
      simp [ascii]

theorem contentLengthText_decimal {len : ℕ} (h : len < 10 ^ 20) : contentLengthText len = decimal len := by
  unfold contentLengthText
  split_ifs with hzero
  · rw [hzero]
    rfl
  · exact lowDigits_decimal 20 len h hzero

/-- The writer leaves the message in the buffer and returns its length. -/
theorem putHttpRequest_build (out : Bytes) (hbody : r.body.length < 10 ^ 20) : putHttpRequest out r =
    .ok (buildHttpRequest out.length r ++ out.drop (buildHttpRequest out.length r).length,
      (buildHttpRequest out.length r).length) := by
  have hmessage : buildHttpRequest out.length r =
      if r.domain = [] ∨ out.length < r.needed then [] else r.pieces.flatten := by
    rw [needed_eq]
    unfold buildHttpRequest
    dsimp only
    have hversion : ascii " HTTP/1.1" = space :: ascii "HTTP/1.1" := rfl
    have hpieces : r.pieces.flatten = r.methodText ++ r.pathText ++ ascii " HTTP/1.1" ++ crlf ++ ascii "Host: " ++
        r.domain ++ crlf ++ r.extraText ++ (ascii "User-Agent: minios" ++ crlf ++ ascii "Accept: */*" ++ crlf ++
        ascii "Accept-Encoding: identity" ++ crlf) ++
        (if r.methodPost then
          ascii "Content-Type: application/json" ++ crlf ++ ascii "Content-Length: " ++
            decimal r.body.length ++ crlf ++ crlf ++ r.body
        else ascii "Connection: close" ++ crlf ++ crlf) := by
      unfold Request.pieces
      rw [requestMid_eq, tailGet_eq, tailPost_eq, contentLengthText_decimal hbody, hversion]
      cases r.methodPost <;> simp [linesText, crlf, List.append_assoc]
    rw [hpieces]
    rfl
  rw [hmessage]
  split_ifs with hno
  · rw [putHttpRequest]
    rcases hno with hdomain | hroom
    · rw [if_pos hdomain]
      rfl
    · by_cases hdomain : r.domain = []
      · rw [if_pos hdomain]
        rfl
      · rw [if_neg hdomain, if_pos hroom]
        rfl
  · obtain ⟨hdomain, hroom⟩ := not_or.mp hno
    rw [putHttpRequest_eq hdomain (Nat.le_of_not_lt hroom), needed_eq]

end Writer

section ReadBack

/-- A request for a URL that `parse_agent_url` accepts, with extra header lines, and a body in `FETCH_BODY`. -/
structure UrlRequest where
  url : Bytes
  parts : AgentUrl
  request : Request
  lines : List Bytes
  accepted : parseAgentUrl url = some parts
  host : request.domain = parts.host
  path : request.path = parts.path
  extra : request.extraText = linesText lines
  whole : ∀ line ∈ lines, ¬ [cr, lf] <:+: line
  body_fits : request.body.length ≤ fetchBodyLen

namespace UrlRequest

def method (s : UrlRequest) : Bytes := if s.request.methodPost then ascii "POST" else ascii "GET"

/-- The fields that are always there behind the extra ones. -/
def common (s : UrlRequest) : List Field :=
  [⟨ascii "User-Agent", ascii "minios"⟩, ⟨ascii "Accept", ascii "*/*"⟩,
    ⟨ascii "Accept-Encoding", ascii "identity"⟩] ++
    if s.request.methodPost then
      [⟨ascii "Content-Type", ascii "application/json"⟩,
        ⟨ascii "Content-Length", contentLengthText s.request.body.length⟩]
    else [⟨ascii "Connection", ascii "close"⟩]

def body (s : UrlRequest) : Bytes := if s.request.methodPost then s.request.body else []

/-- What should be read back, if the extra lines are these fields. -/
def form (s : UrlRequest) (extra : List Field) : RequestForm :=
  ⟨s.method, if s.parts.path = [] then ascii "/" else s.parts.path,
    ⟨ascii "Host", s.parts.host⟩ :: (extra ++ s.common), s.body⟩

/-- If a request is built, it has the length that was computed, and a parser reads back what was asked for. -/
def ReadsBack (s : UrlRequest) : Prop := ∀ out buf n, putHttpRequest out s.request = .ok (buf, n) → 0 < n →
  n = s.request.needed ∧
    ∃ extra, List.Forall₂ FieldLine s.lines extra ∧ readRequest (buf.take n) = some (s.form extra)

/-- Fields that leave the framing of the request to `build_http_request`. A GET has none of its own, and may have
a length of 0. -/
def Harmless (s : UrlRequest) (extra : List Field) : Prop :=
  (∀ f ∈ extra, f.named (ascii "host") = false ∧ f.named (ascii "transfer-encoding") = false) ∧
  (extra.filter (Field.named (ascii "content-length")) = [] ∨
    s.request.methodPost = false ∧ ∃ f, extra.filter (Field.named (ascii "content-length")) = [f] ∧
      f.value ≠ [] ∧ f.value.all isDigit ∧ Http.decimalValue 0 f.value = 0)

/-- The path and the host have no byte that may not stand where they are put, and the extra lines are fields that
do not frame the request. -/
def Plain (s : UrlRequest) : Prop :=
  (∀ b ∈ s.parts.path, isTargetByte b) ∧ (∀ b ∈ s.parts.host, isFieldByte b) ∧
  ∃ extra, List.Forall₂ FieldLine s.lines extra ∧ s.Harmless extra

variable {s : UrlRequest} {extra : List Field}

theorem parse_plain {url : Bytes} {parts : AgentUrl} (h : parseAgentUrl url = some parts) :
    parts.host ≠ [] ∧ (∀ b ∈ parts.host, isSpace b = false) ∧ ∀ b ∈ parts.path, isSpace b = false := by
  unfold parseAgentUrl at h
  obtain ⟨⟨rest, https⟩, -, h⟩ := Option.bind_eq_some_iff.mp h
  obtain ⟨⟨host, port⟩, hsplit, h⟩ := Option.bind_eq_some_iff.mp h
  dsimp only at h hsplit
  have hauthority : ∀ b ∈ rest.takeWhile fun b => !isSpace b && b != 47, isSpace b = false := by
    intro b hb
    have hplain := List.mem_takeWhile_imp hb
    simp only [Bool.and_eq_true, Bool.not_eq_true'] at hplain
    exact hplain.1
  have hhost : ∀ b ∈ host, isSpace b = false := by
    unfold splitPort at hsplit
    dsimp only at hsplit
    split_ifs at hsplit
    · obtain ⟨rfl, -⟩ := Prod.mk.inj (Option.some.inj hsplit)
      exact fun b hb => hauthority b (List.mem_of_mem_take hb)
    · obtain ⟨rfl, -⟩ := Prod.mk.inj (Option.some.inj hsplit)
      exact hauthority
    · obtain ⟨rfl, -⟩ := Prod.mk.inj (Option.some.inj hsplit)
      exact hauthority
  split_ifs at h with hempty hslash
  · obtain rfl := Option.some.inj h
    refine ⟨hempty, hhost, fun b hb => ?_⟩
    simpa using List.mem_takeWhile_imp hb
  · obtain rfl := Option.some.inj h
    exact ⟨hempty, hhost, fun b hb => absurd hb List.not_mem_nil⟩

/-- The lines of the header block. -/
def block (s : UrlRequest) : List Bytes :=
  (ascii "Host: " ++ s.parts.host) :: (s.lines ++
    ([ascii "User-Agent: minios", ascii "Accept: */*", ascii "Accept-Encoding: identity"] ++
      if s.request.methodPost then
        [ascii "Content-Type: application/json", ascii "Content-Length: " ++ contentLengthText s.request.body.length]
      else [ascii "Connection: close"]))

theorem pieces_text (s : UrlRequest) : s.request.pieces.flatten =
    requestText s.method (if s.parts.path = [] then ascii "/" else s.parts.path) s.block s.body := by
  have hpostMethod : ascii "POST " = ascii "POST" ++ [space] := rfl
  have hgetMethod : ascii "GET " = ascii "GET" ++ [space] := rfl
  unfold Request.pieces Request.methodText Request.pathText requestText method block body
  rw [s.host, s.path, s.extra, requestMid_eq, tailGet_eq, tailPost_eq, hpostMethod, hgetMethod]
  cases s.request.methodPost with
  | true => simp [linesText, crlf]
  | false => simp [linesText, crlf]

theorem lf_not_field {line : Bytes} {f : Field} (h : FieldLine line f) : lf ∉ line := by
  obtain ⟨before, after, hbefore, hafter, rfl⟩ := h.text
  have hblank : isBlank lf = false := by decide
  have hname : lf ∉ f.name := fun hmem => absurd (h.name.2 lf hmem) (by decide)
  have hvalue : lf ∉ f.value := fun hmem => absurd (h.value lf hmem) (by decide)
  have hfront : lf ∉ before := fun hmem => by simpa [hblank] using hbefore lf hmem
  have hback : lf ∉ after := fun hmem => by simpa [hblank] using hafter lf hmem
  simp only [List.mem_append, List.mem_cons, not_or]
  exact ⟨hname, by decide, ⟨hfront, hvalue⟩, hback⟩

/-- A value without blanks behind a name and a blank. -/
theorem fieldLine_spaced {name value : Bytes} (hname : name ≠ [] ∧ ∀ b ∈ name, isTokenByte b)
    (hvalue : ∀ b ∈ value, isFieldByte b) (hblank : ∀ b ∈ value, isBlank b = false) :
    FieldLine (name ++ colon :: space :: value) ⟨name, value⟩ := by
  have hspace : ∀ b ∈ [space], isBlank b := by
    intro b hb
    rw [List.mem_singleton.mp hb]
    rfl
  exact ⟨hname, hvalue, fun b hb => hblank b (List.mem_of_mem_head? hb),
    fun b hb => hblank b (List.mem_of_getLast? hb), [space], [], hspace, by simp, by simp⟩

theorem hostLine_iff (s : UrlRequest) : FieldLine (ascii "Host: " ++ s.parts.host) ⟨ascii "Host", s.parts.host⟩ ↔
    ∀ b ∈ s.parts.host, isFieldByte b := by
  have hspace := (parse_plain s.accepted).2.1
  have htext : ascii "Host: " ++ s.parts.host = ascii "Host" ++ colon :: space :: s.parts.host := rfl
  constructor
  · exact fun h => h.value
  · intro h
    rw [htext]
    apply fieldLine_spaced (by decide +kernel) h
    intro b hb
    have hplain := hspace b hb
    simp only [isSpace, Bool.or_eq_false_iff] at hplain
    simp [isBlank, hplain.1.1.1, hplain.1.1.2]

theorem digit_field : ∀ b : UInt8, isDigit b = true → isFieldByte b = true ∧ isBlank b = false :=
  forall_byte (by decide +kernel)

theorem body_lt (s : UrlRequest) : s.request.body.length < 10 ^ 20 := by
  have hfits := s.body_fits
  unfold fetchBodyLen at hfits
  omega

/-- The lines behind the extra ones are fields. -/
theorem common_lines (s : UrlRequest) : List.Forall₂ FieldLine
    ([ascii "User-Agent: minios", ascii "Accept: */*", ascii "Accept-Encoding: identity"] ++
      if s.request.methodPost then
        [ascii "Content-Type: application/json", ascii "Content-Length: " ++ contentLengthText s.request.body.length]
      else [ascii "Connection: close"]) s.common := by
  have hfirst : List.Forall₂ FieldLine
      [ascii "User-Agent: minios", ascii "Accept: */*", ascii "Accept-Encoding: identity"]
      [⟨ascii "User-Agent", ascii "minios"⟩, ⟨ascii "Accept", ascii "*/*"⟩,
        ⟨ascii "Accept-Encoding", ascii "identity"⟩] := mapM_readField.mp (by decide +kernel)
  apply List.rel_append hfirst
  cases s.request.methodPost with
  | true =>
    obtain ⟨-, hdigits, -⟩ := contentLengthText_spec s.body_lt
    rw [List.all_eq_true] at hdigits
    have htext : ascii "Content-Length: " ++ contentLengthText s.request.body.length =
        ascii "Content-Length" ++ colon :: space :: contentLengthText s.request.body.length := rfl
    have hname : ascii "Content-Length" ≠ [] ∧ ∀ b ∈ ascii "Content-Length", isTokenByte b := by decide +kernel
    refine .cons (readField_iff.mp (by decide +kernel)) (.cons ?_ .nil)
    rw [htext]
    exact fieldLine_spaced hname (fun b hb => (digit_field b (hdigits b hb)).1)
      (fun b hb => (digit_field b (hdigits b hb)).2)
  | false =>
    have hclose : List.Forall₂ FieldLine [ascii "Connection: close"] [⟨ascii "Connection", ascii "close"⟩] :=
      mapM_readField.mp (by decide +kernel)
    exact hclose

theorem block_iff (hextra : List.Forall₂ FieldLine s.lines extra) :
    List.Forall₂ FieldLine s.block (⟨ascii "Host", s.parts.host⟩ :: (extra ++ s.common)) ↔
      ∀ b ∈ s.parts.host, isFieldByte b := by
  rw [block, List.forall₂_cons, hostLine_iff]
  exact and_iff_left (List.rel_append hextra s.common_lines)

theorem block_clean (hextra : List.Forall₂ FieldLine s.lines extra) :
    ∀ line ∈ s.block, ¬ [cr, lf] <:+: line ∧ line ≠ [] := by
  intro line hline
  rcases List.mem_cons.mp hline with rfl | hline
  · have hhost : lf ∉ s.parts.host := by
      intro hmem
      have hspace := (parse_plain s.accepted).2.1 lf hmem
      exact absurd hspace (by decide)
    refine ⟨no_crlf ?_, by simp [ascii]⟩
    rw [List.mem_append, not_or]
    exact ⟨by decide, hhost⟩
  · obtain ⟨i, hi, rfl⟩ := List.mem_iff_getElem.mp hline
    have hall := List.rel_append hextra s.common_lines
    have hfield := (List.forall₂_iff_get.mp hall).2 i hi (by rw [← hall.length_eq]; exact hi)
    simp only [List.get_eq_getElem] at hfield
    exact ⟨no_crlf (lf_not_field hfield), hfield.ne_nil⟩

theorem named_common {name : Bytes} (s : UrlRequest)
    (hname : name = ascii "host" ∨ name = ascii "transfer-encoding") :
    ∀ f ∈ s.common, f.named name = false := by
  intro f hf
  unfold common at hf
  rcases List.mem_append.mp hf with hf | hf
  · fin_cases hf <;> rcases hname with rfl | rfl <;> decide +kernel
  · split_ifs at hf
    · fin_cases hf <;> rcases hname with rfl | rfl <;> rfl
    · fin_cases hf
      rcases hname with rfl | rfl <;> decide +kernel

theorem filter_lengths (s : UrlRequest) (extra : List Field) :
    (⟨ascii "Host", s.parts.host⟩ :: (extra ++ s.common)).filter (Field.named (ascii "content-length")) =
      extra.filter (Field.named (ascii "content-length")) ++
        if s.request.methodPost then [⟨ascii "Content-Length", contentLengthText s.request.body.length⟩] else [] := by
  have hhost : Field.named (ascii "content-length") ⟨ascii "Host", s.parts.host⟩ = false := rfl
  have hcommon : s.common.filter (Field.named (ascii "content-length")) =
      if s.request.methodPost then [⟨ascii "Content-Length", contentLengthText s.request.body.length⟩] else [] := by
    unfold common
    cases s.request.methodPost <;> rfl
  rw [List.filter_cons_of_neg (by simp [hhost]), List.filter_append, hcommon]

theorem count_hosts (s : UrlRequest) (extra : List Field) :
    ((⟨ascii "Host", s.parts.host⟩ :: (extra ++ s.common)).filter (Field.named (ascii "host"))).length = 1 ↔
      ∀ f ∈ extra, f.named (ascii "host") = false := by
  have hhost : Field.named (ascii "host") ⟨ascii "Host", s.parts.host⟩ = true := rfl
  have hcommon : s.common.filter (Field.named (ascii "host")) = [] := by
    rw [List.filter_eq_nil_iff]
    intro f hf
    simp [s.named_common (Or.inl rfl) f hf]
  rw [List.filter_cons_of_pos hhost, List.filter_append, hcommon, List.append_nil, List.length_cons,
    Nat.add_eq_right, List.length_eq_zero_iff, List.filter_eq_nil_iff]
  simp

theorem any_codings (s : UrlRequest) (extra : List Field) :
    (⟨ascii "Host", s.parts.host⟩ :: (extra ++ s.common)).any (Field.named (ascii "transfer-encoding")) = false ↔
      ∀ f ∈ extra, f.named (ascii "transfer-encoding") = false := by
  have hhost : Field.named (ascii "transfer-encoding") ⟨ascii "Host", s.parts.host⟩ = false := rfl
  have hcommon : s.common.any (Field.named (ascii "transfer-encoding")) = false := by
    rw [List.any_eq_false]
    intro f hf
    simp [s.named_common (Or.inr rfl) f hf]
  rw [List.any_cons, List.any_append, hhost, hcommon, Bool.false_or, Bool.or_false, List.any_eq_false]
  simp

/-- The length that the fields give is that of the body, as far as there are no transfer codings. -/
theorem lengths_iff (s : UrlRequest) (extra : List Field)
    (hcodings : (⟨ascii "Host", s.parts.host⟩ :: (extra ++ s.common)).any
      (Field.named (ascii "transfer-encoding")) = false) :
    bodyLength (⟨ascii "Host", s.parts.host⟩ :: (extra ++ s.common)) = some s.body.length ↔
      (extra.filter (Field.named (ascii "content-length")) = [] ∨
        s.request.methodPost = false ∧ ∃ f, extra.filter (Field.named (ascii "content-length")) = [f] ∧
          f.value ≠ [] ∧ f.value.all isDigit ∧ Http.decimalValue 0 f.value = 0) := by
  obtain ⟨hne, hdigits, hvalue⟩ := contentLengthText_spec s.body_lt
  rw [bodyLength, hcodings, filter_lengths, body]
  generalize extra.filter (Field.named (ascii "content-length")) = own
  cases s.request.methodPost with
  | true =>
    cases own with
    | nil => simp [hne, hdigits, hvalue]
    | cons f own => cases own <;> simp
  | false =>
    cases own with
    | nil => simp
    | cons f own =>
      cases own with
      | nil => simp [and_assoc]
      | cons g own => simp

/-- The fields frame the request as `build_http_request` means them to, just if the extra ones are harmless. -/
theorem framing_iff (s : UrlRequest) (extra : List Field) :
    (bodyLength (⟨ascii "Host", s.parts.host⟩ :: (extra ++ s.common)) = some s.body.length ∧
      ((⟨ascii "Host", s.parts.host⟩ :: (extra ++ s.common)).filter (Field.named (ascii "host"))).length = 1) ↔
    s.Harmless extra := by
  rw [count_hosts, Harmless]
  constructor
  · rintro ⟨hlength, hhosts⟩
    have hcodings : (⟨ascii "Host", s.parts.host⟩ :: (extra ++ s.common)).any
        (Field.named (ascii "transfer-encoding")) = false := by
      by_contra hany
      rw [Bool.not_eq_false] at hany
      rw [bodyLength, if_pos hany] at hlength
      cases hlength
    exact ⟨fun f hf => ⟨hhosts f hf, (any_codings s extra).mp hcodings f hf⟩,
      (lengths_iff s extra hcodings).mp hlength⟩
  · rintro ⟨hnames, hlengths⟩
    have hcodings := (any_codings s extra).mpr fun f hf => (hnames f hf).2
    exact ⟨(lengths_iff s extra hcodings).mpr hlengths, fun f hf => (hnames f hf).1⟩

theorem target_clean (s : UrlRequest) :
    space ∉ (if s.parts.path = [] then ascii "/" else s.parts.path) ∧
      lf ∉ (if s.parts.path = [] then ascii "/" else s.parts.path) := by
  have hplain := (parse_plain s.accepted).2.2
  split_ifs
  · exact ⟨by decide, by decide⟩
  · exact ⟨fun h => absurd (hplain space h) (by decide), fun h => absurd (hplain lf h) (by decide)⟩

theorem target_iff (s : UrlRequest) : ((if s.parts.path = [] then ascii "/" else s.parts.path) ≠ [] ∧
    (if s.parts.path = [] then ascii "/" else s.parts.path).all isTargetByte) ↔
      ∀ b ∈ s.parts.path, isTargetByte b := by
  split_ifs with h
  · rw [h]
    exact iff_of_true ⟨by decide, by decide⟩ fun b hb => absurd hb List.not_mem_nil
  · rw [List.all_eq_true]
    exact and_iff_right h

/-- With extra lines that are fields, the text of the request is read back just if the rest is plain. -/
theorem read_iff (hextra : List.Forall₂ FieldLine s.lines extra) :
    readRequest s.request.pieces.flatten = some (s.form extra) ↔
      (∀ b ∈ s.parts.path, isTargetByte b) ∧ (∀ b ∈ s.parts.host, isFieldByte b) ∧ s.Harmless extra := by
  have hmethod : s.method ≠ [] ∧ s.method.all isTokenByte := by
    unfold method
    cases s.request.methodPost <;> decide +kernel
  obtain ⟨hspace, hend⟩ := s.target_clean
  rw [pieces_text, form, readRequest_text hmethod hspace hend (block_clean hextra), target_iff, mapM_readField,
    block_iff hextra, framing_iff]

theorem domain_ne_nil (s : UrlRequest) : s.request.domain ≠ [] := by
  rw [s.host]
  exact (parse_plain s.accepted).1

theorem needed_pos (s : UrlRequest) : 0 < s.request.needed := by
  unfold Request.needed
  omega

/-- A request is read back as it was asked for just if it is a plain one. -/
theorem readsBack_iff (s : UrlRequest) : s.ReadsBack ↔ s.Plain := by
  constructor
  · intro h
    let out : Bytes := List.replicate s.request.needed 0
    have hroom : s.request.needed ≤ out.length := by simp [out]
    obtain ⟨-, extra, hextra, hread⟩ := h out _ _ (putHttpRequest_eq s.domain_ne_nil hroom) s.needed_pos
    rw [needed_eq, List.take_left] at hread
    obtain ⟨hpath, hhost, hharmless⟩ := (read_iff hextra).mp hread
    exact ⟨hpath, hhost, extra, hextra, hharmless⟩
  · rintro ⟨hpath, hhost, extra, hextra, hharmless⟩ out buf n hput hn
    have hroom : s.request.needed ≤ out.length := by
      by_contra hno
      rw [putHttpRequest, if_neg s.domain_ne_nil, if_pos (Nat.lt_of_not_le hno)] at hput
      have hzero : n = 0 := (congrArg Prod.snd (Except.ok.inj hput)).symm
      omega
    rw [putHttpRequest_eq s.domain_ne_nil hroom] at hput
    obtain ⟨rfl, rfl⟩ := Prod.mk.inj (Except.ok.inj hput)
    refine ⟨rfl, extra, hextra, ?_⟩
    rw [needed_eq, List.take_left]
    exact (read_iff hextra).mpr ⟨hpath, hhost, hharmless⟩

/-- A control character in the host of a URL. -/
def controlUrl : UrlRequest where
  url := ascii "http://a\x01/"
  parts := ⟨ascii "a\x01", ascii "/", false, 80, none⟩
  request := { domain := ascii "a\x01", path := ascii "/" }
  lines := []
  accepted := rfl
  host := rfl
  path := rfl
  extra := rfl
  whole := fun _ hline => absurd hline List.not_mem_nil
  body_fits := Nat.zero_le _

/-- `parse_agent_url` lets the character through, and it ends up in the `Host` field. -/
theorem control_not_readBack : ¬ ∀ s : UrlRequest, s.ReadsBack := by
  intro h
  have hnone : readRequest controlUrl.request.pieces.flatten = none := by decide +kernel
  have hroom : controlUrl.request.needed ≤ (List.replicate controlUrl.request.needed 0 : Bytes).length := by simp
  obtain ⟨-, extra, -, hread⟩ := h controlUrl _ _ _ (putHttpRequest_eq controlUrl.domain_ne_nil hroom)
    controlUrl.needed_pos
  rw [needed_eq, List.take_left, hnone] at hread
  cases hread

end UrlRequest

end ReadBack

end MiniAgentOS.Fetch
