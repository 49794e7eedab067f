import MiniAgentOS.Fetch.RequestText
import MiniAgentOS.Http.DateForm
import MiniAgentOS.Http.Effects
import MiniAgentOS.Http.Places

/-! The replies of the bridge, read by the kernel: the head of a reply is read field by field, and its body comes whole
when the empty line does. -/
namespace MiniAgentOS.Bridge
open Checked Http Calendar

variable {body rest block data : Bytes} {pieces : List Bytes} {code n : ℕ} {http : HttpParser}

section Model

/-- Neither a colon nor a line end is in the text. -/
def Clean (text : Bytes) : Prop := ∀ b ∈ text, b ≠ colon ∧ isLineEnd b = false

instance (text : Bytes) : Decidable (Clean text) := inferInstanceAs (Decidable (∀ b ∈ text, _))

/-- What the server library puts into a reply: the phrase of each status, and its version string. -/
structure Library where
  responses : ℕ → Bytes
  versionString : Bytes
  clean_phrase : ∀ code, Clean (responses code)
  clean_version : Clean versionString
  short : ∀ code, (responses code).length + versionString.length ≤ 3000

variable (lib : Library) (now : Moment)

def sendHeader (keyword : String) (value : Bytes) : Bytes := ascii keyword ++ ascii ": " ++ value ++ [cr, lf]

def sendResponse (code : ℕ) : Bytes :=
  ascii "HTTP/1.0 " ++ Fetch.decimal code ++ ascii " " ++ lib.responses code ++ [cr, lf] ++
    sendHeader "Server" lib.versionString ++ sendHeader "Date" (imfFixdate now)

/-- What `_write_raw_json` sends in front of a body of `n` bytes. -/
def replyHead (code n : ℕ) : Bytes :=
  sendResponse lib now code ++ sendHeader "Content-Type" (ascii "application/json; charset=utf-8") ++
    sendHeader "Content-Length" (Fetch.decimal n) ++ [cr, lf]

/-- `_write_raw_json`, and `_write_json` with the text of its payload as the body. -/
def writeRawJson (code : ℕ) (body : Bytes) : Bytes := replyHead lib now code body.length ++ body

/-- The parser of the kernel ends with the whole reply. -/
def ReadExactly (pieces : List Bytes) (code : ℕ) (body : Bytes) : Prop :=
  ∃ http effects, feedAll httpReset pieces = .ok (http, effects) ∧ http.state = .complete ∧ http.status = code ∧
    http.isJson = true ∧ bodyBytes effects = body

end Model

section Words

def jsonType : Bytes := ascii "application/json; charset=utf-8"

/-- A name without colons and digits, sought in front of the words. -/
def Sought (name : Bytes) (words : List Bytes) : Prop :=
  name ≠ [] ∧ colon ∉ name ∧ (∀ b ∈ name, isDigit b = false) ∧ ∀ word ∈ words, Unlike name word

instance (name : Bytes) (words : List Bytes) : Decidable (Sought name words) := inferInstanceAs (Decidable (_ ∧ _ ∧ _ ∧ _))

/-- What is sought in front of the colons of a head, with the names of the fields in front of it. -/
theorem names_sought : Sought (ascii "date") [ascii "Server"] ∧
    Sought (ascii "content-type") [ascii "Server", ascii "Date"] ∧
    Sought contentLengthName [ascii "Server", ascii "Date", ascii "Content-Type"] ∧
    Sought (ascii "transfer-encoding") [ascii "Server", ascii "Date", ascii "Content-Type", ascii "Content-Length"] ∧
    Sought (ascii "location") [ascii "Server", ascii "Date", ascii "Content-Type", ascii "Content-Length"] := by
  simp only [Sought, Unlike, EndsIn, contentLengthName]
  simp [ascii, asciiLower, colon, isDigit]
  decide

theorem names_end : EndsIn (ascii "Date") (ascii "date") ∧ EndsIn (ascii "Content-Type") (ascii "content-type") ∧
    EndsIn (ascii "Content-Length") contentLengthName := by
  simp [EndsIn, contentLengthName, ascii, asciiLower]

theorem jsonType_plain : jsonType ≠ [] ∧ (∀ b ∈ jsonType, isLineEnd b = false) ∧
    (∀ b ∈ jsonType.head?, isBlank b = false) ∧
    (ascii "application/json").map asciiLower <+: jsonType.map asciiLower := by
  simp [jsonType, ascii, isLineEnd, isBlank, asciiLower, cr, lf, MiniAgentOS.space, tab]

theorem texts_length : (ascii "HTTP/1.0 ").length = 9 ∧ (ascii " ").length = 1 ∧ (ascii "Server").length = 6 ∧
    (ascii ": ").length = 2 ∧ (ascii "Date").length = 4 ∧ (ascii "Content-Type").length = 12 ∧
    (ascii "application/json; charset=utf-8").length = 31 ∧ (ascii "Content-Length").length = 14 := by decide

theorem blank_text : ascii " " = [MiniAgentOS.space] := rfl

theorem separator_text : ascii ": " = [colon, MiniAgentOS.space] := rfl

theorem clean_space : Clean (ascii " ") := by simp [Clean, ascii, colon, isLineEnd, cr, lf]

theorem clean_comma : Clean (ascii ", ") := by simp [Clean, ascii, colon, isLineEnd, cr, lf]

theorem clean_zone : Clean (ascii " GMT") := by simp [Clean, ascii, colon, isLineEnd, cr, lf]

theorem clean_dayName (days : ℕ) : Clean (dayName days) ∧ ∀ b ∈ (dayName days).head?, isBlank b = false := by
  have hlt := Nat.mod_lt days (show 0 < 7 by decide)
  unfold dayName
  interval_cases days % 7 <;> simp [Clean, dayNames, ascii, colon, isLineEnd, isBlank, cr, lf, MiniAgentOS.space, tab]

theorem clean_monthName {month : ℕ} (hlow : 1 ≤ month) (hhigh : month ≤ 12) : Clean (monthName month) := by
  interval_cases month <;> simp [Clean, monthName, monthNames, ascii, colon, isLineEnd, cr, lf]

end Words

section Delivery

theorem bodyRun_length_le (data : Bytes) : ∀ http, (bodyRun http data).2.length ≤ data.length := by
  induction data with
  | nil => exact fun _ => le_rfl
  | cons b data ih =>
    intro http
    have hstep : (bodyStep http b).2.length ≤ 1 := by
      unfold bodyStep
      split
      · split_ifs <;> simp
      · simp
      · split_ifs <;> simp
      · split_ifs <;> simp
      · simp
      · simp
    have hrest := ih (bodyStep http b).1
    rw [bodyRun, List.length_append, List.length_cons]
    omega

theorem bodyStep_isJson (http : HttpParser) (b : UInt8) : (bodyStep http b).1.isJson = http.isJson := by
  unfold bodyStep chunkSizeStep
  split
  · split_ifs <;> rfl
  · split_ifs <;> rfl
  · split_ifs <;> rfl
  · split_ifs <;> rfl
  · rfl
  · rfl

theorem bodyRun_isJson (data : Bytes) : ∀ http, (bodyRun http data).1.isJson = http.isJson := by
  induction data with
  | nil => exact fun _ => rfl
  | cons b data ih => exact fun http => (ih (bodyStep http b).1).trans (bodyStep_isJson http b)

/-- The header block ends with a terminator within one piece. -/
theorem headerBlock_within {header : Bytes} (h : headerBlock header pieces = some (block, rest)) :
    ∃ before data after e, pieces = before ++ data :: after ∧ headerEnd data = some e ∧
      rest = data.drop e ++ after.flatten := by
  induction pieces generalizing header with
  | nil => cases h
  | cons data pieces ih =>
    rw [headerBlock] at h
    cases hend : headerEnd data with
    | none =>
      rw [hend] at h
      obtain ⟨before, piece, after, e, rfl, hpiece, hrest⟩ := ih h
      exact ⟨data :: before, piece, after, e, rfl, hpiece, hrest⟩
    | some e =>
      rw [hend] at h
      dsimp only at h
      split_ifs at h
      · obtain ⟨-, rfl⟩ := Prod.mk.inj (Option.some.inj h)
        exact ⟨[], data, pieces, e, rfl, hend, rfl⟩
      · obtain ⟨before, piece, after, e, rfl, hpiece, hrest⟩ := ih h
        exact ⟨data :: before, piece, after, e, rfl, hpiece, hrest⟩

/-- A response that is complete with as many bytes as stand behind its first terminator had that terminator in one
piece. -/
theorem terminator_of_complete {stream : Bytes} (hcuts : pieces.flatten = stream)
    (hend : headerEnd stream = some n) {http : HttpParser} {effects : List HttpEffect}
    (hfeed : feedAll httpReset pieces = .ok (http, effects)) (hcomplete : http.state = .complete)
    (hlen : stream.length - n ≤ (bodyBytes effects).length) : TerminatorWhole pieces (n - 4) := by
  obtain ⟨hfour, hle, -, hfirst⟩ := headerEnd_eq_some hend
  have hall := feedAll_headers pieces (show httpReset.state = .headers from rfl)
  rw [hfeed, httpReset_header] at hall
  cases hblock : headerBlock [] pieces with
  | none =>
    rw [hblock] at hall
    obtain ⟨header, hall⟩ := hall
    have hstate := congrArg (fun r => r.1.state) (Except.ok.inj hall)
    exact absurd (hcomplete.symm.trans hstate) (by simp [httpReset])
  | some found =>
    obtain ⟨block, rest⟩ := found
    rw [hblock] at hall
    dsimp only at hall
    have hbody : (bodyBytes effects).length ≤ rest.length := by
      cases hread : readHeaders httpReset block with
      | error trap =>
        rw [hread] at hall
        cases hall
      | ok parsed =>
        rw [hread] at hall
        have hrun : (http, bodyBytes effects) = bodyRun parsed rest := Except.ok.inj hall
        have hbody : bodyBytes effects = (bodyRun parsed rest).2 := congrArg Prod.snd hrun
        rw [hbody]
        exact bodyRun_length_le rest parsed
    obtain ⟨before, data, after, e, rfl, hdata, rfl⟩ := headerBlock_within hblock
    obtain ⟨hfour', hle', hat, -⟩ := headerEnd_eq_some hdata
    have hterm : headerTerminator.length = 4 := rfl
    have hstream : stream = before.flatten ++ data ++ after.flatten := by
      rw [← hcuts]
      simp
    have hplace : Piece.At stream (before.flatten.length + (e - 4)) headerTerminator := by
      rw [hstream]
      exact at_append_right _ (at_append_left _ hat)
    have hbound : n ≤ before.flatten.length + e := by
      by_contra hlt
      exact hfirst _ (by omega) hplace
    have hsum : stream.length = before.flatten.length + data.length + after.flatten.length := by
      rw [hstream, List.length_append, List.length_append]
    rw [List.length_append, List.length_drop] at hbody
    exact ⟨before, data, after, rfl, by omega, by omega⟩

end Delivery

section Texts

theorem Clean.append {a b : Bytes} (ha : Clean a) (hb : Clean b) : Clean (a ++ b) := by
  intro c hc
  rcases List.mem_append.mp hc with hin | hin
  · exact ha c hin
  · exact hb c hin

theorem Clean.not_colon {text : Bytes} (h : Clean text) : colon ∉ text := fun hin => (h colon hin).1 rfl

theorem lineEnd_cr {text : Bytes} (h : ∀ b ∈ text, isLineEnd b = false) : cr ∉ text := fun hin => by
  cases h cr hin

set_option maxRecDepth 4000 in
theorem digit_clean : ∀ b : UInt8, isDigit b = true → (b ≠ colon ∧ isLineEnd b = false) ∧ isBlank b = false :=
  forall_byte (by decide)

theorem clean_digits {digits : Bytes} (h : digits.all isDigit) : Clean digits :=
  fun b hb => (digit_clean b (List.all_eq_true.mp h b hb)).1

/-- The digits of a machine word. -/
theorem decimal_spec (h : n < 10 ^ 20) : Fetch.decimal n ≠ [] ∧ (Fetch.decimal n).all isDigit ∧
    decimalValue 0 (Fetch.decimal n) = n := by
  rw [← Fetch.contentLengthText_decimal h]
  exact Fetch.contentLengthText_spec h

theorem lowDigits_length (k v : ℕ) : (Fetch.lowDigits k v).length ≤ k := by
  induction k generalizing v with
  | zero => exact le_rfl
  | succ k ih =>
    rw [Fetch.lowDigits]
    split_ifs
    · exact Nat.zero_le _
    · exact Nat.succ_le_succ (ih _)

theorem decimal_length (h : n < 10 ^ 20) : (Fetch.decimal n).length ≤ 20 := by
  rw [← Fetch.contentLengthText_decimal h, Fetch.contentLengthText]
  split_ifs
  · exact Nat.le_of_ble_eq_true rfl
  · rw [List.length_reverse]
    exact lowDigits_length 20 n

theorem decimal_status (hlow : 100 ≤ code) (hhigh : code < 1000) : Fetch.decimal code =
    [UInt8.ofNat (48 + code / 100), UInt8.ofNat (48 + code / 10 % 10), UInt8.ofNat (48 + code % 10)] := by
  have hten : code / 10 / 10 % 10 = code / 100 := by omega
  have hnone : Fetch.lowDigits 17 0 = [] := rfl
  rw [← Fetch.contentLengthText_decimal (by omega), Fetch.contentLengthText, if_neg (by omega), Fetch.lowDigits,
    if_neg (by omega), Fetch.lowDigits, if_neg (by omega), Fetch.lowDigits, if_neg (by omega),
    show code / 10 / 10 / 10 = 0 by omega, hnone, hten]
  rfl

theorem clean_twoDigits {k : ℕ} (h : k < 100) : Clean (twoDigits k) := by
  have htens := (digit_read (show k / 10 < 10 by omega)).1
  have hones := (digit_read (show k % 10 < 10 by omega)).1
  exact clean_digits (by simp [twoDigits, htens, hones, -UInt8.ofNat_add])

end Texts

section Fields

variable {lib : Library} {now : Moment} {name : Bytes}

/-- The day and the hour of a date, in front of its first colon. -/
def dayText (now : Moment) : Bytes := dayName now.days ++ ascii ", " ++ twoDigits now.day ++ ascii " " ++
  monthName now.month ++ ascii " " ++ fourDigits now.year ++ ascii " " ++ twoDigits now.hour

theorem imfFixdate_eq (now : Moment) : imfFixdate now =
    dayText now ++ colon :: (twoDigits now.min ++ colon :: (twoDigits now.sec ++ ascii " GMT")) := by
  simp [imfFixdate, dayText, ascii, colon, MiniAgentOS.space]

def statusFront (lib : Library) (code : ℕ) : Bytes :=
  ascii "HTTP/1.0 " ++ Fetch.decimal code ++ ascii " " ++ lib.responses code ++ [cr, lf] ++ ascii "Server"

def versionFront (lib : Library) : Bytes := ascii " " ++ lib.versionString ++ [cr, lf] ++ ascii "Date"

def zoneFront (now : Moment) : Bytes := twoDigits now.sec ++ ascii " GMT" ++ [cr, lf] ++ ascii "Content-Type"

def typeFront : Bytes := ascii " " ++ jsonType ++ [cr, lf] ++ ascii "Content-Length"

/-- The texts of a head in front of its colons. -/
def fronts (lib : Library) (now : Moment) (code : ℕ) : List Bytes :=
  [statusFront lib code, versionFront lib, ascii " " ++ dayText now, twoDigits now.min, zoneFront now, typeFront]

theorem replyHead_joined (lib : Library) (now : Moment) (code n : ℕ) : replyHead lib now code n =
    joined (fronts lib now code) (ascii " " ++ Fetch.decimal n ++ [cr, lf, cr, lf]) := by
  simp [replyHead, sendResponse, sendHeader, joined, fronts, statusFront, versionFront, zoneFront, typeFront, jsonType,
    imfFixdate_eq, blank_text, separator_text]

theorem replyHead_date (lib : Library) (now : Moment) (code n : ℕ) : ∃ rest, replyHead lib now code n =
    joined ((fronts lib now code).take 1)
      (versionFront lib ++ colon :: MiniAgentOS.space :: (imfFixdate now ++ cr :: rest)) := by
  refine ⟨lf :: (sendHeader "Content-Type" jsonType ++ sendHeader "Content-Length" (Fetch.decimal n) ++ [cr, lf]), ?_⟩
  rw [replyHead_joined, imfFixdate_eq]
  simp [sendHeader, joined, fronts, zoneFront, typeFront, jsonType, blank_text, separator_text]

theorem replyHead_type (lib : Library) (now : Moment) (code n : ℕ) : ∃ rest, replyHead lib now code n =
    joined ((fronts lib now code).take 4) (zoneFront now ++ colon :: MiniAgentOS.space :: (jsonType ++ cr :: rest)) := by
  refine ⟨lf :: (sendHeader "Content-Length" (Fetch.decimal n) ++ [cr, lf]), ?_⟩
  rw [replyHead_joined]
  simp [sendHeader, joined, fronts, typeFront, blank_text, separator_text]

theorem replyHead_length (lib : Library) (now : Moment) (code n : ℕ) : replyHead lib now code n =
    joined ((fronts lib now code).take 5)
      (typeFront ++ colon :: MiniAgentOS.space :: (Fetch.decimal n ++ cr :: [lf, cr, lf])) := by
  rw [replyHead_joined]
  simp [joined, fronts, blank_text]

theorem clean_dayText (hyear : now.year ≤ 9999) : Clean (dayText now) := by
  have hmonth := now.month_range
  have hday := now.day_range
  have hlength := monthLength_le now.year now.month
  have hhour := now.hour_lt
  have hyears : Clean (fourDigits now.year) := (clean_twoDigits (by omega)).append (clean_twoDigits (by omega))
  have hmonths := clean_monthName hmonth.1 hmonth.2
  have hdays := (clean_dayName now.days).1.append clean_comma
  have hdate := (hdays.append (clean_twoDigits (show now.day < 100 by omega))).append clean_space
  have hyear := ((hdate.append hmonths).append clean_space).append hyears
  exact (hyear.append clean_space).append (clean_twoDigits (by omega))

/-- None of the texts holds a colon. -/
theorem colon_fronts (hcode : code < 10 ^ 20) (hyear : now.year ≤ 9999) : ∀ front ∈ fronts lib now code,
    colon ∉ front := by
  have hmin := now.min_lt
  have hsec := now.sec_lt
  have hcodes := (clean_digits (decimal_spec hcode).2.1).not_colon
  have hphrase := (lib.clean_phrase code).not_colon
  have hversion := lib.clean_version.not_colon
  have hday := (clean_dayText hyear).not_colon
  have hmins := (clean_twoDigits (show now.min < 100 by omega)).not_colon
  have hsecs := (clean_twoDigits (show now.sec < 100 by omega)).not_colon
  intro front hfront
  simp only [fronts, List.mem_cons, List.not_mem_nil, or_false] at hfront
  rcases hfront with rfl | rfl | rfl | rfl | rfl | rfl
  · simp only [statusFront, List.mem_append, hcodes, hphrase, or_false]
    decide
  · simp only [versionFront, List.mem_append, hversion, or_false]
    decide
  · simp only [List.mem_append, hday, or_false]
    decide
  · exact hmins
  · simp only [zoneFront, List.mem_append, hsecs, false_or]
    decide
  · decide

theorem twoDigits_ends {k : ℕ} (hne : name ≠ []) (hname : ∀ b ∈ name, isDigit b = false)
    (front : Bytes) : ¬ EndsIn (front ++ twoDigits k) name := by
  rw [twoDigits, show ∀ a b : UInt8, [a, b] = [a] ++ [b] from fun _ _ => rfl, ← List.append_assoc]
  exact not_endsIn_digit hne hname (digit_read (by omega)).1

/-- A name that is not like the first two names of a head. -/
theorem skips_version (h : Sought name [ascii "Server", ascii "Date"]) :
    ∀ front ∈ (fronts lib now code).take 4, ¬ EndsIn front name := by
  obtain ⟨hne, -, hname, hwords⟩ := h
  intro front hfront
  simp only [fronts, List.take_succ_cons, List.take_zero, List.mem_cons, List.not_mem_nil, or_false] at hfront
  rcases hfront with rfl | rfl | rfl | rfl
  · exact (hwords _ (by simp)).not_endsIn
  · exact (hwords _ (by simp)).not_endsIn
  · rw [dayText, ← List.append_assoc]
    exact twoDigits_ends hne hname _
  · exact twoDigits_ends hne hname []

theorem skips_zone (h : Sought name [ascii "Server", ascii "Date", ascii "Content-Type"]) :
    ∀ front ∈ (fronts lib now code).take 5, ¬ EndsIn front name := by
  obtain ⟨hne, hcolon, hname, hwords⟩ := h
  have htake : (fronts lib now code).take 5 = (fronts lib now code).take 4 ++ [zoneFront now] := rfl
  rw [htake, List.forall_mem_append, List.forall_mem_singleton]
  constructor
  · exact skips_version ⟨hne, hcolon, hname, fun word hword => hwords word (by simp at hword ⊢; tauto)⟩
  · exact (hwords _ (by simp)).not_endsIn

/-- A field of the head is found when no text in front of it ends in its name. -/
theorem finds_field {k : ℕ} {front text : Bytes} (hcolon : ∀ front ∈ fronts lib now code, colon ∉ front)
    (hskips : ∀ front ∈ (fronts lib now code).take k, ¬ EndsIn front name) (hfront : front ∈ fronts lib now code)
    (hname : colon ∉ name) (hends : EndsIn front name) (hne : text ≠ []) (htext : ∀ b ∈ text, isLineEnd b = false)
    (hhead : ∀ b ∈ text.head?, isBlank b = false) (rest : Bytes) :
    Finds (joined ((fronts lib now code).take k) (front ++ colon :: MiniAgentOS.space :: (text ++ cr :: rest))) name text := by
  refine finds_joined (fun other hother => ?_) hname (finds_here (hcolon front hfront) hname hends hne htext hhead)
  exact ⟨hcolon other (List.mem_of_mem_take hother), hskips other hother⟩

theorem imfFixdate_line (hyear : now.year ≤ 9999) : imfFixdate now ≠ [] ∧ (∀ b ∈ imfFixdate now, isLineEnd b = false) ∧
    ∀ b ∈ (imfFixdate now).head?, isBlank b = false := by
  have hmin := now.min_lt
  have hsec := now.sec_lt
  have hday := clean_dayText hyear
  have hmins := clean_twoDigits (show now.min < 100 by omega)
  have hsecs := (clean_twoDigits (show now.sec < 100 by omega)).append clean_zone
  obtain ⟨hlen, -⟩ := dayName_plain now.days
  obtain ⟨b, name, hname⟩ := List.exists_cons_of_ne_nil (List.ne_nil_of_length_pos (by omega : 0 < (dayName now.days).length))
  refine ⟨by simp [imfFixdate, hname], ?_, ?_⟩
  · rw [imfFixdate_eq]
    intro c hc
    rcases List.mem_append.mp hc with hin | hin
    · exact (hday c hin).2
    rcases List.mem_cons.mp hin with rfl | hin
    · rfl
    rcases List.mem_append.mp hin with hin | hin
    · exact (hmins c hin).2
    rcases List.mem_cons.mp hin with rfl | hin
    · rfl
    · exact (hsecs c hin).2
  · have hblank := (clean_dayName now.days).2
    rw [hname] at hblank
    simpa [imfFixdate, hname] using hblank

theorem finds_date (lib : Library) (hcode : code < 10 ^ 20) (hyear : now.year ≤ 9999) :
    Finds (replyHead lib now code n) (ascii "date") (imfFixdate now) := by
  obtain ⟨rest, hrest⟩ := replyHead_date lib now code n
  obtain ⟨hne, hline, hhead⟩ := imfFixdate_line hyear
  obtain ⟨-, hcolon, -, hserver⟩ := names_sought.1
  have hends : EndsIn (versionFront lib) (ascii "date") := EndsIn.append _ names_end.1
  rw [hrest]
  apply finds_field (colon_fronts hcode hyear) ?_ ?_ hcolon hends hne hline hhead
  · simp only [fronts, List.take_succ_cons, List.take_zero, List.forall_mem_singleton]
    exact (hserver _ List.mem_cons_self).not_endsIn
  · simp [fronts]

theorem finds_type (lib : Library) (hcode : code < 10 ^ 20) (hyear : now.year ≤ 9999) :
    Finds (replyHead lib now code n) (ascii "content-type") jsonType := by
  obtain ⟨rest, hrest⟩ := replyHead_type lib now code n
  obtain ⟨hne, hline, hhead, -⟩ := jsonType_plain
  have hends : EndsIn (zoneFront now) (ascii "content-type") := EndsIn.append _ names_end.2.1
  rw [hrest]
  apply finds_field (colon_fronts hcode hyear) (skips_version names_sought.2.1) ?_ names_sought.2.1.2.1 hends hne hline hhead
  simp [fronts]

theorem finds_length (lib : Library) (hcode : code < 10 ^ 20) (hyear : now.year ≤ 9999) (hn : n < 10 ^ 20) :
    Finds (replyHead lib now code n) contentLengthName (Fetch.decimal n) := by
  obtain ⟨hne, hdigits, -⟩ := decimal_spec hn
  have hclean := clean_digits hdigits
  have hends : EndsIn typeFront contentLengthName := EndsIn.append _ names_end.2.2
  rw [replyHead_length]
  apply finds_field (colon_fronts hcode hyear) (skips_zone names_sought.2.2.1) ?_ names_sought.2.2.1.2.1 hends hne
    (fun b hb => (hclean b hb).2) ?_
  · simp [fronts]
  · intro b hb
    exact (digit_clean b (List.all_eq_true.mp hdigits b (List.mem_of_mem_head? hb))).2

/-- Fields that the head does not have are not found. -/
theorem absent (lib : Library) (hcode : code < 10 ^ 20) (hyear : now.year ≤ 9999) (hn : n < 10 ^ 20)
    (h : Sought name [ascii "Server", ascii "Date", ascii "Content-Type", ascii "Content-Length"]) :
    ∀ k, ¬ Place (replyHead lib now code n) name k := by
  obtain ⟨hne, hcolon, hname, hwords⟩ := h
  have hclean := ((clean_space.append (clean_digits (decimal_spec hn).2.1))).not_colon
  have hskips : ∀ front ∈ (fronts lib now code).take 5, ¬ EndsIn front name :=
    skips_zone ⟨hne, hcolon, hname, fun word hword => hwords word (by simp at hword ⊢; tauto)⟩
  rw [replyHead_joined]
  apply no_place_joined (fun front hfront => ⟨colon_fronts hcode hyear front hfront, ?_⟩) hcolon
  · rw [List.mem_append]
    exact fun h => h.elim hclean (by decide)
  · have hall : fronts lib now code = (fronts lib now code).take 5 ++ [typeFront] := rfl
    rw [hall, List.mem_append, List.mem_singleton] at hfront
    rcases hfront with hin | rfl
    · exact hskips front hin
    · exact (hwords _ (by simp)).not_endsIn

end Fields

section Reading

variable {lib : Library} {now : Moment}

theorem parseStatus_reply (hlow : 100 ≤ code) (hhigh : code < 1000) (rest : Bytes) :
    parseStatus (ascii "HTTP/1.0 " ++ Fetch.decimal code ++ rest) (ascii "HTTP/1.0 " ++ Fetch.decimal code ++ rest).length =
      .ok code := by
  obtain ⟨buf, hbuf⟩ : ∃ buf, ascii "HTTP/1.0 " ++ Fetch.decimal code ++ rest = buf := ⟨_, rfl⟩
  obtain ⟨hone, hunits⟩ := digit_read (show code % 10 < 10 by omega)
  obtain ⟨hten, htens⟩ := digit_read (show code / 10 % 10 < 10 by omega)
  obtain ⟨hhundred, hhundreds⟩ := digit_read (show code / 100 < 10 by omega)
  have h0 : buf.drop 0 = ascii "HTTP/1.0" ++ (MiniAgentOS.space :: UInt8.ofNat (48 + code / 100) ::
      UInt8.ofNat (48 + code / 10 % 10) :: UInt8.ofNat (48 + code % 10) :: rest) := by
    rw [← hbuf, decimal_status hlow hhigh]
    rfl
  have h8 : buf.drop 8 = _ := @drop_of_drop buf _ 0 (ascii "HTTP/1.0") h0
  have h9 : buf.drop 9 = _ := @drop_of_drop buf _ 8 [_] h8
  have h10 : buf.drop 10 = _ := @drop_of_drop buf _ 9 [_] h9
  have h11 : buf.drop 11 = _ := @drop_of_drop buf _ 10 [_] h10
  obtain ⟨hlt, hindex⟩ := index_of_drop h11
  have hmark : (ascii "HTTP/1.0").isPrefixOf buf = true := by
    rw [List.isPrefixOf_iff_prefix]
    exact ⟨_, h0.symm⟩
  have hspace : (UInt8.ofNat (48 + code / 100) == MiniAgentOS.space) = false := by
    rw [beq_eq_false_iff_ne]
    intro heq
    rw [heq] at hhundred
    cases hhundred
  have hskip : skipWhile (· == MiniAgentOS.space) buf buf.length 8 = .ok 9 := by
    rw [skipWhile_eq _ (by omega), h8, List.takeWhile_cons_of_pos (by decide),
      List.takeWhile_cons_of_neg (by rw [hspace]; exact Bool.false_ne_true)]
    rfl
  have hsum : code / 100 * 100 + code / 10 % 10 * 10 + code % 10 = code := by omega
  rw [hbuf, parseStatus, if_neg (by omega), hmark, Bool.or_true, if_neg (by decide), hskip, ok_bind, if_neg (by omega),
    (index_of_drop h9).2, ok_bind, (index_of_drop h10).2, ok_bind, hindex, ok_bind, hhundred, hten, hone,
    if_neg (by decide), hhundreds, ok_bind, htens, ok_bind, hunits, ok_bind, mul_lt (by omega), ok_bind,
    mul_lt (by omega), ok_bind, add_lt (by omega), ok_bind, add_lt (by omega), hsum]

/-- The lines of a head. -/
def replyLines (lib : Library) (now : Moment) (code n : ℕ) : List Bytes :=
  [ascii "HTTP/1.0 " ++ Fetch.decimal code ++ ascii " " ++ lib.responses code,
    ascii "Server" ++ ascii ": " ++ lib.versionString, ascii "Date" ++ ascii ": " ++ imfFixdate now,
    ascii "Content-Type" ++ ascii ": " ++ jsonType, ascii "Content-Length" ++ ascii ": " ++ Fetch.decimal n]

theorem replyHead_lines (lib : Library) (now : Moment) (code n : ℕ) : replyHead lib now code n =
    (replyLines lib now code n).flatMap (· ++ [cr, lf]) ++ [cr, lf] := by
  simp [replyHead, sendResponse, sendHeader, replyLines, jsonType]

theorem replyLines_plain (lib : Library) (hcode : code < 10 ^ 20) (hyear : now.year ≤ 9999) (hn : n < 10 ^ 20) :
    ∀ line ∈ replyLines lib now code n, line ≠ [] ∧ cr ∉ line := by
  have hcodes := lineEnd_cr fun b hb => (clean_digits (decimal_spec hcode).2.1 b hb).2
  have hphrase := lineEnd_cr fun b hb => (lib.clean_phrase code b hb).2
  have hversion := lineEnd_cr fun b hb => (lib.clean_version b hb).2
  have hdate := lineEnd_cr (imfFixdate_line hyear).2.1
  have hlength := lineEnd_cr fun b hb => (clean_digits (decimal_spec hn).2.1 b hb).2
  intro line hline
  simp only [replyLines, List.mem_cons, List.not_mem_nil, or_false] at hline
  rcases hline with rfl | rfl | rfl | rfl | rfl
  · simp only [List.mem_append, hcodes, hphrase, or_false]
    exact ⟨by simp [ascii], by decide⟩
  · simp only [List.mem_append, hversion, or_false]
    exact ⟨by simp [ascii], by decide⟩
  · simp only [List.mem_append, hdate, or_false]
    exact ⟨by simp [ascii], by decide⟩
  · exact ⟨by simp [ascii], by decide⟩
  · simp only [List.mem_append, hlength, or_false]
    exact ⟨by simp [ascii], by decide⟩

theorem replyHead_end (lib : Library) (hcode : code < 10 ^ 20) (hyear : now.year ≤ 9999) (hn : n < 10 ^ 20) (rest : Bytes) :
    headerEnd (replyHead lib now code n ++ rest) = some (replyHead lib now code n).length := by
  rw [replyHead_lines, List.append_assoc]
  have hend := @headerEnd_lines rest _ (replyLines_plain lib hcode hyear hn) (List.cons_ne_nil _ _)
  simpa using hend

theorem imfFixdate_length (now : Moment) : (imfFixdate now).length = 29 := by
  obtain ⟨hday, -⟩ := dayName_plain now.days
  have hmonth := monthName_length now.month_range.1 now.month_range.2
  have hzone : (ascii " GMT").length = 4 := rfl
  simp only [imfFixdate, twoDigits, fourDigits, List.length_append, List.length_cons, List.length_nil, hday, hmonth, hzone]

theorem replyHead_fits (lib : Library) (now : Moment) (hcode : code < 10 ^ 20) (hn : n < 10 ^ 20) :
    (replyHead lib now code n).length ≤ headerBufLen := by
  have hcodes := decimal_length hcode
  have hlength := decimal_length hn
  have hshort := lib.short code
  have hdate := imfFixdate_length now
  have hroom : headerBufLen = 4096 := rfl
  simp only [replyHead, sendResponse, sendHeader, List.length_append, List.length_cons, List.length_nil, texts_length, hdate]
  omega

theorem announces_reply (lib : Library) (hcode : code < 10 ^ 20) (hyear : now.year ≤ 9999) (hn : n < 10 ^ 20) :
    Announces (replyHead lib now code n) n := by
  obtain ⟨start, stop, hvalue, hdigits⟩ := (finds_length lib hcode hyear hn).length
  have hend := replyHead_end lib hcode hyear hn []
  rw [List.append_nil] at hend
  constructor
  · exact hend
  · exact replyHead_fits lib now hcode hn
  · exact ⟨start, stop, hvalue, by rw [hdigits, (decimal_spec hn).2.2]⟩
  · exact fieldHasToken_none (absent lib hcode hyear hn names_sought.2.2.2.1)

theorem replyHead_status (lib : Library) (now : Moment) (code n : ℕ) : ∃ rest, replyHead lib now code n =
    ascii "HTTP/1.0 " ++ Fetch.decimal code ++ rest := by
  refine ⟨ascii " " ++ (lib.responses code ++ ([cr, lf] ++ (sendHeader "Server" lib.versionString ++
    (sendHeader "Date" (imfFixdate now) ++ (sendHeader "Content-Type" (ascii "application/json; charset=utf-8") ++
      (sendHeader "Content-Length" (Fetch.decimal n) ++ [cr, lf])))))), ?_⟩
  simp only [replyHead, sendResponse, List.append_assoc]

/-- The head of a reply is read field by field. -/
theorem parse_reply (lib : Library) (hlow : 100 ≤ code) (hhigh : code < 1000) (hyear : now.year ≤ 9999) (hn : n < 2 ^ 64) :
    httpParseHeaders (replyHead lib now code n) (replyHead lib now code n).length false false 0 =
      .ok ⟨code, false, n, true, some now.unix, none⟩ := by
  have hcode : code < 10 ^ 20 := by omega
  have hdigits : n < 10 ^ 20 := by omega
  have hblock := announces_reply lib hcode hyear hdigits
  have hstatus : parseStatus (replyHead lib now code n) (replyHead lib now code n).length = .ok code := by
    obtain ⟨rest, hrest⟩ := replyHead_status lib now code n
    rw [hrest]
    exact parseStatus_reply hlow hhigh rest
  obtain ⟨-, -, -, htoken⟩ := jsonType_plain
  have hjson : fieldHasToken (replyHead lib now code n) (replyHead lib now code n).length (ascii "content-type")
      (ascii "application/json") = .ok true := (finds_type lib hcode hyear).hasToken htoken
  have hdate : parseDate (replyHead lib now code n) (replyHead lib now code n).length = parseHttpDate (imfFixdate now) :=
    (finds_date lib hcode hyear).date
  rw [parseHttpDate_form now hyear] at hdate
  have hredirect := redirectTarget_none (absent lib hcode hyear hdigits names_sought.2.2.2.2)
  rw [httpParseHeaders, hstatus, ok_bind, hblock.unchunked, ok_bind, parseContentLength_eq hblock, if_pos hn, ok_bind, hjson,
    ok_bind, hdate, ok_bind, hredirect, ok_bind]
  rfl

/-- The kernel reads the head of every reply field by field, and has the whole reply in the end just when the
reply has a body and its empty line came in one piece. -/
theorem reply_read_iff (lib : Library) (now : Moment) (hyear : now.year ≤ 9999) (hlow : 100 ≤ code) (hhigh : code < 1000)
    (hbody : body.length < 2 ^ 64) (hcuts : pieces.flatten = writeRawJson lib now code body) :
    httpParseHeaders (replyHead lib now code body.length) (replyHead lib now code body.length).length false false 0 =
        .ok ⟨code, false, body.length, true, some now.unix, none⟩ ∧
      (ReadExactly pieces code body ↔
        body ≠ [] ∧ TerminatorWhole pieces ((replyHead lib now code body.length).length - 4)) := by
  have hcode : code < 10 ^ 20 := by omega
  have hdigits : body.length < 10 ^ 20 := by omega
  have hparse := parse_reply lib hlow hhigh hyear hbody
  have hblock := announces_reply lib hcode hyear hdigits
  have hend := replyHead_end lib hcode hyear hdigits body
  refine ⟨hparse, ?_⟩
  have hread : ∃ http, readHeaders httpReset (replyHead lib now code body.length) = .ok http ∧ http.chunked = false ∧
      http.contentLen = body.length ∧ http.status = code ∧ http.isJson = true := by
    unfold readHeaders
    rw [show httpReset.chunked = false from rfl, show httpReset.isJson = false from rfl,
      show httpReset.contentLen = 0 from rfl, hparse, ok_bind]
    exact ⟨_, rfl, rfl, rfl, rfl, rfl⟩
  obtain ⟨http, hread, hchunked, hlength, hstatus, hjson⟩ := hread
  obtain ⟨hstate, hrecv⟩ := readHeaders_atBody hread hchunked
  have hwhole : TerminatorWhole pieces ((replyHead lib now code body.length).length - 4) →
      delivered <$> feedAll httpReset pieces = .ok (bodyRun http body) := by
    intro hterminator
    obtain ⟨hfour, hle, hat, hfirst⟩ := headerEnd_eq_some hend
    have hfits := replyHead_fits lib now hcode hdigits
    have hterm : headerTerminator.length = 4 := rfl
    have hsum : (replyHead lib now code body.length).length - 4 + 4 = (replyHead lib now code body.length).length := by
      omega
    have hblock := headerBlock_whole hcuts hat (fun m hm => hfirst m (by omega)) (by omega) hterminator
    have hall := feedAll_headers pieces (show httpReset.state = .headers from rfl)
    rw [writeRawJson, hsum, List.take_left, List.drop_left] at hblock
    rw [httpReset_header, hblock] at hall
    dsimp only at hall
    rw [hall, hread]
    rfl
  constructor
  · rintro ⟨last, effects, hfeed, hcomplete, -, -, hbytes⟩
    have hterminator := terminator_of_complete hcuts hend hfeed hcomplete (by
      rw [hbytes, writeRawJson, List.length_append]
      omega)
    refine ⟨?_, hterminator⟩
    rintro rfl
    have hrun := hwhole hterminator
    rw [hfeed] at hrun
    have hlast : (last, bodyBytes effects) = bodyRun http [] := Except.ok.inj hrun
    have hopen := bodyRun_unframed [] hstate hlength
    rw [← hlast] at hopen
    exact absurd (hcomplete.symm.trans hopen) (by decide)
  · rintro ⟨hne, hterminator⟩
    have hrun := hwhole hterminator
    have hpos : 0 < body.length := List.length_pos_iff.mpr hne
    obtain ⟨hbytes, hcomplete⟩ := bodyRun_exact hstate hrecv (by omega) (by omega) body
    rw [hlength] at hbytes hcomplete
    cases hfeed : feedAll httpReset pieces with
    | error trap =>
      rw [hfeed] at hrun
      cases hrun
    | ok result =>
      obtain ⟨last, effects⟩ := result
      rw [hfeed] at hrun
      have hlast : (last, bodyBytes effects) = bodyRun http body := Except.ok.inj hrun
      have hfirst : last = (bodyRun http body).1 := congrArg Prod.fst hlast
      have hsecond : bodyBytes effects = (bodyRun http body).2 := congrArg Prod.snd hlast
      refine ⟨last, effects, hfeed, ?_, ?_, ?_, ?_⟩
      · rw [hfirst]
        exact hcomplete.mpr le_rfl
      · rw [hfirst, bodyRun_status, hstatus]
      · rw [hfirst, bodyRun_isJson, hjson]
      · rw [hsecond, hbytes, List.take_length]

theorem clean_ok (code : ℕ) : Clean (if code = 200 then ascii "OK" else []) := by
  split_ifs <;> simp [Clean, ascii, colon, isLineEnd, cr, lf]

theorem clean_baseHttp : Clean (ascii "BaseHTTP/0.6") := by simp [Clean, ascii, colon, isLineEnd, cr, lf]

theorem short_ok (code : ℕ) : (if code = 200 then ascii "OK" else []).length + (ascii "BaseHTTP/0.6").length ≤ 3000 := by
  split_ifs <;> decide

/-- A library that knows one phrase. -/
def okLibrary : Library :=
  ⟨fun code => if code = 200 then ascii "OK" else [], ascii "BaseHTTP/0.6", clean_ok, clean_baseHttp, short_ok⟩

theorem reply_read_ok : ReadExactly [writeRawJson okLibrary beforeLeapDay 200 (ascii "[]")] 200 (ascii "[]") := by
  refine (reply_read_iff okLibrary beforeLeapDay (by decide) (by decide) (by decide) (by decide)
    (List.append_nil _)).2.mpr ⟨by decide, [], writeRawJson okLibrary beforeLeapDay 200 (ascii "[]"), [], rfl,
      Nat.zero_le _, ?_⟩
  decide +kernel

end Reading

end MiniAgentOS.Bridge
