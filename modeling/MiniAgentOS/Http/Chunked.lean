import MiniAgentOS.Http.HeaderBlock

/-! Chunked transfer coding: the grammar, the wider language that the parser takes for complete,
and the bodies on which the two agree. -/
namespace MiniAgentOS.Http
open Checked

variable {http : HttpParser} {line digits : Bytes}

/-- The number that hexadecimal digits make behind the digits of `v`. -/
def hexValue (v : ℕ) (digits : Bytes) : ℕ := digits.foldl (fun v b => v * 16 + hexDigit b) v

/-- A size line: digits of a number that fits a machine word, and possibly an extension. -/
structure SizeLine (line : Bytes) (size : ℕ) : Prop where
  fits : size < 2 ^ 64
  parts : ∃ digits ext, line = digits ++ ext ∧ digits ≠ [] ∧ (∀ b ∈ digits, isHex b) ∧
    hexValue 0 digits = size ∧ (ext = [] ∨ ext.head? = some semicolon) ∧ cr ∉ ext ∧ lf ∉ ext

/-- A well-formed sequence of chunks, and the data of its chunks. -/
inductive ChunkedBody : Bytes → Bytes → Prop where
  | last {line : Bytes} : SizeLine line 0 → ChunkedBody (line ++ [cr, lf]) []
  | chunk {line data rest body : Bytes} : SizeLine line data.length → data ≠ [] →
      ChunkedBody rest body →
      ChunkedBody (line ++ [cr, lf] ++ data ++ [cr, lf] ++ rest) (data ++ body)

/-- The digits of a line before its first semicolon, whatever stands between them. -/
def sizeDigits (line : Bytes) : Bytes := (line.takeWhile (· != semicolon)).filter isHex

/-- The size the parser reads from a line, as far as a machine word goes. -/
def lineSize (line : Bytes) : ℕ := hexValue 0 (sizeDigits line) % 2 ^ 64

/-- The language of the parser. A line may hold anything but its carriage return, which need not
be followed by a line feed at once, and a chunk ends with the next carriage return. -/
inductive LenientBody : Bytes → Bytes → Prop where
  | last {line skip : Bytes} : cr ∉ line → lf ∉ skip → lineSize line = 0 →
      LenientBody (line ++ cr :: (skip ++ [lf])) []
  | chunk {line skip data gap rest body : Bytes} : cr ∉ line → lf ∉ skip →
      lineSize line = data.length → data ≠ [] → cr ∉ gap → LenientBody rest body →
      LenientBody (line ++ cr :: (skip ++ lf :: (data ++ (gap ++ cr :: rest)))) (data ++ body)

section Grammar

theorem SizeLine.lineSize_eq {size : ℕ} (h : SizeLine line size) : lineSize line = size := by
  obtain ⟨digits, ext, rfl, -, hhex, rfl, hext, -⟩ := h.parts
  have hnot : ∀ b ∈ digits, (b != semicolon) = true := by
    intro b hb
    have hdigit := hhex b hb
    simp only [bne_iff_ne, ne_eq]
    rintro rfl
    exact absurd hdigit (by decide)
  have htake : (digits ++ ext).takeWhile (· != semicolon) = digits := by
    rw [List.takeWhile_append_of_pos hnot]
    rcases hext with rfl | hhead
    · simp
    · cases ext with
      | nil => cases hhead
      | cons b ext =>
        rw [List.head?_cons, Option.some.injEq] at hhead
        simp [hhead]
  rw [lineSize, sizeDigits, htake, List.filter_eq_self.mpr hhex, Nat.mod_eq_of_lt h.fits]

theorem SizeLine.cr_notMem {size : ℕ} (h : SizeLine line size) : cr ∉ line := by
  obtain ⟨digits, ext, rfl, -, hhex, -, -, hcr, -⟩ := h.parts
  rw [List.mem_append]
  rintro (hdigits | hext)
  · exact absurd (hhex cr hdigits) (by decide)
  · exact hcr hext

theorem lineSize_lf (line : Bytes) : lineSize (lf :: line) = lineSize line := by
  have hsemi : (lf != semicolon) = true := by decide
  have hhex : isHex lf = false := by decide
  simp [lineSize, sizeDigits, hsemi, hhex]

/-- A line feed in front of a body that the parser takes is part of its first line. -/
theorem LenientBody.cons_lf {bytes body : Bytes} (h : LenientBody bytes body) :
    LenientBody (lf :: bytes) body := by
  have hne : cr ≠ lf := by decide
  cases h with
  | last hline hskip hsize =>
    rw [← List.cons_append]
    exact .last (by simp [hne, hline]) hskip (by rw [lineSize_lf, hsize])
  | chunk hline hskip hsize hdata hgap hrest =>
    rw [← List.cons_append]
    exact .chunk (by simp [hne, hline]) hskip (by rw [lineSize_lf, hsize]) hdata hgap hrest

/-- The parser takes every well-formed sequence of chunks, with its data. -/
theorem ChunkedBody.lenient {bytes body : Bytes} (h : ChunkedBody bytes body) :
    LenientBody bytes body := by
  have hnone : ∀ b, b ∉ ([] : Bytes) := by simp
  induction h with
  | last hline => exact .last hline.cr_notMem (hnone lf) hline.lineSize_eq
  | chunk hline hdata _ ih =>
    have hlenient := LenientBody.chunk hline.cr_notMem (hnone lf) hline.lineSize_eq hdata (hnone cr)
      ih.cons_lf
    simpa using hlenient

/-- A well-formed sequence of chunks starts with a digit. -/
theorem ChunkedBody.head_isHex {bytes body : Bytes} (h : ChunkedBody bytes body) :
    ∃ b rest, bytes = b :: rest ∧ isHex b := by
  have hline : ∀ {line : Bytes} {size : ℕ} (rest : Bytes), SizeLine line size →
      ∃ b rest', line ++ rest = b :: rest' ∧ isHex b := by
    intro line size rest hline
    obtain ⟨digits, ext, rfl, hne, hhex, -⟩ := hline.parts
    obtain ⟨b, digits, rfl⟩ := List.exists_cons_of_ne_nil hne
    exact ⟨b, digits ++ ext ++ rest, rfl, hhex b List.mem_cons_self⟩
  cases h with
  | last h => exact hline _ h
  | chunk h _ _ =>
    simp only [List.append_assoc]
    exact hline _ h

end Grammar

section Run

/-- The parser in front of a size line. -/
structure AtSizeLine (http : HttpParser) : Prop where
  state : http.state = .chunkSize
  parse : http.chunkParse = 0
  ext : http.chunkExt = false
  expectLf : http.chunkExpectLf = false

/-- The word the parser makes of hexadecimal digits. -/
def hexWord (v : UInt64) (digits : Bytes) : UInt64 :=
  digits.foldl (fun v b => (v <<< 4) ||| UInt64.ofNat (hexDigit b)) v

theorem toNat_shift_or (v : UInt64) {d : ℕ} (hd : d < 16) :
    ((v <<< 4) ||| UInt64.ofNat d).toNat = (v.toNat * 16 + d) % 2 ^ 64 := by
  have hdigit : (UInt64.ofNat d).toNat = d := by
    rw [UInt64.toNat_ofNat', Nat.mod_eq_of_lt (by omega)]
  have hfour : (4 : UInt64).toNat % 64 = 4 := by decide
  have hshift : v.toNat <<< 4 % 2 ^ 64 = (v.toNat % 2 ^ 60) <<< 4 := by
    rw [Nat.shiftLeft_eq, Nat.shiftLeft_eq]
    omega
  rw [UInt64.toNat_or, UInt64.toNat_shiftLeft, hdigit, hfour, hshift,
    ← Nat.shiftLeft_add_eq_or_of_lt (by omega), Nat.shiftLeft_eq]
  omega

theorem hexValue_mod (digits : Bytes) : ∀ v, hexValue (v % 2 ^ 64) digits % 2 ^ 64 =
    hexValue v digits % 2 ^ 64 := by
  induction digits with
  | nil => exact fun v => Nat.mod_mod v _
  | cons b digits ih =>
    intro v
    have hcons : ∀ v, hexValue v (b :: digits) = hexValue (v * 16 + hexDigit b) digits := fun _ => rfl
    have hstep : (v % 2 ^ 64 * 16 + hexDigit b) % 2 ^ 64 = (v * 16 + hexDigit b) % 2 ^ 64 := by omega
    rw [hcons, hcons, ← ih, hstep, ih]

theorem toNat_hexWord (hhex : ∀ b ∈ digits, isHex b) :
    ∀ v, (hexWord v digits).toNat = hexValue v.toNat digits % 2 ^ 64 := by
  induction digits with
  | nil => exact fun v => (Nat.mod_eq_of_lt v.toNat_lt).symm
  | cons b digits ih =>
    intro v
    have hdigit := hexDigit_le (hhex b List.mem_cons_self)
    have hrest := ih (fun c hc => hhex c (List.mem_cons_of_mem b hc))
    have hcons : hexWord v (b :: digits) = hexWord ((v <<< 4) ||| UInt64.ofNat (hexDigit b)) digits :=
      rfl
    rw [hcons, hrest, toNat_shift_or v (by omega), hexValue_mod]
    rfl

/-- The parser within a size line, with the number it has read. -/
structure InSizeLine (http : HttpParser) (line : Bytes) : Prop where
  state : http.state = .chunkSize
  parse : http.chunkParse = hexWord 0 (sizeDigits line)
  ext : http.chunkExt = true ↔ semicolon ∈ line
  expectLf : http.chunkExpectLf = false

theorem sizeDigits_append (b : UInt8) : sizeDigits (line ++ [b]) =
    if semicolon ∉ line ∧ b ≠ semicolon ∧ isHex b then sizeDigits line ++ [b]
      else sizeDigits line := by
  have hall : (line.takeWhile (· != semicolon)).length = line.length ↔ semicolon ∉ line := by
    constructor
    · intro hlen hmem
      have heq := (List.takeWhile_prefix (· != semicolon)).eq_of_length hlen
      have hbad := List.takeWhile_eq_self_iff.mp heq semicolon hmem
      exact absurd hbad (by simp)
    · intro hnot
      have heq : line.takeWhile (· != semicolon) = line := by
        apply List.takeWhile_eq_self_iff.mpr
        intro c hc
        simp only [bne_iff_ne, ne_eq]
        rintro rfl
        exact hnot hc
      rw [heq]
  by_cases hseen : semicolon ∈ line
  · simp [sizeDigits, List.takeWhile_append, hall, hseen]
  · have heq := (List.takeWhile_prefix (· != semicolon)).eq_of_length (hall.mpr hseen)
    rw [sizeDigits, sizeDigits, List.takeWhile_append, if_pos (hall.mpr hseen), heq]
    by_cases hsemi : b = semicolon
    · simp [hsemi]
    · by_cases hhex : isHex b
      · simp [hseen, hsemi, hhex]
      · simp [hsemi, hhex]

theorem InSizeLine.size (h : InSizeLine http line) : http.chunkParse.toNat = lineSize line := by
  have hhex : ∀ b ∈ sizeDigits line, isHex b := fun b hb => (List.mem_filter.mp hb).2
  rw [h.parse, toNat_hexWord hhex]
  rfl

theorem InSizeLine.step {b : UInt8} (h : InSizeLine http line) (hb : b ≠ cr) :
    (bodyStep http b).2 = [] ∧ InSizeLine (bodyStep http b).1 (line ++ [b]) := by
  have hstep : bodyStep http b = (chunkSizeStep http b, []) := by rw [bodyStep, h.state]
  rw [hstep]
  refine ⟨rfl, ?_⟩
  by_cases hseen : semicolon ∈ line
  · have hnext : chunkSizeStep http b = http := by
      simp [chunkSizeStep, h.expectLf, hb, h.ext.mpr hseen]
    rw [hnext]
    exact ⟨h.state, by rw [sizeDigits_append, h.parse]; simp [hseen], by simp [h.ext, hseen], h.expectLf⟩
  · have hext : http.chunkExt = false := by
      rw [← Bool.not_eq_true, h.ext]
      exact hseen
    by_cases hsemi : b = semicolon
    · have hnext : chunkSizeStep http b = { http with chunkExt := true } := by
        rw [hsemi] at hb ⊢
        simp [chunkSizeStep, h.expectLf, hb, hext]
      rw [hnext]
      exact ⟨h.state, by rw [sizeDigits_append]; simp [hsemi, h.parse], by simp [hsemi], h.expectLf⟩
    · have hsame : semicolon ∈ line ++ [b] ↔ semicolon ∈ line := by simp [Ne.symm hsemi]
      by_cases hhex : isHex b
      · have hnext : chunkSizeStep http b =
            { http with
              chunkParse := (http.chunkParse <<< 4) ||| UInt64.ofNat (hexDigit b)
              chunkHaveDigit := true } := by
          simp [chunkSizeStep, h.expectLf, hb, hext, hsemi, hhex]
        have hword : hexWord 0 (sizeDigits line ++ [b]) =
            (http.chunkParse <<< 4) ||| UInt64.ofNat (hexDigit b) := by
          rw [hexWord, List.foldl_append, h.parse]
          rfl
        rw [hnext]
        refine ⟨h.state, ?_, h.ext.trans hsame.symm, h.expectLf⟩
        rw [sizeDigits_append, if_pos ⟨hseen, hsemi, hhex⟩, hword]
      · have hnext : chunkSizeStep http b = http := by
          simp [chunkSizeStep, h.expectLf, hb, hext, hsemi, hhex]
        rw [hnext]
        refine ⟨h.state, ?_, h.ext.trans hsame.symm, h.expectLf⟩
        rw [sizeDigits_append, if_neg (by simp [hhex]), h.parse]

/-- Over a line without a carriage return the parser collects its digits. -/
theorem bodyRun_line (hstart : AtSizeLine http) (hline : cr ∉ line) :
    (bodyRun http line).2 = [] ∧ InSizeLine (bodyRun http line).1 line := by
  induction line using List.reverseRecOn with
  | nil => exact ⟨rfl, hstart.state, hstart.parse, by simp [bodyRun, hstart.ext], hstart.expectLf⟩
  | append_singleton line b ih =>
    rw [List.mem_append, not_or] at hline
    obtain ⟨hout, hin⟩ := ih hline.1
    have hb : b ≠ cr := fun h => hline.2 (by simp [h])
    obtain ⟨hout', hin'⟩ := hin.step hb
    rw [bodyRun_append]
    constructor
    · simp [hout, bodyRun, hout']
    · exact hin'

/-- The parser behind a size line: complete, or in front of the data of a chunk. -/
def startChunk (http : HttpParser) (size : ℕ) : HttpParser :=
  { http with
    chunkParse := 0
    chunkHaveDigit := false
    chunkExt := false
    chunkExpectLf := false
    chunkRemain := size
    state := if size = 0 then .complete else .chunkData }

theorem bodyRun_sizeLine {skip : Bytes} (hstart : AtSizeLine http) (hline : cr ∉ line)
    (hskip : lf ∉ skip) :
    ∃ next, bodyRun http (line ++ cr :: skip) = (next, []) ∧ next.state = .chunkSize ∧
      bodyStep next lf = (startChunk next (lineSize line), []) := by
  obtain ⟨hout, hin⟩ := bodyRun_line hstart hline
  have hcr : bodyStep (bodyRun http line).1 cr =
      ({ (bodyRun http line).1 with chunkExpectLf := true }, []) := by
    rw [bodyStep, hin.state]
    simp [chunkSizeStep, hin.expectLf]
  have hwait : ∀ b ∈ skip, bodyStep { (bodyRun http line).1 with chunkExpectLf := true } b =
      ({ (bodyRun http line).1 with chunkExpectLf := true }, []) := by
    intro b hb
    have hne : b ≠ lf := fun h => hskip (h ▸ hb)
    simp [bodyStep, hin.state, chunkSizeStep, hne]
  refine ⟨{ (bodyRun http line).1 with chunkExpectLf := true }, ?_, hin.state, ?_⟩
  · rw [bodyRun_append, hout, bodyRun, hcr, bodyRun_stuck hwait]
    rfl
  · have hzero : (bodyRun http line).1.chunkParse = 0 ↔ lineSize line = 0 := by
      rw [← hin.size, ← UInt64.toNat_inj]
      rfl
    simp [bodyStep, hin.state, chunkSizeStep, startChunk, hin.size, hzero]

theorem startChunk_last (http : HttpParser) : (startChunk http 0).state = .complete := rfl

theorem bodyRun_chunk {data gap : Bytes} (http : HttpParser) (hdata : data ≠ []) (hgap : cr ∉ gap) :
    ∃ next, bodyRun (startChunk http data.length) (data ++ gap) = (next, data) ∧
      next.state = .chunkEnd ∧ ∃ after, bodyStep next cr = (after, []) ∧ AtSizeLine after := by
  have hlen : data.length ≠ 0 := by simpa using hdata
  have hstate : (startChunk http data.length).state = .chunkData := by simp [startChunk, hdata]
  have hrun := bodyRun_chunkData data hstate le_rfl hdata
  have hdone : (startChunk http data.length).chunkRemain - data.length = 0 := Nat.sub_self _
  rw [if_pos hdone] at hrun
  have hwait : ∀ b ∈ gap, bodyStep (bodyRun (startChunk http data.length) data).1 b =
      ((bodyRun (startChunk http data.length) data).1, []) := by
    intro b hb
    have hne : b ≠ cr := fun h => hgap (h ▸ hb)
    rw [hrun]
    simp [bodyStep, hne]
  refine ⟨(bodyRun (startChunk http data.length) data).1, ?_, ?_, ?_⟩
  · rw [bodyRun_append, bodyRun_stuck hwait, hrun, List.append_nil]
  · rw [hrun]
  · rw [hrun]
    exact ⟨_, rfl, ⟨rfl, rfl, rfl, rfl⟩⟩

/-- The parser takes a body of its language, and completes with its last byte. -/
theorem LenientBody.run {bytes body : Bytes} (h : LenientBody bytes body) :
    ∀ {http}, AtSizeLine http → ∃ front b, bytes = front ++ [b] ∧
      (bodyRun http front).1.state ≠ .complete ∧
      (bodyRun http bytes).1.state = .complete ∧ (bodyRun http bytes).2 = body := by
  induction h with
  | @last line skip hline hskip hsize =>
    intro http hstart
    obtain ⟨next, hrun, hstate, hlf⟩ := bodyRun_sizeLine hstart hline hskip
    have hsplit : line ++ cr :: (skip ++ [lf]) = line ++ cr :: skip ++ [lf] := by simp
    refine ⟨line ++ cr :: skip, lf, hsplit, ?_, ?_⟩
    · rw [hrun]
      simp [hstate]
    · rw [hsplit, bodyRun_append, hrun, bodyRun, hlf, hsize, bodyRun]
      exact ⟨rfl, rfl⟩
  | @chunk line skip data gap rest body hline hskip hsize hdata hgap _ ih =>
    intro http hstart
    obtain ⟨next, hrun, hstate, hlf⟩ := bodyRun_sizeLine hstart hline hskip
    obtain ⟨next', hrun', hstate', after, hcr, hafter⟩ := bodyRun_chunk next hdata hgap
    obtain ⟨front, b, rfl, hopen, hdone, hbody⟩ := ih hafter
    have hall : ∀ more, bodyRun http (line ++ cr :: (skip ++ lf :: (data ++ (gap ++ cr :: more)))) =
        ((bodyRun after more).1, data ++ (bodyRun after more).2) := by
      intro more
      have hsplit : line ++ cr :: (skip ++ lf :: (data ++ (gap ++ cr :: more))) =
          line ++ cr :: skip ++ lf :: (data ++ gap ++ cr :: more) := by simp
      rw [hsplit, bodyRun_append, hrun, bodyRun, hlf, hsize, bodyRun_append, hrun', bodyRun, hcr]
      rfl
    refine ⟨line ++ cr :: (skip ++ lf :: (data ++ (gap ++ cr :: front))), b, by simp, ?_, ?_, ?_⟩
    · rw [hall]
      exact hopen
    · rw [hall]
      exact hdone
    · rw [hall, hbody]

theorem LenientBody.eq_of_prefix {bytes body bytes' body' : Bytes} (h : LenientBody bytes body)
    (h' : LenientBody bytes' body') (hpre : bytes <+: bytes') : bytes = bytes' ∧ body = body' := by
  have hstart : AtSizeLine { httpReset with state := .chunkSize } := ⟨rfl, rfl, rfl, rfl⟩
  obtain ⟨-, -, -, -, hdone, hbody⟩ := h.run hstart
  obtain ⟨front, b, rfl, hopen, -, hbody'⟩ := h'.run hstart
  have heq : bytes = front ++ [b] := by
    by_contra hne
    obtain ⟨more, hmore⟩ : bytes <+: front := by
      rcases List.prefix_concat_iff.mp hpre with heq | hfront
      · exact absurd heq hne
      · exact hfront
    apply hopen
    rw [← hmore, bodyRun_append, bodyRun_complete hdone]
    exact hdone
  refine ⟨heq, ?_⟩
  rw [← hbody, ← hbody', heq]

/-- No two bodies of the language of the parser are prefixes of one stream. -/
theorem LenientBody.unique {stream bytes body bytes' body' : Bytes} (h : LenientBody bytes body)
    (h' : LenientBody bytes' body') (hpre : bytes <+: stream) (hpre' : bytes' <+: stream) :
    bytes = bytes' ∧ body = body' := by
  rcases List.prefix_or_prefix_of_prefix hpre hpre' with hshort | hlong
  · exact h.eq_of_prefix h' hshort
  · obtain ⟨hbytes, hbody⟩ := h'.eq_of_prefix h hlong
    exact ⟨hbytes.symm, hbody.symm⟩

/-- Within the data of a chunk the parser is not complete. -/
theorem bodyRun_chunk_open {data : Bytes} {size : ℕ} (http : HttpParser) (hshort : data.length < size) :
    (bodyRun (startChunk http size) data).1.state ≠ .complete := by
  have hpos : size ≠ 0 := by omega
  have hstate : (startChunk http size).state = .chunkData := by simp [startChunk, hpos]
  by_cases hnil : data = []
  · rw [hnil, bodyRun, hstate]
    simp
  · have hroom : data.length ≤ (startChunk http size).chunkRemain := Nat.le_of_lt hshort
    have hleft : (startChunk http size).chunkRemain - data.length ≠ 0 := Nat.sub_ne_zero_of_lt hshort
    rw [bodyRun_chunkData data hstate hroom hnil, if_neg hleft]
    simp

/-- When the parser completes, it has taken a body of its language. -/
theorem exists_lenientBody (n : ℕ) : ∀ {http data}, data.length ≤ n → AtSizeLine http →
    (bodyRun http data).1.state = .complete → ∃ bytes body, bytes <+: data ∧ LenientBody bytes body := by
  induction n with
  | zero =>
    intro http data hlen hstart hdone
    have hnil : data = [] := List.length_eq_zero_iff.mp (by omega)
    rw [hnil, bodyRun, hstart.state] at hdone
    cases hdone
  | succ n ih =>
    intro http data hlen hstart hdone
    by_cases hcr : cr ∈ data
    swap
    · rw [(bodyRun_line hstart hcr).2.state] at hdone
      cases hdone
    obtain ⟨line, data, rfl, hline⟩ := List.eq_append_cons_of_mem hcr
    by_cases hlf : lf ∈ data
    swap
    · obtain ⟨next, hrun, hstate, -⟩ := bodyRun_sizeLine hstart hline hlf
      rw [hrun, hstate] at hdone
      cases hdone
    obtain ⟨skip, data, rfl, hskip⟩ := List.eq_append_cons_of_mem hlf
    obtain ⟨next, hrun, -, hstep⟩ := bodyRun_sizeLine hstart hline hskip
    by_cases hzero : lineSize line = 0
    · refine ⟨_, _, ⟨data, ?_⟩, .last hline hskip hzero⟩
      simp
    have hsplit : line ++ cr :: (skip ++ lf :: data) = line ++ cr :: skip ++ lf :: data := by simp
    rw [hsplit, bodyRun_append, hrun, bodyRun, hstep] at hdone
    by_cases hshort : data.length < lineSize line
    · exact absurd hdone (bodyRun_chunk_open next hshort)
    obtain ⟨chunk, data, rfl, hsize⟩ : ∃ chunk rest, data = chunk ++ rest ∧ lineSize line = chunk.length :=
      ⟨data.take (lineSize line), data.drop (lineSize line), (List.take_append_drop _ _).symm, by
        rw [List.length_take]
        omega⟩
    have hchunk : chunk ≠ [] := List.length_pos_iff.mp (by omega)
    rw [hsize] at hdone
    by_cases hcr' : cr ∈ data
    swap
    · obtain ⟨next', hrun', hstate', -⟩ := bodyRun_chunk next hchunk hcr'
      change (bodyRun (startChunk next chunk.length) (chunk ++ data)).1.state = .complete at hdone
      rw [hrun', hstate'] at hdone
      cases hdone
    obtain ⟨gap, data, rfl, hgap⟩ := List.eq_append_cons_of_mem hcr'
    obtain ⟨next', hrun', -, after, hstep', hafter⟩ := bodyRun_chunk next hchunk hgap
    have hrest : (bodyRun after data).1.state = .complete := by
      change (bodyRun (startChunk next chunk.length) (chunk ++ (gap ++ cr :: data))).1.state = _ at hdone
      rw [← List.append_assoc, bodyRun_append, hrun', bodyRun, hstep'] at hdone
      exact hdone
    have hless : data.length ≤ n := by
      simp only [List.length_append, List.length_cons] at hlen
      omega
    obtain ⟨bytes, body, ⟨more, rfl⟩, hbody⟩ := ih hless hafter hrest
    refine ⟨_, _, ⟨more, ?_⟩, .chunk hline hskip hsize hchunk hgap hbody⟩
    simp

/-- The parser is complete exactly when it has been given a body of its language, and the bytes
handed on are then the data of that body. -/
theorem bodyRun_complete_iff {data : Bytes} (hstart : AtSizeLine http) :
    (bodyRun http data).1.state = .complete ↔
      ∃ bytes body, bytes <+: data ∧ LenientBody bytes body := by
  constructor
  · exact exists_lenientBody data.length le_rfl hstart
  · rintro ⟨bytes, body, ⟨more, rfl⟩, hbody⟩
    obtain ⟨-, -, -, -, hdone, -⟩ := hbody.run hstart
    rw [bodyRun_append, bodyRun_complete hdone]
    exact hdone

theorem bodyRun_body_eq {data bytes body : Bytes} (hstart : AtSizeLine http)
    (hbody : LenientBody bytes body) (hpre : bytes <+: data) : (bodyRun http data).2 = body := by
  obtain ⟨more, rfl⟩ := hpre
  obtain ⟨-, -, -, -, hdone, hout⟩ := hbody.run hstart
  rw [bodyRun_append, bodyRun_complete hdone, hout, List.append_nil]

end Run

variable {pieces : List Bytes} {block rest : Bytes}

/-- A response in `pieces`, with `rest` behind its headers, completes exactly when `rest` has a
well-formed sequence of chunks, and what is handed on is then the data of its chunks. -/
def DecodesExactly (pieces : List Bytes) (rest : Bytes) : Prop :=
  ∃ http body, delivered <$> feedAll httpReset pieces = .ok (http, body) ∧
    (http.state = .complete ↔ ∃ bytes chunks, bytes <+: rest ∧ ChunkedBody bytes chunks) ∧
    ∀ bytes chunks, http.state = .complete → bytes <+: rest → ChunkedBody bytes chunks →
      body = chunks

/-- Whatever the parser takes at the front of the bytes is well formed. -/
def OnlyWellFormed (rest : Bytes) : Prop :=
  ∀ bytes body, bytes <+: rest → LenientBody bytes body → ChunkedBody bytes body

theorem readHeaders_atSizeLine (hread : readHeaders httpReset block = .ok http)
    (hchunked : http.chunked = true) : AtSizeLine http := by
  rw [readHeaders] at hread
  cases hinfo : httpParseHeaders block block.length httpReset.chunked httpReset.isJson
      httpReset.contentLen with
  | error trap =>
    rw [hinfo] at hread
    cases hread
  | ok info =>
    rw [hinfo] at hread
    cases hread
    have hstate : info.chunked = true := hchunked
    exact ⟨by simp [applyHeaders, hstate], rfl, rfl, rfl⟩

/-- Chunked decoding is exact on a body exactly when the parser takes nothing malformed in it. -/
theorem chunked_exact_iff (hblock : headerBlock [] pieces = some (block, rest))
    (hread : readHeaders httpReset block = .ok http) (hchunked : http.chunked = true) :
    DecodesExactly pieces rest ↔ OnlyWellFormed rest := by
  have hstart := readHeaders_atSizeLine hread hchunked
  have hfeed := feedAll_headers pieces (show httpReset.state = .headers from rfl)
  rw [httpReset_header, hblock] at hfeed
  dsimp only at hfeed
  rw [hread] at hfeed
  constructor
  · rintro ⟨final, out, hout, hiff, -⟩ bytes body hpre hbody
    have hfinal : bodyRun http rest = (final, out) := Except.ok.inj (hfeed.symm.trans hout)
    have hdone : final.state = .complete := by
      have hrun := (bodyRun_complete_iff hstart).mpr ⟨bytes, body, hpre, hbody⟩
      rwa [hfinal] at hrun
    obtain ⟨bytes', chunks, hpre', hchunks⟩ := hiff.mp hdone
    obtain ⟨rfl, rfl⟩ := hbody.unique hchunks.lenient hpre hpre'
    exact hchunks
  · intro honly
    refine ⟨_, _, hfeed, ?_, ?_⟩
    · rw [bodyRun_complete_iff hstart]
      constructor
      · rintro ⟨bytes, body, hpre, hbody⟩
        exact ⟨bytes, body, hpre, honly bytes body hpre hbody⟩
      · rintro ⟨bytes, chunks, hpre, hchunks⟩
        exact ⟨bytes, chunks, hpre, hchunks.lenient⟩
    · exact fun bytes chunks _ hpre hchunks => bodyRun_body_eq hstart hchunks.lenient hpre

/-- Headers that announce a chunked body. -/
def chunkedHeaders : Bytes :=
  ascii "HTTP/1.1 200 OK" ++ [cr, lf] ++ ascii "Transfer-Encoding: chunked" ++ headerTerminator

def afterChunkedHeaders : HttpParser :=
  { httpReset with
    header := chunkedHeaders
    status := 200
    chunked := true
    statusSent := true
    state := .chunkSize }

theorem readHeaders_chunkedHeaders :
    readHeaders httpReset chunkedHeaders = .ok afterChunkedHeaders := by decide

/-- An empty size line, without any digit, completes the response. -/
theorem empty_size_line_completes : ¬ ∀ pieces block rest http,
    headerBlock [] pieces = some (block, rest) → readHeaders httpReset block = .ok http →
      http.chunked = true → DecodesExactly pieces rest := by
  intro hall
  obtain ⟨http, body, hfeed, hiff, -⟩ := hall [chunkedHeaders, [cr, lf]] chunkedHeaders [cr, lf]
    afterChunkedHeaders (by decide) readHeaders_chunkedHeaders rfl
  have hdone : delivered <$> feedAll httpReset [chunkedHeaders, [cr, lf]] =
      .ok ({ afterChunkedHeaders with state := .complete }, []) := by decide
  rw [hdone] at hfeed
  cases hfeed
  obtain ⟨bytes, chunks, hpre, hchunks⟩ := hiff.mp rfl
  obtain ⟨b, rest, rfl, hhex⟩ := hchunks.head_isHex
  obtain ⟨more, hmore⟩ := hpre
  have hb : b = cr := by simpa using congrArg List.head? hmore
  rw [hb] at hhex
  exact absurd hhex (by decide)

/-- A stream that starts with a well-formed body holds nothing else that the parser takes. -/
theorem ChunkedBody.onlyWellFormed {bytes chunks : Bytes} (h : ChunkedBody bytes chunks)
    (hpre : bytes <+: rest) : OnlyWellFormed rest := by
  intro bytes' body hpre' hbody
  obtain ⟨rfl, rfl⟩ := hbody.unique h.lenient hpre' hpre
  exact h

def helloChunks : Bytes := ascii "5" ++ [cr, lf] ++ ascii "hello" ++ [cr, lf] ++ ascii "0" ++ [cr, lf]

theorem chunkedBody_hello : ChunkedBody helloChunks (ascii "hello") := by
  have hlength : (ascii "hello").length = 5 := by decide
  have hsize : SizeLine (ascii "5") (ascii "hello").length := by
    rw [hlength]
    refine ⟨by norm_num, ascii "5", [], by decide, by decide, ?_, by decide, Or.inl rfl, ?_, ?_⟩ <;>
      decide +kernel
  have hzero : SizeLine (ascii "0") 0 := by
    refine ⟨by norm_num, ascii "0", [], by decide, by decide, ?_, by decide, Or.inl rfl, ?_, ?_⟩ <;>
      decide +kernel
  exact .chunk hsize (by decide) (.last hzero)

theorem chunked_exact_hello : DecodesExactly [chunkedHeaders, helloChunks] helloChunks :=
  (chunked_exact_iff (by decide) readHeaders_chunkedHeaders rfl).mpr
    (chunkedBody_hello.onlyWellFormed (List.prefix_refl _))

end MiniAgentOS.Http
