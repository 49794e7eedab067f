import MiniAgentOS.Agent.Requests

/-! The header that signs a request. What stands in it is what is signed, so that a server that reads the header finds
the signature that it computes. -/
namespace MiniAgentOS.Agent

set_option maxRecDepth 4000

section Header

def ampersand : UInt8 := 38
def equals : UInt8 := 61

/-- The secrets that the build puts into the kernel. -/
structure Secrets where
  ready : Bool
  apiKey : Bytes
  apiSecret : Bytes
  accessToken : Bytes
  accessSecret : Bytes

/-- `minios_hmac_sha1` and `minios_base64_encode`, with nothing where they return an error. -/
structure Crypto where
  hmacSha1 : Bytes → Bytes → Option Bytes
  base64 : Bytes → ℕ → Option Bytes

/-- `is_unreserved` is `is_url_unreserved`, and the loop of `percent_encode` is that of `append_urlencoded`. -/
def percentEncode (capacity : ℕ) (input : Bytes) : Bytes := appendUrlencoded capacity [] input

def appendParam (capacity : ℕ) (out key val : Bytes) : Bytes :=
  let out := if out.length > 0 then appendBytes capacity out [ampersand] else out
  let out := appendBytes capacity out key
  let out := appendBytes capacity out [equals]
  appendBytes capacity out (percentEncode 256 val)

def appendKv (capacity : ℕ) (out key val : Bytes) (more : Bool) : Bytes :=
  let out := appendBytes capacity out key
  let out := appendBytes capacity out [equals, quote]
  let out := appendBytes capacity out (percentEncode 256 val)
  let out := appendBytes capacity out [quote]
  if more then appendBytes capacity out [comma, space] else out

/-- The parameters that are signed, in the order of the source. -/
def signedParams (secrets : Secrets) (timestamp nonce : ℕ) : List (Bytes × Bytes) :=
  [(ascii "oauth_consumer_key", secrets.apiKey), (ascii "oauth_nonce", u64ToDec nonce),
    (ascii "oauth_signature_method", ascii "HMAC-SHA1"), (ascii "oauth_timestamp", u64ToDec timestamp),
    (ascii "oauth_token", secrets.accessToken), (ascii "oauth_version", ascii "1.0")]

/-- The parameters of the header before the last one, in the order of the source. -/
def headerParams (secrets : Secrets) (timestamp nonce : ℕ) (signature : Bytes) : List (Bytes × Bytes) :=
  [(ascii "oauth_consumer_key", secrets.apiKey), (ascii "oauth_nonce", u64ToDec nonce),
    (ascii "oauth_signature", signature), (ascii "oauth_signature_method", ascii "HMAC-SHA1"),
    (ascii "oauth_timestamp", u64ToDec timestamp), (ascii "oauth_token", secrets.accessToken)]

def paramString (secrets : Secrets) (timestamp nonce : ℕ) : Bytes :=
  (signedParams secrets timestamp nonce).foldl (fun out p => appendParam 512 out p.1 p.2) []

def baseString (method baseUrl paramStr : Bytes) : Bytes :=
  let out := appendBytes 1024 [] method
  let out := appendBytes 1024 out [ampersand]
  let out := appendBytes 1024 out (percentEncode 512 baseUrl)
  let out := appendBytes 1024 out [ampersand]
  appendBytes 1024 out (percentEncode 512 paramStr)

def keyString (secrets : Secrets) : Bytes :=
  let out := appendBytes 256 [] (percentEncode 512 secrets.apiSecret)
  let out := appendBytes 256 out [ampersand]
  appendBytes 256 out (percentEncode 512 secrets.accessSecret)

/-- `build_oauth_header` into a buffer with room for `capacity`. -/
def buildOauthHeader (crypto : Crypto) (secrets : Secrets) (method baseUrl : Bytes) (timestamp nonce capacity : ℕ) :
    Bytes :=
  if secrets.ready then
    match crypto.hmacSha1 (keyString secrets) (baseString method baseUrl (paramString secrets timestamp nonce)) with
    | none => []
    | some sig =>
      match crypto.base64 sig 64 with
      | none => []
      | some signature =>
        let out := appendBytes capacity [] (ascii "Authorization: OAuth ")
        let out := (headerParams secrets timestamp nonce signature).foldl
          (fun out p => appendKv capacity out p.1 p.2 true) out
        let out := appendKv capacity out (ascii "oauth_version") (ascii "1.0") false
        if out.length + 2 ≤ capacity then out ++ [cr, lf] else out
  else []

end Header

section Server

/-- A text in percent encoding. -/
def encoded (text : Bytes) : Bytes := text.flatMap urlencodedByte

/-- The normalised parameters: encoded, in the order of their names, and joined. -/
def normalizedParams (params : List (Bytes × Bytes)) : Bytes :=
  let sorted := (params.map fun p => (encoded p.1, encoded p.2)).mergeSort fun p q =>
    p.1 < q.1 ∨ p.1 = q.1 ∧ p.2 ≤ q.2
  [ampersand].intercalate (sorted.map fun p => p.1 ++ equals :: p.2)

/-- What is signed for a request with parameters. -/
def signatureBase (method baseUrl : Bytes) (params : List (Bytes × Bytes)) : Bytes :=
  method ++ ampersand :: (encoded baseUrl ++ ampersand :: encoded (normalizedParams params))

/-- A parameter of the header is read up to its second quotation mark. -/
def readParam (piece : Bytes) : Bytes × Bytes :=
  ((piece.dropWhile (· = space)).takeWhile (· ≠ equals),
    percentDecode (((piece.dropWhile (· ≠ quote)).drop 1).takeWhile (· ≠ quote)))

/-- The parameters in a header, decoded. -/
def readHeader (header : Bytes) : List (Bytes × Bytes) :=
  ((header.drop (ascii "Authorization: OAuth ").length).splitOn comma).map readParam

/-- A server that knows the secrets takes the parameters of the header other than the signature, and computes the
signature for them. -/
def Verifies (crypto : Crypto) (secrets : Secrets) (method baseUrl header : Bytes) : Prop :=
  let params := (readHeader header).filter fun p => p.1 ≠ ascii "oauth_signature"
  ∃ sig signature, crypto.hmacSha1 (encoded secrets.apiSecret ++ ampersand :: encoded secrets.accessSecret)
      (signatureBase method baseUrl params) = some sig ∧ crypto.base64 sig 64 = some signature ∧
    (readHeader header).lookup (ascii "oauth_signature") = some signature

end Server

section Signed

variable {secrets : Secrets} {timestamp nonce capacity : ℕ} {out key val text : Bytes} {ps : List (Bytes × Bytes)}
  {method baseUrl : Bytes}

def paramText (p : Bytes × Bytes) : Bytes := p.1 ++ equals :: encoded p.2

theorem encoded_length_le (text : Bytes) : text.length ≤ (encoded text).length ∧
    (encoded text).length ≤ 3 * text.length := by
  induction text with
  | nil => exact ⟨le_rfl, le_rfl⟩
  | cons b text ih =>
    have hpos := urlencodedByte_pos b
    have hthree : (urlencodedByte b).length ≤ 3 := by
      unfold urlencodedByte
      split_ifs <;> simp
    rw [encoded, List.flatMap_cons, List.length_append, List.length_cons, ← encoded]
    omega

theorem percentEncode_eq (h : (encoded val).length ≤ capacity) : percentEncode capacity val = encoded val :=
  (takes_urlencoded capacity val).eq_iff.mpr h

theorem appendParam_more (hout : out ≠ []) (hval : (encoded val).length ≤ 256)
    (h : out.length + (ampersand :: paramText (key, val)).length ≤ capacity) :
    appendParam capacity out key val = out ++ ampersand :: paramText (key, val) := by
  have htakes := ((takes_bytes capacity [ampersand]).comp (takes_bytes capacity key)).comp
    ((takes_bytes capacity [equals]).comp (takes_bytes capacity (percentEncode 256 val)))
  have hwhole := htakes.whole out (by simpa [paramText, percentEncode_eq hval] using h)
  rw [percentEncode_eq hval] at hwhole
  rw [appendParam, if_pos (List.length_pos_iff.mpr hout), percentEncode_eq hval]
  exact hwhole.trans (by simp [paramText])

theorem appendParam_first (hval : (encoded val).length ≤ 256) (h : (paramText (key, val)).length ≤ capacity) :
    appendParam capacity [] key val = paramText (key, val) := by
  have htakes := (takes_bytes capacity key).comp
    ((takes_bytes capacity [equals]).comp (takes_bytes capacity (percentEncode 256 val)))
  have hwhole := htakes.whole [] (by simpa [paramText, percentEncode_eq hval] using h)
  rw [percentEncode_eq hval] at hwhole
  rw [appendParam, if_neg (by simp), percentEncode_eq hval]
  exact hwhole.trans (by simp [paramText])

theorem foldl_appendParam (hout : out ≠ []) (hval : ∀ p ∈ ps, (encoded p.2).length ≤ 256)
    (h : out.length + (ps.flatMap fun p => ampersand :: paramText p).length ≤ capacity) :
    ps.foldl (fun out p => appendParam capacity out p.1 p.2) out =
      out ++ ps.flatMap fun p => ampersand :: paramText p := by
  induction ps generalizing out with
  | nil => simp
  | cons p ps ih =>
    obtain ⟨hp, hps⟩ := List.forall_mem_cons.mp hval
    obtain ⟨key, val⟩ := p
    rw [List.flatMap_cons, List.length_append] at h
    have hroom : out.length + (ampersand :: paramText (key, val)).length ≤ capacity := by omega
    have hne : out ++ ampersand :: paramText (key, val) ≠ [] := by simp
    have hlen : (out ++ ampersand :: paramText (key, val)).length +
        (ps.flatMap fun p => ampersand :: paramText p).length ≤ capacity := by
      rw [List.length_append]
      omega
    rw [List.foldl_cons, appendParam_more hout hp hroom, ih hne hps hlen, List.flatMap_cons, List.append_assoc]

/-- The parameters joined, the first one without a sign before it. -/
theorem joined_params (p : Bytes × Bytes) (ps : List (Bytes × Bytes)) :
    [ampersand].intercalate ((p :: ps).map paramText) = paramText p ++ ps.flatMap fun p => ampersand :: paramText p := by
  induction ps generalizing p with
  | nil => simp
  | cons q ps ih =>
    rw [List.map_cons, List.map_cons, List.intercalate_cons_cons, ← List.map_cons, ih, List.flatMap_cons]
    simp

/-- The names of the parameters stand in their order, and need no encoding. -/
theorem normalizedParams_signed (secrets : Secrets) (timestamp nonce : ℕ) :
    normalizedParams (signedParams secrets timestamp nonce) =
      [ampersand].intercalate ((signedParams secrets timestamp nonce).map paramText) := by
  have hplain : ∀ name ∈ [ascii "oauth_consumer_key", ascii "oauth_nonce", ascii "oauth_signature_method",
      ascii "oauth_timestamp", ascii "oauth_token", ascii "oauth_version"], encoded name = name := by decide
  have hkeys : ∀ p ∈ signedParams secrets timestamp nonce, encoded p.1 = p.1 := by
    intro p hp
    apply hplain
    simp only [signedParams, List.mem_cons, List.not_mem_nil, or_false] at hp
    rcases hp with rfl | rfl | rfl | rfl | rfl | rfl <;> simp
  have hmap : (signedParams secrets timestamp nonce).map (fun p => (encoded p.1, encoded p.2)) =
      (signedParams secrets timestamp nonce).map fun p => (p.1, encoded p.2) :=
    List.map_congr_left fun p hp => by rw [hkeys p hp]
  have hsorted : ((signedParams secrets timestamp nonce).map fun p => (p.1, encoded p.2)).Pairwise
      fun p q => decide (p.1 < q.1 ∨ p.1 = q.1 ∧ p.2 ≤ q.2) = true := by
    have hnames : ((signedParams secrets timestamp nonce).map Prod.fst).Pairwise (· < ·) := by
      rw [show (signedParams secrets timestamp nonce).map Prod.fst = [ascii "oauth_consumer_key", ascii "oauth_nonce",
        ascii "oauth_signature_method", ascii "oauth_timestamp", ascii "oauth_token", ascii "oauth_version"] from rfl]
      decide
    rw [List.pairwise_map] at hnames ⊢
    exact hnames.imp fun h => decide_eq_true (.inl h)
  rw [normalizedParams, hmap, List.mergeSort_of_pairwise hsorted, List.map_map]
  rfl


/-- Everything fits into its buffer. The room for the header leaves 192 bytes for the signature. -/
structure Fits (secrets : Secrets) (method baseUrl : Bytes) (timestamp nonce capacity : ℕ) : Prop where
  time : timestamp < 2 ^ 64
  once : nonce < 2 ^ 64
  apiKey : (encoded secrets.apiKey).length ≤ 256
  accessToken : (encoded secrets.accessToken).length ≤ 256
  url : (encoded baseUrl).length ≤ 512
  params : (encoded (normalizedParams (signedParams secrets timestamp nonce))).length ≤ 512
  base : (signatureBase method baseUrl (signedParams secrets timestamp nonce)).length ≤ 1024
  key : (encoded secrets.apiSecret ++ ampersand :: encoded secrets.accessSecret).length ≤ 256
  header : 405 + (encoded secrets.apiKey).length + (encoded secrets.accessToken).length ≤ capacity

theorem digits_encoded (n : ℕ) : encoded (u64ToDec n) = u64ToDec n := by
  have hdigit : ∀ b : UInt8, isDigit b = true → isUrlUnreserved b = true := forall_byte (by decide)
  have hall : ∀ b ∈ u64ToDec n, urlencodedByte b = [b] := by
    intro b hb
    apply if_pos
    unfold u64ToDec at hb
    split_ifs at hb
    · exact hdigit b (List.mem_singleton.mp hb ▸ rfl)
    · exact hdigit b (decDigits_digit 20 n b (List.mem_reverse.mp hb))
  rw [encoded, List.flatMap_congr hall, List.flatMap_singleton']

theorem digits_length {n : ℕ} (h : n < 2 ^ 64) : (encoded (u64ToDec n)).length ≤ 20 := by
  rw [digits_encoded]
  exact u64ToDec_length_le (by decide) (h.trans (by decide))

theorem signedParams_values (h : Fits secrets method baseUrl timestamp nonce capacity) :
    ∀ p ∈ signedParams secrets timestamp nonce, (encoded p.2).length ≤ 256 := by
  have htime := digits_length h.time
  have hnonce := digits_length h.once
  have hmethod : (encoded (ascii "HMAC-SHA1")).length ≤ 256 := by decide
  have hversion : (encoded (ascii "1.0")).length ≤ 256 := by decide
  intro p hp
  simp only [signedParams, List.mem_cons, List.not_mem_nil, or_false] at hp
  rcases hp with rfl | rfl | rfl | rfl | rfl | rfl
  · exact h.apiKey
  · dsimp only
    omega
  · exact hmethod
  · dsimp only
    omega
  · exact h.accessToken
  · exact hversion

theorem paramString_eq (h : Fits secrets method baseUrl timestamp nonce capacity) :
    paramString secrets timestamp nonce = normalizedParams (signedParams secrets timestamp nonce) := by
  have hvalues := signedParams_values h
  have hlen := (encoded_length_le (normalizedParams (signedParams secrets timestamp nonce))).1.trans h.params
  rw [normalizedParams_signed] at hlen ⊢
  obtain ⟨first, rest, hlist⟩ : ∃ first rest, signedParams secrets timestamp nonce = first :: rest := ⟨_, _, rfl⟩
  rw [paramString]
  rw [hlist] at hvalues hlen ⊢
  rw [joined_params, List.length_append] at hlen
  obtain ⟨hfirst, hrest⟩ := List.forall_mem_cons.mp hvalues
  obtain ⟨key, val⟩ := first
  have hne : paramText (key, val) ≠ [] := by simp [paramText]
  have hroom : (paramText (key, val)).length ≤ 512 := by omega
  rw [joined_params, List.foldl_cons, appendParam_first hfirst hroom, foldl_appendParam hne hrest hlen]

theorem baseString_eq (h : Fits secrets method baseUrl timestamp nonce capacity) :
    baseString method baseUrl (paramString secrets timestamp nonce) =
      signatureBase method baseUrl (signedParams secrets timestamp nonce) := by
  have hurl := percentEncode_eq h.url
  have hparams := percentEncode_eq h.params
  have htakes := ((takes_bytes 1024 method).comp (takes_bytes 1024 [ampersand])).comp
    (((takes_bytes 1024 (encoded baseUrl)).comp (takes_bytes 1024 [ampersand])).comp
      (takes_bytes 1024 (encoded (normalizedParams (signedParams secrets timestamp nonce)))))
  have htext : method ++ [ampersand] ++ (encoded baseUrl ++ [ampersand] ++
      encoded (normalizedParams (signedParams secrets timestamp nonce))) =
        signatureBase method baseUrl (signedParams secrets timestamp nonce) := by simp [signatureBase]
  rw [htext] at htakes
  rw [paramString_eq h, baseString, hurl, hparams]
  exact htakes.eq_iff.mpr h.base

theorem keyString_eq (h : Fits secrets method baseUrl timestamp nonce capacity) :
    keyString secrets = encoded secrets.apiSecret ++ ampersand :: encoded secrets.accessSecret := by
  have hkey := h.key
  rw [List.length_append, List.length_cons] at hkey
  have htakes := ((takes_bytes 256 (encoded secrets.apiSecret)).comp (takes_bytes 256 [ampersand])).comp
    (takes_bytes 256 (encoded secrets.accessSecret))
  rw [List.append_assoc, List.singleton_append] at htakes
  rw [keyString, percentEncode_eq (by omega), percentEncode_eq (by omega)]
  exact htakes.eq_iff.mpr h.key

end Signed

section Read

variable {key val signature blanks rest : Bytes} {ps : List (Bytes × Bytes)} {last p : Bytes × Bytes} {capacity : ℕ}

def kvText (p : Bytes × Bytes) : Bytes := p.1 ++ equals :: quote :: (encoded p.2 ++ [quote])

/-- A name that needs no encoding. -/
def ParamName (name : Bytes) : Bool := !name.isEmpty && name.all isUrlUnreserved

theorem unreserved_ne : ∀ b : UInt8, isUrlUnreserved b = true → (b ≠ space ∧ b ≠ equals) ∧ b ≠ quote ∧ b ≠ comma :=
  forall_byte (by decide)

theorem paramName_ne {name : Bytes} (h : ParamName name = true) {b : UInt8} (hb : b ∈ name) :
    (b ≠ space ∧ b ≠ equals) ∧ b ≠ quote ∧ b ≠ comma :=
  unreserved_ne b (List.all_eq_true.mp (Bool.and_eq_true_iff.mp h).2 b hb)

theorem encoded_plain (text : Bytes) : ∀ b ∈ encoded text, b ≠ quote ∧ b ≠ comma := by
  have hhex : ∀ b : UInt8, isHex b = true → b ≠ quote ∧ b ≠ comma := forall_byte (by decide)
  have hpercent : percent ≠ quote ∧ percent ≠ comma := by decide
  intro b hb
  obtain ⟨c, -, hc⟩ := List.mem_flatMap.mp hb
  unfold urlencodedByte at hc
  split_ifs at hc with hunreserved
  · rw [List.mem_singleton.mp hc]
    exact (unreserved_ne c hunreserved).2
  · simp only [List.mem_cons, List.not_mem_nil, or_false] at hc
    rcases hc with rfl | rfl | rfl
    · exact hpercent
    · exact hhex _ (upperHex_value c).1
    · exact hhex _ (upperHex_value c).2.1

theorem readParam_kv (hname : ParamName p.1) (hblanks : ∀ b ∈ blanks, b = space) (rest : Bytes) :
    readParam (blanks ++ (kvText p ++ rest)) = p := by
  obtain ⟨key, val⟩ := p
  obtain ⟨first, more, rfl⟩ : ∃ first more, key = first :: more := by
    cases key with
    | nil => cases hname
    | cons first more => exact ⟨first, more, rfl⟩
  have hkey : ∀ b ∈ first :: more, (b ≠ space ∧ b ≠ equals) ∧ b ≠ quote ∧ b ≠ comma := fun b hb => paramName_ne hname hb
  have hfirst : ¬ decide (first = space) = true := by
    simpa using (hkey first List.mem_cons_self).1.1
  have hblank : ∀ b ∈ blanks, decide (b = space) = true := fun b hb => decide_eq_true (hblanks b hb)
  have hname : ∀ b ∈ first :: more, decide (b ≠ equals) = true := fun b hb => decide_eq_true (hkey b hb).1.2
  have hval : ∀ b ∈ encoded val, decide (b ≠ quote) = true := fun b hb => decide_eq_true (encoded_plain val b hb).1
  have hfront : ∀ b ∈ blanks ++ (first :: more ++ [equals]), decide (b ≠ quote) = true := by
    have hspace : space ≠ quote := by decide
    have hequals : equals ≠ quote := by decide
    intro b hb
    rw [List.mem_append, List.mem_append, List.mem_singleton] at hb
    rcases hb with hmem | hmem | rfl
    · rw [hblanks b hmem]
      exact decide_eq_true hspace
    · exact decide_eq_true (hkey b hmem).2.1
    · exact decide_eq_true hequals
  have hbefore : blanks ++ (kvText (first :: more, val) ++ rest) =
      blanks ++ (first :: more ++ equals :: (quote :: (encoded val ++ quote :: rest))) := by simp [kvText]
  have hbehind : blanks ++ (kvText (first :: more, val) ++ rest) =
      (blanks ++ (first :: more ++ [equals])) ++ quote :: (encoded val ++ quote :: rest) := by simp [kvText]
  have hread : ((blanks ++ (kvText (first :: more, val) ++ rest)).dropWhile (· = space)).takeWhile (· ≠ equals) =
      first :: more := by
    rw [hbefore, List.dropWhile_append_of_pos hblank, List.cons_append,
      List.dropWhile_cons_of_neg (p := fun b => decide (b = space)) hfirst,
      ← List.cons_append, List.takeWhile_append_of_pos hname, List.takeWhile_cons_of_neg (by simp), List.append_nil]
  have hvalue : (((blanks ++ (kvText (first :: more, val) ++ rest)).dropWhile (· ≠ quote)).drop 1).takeWhile
      (· ≠ quote) = encoded val := by
    rw [hbehind, List.dropWhile_append_of_pos hfront, List.dropWhile_cons_of_neg (by simp), List.drop_one, List.tail_cons,
      List.takeWhile_append_of_pos hval, List.takeWhile_cons_of_neg (by simp), List.append_nil]
  rw [readParam, hread, hvalue, encoded, percentDecode_flatMap]

theorem kv_no_comma (hname : ParamName p.1) : comma ∉ kvText p := by
  have hkey : comma ∉ p.1 := fun h => (paramName_ne hname h).2.2 rfl
  have hval : comma ∉ encoded p.2 := fun h => (encoded_plain p.2 _ h).2 rfl
  have hequals : comma ≠ equals := by decide
  have hquote : comma ≠ quote := by decide
  simp [kvText, hkey, hval, hequals, hquote]

/-- The parameters are read as they are written. -/
theorem readParams_eq (hnames : ∀ p ∈ ps, ParamName p.1) (hlast : ParamName last.1) (hblanks : ∀ b ∈ blanks, b = space) :
    ((blanks ++ ((ps.flatMap fun p => kvText p ++ [comma, space]) ++ (kvText last ++ [cr, lf]))).splitOn comma).map
      readParam = ps ++ [last] := by
  have hspace : comma ≠ space := by decide
  have hplain : comma ∉ blanks := fun h => hspace (hblanks comma h)
  induction ps generalizing blanks with
  | nil =>
    have hline : comma ∉ blanks ++ (kvText last ++ [cr, lf]) := by
      have hend : comma ∉ [cr, lf] := by decide
      simp only [List.mem_append, not_or]
      exact ⟨hplain, kv_no_comma hlast, hend⟩
    rw [List.flatMap_nil, List.nil_append, List.splitOn_eq_singleton hline, List.map_singleton,
      readParam_kv hlast hblanks, List.nil_append]
  | cons p ps ih =>
    obtain ⟨hp, hps⟩ := List.forall_mem_cons.mp hnames
    have hpiece : comma ∉ blanks ++ kvText p := by simp [hplain, kv_no_comma hp]
    have htext : blanks ++ (((p :: ps).flatMap fun p => kvText p ++ [comma, space]) ++ (kvText last ++ [cr, lf])) =
        (blanks ++ kvText p) ++ comma :: ([space] ++ ((ps.flatMap fun p => kvText p ++ [comma, space]) ++
          (kvText last ++ [cr, lf]))) := by simp
    have hread := readParam_kv hp hblanks []
    rw [List.append_nil] at hread
    rw [htext, List.splitOn_append_cons_self_of_not_mem hpiece, List.map_cons, hread, ih hps (by simp) (by decide),
      List.cons_append]

theorem takes_kv {more : Bool} (hval : (encoded val).length ≤ 256) :
    Bounded.Takes capacity (fun out => appendKv capacity out key val more)
      (kvText (key, val) ++ if more then [comma, space] else []) := by
  have htakes := ((takes_bytes capacity key).comp (takes_bytes capacity [equals, quote])).comp
    ((takes_bytes capacity (encoded val)).comp (takes_bytes capacity [quote]))
  have htext : key ++ [equals, quote] ++ (encoded val ++ [quote]) = kvText (key, val) := by simp [kvText]
  rw [htext, ← percentEncode_eq hval] at htakes
  cases more with
  | false =>
    rw [if_neg Bool.false_ne_true, List.append_nil]
    exact htakes
  | true =>
    rw [if_pos rfl]
    exact htakes.comp (takes_bytes capacity [comma, space])

end Read

section Verified

variable {crypto : Crypto} {secrets : Secrets} {method baseUrl signature sig : Bytes} {timestamp nonce capacity : ℕ}

/-- The whole header. -/
def headerText (secrets : Secrets) (timestamp nonce : ℕ) (signature : Bytes) : Bytes :=
  ascii "Authorization: OAuth " ++
    (((headerParams secrets timestamp nonce signature).flatMap fun p => kvText p ++ [comma, space]) ++
      (kvText (ascii "oauth_version", ascii "1.0") ++ [cr, lf]))

theorem headerText_length (h : Fits secrets method baseUrl timestamp nonce capacity) (hsig : signature.length ≤ 64) :
    (headerText secrets timestamp nonce signature).length ≤ capacity := by
  have htime := digits_length h.time
  have honce := digits_length h.once
  have hencoded := (encoded_length_le signature).2
  have hroom := h.header
  have hmethod : (encoded (ascii "HMAC-SHA1")).length = 9 := by decide
  have hversion : (encoded (ascii "1.0")).length = 3 := by decide
  have hnames : [ascii "Authorization: OAuth ", ascii "oauth_consumer_key", ascii "oauth_nonce", ascii "oauth_signature",
      ascii "oauth_signature_method", ascii "oauth_timestamp", ascii "oauth_token", ascii "oauth_version"].map
        List.length = [21, 18, 11, 15, 22, 15, 11, 13] := by decide
  simp only [List.map_cons, List.map_nil, List.cons.injEq, and_true] at hnames
  obtain ⟨h0, h1, h2, h3, h4, h5, h6, h7⟩ := hnames
  simp only [headerText, headerParams, kvText, List.flatMap_cons, List.flatMap_nil, List.length_append, List.length_cons,
    List.length_nil]
  omega

/-- The header as it is built where everything fits. -/
theorem buildOauthHeader_eq (h : Fits secrets method baseUrl timestamp nonce capacity) (hready : secrets.ready = true)
    (hhmac : crypto.hmacSha1 (encoded secrets.apiSecret ++ ampersand :: encoded secrets.accessSecret)
      (signatureBase method baseUrl (signedParams secrets timestamp nonce)) = some sig)
    (hbase64 : crypto.base64 sig 64 = some signature) (hsig : signature.length ≤ 64) :
    buildOauthHeader crypto secrets method baseUrl timestamp nonce capacity =
      headerText secrets timestamp nonce signature := by
  have hlen := headerText_length h hsig
  have hencoded := (encoded_length_le signature).2
  have hvalues : ∀ p ∈ headerParams secrets timestamp nonce signature, (encoded p.2).length ≤ 256 := by
    have hsigned := signedParams_values h
    simp only [signedParams, headerParams, List.forall_mem_cons] at hsigned ⊢
    obtain ⟨hkey, honce, hmethod, htime, htoken, -⟩ := hsigned
    exact ⟨hkey, honce, by omega, hmethod, htime, htoken, by simp⟩
  have hitems : ∀ p ∈ headerParams secrets timestamp nonce signature, Bounded.Takes capacity
      (fun out => appendKv capacity out p.1 p.2 true) (kvText p ++ [comma, space]) := fun p hp =>
    takes_kv (hvalues p hp)
  have hlast : (encoded (ascii "1.0")).length ≤ 256 := by decide
  have htakes := ((takes_bytes capacity (ascii "Authorization: OAuth ")).comp (Bounded.takes_foldl hitems)).comp
    (takes_kv hlast : Bounded.Takes capacity
      (fun out => appendKv capacity out (ascii "oauth_version") (ascii "1.0") false) _)
  rw [if_neg Bool.false_ne_true, List.append_nil] at htakes
  generalize htext : ascii "Authorization: OAuth " ++
    (headerParams secrets timestamp nonce signature).flatMap (fun p => kvText p ++ [comma, space]) ++
      kvText (ascii "oauth_version", ascii "1.0") = text at htakes
  have hheader : headerText secrets timestamp nonce signature = text ++ [cr, lf] := by
    rw [← htext, headerText]
    simp only [List.append_assoc]
  rw [hheader, List.length_append] at hlen
  have htwo : [cr, lf].length = 2 := rfl
  have hwhole : appendKv capacity ((headerParams secrets timestamp nonce signature).foldl
      (fun out p => appendKv capacity out p.1 p.2 true) (appendBytes capacity [] (ascii "Authorization: OAuth ")))
        (ascii "oauth_version") (ascii "1.0") false = text := htakes.eq_iff.mpr (by omega)
  rw [buildOauthHeader, if_pos hready, keyString_eq h, baseString_eq h, hhmac]
  dsimp only
  rw [hbase64]
  dsimp only
  rw [hwhole, if_pos (by omega), hheader]

theorem readHeader_eq (secrets : Secrets) (timestamp nonce : ℕ) (signature : Bytes) :
    readHeader (headerText secrets timestamp nonce signature) =
      headerParams secrets timestamp nonce signature ++ [(ascii "oauth_version", ascii "1.0")] := by
  have hnames : ∀ name ∈ [ascii "oauth_consumer_key", ascii "oauth_nonce", ascii "oauth_signature",
      ascii "oauth_signature_method", ascii "oauth_timestamp", ascii "oauth_token"], ParamName name := by decide
  have hparams : ∀ p ∈ headerParams secrets timestamp nonce signature, ParamName p.1 := fun p hp =>
    hnames p.1 (List.mem_map_of_mem (f := Prod.fst) hp)
  have hversion : ParamName (ascii "oauth_version", ascii "1.0").1 := by decide
  have hblanks : ∀ b ∈ ([] : Bytes), b = space := by simp
  rw [readHeader, headerText, List.drop_left]
  exact readParams_eq hparams hversion hblanks

theorem otherParams_eq (secrets : Secrets) (timestamp nonce : ℕ) (signature : Bytes) :
    (readHeader (headerText secrets timestamp nonce signature)).filter (fun p => p.1 ≠ ascii "oauth_signature") =
      signedParams secrets timestamp nonce := by
  rw [readHeader_eq]
  rfl

/-- Where everything fits, a header that is built gives its parameters, and a server that computes the signature of
these parameters with the same secrets finds the one that the header has. -/
theorem oauth_header_verifies (h : Fits secrets method baseUrl timestamp nonce capacity)
    (hbase64 : ∀ src room text, crypto.base64 src room = some text → text.length ≤ room)
    (hbuilt : buildOauthHeader crypto secrets method baseUrl timestamp nonce capacity ≠ []) :
    Verifies crypto secrets method baseUrl (buildOauthHeader crypto secrets method baseUrl timestamp nonce capacity) ∧
      (readHeader (buildOauthHeader crypto secrets method baseUrl timestamp nonce capacity)).filter
        (fun p => p.1 ≠ ascii "oauth_signature") = signedParams secrets timestamp nonce ∧
      [cr, lf] <:+ buildOauthHeader crypto secrets method baseUrl timestamp nonce capacity := by
  have hready : secrets.ready = true := by
    by_contra hnot
    exact hbuilt (by rw [buildOauthHeader, if_neg hnot])
  cases hhmac : crypto.hmacSha1 (encoded secrets.apiSecret ++ ampersand :: encoded secrets.accessSecret)
      (signatureBase method baseUrl (signedParams secrets timestamp nonce)) with
  | none => exact absurd (by rw [buildOauthHeader, if_pos hready, keyString_eq h, baseString_eq h, hhmac]) hbuilt
  | some sig =>
    cases hsig : crypto.base64 sig 64 with
    | none =>
      have hnothing : buildOauthHeader crypto secrets method baseUrl timestamp nonce capacity = [] := by
        rw [buildOauthHeader, if_pos hready, keyString_eq h, baseString_eq h, hhmac]
        dsimp only
        rw [hsig]
      exact absurd hnothing hbuilt
    | some signature =>
      rw [buildOauthHeader_eq h hready hhmac hsig (hbase64 _ _ _ hsig)]
      have hothers := otherParams_eq secrets timestamp nonce signature
      have hend : [cr, lf] <:+ headerText secrets timestamp nonce signature :=
        ⟨_, by rw [headerText, ← List.append_assoc, ← List.append_assoc]⟩
      refine ⟨⟨sig, signature, ?_, hsig, ?_⟩, hothers, hend⟩
      · rwa [hothers]
      · rw [readHeader_eq]
        rfl

def tweetSecrets : Secrets := ⟨true, ascii "ck+", ascii "cs", ascii "at", ascii "as"⟩

def tweetBase : Bytes :=
  ascii "POST&https%3A%2F%2Fapi.twitter.com%2F2%2Ftweets&oauth_consumer_key%3Dc" ++
    ascii "k%252B%26oauth_nonce%3D7%26oauth_signature_method%3DHMAC-SHA1%26oauth_" ++
    ascii "timestamp%3D1700000000%26oauth_token%3Dat%26oauth_version%3D1.0"

def tweetDigest : Bytes := [249, 71, 191, 16, 188, 211, 186, 24, 191, 152, 138, 149, 113, 234, 241, 141, 169, 81, 143, 237]

/-- What HMAC-SHA1 and Base64 give for the base string of this request. -/
def tweetCrypto : Crypto where
  hmacSha1 key text := if key = ascii "cs&as" ∧ text = tweetBase then some tweetDigest else none
  base64 src room := if src = tweetDigest ∧ 29 ≤ room then some (ascii "+Ue/ELzTuhi/mIqVcerxjalRj+0=") else none

theorem tweetCrypto_room : ∀ src room text, tweetCrypto.base64 src room = some text → text.length ≤ room := by
  intro src room text h
  simp only [tweetCrypto, Option.ite_none_right_eq_some, Option.some.injEq] at h
  obtain ⟨⟨-, hroom⟩, rfl⟩ := h
  have hlen : (ascii "+Ue/ELzTuhi/mIqVcerxjalRj+0=").length = 28 := by decide
  omega

def tweetUrl : Bytes := ascii "https://api.twitter.com/2/tweets"

def tweetHeader : Bytes := buildOauthHeader tweetCrypto tweetSecrets (ascii "POST") tweetUrl 1700000000 7 512

theorem tweet_fits : Fits tweetSecrets (ascii "POST") tweetUrl 1700000000 7 512 where
  time := by decide
  once := by decide
  apiKey := by decide
  accessToken := by decide
  url := by decide +kernel
  params := by
    rw [normalizedParams_signed]
    decide +kernel
  base := by
    rw [signatureBase, normalizedParams_signed]
    decide +kernel
  key := by decide
  header := by decide

theorem oauth_header_verifies_tweet : Verifies tweetCrypto tweetSecrets (ascii "POST") tweetUrl tweetHeader ∧
    (readHeader tweetHeader).filter (fun p => p.1 ≠ ascii "oauth_signature") = signedParams tweetSecrets 1700000000 7 ∧
      [cr, lf] <:+ tweetHeader :=
  oauth_header_verifies tweet_fits tweetCrypto_room (by decide +kernel)

end Verified


end MiniAgentOS.Agent
