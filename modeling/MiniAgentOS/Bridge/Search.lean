import MiniAgentOS.Bridge.Process

/-! The results of a search, as the bridge passes them on: filtered by the domain that a record is taken to have, which
need not be the host of its URL. -/
namespace MiniAgentOS.Bridge
open Raising

section Strings

instance : LawfulBEq PyStr := inferInstance

/-- What Python takes from its Unicode database and from `ipaddress`. -/
structure PyLib where
  lower : PyStr → PyStr
  printable : ℕ → Bool
  nfkc : PyStr → PyStr
  bracketError : PyStr → Option String

def isSpace (c : ℕ) : Bool :=
  (9 ≤ c ∧ c ≤ 13) ∨ (28 ≤ c ∧ c ≤ 32) ∨ (0x2000 ≤ c ∧ c ≤ 0x200a) ∨
    c ∈ [0x85, 0xa0, 0x1680, 0x2028, 0x2029, 0x202f, 0x205f, 0x3000]

/-- `s.strip()`. -/
def strip (s : PyStr) : PyStr := (s.dropWhile isSpace).rdropWhile isSpace

def firstNonEmpty : List PyStr → PyStr
  | [] => []
  | value :: values => if strip value ≠ [] then strip value else firstNonEmpty values

variable (lib : PyLib)

def hexDigits (width c : ℕ) : PyStr := (List.range width).reverse.map fun i => hexDigit (c / 16 ^ i % 16)

/-- A character in `repr` of a string that `quote` encloses. -/
def reprChar (quote c : ℕ) : PyStr :=
  if c = quote ∨ c = 92 then [92, c]
  else if c = 9 then str "\\t"
  else if c = 10 then str "\\n"
  else if c = 13 then str "\\r"
  else if c < 32 ∨ c = 127 then str "\\x" ++ hexDigits 2 c
  else if c < 127 ∨ lib.printable c then [c]
  else if c ≤ 0xff then str "\\x" ++ hexDigits 2 c
  else if c ≤ 0xffff then str "\\u" ++ hexDigits 4 c
  else str "\\U" ++ hexDigits 8 c

def reprStr (s : PyStr) : PyStr :=
  let quote := if 39 ∈ s ∧ 34 ∉ s then 34 else 39
  [quote] ++ s.flatMap (reprChar lib quote) ++ [quote]

mutual

/-- `repr` of a JSON value. -/
def repr : Json → PyStr
  | .null => str "None"
  | .bool value => if value then str "True" else str "False"
  | .int value => str (toString value)
  | .float text _ => text
  | .str value => reprStr lib value
  | .list items => str "[" ++ reprItems items ++ str "]"
  | .dict entries => str "\x7b" ++ reprEntries entries ++ str "\x7d"

def reprItems : List Json → PyStr
  | [] => []
  | item :: items => repr item ++ (if items.isEmpty then [] else str ", ") ++ reprItems items

def reprEntries : List (PyStr × Json) → PyStr
  | [] => []
  | (key, value) :: entries => reprStr lib key ++ str ": " ++ repr value ++
      (if entries.isEmpty then [] else str ", ") ++ reprEntries entries

end

/-- `str` of a JSON value. -/
def strOf : Json → PyStr
  | .str value => value
  | value => repr lib value

end Strings

section Hosts

variable (lib : PyLib)

def isSchemeChar (c : ℕ) : Bool :=
  (48 ≤ c ∧ c ≤ 57) ∨ (65 ≤ c ∧ c ≤ 90) ∨ (97 ≤ c ∧ c ≤ 122) ∨ c ∈ [43, 45, 46]

/-- A URL behind its scheme, where it has one. -/
def afterScheme (url : PyStr) : PyStr :=
  let scheme := url.takeWhile (· ≠ 58)
  match scheme with
  | [] => url
  | first :: _ =>
    if 58 ∈ url ∧ ((65 ≤ first ∧ first ≤ 90) ∨ (97 ≤ first ∧ first ≤ 122)) ∧ scheme.all isSchemeChar then
      url.drop (scheme.length + 1)
    else url

/-- `_checknetloc`. -/
def checkNetloc (netloc : PyStr) : Except PyError Unit :=
  let n := netloc.filter (· ∉ str "@:#?")
  let normal := lib.nfkc n
  if netloc.all (· < 128) ∨ n = normal then .ok ()
  else if normal.any (· ∈ str "/?#@:") then
    .error (.value "netloc contains invalid characters under NFKC normalization")
  else .ok ()

/-- `urlparse(url).netloc`. -/
def netlocOf (url : PyStr) : Except PyError PyStr := do
  let url := afterScheme ((url.dropWhile (· ≤ 32)).filter (· ∉ [9, 13, 10]))
  let netloc := if url.take 2 = str "//" then (url.drop 2).takeWhile (· ∉ str "/?#") else []
  if (91 ∈ netloc ∧ 93 ∉ netloc) ∨ (93 ∈ netloc ∧ 91 ∉ netloc) then throw (.value "Invalid IPv6 URL")
  else if 91 ∈ netloc then
    match lib.bracketError (((netloc.dropWhile (· ≠ 91)).drop 1).takeWhile (· ≠ 93)) with
    | some message => throw (.value message)
    | none => do
      checkNetloc lib netloc
      pure netloc
  else do
    checkNetloc lib netloc
    pure netloc

/-- The host in a netloc: behind the last `@`, in brackets or before a colon. -/
def hostIn (netloc : PyStr) : PyStr :=
  let hostinfo := netloc.rtakeWhile (· ≠ 64)
  if 91 ∈ hostinfo then ((hostinfo.dropWhile (· ≠ 91)).drop 1).takeWhile (· ≠ 93)
  else hostinfo.takeWhile (· ≠ 58)

/-- `hostname` of a URL with this netloc. The zone of an address stays as it is. -/
def hostnameIn (netloc : PyStr) : Option PyStr :=
  let host := hostIn netloc
  if host = [] then none else some (lib.lower (host.takeWhile (· ≠ 37)) ++ host.dropWhile (· ≠ 37))

/-- `urlparse(url).hostname`. -/
def hostname (url : PyStr) : Except PyError (Option PyStr) := (hostnameIn lib ·) <$> netlocOf lib url

def hostnameForUrl (url : PyStr) : Except PyError PyStr := do
  let netloc ← netlocOf lib url
  match hostnameIn lib netloc with
  | some host => pure (if host = [] then netloc else host)
  | none => pure netloc

end Hosts

section Results

variable (lib : PyLib)

def searchSnippetLimitBytes : ℕ := 256

structure SearchItem where
  id : PyStr
  title : PyStr
  url : PyStr
  snippet : PyStr
  domain : PyStr
  rank : ℕ
  publishedAt : Option PyStr
  deriving DecidableEq, Repr

/-- `str(raw.get(key, default))`. -/
def textAt (entries : List (PyStr × Json)) (key : String) (default : PyStr) : PyStr :=
  match entries.lookup (str key) with
  | some value => strOf lib value
  | none => default

def resultUrl (entries : List (PyStr × Json)) : PyStr := firstNonEmpty [textAt lib entries "url" []]

/-- The domain that the provider names. -/
def metaDomain (entries : List (PyStr × Json)) : PyStr :=
  match entries.lookup (str "meta_url") with
  | some (.dict names) => firstNonEmpty [textAt lib names "hostname" [], textAt lib names "netloc" []]
  | _ => []

/-- The domain that the filters look at. -/
def resultDomain (entries : List (PyStr × Json)) : Except PyError PyStr :=
  if metaDomain lib entries ≠ [] then .ok (metaDomain lib entries) else hostnameForUrl lib (resultUrl lib entries)

def resultSnippet (entries : List (PyStr × Json)) : PyStr :=
  let extra :=
    match entries.lookup (str "extra_snippets") with
    | some (.list (first :: _)) => strOf lib first
    | _ => []
  firstNonEmpty [textAt lib entries "description" [], extra]

/-- The body of the loop of `normalize_search_results`, with `count` results so far. -/
def searchItem (allow deny : List PyStr) (count : ℕ) : Json → Py (Option SearchItem)
  | .dict entries => do
    let url := resultUrl lib entries
    if url = [] then pure none
    else
      let domain ← ofExcept (resultDomain lib entries)
      if allow ≠ [] ∧ domain ∉ allow then pure none
      else if deny ≠ [] ∧ domain ∈ deny then pure none
      else
        let snippet ← truncateUtf8 (resultSnippet lib entries) searchSnippetLimitBytes
        let published := firstNonEmpty [textAt lib entries "age" [], textAt lib entries "page_age" []]
        pure (some {
          id := textAt lib entries "id" (str "r" ++ str (toString (count + 1)))
          title := firstNonEmpty [textAt lib entries "title" [], url]
          url := url
          snippet := snippet
          domain := domain
          rank := count + 1
          publishedAt := if published = [] then none else some published })
  | _ => throw .attribute

def normalizeFrom (topK : ℤ) (allow deny : List PyStr) : List SearchItem → List Json → Py (List SearchItem)
  | items, [] => pure items
  | items, raw :: rest =>
    if topK ≤ items.length then pure items
    else do
      match ← searchItem lib allow deny items.length raw with
      | none => normalizeFrom topK allow deny items rest
      | some item => normalizeFrom topK allow deny (items ++ [item]) rest

def normalizeSearchResults (topK : ℤ) (allow deny : List PyStr) (rawResults : List Json) : Py (List SearchItem) :=
  normalizeFrom lib topK allow deny [] rawResults

end Results

section Truncated

variable {h : Host} {s : PyStr} {chars : List Char} {limit : ℕ}

theorem truncateChars_isPrefix (chars : List Char) (limit : ℕ) : truncateChars chars limit <+: chars := by
  induction chars generalizing limit with
  | nil => exact List.prefix_rfl
  | cons c cs ih =>
    unfold truncateChars
    split_ifs
    · exact List.prefix_cons_inj c |>.mpr (ih _)
    · exact List.nil_prefix

theorem truncateChars_length_le (chars : List Char) (limit : ℕ) : utf8Length (truncateChars chars limit) ≤ limit := by
  induction chars generalizing limit with
  | nil => exact Nat.zero_le _
  | cons c cs ih =>
    unfold truncateChars
    split_ifs with hfits
    · have hrest := ih (limit - c.utf8Size)
      unfold utf8Length at hrest ⊢
      rw [List.map_cons, List.sum_cons]
      omega
    · exact Nat.zero_le _

/-- A text that encodes in at most `limit` bytes and that another one begins with. -/
def ShortPrefix (limit : ℕ) (text source : PyStr) : Prop :=
  text <+: source ∧ ∃ chars, encode text = some chars ∧ utf8Length chars ≤ limit

theorem truncateUtf8_exec (h : Host) (limit : ℕ) (hs : Encodable s) :
    ∃ text, exec (truncateUtf8 s limit) h = (.ok text, h) ∧ ShortPrefix limit text s := by
  obtain ⟨chars, hchars, rfl⟩ := encode_eq_some hs
  refine ⟨decode (truncateChars chars limit), ?_, ?_, truncateChars chars limit, encode_decode _,
    truncateChars_length_le chars limit⟩
  · unfold truncateUtf8
    rw [hchars]
    rfl
  · exact (truncateChars_isPrefix chars limit).map _

theorem truncateUtf8_raises (hs : ¬ Encodable s) : exec (truncateUtf8 s limit) h = (.error .unicode, h) := by
  have hnone : encode s = none := if_neg hs
  unfold truncateUtf8
  rw [hnone]
  rfl

end Truncated

section Filter

variable {lib : PyLib} {allow deny : List PyStr} {h : Host} {raw : Json} {entries : List (PyStr × Json)}
  {items more : List SearchItem} {raws rest : List Json} {topK : ℤ} {count : ℕ}

/-- A domain is in the first list, where that is not empty, and not in the second. -/
def Listed (allow deny : List PyStr) (domain : PyStr) : Prop := (allow ≠ [] → domain ∈ allow) ∧ domain ∉ deny

instance (allow deny : List PyStr) (domain : PyStr) : Decidable (Listed allow deny domain) :=
  inferInstanceAs (Decidable (_ ∧ _))

/-- The host of a URL passes both lists. -/
def HostListed (lib : PyLib) (allow deny : List PyStr) (url : PyStr) : Prop :=
  (allow ≠ [] → ∃ host ∈ allow, hostname lib url = .ok (some host)) ∧
    ∀ host, hostname lib url = .ok (some host) → host ∉ deny

/-- A record with a URL and a domain that passes. -/
def kept (lib : PyLib) (allow deny : List PyStr) : Json → Bool
  | .dict entries =>
    match resultDomain lib entries with
    | .ok domain => resultUrl lib entries ≠ [] ∧ Listed allow deny domain
    | .error _ => false
  | _ => false

/-- A record that raises no error, and whose URL has a host that passes where the record is kept. -/
def Sound (lib : PyLib) (allow deny : List PyStr) : Json → Prop
  | .dict entries => resultUrl lib entries ≠ [] → ∃ domain, resultDomain lib entries = .ok domain ∧
      (Listed allow deny domain → Encodable (resultSnippet lib entries) ∧ HostListed lib allow deny (resultUrl lib entries))
  | _ => False

/-- The item with a rank that a record comes to. -/
def ItemOf (lib : PyLib) (allow deny : List PyStr) (rank : ℕ) (item : SearchItem) : Json → Prop
  | .dict entries => item.url = resultUrl lib entries ∧ item.rank = rank ∧
      ShortPrefix searchSnippetLimitBytes item.snippet (resultSnippet lib entries) ∧ HostListed lib allow deny item.url
  | _ => False

/-- The records that are looked at, until `topK` of them are kept, are sound. -/
def RecordsSound (lib : PyLib) (topK : ℤ) (allow deny : List PyStr) : ℕ → List Json → Prop
  | _, [] => True
  | count, raw :: rest => count < topK → Sound lib allow deny raw ∧
      RecordsSound lib topK allow deny (if kept lib allow deny raw then count + 1 else count) rest

/-- Items that some records come to, in their order, with the ranks from `count + 1` on. -/
inductive FromRecords (lib : PyLib) (allow deny : List PyStr) : ℕ → List Json → List SearchItem → Prop where
  | nil {count : ℕ} : FromRecords lib allow deny count [] []
  | skip {count : ℕ} {raw : Json} {raws : List Json} {items : List SearchItem} :
      FromRecords lib allow deny count raws items → FromRecords lib allow deny count (raw :: raws) items
  | keep {count : ℕ} {raw : Json} {raws : List Json} {item : SearchItem} {items : List SearchItem} :
      ItemOf lib allow deny (count + 1) item raw → FromRecords lib allow deny (count + 1) raws items →
      FromRecords lib allow deny count (raw :: raws) (item :: items)

/-- What the results are to be: at most `topK` items that records come to. -/
structure Normalized (lib : PyLib) (topK : ℤ) (allow deny : List PyStr) (raws : List Json) (items : List SearchItem) :
    Prop where
  length_le : items.length ≤ topK
  fromRecords : FromRecords lib allow deny 0 raws items

theorem not_listed_iff {domain : PyStr} : ¬ Listed allow deny domain ↔
    (allow ≠ [] ∧ domain ∉ allow) ∨ (deny ≠ [] ∧ domain ∈ deny) := by
  have hne : domain ∈ deny → deny ≠ [] := List.ne_nil_of_mem
  unfold Listed
  tauto

theorem exec_ofExcept_ok {α : Type} {r : Except PyError α} {a : α} (hr : r = .ok a) :
    exec (ofExcept r) h = (.ok a, h) := by
  rw [hr]
  rfl

theorem exec_ofExcept_error {α : Type} {r : Except PyError α} {e : PyError} (hr : r = .error e) :
    exec (ofExcept r) h = (.error e, h) := by
  rw [hr]
  rfl

/-- A record without a URL, or whose domain does not pass, is left out. -/
theorem searchItem_dropped (hsound : resultUrl lib entries ≠ [] → ∃ domain, resultDomain lib entries = .ok domain ∧
    ¬ Listed allow deny domain) : exec (searchItem lib allow deny count (.dict entries)) h = (.ok none, h) := by
  unfold searchItem
  dsimp only
  by_cases hurl : resultUrl lib entries = []
  · rw [if_pos hurl]
    rfl
  obtain ⟨domain, hdomain, hnot⟩ := hsound hurl
  rw [if_neg hurl, exec_bind_ok (exec_ofExcept_ok hdomain)]
  rw [not_listed_iff] at hnot
  by_cases hallow : allow ≠ [] ∧ domain ∉ allow
  · rw [if_pos hallow]
    rfl
  · rw [if_neg hallow, if_pos (hnot.resolve_left hallow)]
    rfl

/-- A record that is kept comes to an item. -/
theorem searchItem_kept (h : Host) (count : ℕ) {domain : PyStr} (hurl : resultUrl lib entries ≠ []) (hdomain : resultDomain lib entries = .ok domain)
    (hlisted : Listed allow deny domain) (hsnippet : Encodable (resultSnippet lib entries)) : ∃ item,
      exec (searchItem lib allow deny count (.dict entries)) h = (.ok (some item), h) ∧
      item.url = resultUrl lib entries ∧ item.rank = count + 1 ∧
      ShortPrefix searchSnippetLimitBytes item.snippet (resultSnippet lib entries) := by
  have hnot := not_not_intro hlisted
  rw [not_listed_iff, not_or] at hnot
  obtain ⟨text, htext, hshort⟩ := truncateUtf8_exec h searchSnippetLimitBytes hsnippet
  unfold searchItem
  dsimp only
  rw [if_neg hurl, exec_bind_ok (exec_ofExcept_ok hdomain), if_neg hnot.1, if_neg hnot.2, exec_bind_ok htext]
  exact ⟨_, rfl, rfl, rfl, hshort⟩

/-- What a record that is not sound comes to: an error, or an item whose host does not pass. -/
theorem searchItem_unsound (h : Host) (count : ℕ) (hunsound : ¬ Sound lib allow deny raw) :
    (∃ e, exec (searchItem lib allow deny count raw) h = (.error e, h)) ∨
      ∃ item, exec (searchItem lib allow deny count raw) h = (.ok (some item), h) ∧
        ¬ HostListed lib allow deny item.url := by
  cases raw with
  | dict entries =>
    unfold Sound at hunsound
    push Not at hunsound
    obtain ⟨hurl, hall⟩ := hunsound
    cases hdomain : resultDomain lib entries with
    | error e =>
      left
      refine ⟨e, ?_⟩
      unfold searchItem
      dsimp only
      rw [if_neg hurl]
      exact exec_bind_error (exec_ofExcept_error hdomain)
    | ok domain =>
      obtain ⟨hlisted, hhost⟩ := hall domain hdomain
      by_cases hsnippet : Encodable (resultSnippet lib entries)
      · right
        obtain ⟨item, hitem, hitemUrl, -⟩ := searchItem_kept h count hurl hdomain hlisted hsnippet
        refine ⟨item, hitem, ?_⟩
        rw [hitemUrl]
        exact hhost hsnippet
      · left
        refine ⟨.unicode, ?_⟩
        have hnot := not_not_intro hlisted
        rw [not_listed_iff, not_or] at hnot
        unfold searchItem
        dsimp only
        rw [if_neg hurl, exec_bind_ok (exec_ofExcept_ok hdomain), if_neg hnot.1, if_neg hnot.2]
        exact exec_bind_error (truncateUtf8_raises hsnippet)
  | _ => exact .inl ⟨.attribute, rfl⟩

theorem kept_iff : kept lib allow deny (.dict entries) = true ↔
    ∃ domain, resultDomain lib entries = .ok domain ∧ resultUrl lib entries ≠ [] ∧ Listed allow deny domain := by
  cases hdomain : resultDomain lib entries with
  | ok domain => simp [kept, hdomain]
  | error e => simp [kept, hdomain]

/-- What a sound record comes to. -/
theorem searchItem_sound (h : Host) (count : ℕ) (hsound : Sound lib allow deny raw) :
    (kept lib allow deny raw = false ∧ exec (searchItem lib allow deny count raw) h = (.ok none, h)) ∨
      (kept lib allow deny raw = true ∧ ∃ item, exec (searchItem lib allow deny count raw) h = (.ok (some item), h) ∧
        ItemOf lib allow deny (count + 1) item raw) := by
  cases raw with
  | dict entries =>
    cases hkept : kept lib allow deny (.dict entries) with
    | true =>
      obtain ⟨domain, hdomain, hurl, hlisted⟩ := kept_iff.mp hkept
      obtain ⟨other, hother, hgood⟩ := hsound hurl
      obtain rfl := Except.ok.inj (hdomain.symm.trans hother)
      obtain ⟨hsnippet, hhost⟩ := hgood hlisted
      obtain ⟨item, hitem, hitemUrl, hrank, hshort⟩ := searchItem_kept h count hurl hdomain hlisted hsnippet
      exact .inr ⟨rfl, item, hitem, hitemUrl, hrank, hshort, hitemUrl ▸ hhost⟩
    | false =>
      refine .inl ⟨rfl, searchItem_dropped fun hurl => ?_⟩
      obtain ⟨domain, hdomain, -⟩ := hsound hurl
      refine ⟨domain, hdomain, fun hlisted => ?_⟩
      rw [kept_iff.mpr ⟨domain, hdomain, hurl, hlisted⟩] at hkept
      cases hkept
  | _ => exact hsound.elim

theorem fromRecords_none (count : ℕ) (raws : List Json) : FromRecords lib allow deny count raws [] := by
  induction raws with
  | nil => exact .nil
  | cons raw raws ih => exact .skip ih

/-- One round that drops a record. -/
theorem normalizeFrom_dropped (hroom : ¬ topK ≤ items.length)
    (hraw : exec (searchItem lib allow deny items.length raw) h = (.ok none, h)) :
    exec (normalizeFrom lib topK allow deny items (raw :: rest)) h =
      exec (normalizeFrom lib topK allow deny items rest) h := by
  rw [normalizeFrom, if_neg hroom, exec_bind_ok hraw]

/-- One round that keeps a record. -/
theorem normalizeFrom_kept {item : SearchItem} (hroom : ¬ topK ≤ items.length)
    (hraw : exec (searchItem lib allow deny items.length raw) h = (.ok (some item), h)) :
    exec (normalizeFrom lib topK allow deny items (raw :: rest)) h =
      exec (normalizeFrom lib topK allow deny (items ++ [item]) rest) h := by
  rw [normalizeFrom, if_neg hroom, exec_bind_ok hraw]

theorem normalizeFrom_full (hfull : topK ≤ items.length) :
    exec (normalizeFrom lib topK allow deny items raws) h = (.ok items, h) := by
  cases raws with
  | nil => rfl
  | cons raw rest =>
    rw [normalizeFrom, if_pos hfull]
    rfl

/-- Sound records come to items. -/
theorem normalizeFrom_sound (h : Host) (items : List SearchItem)
    (hsound : RecordsSound lib topK allow deny items.length raws) :
    ∃ more, exec (normalizeFrom lib topK allow deny items raws) h = (.ok (items ++ more), h) ∧
      FromRecords lib allow deny items.length raws more ∧ (more = [] ∨ ((items ++ more).length : ℤ) ≤ topK) := by
  induction raws generalizing items with
  | nil => exact ⟨[], by rw [List.append_nil]; rfl, .nil, .inl rfl⟩
  | cons raw rest ih =>
    by_cases hfull : topK ≤ items.length
    · refine ⟨[], ?_, fromRecords_none _ _, .inl rfl⟩
      rw [List.append_nil]
      exact normalizeFrom_full hfull
    obtain ⟨hraw, hrest⟩ := hsound (by omega)
    rcases searchItem_sound h items.length hraw with ⟨hkept, hnone⟩ | ⟨hkept, item, hitem, hof⟩
    · rw [hkept] at hrest
      obtain ⟨more, hmore, hfrom, hlength⟩ := ih _ hrest
      exact ⟨more, (normalizeFrom_dropped hfull hnone).trans hmore, .skip hfrom, hlength⟩
    · rw [hkept] at hrest
      have hnext : (items ++ [item]).length = items.length + 1 := List.length_append
      rw [if_pos rfl, ← hnext] at hrest
      obtain ⟨more, hmore, hfrom, hlength⟩ := ih _ hrest
      rw [hnext] at hfrom
      rw [List.append_assoc] at hmore hlength
      refine ⟨item :: more, (normalizeFrom_kept hfull hitem).trans hmore, .keep hof hfrom, .inr ?_⟩
      rcases hlength with rfl | hlength
      · rw [List.length_append]
        simp only [List.length_cons, List.length_nil]
        omega
      · exact hlength

theorem normalizeFrom_extends {out : List SearchItem} {t : Host}
    (hout : exec (normalizeFrom lib topK allow deny items raws) h = (.ok out, t)) : items <+: out := by
  induction raws generalizing items h with
  | nil =>
    obtain rfl : items = out := Except.ok.inj (congrArg Prod.fst hout)
    exact List.prefix_rfl
  | cons raw rest ih =>
    by_cases hfull : topK ≤ items.length
    · rw [normalizeFrom_full hfull] at hout
      obtain rfl : items = out := Except.ok.inj (congrArg Prod.fst hout)
      exact List.prefix_rfl
    rw [normalizeFrom, if_neg hfull] at hout
    rcases hraw : exec (searchItem lib allow deny items.length raw) h with ⟨result, u⟩
    cases result with
    | error e =>
      rw [exec_bind_error hraw] at hout
      cases congrArg Prod.fst hout
    | ok found =>
      rw [exec_bind_ok hraw] at hout
      cases found with
      | none => exact ih hout
      | some item => exact (List.prefix_append items [item]).trans (ih hout)

/-- Records that are not sound come to an error or to an item whose host does not pass. -/
theorem normalizeFrom_unsound (h : Host) (items : List SearchItem)
    (hunsound : ¬ RecordsSound lib topK allow deny items.length raws) :
    (∃ e t, exec (normalizeFrom lib topK allow deny items raws) h = (.error e, t)) ∨
      ∃ out t, exec (normalizeFrom lib topK allow deny items raws) h = (.ok out, t) ∧
        ∃ item ∈ out, ¬ HostListed lib allow deny item.url := by
  induction raws generalizing items with
  | nil => exact absurd trivial hunsound
  | cons raw rest ih =>
    rw [RecordsSound, Classical.not_imp] at hunsound
    obtain ⟨hroom, hbad⟩ := hunsound
    have hroom : ¬ topK ≤ items.length := by omega
    by_cases hraw : Sound lib allow deny raw
    · have hrest := fun h => hbad ⟨hraw, h⟩
      rcases searchItem_sound h items.length hraw with ⟨hkept, hnone⟩ | ⟨hkept, item, hitem, -⟩
      · rw [hkept] at hrest
        rw [normalizeFrom_dropped hroom hnone]
        exact ih _ hrest
      · have hnext : (items ++ [item]).length = items.length + 1 := List.length_append
        rw [hkept, if_pos rfl, ← hnext] at hrest
        rw [normalizeFrom_kept hroom hitem]
        exact ih _ hrest
    · rcases searchItem_unsound h items.length hraw with ⟨e, he⟩ | ⟨item, hitem, hhost⟩
      · left
        refine ⟨e, h, ?_⟩
        rw [normalizeFrom, if_neg hroom]
        exact exec_bind_error he
      · rw [normalizeFrom_kept hroom hitem]
        rcases hrest : exec (normalizeFrom lib topK allow deny (items ++ [item]) rest) h with ⟨result, t⟩
        cases result with
        | error e => exact .inl ⟨e, t, rfl⟩
        | ok out =>
          have hin := (normalizeFrom_extends hrest).subset (List.mem_append_right items (List.mem_singleton_self item))
          exact .inr ⟨out, t, rfl, item, hin, hhost⟩

theorem FromRecords.hostListed (hfrom : FromRecords lib allow deny count raws items) :
    ∀ item ∈ items, HostListed lib allow deny item.url := by
  induction hfrom with
  | nil => simp
  | skip _ ih => exact ih
  | @keep count raw raws item items hof _ ih =>
    rw [List.forall_mem_cons]
    refine ⟨?_, ih⟩
    cases raw with
    | dict entries => exact hof.2.2.2
    | _ => exact hof.elim

/-- Items of records have the ranks that follow one another. -/
theorem FromRecords.ranks (hfrom : FromRecords lib allow deny count raws items) :
    items.map SearchItem.rank = List.range' (count + 1) items.length := by
  induction hfrom with
  | nil => rfl
  | skip _ ih => exact ih
  | @keep count raw raws item items hof _ ih =>
    cases raw with
    | dict entries => rw [List.map_cons, List.length_cons, List.range'_succ, ih, hof.2.1]
    | _ => exact hof.elim

/-- The results are what they are to be just when the records that are looked at are sound. -/
theorem normalizeSearchResults_iff (htop : 1 ≤ topK) :
    (∃ items, exec (normalizeSearchResults lib topK allow deny raws) h = (.ok items, h) ∧
        Normalized lib topK allow deny raws items ∧ items.map SearchItem.rank = List.range' 1 items.length) ↔
      RecordsSound lib topK allow deny 0 raws := by
  constructor
  · rintro ⟨items, hitems, hnormalized, -⟩
    by_contra hunsound
    rcases normalizeFrom_unsound h [] hunsound with ⟨e, t, he⟩ | ⟨out, t, hout, item, hin, hhost⟩
    · cases congrArg Prod.fst (hitems.symm.trans he)
    · obtain rfl : items = out := Except.ok.inj (congrArg Prod.fst (hitems.symm.trans hout))
      exact hhost (hnormalized.fromRecords.hostListed item hin)
  · intro hsound
    obtain ⟨items, hitems, hfrom, hlength⟩ := normalizeFrom_sound h [] hsound
    rw [List.nil_append] at hitems hlength
    refine ⟨items, hitems, ⟨?_, hfrom⟩, hfrom.ranks⟩
    rcases hlength with rfl | hlength
    · exact le_trans zero_le_one htop
    · exact hlength

end Filter

section Records

/-- ASCII, of which NFKC changes nothing. -/
def asciiLib : PyLib where
  lower s := s.map fun c => if 65 ≤ c ∧ c ≤ 90 then c + 32 else c
  printable c := 32 ≤ c ∧ c < 127
  nfkc := id
  bracketError _ := none

def plainEntries : List (PyStr × Json) :=
  [(str "url", .str (str "https://A.org/x")), (str "description", .str (str "text"))]

/-- A record whose provider names another host than the one of its URL. -/
def disguisedEntries : List (PyStr × Json) :=
  [(str "url", .str (str "https://evil.com/x")), (str "meta_url", .dict [(str "hostname", .str (str "a.org"))])]

theorem normalizeSearchResults_plain :
    ∃ items, exec (normalizeSearchResults asciiLib 1 [str "a.org"] [] [.dict plainEntries]) bareHost = (.ok items, bareHost) ∧
      Normalized asciiLib 1 [str "a.org"] [] [.dict plainEntries] items ∧
      items.map SearchItem.rank = List.range' 1 items.length := by
  have htop : (1 : ℤ) ≤ 1 := le_rfl
  have hdomain : resultDomain asciiLib plainEntries = .ok (str "a.org") := by
    decide +kernel
  have hsnippet : Encodable (resultSnippet asciiLib plainEntries) := by
    decide +kernel
  have hhost : hostname asciiLib (resultUrl asciiLib plainEntries) = .ok (some (str "a.org")) := by
    decide +kernel
  have hlisted : HostListed asciiLib [str "a.org"] [] (resultUrl asciiLib plainEntries) :=
    ⟨fun _ => ⟨str "a.org", List.mem_singleton_self _, hhost⟩, fun _ _ => List.not_mem_nil⟩
  have hsound : RecordsSound asciiLib 1 [str "a.org"] [] 0 [.dict plainEntries] := by
    intro _
    refine ⟨?_, trivial⟩
    intro _
    exact ⟨_, hdomain, fun _ => ⟨hsnippet, hlisted⟩⟩
  exact (normalizeSearchResults_iff htop).mpr hsound

/-- The result at `evil.com` passes a list that allows `a.org` alone. -/
theorem disguised_result : ¬ ∀ (lib : PyLib) (topK : ℤ) (allow deny : List PyStr) (raws : List Json) (h : Host),
    1 ≤ topK → ∃ items, exec (normalizeSearchResults lib topK allow deny raws) h = (.ok items, h) ∧
      Normalized lib topK allow deny raws items ∧ items.map SearchItem.rank = List.range' 1 items.length := by
  intro hall
  have hurl : resultUrl asciiLib disguisedEntries = str "https://evil.com/x" := by
    decide +kernel
  have hdomain : resultDomain asciiLib disguisedEntries = .ok (str "a.org") := by
    decide +kernel
  have hhost : hostname asciiLib (str "https://evil.com/x") = .ok (some (str "evil.com")) := by
    decide +kernel
  have hne : resultUrl asciiLib disguisedEntries ≠ [] := by
    rw [hurl]
    decide
  have hlisted : Listed [str "a.org"] [] (str "a.org") := by
    decide
  have hsnippet : Encodable (resultSnippet asciiLib disguisedEntries) := by
    decide +kernel
  obtain ⟨item, hitem, hitemUrl, -⟩ := searchItem_kept bareHost 0 hne hdomain hlisted hsnippet
  have hroom : ¬ (1 : ℤ) ≤ ([] : List SearchItem).length := by
    decide
  have hresult : exec (normalizeSearchResults asciiLib 1 [str "a.org"] [] [.dict disguisedEntries]) bareHost =
      (.ok [item], bareHost) := normalizeFrom_kept hroom hitem
  obtain ⟨items, hitems, hnormalized, -⟩ := hall asciiLib 1 [str "a.org"] [] [.dict disguisedEntries] bareHost le_rfl
  obtain rfl : [item] = items := Except.ok.inj (congrArg Prod.fst (hresult.symm.trans hitems))
  obtain ⟨host, hallowed, heq⟩ := (hnormalized.fromRecords.hostListed item (List.mem_singleton_self _)).1 (by decide)
  rw [hitemUrl, hurl, hhost] at heq
  obtain rfl := Option.some.inj (Except.ok.inj heq)
  exact absurd hallowed (by decide)

end Records

end MiniAgentOS.Bridge
