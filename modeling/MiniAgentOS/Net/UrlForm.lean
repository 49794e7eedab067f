import MiniAgentOS.Net.AgentUrl

/-! The URLs `scheme://host[:port][/path]` with blanks around them, and what `parse_agent_url` makes of each. -/
namespace MiniAgentOS.Net

section Form

/-- What a host or a port is made of. -/
def isAuthorityByte (b : UInt8) : Bool := !isSpace b && b != 47 && b != 58

/-- The parts of a URL. -/
structure UrlForm where
  lead : Bytes
  https : Bool
  host : Bytes
  port : Option Bytes
  path : Bytes
  trail : Bytes
  lead_blank : ∀ b ∈ lead, isSpace b
  trail_blank : ∀ b ∈ trail, isSpace b
  host_plain : ∀ b ∈ host, isAuthorityByte b
  port_plain : ∀ digits ∈ port, ∀ b ∈ digits, isAuthorityByte b
  path_start : path = [] ∨ path.head? = some 47
  path_plain : ∀ b ∈ path, isSpace b = false

def schemeText (https : Bool) : Bytes := if https then ascii "https://" else ascii "http://"

def portText : Option Bytes → Bytes
  | none => []
  | some digits => 58 :: digits

def UrlForm.core (u : UrlForm) : Bytes := schemeText u.https ++ (u.host ++ portText u.port ++ u.path)

def UrlForm.text (u : UrlForm) : Bytes := u.lead ++ u.core ++ u.trail

/-- The number that a text of digits is written for. -/
def decimalValue (digits : Bytes) : ℕ := digits.foldl (fun v b => v * 10 + (b.toNat - 48)) 0

/-- The text of a port is a decimal number from 1 to 65535. -/
def PortNumber (digits : Bytes) : Prop :=
  digits ≠ [] ∧ (∀ b ∈ digits, isDigit b) ∧ 1 ≤ decimalValue digits ∧ decimalValue digits ≤ 65535

/-- The number of a port text, or that of the scheme. -/
def UrlForm.portNumber (u : UrlForm) : ℕ := u.port.elim (if u.https then 443 else 80) decimalValue

/-- The URL is accepted just if its host is not empty and its port is a port number, and what is returned are its
parts. -/
structure ReadExactly (u : UrlForm) : Prop where
  accepted : (parseAgentUrl u.text).isSome ↔ u.host ≠ [] ∧ ∀ digits ∈ u.port, PortNumber digits
  parts : ∀ parts, parseAgentUrl u.text = some parts →
    parts.https = u.https ∧ parts.host = u.host ∧ parts.port = u.portNumber ∧ parts.path = u.path

end Form

section Port

variable {digits : Bytes} {v : ℕ}

theorem foldl_pushDigit16 (digits : Bytes) (v : ℕ) : digits.foldl pushDigit16 (min v 65535) =
    min (digits.foldl (fun v b => v * 10 + (b.toNat - 48)) v) 65535 := by
  induction digits generalizing v with
  | nil => rfl
  | cons b digits ih =>
    have hpush : pushDigit16 (min v 65535) b = min (v * 10 + (b.toNat - 48)) 65535 := by
      unfold pushDigit16
      omega
    rw [List.foldl_cons, List.foldl_cons, hpush, ih]

/-- A port above 65535 is taken for 65535. -/
theorem pushDigit16_value (digits : Bytes) : digits.foldl pushDigit16 0 = min (decimalValue digits) 65535 :=
  foldl_pushDigit16 digits 0

theorem decimalValue_nil : decimalValue [] = 0 := rfl

end Port

section Parse

variable {u : UrlForm}

theorem isAuthorityByte_iff {b : UInt8} : isAuthorityByte b = true ↔ isSpace b = false ∧ b ≠ 47 ∧ b ≠ 58 := by
  simp [isAuthorityByte, and_assoc]

theorem dropWhile_blank {lead text : Bytes} (hlead : ∀ b ∈ lead, isSpace b) (htext : ∀ b, text.head? = some b → isSpace b = false) :
    (lead ++ text).dropWhile isSpace = text := by
  rw [List.dropWhile_append_of_pos hlead]
  cases text with
  | nil => rfl
  | cons b text => rw [List.dropWhile_cons_of_neg (by simp [htext b rfl])]

theorem trimSpaces_eq {lead text trail : Bytes} (hlead : ∀ b ∈ lead, isSpace b) (htrail : ∀ b ∈ trail, isSpace b)
    (hne : text ≠ []) (hfirst : ∀ b, text.head? = some b → isSpace b = false)
    (hlast : ∀ b, text.getLast? = some b → isSpace b = false) : trimSpaces (lead ++ text ++ trail) = text := by
  have hhead : ∀ b, (text ++ trail).head? = some b → isSpace b = false := by
    intro b hb
    rw [List.head?_append_of_ne_nil _ hne] at hb
    exact hfirst b hb
  unfold trimSpaces
  rw [List.append_assoc, dropWhile_blank hlead hhead, List.reverse_append, dropWhile_blank, List.reverse_reverse]
  · exact fun b hb => htrail b (List.mem_reverse.mp hb)
  · intro b hb
    rw [List.head?_reverse] at hb
    exact hlast b hb

theorem schemeText_ends (https : Bool) : ∃ front, schemeText https = 104 :: front ++ [47] := by
  cases https
  · exact ⟨ascii "ttp:/", rfl⟩
  · exact ⟨ascii "ttps:/", rfl⟩

theorem portText_plain (u : UrlForm) : ∀ b ∈ portText u.port, isSpace b = false ∧ b ≠ 47 := by
  intro b hb
  cases hport : u.port with
  | none =>
    rw [hport] at hb
    exact absurd hb List.not_mem_nil
  | some digits =>
    rw [hport] at hb
    rcases List.mem_cons.mp hb with rfl | hmem
    · decide
    · have hplain := isAuthorityByte_iff.mp (u.port_plain digits hport b hmem)
      exact ⟨hplain.1, hplain.2.1⟩

theorem authority_plain (u : UrlForm) : ∀ b ∈ u.host ++ portText u.port, isSpace b = false ∧ b ≠ 47 := by
  intro b hb
  rcases List.mem_append.mp hb with hhost | hport
  · have hplain := isAuthorityByte_iff.mp (u.host_plain b hhost)
    exact ⟨hplain.1, hplain.2.1⟩
  · exact portText_plain u b hport

theorem core_trim (u : UrlForm) : trimSpaces u.text = u.core := by
  obtain ⟨front, hscheme⟩ := schemeText_ends u.https
  apply trimSpaces_eq u.lead_blank u.trail_blank
  · simp [UrlForm.core, hscheme]
  · intro b hb
    rw [UrlForm.core, hscheme] at hb
    obtain rfl := Option.some.inj hb
    decide
  · intro b hb
    have hmem : b = 47 ∨ b ∈ u.host ++ portText u.port ++ u.path := by
      rw [UrlForm.core, List.getLast?_append] at hb
      cases hlast : (u.host ++ portText u.port ++ u.path).getLast? with
      | some last =>
        rw [hlast] at hb
        exact .inr (Option.some.inj hb ▸ List.mem_of_getLast? hlast)
      | none =>
        rw [hlast, hscheme, List.getLast?_concat] at hb
        exact .inl (Option.some.inj hb).symm
    rcases hmem with rfl | hmem
    · decide
    · rcases List.mem_append.mp hmem with hauth | hpath
      · exact (authority_plain u b hauth).1
      · exact u.path_plain b hpath

theorem stripScheme_text (https : Bool) (rest : Bytes) : stripScheme (schemeText https ++ rest) = some (rest, https) := by
  cases https <;> rfl

theorem takeWhile_authority (u : UrlForm) :
    (u.host ++ portText u.port ++ u.path).takeWhile (fun b => !isSpace b && b != 47) = u.host ++ portText u.port := by
  rw [List.takeWhile_append_of_pos]
  · rcases u.path_start with hnil | hslash
    · rw [hnil]
      simp
    · cases hpath : u.path with
      | nil => simp
      | cons b path =>
        rw [hpath] at hslash
        obtain rfl := Option.some.inj hslash
        simp
  · intro b hb
    simpa using authority_plain u b hb

theorem path_read (u : UrlForm) :
    (if u.path.head? = some 47 then u.path.takeWhile fun b => !isSpace b else []) = u.path := by
  rcases u.path_start with hnil | hslash
  · rw [hnil]
    rfl
  · rw [if_pos hslash, List.takeWhile_eq_self_iff]
    intro b hb
    simp [u.path_plain b hb]

theorem host_no_colon (u : UrlForm) : (58 : UInt8) ∉ u.host := fun h => (isAuthorityByte_iff.mp (u.host_plain 58 h)).2.2 rfl

/-- The port behind the last colon, as it is read. -/
theorem splitPort_text (u : UrlForm) : splitPort (u.host ++ portText u.port) u.https =
    match u.port with
    | none => some (u.host, if u.https then 443 else 80)
    | some digits => if digits.all isDigit ∧ min (decimalValue digits) 65535 ≠ 0 then
        some (u.host, min (decimalValue digits) 65535) else none := by
  unfold splitPort
  cases hport : u.port with
  | none =>
    rw [portText, List.append_nil, if_neg (by simpa using host_no_colon u)]
  | some digits =>
    have hdigits : ∀ b ∈ digits, (b != 58) = true := fun b hb =>
      bne_iff_ne.mpr (isAuthorityByte_iff.mp (u.port_plain digits hport b hb)).2.2
    have hreverse : ((u.host ++ 58 :: digits).reverse.takeWhile (· != 58)).reverse = digits := by
      rw [List.reverse_append, List.reverse_cons, List.append_assoc, List.takeWhile_append_of_pos]
      · simp
      · exact fun b hb => hdigits b (List.mem_reverse.mp hb)
    have hhost : (u.host ++ 58 :: digits).take ((u.host ++ 58 :: digits).length - digits.length - 1) = u.host := by
      have hlength : (u.host ++ 58 :: digits).length - digits.length - 1 = u.host.length := by
        rw [List.length_append, List.length_cons]
        omega
      rw [hlength, List.take_left]
    rw [portText, if_pos (by simp)]
    simp only [hreverse, hhost, pushDigit16_value]

/-- What `parse_agent_url` makes of a URL of this form. -/
theorem parseAgentUrl_text (u : UrlForm) : parseAgentUrl u.text =
    if u.host ≠ [] ∧ ∀ digits ∈ u.port, (∀ b ∈ digits, isDigit b) ∧ decimalValue digits ≠ 0 then
      some ⟨u.host, u.path, u.https, min u.portNumber 65535, parseIpv4Bytes u.host⟩
    else none := by
  unfold parseAgentUrl
  rw [core_trim, UrlForm.core, stripScheme_text]
  simp only [Option.bind_eq_bind, Option.bind_some, takeWhile_authority, splitPort_text, List.drop_left, path_read]
  by_cases hhost : u.host = []
  · cases u.port with
    | none => simp [hhost]
    | some digits =>
      dsimp only
      split_ifs <;> simp_all
  · cases hport : u.port with
    | none => cases hhttps : u.https <;> simp [hhost, UrlForm.portNumber, hport, hhttps]
    | some digits =>
      by_cases hdigits : (∀ b ∈ digits, isDigit b) ∧ decimalValue digits ≠ 0
      · have hmin : digits.all isDigit = true ∧ min (decimalValue digits) 65535 ≠ 0 :=
          ⟨List.all_eq_true.mpr hdigits.1, by have := hdigits.2; omega⟩
        simp only [if_pos hmin]
        rw [if_pos]
        · simp [hhost, UrlForm.portNumber, hport]
        · refine ⟨hhost, fun other hother => ?_⟩
          obtain rfl := Option.some.inj hother
          exact hdigits
      · have hmin : ¬ (digits.all isDigit = true ∧ min (decimalValue digits) 65535 ≠ 0) := by
          rintro ⟨hall, hne⟩
          exact hdigits ⟨List.all_eq_true.mp hall, by omega⟩
        simp only [if_neg hmin]
        rw [if_neg fun h => hdigits (h.2 digits rfl)]
        rfl

theorem portNumber_iff {digits : Bytes} (hsmall : decimalValue digits ≤ 65535) :
    PortNumber digits ↔ (∀ b ∈ digits, isDigit b) ∧ decimalValue digits ≠ 0 := by
  constructor
  · rintro ⟨-, hdigits, hpos, -⟩
    exact ⟨hdigits, by omega⟩
  · rintro ⟨hdigits, hne⟩
    refine ⟨?_, hdigits, by omega, hsmall⟩
    rintro rfl
    exact hne decimalValue_nil

/-- A URL is read exactly unless it has a host and a number above 65535 for a port. -/
theorem readExactly_iff (u : UrlForm) : ReadExactly u ↔
    ¬ (u.host ≠ [] ∧ ∃ digits ∈ u.port, (∀ b ∈ digits, isDigit b) ∧ 65535 < decimalValue digits) := by
  have hparse := parseAgentUrl_text u
  constructor
  · rintro hread ⟨hhost, digits, hport, hdigits, hlarge⟩
    have haccepted : (parseAgentUrl u.text).isSome := by
      rw [hparse, if_pos]
      · rfl
      · refine ⟨hhost, fun other hother => ?_⟩
        rw [Option.mem_def.mp hport] at hother
        obtain rfl := Option.some.inj hother
        exact ⟨hdigits, by omega⟩
    have hnumber := (hread.accepted.mp haccepted).2 digits hport
    have hle := hnumber.2.2.2
    omega
  · intro hfine
    by_cases hhost : u.host = []
    · have hnone : parseAgentUrl u.text = none := by
        rw [hparse, if_neg]
        exact fun h => h.1 hhost
      constructor
      · rw [hnone]
        exact iff_of_false (by simp) fun h => h.1 hhost
      · rw [hnone]
        intro parts hparts
        cases hparts
    · have hsmall : ∀ digits ∈ u.port, (∀ b ∈ digits, isDigit b) → decimalValue digits ≤ 65535 := by
        intro digits hport hdigits
        by_contra hlarge
        exact hfine ⟨hhost, digits, hport, hdigits, by omega⟩
      have hsame : (∀ digits ∈ u.port, PortNumber digits) ↔
          ∀ digits ∈ u.port, (∀ b ∈ digits, isDigit b) ∧ decimalValue digits ≠ 0 := by
        constructor
        · intro h digits hport
          have hnumber := h digits hport
          exact (portNumber_iff (hsmall digits hport hnumber.2.1)).mp hnumber
        · intro h digits hport
          exact (portNumber_iff (hsmall digits hport (h digits hport).1)).mpr (h digits hport)
      constructor
      · rw [hparse, hsame]
        split_ifs with hgood
        · exact iff_of_true rfl hgood
        · exact iff_of_false (by simp) hgood
      · intro parts hparts
        rw [hparse] at hparts
        split_ifs at hparts with hgood
        obtain rfl := Option.some.inj hparts
        refine ⟨rfl, rfl, ?_, rfl⟩
        change min u.portNumber 65535 = u.portNumber
        apply Nat.min_eq_left
        cases hport : u.port with
        | none => cases hhttps : u.https <;> simp [UrlForm.portNumber, hport, hhttps]
        | some digits =>
          have hle := hsmall digits hport (hgood.2 digits hport).1
          simpa [UrlForm.portNumber, hport] using hle

/-- The port of `http://h:70000/` is taken for 65535. -/
theorem readExactly_largePort : ¬ ∀ u : UrlForm, ReadExactly u := by
  intro hall
  have hread := hall ⟨[], false, ascii "h", some (ascii "70000"), ascii "/", [], by simp, by simp, by decide +kernel,
    by decide +kernel, by decide +kernel, by decide +kernel⟩
  have hnumber := (hread.accepted.mp (by decide +kernel)).2 (ascii "70000") rfl
  exact absurd hnumber.2.2.2 (by decide)

end Parse

end MiniAgentOS.Net
