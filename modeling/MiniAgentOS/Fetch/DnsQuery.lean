import MiniAgentOS.Fetch.State
import MiniAgentOS.Lib.Partial
import MiniAgentOS.Net.Dns

/-! The name in a query: the labels that are written are read back, and the offset behind them is found where there
are at most 128. -/
namespace MiniAgentOS.Fetch
open Checked Net

section Names

def dot : UInt8 := 46

/-- A label of a host name. -/
structure HostLabel (label : Bytes) : Prop where
  ne_nil : label ≠ []
  short : label.length ≤ 63
  letters : ∀ b ∈ label, isDnsLabelByte b

/-- A host name of non-empty labels of at most 63 letters, digits or hyphens. -/
def HostName (name : Bytes) : Prop := ∀ label ∈ name.splitOn dot, HostLabel label

/-- The labels in a message, each behind its length, up to the zero behind the last. -/
def readLabels : ℕ → Bytes → Option (List Bytes)
  | 0, _ => none
  | _ + 1, [] => none
  | fuel + 1, len :: rest =>
    if len = 0 then some []
    else if 63 < len ∨ rest.length < len.toNat then none
    else (readLabels fuel (rest.drop len.toNat)).map (rest.take len.toNat :: ·)

/-- The name that stands at an offset of a message. -/
def readName (buf : Bytes) (off : ℕ) : Option Bytes :=
  (readLabels buf.length (buf.drop off)).map [dot].intercalate

/-- Labels on the wire. -/
def wireLabels (labels : List Bytes) : Bytes := labels.flatMap fun label => UInt8.ofNat label.length :: label

theorem dnsWireName_eq (name : Bytes) : dnsWireName name = wireLabels (name.splitOn dot) ++ [0] := rfl

@[simp] theorem wireLabels_cons (label : Bytes) (labels : List Bytes) :
    wireLabels (label :: labels) = (UInt8.ofNat label.length :: label) ++ wireLabels labels := rfl

theorem wireLabels_length (labels : List Bytes) (h : labels ≠ []) :
    (wireLabels labels).length = ([dot].intercalate labels).length + 1 := by
  induction labels with
  | nil => exact absurd rfl h
  | cons label labels ih =>
    cases labels with
    | nil => simp [wireLabels]
    | cons other labels =>
      rw [wireLabels_cons, List.length_append, ih (by simp), List.intercalate_cons_cons]
      simp
      omega

theorem wireName_length (name : Bytes) : (wireLabels (name.splitOn dot)).length = name.length + 1 := by
  rw [wireLabels_length _ (List.splitOn_ne_nil dot name), List.intercalate_splitOn]

end Names

section Write

variable {room : ℕ} {query label name : Bytes} {labels : List Bytes}

theorem hostLabel_iff : HostLabel label ↔ label ≠ [] ∧ label.length ≤ 63 ∧ label.all isDnsLabelByte = true := by
  rw [List.all_eq_true]
  exact ⟨fun h => ⟨h.ne_nil, h.short, h.letters⟩, fun ⟨h, h', h''⟩ => ⟨h, h', h''⟩⟩

theorem dnsAppendLabel_eq_some {next : Bytes} : dnsAppendLabel room query label = some next ↔
    HostLabel label ∧ query.length + 1 + label.length < room ∧ next = query ++ UInt8.ofNat label.length :: label := by
  rw [hostLabel_iff, dnsAppendLabel]
  by_cases hbad : label = [] ∨ 63 < label.length ∨ room ≤ query.length + 1 + label.length
  · rw [if_pos hbad]
    constructor
    · intro h
      cases h
    · rintro ⟨⟨hne, hshort, -⟩, hroom, -⟩
      rcases hbad with hnil | hlong | hfull
      · exact absurd hnil hne
      · omega
      · omega
  · rw [if_neg hbad]
    push Not at hbad
    by_cases hall : label.all isDnsLabelByte = true
    · rw [if_pos hall, Option.some.injEq]
      exact ⟨fun h => ⟨⟨hbad.1, hbad.2.1, hall⟩, hbad.2.2, h.symm⟩, fun h => h.2.2.symm⟩
    · rw [if_neg hall]
      constructor
      · intro h
        cases h
      · exact fun h => absurd h.1.2.2 hall

/-- The labels of a host name are written as far as they fit. -/
theorem dnsAppendLabels_eq_some {next : Bytes} (hroom : query.length < room) :
    labels.foldlM (dnsAppendLabel room) query = some next ↔
      (∀ label ∈ labels, HostLabel label) ∧ (query ++ wireLabels labels).length < room ∧
        next = query ++ wireLabels labels := by
  induction labels generalizing query with
  | nil =>
    simp only [List.foldlM_nil, wireLabels, List.flatMap_nil, List.append_nil]
    constructor
    · intro h
      exact ⟨by simp, hroom, (Option.some.inj h).symm⟩
    · rintro ⟨-, -, rfl⟩
      rfl
  | cons label labels ih =>
    have hlength : (query ++ wireLabels (label :: labels)).length =
        (query ++ UInt8.ofNat label.length :: label).length + (wireLabels labels).length := by
      simp
      omega
    have hlabel : (query ++ UInt8.ofNat label.length :: label).length = query.length + 1 + label.length := by
      simp
      omega
    rw [List.foldlM_cons, Option.bind_eq_bind, Option.bind_eq_some_iff]
    constructor
    · rintro ⟨middle, hfirst, hrest⟩
      obtain ⟨hhost, hfits, rfl⟩ := dnsAppendLabel_eq_some.mp hfirst
      obtain ⟨hall, hmore, rfl⟩ := (ih (by omega)).mp hrest
      refine ⟨List.forall_mem_cons.mpr ⟨hhost, hall⟩, ?_, by simp⟩
      rwa [hlength, ← List.length_append]
    · rintro ⟨hall, hfits, rfl⟩
      obtain ⟨hhost, hmore⟩ := List.forall_mem_cons.mp hall
      rw [hlength] at hfits
      refine ⟨_, dnsAppendLabel_eq_some.mpr ⟨hhost, by omega, rfl⟩, ?_⟩
      apply (ih (by omega)).mpr
      exact ⟨hmore, by rw [List.length_append]; omega, by simp⟩

theorem dnsHeader_length (id : ℕ) : (dnsHeader id).length = 12 := rfl

/-- A query is built for the host names that fit with what stands around them. -/
theorem dnsBuildQuery_eq (hroom : 12 < room) (name : Bytes) (id : ℕ) :
    (HostName name ∧ name.length + 18 ≤ room ∧
      dnsBuildQuery room name id = dnsHeader id ++ (dnsWireName name ++ [0, 1, 0, 1])) ∨
    (¬ (HostName name ∧ name.length + 18 ≤ room) ∧ dnsBuildQuery room name id = []) := by
  have hlength := wireName_length name
  have happend := @dnsAppendLabels_eq_some room (dnsHeader id) (name.splitOn dot)
  unfold dnsBuildQuery
  rw [if_neg (by omega)]
  have hdot : (46 : UInt8) = dot := rfl
  rw [hdot]
  by_cases hname : HostName name ∧ name.length + 18 ≤ room
  · left
    refine ⟨hname.1, hname.2, ?_⟩
    have hquery := (happend hroom).mpr ⟨hname.1, by rw [List.length_append, hlength, dnsHeader_length]; omega, rfl⟩
    rw [hquery]
    dsimp only
    rw [if_pos (by rw [List.length_append, hlength, dnsHeader_length]; omega), dnsWireName_eq]
    simp
  · right
    refine ⟨hname, ?_⟩
    cases hquery : (name.splitOn dot).foldlM (dnsAppendLabel room) (dnsHeader id) with
    | none => rfl
    | some query =>
      obtain ⟨hhost, -, rfl⟩ := (happend hroom).mp hquery
      dsimp only
      rw [if_neg]
      rw [List.length_append, hlength, dnsHeader_length]
      intro hfits
      exact hname ⟨hhost, by omega⟩

end Write

section Read

variable {buf rest : Bytes} {labels : List Bytes} {len off : ℕ}

theorem labelLength {label : Bytes} (h : HostLabel label) :
    (UInt8.ofNat label.length).toNat = label.length ∧ UInt8.ofNat label.length ≠ 0 ∧ ¬ 63 < UInt8.ofNat label.length := by
  have hpos := List.length_pos_iff.mpr h.ne_nil
  have hshort := h.short
  have hvalue : (UInt8.ofNat label.length).toNat = label.length := by
    rw [UInt8.toNat_ofNat']
    omega
  refine ⟨hvalue, ?_, ?_⟩
  · intro hzero
    rw [hzero] at hvalue
    change 0 = _ at hvalue
    omega
  · rw [UInt8.lt_iff_toNat_lt, hvalue]
    change ¬ 63 < _
    omega

/-- The labels that were written are read back. -/
theorem readLabels_wire (h : ∀ label ∈ labels, HostLabel label) (rest : Bytes) {fuel : ℕ} (hfuel : labels.length < fuel) :
    readLabels fuel (wireLabels labels ++ 0 :: rest) = some labels := by
  induction labels generalizing fuel with
  | nil =>
    obtain ⟨fuel, rfl⟩ : ∃ n, fuel = n + 1 := ⟨fuel - 1, by omega⟩
    rfl
  | cons label labels ih =>
    obtain ⟨fuel, rfl⟩ : ∃ n, fuel = n + 1 := ⟨fuel - 1, by omega⟩
    obtain ⟨hlabel, hmore⟩ := List.forall_mem_cons.mp h
    obtain ⟨hvalue, hne, hshort⟩ := labelLength hlabel
    rw [List.length_cons] at hfuel
    rw [wireLabels_cons, List.cons_append, List.cons_append, List.append_assoc, readLabels, if_neg hne, if_neg, hvalue,
      List.drop_left, List.take_left, ih hmore (by omega)]
    · rfl
    · rw [hvalue, List.length_append]
      rintro (hlong | hcut)
      · exact hshort hlong
      · omega

/-- A name is skipped label by label. The loop has passed `seen` labels before these. -/
def skipRound (buf : Bytes) (len : ℕ) : ℕ × ℕ → Checked (Round (ℕ × ℕ) (Option ℕ)) := fun (off, seen) =>
  if off < len then do
    let b ← index buf off
    if b = 0 then pure (.done (some (off + 1)))
    else if b &&& 0xc0 = 0xc0 then
      if off + 1 ≥ len then pure (.done none) else pure (.done (some (off + 2)))
    else
      let l := b.toNat
      if off + 1 + l > len then pure (.done none)
      else do
        let seen ← add (2 ^ 32) seen 1
        if seen > 128 then pure (.done none) else pure (.next (off + 1 + l, seen))
  else pure (.done none)

theorem dnsSkipName_eq (buf : Bytes) (len off : ℕ) :
    dnsSkipName buf len off = loop (skipRound buf len) (len - off + 1) (off, 0) := rfl

theorem plainLength : ∀ b : UInt8, b ≤ 63 → b &&& 0xc0 ≠ 0xc0 := forall_byte (by decide +kernel)

theorem skipName_wire (h : ∀ label ∈ labels, HostLabel label) {seen fuel : ℕ}
    (hbuf : buf.drop off = wireLabels labels ++ 0 :: rest) (hseen : seen ≤ 128) (hfuel : labels.length < fuel) :
    loop (skipRound buf buf.length) fuel (off, seen) =
      .ok (if seen + labels.length ≤ 128 then some (off + (wireLabels labels).length + 1) else none) := by
  induction labels generalizing off seen fuel with
  | nil =>
    obtain ⟨fuel, rfl⟩ : ∃ n, fuel = n + 1 := ⟨fuel - 1, by omega⟩
    obtain ⟨hoff, hindex⟩ := index_of_drop hbuf
    rw [loop]
    simp [skipRound, hoff, hindex, hseen, wireLabels]
    rfl
  | cons label labels ih =>
    obtain ⟨fuel, rfl⟩ : ∃ n, fuel = n + 1 := ⟨fuel - 1, by omega⟩
    obtain ⟨hlabel, hmore⟩ := List.forall_mem_cons.mp h
    obtain ⟨hvalue, hne, hshort⟩ := labelLength hlabel
    rw [wireLabels_cons, List.cons_append, List.cons_append, List.append_assoc] at hbuf
    obtain ⟨hoff, hindex⟩ := index_of_drop hbuf
    have hmask : ¬ UInt8.ofNat label.length &&& 0xc0 = 0xc0 := plainLength _ (UInt8.not_lt.mp hshort)
    have hlength := congrArg List.length hbuf
    rw [List.length_drop, List.length_cons, List.length_append, List.length_append, List.length_cons] at hlength
    have hnext : buf.drop (off + 1 + label.length) = wireLabels labels ++ 0 :: rest := by
      rw [Nat.add_assoc, ← List.drop_drop, hbuf, Nat.add_comm 1, List.drop_succ_cons, List.drop_left]
    have hadd : add (2 ^ 32) seen 1 = .ok (seen + 1) := if_pos (by omega)
    rw [List.length_cons] at hfuel
    rw [loop]
    simp only [skipRound, hoff, if_true, hindex, ok_bind, if_neg hne, if_neg hmask, hvalue, hadd]
    rw [if_neg (by omega)]
    by_cases hfull : seen + 1 ≤ 128
    · rw [if_neg (by omega)]
      change loop (skipRound buf buf.length) fuel (off + 1 + label.length, seen + 1) = _
      rw [ih hmore hnext hfull (by omega), wireLabels_cons, List.length_append, List.length_cons, List.length_cons]
      congr 2
      · exact propext (by omega)
      · congr 1
        omega
    · rw [if_pos (by omega), if_neg (by rw [List.length_cons]; omega)]
      rfl

/-- Skipping a name comes to an end on any message, and what it returns lies behind the start and within the message. -/
theorem dnsSkipName_ends (buf : Bytes) (len off : ℕ) :
    Ends (dnsSkipName buf len off) fun r => ∀ next, r = some next → off < next ∧ next ≤ len := by
  have hnone : ∀ next : ℕ, none = some next → off < next ∧ next ≤ len := by simp
  rw [dnsSkipName_eq]
  refine ends_loop (fun s => off ≤ s.1 ∧ s.2 ≤ 128) (fun s => len - s.1) ?_ ⟨le_rfl, Nat.zero_le _⟩ (Nat.lt_succ_self _)
  rintro ⟨at_, seen⟩ ⟨hstart, hseen⟩
  dsimp only at hstart hseen
  apply Ends.ite
  swap
  · exact fun _ => ends_pure hnone
  intro hin
  apply Ends.bind (ends_index buf at_)
  intro b _
  apply Ends.ite
  · intro _
    apply ends_pure
    rintro next ⟨⟩
    omega
  intro _
  apply Ends.ite
  · intro _
    apply Ends.ite
    · exact fun _ => ends_pure hnone
    · intro hroom
      apply ends_pure
      rintro next ⟨⟩
      omega
  intro _
  apply Ends.ite
  · exact fun _ => ends_pure hnone
  intro hroom
  apply Ends.bind (Returns.ends (returns_add.mpr ⟨by omega, rfl⟩))
  rintro seen rfl
  apply Ends.ite
  · exact fun _ => ends_pure hnone
  intro hmore
  apply ends_pure
  rw [roundPost_next]
  dsimp only
  omega

end Read

section Queries

variable {name : Bytes} {id : ℕ}

/-- The longest name for which a query fits the buffer. -/
def hostNameMax : ℕ := 1518

/-- The most labels that are passed when a name is skipped. -/
def skippedLabels : ℕ := 128

/-- A query is built for the name, and its labels are read back. -/
def ReadsBack (name : Bytes) (id : ℕ) : Prop :=
  dnsBuildQuery dnsBufLen name id ≠ [] ∧ readName (dnsBuildQuery dnsBufLen name id) 12 = some name

/-- Skipping the name in the query ends in front of the four bytes of its type and class. -/
def SkipsName (name : Bytes) (id : ℕ) : Prop :=
  dnsSkipName (dnsBuildQuery dnsBufLen name id) (dnsBuildQuery dnsBufLen name id).length 12 =
    .ok (some ((dnsBuildQuery dnsBufLen name id).length - 4))

/-- Every host name of at most `limit` bytes is encoded. -/
def EncodesNames (limit : ℕ) : Prop :=
  ∀ name id, HostName name → name.length ≤ limit → ReadsBack name id ∧ SkipsName name id

/-- No query is built for any other name. -/
def RefusesOthers (limit : ℕ) : Prop :=
  ∀ name id, ¬ (HostName name ∧ name.length ≤ limit) → dnsBuildQuery dnsBufLen name id = []

def SkipEnds : Prop :=
  ∀ buf len off, Ends (dnsSkipName buf len off) fun r => ∀ next, r = some next → off < next ∧ next ≤ len

theorem query_of_hostName (hname : HostName name) (hlength : name.length ≤ hostNameMax) (id : ℕ) :
    dnsBuildQuery dnsBufLen name id = dnsHeader id ++ (wireLabels (name.splitOn dot) ++ 0 :: [0, 1, 0, 1]) := by
  unfold hostNameMax at hlength
  rcases dnsBuildQuery_eq (show 12 < dnsBufLen by decide) name id with ⟨-, -, hquery⟩ | ⟨hno, -⟩
  · rw [hquery, dnsWireName_eq, List.append_assoc]
    rfl
  · exact absurd ⟨hname, by unfold dnsBufLen; omega⟩ hno

theorem wireLabels_ge (labels : List Bytes) : labels.length ≤ (wireLabels labels).length := by
  induction labels with
  | nil => exact Nat.zero_le _
  | cons label labels ih =>
    rw [wireLabels_cons, List.length_append, List.length_cons, List.length_cons]
    omega

theorem hostName_readsBack (hname : HostName name) (hlength : name.length ≤ hostNameMax) (id : ℕ) :
    ReadsBack name id := by
  have hquery := query_of_hostName hname hlength id
  constructor
  · rw [hquery]
    simp [dnsHeader]
  · have hge := wireLabels_ge (name.splitOn dot)
    rw [hquery, readName, ← dnsHeader_length id, List.drop_left, readLabels_wire hname, Option.map_some,
      List.intercalate_splitOn]
    simp only [List.length_append, List.length_cons, dnsHeader_length]
    omega

/-- The labels of a name are counted when it is skipped. -/
theorem hostName_skipped (hname : HostName name) (hlength : name.length ≤ hostNameMax) (id : ℕ) :
    SkipsName name id ↔ (name.splitOn dot).length ≤ skippedLabels := by
  have hquery := query_of_hostName hname hlength id
  have hge := wireLabels_ge (name.splitOn dot)
  have hdrop : (dnsBuildQuery dnsBufLen name id).drop 12 = wireLabels (name.splitOn dot) ++ 0 :: [0, 1, 0, 1] := by
    rw [hquery, ← dnsHeader_length id, List.drop_left]
  have hsize : (dnsBuildQuery dnsBufLen name id).length = 12 + (wireLabels (name.splitOn dot)).length + 5 := by
    rw [hquery, List.length_append, List.length_append, dnsHeader_length, Nat.add_assoc]
    rfl
  have hskip := skipName_wire hname hdrop (Nat.zero_le 128)
    (show (name.splitOn dot).length < (dnsBuildQuery dnsBufLen name id).length - 12 + 1 by omega)
  unfold SkipsName skippedLabels
  rw [dnsSkipName_eq, hskip, Nat.zero_add, hsize]
  by_cases hfew : (name.splitOn dot).length ≤ 128
  · rw [if_pos hfew]
    simp only [hfew, iff_true]
    congr 2
  · rw [if_neg hfew]
    simp [hfew]

theorem others_refused (hname : ¬ (HostName name ∧ name.length ≤ hostNameMax)) (id : ℕ) :
    dnsBuildQuery dnsBufLen name id = [] := by
  rcases dnsBuildQuery_eq (show 12 < dnsBufLen by decide) name id with ⟨hhost, hfits, -⟩ | ⟨-, hquery⟩
  · unfold dnsBufLen at hfits
    exact absurd ⟨hhost, by unfold hostNameMax; omega⟩ hname
  · exact hquery

/-- Host names of at most 1518 bytes are encoded and no other names; a name is skipped up to 128 labels. -/
theorem dns_query_encodes :
    (∀ name id, HostName name → name.length ≤ hostNameMax →
      ReadsBack name id ∧ (SkipsName name id ↔ (name.splitOn dot).length ≤ skippedLabels)) ∧
    RefusesOthers hostNameMax ∧ SkipEnds := by
  refine ⟨?_, fun name id hname => others_refused hname id, dnsSkipName_ends⟩
  exact fun name id hname hlength => ⟨hostName_readsBack hname hlength id, hostName_skipped hname hlength id⟩

/-- A name of letters with dots between them. -/
def lettersName (count : ℕ) : Bytes := [dot].intercalate (List.replicate count [97])

theorem lettersName_split {count : ℕ} (h : count ≠ 0) : (lettersName count).splitOn dot = List.replicate count [97] := by
  apply List.splitOn_intercalate
  · intro label hlabel
    rw [List.eq_of_mem_replicate hlabel]
    decide
  · simpa using h

theorem lettersName_host {count : ℕ} (h : count ≠ 0) : HostName (lettersName count) := by
  intro label hlabel
  rw [lettersName_split h] at hlabel
  rw [List.eq_of_mem_replicate hlabel]
  exact ⟨by simp, by simp, by simp [isDnsLabelByte]⟩

theorem lettersName_length {count : ℕ} (h : count ≠ 0) : (lettersName count).length + 1 = 2 * count := by
  have hwire := wireName_length (lettersName count)
  rw [lettersName_split h] at hwire
  rw [← hwire, wireLabels, List.length_flatMap]
  simp
  omega

/-- A name of 129 letters is not skipped, and one of 300 letters, which has 599 bytes, is not refused. -/
theorem dns_query_limits : ¬ EncodesNames 512 ∧ ¬ RefusesOthers 512 := by
  constructor
  · intro hencodes
    have hlength := lettersName_length (show 129 ≠ 0 by decide)
    have hhost := lettersName_host (show 129 ≠ 0 by decide)
    obtain ⟨-, hskips⟩ := hencodes (lettersName 129) 0 hhost (by omega)
    have hfew := (hostName_skipped hhost (by unfold hostNameMax; omega) 0).mp hskips
    rw [lettersName_split (by decide), List.length_replicate] at hfew
    exact absurd hfew (by decide)
  · intro hrefuses
    have hlength := lettersName_length (show 300 ≠ 0 by decide)
    have hhost := lettersName_host (show 300 ≠ 0 by decide)
    apply (hostName_readsBack hhost (by unfold hostNameMax; omega) 0).1
    exact hrefuses (lettersName 300) 0 fun h => absurd h.2 (by omega)

end Queries

end MiniAgentOS.Fetch
