import MiniAgentOS.Agent.MemoryStore

/-! What the model and the tools see of the retained memory: lines of the prompt within a budget, and
JSON texts in the buffer of a tool result. -/
namespace MiniAgentOS.Agent
open Checked

section Lines

def promptLineMax : ℕ := 896

/-- `copy_utf8_prefix` behind what is written. -/
def appendUtf8 (capacity : ℕ) (out text : Bytes) : Bytes := out ++ copyUtf8Prefix (capacity - out.length) text

/-- The line of a slot. -/
def promptLine (slot : MemorySlot) : Bytes :=
  let line := fillBuffer promptLineMax [ascii "- [", kindName slot.kind, ascii "/", stateName slot.state, ascii "] "]
  let line := appendUtf8 promptLineMax line slot.summary
  let line :=
    if slot.detail = [] then line
    else appendUtf8 promptLineMax (appendBytes promptLineMax line (ascii " | ")) slot.detail
  appendBytes promptLineMax line [lf]

def appendEntryPromptLine (capacity : ℕ) (out : Bytes) (slot : MemorySlot) (remaining : ℕ) : Bytes :=
  let line := promptLine slot
  appendBytes capacity out (copyUtf8Prefix (min remaining line.length) line)

/-- The loop of `append_slots_to`, which began with `start` bytes in the buffer. -/
def appendSlotsFrom (capacity budget start : ℕ) (m : Memory) : Bytes → List SlotId → Bytes
  | out, [] => out
  | out, name :: names =>
    if out.length - start < budget then
      let slot := m.slot name
      let out :=
        if slot.kind ≠ .none ∧ slot.summary ≠ [] then
          appendEntryPromptLine capacity out slot (budget - (out.length - start))
        else out
      appendSlotsFrom capacity budget start m out names
    else out

def appendSlotsTo (capacity : ℕ) (out : Bytes) (names : List SlotId) (budget : ℕ) (m : Memory) : Bytes :=
  appendSlotsFrom capacity budget out.length m out names

def appendWorkingMemoryTo (capacity : ℕ) (out : Bytes) (budget : ℕ) (m : Memory) : Bytes :=
  appendSlotsTo capacity out [.task, .execution, .conversation] budget m

def appendKnownSourcesTo (capacity : ℕ) (out : Bytes) (budget : ℕ) (m : Memory) : Bytes :=
  appendSlotsTo capacity out [.source] budget m

def appendWorkspaceMemoryTo (capacity : ℕ) (out : Bytes) (budget : ℕ) (m : Memory) : Bytes :=
  appendSlotsTo capacity out [.workspace] budget m

/-- A text behind the buffer, within the budget; where the buffer has room for the budget, it is
well-formed. -/
def WritesWithin (capacity budget : ℕ) (out out' : Bytes) : Prop :=
  ∃ text, out' = out ++ text ∧ text.length ≤ budget ∧ (out.length + budget ≤ capacity → Utf8 text)

theorem appendSlotsFrom_within {capacity budget : ℕ} {base : Bytes} (m : Memory) (names : List SlotId) {out : Bytes}
    (h : WritesWithin capacity budget base out) :
    WritesWithin capacity budget base (appendSlotsFrom capacity budget base.length m out names) := by
  induction names generalizing out with
  | nil => exact h
  | cons name names ih =>
    rw [appendSlotsFrom]
    split_ifs with hbudget
    swap
    · exact h
    dsimp only
    apply ih
    split_ifs with hlisted
    swap
    · exact h
    obtain ⟨text, rfl, hlen, hvalid⟩ := h
    rw [List.length_append] at hbudget
    unfold appendEntryPromptLine appendBytes
    dsimp only
    rw [List.length_append, Nat.add_sub_cancel_left]
    generalize promptLine (m.slot name) = line
    have hcopy := copyUtf8Prefix_length_le (min (budget - text.length) line.length) line
    refine ⟨text ++ (copyUtf8Prefix (min (budget - text.length) line.length) line).take
      (capacity - (base.length + text.length)), ?_, ?_, fun hroom => ?_⟩
    · rw [List.append_assoc]
    · rw [List.length_append, List.length_take]
      omega
    · rw [List.take_of_length_le (by omega)]
      exact (hvalid hroom).append (copyUtf8Prefix_utf8 _ _)

/-- What the slots add to a buffer. -/
theorem appendSlotsTo_within (capacity : ℕ) (out : Bytes) (names : List SlotId) (budget : ℕ) (m : Memory) :
    WritesWithin capacity budget out (appendSlotsTo capacity out names budget m) :=
  appendSlotsFrom_within m names ⟨[], (List.append_nil out).symm, Nat.zero_le _, fun _ => .nil⟩

end Lines

section Json

def toolResultLimit : ℕ := 8192

def estimateTokens (chars : ℕ) : ℕ := if chars = 0 then 0 else (chars + 3) / 4

def appendEntryJson (capacity : ℕ) (out : Bytes) (slot : MemorySlot) (includeDetail : Bool) : Bytes :=
  let out := appendBytes capacity out (ascii "\x7b\"id\":\"")
  let out := jsonEscapeAppend capacity out slot.id
  let out := appendBytes capacity out (ascii "\",\"kind\":\"")
  let out := appendBytes capacity out (kindName slot.kind)
  let out := appendBytes capacity out (ascii "\",\"summary\":\"")
  let out := jsonEscapeAppend capacity out slot.summary
  let out :=
    if includeDetail then
      let out := appendBytes capacity out (ascii "\",\"detail\":\"")
      jsonEscapeAppend capacity out slot.detail
    else out
  let out := appendBytes capacity out (ascii "\",\"source\":\"")
  let out := jsonEscapeAppend capacity out slot.source
  let out := appendBytes capacity out (ascii "\",\"state\":\"")
  let out := appendBytes capacity out (stateName slot.state)
  let out := appendBytes capacity out (ascii "\",\"created_turn\":")
  let out := appendBytes capacity out (u64ToDec slot.createdTurn)
  let out := appendBytes capacity out (ascii ",\"updated_turn\":")
  let out := appendBytes capacity out (u64ToDec slot.updatedTurn)
  let chars := slot.summary.length + slot.detail.length
  let out := appendBytes capacity out (ascii ",\"chars\":")
  let out := appendBytes capacity out (u64ToDec chars)
  let out := appendBytes capacity out (ascii ",\"estimated_tokens\":")
  let out := appendBytes capacity out (u64ToDec (estimateTokens chars))
  appendBytes capacity out (ascii "\x7d")

/-- The entry of a slot. -/
def entryJson (slot : MemorySlot) (includeDetail : Bool) : Json :=
  let detail := if includeDetail then [(ascii "detail", .str slot.detail)] else []
  let chars := slot.summary.length + slot.detail.length
  .obj ([(ascii "id", .str slot.id), (ascii "kind", .str (kindName slot.kind)),
    (ascii "summary", .str slot.summary)] ++ detail ++
    [(ascii "source", .str slot.source), (ascii "state", .str (stateName slot.state)),
    (ascii "created_turn", .num slot.createdTurn), (ascii "updated_turn", .num slot.updatedTurn),
    (ascii "chars", .num chars), (ascii "estimated_tokens", .num (estimateTokens chars))])

theorem compactMember_ascii {s : String} {l : List Char} (h : s = String.ofList l) (hl : l.all PlainChar = true)
    (v : Json) : compactMember (ascii s, v) = quote :: ascii s ++ [quote] ++ colon :: v.compact := by
  rw [compactMember, (plain_ascii h hl).escape]

theorem kindName_plain (kind : MemoryKind) : PlainText (kindName kind) := by
  cases kind <;> exact plain_ascii rfl (by decide)

theorem stateName_plain (state : MemoryState) : PlainText (stateName state) := by
  cases state <;> exact plain_ascii rfl (by decide)

/-- The text of an entry, as its pieces are written. -/
def entryText (slot : MemorySlot) (includeDetail : Bool) : Bytes :=
  let detail := if includeDetail then ascii "\",\"detail\":\"" ++ jsonEscape slot.detail else []
  let chars := slot.summary.length + slot.detail.length
  ascii "\x7b\"id\":\"" ++ jsonEscape slot.id ++ ascii "\",\"kind\":\"" ++ kindName slot.kind ++
    ascii "\",\"summary\":\"" ++ jsonEscape slot.summary ++ detail ++ ascii "\",\"source\":\"" ++
    jsonEscape slot.source ++ ascii "\",\"state\":\"" ++ stateName slot.state ++ ascii "\",\"created_turn\":" ++
    u64ToDec slot.createdTurn ++ ascii ",\"updated_turn\":" ++ u64ToDec slot.updatedTurn ++ ascii ",\"chars\":" ++
    u64ToDec chars ++ ascii ",\"estimated_tokens\":" ++ u64ToDec (estimateTokens chars) ++ ascii "\x7d"

theorem appendEntryJson_text (capacity : ℕ) (slot : MemorySlot) (includeDetail : Bool) :
    Writes capacity (fun out => appendEntryJson capacity out slot includeDetail) (entryText slot includeDetail) := by
  have hdetail : Writes capacity (fun out => if includeDetail then
      jsonEscapeAppend capacity (appendBytes capacity out (ascii "\",\"detail\":\"")) slot.detail else out)
      (if includeDetail then ascii "\",\"detail\":\"" ++ jsonEscape slot.detail else []) := by
    cases includeDetail with
    | true => exact ((Writes.start capacity).bytes _).escape _
    | false => exact Writes.start capacity
  unfold appendEntryJson entryText
  exact ((((((((((((((((((((Writes.start capacity).bytes _).escape _).bytes _).bytes _).bytes _).escape _).append
    hdetail).bytes _).escape _).bytes _).bytes _).bytes _).bytes _).bytes _).bytes _).bytes _).bytes _).bytes _).bytes
      _).bytes _

/-- The pieces of the literals of `append_entry_json`. -/
theorem entryPieces : ascii "\x7b\"id\":\"" = openBrace :: quote :: ascii "id" ++ [quote, colon, quote] ∧
    ascii "\",\"kind\":\"" = quote :: comma :: quote :: ascii "kind" ++ [quote, colon, quote] ∧
    ascii "\",\"summary\":\"" = quote :: comma :: quote :: ascii "summary" ++ [quote, colon, quote] ∧
    ascii "\",\"detail\":\"" = quote :: comma :: quote :: ascii "detail" ++ [quote, colon, quote] ∧
    ascii "\",\"source\":\"" = quote :: comma :: quote :: ascii "source" ++ [quote, colon, quote] ∧
    ascii "\",\"state\":\"" = quote :: comma :: quote :: ascii "state" ++ [quote, colon, quote] ∧
    ascii "\",\"created_turn\":" = quote :: comma :: quote :: ascii "created_turn" ++ [quote, colon] ∧
    ascii ",\"updated_turn\":" = comma :: quote :: ascii "updated_turn" ++ [quote, colon] ∧
    ascii ",\"chars\":" = comma :: quote :: ascii "chars" ++ [quote, colon] ∧
    ascii ",\"estimated_tokens\":" = comma :: quote :: ascii "estimated_tokens" ++ [quote, colon] ∧
    ascii "\x7d" = [closeBrace] := by
  refine ⟨?_, ?_, ?_, ?_, ?_, ?_, ?_, ?_, ?_, ?_, ascii_eq rfl⟩ <;>
    · rw [ascii_eq rfl, ascii_eq rfl]
      rfl

/-- An entry is written as the compact text of its value. -/
theorem entryText_compact (slot : MemorySlot) (includeDetail : Bool) :
    entryText slot includeDetail = (entryJson slot includeDetail).compact := by
  have hid := compactMember_ascii (s := "id") rfl (by decide)
  have hkind := compactMember_ascii (s := "kind") rfl (by decide)
  have hsummary := compactMember_ascii (s := "summary") rfl (by decide)
  have hdetail := compactMember_ascii (s := "detail") rfl (by decide)
  have hsource := compactMember_ascii (s := "source") rfl (by decide)
  have hstate := compactMember_ascii (s := "state") rfl (by decide)
  have hcreated := compactMember_ascii (s := "created_turn") rfl (by decide)
  have hupdated := compactMember_ascii (s := "updated_turn") rfl (by decide)
  have hchars := compactMember_ascii (s := "chars") rfl (by decide)
  have htokens := compactMember_ascii (s := "estimated_tokens") rfl (by decide)
  have hkindName := (kindName_plain slot.kind).escape
  have hstateName := (stateName_plain slot.state).escape
  obtain ⟨hid', hkind', hsummary', hdetail', hsource', hstate', hcreated', hupdated', hchars', htokens', hend⟩ :=
    entryPieces
  unfold entryText entryJson
  cases includeDetail with
  | false =>
    simp -implicitDefEqProofs only [Bool.false_eq_true, if_false, Json.compact, compactMembers, hid, hkind, hsummary, hsource, hstate,
      hcreated, hupdated, hchars, htokens, hkindName, hstateName, hid', hkind', hsummary', hsource', hstate',
      hcreated', hupdated', hchars', htokens', hend, List.append_assoc, List.cons_append, List.nil_append]
  | true =>
    simp -implicitDefEqProofs only [if_true, Json.compact, compactMembers, hid, hkind, hsummary, hdetail, hsource, hstate, hcreated,
      hupdated, hchars, htokens, hkindName, hstateName, hid', hkind', hsummary', hdetail', hsource', hstate',
      hcreated', hupdated', hchars', htokens', hend, List.append_assoc, List.cons_append, List.nil_append]

/-- Whether a slot is listed. -/
def Listed (kind : Bytes) (slot : MemorySlot) : Bool :=
  slot.kind ≠ .none ∧ slot.summary ≠ [] ∧ (kind = [] ∨ kindName slot.kind = kind)

/-- The loop of `build_list_memory_json`; `count` entries are written. -/
def appendEntries (capacity : ℕ) (kind : Bytes) (slot : SlotId → MemorySlot) : ℕ → Bytes → List SlotId → Bytes
  | _, out, [] => out
  | count, out, name :: names =>
    if Listed kind (slot name) then
      let out := if count = 0 then out else appendBytes capacity out [comma]
      appendEntries capacity kind slot (count + 1) (appendEntryJson capacity out (slot name) false) names
    else appendEntries capacity kind slot count out names

def buildListMemoryJson (capacity : ℕ) (kind : Bytes) (m : Memory) : Bytes :=
  let m := ensureStarted m
  let out := appendBytes capacity [] (ascii "\x7b\"ok\":true,\"entries\":[")
  let out := appendEntries capacity kind m.slot 0 out SlotId.all
  appendBytes capacity out (ascii "],\"truncated\":false\x7d")

def slotFromId (id : Bytes) (slot : SlotId → MemorySlot) : Option SlotId := SlotId.all.find? fun name => (slot name).id = id

def unknownMemoryId : Bytes :=
  ascii "\x7b\"ok\":false,\"error\":\x7b\"code\":\"unknown_memory_id\",\"message\":\"memory entry was not found\"\x7d\x7d"

def buildReadMemoryJson (capacity : ℕ) (id : Bytes) (m : Memory) : Bytes :=
  let m := ensureStarted m
  match slotFromId id m.slot with
  | none => appendBytes capacity [] unknownMemoryId
  | some name =>
    let out := appendBytes capacity [] (ascii "\x7b\"ok\":true,\"entry\":")
    let out := appendEntryJson capacity out (m.slot name) true
    appendBytes capacity out (ascii "\x7d")

/-- The entries of the slots that are listed. -/
def listedEntries (kind : Bytes) (slot : SlotId → MemorySlot) : List SlotId → List Json
  | [] => []
  | name :: names =>
    if Listed kind (slot name) then entryJson (slot name) false :: listedEntries kind slot names
    else listedEntries kind slot names

/-- What `list_memory` answers. -/
def listJson (kind : Bytes) (slot : SlotId → MemorySlot) : Json :=
  .obj [(ascii "ok", .bool true), (ascii "entries", .arr (listedEntries kind slot SlotId.all)),
    (ascii "truncated", .bool false)]

/-- What `read_memory` answers. -/
def readJson (id : Bytes) (slot : SlotId → MemorySlot) : Json :=
  match slotFromId id slot with
  | none => .obj [(ascii "ok", .bool false), (ascii "error", .obj [(ascii "code", .str (ascii "unknown_memory_id")),
      (ascii "message", .str (ascii "memory entry was not found"))])]
  | some name => .obj [(ascii "ok", .bool true), (ascii "entry", entryJson (slot name) true)]

variable {capacity : ℕ} {kind : Bytes} {slot : SlotId → MemorySlot}

/-- Items behind others, each with a comma before it. -/
def tailItems : List Json → Bytes
  | [] => []
  | v :: items => comma :: v.compact ++ tailItems items

theorem compactItems_cons (v : Json) (items : List Json) : compactItems (v :: items) = v.compact ++ tailItems items := by
  induction items generalizing v with
  | nil => exact (List.append_nil _).symm
  | cons w items ih =>
    rw [compactItems, ih w]
    rfl

theorem appendEntries_tail (kind : Bytes) (slot : SlotId → MemorySlot) (names : List SlotId) (count : ℕ) :
    Writes capacity (fun out => appendEntries capacity kind slot (count + 1) out names)
      (tailItems (listedEntries kind slot names)) := by
  induction names generalizing count with
  | nil => exact Writes.start capacity
  | cons name names ih =>
    unfold appendEntries listedEntries
    split_ifs with hlisted hfirst
    · exact hfirst.elim
    · have hentry := appendEntryJson_text capacity (slot name) false
      rw [entryText_compact] at hentry
      exact ((((Writes.start capacity).bytes [comma]).append hentry).append (ih (count + 1))).of_eq rfl
    · exact ih count

theorem appendEntries_writes (kind : Bytes) (slot : SlotId → MemorySlot) (names : List SlotId) :
    Writes capacity (fun out => appendEntries capacity kind slot 0 out names)
      (compactItems (listedEntries kind slot names)) := by
  induction names with
  | nil => exact Writes.start capacity
  | cons name names ih =>
    unfold appendEntries listedEntries
    split_ifs with hlisted hfirst
    · have hentry := appendEntryJson_text capacity (slot name) false
      rw [entryText_compact] at hentry
      rw [compactItems_cons]
      exact hentry.append (appendEntries_tail kind slot names 0)
    · exact absurd rfl hfirst
    · exact ih

theorem listJson_compact (kind : Bytes) (slot : SlotId → MemorySlot) : (listJson kind slot).compact =
    ascii "\x7b\"ok\":true,\"entries\":[" ++ compactItems (listedEntries kind slot SlotId.all) ++
      ascii "],\"truncated\":false\x7d" := by
  have hok := compactMember_ascii (s := "ok") rfl (by decide)
  have hentries := compactMember_ascii (s := "entries") rfl (by decide)
  have htruncated := compactMember_ascii (s := "truncated") rfl (by decide)
  have hopening : ascii "\x7b\"ok\":true,\"entries\":[" = openBrace :: quote :: ascii "ok" ++
      quote :: colon :: ascii "true" ++ comma :: quote :: ascii "entries" ++ [quote, colon, 91] := by
    rw [ascii_eq rfl, ascii_eq rfl, ascii_eq rfl, ascii_eq rfl]
    rfl
  have hclosing : ascii "],\"truncated\":false\x7d" = 93 :: comma :: quote :: ascii "truncated" ++
      quote :: colon :: ascii "false" ++ [closeBrace] := by
    rw [ascii_eq rfl, ascii_eq rfl, ascii_eq rfl]
    rfl
  simp -implicitDefEqProofs only [listJson, Json.compact, compactMembers, hok, hentries, htruncated, hopening, hclosing,
    List.append_assoc, List.cons_append, List.nil_append]

/-- In a buffer with room for it, the list is written as the compact text of its value. -/
theorem buildListMemoryJson_eq (m : Memory)
    (hroom : ((listJson kind (ensureStarted m).slot).compact).length ≤ capacity) :
    buildListMemoryJson capacity kind m = (listJson kind (ensureStarted m).slot).compact := by
  have hwrites := (((Writes.start capacity).bytes (ascii "\x7b\"ok\":true,\"entries\":[")).append
    (appendEntries_writes kind (ensureStarted m).slot SlotId.all)).bytes (ascii "],\"truncated\":false\x7d")
  have hlist := hwrites.of_eq (listJson_compact kind (ensureStarted m).slot).symm [] (by simpa using hroom)
  exact hlist

theorem unknownMemoryId_compact : unknownMemoryId = (Json.obj [(ascii "ok", .bool false),
    (ascii "error", .obj [(ascii "code", .str (ascii "unknown_memory_id")),
      (ascii "message", .str (ascii "memory entry was not found"))])]).compact := by
  have hok := compactMember_ascii (s := "ok") rfl (by decide)
  have herror := compactMember_ascii (s := "error") rfl (by decide)
  have hcode := compactMember_ascii (s := "code") rfl (by decide)
  have hmessage := compactMember_ascii (s := "message") rfl (by decide)
  have hunknown := (plain_ascii (s := "unknown_memory_id") rfl (by decide)).escape
  have hfound := (plain_ascii (s := "memory entry was not found") rfl (by decide)).escape
  simp only [Json.compact, compactMembers, hok, herror, hcode, hmessage, hunknown, hfound]
  unfold unknownMemoryId
  rw [ascii_eq rfl, ascii_eq rfl, ascii_eq rfl, ascii_eq rfl, ascii_eq rfl, ascii_eq rfl, ascii_eq rfl, ascii_eq rfl]
  rfl

theorem readEntry_compact (entry : Json) : (Json.obj [(ascii "ok", .bool true), (ascii "entry", entry)]).compact =
    ascii "\x7b\"ok\":true,\"entry\":" ++ entry.compact ++ ascii "\x7d" := by
  have hok := compactMember_ascii (s := "ok") rfl (by decide)
  have hentry := compactMember_ascii (s := "entry") rfl (by decide)
  have hopening : ascii "\x7b\"ok\":true,\"entry\":" = openBrace :: quote :: ascii "ok" ++
      quote :: colon :: ascii "true" ++ comma :: quote :: ascii "entry" ++ [quote, colon] := by
    rw [ascii_eq rfl, ascii_eq rfl, ascii_eq rfl, ascii_eq rfl]
    rfl
  have hclosing : ascii "\x7d" = [closeBrace] := ascii_eq rfl
  simp -implicitDefEqProofs only [Json.compact, compactMembers, hok, hentry, hopening, hclosing, List.append_assoc, List.cons_append,
    List.nil_append]

theorem buildReadMemoryJson_eq (m : Memory) (id : Bytes)
    (hroom : ((readJson id (ensureStarted m).slot).compact).length ≤ capacity) :
    buildReadMemoryJson capacity id m = (readJson id (ensureStarted m).slot).compact := by
  unfold buildReadMemoryJson
  dsimp only
  generalize (ensureStarted m).slot = slot at hroom ⊢
  unfold readJson at hroom ⊢
  cases hslot : slotFromId id slot with
  | none =>
    rw [hslot] at hroom
    dsimp only at hroom ⊢
    rw [← unknownMemoryId_compact] at hroom ⊢
    exact appendBytes_eq (by simpa using hroom)
  | some name =>
    rw [hslot] at hroom
    dsimp only at hroom ⊢
    have hentry := appendEntryJson_text capacity (slot name) true
    rw [entryText_compact] at hentry
    have hwrites := (((Writes.start capacity).bytes (ascii "\x7b\"ok\":true,\"entry\":")).append hentry).bytes
      (ascii "\x7d")
    have hread := hwrites.of_eq (readEntry_compact _).symm [] (by simpa using hroom)
    exact hread

end Json

section Bounds

variable {slot : MemorySlot} {name : SlotId} {first : Option ℕ}

/-- The bytes of an entry in a list. -/
def entryMax : SlotId → ℕ
  | .task => 1312
  | .source => 1841
  | .workspace => 1833
  | .execution => 1812
  | .conversation => 1333

theorem slotIdBytes_plain (name : SlotId) : PlainText (slotIdBytes name) := by
  cases name <;> exact plain_ascii rfl (by decide)

theorem SlotOk.texts (h : SlotOk name first slot) : Utf8 slot.id ∧ Utf8 slot.summary ∧ Utf8 slot.detail ∧
    Utf8 slot.source := by
  cases h with
  | empty => exact ⟨.nil, .nil, .nil, .nil⟩
  | written h => exact ⟨h.id ▸ (slotIdBytes_plain name).utf8, h.summary.1, h.detail.1, h.source.1⟩

theorem SlotOk.lengths (h : SlotOk name first slot) : slot.summary.length ≤ 192 ∧ slot.detail.length ≤ 512 := by
  cases h with
  | empty => exact ⟨Nat.zero_le _, Nat.zero_le _⟩
  | written h => exact ⟨h.summary.2, h.detail.2⟩

theorem estimateTokens_le (chars : ℕ) : estimateTokens chars ≤ chars := by
  unfold estimateTokens
  split_ifs <;> omega

theorem entryJson_valid (h : SlotOk name first slot) (hfits : SlotFits name slot) (includeDetail : Bool) :
    (entryJson slot includeDetail).Valid := by
  have hkey : ∀ {s : String} {l : List Char}, s = String.ofList l → l.all PlainChar = true → Utf8 (ascii s) :=
    fun hs hl => (plain_ascii hs hl).utf8
  obtain ⟨hid, hsummary, hdetail, hsource⟩ := h.texts
  obtain ⟨hlen, hlen'⟩ := h.lengths
  obtain ⟨hcreated, hupdated⟩ := hfits.turns
  have htokens := estimateTokens_le (slot.summary.length + slot.detail.length)
  have hrest : MembersValid [(ascii "source", .str slot.source), (ascii "state", .str (stateName slot.state)),
      (ascii "created_turn", .num slot.createdTurn), (ascii "updated_turn", .num slot.updatedTurn),
      (ascii "chars", .num (slot.summary.length + slot.detail.length)),
      (ascii "estimated_tokens", .num (estimateTokens (slot.summary.length + slot.detail.length)))] := by
    refine ⟨⟨hkey rfl (by decide), hsource⟩, ⟨hkey rfl (by decide), (stateName_plain _).utf8⟩,
      ⟨hkey rfl (by decide), ?_⟩, ⟨hkey rfl (by decide), ?_⟩, ⟨hkey rfl (by decide), ?_⟩,
      ⟨hkey rfl (by decide), ?_⟩, trivial⟩
    · exact hcreated.trans (by decide)
    · exact hupdated.trans (by decide)
    · change _ < 10 ^ 20
      omega
    · change _ < 10 ^ 20
      omega
  have hids : MemberValid (ascii "id", .str slot.id) := ⟨hkey rfl (by decide), hid⟩
  have hkinds : MemberValid (ascii "kind", .str (kindName slot.kind)) :=
    ⟨hkey rfl (by decide), (kindName_plain _).utf8⟩
  have hsummaries : MemberValid (ascii "summary", .str slot.summary) := ⟨hkey rfl (by decide), hsummary⟩
  cases includeDetail with
  | false => exact ⟨hids, hkinds, hsummaries, hrest⟩
  | true => exact ⟨hids, hkinds, hsummaries, ⟨hkey rfl (by decide), hdetail⟩, hrest⟩

/-- The room of an entry: what its texts take, and what the members around them take. -/
theorem entryText_length_le (h : SlotOk name first slot) (hfits : SlotFits name slot) (includeDetail : Bool) :
    (entryText slot includeDetail).length ≤ 132 + (jsonEscape slot.id).length + (kindName slot.kind).length +
      slotWeightMax name + (if includeDetail then 3084 else 0) := by
  obtain ⟨hlen, hlen'⟩ := h.lengths
  obtain ⟨hcreated, hupdated⟩ := hfits.turns
  have hweight := hfits.weight
  have htokens := estimateTokens_le (slot.summary.length + slot.detail.length)
  have hcreatedDec := u64ToDec_length_le (k := 5) (by decide) (hcreated.trans (by decide))
  have hupdatedDec := u64ToDec_length_le (k := 5) (by decide) (hupdated.trans (by decide))
  have hcharsDec := @u64ToDec_length_le 3 (slot.summary.length + slot.detail.length) (by decide) (by omega)
  have htokensDec := @u64ToDec_length_le 3 (estimateTokens (slot.summary.length + slot.detail.length))
    (by decide) (by omega)
  have hdetail : (if includeDetail then ascii "\",\"detail\":\"" ++ jsonEscape slot.detail else []).length ≤
      if includeDetail then 3084 else 0 := by
    have hsix := jsonEscape_length_le slot.detail
    cases includeDetail with
    | false => exact le_rfl
    | true =>
      rw [if_pos rfl, if_pos rfl, List.length_append, ascii_length rfl]
      simp only [List.length_cons, List.length_nil]
      omega
  unfold entryText
  simp only [List.length_append]
  rw [ascii_length (s := "\x7b\"id\":\"") rfl, ascii_length (s := "\",\"kind\":\"") rfl,
    ascii_length (s := "\",\"summary\":\"") rfl, ascii_length (s := "\",\"source\":\"") rfl,
    ascii_length (s := "\",\"state\":\"") rfl, ascii_length (s := "\",\"created_turn\":") rfl,
    ascii_length (s := ",\"updated_turn\":") rfl, ascii_length (s := ",\"chars\":") rfl,
    ascii_length (s := ",\"estimated_tokens\":") rfl, ascii_length (s := "\x7d") rfl]
  simp only [List.length_cons, List.length_nil]
  omega

theorem entryText_list_le (h : SlotOk name first slot) (hfits : SlotFits name slot) (hlisted : slot.kind ≠ .none) :
    (entryText slot false).length ≤ entryMax name := by
  have hlen := entryText_length_le h hfits false
  cases h with
  | empty => exact absurd rfl hlisted
  | written h =>
    rw [h.id, h.kind, (slotIdBytes_plain name).escape] at hlen
    have hmax : 132 + (slotIdBytes name).length + (kindName name.kind).length + slotWeightMax name ≤
        entryMax name := by
      cases name with
      | task | source | workspace | execution | conversation =>
        unfold slotIdBytes kindName SlotId.kind
        rw [ascii_length rfl, ascii_length rfl]
        decide
    simp only [Bool.false_eq_true, if_false] at hlen
    omega

theorem entryText_read_le (h : SlotOk name first slot) (hfits : SlotFits name slot) :
    (entryText slot true).length ≤ 5000 := by
  have hlen := entryText_length_le h hfits true
  have hid : (jsonEscape slot.id).length ≤ 16 := by
    cases h with
    | empty => exact Nat.zero_le _
    | written h =>
      rw [h.id, (slotIdBytes_plain name).escape]
      cases name <;> (unfold slotIdBytes; rw [ascii_length rfl]; decide)
  have hkind : (kindName slot.kind).length ≤ 12 := by
    cases slot.kind <;> (unfold kindName; rw [ascii_length rfl]; decide)
  have hmax : slotWeightMax name ≤ 1693 := by cases name <;> decide
  rw [if_pos rfl] at hlen
  omega

end Bounds

section Run

variable {l : Ledger} {m : Memory}

theorem listedEntries_valid (h : MemoryOk l m) (kind : Bytes) (names : List SlotId) :
    ItemsValid (listedEntries kind m.slot names) := by
  induction names with
  | nil => trivial
  | cons name names ih =>
    unfold listedEntries
    split_ifs
    · exact ⟨entryJson_valid (h.slot name) (h.fits name) false, ih⟩
    · exact ih

theorem tailItems_length_le (h : MemoryOk l m) (kind : Bytes) (names : List SlotId) :
    (tailItems (listedEntries kind m.slot names)).length ≤ (names.map fun name => entryMax name + 1).sum := by
  induction names with
  | nil => exact le_rfl
  | cons name names ih =>
    rw [List.map_cons, List.sum_cons]
    unfold listedEntries
    split_ifs with hlisted
    · simp only [Listed, decide_eq_true_eq] at hlisted
      have hentry := entryText_list_le (h.slot name) (h.fits name) hlisted.1
      rw [tailItems, List.length_append, List.length_cons, ← entryText_compact]
      omega
    · omega

theorem listJson_length_le (h : MemoryOk l m) (kind : Bytes) :
    (listJson kind m.slot).compact.length ≤ toolResultLimit := by
  have htail := tailItems_length_le h kind SlotId.all
  have hsum : (SlotId.all.map fun name => entryMax name + 1).sum = 8136 := rfl
  have hitems : (compactItems (listedEntries kind m.slot SlotId.all)).length ≤
      (tailItems (listedEntries kind m.slot SlotId.all)).length := by
    cases listedEntries kind m.slot SlotId.all with
    | nil => exact le_rfl
    | cons v items =>
      rw [compactItems_cons, tailItems, List.length_append, List.length_append, List.length_cons]
      omega
  rw [listJson_compact, List.length_append, List.length_append, ascii_length rfl, ascii_length rfl]
  simp only [List.length_cons, List.length_nil]
  unfold toolResultLimit
  omega

theorem readJson_length_le (h : MemoryOk l m) (id : Bytes) :
    (readJson id m.slot).compact.length ≤ toolResultLimit := by
  unfold readJson toolResultLimit
  split
  · rw [← unknownMemoryId_compact, unknownMemoryId, ascii_length rfl]
    simp only [List.length_cons, List.length_nil]
    omega
  · next name _ =>
    have hentry := entryText_read_le (h.slot name) (h.fits name)
    rw [readEntry_compact, ← entryText_compact, List.length_append, List.length_append, ascii_length rfl,
      ascii_length rfl]
    simp only [List.length_cons, List.length_nil]
    omega

theorem listJson_valid (h : MemoryOk l m) (kind : Bytes) : (listJson kind m.slot).Valid := by
  refine ⟨⟨?_, trivial⟩, ⟨?_, listedEntries_valid h kind SlotId.all⟩, ⟨?_, trivial⟩, trivial⟩
  · exact (plain_ascii rfl (by decide)).utf8
  · exact (plain_ascii rfl (by decide)).utf8
  · exact (plain_ascii rfl (by decide)).utf8

theorem readJson_valid (h : MemoryOk l m) (id : Bytes) : (readJson id m.slot).Valid := by
  have hkey : ∀ {s : String} {l : List Char}, s = String.ofList l → l.all PlainChar = true → Utf8 (ascii s) :=
    fun hs hl => (plain_ascii hs hl).utf8
  unfold readJson
  split
  · refine ⟨⟨hkey rfl (by decide), trivial⟩, ⟨hkey rfl (by decide), ⟨hkey rfl (by decide), ?_⟩,
      ⟨hkey rfl (by decide), ?_⟩, trivial⟩, trivial⟩
    · exact hkey rfl (by decide)
    · exact hkey rfl (by decide)
  · next name _ =>
    have hentry := entryJson_valid (h.slot name) (h.fits name) true
    exact ⟨⟨hkey rfl (by decide), trivial⟩, ⟨hkey rfl (by decide), hentry⟩, trivial⟩

theorem ensureStarted_slot (h : MemoryOk l m) (hstart : BeforeStart l m) : (ensureStarted m).slot = m.slot := by
  unfold ensureStarted
  split_ifs with hstarted
  · rfl
  · have hl := hstart (Bool.eq_false_iff.mpr hstarted)
    subst hl
    funext name
    have hempty := h.slot name
    change SlotOk name none (m.slot name) at hempty
    generalize m.slot name = slot at hempty
    cases hempty
    rfl

/-- After any calls, from the start of the machine: each slot is empty or as it was written since the
last reset, the lines for the prompt keep to their budget, and the texts for the tools are complete
and stand for what the slots hold. -/
theorem remember_views (calls : List MemoryCall) : ∃ m, remember calls = .ok m ∧
    (∀ name, SlotOk name ((ledger calls).first name) (m.slot name)) ∧
    (∀ capacity out budget, WritesWithin capacity budget out (appendWorkingMemoryTo capacity out budget m) ∧
      WritesWithin capacity budget out (appendKnownSourcesTo capacity out budget m) ∧
      WritesWithin capacity budget out (appendWorkspaceMemoryTo capacity out budget m)) ∧
    (∀ kind, JsonText (listJson kind m.slot) (buildListMemoryJson toolResultLimit kind m)) ∧
    ∀ id, JsonText (readJson id m.slot) (buildReadMemoryJson toolResultLimit id m) := by
  obtain ⟨m, hrun, hok, hstart⟩ := remember_ok calls
  have hslot := ensureStarted_slot hok hstart
  refine ⟨m, hrun, hok.slot, fun capacity out budget => ⟨?_, ?_, ?_⟩, fun kind => ?_, fun id => ?_⟩
  · exact appendSlotsTo_within capacity out _ budget m
  · exact appendSlotsTo_within capacity out _ budget m
  · exact appendSlotsTo_within capacity out _ budget m
  · have hlist := @buildListMemoryJson_eq toolResultLimit kind m (by rw [hslot]; exact listJson_length_le hok kind)
    rw [hlist, hslot]
    exact (listJson kind m.slot).compact_text (listJson_valid hok kind)
  · have hread := @buildReadMemoryJson_eq toolResultLimit m id (by rw [hslot]; exact readJson_length_le hok id)
    rw [hread, hslot]
    exact (readJson id m.slot).compact_text (readJson_valid hok id)

end Run

end MiniAgentOS.Agent
