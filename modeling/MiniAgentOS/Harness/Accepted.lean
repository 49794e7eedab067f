import MiniAgentOS.Harness.Evaluator
import MiniAgentOS.Harness.Trace

/-! A case is accepted by the events that the agent has sent. -/
namespace MiniAgentOS.Harness
open Bridge
open scoped List

set_option maxRecDepth 4000

section Names

variable {sent : List UartLine} {loads : PyStr → Option Bridge.Json} {e : Agent.TraceEvent} {ms : ℕ}

def UartLine.name : UartLine → Option String
  | .other _ => none
  | .event _ _ e => some e.event

/-- The text of an object is loaded as a dictionary that has what stands under a key there, when it is a string and
nothing else stands under that key. -/
def Loaded (loads : PyStr → Option Bridge.Json) : Json → Prop
  | .obj members => ∀ text, DecodesTo (Json.obj members).compact text → ∃ entries, loads text = some (.dict entries) ∧
      ∀ key value name s, (key, .str value) ∈ members → (∀ m ∈ members, m.1 = key → m = (key, .str value)) →
        DecodesTo key name → DecodesTo value s → entries.lookup name = some (.str s)
  | _ => True

theorem plainName_decodes {name : String} (h : Agent.PlainName name = true) : DecodesTo (ascii name) (str name) := by
  apply ascii_decodes
  rw [List.all_eq_true]
  intro c hc
  have hplain := List.all_eq_true.mp h c hc
  rw [PlainChar, decide_eq_true_eq] at hplain
  exact decide_eq_true (by omega)

/-- The name of an event is read from its text. -/
theorem eventNames_loaded (he : e.Sound) (hloads : Loaded loads (e.json ms)) {text : PyStr}
    (htext : DecodesTo (e.json ms).compact text) : ∃ event, loads text = some event ∧
      eventNames [event] = [.str (str e.event)] := by
  obtain ⟨members, hjson⟩ : ∃ members, e.json ms = .obj members := ⟨_, rfl⟩
  have hfirst : (ascii "event", .str (ascii e.event)) ∈ members := by
    obtain rfl := Json.obj.inj hjson
    exact List.mem_cons_self
  rw [hjson] at hloads htext
  obtain ⟨entries, hentries, hkeys⟩ := hloads text htext
  have honly : ∀ m ∈ members, m.1 = ascii "event" → m = (ascii "event", .str (ascii e.event)) :=
    fun m hm hkey => Agent.TraceEvent.event_member he hjson hm hkey
  have hname := hkeys _ _ _ _ hfirst honly (ascii_decodes (by decide)) (plainName_decodes he.event)
  refine ⟨_, hentries, ?_⟩
  simp only [eventNames, List.filterMap_cons, hname, Option.getD_some, List.filterMap_nil]

theorem eventNames_append (a b : List Bridge.Json) : eventNames (a ++ b) = eventNames a ++ eventNames b :=
  List.filterMap_append

/-- The names of what is loaded are those of the events that have been sent. -/
theorem eventNames_sent (hsent : ∀ line ∈ sent, line.Sent)
    (hloads : ∀ v ∈ sent.filterMap UartLine.json, Loaded loads v) {texts : List PyStr}
    (htexts : List.Forall₂ (fun v text => DecodesTo v.compact text) (sent.filterMap UartLine.json) texts) :
    eventNames (texts.filterMap loads) = (sent.filterMap UartLine.name).map fun name => .str (str name) := by
  induction sent generalizing texts with
  | nil =>
    cases htexts
    rfl
  | cons line sent ih =>
    obtain ⟨hline, hrest⟩ := List.forall_mem_cons.mp hsent
    cases line with
    | other text => exact ih hrest hloads htexts
    | event lead ms e =>
      obtain ⟨-, -, htraced⟩ := hline
      have hjson : (UartLine.event lead ms e :: sent).filterMap UartLine.json =
          e.json ms :: sent.filterMap UartLine.json := rfl
      rw [hjson] at hloads htexts
      cases htexts with
      | @cons _ text _ texts htext hothers =>
        obtain ⟨hload, hloads⟩ := List.forall_mem_cons.mp hloads
        obtain ⟨event, hevent, hname⟩ := eventNames_loaded htraced.sound hload htext
        rw [List.filterMap_cons_some hevent, ← List.singleton_append, eventNames_append, hname, ih hrest hloads hothers]
        rfl

end Names

section Accepted

variable {sent : List UartLine} {loads : PyStr → Option Bridge.Json} {lib : EvalLib}

theorem forall_right {α β : Type} {R : α → β → Prop} {P : β → Prop} {as : List α} {bs : List β}
    (h : List.Forall₂ R as bs) (hP : ∀ a ∈ as, ∀ b, R a b → P b) : ∀ b ∈ bs, P b := by
  induction h with
  | nil => simp
  | cons hab _ ih =>
    obtain ⟨hfirst, hrest⟩ := List.forall_mem_cons.mp hP
    exact List.forall_mem_cons.mpr ⟨hfirst _ hab, ih hrest⟩

theorem str_injective : Function.Injective str := fun _ _ h =>
  String.toList_inj.mp (List.map_injective_iff.mpr (fun _ _ => Char.toNat_inj.mp) h)

/-- Names are found in a sequence of names just when they are a part of it. -/
theorem names_required (heq : ∀ a b, lib.eq (.str a) (.str b) = true ↔ a = b) (names required : List String) :
    containsRequiredSequence lib (names.map fun name => .str (str name)) (required.map fun name => .str (str name)) =
      true ↔ required <+ names := by
  rw [containsRequiredSequence, Subsequence.contains_iff, List.sublistForall₂_map_left_iff,
    List.sublistForall₂_map_right_iff]
  have hsame : ∀ a b : String, lib.eq (.str (str b)) (.str (str a)) = true ↔ a = b := fun a b =>
    (heq _ _).trans (str_injective.eq_iff.trans eq_comm)
  simp only [hsame, List.sublistForall₂_iff, List.forall₂_eq_eq_eq, exists_eq_left']

def turnText : PyStr := str "\x7b\"event\":\"model_turn_completed\",\"ts_ms\":5,\"step\":1,\"stop_reason\":\"done\"\x7d"

def turnLoads (text : PyStr) : Option Bridge.Json :=
  if text = turnText then
    some (.dict [(str "event", .str (str "model_turn_completed")), (str "ts_ms", .int 5), (str "step", .int 1),
      (str "stop_reason", .str (str "done"))])
  else none

def turnLib : EvalLib where
  py := { lower := id, printable := fun _ => true, nfkc := id, bracketError := fun _ => none }
  eq
    | .str a, .str b => a == b
    | .int a, .int b => a == b
    | _, _ => false

def turnJson : Json := (Agent.traceModelTurnCompleted 1 (ascii "done")).json 5

theorem turnJson_decodes : DecodesTo turnJson.compact turnText :=
  ⟨"\x7b\"event\":\"model_turn_completed\",\"ts_ms\":5,\"step\":1,\"stop_reason\":\"done\"\x7d".toList,
    by decide +kernel, by decide +kernel⟩

theorem turnJson_loaded : Loaded turnLoads turnJson := by
  intro text htext
  obtain rfl := htext.unique turnJson_decodes
  refine ⟨_, if_pos rfl, ?_⟩
  intro key value name s hmem _ hname hs
  have hkeys : key = ascii "event" ∧ value = ascii "model_turn_completed" ∨
      key = ascii "stop_reason" ∧ value = ascii "done" := by
    simpa [Agent.traceModelTurnCompleted, Agent.TraceField.member] using hmem
  rcases hkeys with ⟨rfl, rfl⟩ | ⟨rfl, rfl⟩
  · rw [hname.unique (ascii_decodes (by decide) : DecodesTo _ (str "event")),
      hs.unique (ascii_decodes (by decide) : DecodesTo _ (str "model_turn_completed"))]
    rfl
  · rw [hname.unique (ascii_decodes (by decide) : DecodesTo _ (str "stop_reason")),
      hs.unique (ascii_decodes (by decide) : DecodesTo _ (str "done"))]
    rfl

end Accepted

end MiniAgentOS.Harness
