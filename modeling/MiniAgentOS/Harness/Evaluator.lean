import MiniAgentOS.Bridge.Search
import MiniAgentOS.Lib.Subsequence

/-! How the harness compares the events that it has read with those that a case expects. -/
namespace MiniAgentOS.Harness
open Bridge
open scoped List

section Comparison

/-- `==` of Python on JSON values, and what `repr` needs. -/
structure EvalLib where
  py : PyLib
  eq : Bridge.Json → Bridge.Json → Bool

/-- `_event_names`: the names of the events that are objects, `None` where one has none. -/
def eventNames (traceEvents : List Bridge.Json) : List Bridge.Json :=
  traceEvents.filterMap fun
    | .dict entries => some ((entries.lookup (str "event")).getD .null)
    | _ => none

variable (lib : EvalLib)

mutual

/-- `_compare_expected_subset`, with the failures that it adds. -/
def compareExpectedSubset (actual : Bridge.Json) (place : PyStr) : Bridge.Json → List PyStr
  | .dict entries =>
    match actual with
    | .dict found => compareEntries found place entries
    | _ => [place ++ str " is missing or not an object"]
  | expected =>
    if lib.eq actual expected then []
    else [str "unexpected " ++ place ++ str ": " ++ repr lib.py actual ++ str " != " ++ repr lib.py expected]

def compareEntries (found : List (PyStr × Bridge.Json)) (place : PyStr) : List (PyStr × Bridge.Json) → List PyStr
  | [] => []
  | (key, value) :: entries =>
    (match found.lookup key with
      | none => [place ++ str " is missing field: " ++ key]
      | some actual => compareExpectedSubset actual (if place = [] then key else place ++ str "." ++ key) value) ++
    compareEntries found place entries

end

/-- `_contains_required_sequence`. -/
def containsRequiredSequence (actualNames expectedNames : List Bridge.Json) : Bool :=
  Subsequence.contains lib.eq expectedNames actualNames

/-- `_contains_expected_event_subset`. -/
def containsExpectedEventSubset (actualEvents expectedEvents : List Bridge.Json) : Bool :=
  Subsequence.contains (fun actual expected => (compareExpectedSubset lib actual (str "tool_call") expected).isEmpty)
    expectedEvents actualEvents

end Comparison

section Covered

variable {lib : EvalLib} {actual expected value : Bridge.Json} {path : List PyStr} {place : PyStr}

/-- The value at a path of keys. -/
def valueAt (value : Bridge.Json) : List PyStr → Option Bridge.Json
  | [] => some value
  | key :: path =>
    match value with
    | .dict entries => (entries.lookup key).bind fun value => valueAt value path
    | _ => none

/-- A value stands in another one behind a path of keys. -/
inductive StandsAt : Bridge.Json → List PyStr → Bridge.Json → Prop where
  | here {value : Bridge.Json} : StandsAt value [] value
  | entry {key : PyStr} {value inner : Bridge.Json} {entries : List (PyStr × Bridge.Json)} {path : List PyStr} :
      (key, inner) ∈ entries → StandsAt inner path value → StandsAt (.dict entries) (key :: path) value

/-- An object is wanted where an object is expected, and an equal value where another one is. -/
def Meets (lib : EvalLib) (actual : Bridge.Json) : Bridge.Json → Prop
  | .dict _ => ∃ entries, actual = .dict entries
  | expected => lib.eq actual expected = true

/-- All that is expected stands in the actual value at the same place. -/
def Covers (lib : EvalLib) (actual expected : Bridge.Json) : Prop :=
  ∀ path value, StandsAt expected path value → ∃ found, valueAt actual path = some found ∧ Meets lib found value

theorem meets_value (hvalue : ∀ entries, expected ≠ .dict entries) :
    Meets lib actual expected ↔ lib.eq actual expected = true := by
  cases expected with
  | dict entries => exact absurd rfl (hvalue entries)
  | _ => exact Iff.rfl

theorem covers_value (hvalue : ∀ entries, expected ≠ .dict entries) :
    Covers lib actual expected ↔ lib.eq actual expected = true := by
  constructor
  · intro h
    obtain ⟨found, hfound, hmeets⟩ := h [] expected .here
    obtain rfl := Option.some.inj hfound
    exact (meets_value hvalue).mp hmeets
  · intro heq path value hstands
    cases hstands with
    | here => exact ⟨actual, rfl, (meets_value hvalue).mpr heq⟩
    | entry => exact absurd rfl (hvalue _)

theorem covers_dict {entries : List (PyStr × Bridge.Json)} : Covers lib actual (.dict entries) ↔
    ∃ found, actual = .dict found ∧ ∀ m ∈ entries, ∃ value, found.lookup m.1 = some value ∧ Covers lib value m.2 := by
  constructor
  · intro h
    obtain ⟨_, hself, found, rfl⟩ := h [] _ .here
    obtain rfl := Option.some.inj hself
    refine ⟨found, rfl, ?_⟩
    intro ⟨key, inner⟩ hmem
    cases hlookup : found.lookup key with
    | none =>
      obtain ⟨_, hnone, -⟩ := h [key] inner (.entry hmem .here)
      simp [valueAt, hlookup] at hnone
    | some value =>
      refine ⟨value, rfl, ?_⟩
      intro path leaf hstands
      have hleaf := h (key :: path) leaf (.entry hmem hstands)
      rwa [valueAt, hlookup, Option.bind_some] at hleaf
  · intro ⟨found, hactual, hentries⟩ path value hstands
    subst hactual
    cases hstands with
    | here => exact ⟨_, rfl, found, rfl⟩
    | @entry key _ inner _ path hmem hinner =>
      obtain ⟨value, hlookup, hcovers⟩ := hentries _ hmem
      rw [valueAt, hlookup, Option.bind_some]
      exact hcovers path _ hinner

theorem compare_value (hvalue : ∀ entries, expected ≠ .dict entries) :
    compareExpectedSubset lib actual place expected = [] ↔ lib.eq actual expected = true := by
  cases expected with
  | dict entries => exact absurd rfl (hvalue entries)
  | _ => simp [compareExpectedSubset]

mutual

/-- There is no failure just when all that is expected stands where it is expected. -/
theorem compareExpectedSubset_nil : ∀ (expected actual : Bridge.Json) (place : PyStr),
    compareExpectedSubset lib actual place expected = [] ↔ Covers lib actual expected
  | .dict entries, actual, place => by
    rw [covers_dict, compareExpectedSubset.eq_def]
    cases actual with
    | dict found => simpa using compareEntries_nil entries found place
    | _ => simp
  | .null, _, _ => by rw [compare_value (by simp), covers_value (by simp)]
  | .bool _, _, _ => by rw [compare_value (by simp), covers_value (by simp)]
  | .int _, _, _ => by rw [compare_value (by simp), covers_value (by simp)]
  | .float _ _, _, _ => by rw [compare_value (by simp), covers_value (by simp)]
  | .str _, _, _ => by rw [compare_value (by simp), covers_value (by simp)]
  | .list _, _, _ => by rw [compare_value (by simp), covers_value (by simp)]

theorem compareEntries_nil : ∀ (entries found : List (PyStr × Bridge.Json)) (place : PyStr),
    compareEntries lib found place entries = [] ↔
      ∀ m ∈ entries, ∃ value, found.lookup m.1 = some value ∧ Covers lib value m.2
  | [], _, _ => by simp [compareEntries]
  | (key, inner) :: entries, found, place => by
    rw [compareEntries, List.append_eq_nil_iff, compareEntries_nil entries found place, List.forall_mem_cons]
    cases hlookup : found.lookup key with
    | none => simp
    | some value => simp [compareExpectedSubset_nil inner value]

end

/-- The events of a case are accepted just when they are covered by events that have been read, one after the other
in this order; the names in the same way when equal names have been read. -/
theorem expected_events_found (lib : EvalLib) (actualEvents expectedEvents actualNames expectedNames : List Bridge.Json) :
    (containsExpectedEventSubset lib actualEvents expectedEvents = true ↔
      ∃ taken, taken <+ actualEvents ∧
        List.Forall₂ (fun expected actual => Covers lib actual expected) expectedEvents taken) ∧
      (containsRequiredSequence lib actualNames expectedNames = true ↔
        ∃ taken, taken <+ actualNames ∧
          List.Forall₂ (fun expected actual => lib.eq actual expected = true) expectedNames taken) := by
  constructor
  · rw [containsExpectedEventSubset, Subsequence.contains_iff, List.sublistForall₂_iff]
    simp only [List.isEmpty_iff, compareExpectedSubset_nil]
    exact exists_congr fun taken => and_comm
  · rw [containsRequiredSequence, Subsequence.contains_iff, List.sublistForall₂_iff]
    exact exists_congr fun taken => and_comm

end Covered

end MiniAgentOS.Harness
