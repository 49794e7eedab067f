import MiniAgentOS.Bridge.Text

/-! JSON values of the host bridge, and the text that `json.dumps` makes of them. -/
namespace MiniAgentOS.Bridge

/-- What `int` makes of a float. -/
inductive FloatValue where
  | finite (integerPart : ℤ)
  | infinite
  | nan
  deriving DecidableEq, Repr

/-- A JSON value as `json.loads` returns it, a float with its text. -/
inductive Json where
  | null
  | bool (value : Bool)
  | int (value : ℤ)
  | float (text : PyStr) (value : FloatValue)
  | str (value : PyStr)
  | list (items : List Json)
  | dict (entries : List (PyStr × Json))
  deriving Repr

section Dumps

def hexDigit (n : ℕ) : ℕ := if n < 10 then 48 + n else 87 + n

def escapeChar (c : ℕ) : PyStr :=
  if c = 34 then str "\\\""
  else if c = 92 then str "\\\\"
  else if c = 10 then str "\\n"
  else if c = 13 then str "\\r"
  else if c = 9 then str "\\t"
  else if c = 8 then str "\\b"
  else if c = 12 then str "\\f"
  else if c < 32 then str "\\u00" ++ [hexDigit (c / 16), hexDigit (c % 16)]
  else [c]

def quoted (s : PyStr) : PyStr := str "\"" ++ s.flatMap escapeChar ++ str "\""

/-- A line end and the indentation behind it. -/
def newline (level : ℕ) : PyStr := str "\n" ++ List.replicate (2 * level) 32

mutual

/-- `json.dumps(value, indent=2, ensure_ascii=False)`. -/
def dumps (level : ℕ) : Json → PyStr
  | .null => str "null"
  | .bool value => if value then str "true" else str "false"
  | .int value => str (toString value)
  | .float text _ => text
  | .str value => quoted value
  | .list items =>
    if items.isEmpty then str "[]"
    else str "[" ++ newline (level + 1) ++ dumpItems (level + 1) items ++ newline level ++ str "]"
  | .dict entries =>
    if entries.isEmpty then str "\x7b\x7d"
    else str "\x7b" ++ newline (level + 1) ++ dumpEntries (level + 1) entries ++ newline level ++ str "\x7d"

def dumpItems (level : ℕ) : List Json → PyStr
  | [] => []
  | item :: items => dumps level item ++ (if items.isEmpty then [] else str "," ++ newline level) ++ dumpItems level items

def dumpEntries (level : ℕ) : List (PyStr × Json) → PyStr
  | [] => []
  | (key, value) :: entries => quoted key ++ str ": " ++ dumps level value ++
      (if entries.isEmpty then [] else str "," ++ newline level) ++ dumpEntries level entries

end

mutual

/-- No string of the value holds a surrogate. -/
def Json.encodable : Json → Bool
  | .str value => Encodable value
  | .list items => itemsEncodable items
  | .dict entries => entriesEncodable entries
  | _ => true

def itemsEncodable : List Json → Bool
  | [] => true
  | item :: items => item.encodable && itemsEncodable items

def entriesEncodable : List (PyStr × Json) → Bool
  | [] => true
  | (key, value) :: entries => Encodable key && value.encodable && entriesEncodable entries

end

end Dumps

end MiniAgentOS.Bridge
