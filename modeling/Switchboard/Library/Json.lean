import Mathlib.Tactic

/-!
# JSON values

The values a JSON decoder produces, with objects as association lists in
document order. A float is kept by the text that prints it, since nothing here
computes with floats. `Json.str` is the text Python's `str` gives.
-/

namespace Switchboard

inductive Json where
  | null
  | bool (b : Bool)
  | int (n : ℤ)
  | float (repr : String)
  | str (s : String)
  | arr (items : List Json)
  | obj (fields : List (String × Json))

namespace Json

/-- `value.get(key)` for an object; other values have no fields. -/
def get? : Json → String → Option Json
  | .obj fields, key => fields.lookup key
  | _, _ => none

/-- A field that is absent or `null`, as `value.get(key)` without a default. -/
def getD (j : Json) (key : String) : Json := (j.get? key).getD .null

/-- A field that is a string other than the empty one. -/
def text? (j : Json) (key : String) : Option String :=
  match j.get? key with
  | some (.str s) => if s = "" then none else some s
  | _ => none

def isNull : Json → Bool
  | .null => true
  | _ => false

/-- One character inside a quoted Python string. -/
def reprChar (quote c : Char) : String :=
  if c = '\\' then "\\\\"
  else if c = '\n' then "\\n"
  else if c = '\r' then "\\r"
  else if c = '\t' then "\\t"
  else if c = quote then String.ofList ['\\', c]
  else String.singleton c

/-- Python's `repr` of a string; single quotes unless only those occur in it. -/
def reprString (s : String) : String :=
  let quote := if '\'' ∈ s.toList ∧ '"' ∉ s.toList then '"' else '\''
  String.singleton quote ++ String.join (s.toList.map (reprChar quote)) ++ String.singleton quote

mutual

/-- Python's `repr` of a decoded value. -/
def repr : Json → String
  | .null => "None"
  | .bool b => if b then "True" else "False"
  | .int n => toString n
  | .float r => r
  | .str s => reprString s
  | .arr items => "[" ++ ", ".intercalate (reprItems items) ++ "]"
  | .obj fields => "\x7b" ++ ", ".intercalate (reprFields fields) ++ "\x7d"

def reprItems : List Json → List String
  | [] => []
  | j :: js => j.repr :: reprItems js

def reprFields : List (String × Json) → List String
  | [] => []
  | (k, j) :: fs => (reprString k ++ ": " ++ j.repr) :: reprFields fs

end

/-- Python's `str` of a decoded value. -/
def toStr : Json → String
  | .str s => s
  | j => j.repr

@[simp] theorem get?_obj (fields : List (String × Json)) (key : String) :
    (Json.obj fields).get? key = fields.lookup key := rfl

end Json

end Switchboard
