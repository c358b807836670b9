import BindingProxy.Json.Basic

/-!
# Records in JSON

A record is an object or, for short, an array of its values in the order of its keys, from which the
last ones may be left out.
-/

namespace BindingProxy

namespace Json

def text? : Json → Option String
  | string s => some s
  | _ => none

def truth? : Json → Option Bool
  | bool b => some b
  | _ => none

/-- Null stands for a value that is not given. -/
def nullable? {α : Type} (read : Json → Option α) : Json → Option (Option α)
  | null => some none
  | value => (read value).map some

/-- The members of a record with the given keys. -/
def record? (keys : List String) : Json → Option (List (String × Json))
  | object members => some members
  | array values => if values.length ≤ keys.length then some (keys.zip values) else none
  | _ => none

/-- The value of a member, or a default value if the member is missing. -/
def member? {α : Type} (members : List (String × Json)) (key : String) (default : α)
    (read : Json → Option α) : Option α :=
  match members.lookup key with
  | none => some default
  | some value => read value

end Json

end BindingProxy
