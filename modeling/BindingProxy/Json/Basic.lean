/-!
# JSON values

Objects keep their members in order, and repeated keys, so that a reader can refuse them.  Numbers
keep their spelling.
-/

namespace BindingProxy

/-- A JSON value. -/
inductive Json where
  | null
  | bool (b : Bool)
  | number (spelling : String)
  | string (s : String)
  | array (elements : List Json)
  | object (members : List (String × Json))
deriving Inhabited

namespace Json

/-- A text, or null. -/
def ofOption : Option String → Json
  | none => null
  | some s => string s

end Json

end BindingProxy
