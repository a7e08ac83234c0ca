import Wadl.Number.Binary64

/-!
# JSON values

Whole numbers and numbers with a point or an exponent are kept apart, and the members of an object
keep their order.
-/

namespace Wadl

/-- A JSON value. -/
inductive Json where
  | null
  | bool (b : Bool)
  | int (i : Int)
  | float (x : Binary64)
  | str (s : String)
  | arr (items : List Json)
  | obj (members : List (String × Json))
  deriving Repr, Inhabited

namespace Json

/-- A member of an object. -/
def get? (name : String) : Json → Option Json
  | obj members => members.lookup name
  | _ => none

/-- A text that may be missing. -/
def ofText? : Option String → Json
  | some s => str s
  | none => null

/-- The members of an object, where a later one with a name replaces the value of an earlier one. -/
def put (members : List (String × Json)) (name : String) (value : Json) : List (String × Json) :=
  if members.any (·.1 = name) then
    members.map fun (n, v) => if n = name then (n, value) else (n, v)
  else members ++ [(name, value)]

end Json

end Wadl
