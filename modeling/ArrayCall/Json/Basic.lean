/-!
# JSON values

A number of a JSON text is kept as an integer where it is written as one and fits
64 bits, and as a double otherwise; the members of an object that was read are in the
order of their names.
-/

namespace ArrayCall

/-- A JSON value. -/
inductive Json where
  | null
  | bool (b : Bool)
  /-- A number written without fraction and exponent. -/
  | int (n : Int)
  /-- Any other number. -/
  | float (x : Float)
  | str (s : String)
  | arr (items : List Json)
  /-- Members with distinct names. -/
  | obj (members : List (String × Json))
  deriving Inhabited

namespace Json

/-- The member of a name, if the value is an object that has one. -/
def member? (j : Json) (name : String) : Option Json :=
  match j with
  | obj members => (members.find? (·.1 == name)).map (·.2)
  | _ => none

def isList : Json → Bool
  | arr _ => true
  | _ => false

end Json

end ArrayCall
