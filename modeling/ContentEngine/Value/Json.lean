import ContentEngine.Value.Basic

/-!
# Values as JSON

`Value.toJson` is the form in which responses show a value, `Value.ofJson` reads a value without
knowing its attribute: it gives no references, and an object stays JSON.
-/

namespace ContentEngine

/-- The key of the tag in an instance of a dynamic zone. -/
def componentKey : String := "__component"

/-- The key of the tag in an instance of a polymorphic relation. -/
def morphTypeKey : String := "__type"

def isInt64 (n : Int) : Bool := Int64.minValue.toInt ≤ n ∧ n ≤ Int64.maxValue.toInt

namespace Value

mutual
def ofJson : Json → Value
  | .null => .null
  | .bool b => .bool b
  | .int n => if isInt64 n then .int (Int64.ofInt n) else .float (Double.ofInt n)
  | .double x => .float x
  | .str s => .text s
  | .arr items => .list (ofJsonItems items)
  | .obj members => .json (.obj members)

def ofJsonItems : List Json → List Value
  | [] => []
  | j :: js => ofJson j :: ofJsonItems js
end

/-- The object of a variant: its value's members, or the value under a key of its own. -/
def variantMembers : Json → Entries Json
  | .obj members => members
  | other => [("value", other)]

/-- The members of every document: its identifier, and its status if it has one. -/
def documentHead (id : DocumentId) (status : Option Status) : Entries Json :=
  match status with
  | some s => Entries.insert [(documentIdName, .str id)] "status" (.str s.label)
  | none => [(documentIdName, .str id)]

def variantKey : Value → String
  | .doc _ => componentKey
  | _ => morphTypeKey

mutual
def toJson : Value → Json
  | .null => .null
  | .bool b => .bool b
  | .int i => .int i.toInt
  | .float x => if x.isFinite then .double x else .null
  | .text s => .str s
  | .json j => j
  | .list items => .arr (toJsonItems items)
  | .ref id => .obj [(documentIdName, .str id)]
  | .doc ⟨_, id, status, fields⟩ => .obj (toJsonFields (documentHead id status) fields)
  | .variant tag value =>
    .obj (Entries.insert (variantMembers (toJson value)) (variantKey value) (.str tag))

def toJsonItems : List Value → List Json
  | [] => []
  | v :: vs => toJson v :: toJsonItems vs

/-- Adds the fields to an object, over members of the same name. -/
def toJsonFields (object : Entries Json) : List (String × Value) → Entries Json
  | [] => object
  | (name, v) :: fs => toJsonFields (Entries.insert object name (toJson v)) fs
end

end Value

def Document.toJson (d : Document) : Json := (Value.doc d).toJson

end ContentEngine
