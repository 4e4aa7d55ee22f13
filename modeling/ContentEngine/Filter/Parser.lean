import ContentEngine.Filter.Basic
import ContentEngine.Value.Json

/-!
# Filters in JSON

An object is the conjunction of its members. `$and`, `$or` and `$not` join conditions, every other
key with a dollar sign is an operator on the enclosing path, and any other key extends the path by a
dot. Below a path stands an object, a list (membership) or any other value (equality). An object
without conditions is no filter; a conjunction of one condition is that condition.
-/

namespace ContentEngine.Filter

def malformed (reason : String) : FilterError := .operator (.malformed reason)

/-- The conjunction of the conditions of one object. -/
def conjunction : List Filter → Option Filter
  | [] => none
  | [f] => some f
  | fs => some (.and fs)

def extendPath (path : Option String) (key : String) : String :=
  match path with
  | some p => p ++ "." ++ key
  | none => key

/-- A condition from an operator key. -/
def operatorLeaf (path : Option String) (key : String) (operand : Json) :
    Except FilterError Filter :=
  match path with
  | none => .error (malformed s!"operator '{key}' needs a field")
  | some p =>
    match FilterOp.ofKey? key with
    | none => .error (.operator (.unknownOperator key))
    | some op => .ok (.leaf p op (Value.ofJson operand))

def isOperatorKey (key : String) : Bool := key.toList.head? = some '$'

mutual
/-- The conditions of the members of an object, in order. -/
def parseMembers (path : Option String) : List (String × Json) → Except FilterError (List Filter)
  | [] => .ok []
  | (key, value) :: rest =>
    match parseMember path key value with
    | .error e => .error e
    | .ok here =>
      match parseMembers path rest with
      | .error e => .error e
      | .ok fs => .ok (here.toList ++ fs)

def parseMember (path : Option String) (key : String) :
    Json → Except FilterError (Option Filter)
  | .arr items =>
    if key = "$and" then (parseChildren path key items).map fun fs => some (.and fs)
    else if key = "$or" then (parseChildren path key items).map fun fs => some (.or fs)
    else if key = "$not" then .error (malformed "'$not' expects an object")
    else if isOperatorKey key then (operatorLeaf path key (.arr items)).map some
    else .ok (some (.leaf (extendPath path key) .isIn (Value.ofJson (.arr items))))
  | .obj members =>
    if key = "$and" ∨ key = "$or" then .error (malformed s!"'{key}' expects an array")
    else if key = "$not" then
      match parseMembers path members with
      | .error e => .error e
      | .ok fs =>
        match conjunction fs with
        | none => .error (malformed "'$not' requires a condition")
        | some f => .ok (some (.not f))
    else if isOperatorKey key then (operatorLeaf path key (.obj members)).map some
    else (parseMembers (some (extendPath path key)) members).map conjunction
  | operand =>
    if key = "$and" ∨ key = "$or" then .error (malformed s!"'{key}' expects an array")
    else if key = "$not" then .error (malformed "'$not' expects an object")
    else if isOperatorKey key then (operatorLeaf path key operand).map some
    else .ok (some (.leaf (extendPath path key) .eq (Value.ofJson operand)))

/-- The conditions of the objects in a list; those without conditions are left out. -/
def parseChildren (path : Option String) (key : String) :
    List Json → Except FilterError (List Filter)
  | [] => .ok []
  | .obj members :: rest =>
    match parseMembers path members with
    | .error e => .error e
    | .ok fs =>
      match parseChildren path key rest with
      | .error e => .error e
      | .ok gs => .ok ((conjunction fs).toList ++ gs)
  | _ :: _ => .error (malformed s!"'{key}' children must be objects")
end

/-- The filter that a JSON value writes, `none` if it writes no condition. -/
def ofJson : Json → Except FilterError (Option Filter)
  | .obj members => (parseMembers none members).map conjunction
  | _ => .error (malformed "filter root must be an object")

end ContentEngine.Filter
