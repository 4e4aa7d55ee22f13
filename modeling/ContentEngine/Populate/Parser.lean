import ContentEngine.Filter.Parser
import ContentEngine.Json.Printer
import ContentEngine.Populate.Spec

/-!
# Populate specifications in JSON

`true` and `"*"` are the wildcard, a string or a list of strings holds paths, and an object maps
attributes to nodes. A node is `true`, or an object with `fields`, `filters` and `populate`, or an
object whose only key `onVariant` (or `on`) maps tags to nodes. `false` leaves an attribute out.
-/

namespace ContentEngine

/-- What is wrong with a populate request. -/
inductive PopulateError where
  | unknownAttribute (docType attr : String)
  | tagsNotSupported (docType attr : String)
  | unknownTag (docType attr tag : String)
  | malformed (reason : String)
  | schema (e : SchemaError)
  | filter (e : FilterError)
deriving DecidableEq, Repr

def PopulateError.message : PopulateError → String
  | .unknownAttribute docType attr =>
    s!"'{attr}' on '{docType}' is not a relation, polymorphic, or dynamic-zone attribute"
  | .tagsNotSupported docType attr =>
    "'onVariant' is only valid on polymorphic or dynamic-zone attributes " ++
      s!"('{docType}.{attr}')"
  | .unknownTag docType attr tag =>
    s!"'{tag}' is not a permissible variant of '{docType}.{attr}'"
  | .malformed reason => s!"malformed populate: {reason}"
  | .schema e => e.message
  | .filter e => e.message

namespace PopulateSpec

/-- The paths of a comma-separated list. -/
def ofText (text : String) : PopulateSpec := (Text.listPieces text).foldl insertPath .empty

def ofItems : List Json → Except PopulateError PopulateSpec
  | items => items.foldlM
    (fun (s : PopulateSpec) item =>
      match item with
      | .str text => Except.ok (s.merge (ofText text))
      | _ => .error (.malformed "populate arrays hold attribute paths")) .empty

/-- A set of attribute names, as a comma-separated text or as a list. -/
def fieldsOfJson : Json → Except PopulateError Names
  | .str text => .ok (Names.ofList (Text.listPieces text))
  | .arr items =>
    match items.mapM Json.asStr? with
    | some names => .ok (Names.ofList names)
    | none => .error (.malformed "'fields' entries must be strings")
  | _ => .error (.malformed "'fields' expects a list of attribute names")

def isTagKey (key : String) : Bool := key = "onVariant" ∨ key = "on"

mutual
def ofJson : Json → Except PopulateError PopulateSpec
  | .null => .ok .empty
  | .bool b => .ok (if b then .every else .empty)
  | .str text => .ok (ofText text)
  | .arr items => ofItems items
  | .obj members => ofMembers members
  | .int _ => .error (.malformed "populate cannot be a number")
  | .double _ => .error (.malformed "populate cannot be a number")

def ofMembers : List (String × Json) → Except PopulateError PopulateSpec
  | [] => .ok .empty
  | (name, value) :: rest =>
    if name = wildcardName then
      (ofMembers rest).map fun s =>
        { s with wildcard := s.wildcard || value.asBool? ≠ some false }
    else
      match nodeOfJson value with
      | .error e => .error e
      | .ok none => ofMembers rest
      | .ok (some node) =>
        (ofMembers rest).map fun s => { s with entries := Entries.insert s.entries name node }

def nodeOfJson : Json → Except PopulateError (Option PopulateNode)
  | .null => .ok none
  | .bool b => .ok (if b then some .all else none)
  | .obj members =>
    if members.any fun m => isTagKey m.1 then
      if 1 < members.length then
        .error (.malformed "'onVariant' cannot be combined with other populate keys")
      else (tagsOfMembers members).map some
    else (shapeOfMembers ⟨none, none, .empty⟩ members).map fun s => some (.shape s)
  | other =>
    .error (.malformed s!"populate node must be true or an object, found {other.render}")

/-- The nodes by tag under the only key. -/
def tagsOfMembers : List (String × Json) → Except PopulateError PopulateNode
  | (_, .obj nodes) :: _ => (nodesOfMembers nodes).map .tags
  | _ => .error (.malformed "'onVariant' expects an object")

def nodesOfMembers : List (String × Json) → Except PopulateError (List (String × PopulateNode))
  | [] => .ok []
  | (tag, value) :: rest =>
    match nodeOfJson value with
    | .error e => .error e
    | .ok none => nodesOfMembers rest
    | .ok (some node) => (nodesOfMembers rest).map fun nodes => Entries.insert nodes tag node

def shapeOfMembers (shape : PopulateShape) :
    List (String × Json) → Except PopulateError PopulateShape
  | [] => .ok shape
  | (key, value) :: rest =>
    if key = "fields" then
      match fieldsOfJson value with
      | .error e => .error e
      | .ok fields => shapeOfMembers { shape with fields := some fields } rest
    else if key = "filters" then
      match Filter.ofJson value with
      | .error e => .error (.filter e)
      | .ok filters => shapeOfMembers { shape with filters := filters } rest
    else if key = "populate" then
      match ofJson value with
      | .error e => .error e
      | .ok populate => shapeOfMembers { shape with populate := populate } rest
    else .error (.malformed s!"unknown populate key '{key}'")
end

end PopulateSpec
end ContentEngine
