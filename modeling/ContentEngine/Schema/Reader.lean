import ContentEngine.Json.Parser
import ContentEngine.Schema.Registry

/-!
# Schema documents

A schema document is a JSON object with the list `types`. A record is written as an object, or as
the list of its members in their order, where members with a default may be left out at the end. A
name from a fixed list is written as a string, or as an object whose only key it is. In a record a
key is given at most once; unknown keys are allowed in a type and in an attribute, not in the
document itself. What stands behind an unknown key of a type is never looked at, so that it may be a
text or a number without a value, and of any depth.

All readers give nothing for a value of the wrong form. What a well-formed document gets wrong is
found afterwards, type by type.
-/

namespace ContentEngine.Schema.Reader

/-! ## Records -/

/-- The one member of a name, `some none` if there is none, nothing if it is repeated. -/
def member? (members : List (String × Json)) (name : String) : Option (Option Json) :=
  match members.filter (·.1 = name) with
  | [] => some none
  | [(_, j)] => some (some j)
  | _ => none

/-- The members of a record in the order of `names`. -/
def record? (names : List String) : Json → Option (List (Option Json))
  | .obj members => names.mapM (member? members)
  | .arr items =>
    if items.length ≤ names.length then
      some ((items.map some ++ List.replicate names.length none).take names.length)
    else none
  | _ => none

def required? {α : Type} (read : Json → Option α) : Option Json → Option α
  | some j => read j
  | none => none

def optional? {α : Type} (read : Json → Option α) (default : α) : Option Json → Option α
  | some j => read j
  | none => some default

/-! ## Leaves -/

def strings? : Json → Option (List String)
  | .arr items => items.mapM Json.asStr?
  | _ => none

def nullable? {α : Type} (read : Json → Option α) : Json → Option (Option α)
  | .null => some none
  | j => (read j).map some

/-- A name from a fixed list, with the value that stands behind it when it is written as a key. -/
def choice? {α : Type} (table : List (String × α)) (isUnit : Json → Bool) : Json → Option α
  | .str name => Entries.get? table name
  | .obj [(name, j)] => if isUnit j then Entries.get? table name else none
  | _ => none

def isNull : Json → Bool
  | .null => true
  | _ => false

def isNullOrEmpty : Json → Bool
  | .null => true
  | .obj [] => true
  | _ => false

def typeKinds : List (String × TypeKind) :=
  [("collectionType", .collection), ("component", .component)]

/-! ## Attributes -/

/-- How a relation attribute is declared. -/
inductive RelationForm where
  | one
  | many
  | morph
deriving DecidableEq, Repr

def relationForms : List (String × RelationForm) :=
  [("oneToOne", .one), ("manyToOne", .one), ("oneToMany", .many), ("manyToMany", .many),
   ("morphToOne", .morph), ("morphToMany", .morph)]

/-- An attribute as declared; a relation may still lack its target. -/
inductive AttributeForm where
  | plain (kind : AttributeKind) (required : Bool)
  | relation (form : RelationForm) (target : Option String) (targets : List String)
      (required : Bool)

inductive AttributeTag where
  | scalar (kind : ScalarKind)
  | relation
  | dynamicZone

def attributeTags : List (String × AttributeTag) :=
  [("string", .scalar .text), ("text", .scalar .text), ("richtext", .scalar .text),
   ("email", .scalar .text), ("uid", .scalar .text), ("enumeration", .scalar .text),
   ("password", .scalar .text), ("integer", .scalar .integer), ("biginteger", .scalar .integer),
   ("float", .scalar .float), ("decimal", .scalar .float), ("boolean", .scalar .boolean),
   ("datetime", .scalar .datetime), ("date", .scalar .datetime), ("time", .scalar .datetime),
   ("timestamp", .scalar .datetime), ("json", .scalar .json), ("relation", .relation),
   ("dynamiczone", .dynamicZone)]

/-- The rest of an attribute after its tag. -/
def taggedAttribute? (tag : AttributeTag) (rest : Json) : Option AttributeForm :=
  match tag with
  | .scalar kind => do
    let [required] ← record? ["required"] rest | none
    return .plain (.scalar kind) (← optional? Json.asBool? false required)
  | .dynamicZone => do
    let [components, required] ← record? ["components", "required"] rest | none
    let components ← required? strings? components
    return .plain (.dynamicZone (Names.ofList components))
      (← optional? Json.asBool? false required)
  | .relation => do
    let [relation, target, targets, required] ←
      record? ["relation", "target", "targets", "required"] rest | none
    let form ← required? (choice? relationForms isNullOrEmpty) relation
    let target ← optional? (nullable? Json.asStr?) none target
    let targets ← optional? strings? [] targets
    return .relation form target targets (← optional? Json.asBool? false required)

/-- The tag of an attribute is its member `type`, or the first item of a list. -/
def attributeForm? : Json → Option AttributeForm
  | .obj members => do
    let some (.str name) ← member? members "type" | none
    let tag ← Entries.get? attributeTags name
    taggedAttribute? tag (.obj (members.filter (·.1 ≠ "type")))
  | .arr (.str name :: items) => do
    let tag ← Entries.get? attributeTags name
    taggedAttribute? tag (.arr items)
  | _ => none

/-! ## Types -/

/-- A document type as declared. -/
structure TypeForm where
  name : String
  kind : TypeKind
  draftAndPublish : Bool
  attributes : Entries AttributeForm
  defaultPopulate : List String

def attributes? : Json → Option (Entries AttributeForm)
  | .obj members => do
    return Entries.ofList (← members.mapM fun m => do return (m.1, ← attributeForm? m.2))
  | _ => none

def typeKeys : List String := ["name", "kind", "draftAndPublish", "attributes", "defaultPopulate"]

def type? (j : Json) : Option TypeForm := do
  let [name, kind, draftAndPublish, attributes, defaultPopulate] ← record? typeKeys j | none
  return {
    name := ← required? Json.asStr? name
    kind := ← optional? (choice? typeKinds isNull) .collection kind
    draftAndPublish := ← optional? Json.asBool? false draftAndPublish
    attributes := ← optional? attributes? [] attributes
    defaultPopulate := ← optional? strings? [] defaultPopulate }

/-- A type without the members behind unknown keys. -/
def knownOfType : JsonTree → JsonTree
  | .obj members => .obj (members.filter fun m => m.1.all typeKeys.contains)
  | t => t

def knownOfTypes : JsonTree → JsonTree
  | .arr types => .arr (types.map knownOfType)
  | t => t

/-- A document without what is not looked at. -/
def knownOfDocument : JsonTree → JsonTree
  | .obj members => .obj (members.map fun m => (m.1, knownOfTypes m.2))
  | .arr items => .arr (items.map knownOfTypes)
  | t => t

def document? (j : Json) : Option (List TypeForm) := do
  let known :=
    match j with
    | .obj members => members.all (·.1 = "types")
    | _ => true
  if !known then none
  let [types] ← record? ["types"] j | none
  required? (fun j => do (← j.asArr?).mapM type?) types

/-! ## Meaning -/

def AttributeForm.definition (docType name : String) :
    AttributeForm → Except SchemaError AttributeDefinition
  | .plain kind required => .ok ⟨name, kind, required⟩
  | .relation .morph _ targets required =>
    if targets = [] then .error (.missingRelationKey docType name "targets")
    else .ok ⟨name, .polymorphic (Names.ofList targets), required⟩
  | .relation .one (some target) _ required => .ok ⟨name, .relationOne target, required⟩
  | .relation .many (some target) _ required => .ok ⟨name, .relationMany target, required⟩
  | .relation _ none _ _ => .error (.missingRelationKey docType name "target")

def TypeForm.documentType (t : TypeForm) : Except SchemaError DocumentType := do
  if t.draftAndPublish ∧ t.kind = .component then throw (.componentWithDrafts t.name)
  let attributes ← t.attributes.mapM fun a => a.2.definition t.name a.1
  return ⟨t.name, t.kind, t.draftAndPublish, attributes, t.defaultPopulate⟩

end Reader

/-- The registry that a schema document describes. -/
def ofText (text : String) : Except SchemaError Registry :=
  let forms := do
    let tree ← Json.tree? text
    Reader.document? (← (Reader.knownOfDocument tree).value? JsonTree.maxDepth)
  match forms with
  | none => .error .malformedDocument
  | some forms => do Registry.build (← forms.mapM Reader.TypeForm.documentType)

end ContentEngine.Schema
