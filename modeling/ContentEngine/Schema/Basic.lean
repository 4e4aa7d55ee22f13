import ContentEngine.Names
import ContentEngine.Value.Basic

/-!
# Document types

A document type names the attributes of its documents and what kind of value each of them holds. A
collection is stored on its own; a component is a shape embedded in a dynamic zone.
-/

namespace ContentEngine

def createdAtName : String := "createdAt"

def updatedAtName : String := "updatedAt"

def publishedAtName : String := "publishedAt"

inductive ScalarKind where
  | text
  | integer
  | float
  | boolean
  | datetime
  | json
deriving DecidableEq, Repr

namespace ScalarKind

def label : ScalarKind → String
  | .text => "text"
  | .integer => "integer"
  | .float => "float"
  | .boolean => "boolean"
  | .datetime => "datetime"
  | .json => "json"

def isNumeric : ScalarKind → Bool
  | .integer => true
  | .float => true
  | _ => false

def isOrderable : ScalarKind → Bool
  | .text => true
  | .integer => true
  | .float => true
  | .datetime => true
  | _ => false

end ScalarKind

inductive Cardinality where
  | one
  | many
deriving DecidableEq, Repr

def Cardinality.label : Cardinality → String
  | .one => "one"
  | .many => "many"

/-- A relation has one target type; the kinds with several shapes list their tags. -/
inductive AttributeKind where
  | scalar (kind : ScalarKind)
  | relationOne (target : String)
  | relationMany (target : String)
  | polymorphic (tags : Names)
  | dynamicZone (tags : Names)
deriving DecidableEq, Repr

namespace AttributeKind

def label : AttributeKind → String
  | .scalar kind => kind.label
  | .relationOne _ => "relation-one"
  | .relationMany _ => "relation-many"
  | .polymorphic _ => "polymorphic-relation"
  | .dynamicZone _ => "dynamic-zone"

def scalar? : AttributeKind → Option ScalarKind
  | .scalar kind => some kind
  | _ => none

def isPopulatable (k : AttributeKind) : Bool := k.scalar?.isNone

def relationTarget? : AttributeKind → Option String
  | .relationOne target => some target
  | .relationMany target => some target
  | _ => none

def tags? : AttributeKind → Option Names
  | .polymorphic tags => some tags
  | .dynamicZone tags => some tags
  | _ => none

def cardinality? : AttributeKind → Option Cardinality
  | .scalar _ => none
  | .relationOne _ => some .one
  | .relationMany _ => some .many
  | .polymorphic _ => some .many
  | .dynamicZone _ => some .many

end AttributeKind

structure AttributeDefinition where
  name : String
  kind : AttributeKind
  required : Bool := false
deriving DecidableEq, Repr

inductive TypeKind where
  | collection
  | component
deriving DecidableEq, Repr

def TypeKind.label : TypeKind → String
  | .collection => "collection"
  | .component => "component"

structure DocumentType where
  name : String
  kind : TypeKind := .collection
  draftAndPublish : Bool := false
  attributes : List AttributeDefinition := []
  /-- What is populated when the type is selected as a tag with the default shape. -/
  defaultPopulate : List String := []
deriving DecidableEq, Repr

/-- What is wrong with a schema, or with a request measured by it. -/
inductive SchemaError where
  | unknownType (name : String)
  | unknownField (docType field : String)
  | notTraversable (docType field kind : String)
  | notSortable (docType field kind : String)
  | unsupportedStatus (docType : String) (status : Status)
  | draftPublishDisabled (docType : String)
  | invalidValue (docType field expected found : String)
  | missingField (docType field : String)
  | duplicateType (name : String)
  | duplicateAttribute (docType field : String)
  | unknownTarget (docType field target : String) (expected : TypeKind)
  /-- The schema document is not JSON, or does not have the form of one. -/
  | malformedDocument
  | componentWithDrafts (name : String)
  | missingRelationKey (docType field key : String)
  | defaultPopulateNotRelation (name docType : String)
deriving DecidableEq, Repr

def SchemaError.message : SchemaError → String
  | .unknownType name => s!"unknown document type '{name}'"
  | .unknownField docType field => s!"unknown field '{field}' on '{docType}'"
  | .notTraversable docType field kind =>
    s!"field '{field}' on '{docType}' is {kind} and cannot be traversed"
  | .notSortable docType field kind =>
    s!"field '{field}' on '{docType}' is {kind} and cannot be sorted on"
  | .unsupportedStatus docType status =>
    s!"'{docType}' does not support status '{status.label}'"
  | .draftPublishDisabled docType => s!"'{docType}' does not support draft and publish"
  | .invalidValue docType field expected found =>
    s!"invalid value for '{docType}.{field}': expected {expected}, found {found}"
  | .missingField docType field => s!"missing required field '{field}' on '{docType}'"
  | .duplicateType name => s!"document type '{name}' registered twice"
  | .duplicateAttribute docType field => s!"attribute '{field}' declared twice on '{docType}'"
  | .unknownTarget docType field target expected =>
    s!"'{docType}.{field}' targets unknown {expected.label} '{target}'"
  | .malformedDocument => "invalid schema definition: malformed document"
  | .componentWithDrafts name =>
    s!"invalid schema definition: component '{name}' cannot enable draft and publish"
  | .missingRelationKey docType field key =>
    s!"invalid schema definition: relation '{docType}.{field}' is missing '{key}'"
  | .defaultPopulateNotRelation name docType =>
    s!"invalid schema definition: default populate entry '{name}' on '{docType}' is not a relation"

namespace DocumentType

def attr? (t : DocumentType) (name : String) : Option AttributeDefinition :=
  t.attributes.find? (·.name = name)

def getAttr (t : DocumentType) (name : String) : Except SchemaError AttributeDefinition :=
  match t.attr? name with
  | some a => .ok a
  | none => .error (.unknownField t.name name)

def relationAttributes (t : DocumentType) : List AttributeDefinition :=
  t.attributes.filter (·.kind.isPopulatable)

/-- The status at which a request reads or writes: with draft and publish the published one by
default, without it none, for which published is another name. -/
def resolveStatus (t : DocumentType) (status : Option Status) :
    Except SchemaError (Option Status) :=
  if t.draftAndPublish then .ok (some (status.getD .published))
  else
    match status with
    | some .draft => .error (.unsupportedStatus t.name .draft)
    | _ => .ok none

/-- The attributes that every collection has. -/
def systemAttributes (t : DocumentType) : List AttributeDefinition :=
  let always : List AttributeDefinition :=
    [⟨documentIdName, .scalar .text, false⟩, ⟨createdAtName, .scalar .datetime, false⟩,
     ⟨updatedAtName, .scalar .datetime, false⟩]
  match t.kind with
  | .component => []
  | .collection =>
    if t.draftAndPublish then always ++ [⟨publishedAtName, .scalar .datetime, false⟩] else always

/-- Appends the system attributes that the type does not declare itself. -/
def withSystemAttributes (t : DocumentType) : DocumentType :=
  { t with
    attributes :=
      t.attributes ++ t.systemAttributes.filter fun a => (t.attr? a.name).isNone }

end DocumentType
end ContentEngine
