import ContentEngine.Schema.Basic

/-!
# The registry of document types

`Registry.build` adds the system attributes, refuses a repeated type, and then checks every type in
name order: no attribute is declared twice, every target is a type of the kind that its attribute
asks for, and what is populated by default is populatable.
-/

namespace ContentEngine

structure Registry where
  types : Entries DocumentType
deriving Repr

namespace Registry

def get? (r : Registry) (name : String) : Option DocumentType := Entries.get? r.types name

def get (r : Registry) (name : String) : Except SchemaError DocumentType :=
  match r.get? name with
  | some t => .ok t
  | none => .error (.unknownType name)

/-- A type that documents are stored under; a component counts as unknown. -/
def collection (r : Registry) (name : String) : Except SchemaError DocumentType :=
  match r.get? name with
  | some t => if t.kind = .collection then .ok t else .error (.unknownType name)
  | none => .error (.unknownType name)

/-- The registered types in name order. -/
def all (r : Registry) : List DocumentType := Entries.values r.types

def hasDrafts (r : Registry) (name : String) : Bool := (r.get? name).any (·.draftAndPublish)

end Registry

/-- The types that an attribute names, and the kind that they have to be of. -/
def AttributeKind.targets : AttributeKind → List String × TypeKind
  | .scalar _ => ([], .collection)
  | .relationOne target => ([target], .collection)
  | .relationMany target => ([target], .collection)
  | .polymorphic tags => (tags, .collection)
  | .dynamicZone tags => (tags, .component)

namespace Schema

def checkTargets (types : Entries DocumentType) (docType field : String) (expected : TypeKind) :
    List String → Except SchemaError Unit
  | [] => .ok ()
  | target :: targets =>
    if (Entries.get? types target).map (·.kind) = some expected then
      checkTargets types docType field expected targets
    else .error (.unknownTarget docType field target expected)

def checkAttributes (types : Entries DocumentType) (docType : String) (seen : List String) :
    List AttributeDefinition → Except SchemaError Unit
  | [] => .ok ()
  | a :: as =>
    if a.name ∈ seen then .error (.duplicateAttribute docType a.name)
    else
      match checkTargets types docType a.name a.kind.targets.2 a.kind.targets.1 with
      | .error e => .error e
      | .ok () => checkAttributes types docType (a.name :: seen) as

def checkDefaults (t : DocumentType) : List String → Except SchemaError Unit
  | [] => .ok ()
  | name :: names =>
    match t.getAttr name with
    | .error e => .error e
    | .ok a =>
      if a.kind.isPopulatable then checkDefaults t names
      else .error (.defaultPopulateNotRelation name t.name)

def checkType (types : Entries DocumentType) (t : DocumentType) : Except SchemaError Unit :=
  match checkAttributes types t.name [] t.attributes with
  | .error e => .error e
  | .ok () => checkDefaults t t.defaultPopulate

def checkTypes (types : Entries DocumentType) : List DocumentType → Except SchemaError Unit
  | [] => .ok ()
  | t :: ts =>
    match checkType types t with
    | .error e => .error e
    | .ok () => checkTypes types ts

def collect (types : Entries DocumentType) :
    List DocumentType → Except SchemaError (Entries DocumentType)
  | [] => .ok types
  | t :: ts =>
    if Entries.contains types t.name then .error (.duplicateType t.name)
    else collect (Entries.insert types t.name t.withSystemAttributes) ts

end Schema

def Registry.build (types : List DocumentType) : Except SchemaError Registry :=
  match Schema.collect [] types with
  | .error e => .error e
  | .ok collected =>
    match Schema.checkTypes collected (Entries.values collected) with
    | .error e => .error e
    | .ok () => .ok ⟨collected⟩

end ContentEngine
