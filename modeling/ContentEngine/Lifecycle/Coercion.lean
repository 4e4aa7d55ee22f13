import ContentEngine.Schema.Registry
import ContentEngine.Store.Memory
import ContentEngine.Value.Json

/-!
# Coercion of written data

Data to be written is brought into the form that the schema asks for: a text or an object with an
identifier becomes a reference, an object with a tag becomes an instance of a polymorphic relation
or an embedded component. The system attributes are left out, since the store writes them. A new
document, and every component, needs a value for each required attribute.

Components nest, as deep as the data does: `depth` bounds the levels, and `Value.depthFields` of the
data is enough. Every component gets a new identifier, with an odd number where the store takes even
ones.
-/

namespace ContentEngine

mutual
def Json.depth : Json → Nat
  | .arr items => Json.depthItems items + 1
  | .obj members => Json.depthMembers members + 1
  | .null => 0
  | .bool _ => 0
  | .int _ => 0
  | .double _ => 0
  | .str _ => 0

def Json.depthItems : List Json → Nat
  | [] => 0
  | j :: js => max (Json.depth j) (Json.depthItems js)

def Json.depthMembers : List (String × Json) → Nat
  | [] => 0
  | (_, j) :: ms => max (Json.depth j) (Json.depthMembers ms)
end

namespace Value

mutual
def depth : Value → Nat
  | .json j => j.depth
  | .list items => depthItems items + 1
  | .doc ⟨_, _, _, fields⟩ => depthFields fields + 1
  | .variant _ value => depth value + 1
  | .null => 0
  | .bool _ => 0
  | .int _ => 0
  | .float _ => 0
  | .text _ => 0
  | .ref _ => 0

def depthItems : List Value → Nat
  | [] => 0
  | v :: vs => max (depth v) (depthItems vs)

def depthFields : List (String × Value) → Nat
  | [] => 0
  | (_, v) :: fs => max (depth v) (depthFields fs)
end

end Value

/-- Coercion may fail, and it takes numbers for new identifiers. -/
abbrev Coercion := StateT Nat (Except SchemaError)

namespace Coercion

def systemNames : List String :=
  [documentIdName, createdAtName, updatedAtName, publishedAtName]

/-- The attribute that a value is meant for, for messages. -/
structure Site where
  docType : String
  field : String

def Site.invalid {α : Type} (s : Site) (expected : String) (v : Value) : Except SchemaError α :=
  .error (.invalidValue s.docType s.field expected v.kindLabel)

def scalar (s : Site) (kind : ScalarKind) (v : Value) : Except SchemaError Value :=
  match kind, v with
  | .json, .json j => .ok (.json j)
  | .json, v => .ok (.json v.toJson)
  | .text, .text t => .ok (.text t)
  | .integer, .int i => .ok (.int i)
  | .float, .float x => .ok (.float x)
  | .float, .int i => .ok (.float (Double.ofInt i.toInt))
  | .boolean, .bool b => .ok (.bool b)
  | .datetime, .text t =>
    if (Instant.millis? t).isSome then .ok (.text t) else s.invalid kind.label (.text t)
  | kind, v => s.invalid kind.label v

/-- The identifier that a value names: as text, reference, document or object. -/
def reference? : Value → Option DocumentId
  | .text id => some id
  | .ref id => some id
  | .doc d => some d.id
  | .json (.obj members) => (Entries.get? members documentIdName).bind Json.asStr?
  | _ => none

def reference (s : Site) (v : Value) : Except SchemaError Value :=
  match reference? v with
  | some id => .ok (.ref id)
  | none => s.invalid "document id" v

/-- The tag and identifier of an instance of a polymorphic relation. -/
def morph? : Value → Option (String × DocumentId)
  | .variant tag v => (reference? v).map (tag, ·)
  | .json (.obj members) => do
    let tag ← (Entries.get? members morphTypeKey).bind Json.asStr?
    let id ← (Entries.get? members documentIdName).bind Json.asStr?
    return (tag, id)
  | _ => none

def checkTag (s : Site) (tags : Names) (tag : String) : Except SchemaError Unit :=
  if tag ∈ tags then .ok ()
  else s.invalid ("one of [" ++ ", ".intercalate tags ++ "]") (.text tag)

def morph (s : Site) (tags : Names) (v : Value) : Except SchemaError Value :=
  match morph? v with
  | none => s.invalid s!"object with '{morphTypeKey}' and '{documentIdName}'" v
  | some (tag, id) => (checkTag s tags tag).map fun _ => .variant tag (.ref id)

/-- The fields of a component that is given as an object. -/
def componentFields (members : Entries Json) : Entries Value :=
  (members.filter fun m => m.1 ≠ componentKey ∧ m.1 ≠ "id").map fun m => (m.1, Value.ofJson m.2)

/-- The tag and fields of a component. -/
def component (s : Site) : Value → Except SchemaError (String × Entries Value)
  | .variant tag (.doc d) => .ok (tag, d.fields)
  | .variant _ v => s.invalid "component" v
  | .json (.obj members) =>
    match (Entries.get? members componentKey).bind Json.asStr? with
    | some tag => .ok (tag, componentFields members)
    | none => s.invalid s!"object with '{componentKey}'" (.json (.obj members))
  | v => s.invalid "component" v

def mapItems (f : Value → Coercion Value) : List Value → Coercion (List Value)
  | [] => pure []
  | v :: vs => do return (← f v) :: (← mapItems f vs)

/-- The items of a value that has to be a list. -/
def items (s : Site) (expected : String) : Value → Except SchemaError (List Value)
  | .list vs => .ok vs
  | v => s.invalid expected v

/-- A value for an attribute; `embed` coerces a component. -/
def value (s : Site) (embed : Names → Value → Coercion Value) (kind : AttributeKind) (v : Value) :
    Coercion Value :=
  if v.isNull then pure .null
  else
    match kind with
    | .scalar kind => liftM (scalar s kind v)
    | .relationOne _ => liftM (reference s v)
    | .relationMany _ => do
      let vs ← liftM (items s "list of document ids" v)
      return .list (← mapItems (fun v => liftM (reference s v)) vs)
    | .polymorphic tags => do
      let vs ← liftM (items s "list" v)
      return .list (← mapItems (fun v => liftM (morph s tags v)) vs)
    | .dynamicZone tags => do
      let vs ← liftM (items s "list" v)
      return .list (← mapItems (embed tags) vs)

def fields (embed : Site → Names → Value → Coercion Value) (t : DocumentType) :
    List (String × Value) → Coercion (Entries Value)
  | [] => pure []
  | (name, v) :: rest =>
    if name ∈ systemNames then fields embed t rest
    else do
      let a ← liftM (t.getAttr name)
      let w ← value ⟨t.name, name⟩ (embed ⟨t.name, name⟩) a.kind v
      return (name, w) :: (← fields embed t rest)

/-- The first required attribute without a value. -/
def missing? (t : DocumentType) (data : Entries Value) : Option AttributeDefinition :=
  t.attributes.find? fun a => a.required && (Entries.get? data a.name).all (·.isNull)

def checkRequired (t : DocumentType) (data : Entries Value) : Except SchemaError (Entries Value) :=
  match missing? t data with
  | some a => .error (.missingField t.name a.name)
  | none => .ok data

/-- An instance of a dynamic zone. -/
def embed (r : Registry) : Nat → Site → Names → Value → Coercion Value
  | 0, s, _, v => liftM (m := Except SchemaError) (s.invalid "component" v)
  | depth + 1, s, tags, v => do
    let (tag, data) ← liftM (component s v)
    liftM (checkTag s tags tag)
    let t ← liftM (r.get tag)
    let data ← fields (embed r depth) t data
    let data ← liftM (checkRequired t data)
    let n ← get
    set (n + 1)
    return .variant tag (.doc ⟨tag, DocumentId.generated (2 * n + 1), none, data⟩)

/-- The data of a document in the form of its type. -/
def document (r : Registry) (t : DocumentType) (data : Entries Value) (creating : Bool) :
    Coercion (Entries Value) := do
  let data ← fields (embed r (Value.depthFields data)) t data
  if creating then liftM (checkRequired t data) else return data

end Coercion
end ContentEngine
