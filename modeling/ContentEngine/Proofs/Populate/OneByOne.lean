import ContentEngine.Populate.Resolve
import ContentEngine.Store.Memory

/-!
# Populating documents one by one

`OneByOne.populate` populates a single document by plain recursion over a plan. Every reference is
fetched alone where it is met, and its document is populated before the next reference is looked at.
Nothing is shared between documents, attributes or references.
-/

namespace ContentEngine

namespace MemoryStore

/-- The document of a target under an identifier: at the status of the request, published by
default, for a target with drafts, and only if the target's filter accepts it. -/
def fetchOne {β : Type} (s : MemoryStore) (status : Option Status) (target : TargetOf β)
    (id : DocumentId) : Option Document :=
  let status := if target.versioned then some (status.getD .published) else none
  let found := s.get? target.docType id status
  let kept := found.filter fun d => target.filter.all fun p => p.holds (s.lookup status) d
  kept.map target.projection.apply

end MemoryStore

namespace Value

/-- Replaces the value of an instance, by its tag; none if the instance is dropped. -/
def mapInstance? (f : String → Value → Option Value) : Value → Option Value
  | .variant tag v => (f tag v).map (.variant tag)
  | v => some v

/-- Replaces the values of all instances. A dropped instance that stands alone leaves null. -/
def mapInstances (f : String → Value → Option Value) : Value → Value
  | .list items => .list (items.filterMap (mapInstance? f))
  | v => (mapInstance? f v).getD .null

end Value

def Document.setAll (d : Document) (values : List (String × Value)) : Document :=
  values.foldl (fun d e => d.set e.1 e.2) d

namespace Document

@[simp] theorem id_setAll (d : Document) (values : List (String × Value)) :
    (d.setAll values).id = d.id := by
  induction values generalizing d with
  | nil => rfl
  | cons e values ih => exact ih (d.set e.1 e.2)

@[simp] theorem docType_setAll (d : Document) (values : List (String × Value)) :
    (d.setAll values).docType = d.docType := by
  induction values generalizing d with
  | nil => rfl
  | cons e values ih => exact ih (d.set e.1 e.2)

@[simp] theorem status_setAll (d : Document) (values : List (String × Value)) :
    (d.setAll values).status = d.status := by
  induction values generalizing d with
  | nil => rfl
  | cons e values ih => exact ih (d.set e.1 e.2)

end Document

namespace OneByOne
variable (s : MemoryStore) (status : Option Status)

mutual
/-- What the planned attributes that a document has come to hold. -/
def newValues : List Branch → Chain → Document → List (String × Value)
  | [], _, _ => []
  | b :: bs, chain, d =>
    match d.get? b.attr with
    | none => newValues bs chain d
    | some v => (b.attr, newValue b chain d.id v) :: newValues bs chain d

/-- What an attribute comes to hold, for a stored value in a document that a chain leads to. -/
def newValue : Branch → Chain → DocumentId → Value → Value
  | .relation _ attr one ⟨docType, filter, projection, versioned, populate⟩, chain, id, v =>
    if (id, attr) ∈ chain then v
    else
      let target : TargetPlan := ⟨docType, filter, projection, versioned, populate⟩
      let docs := v.refs.filterMap (s.fetchOne status target)
      relationValue one
        (docs.map fun d => d.setAll (newValues populate ((id, attr) :: chain) d))
  | .polymorphic _ attr targets, chain, id, v =>
    if (id, attr) ∈ chain then v
    else v.mapInstances (newTarget targets ((id, attr) :: chain))
  | .dynamicZone _ _ components, chain, _, v => v.mapInstances (newComponent components chain)

/-- The value of a polymorphic instance. Instances of a tag that is not planned stay as they are. -/
def newTarget : List (TargetOf Branch) → Chain → String → Value → Option Value
  | [], _, _, v => some v
  | ⟨docType, filter, projection, versioned, populate⟩ :: rest, chain, tag, v =>
    if docType = tag then
      let target : TargetPlan := ⟨docType, filter, projection, versioned, populate⟩
      match v with
      | .ref id =>
        (s.fetchOne status target id).map fun d => .doc (d.setAll (newValues populate chain d))
      | .doc d => some (.doc (Document.setAll d (newValues populate chain d)))
      | v => some v
    else newTarget rest chain tag v

/-- The value of a component, cut down and populated where it is. -/
def newComponent : List (ComponentOf Branch) → Chain → String → Value → Option Value
  | [], _, _, v => some v
  | ⟨docType, projection, populate⟩ :: rest, chain, tag, v =>
    if docType = tag then
      match v with
      | .doc d =>
        let d := projection.apply d
        some (.doc (Document.setAll d (newValues populate chain d)))
      | v => some v
    else newComponent rest chain tag v
end

/-- A document that a chain leads to, with all planned attributes populated. -/
def populate (plan : PopulatePlan) (chain : Chain) (d : Document) : Document :=
  d.setAll (newValues s status plan chain d)

end OneByOne
end ContentEngine
