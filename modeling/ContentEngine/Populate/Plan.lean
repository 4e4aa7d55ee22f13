import ContentEngine.Populate.Parser
import ContentEngine.Predicate.Cache
import ContentEngine.Projection

/-!
# Populate plans

A plan is the list of branches to expand, in attribute order, with every target type, filter and
projection settled. `PopulatePlan.build` checks a specification against a document type; a request
that it accepts cannot fail later for a reason of its own.

A tag that is selected with the default shape is populated as its type says. `planDefaults` expands
that, and `opened` holds the tags whose defaults are being expanded: a repeat gives an empty plan.
-/

namespace ContentEngine

/-- How the documents of one target type are fetched and expanded. -/
structure TargetOf (β : Type) where
  docType : String
  filter : Option Predicate
  projection : Projection
  versioned : Bool
  populate : List β
deriving Repr

/-- How the embedded components of one type are cut down and expanded. -/
structure ComponentOf (β : Type) where
  docType : String
  projection : Projection
  populate : List β
deriving Repr

inductive Branch where
  | relation (owner attr : String) (one : Bool) (target : TargetOf Branch)
  | polymorphic (owner attr : String) (targets : List (TargetOf Branch))
  | dynamicZone (owner attr : String) (components : List (ComponentOf Branch))
deriving Repr, Inhabited

abbrev PopulatePlan := List Branch

abbrev TargetPlan := TargetOf Branch

abbrev ComponentPlan := ComponentOf Branch

def Branch.owner : Branch → String
  | .relation owner _ _ _ => owner
  | .polymorphic owner _ _ => owner
  | .dynamicZone owner _ _ => owner

def Branch.attr : Branch → String
  | .relation _ attr _ _ => attr
  | .polymorphic _ attr _ => attr
  | .dynamicZone _ attr _ => attr

def PopulatePlan.attributes (p : PopulatePlan) : List String := p.map Branch.attr

/-- Planning may fail, and it compiles filters through the cache. -/
abbrev Planning := ExceptT PopulateError (StateM PredicateCache)

namespace Planning

def ofSchema {α : Type} : Except SchemaError α → Planning α
  | .ok a => pure a
  | .error e => throw (.schema e)

def compileFilter (r : Registry) (t : DocumentType) (f : Filter) : Planning Predicate := do
  let cache ← get
  let (result, cache) := cache.getOrCompile r t f
  set cache
  match result with
  | .ok (p, _) => pure p
  | .error e => throw (.filter e)

def runAll {α : Type} : List (Planning α) → Planning (List α)
  | [] => pure []
  | a :: as => do return (← a) :: (← runAll as)

/-- The projection to some fields of a type; populated attributes survive it. -/
def project (t : DocumentType) (fields : Option Names) (populate : PopulatePlan) :
    Planning Projection :=
  match fields with
  | none => pure .all
  | some names => do
    names.forM fun name => ofSchema ((t.getAttr name).map fun _ => ())
    return (Projection.only names).extend populate.attributes

/-- The target of a branch that has a shape of its own. -/
def target (r : Registry) (t : DocumentType) (fields : Option Names) (filters : Option Filter)
    (populate : PopulatePlan) : Planning TargetPlan := do
  let projection ← project t fields populate
  let filter ← filters.mapM (compileFilter r t)
  return ⟨t.name, filter, projection, t.draftAndPublish, populate⟩

def defaultTarget (t : DocumentType) (populate : PopulatePlan) : TargetPlan :=
  ⟨t.name, none, .all, t.draftAndPublish, populate⟩

def severalShapes (t : DocumentType) (attr : String) : PopulateError :=
  .malformed s!"'{t.name}.{attr}' has several shapes; use 'onVariant' or true"

def nestedTags (t : DocumentType) : PopulateError :=
  .malformed s!"nested 'onVariant' is not valid inside '{t.name}'"

/-- Every selected tag has to be one of the attribute's. -/
def checkTags (t : DocumentType) (attr : String) (allowed : Names) (selected : List String) :
    Planning Unit :=
  match selected.find? (· ∉ allowed) with
  | some tag => throw (.unknownTag t.name attr tag)
  | none => pure ()

/-- The populatable attribute of a name. -/
def populatable (t : DocumentType) (name : String) : Planning AttributeDefinition :=
  match t.attr? name with
  | some a => if a.kind.isPopulatable then pure a else throw (.unknownAttribute t.name name)
  | none => throw (.unknownAttribute t.name name)

section
variable (r : Registry) (expand : DocumentType → Planning PopulatePlan)

/-- An attribute populated with the default shape. -/
def defaultBranch (t : DocumentType) (name : String) : Planning Branch := do
  let a ← populatable t name
  match a.kind with
  | .scalar _ => throw (.unknownAttribute t.name name)
  | .relationOne target =>
    return .relation t.name a.name true (defaultTarget (← ofSchema (r.get target)) [])
  | .relationMany target =>
    return .relation t.name a.name false (defaultTarget (← ofSchema (r.get target)) [])
  | .polymorphic tags =>
    return .polymorphic t.name a.name (← runAll (tags.map fun tag => do
      let target ← ofSchema (r.get tag)
      return defaultTarget target (← expand target)))
  | .dynamicZone tags =>
    return .dynamicZone t.name a.name (← runAll (tags.map fun tag => do
      let component ← ofSchema (r.get tag)
      return ⟨component.name, .all, ← expand component⟩))

/-- The branches of the entries and, with the wildcard, of all other populatable attributes. -/
def withWildcard (t : DocumentType) (wildcard : Bool) (entries : Entries (Planning Branch)) :
    Planning PopulatePlan :=
  let missing := t.relationAttributes.filter fun a => !Entries.contains entries a.name
  let defaults := missing.map fun a => (a.name, defaultBranch r expand t a.name)
  runAll (Entries.values (if wildcard then Entries.insertAll entries defaults else entries))

mutual
def planSpec (t : DocumentType) : SpecOf PopulateNode → Planning PopulatePlan
  | ⟨wildcard, entries⟩ => withWildcard r expand t wildcard (planEntries t entries)

def planEntries (t : DocumentType) : List (String × PopulateNode) → List (String × Planning Branch)
  | [] => []
  | (name, node) :: rest => (name, planBranch t name node) :: planEntries t rest

def planBranch (t : DocumentType) (name : String) : PopulateNode → Planning Branch
  | .all => defaultBranch r expand t name
  | .shape ⟨fields, filters, populate⟩ => do
    let a ← populatable t name
    let one : Bool := a.kind.cardinality? = some .one
    match a.kind.relationTarget? with
    | none => throw (severalShapes t name)
    | some target =>
      let target ← ofSchema (r.get target)
      let populate ← planSpec target populate
      return .relation t.name a.name one (← Planning.target r target fields filters populate)
  | .tags nodes => do
    let a ← populatable t name
    match a.kind with
    | .polymorphic tags =>
      checkTags t name tags (nodes.map (·.1))
      return .polymorphic t.name a.name (← planTargets nodes)
    | .dynamicZone tags =>
      checkTags t name tags (nodes.map (·.1))
      return .dynamicZone t.name a.name (← planComponents nodes)
    | _ => throw (.tagsNotSupported t.name name)

/-- The targets of a polymorphic relation, by tag. -/
def planTargets : List (String × PopulateNode) → Planning (List TargetPlan)
  | [] => pure []
  | (tag, .all) :: rest => do
    let target ← ofSchema (r.get tag)
    let populate ← expand target
    return defaultTarget target populate :: (← planTargets rest)
  | (tag, .shape ⟨fields, filters, populate⟩) :: rest => do
    let target ← ofSchema (r.get tag)
    let populate ← planSpec target populate
    let plan ← Planning.target r target fields filters populate
    return plan :: (← planTargets rest)
  | (tag, .tags _) :: _ => do
    let target ← ofSchema (r.get tag)
    throw (nestedTags target)

/-- The components of a dynamic zone, by tag. They are not fetched, so they have no filter. -/
def planComponents : List (String × PopulateNode) → Planning (List ComponentPlan)
  | [] => pure []
  | (tag, .all) :: rest => do
    let component ← ofSchema (r.get tag)
    let populate ← expand component
    return ⟨component.name, .all, populate⟩ :: (← planComponents rest)
  | (tag, .shape ⟨fields, filters, populate⟩) :: rest => do
    let component ← ofSchema (r.get tag)
    if filters.isSome then
      throw (.malformed s!"'filters' is not supported on component '{component.name}'")
    let populate ← planSpec component populate
    let projection ← project component fields populate
    return ⟨component.name, projection, populate⟩ :: (← planComponents rest)
  | (tag, .tags _) :: _ => do
    let component ← ofSchema (r.get tag)
    throw (nestedTags component)
end

end

/-- What a type populates by default; `depth` bounds how many types can be open at once. -/
def planDefaults (r : Registry) : Nat → List String → DocumentType → Planning PopulatePlan
  | 0, _, _ => pure []
  | depth + 1, opened, t =>
    if t.name ∈ opened then pure []
    else
      planSpec r (planDefaults r depth (t.name :: opened)) t
        (PopulateSpec.ofPaths t.defaultPopulate)

end Planning

/-- The plan of a specification on a type, and the cache after its filters were compiled. -/
def PopulatePlan.build (r : Registry) (t : DocumentType) (spec : PopulateSpec)
    (cache : PredicateCache) : Except PopulateError PopulatePlan × PredicateCache :=
  (Planning.planSpec r (Planning.planDefaults r (r.types.length + 1) []) t spec).run.run cache

end ContentEngine
