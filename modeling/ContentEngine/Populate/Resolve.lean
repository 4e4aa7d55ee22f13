import ContentEngine.Clock.Log
import ContentEngine.Places
import ContentEngine.Populate.Plan
import ContentEngine.Store.Basic

/-!
# Populating documents

`Resolver.resolve` expands a plan over documents, one level after the other. The references that all
documents of a level hold in one attribute are fetched together, each once; sibling attributes run
side by side.

Every document carries the steps that led to it from its root, as pairs of a document and an
attribute. A step that is taken a second time is a cycle, and its references stay as they are stored.
-/

namespace ContentEngine

abbrev Chain := List (DocumentId × String)

/-- A document to populate. -/
structure Slot where
  doc : Document
  chain : Chain := []

/-- A value of an attribute of a document to populate. -/
structure Item where
  parent : DocumentId
  chain : Chain
  value : Value

namespace Value

/-- The instances of a polymorphic relation or a dynamic zone. -/
def instances : Value → List (String × Value)
  | .variant tag v => [(tag, v)]
  | .list items => items.filterMap fun
    | .variant tag v => some (tag, v)
    | _ => none
  | _ => []

/-- The values of the instances of one tag. -/
def tagged (tag : String) (v : Value) : List Value :=
  v.instances.filterMap fun i => if i.1 = tag then some i.2 else none

/-- The place of a document in an instance of one tag. -/
def instancePlace (tag : String) : Value → Option (Document → Value)
  | .variant t (.doc _) => if t = tag then some fun d => .variant t (.doc d) else none
  | _ => none

/-- Puts documents into the instances of one tag that hold a document, in order. -/
def refillInstances (tag : String) (v : Value) (docs : List Document) : Value :=
  match v with
  | .list items => .list (Places.refill (instancePlace tag) items docs)
  | v => ((Places.refill (instancePlace tag) [v] docs).head?).getD v

/-- Replaces the reference of an instance by the fetched document; none if the tag was fetched and
the document is not there. -/
def attachOne? (fetched : Entries (Entries Document)) : Value → Option Value
  | .variant tag (.ref id) =>
    match Entries.get? fetched tag with
    | none => some (.variant tag (.ref id))
    | some rows => (Entries.get? rows id).map fun d => .variant tag (.doc d)
  | v => some v

/-- Attaches fetched documents to all instances, and drops those whose document is not there. -/
def attach (fetched : Entries (Entries Document)) : Value → Value
  | .list items => .list (items.filterMap (attachOne? fetched))
  | v => (attachOne? fetched v).getD .null

end Value

namespace Slot

def item? (attr : String) (s : Slot) : Option Item :=
  (s.doc.get? attr).map fun v => ⟨s.doc.id, s.chain, v⟩

/-- The place of an attribute in a document that has it. -/
def attrPlace (attr : String) (s : Slot) : Option (Value → Slot) :=
  (s.doc.get? attr).map fun _ v => { s with doc := s.doc.set attr v }

/-- Sets attributes, each to its column of values. -/
def fill (slots : List Slot) (columns : List (String × List Value)) : List Slot :=
  columns.foldl (fun slots c => Places.refill (attrPlace c.1) slots c.2) slots

end Slot

namespace Item

def isCycle (attr : String) (i : Item) : Bool := i.chain.contains (i.parent, attr)

def withValue (i : Item) (v : Value) : Item := { i with value := v }

/-- The place of the value of an item that is no cycle. -/
def livePlace (attr : String) (i : Item) : Option (Value → Item) :=
  if i.isCycle attr then none else some i.withValue

/-- A document that an item leads to through an attribute. -/
def child (attr : String) (i : Item) (d : Document) : Slot := ⟨d, (i.parent, attr) :: i.chain⟩

/-- The documents that an item refers to, as far as they were fetched. -/
def targets (rows : Entries Document) (i : Item) : List Document :=
  i.value.refs.filterMap (Entries.get? rows)

/-- The documents in the instances of one tag. -/
def embedded (tag : String) (i : Item) : List Document :=
  (i.value.tagged tag).filterMap Value.asDoc?

/-- Puts documents into the instances of one tag of some items. -/
def refillTag (items : List Item) (tag : String) (docs : List Document) : List Item :=
  let groups := Places.regroup (items.map (embedded tag)) docs
  items.zipWith (fun i group => i.withValue (i.value.refillInstances tag group)) groups

def refillTags (items : List Item) (groups : List (String × List Document)) : List Item :=
  groups.foldl (fun items g => refillTag items g.1 g.2) items

end Item

/-- What a relation holds once it is populated. -/
def relationValue (one : Bool) (docs : List Document) : Value :=
  if one then docs.head?.elim .null .doc else .list (docs.map .doc)

/-- Where documents are fetched, at which status, and what may cut that off. -/
structure Resolver (σ : Type) where
  store : DocumentStore σ
  state : σ
  status : Option Status
  token : CancelToken

namespace Resolver
variable {σ β : Type}

/-- The status at which documents of a target are read. -/
def statusFor (r : Resolver σ) (target : TargetOf β) : Option Status :=
  if target.versioned then some (r.status.getD .published) else none

/-- Fetches documents of a target by identifier; for no references nothing is called. -/
def fetch (r : Resolver σ) (attr : String) (target : TargetOf β) (ids : List DocumentId) :
    StoreCall (Entries Document) :=
  if ids.isEmpty then Call.succeed []
  else do
    let found := r.store.references r.state target.docType ids target.filter target.projection
      (r.statusFor target)
    let rows ← r.token.run Interruption.cancelled
      (StoreCall.ofStore (r.store.delay r.state) (.references target.docType ids) found)
    Call.record (.metric (.populateBatch target.docType attr (UInt64.ofNat ids.length)
      (UInt64.ofNat rows.length)))
    return Entries.ofList (rows.map fun d => (d.id, d))

/-- Fetches what the instances of every target's tag refer to, all at once. -/
def fetchTags (r : Resolver σ) (attr : String) (targets : List (TargetOf β)) (items : List Item) :
    StoreCall (Entries (Entries Document)) :=
  Call.all (targets.map fun target => do
    let refs := items.flatMap fun i => (i.value.tagged target.docType).flatMap Value.refs
    return (target.docType, ← r.fetch attr target (Names.distinct refs)))

/-- Populates documents, given how the columns of the attributes are resolved. -/
def expand (columns : List Slot → List (StoreCall (String × List Value))) (slots : List Slot) :
    StoreCall (List Document) :=
  if slots.isEmpty then Call.succeed []
  else do
    let columns ← Call.all (columns slots)
    return (Slot.fill slots columns).map (·.doc)

/-- Resolves the items that are no cycle, and keeps the values of the others. -/
def acyclic (owner attr : String) (items : List Item)
    (resolve : List Item → StoreCall (List Value)) : StoreCall (List Value) := do
  Call.recordAll ((items.filter (Item.isCycle attr)).map fun _ => .metric (.cycleSkip owner))
  let values ← resolve (items.filter fun i => !i.isCycle attr)
  return (Places.refill (Item.livePlace attr) items values).map (·.value)

mutual
/-- The columns of the attributes of a plan. -/
def columns (r : Resolver σ) : List Branch → List Slot → List (StoreCall (String × List Value))
  | [], _ => []
  | b :: bs, slots =>
    (do return (b.attr, ← branch r b (slots.filterMap (Slot.item? b.attr)))) :: columns r bs slots

def branch (r : Resolver σ) : Branch → List Item → StoreCall (List Value)
  | .relation owner attr one ⟨docType, filter, projection, versioned, populate⟩, items =>
    acyclic owner attr items fun items => do
      let target : TargetPlan := ⟨docType, filter, projection, versioned, populate⟩
      let rows ← r.fetch attr target (Names.distinct (items.flatMap (·.value.refs)))
      let children := items.map fun i => (i.targets rows).map (i.child attr)
      let docs ← expand (columns r populate) children.flatten
      return (Places.regroup children docs).map (relationValue one)
  | .polymorphic owner attr targets, items =>
    acyclic owner attr items fun items => do
      let fetched ← r.fetchTags attr targets items
      let items := items.map fun i => i.withValue (i.value.attach fetched)
      let groups ← Call.all (targetGroups r attr targets items)
      return (Item.refillTags items groups).map (·.value)
  | .dynamicZone _ _ components, items => do
    let groups ← Call.all (componentGroups r components items)
    return (Item.refillTags items groups).map (·.value)

/-- The populated targets of polymorphic instances, by tag; a tag without any has no group. -/
def targetGroups (r : Resolver σ) (attr : String) :
    List (TargetOf Branch) → List Item → List (StoreCall (String × List Document))
  | [], _ => []
  | ⟨docType, _, _, _, populate⟩ :: rest, items =>
    let slots := items.flatMap fun i => (i.embedded docType).map (i.child attr)
    let others := targetGroups r attr rest items
    if slots.isEmpty then others
    else (do return (docType, ← expand (columns r populate) slots)) :: others

/-- The populated components of a dynamic zone, by tag. They are embedded: nothing is fetched for
them, and they add no step to the chain. -/
def componentGroups (r : Resolver σ) :
    List (ComponentOf Branch) → List Item → List (StoreCall (String × List Document))
  | [], _ => []
  | ⟨docType, projection, populate⟩ :: rest, items =>
    let slots := items.flatMap fun i =>
      (i.embedded docType).map fun d => ⟨projection.apply d, i.chain⟩
    let others := componentGroups r rest items
    if slots.isEmpty then others
    else (do return (docType, ← expand (columns r populate) slots)) :: others
end

/-- Populates documents by a plan; their order and number stay. -/
def resolve (r : Resolver σ) (plan : PopulatePlan) (roots : List Document) :
    StoreCall (List Document) :=
  expand (columns r plan) (roots.map fun d => ⟨d, []⟩)

end Resolver
end ContentEngine
