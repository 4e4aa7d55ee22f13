import ContentEngine.Engine.Basic

/-!
# Reading

`Engine.query` checks a request against the schema, fetches the number of matches and the page side by
side, and populates the page. `findFirst`, `findOne` and `count` are special cases of it. A request
that is at fault fails before the store is called.
-/

namespace ContentEngine

/-- What checking a request works with: the cache, and the metrics so far. -/
structure Desk where
  cache : PredicateCache
  metrics : List MetricsEvent := []

abbrev Preparing := ExceptT Error (StateM Desk)

/-- A request that is ready to be run. -/
structure PreparedQuery where
  docType : String
  status : Option Status
  predicate : Predicate
  plan : PopulatePlan
  window : PageWindow
  fetch : FetchWindow

structure PreparedCount where
  docType : String
  status : Option Status
  predicate : Predicate

namespace Preparing
variable {α β ε : Type}

def ofExcept (wrap : ε → Error) : Except ε α → Preparing α
  | .ok a => pure a
  | .error e => throw (wrap e)

def record (m : MetricsEvent) : Preparing Unit :=
  modify fun d => { d with metrics := d.metrics ++ [m] }

/-- The predicate of a request's filter; without one it always holds. -/
def predicate (r : Registry) (t : DocumentType) : Option Filter → Preparing Predicate
  | none => pure .always
  | some f => do
    let desk ← get
    let (result, cache) := desk.cache.getOrCompile r t f
    set { desk with cache := cache }
    let (p, hit) ← ofExcept .filter result
    record (.predicateCache hit)
    return p

def plan (r : Registry) (t : DocumentType) (spec : PopulateSpec) : Preparing PopulatePlan := do
  let desk ← get
  let (result, cache) := PopulatePlan.build r t spec desk.cache
  set { desk with cache := cache }
  ofExcept .populate result

end Preparing

namespace Engine
variable {σ : Type}

/-- A request sorts by attributes whose values have an order. -/
def checkSort (t : DocumentType) (key : SortKey) : Except SchemaError Unit := do
  let a ← t.getAttr key.field
  if a.kind.scalar?.any (·.isOrderable) then .ok ()
  else .error (.notSortable t.name key.field a.kind.label)

/-- The fields that a request shows: those it names, and the populated attributes. -/
def rootProjection (t : DocumentType) (fields : Option Names) (plan : PopulatePlan) :
    Except SchemaError Projection :=
  match fields with
  | none => .ok .all
  | some names => do
    names.forM fun name => (t.getAttr name).map fun _ => ()
    return (Projection.only names).extend plan.attributes

def prepareQuery (e : Engine σ) (docType : String) (q : QueryRequest) :
    Preparing PreparedQuery := do
  let t ← Preparing.ofExcept .schema (e.registry.collection docType)
  Preparing.record (.execStart .query docType)
  let status ← Preparing.ofExcept .schema (t.resolveStatus q.status)
  let predicate ← Preparing.predicate e.registry t q.filters
  let plan ← Preparing.plan e.registry t q.populate
  let window ← Preparing.ofExcept .page (q.page.window e.config.pages)
  Preparing.ofExcept .schema (q.sort.forM (checkSort t))
  let projection ← Preparing.ofExcept .schema (rootProjection t q.fields plan)
  let fetch : FetchWindow := ⟨window.start, window.limit, q.sort, projection⟩
  return ⟨docType, status, predicate, plan, window, fetch⟩

def prepareCount (e : Engine σ) (docType : String) (filters : Option Filter)
    (status : Option Status) : Preparing PreparedCount := do
  let t ← Preparing.ofExcept .schema (e.registry.collection docType)
  let status ← Preparing.ofExcept .schema (t.resolveStatus status)
  let predicate ← Preparing.predicate e.registry t filters
  return ⟨docType, status, predicate⟩

/-- A call that is prepared, and then reads from the store. -/
def reading {α β : Type} (e : Engine σ) (s : EngineState σ) (now : Nat) (prepare : Preparing α)
    (run : α → StoreCall β) : Answer σ β :=
  let (prepared, desk) := prepare.run.run { cache := s.cache }
  let call : EngineCall β := do
    Call.recordAll (desk.metrics.map .metric)
    let a ← Call.ofExcept prepared
    (run a).mapError Interruption.error
  let progress := call now
  { progress := progress
    state := { s with
      cache := desk.cache
      store := e.store.noteAll s.store progress.log } }

/-- A read records what its preparation has counted, fails if that has failed, and then runs. -/
theorem progress_eq_call {α β : Type} (e : Engine σ) (s : EngineState σ) (now : Nat)
    (prepare : Preparing α) (run : α → StoreCall β) :
    (e.reading s now prepare run).progress =
      (do
        Call.recordAll ((prepare.run.run { cache := s.cache }).2.metrics.map .metric)
        let a ← Call.ofExcept (prepare.run.run { cache := s.cache }).1
        (run a).mapError Interruption.error : EngineCall β) now := rfl

def countCall (e : Engine σ) (store : σ) (p : PreparedCount) : StoreCall UInt64 :=
  StoreCall.ofStore (e.store.delay store) (.count p.docType)
    (e.store.count store p.docType p.predicate p.status)

def pageCall (e : Engine σ) (store : σ) (p : PreparedQuery) : StoreCall (List Document) :=
  StoreCall.ofStore (e.store.delay store) (.page p.docType)
    (e.store.page store p.docType p.predicate p.status p.fetch)

def populate (e : Engine σ) (store : σ) (token : CancelToken) (p : PreparedQuery)
    (rows : List Document) : StoreCall (List Document) :=
  if p.plan.isEmpty then Call.succeed rows
  else StoreCall.observed (Resolver.resolve ⟨e.store, store, p.status, token⟩ p.plan rows)

/-- Runs a prepared query: the count and the page side by side, then the populated attributes. -/
def runQuery (e : Engine σ) (store : σ) (token : CancelToken) (p : PreparedQuery) :
    StoreCall (PageResult Document) := do
  let fetching := Call.both (e.countCall store ⟨p.docType, p.status, p.predicate⟩)
    (e.pageCall store p)
  let (total, rows) ← StoreCall.observed (token.run Interruption.cancelled fetching)
  let rows ← e.populate store token p rows
  Call.record (.metric (.queryFinish p.docType (UInt64.ofNat rows.length) total))
  return ⟨rows, p.window.describe total⟩

/-- One page of the documents that a request selects. -/
def query (e : Engine σ) (s : EngineState σ) (docType : String) (q : QueryRequest)
    (token : CancelToken) (now : Nat) : Answer σ (PageResult Document) :=
  e.reading s now (e.prepareQuery docType q) (e.runQuery s.store (e.tokenOf token now))

/-- The first document that a request selects. -/
def findFirst (e : Engine σ) (s : EngineState σ) (docType : String) (q : QueryRequest)
    (token : CancelToken) (now : Nat) : Answer σ (Option Document) :=
  (e.query s docType { q with page := .page (some 1) (some 1) } token now).map (·.data.head?)

/-- The document of an identifier, if the request selects it. -/
def findOne (e : Engine σ) (s : EngineState σ) (docType : String) (id : DocumentId)
    (q : QueryRequest) (token : CancelToken) (now : Nat) : Answer σ (Option Document) :=
  e.findFirst s docType (q.filter (.leaf documentIdName .eq (.text id))) token now

/-- The number of documents that match a filter. -/
def count (e : Engine σ) (s : EngineState σ) (docType : String) (filters : Option Filter)
    (status : Option Status) (token : CancelToken) (now : Nat) : Answer σ UInt64 :=
  e.reading s now (e.prepareCount docType filters status) fun p =>
    StoreCall.observed
      ((e.tokenOf token now).run Interruption.cancelled (e.countCall s.store p))

end Engine
end ContentEngine
