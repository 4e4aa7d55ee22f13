import ContentEngine.Json.Basic

/-!
# Metrics

What an engine reports about its calls, and the counters that add it up. A counter stays at the
greatest 64-bit number once it is there.
-/

namespace ContentEngine

inductive ExecKind where
  | query
  | mutation
deriving DecidableEq, Repr

inductive MetricsEvent where
  | execStart (kind : ExecKind) (docType : String)
  | queryFinish (docType : String) (rows total : UInt64)
  | predicateCache (hit : Bool)
  | populateBatch (docType attr : String) (requested fetched : UInt64)
  | cycleSkip (docType : String)
  | mutationFinish (docType action : String) (committed : Bool)
  | hookAbort (docType : String)
  | afterHookFailure (docType : String) (failures : UInt64)
  | cancelled
deriving DecidableEq, Repr

/-- The sum, or the greatest word if it is beyond it. -/
def saturatingAdd (a b : UInt64) : UInt64 :=
  if a.toNat + b.toNat < UInt64.size then a + b else 0xffffffffffffffff

structure OpCounters where
  queryCalls : UInt64 := 0
  mutationCalls : UInt64 := 0
  rowsReturned : UInt64 := 0
  rowsPopulated : UInt64 := 0
  populateBatches : UInt64 := 0
  populateRefsRequested : UInt64 := 0
  populateCycleSkips : UInt64 := 0
  predicateCacheHits : UInt64 := 0
  predicateCacheMisses : UInt64 := 0
  cancelled : UInt64 := 0
deriving DecidableEq, Repr

structure MutationCounters where
  committed : UInt64 := 0
  aborted : UInt64 := 0
  afterHookFailures : UInt64 := 0
deriving DecidableEq, Repr

structure TypeCounters where
  queryCalls : UInt64 := 0
  mutationCalls : UInt64 := 0
  rowsReturned : UInt64 := 0
  rowsPopulated : UInt64 := 0
  hookAborts : UInt64 := 0
deriving DecidableEq, Repr

structure Metrics where
  ops : OpCounters := {}
  mutations : MutationCounters := {}
  types : Entries TypeCounters := []
deriving DecidableEq, Repr

namespace Metrics

def updateType (m : Metrics) (docType : String) (f : TypeCounters → TypeCounters) : Metrics :=
  { m with types := Entries.insert m.types docType (f ((Entries.get? m.types docType).getD {})) }

def updateOps (m : Metrics) (f : OpCounters → OpCounters) : Metrics := { m with ops := f m.ops }

def updateMutations (m : Metrics) (f : MutationCounters → MutationCounters) : Metrics :=
  { m with mutations := f m.mutations }

def record (m : Metrics) : MetricsEvent → Metrics
  | .execStart .query docType =>
    (m.updateOps fun o => { o with queryCalls := saturatingAdd o.queryCalls 1 }).updateType
      docType fun t => { t with queryCalls := saturatingAdd t.queryCalls 1 }
  | .execStart .mutation docType =>
    (m.updateOps fun o => { o with mutationCalls := saturatingAdd o.mutationCalls 1 }).updateType
      docType fun t => { t with mutationCalls := saturatingAdd t.mutationCalls 1 }
  | .queryFinish docType rows _ =>
    (m.updateOps fun o => { o with rowsReturned := saturatingAdd o.rowsReturned rows }).updateType
      docType fun t => { t with rowsReturned := saturatingAdd t.rowsReturned rows }
  | .predicateCache true =>
    m.updateOps fun o => { o with predicateCacheHits := saturatingAdd o.predicateCacheHits 1 }
  | .predicateCache false =>
    m.updateOps fun o => { o with predicateCacheMisses := saturatingAdd o.predicateCacheMisses 1 }
  | .populateBatch docType _ requested fetched =>
    (m.updateOps fun o =>
      { o with
        populateBatches := saturatingAdd o.populateBatches 1
        populateRefsRequested := saturatingAdd o.populateRefsRequested requested
        rowsPopulated := saturatingAdd o.rowsPopulated fetched }).updateType
      docType fun t => { t with rowsPopulated := saturatingAdd t.rowsPopulated fetched }
  | .cycleSkip _ =>
    m.updateOps fun o => { o with populateCycleSkips := saturatingAdd o.populateCycleSkips 1 }
  | .mutationFinish _ _ true =>
    m.updateMutations fun c => { c with committed := saturatingAdd c.committed 1 }
  | .mutationFinish _ _ false =>
    m.updateMutations fun c => { c with aborted := saturatingAdd c.aborted 1 }
  | .hookAbort docType =>
    m.updateType docType fun t => { t with hookAborts := saturatingAdd t.hookAborts 1 }
  | .afterHookFailure _ failures =>
    m.updateMutations fun c =>
      { c with afterHookFailures := saturatingAdd c.afterHookFailures failures }
  | .cancelled => m.updateOps fun o => { o with cancelled := saturatingAdd o.cancelled 1 }

def recordAll (m : Metrics) (events : List MetricsEvent) : Metrics := events.foldl record m

end Metrics

/-! ## Counters as JSON -/

def counterJson (counters : List (String × UInt64)) : Json :=
  .ofMembers (counters.map fun c => (c.1, .int c.2.toNat))

def OpCounters.toJson (o : OpCounters) : Json :=
  counterJson [("query_calls", o.queryCalls), ("mutation_calls", o.mutationCalls),
    ("rows_returned", o.rowsReturned), ("rows_populated", o.rowsPopulated),
    ("populate_batches", o.populateBatches), ("populate_refs_requested", o.populateRefsRequested),
    ("populate_cycle_skips", o.populateCycleSkips), ("predicate_cache_hits", o.predicateCacheHits),
    ("predicate_cache_misses", o.predicateCacheMisses), ("cancelled", o.cancelled)]

def MutationCounters.toJson (c : MutationCounters) : Json :=
  counterJson [("committed", c.committed), ("aborted", c.aborted),
    ("after_hook_failures", c.afterHookFailures)]

def TypeCounters.toJson (t : TypeCounters) : Json :=
  counterJson [("query_calls", t.queryCalls), ("mutation_calls", t.mutationCalls),
    ("rows_returned", t.rowsReturned), ("rows_populated", t.rowsPopulated),
    ("hook_aborts", t.hookAborts)]

def Metrics.toJson (m : Metrics) : Json :=
  .ofMembers [("ops", m.ops.toJson), ("mutations", m.mutations.toJson),
    ("types", .obj (m.types.map fun e => (e.1, e.2.toJson)))]

end ContentEngine
