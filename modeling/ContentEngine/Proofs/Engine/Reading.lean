import ContentEngine.Proofs.Engine.Published
import ContentEngine.Proofs.Lifecycle.Atomicity
import ContentEngine.Proofs.Populate.Cached

/-!
# Preparing a request

What preparing a request gives does not depend on the cache of the engine, as long as that is
faithful; so `Accepts` says when a request is accepted without a word about the cache. Reading leaves
the cache faithful, and of the store it changes the counters only.
-/

namespace ContentEngine

namespace Preparing
variable {α : Type}

theorem runs_record (m : MetricsEvent) (d : Desk) :
    Runs (record m) d () { d with metrics := d.metrics ++ [m] } := rfl

theorem runs_ofExcept {ε : Type} {wrap : ε → Error} {x : Except ε α} {a : α} (h : x = .ok a)
    (d : Desk) : Runs (ofExcept wrap x) d a d := by
  subst h
  rfl

theorem runs_plan_iff {r : Registry} {t : DocumentType} {spec : PopulateSpec} {d d' : Desk} {p : PopulatePlan} :
    Runs (plan r t spec) d p d' ↔
      ∃ cache, PopulatePlan.build r t spec d.cache = (.ok p, cache) ∧
        d' = { d with cache := cache } := by
  have hrun : (plan r t spec).run.run d =
      (ofExcept Error.populate (PopulatePlan.build r t spec d.cache).1).run.run
        { d with cache := (PopulatePlan.build r t spec d.cache).2 } := rfl
  unfold Runs
  rw [hrun]
  rcases PopulatePlan.build r t spec d.cache with ⟨e | p', cache⟩
  · simp only [Prod.mk.injEq, reduceCtorEq, false_and, exists_false, iff_false]
    exact fun h => absurd (Prod.ext_iff.1 h).1 (by rintro ⟨⟩)
  · constructor
    · intro h
      obtain ⟨hplan, rfl⟩ := Prod.mk.inj h
      obtain rfl := Except.ok.inj hplan
      exact ⟨cache, rfl, rfl⟩
    · rintro ⟨cache', hbuild, rfl⟩
      obtain ⟨hplan, rfl⟩ := Prod.mk.inj hbuild
      obtain rfl := Except.ok.inj hplan
      rfl

/-! ## Faithful caches -/

variable {r : Registry} {filters : List Filter}

/-- The cache on the desk is faithful. -/
def Faithful (r : Registry) (filters : List Filter) (d : Desk) : Prop :=
  d.cache.Faithful r (r.Asks filters)

theorem steady_ofExcept {S : Desk → Prop} {ε : Type} (wrap : ε → Error) (x : Except ε α) :
    Steady S (ofExcept wrap x) := by
  cases x with
  | ok a => exact steady_pure a
  | error e => exact steady_throw _

theorem steady_record (m : MetricsEvent) : Steady (Faithful r filters) (record m) :=
  fun _ _ hd _ => ⟨rfl, hd⟩

/-- The predicate of a filter comes out of the cache. -/
theorem run_predicate (r : Registry) (t : DocumentType) (f : Filter) (d : Desk) :
    ((predicate r t (some f)).run.run d).1 =
        ((d.cache.getOrCompile r t f).1.map (·.1)).mapError Error.filter ∧
      ((predicate r t (some f)).run.run d).2.cache = (d.cache.getOrCompile r t f).2 := by
  have hget : ∀ k : Desk → Preparing Predicate, (get >>= k).run.run d = (k d).run.run d :=
    fun _ => rfl
  unfold predicate
  simp only [hget]
  rcases d.cache.getOrCompile r t f with ⟨e | ⟨p, hit⟩, c⟩ <;> exact ⟨rfl, rfl⟩

theorem steady_predicate (hd : Distinguished r (r.Asks filters)) {name : String} {t : DocumentType}
    (ht : r.get? name = some t) {filter : Option Filter} (hfilter : ∀ f ∈ filter, f ∈ filters) :
    Steady (Faithful r filters) (predicate r t filter) := by
  cases filter with
  | none => exact steady_pure _
  | some f =>
    have hasked : r.Asks filters ⟨t, f⟩ := ⟨⟨name, ht⟩, hfilter f rfl⟩
    intro d d' hfaithful hfaithful'
    obtain ⟨hanswer, hkept⟩ := hfaithful.getOrCompile hd hasked
    obtain ⟨hanswer', -⟩ := hfaithful'.getOrCompile hd hasked
    refine ⟨?_, ?_⟩
    · rw [(run_predicate r t f d).1, (run_predicate r t f d').1, hanswer, hanswer']
    · unfold Faithful
      rwa [(run_predicate r t f d).2]

theorem steady_plan (hd : Distinguished r (r.Asks filters)) (t : DocumentType)
    {spec : PopulateSpec} (hspec : spec.Uses filters) :
    Steady (Faithful r filters) (plan r t spec) := by
  intro d d' hfaithful hfaithful'
  obtain ⟨hsame, hkept⟩ := PopulatePlan.build_eq hd hspec hfaithful hfaithful' t
  have hrun : ∀ d : Desk, (plan r t spec).run.run d =
      (ofExcept Error.populate (PopulatePlan.build r t spec d.cache).1).run.run
        { d with cache := (PopulatePlan.build r t spec d.cache).2 } := fun _ => rfl
  rw [hrun, hrun, hsame]
  cases (PopulatePlan.build r t spec d'.cache).1 with
  | ok plan => exact ⟨rfl, hkept⟩
  | error e => exact ⟨rfl, hkept⟩

end Preparing

/-- All filters of a request are among the given ones. -/
structure QueryRequest.Uses (filters : List Filter) (q : QueryRequest) : Prop where
  root : ∀ f ∈ q.filters, f ∈ filters
  populate : q.populate.Uses filters

namespace Engine
open Preparing

variable {e : Engine MemoryStore} {filters : List Filter} {docType : String} {q : QueryRequest}

theorem steady_prepareQuery (hd : Distinguished e.registry (e.registry.Asks filters))
    (docType : String) (hq : q.Uses filters) :
    Steady (Faithful e.registry filters) (e.prepareQuery docType q) := by
  refine (steady_ofExcept _ _).bind (ensures_ofExcept _ _) fun t ht => ?_
  have hget := (Registry.get?_of_collection ht).1
  refine (steady_record _).andThen fun _ => ?_
  refine (steady_ofExcept _ _).andThen fun status => ?_
  refine (steady_predicate hd hget hq.root).andThen fun p => ?_
  refine (steady_plan hd t hq.populate).andThen fun plan => ?_
  refine (steady_ofExcept _ _).andThen fun window => ?_
  refine (steady_ofExcept _ _).andThen fun _ => ?_
  exact (steady_ofExcept _ _).andThen fun projection => steady_pure _

theorem steady_prepareCount (hd : Distinguished e.registry (e.registry.Asks filters))
    (docType : String) {filter : Option Filter} (hfilter : ∀ f ∈ filter, f ∈ filters)
    (status : Option Status) :
    Steady (Faithful e.registry filters) (e.prepareCount docType filter status) := by
  refine (steady_ofExcept _ _).bind (ensures_ofExcept _ _) fun t ht => ?_
  have hget := (Registry.get?_of_collection ht).1
  refine (steady_ofExcept _ _).andThen fun status => ?_
  exact (steady_predicate hd hget hfilter).andThen fun p => steady_pure _

/-- The request passes all checks but that of its page: its type and status, what its filter compiles
to, the plan of what it populates, and the fields that it shows. -/
structure Accepts (e : Engine MemoryStore) (docType : String) (q : QueryRequest) (t : DocumentType)
    (status : Option Status) (p : Predicate) (plan : PopulatePlan) (projection : Projection) :
    Prop where
  typed : e.registry.collection docType = .ok t
  resolved : t.resolveStatus q.status = .ok status
  compiled : q.filters.elim (.ok .always) (·.compile e.registry t) = .ok p
  /-- A cache of capacity zero keeps nothing. -/
  planned : (PopulatePlan.build e.registry t q.populate (.empty 0)).1 = .ok plan
  sorted : q.sort.forM (checkSort t) = .ok ()
  shown : rootProjection t q.fields plan = .ok projection

variable {t : DocumentType} {status : Option Status} {p : Predicate} {plan : PopulatePlan}
  {projection : Projection}

theorem Accepts.runs_predicate (h : e.Accepts docType q t status p plan projection)
    (metrics : List MetricsEvent) :
    ∃ metrics', Runs (Preparing.predicate e.registry t q.filters) ⟨.empty 0, metrics⟩ p
      ⟨.empty 0, metrics'⟩ := by
  have hcompiled := h.compiled
  cases hf : q.filters with
  | none =>
    rw [hf] at hcompiled
    obtain rfl := Except.ok.inj hcompiled
    exact ⟨metrics, runs_pure _ _⟩
  | some f =>
    rw [hf] at hcompiled
    have hanswer : (PredicateCache.empty 0).getOrCompile e.registry t f =
        (.ok (p, false), .empty 0) := by
      change ((f.compile e.registry t).map (·, false), _) = _
      rw [show f.compile e.registry t = .ok p from hcompiled]
      rfl
    refine ⟨metrics ++ [.predicateCache false], ?_⟩
    unfold Preparing.predicate
    refine Runs.bind (runs_get _) ?_
    simp only [hanswer]
    refine Runs.bind (runs_set _ _) ?_
    exact (runs_ofExcept rfl _).bind ((runs_record _ _).bind (runs_pure _ _))

/-- A request that is accepted is ready to be run once its page has a window, whatever is in the
cache. -/
theorem Accepts.runs_query (h : e.Accepts docType q t status p plan projection)
    (hd : Distinguished e.registry (e.registry.Asks filters)) (hq : q.Uses filters)
    {cache : PredicateCache} (hcache : cache.Faithful e.registry (e.registry.Asks filters))
    {page : PageRequest} {w : PageWindow} (hw : page.window e.config.pages = .ok w) :
    ∃ desk, Runs (e.prepareQuery docType { q with page := page }) { cache := cache }
      ⟨docType, status, p, plan, w, ⟨w.start, w.limit, q.sort, projection⟩⟩ desk := by
  obtain ⟨metrics, hpredicate⟩ := h.runs_predicate [.execStart .query docType]
  obtain ⟨cache', hplan⟩ : ∃ cache', Runs (Preparing.plan e.registry t q.populate)
      ⟨.empty 0, metrics⟩ plan ⟨cache', metrics⟩ := by
    have hbuild : PopulatePlan.build e.registry t q.populate (.empty 0) = (.ok plan, _) :=
      Prod.ext h.planned rfl
    exact ⟨_, runs_plan_iff.2 ⟨_, hbuild, rfl⟩⟩
  have huncached : Runs (e.prepareQuery docType { q with page := page }) { cache := .empty 0 }
      ⟨docType, status, p, plan, w, ⟨w.start, w.limit, q.sort, projection⟩⟩ ⟨cache', metrics⟩ := by
    unfold prepareQuery
    refine (runs_ofExcept h.typed _).bind ((runs_record _ _).bind ?_)
    refine (runs_ofExcept h.resolved _).bind (hpredicate.bind (hplan.bind ?_))
    refine (runs_ofExcept hw _).bind ((runs_ofExcept h.sorted _).bind ?_)
    exact (runs_ofExcept h.shown _).bind (runs_pure _ _)
  have hsteady : Steady (Faithful e.registry filters) (e.prepareQuery docType { q with page := page }) :=
    steady_prepareQuery hd docType ⟨hq.root, hq.populate⟩
  exact huncached.of_steady hsteady (PredicateCache.faithful_empty _ _ 0) hcache

theorem Accepts.runs_count (h : e.Accepts docType q t status p plan projection)
    (hd : Distinguished e.registry (e.registry.Asks filters)) (hq : q.Uses filters)
    {cache : PredicateCache} (hcache : cache.Faithful e.registry (e.registry.Asks filters)) :
    ∃ desk, Runs (e.prepareCount docType q.filters q.status) { cache := cache }
      ⟨docType, status, p⟩ desk := by
  obtain ⟨metrics, hpredicate⟩ := h.runs_predicate []
  have huncached : Runs (e.prepareCount docType q.filters q.status) { cache := .empty 0 }
      ⟨docType, status, p⟩ ⟨.empty 0, metrics⟩ := by
    unfold prepareCount
    refine (runs_ofExcept h.typed _).bind ?_
    exact (runs_ofExcept h.resolved _).bind (hpredicate.bind (runs_pure _ _))
  exact huncached.of_steady (steady_prepareCount hd docType hq.root q.status)
    (PredicateCache.faithful_empty _ _ 0) hcache

end Engine

/-! ## Runs of reads -/

/-- A store without what it counts. -/
def MemoryStore.uncounted (s : MemoryStore) : MemoryStore :=
  { s with referenceFetches := 0, writes := 0 }

theorem MemoryStore.uncounted_noteAll (s : MemoryStore) (log : Log) :
    (adapter.noteAll s log).uncounted = s.uncounted :=
  noteAll_of_note (fun _ call => by cases call <;> rfl) s log

namespace Engine
variable {e : Engine MemoryStore} {filters : List Filter} {st st' : EngineState MemoryStore}

/-- Queries and counts with some of the filters lead from one state of the engine to another. -/
inductive ReadsTo (e : Engine MemoryStore) (filters : List Filter) (st : EngineState MemoryStore) :
    EngineState MemoryStore → Prop
  | start : ReadsTo e filters st st
  | query (st' : EngineState MemoryStore) (docType : String) (q : QueryRequest) (token : CancelToken)
      (now : Nat) (h : ReadsTo e filters st st') (hq : q.Uses filters) :
      ReadsTo e filters st (e.query st' docType q token now).state
  | count (st' : EngineState MemoryStore) (docType : String) (filter : Option Filter)
      (status : Option Status) (token : CancelToken) (now : Nat) (h : ReadsTo e filters st st')
      (hfilter : ∀ f ∈ filter, f ∈ filters) :
      ReadsTo e filters st (e.count st' docType filter status token now).state

theorem kept_reading {α β : Type} (he : e.store = MemoryStore.adapter) {prepare : Preparing α}
    (hprepare : Steady (Preparing.Faithful e.registry filters) prepare)
    (hcache : st.cache.Faithful e.registry (e.registry.Asks filters)) (now : Nat)
    (run : α → StoreCall β) :
    let st' := (e.reading st now prepare run).state
    st'.cache.Faithful e.registry (e.registry.Asks filters) ∧
      st'.store.uncounted = st.store.uncounted := by
  have hkept := (hprepare { cache := st.cache } { cache := st.cache } hcache hcache).2
  unfold reading
  generalize prepare.run.run { cache := st.cache } = prepared at hkept ⊢
  refine ⟨hkept, ?_⟩
  simp only [he]
  exact MemoryStore.uncounted_noteAll _ _

theorem ReadsTo.kept (he : e.store = MemoryStore.adapter)
    (hd : Distinguished e.registry (e.registry.Asks filters))
    (hcache : st.cache.Faithful e.registry (e.registry.Asks filters))
    (h : e.ReadsTo filters st st') :
    st'.cache.Faithful e.registry (e.registry.Asks filters) ∧
      st'.store.uncounted = st.store.uncounted := by
  induction h with
  | start => exact ⟨hcache, rfl⟩
  | query st' docType q token now h hq ih =>
    obtain ⟨hfaithful, hstore⟩ := kept_reading he (steady_prepareQuery hd docType hq) ih.1 now
      (e.runQuery st'.store (e.tokenOf token now))
    exact ⟨hfaithful, hstore.trans ih.2⟩
  | count st' docType filter status token now h hfilter ih =>
    obtain ⟨hfaithful, hstore⟩ := kept_reading he (steady_prepareCount hd docType hfilter status)
      ih.1 now _
    exact ⟨hfaithful, hstore.trans ih.2⟩

end Engine
end ContentEngine
