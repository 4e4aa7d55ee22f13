import ContentEngine.Engine.Read
import ContentEngine.Proofs.Outcome
import ContentEngine.Proofs.Store.Published
import ContentEngine.Sample.Blog

/-!
# Published reads

A request at any other status than draft does the same on two stores that agree on what is
published: it gives the same result at the same time, and leaves the same log.
-/

namespace ContentEngine

/-! ## Populating -/

namespace Resolver
variable {σ σ' : Type} {r : Resolver σ} {r' : Resolver σ'}

/-- Resolvers that fetch the same documents. -/
def FetchAlike (r : Resolver σ) (r' : Resolver σ') : Prop :=
  ∀ attr (target : TargetOf Branch) ids, r.fetch attr target ids = r'.fetch attr target ids

theorem FetchAlike.fetchTags (h : r.FetchAlike r') (attr : String)
    (targets : List (TargetOf Branch)) (items : List Item) :
    r.fetchTags attr targets items = r'.fetchTags attr targets items := by
  simp only [Resolver.fetchTags, h attr]

mutual
theorem FetchAlike.columns (h : r.FetchAlike r') :
    (plan : List Branch) → (slots : List Slot) → r.columns plan slots = r'.columns plan slots
  | [], _ => rfl
  | b :: bs, slots => by
    simp only [Resolver.columns, FetchAlike.branch h b, FetchAlike.columns h bs]

theorem FetchAlike.branch (h : r.FetchAlike r') :
    (b : Branch) → (items : List Item) → r.branch b items = r'.branch b items
  | .relation owner attr one ⟨docType, filter, projection, versioned, plan⟩, items => by
    have hplan : r.columns plan = r'.columns plan := funext (FetchAlike.columns h plan)
    simp only [Resolver.branch, h attr, hplan]
  | .polymorphic owner attr targets, items => by
    simp only [Resolver.branch, h.fetchTags, FetchAlike.targetGroups h attr targets]
  | .dynamicZone owner attr components, items => by
    simp only [Resolver.branch, FetchAlike.componentGroups h components]

theorem FetchAlike.targetGroups (h : r.FetchAlike r') (attr : String) :
    (targets : List (TargetOf Branch)) → (items : List Item) →
      r.targetGroups attr targets items = r'.targetGroups attr targets items
  | [], _ => rfl
  | ⟨docType, filter, projection, versioned, plan⟩ :: rest, items => by
    have hplan : r.columns plan = r'.columns plan := funext (FetchAlike.columns h plan)
    simp only [Resolver.targetGroups, hplan, FetchAlike.targetGroups h attr rest]

theorem FetchAlike.componentGroups (h : r.FetchAlike r') :
    (components : List (ComponentOf Branch)) → (items : List Item) →
      r.componentGroups components items = r'.componentGroups components items
  | [], _ => rfl
  | ⟨docType, projection, plan⟩ :: rest, items => by
    have hplan : r.columns plan = r'.columns plan := funext (FetchAlike.columns h plan)
    simp only [Resolver.componentGroups, hplan, FetchAlike.componentGroups h rest]
end

theorem FetchAlike.resolve (h : r.FetchAlike r') (plan : PopulatePlan) (roots : List Document) :
    r.resolve plan roots = r'.resolve plan roots := by
  have hplan : r.columns plan = r'.columns plan := funext (h.columns plan)
  simp only [Resolver.resolve, hplan]

end Resolver

namespace MemoryStore.AgreeOnPublished
variable {s s' : MemoryStore} {status : Option Status}

theorem delay_eq (h : s.AgreeOnPublished s') : adapter.delay s = adapter.delay s' :=
  congrArg (Option.getD · 0) h.latency

theorem fetchAlike (h : s.AgreeOnPublished s') (hstatus : status ≠ some .draft)
    (token : CancelToken) :
    Resolver.FetchAlike ⟨adapter, s, status, token⟩ ⟨adapter, s', status, token⟩ := by
  intro attr target ids
  have hfor : Resolver.statusFor (⟨adapter, s, status, token⟩ : Resolver MemoryStore) target ≠
      some .draft := by
    unfold Resolver.statusFor
    by_cases hversioned : target.versioned
    · rw [if_pos hversioned]
      rcases status with _ | _ | _
      · simp
      · exact absurd rfl hstatus
      · simp
    · rw [if_neg hversioned]
      simp
  have hfound : adapter.references s target.docType ids target.filter target.projection
        (Resolver.statusFor ⟨adapter, s, status, token⟩ target) =
      adapter.references s' target.docType ids target.filter target.projection
        (Resolver.statusFor ⟨adapter, s', status, token⟩ target) :=
    h.references_eq hfor target.docType ids target.filter target.projection
  simp only [Resolver.fetch, hfound, h.delay_eq]

end MemoryStore.AgreeOnPublished
/-! ## Requests -/

namespace Preparing

theorem ensures_ofExcept {α ε : Type} (wrap : ε → Error) (x : Except ε α) :
    Ensures (ofExcept wrap x) fun a => x = .ok a := by
  cases x with
  | ok a => exact ensures_pure rfl
  | error e => exact ensures_throw _

end Preparing

theorem DocumentType.resolveStatus_ne_draft {t : DocumentType} {status resolved : Option Status}
    (h : t.resolveStatus status = .ok resolved) (hstatus : status ≠ some .draft) :
    resolved ≠ some .draft := by
  unfold resolveStatus at h
  by_cases hdrafts : t.draftAndPublish
  · rw [if_pos hdrafts] at h
    obtain rfl := Except.ok.inj h
    rcases status with _ | _ | _
    · simp
    · exact absurd rfl hstatus
    · simp
  · rw [if_neg hdrafts] at h
    rcases status with _ | _ | _
    · obtain rfl := Except.ok.inj h
      simp
    · exact absurd rfl hstatus
    · obtain rfl := Except.ok.inj h
      simp

namespace Engine
variable {σ : Type} {e : Engine σ}

theorem ensures_prepareQuery (e : Engine σ) (docType : String) {q : QueryRequest}
    (hq : q.status ≠ some .draft) :
    Ensures (e.prepareQuery docType q) (·.status ≠ some .draft) := by
  refine (ensures_true _).bind fun t _ => ?_
  refine (ensures_true _).bind fun _ _ => ?_
  refine (Preparing.ensures_ofExcept _ _).bind fun status hstatus => ?_
  refine (ensures_true _).bind fun predicate _ => ?_
  refine (ensures_true _).bind fun plan _ => ?_
  refine (ensures_true _).bind fun window _ => ?_
  refine (ensures_true _).bind fun _ _ => ?_
  refine (ensures_true _).bind fun projection _ => ?_
  exact ensures_pure (DocumentType.resolveStatus_ne_draft hstatus hq)

theorem ensures_prepareCount (e : Engine σ) (docType : String) (filters : Option Filter)
    {status : Option Status} (hstatus : status ≠ some .draft) :
    Ensures (e.prepareCount docType filters status) (·.status ≠ some .draft) := by
  refine (ensures_true _).bind fun t _ => ?_
  refine (Preparing.ensures_ofExcept _ _).bind fun resolved hresolved => ?_
  refine (ensures_true _).bind fun predicate _ => ?_
  exact ensures_pure (DocumentType.resolveStatus_ne_draft hresolved hstatus)

/-- What a call does depends on the store through what runs after the preparation only. -/
theorem reading_progress_eq {α β : Type} {st st' : EngineState σ} (hcache : st.cache = st'.cache)
    {prepare : Preparing α} {P : α → Prop} (hprepare : Ensures prepare P)
    {run run' : α → StoreCall β} (hrun : ∀ a, P a → run a = run' a) (now : Nat) :
    (e.reading st now prepare run).progress = (e.reading st' now prepare run').progress := by
  unfold reading
  rw [← hcache]
  rcases hprepared : prepare.run.run { cache := st.cache } with ⟨x | a, desk⟩
  · rfl
  · have ha : run a = run' a := hrun a (hprepare _ a (by rw [hprepared]))
    change ((Call.recordAll (desk.metrics.map Entry.metric)).andThen fun _ =>
        (Call.succeed a).andThen fun a => (run a).mapError Interruption.error) now =
      ((Call.recordAll (desk.metrics.map Entry.metric)).andThen fun _ =>
        (Call.succeed a).andThen fun a => (run' a).mapError Interruption.error) now
    simp only [Call.andThen, Call.succeed, ha]

variable {e : Engine MemoryStore} {st st' : EngineState MemoryStore}

/-- Two states of an engine in which only what is not published differs. -/
structure AgreeOnPublished (st st' : EngineState MemoryStore) : Prop where
  cache : st.cache = st'.cache
  reachable : st.store.Reachable
  reachable' : st'.store.Reachable
  store : st.store.AgreeOnPublished st'.store

namespace AgreeOnPublished

theorem countCall_eq (he : e.store = MemoryStore.adapter) (h : AgreeOnPublished st st')
    {p : PreparedCount} (hp : p.status ≠ some .draft) :
    e.countCall st.store p = e.countCall st'.store p := by
  have hcount : MemoryStore.adapter.count st.store p.docType p.predicate p.status =
      MemoryStore.adapter.count st'.store p.docType p.predicate p.status :=
    h.store.count_eq h.reachable h.reachable' hp p.docType p.predicate
  simp only [countCall, he, hcount, h.store.delay_eq]

theorem pageCall_eq (he : e.store = MemoryStore.adapter) (h : AgreeOnPublished st st')
    {p : PreparedQuery} (hp : p.status ≠ some .draft) :
    e.pageCall st.store p = e.pageCall st'.store p := by
  have hpage : MemoryStore.adapter.page st.store p.docType p.predicate p.status p.fetch =
      MemoryStore.adapter.page st'.store p.docType p.predicate p.status p.fetch :=
    h.store.page_eq h.reachable h.reachable' hp p.docType p.predicate p.fetch
  simp only [pageCall, he, hpage, h.store.delay_eq]

theorem populate_eq (he : e.store = MemoryStore.adapter) (h : AgreeOnPublished st st')
    (token : CancelToken) {p : PreparedQuery} (hp : p.status ≠ some .draft) :
    e.populate st.store token p = e.populate st'.store token p := by
  funext rows
  unfold populate
  rw [he, (h.store.fetchAlike hp token).resolve p.plan rows]

theorem runQuery_eq (he : e.store = MemoryStore.adapter) (h : AgreeOnPublished st st')
    (token : CancelToken) {p : PreparedQuery} (hp : p.status ≠ some .draft) :
    e.runQuery st.store token p = e.runQuery st'.store token p := by
  have hcount := h.countCall_eq he (p := ⟨p.docType, p.status, p.predicate⟩) hp
  simp only [runQuery, hcount, h.pageCall_eq he hp, h.populate_eq he token hp]

theorem query_eq (he : e.store = MemoryStore.adapter) (h : AgreeOnPublished st st')
    (docType : String) {q : QueryRequest} (hq : q.status ≠ some .draft) (token : CancelToken)
    (now : Nat) :
    (e.query st docType q token now).progress = (e.query st' docType q token now).progress :=
  reading_progress_eq h.cache (ensures_prepareQuery e docType hq)
    (fun _ hp => h.runQuery_eq he _ hp) now

theorem findFirst_eq (he : e.store = MemoryStore.adapter) (h : AgreeOnPublished st st')
    (docType : String) {q : QueryRequest} (hq : q.status ≠ some .draft) (token : CancelToken)
    (now : Nat) :
    (e.findFirst st docType q token now).progress =
      (e.findFirst st' docType q token now).progress := by
  have hpage := h.query_eq he docType (q := { q with page := .page (some 1) (some 1) }) hq token now
  simp only [findFirst, Answer.map, Answer.andThen, hpage]

end AgreeOnPublished

/-- Nothing that a request at any other status than draft answers depends on drafts: on two stores
that agree on what is published, the four reads do the same. -/
theorem published_reads_eq (e : Engine MemoryStore) (he : e.store = MemoryStore.adapter)
    {st st' : EngineState MemoryStore} (h : AgreeOnPublished st st') (docType : String)
    (q : QueryRequest) (hq : q.status ≠ some .draft) (id : DocumentId) (token : CancelToken)
    (now : Nat) :
    (e.query st docType q token now).progress = (e.query st' docType q token now).progress ∧
      (e.findFirst st docType q token now).progress =
        (e.findFirst st' docType q token now).progress ∧
      (e.findOne st docType id q token now).progress =
        (e.findOne st' docType id q token now).progress ∧
      (e.count st docType q.filters q.status token now).progress =
        (e.count st' docType q.filters q.status token now).progress := by
  have hfilter : (q.filter (.leaf documentIdName .eq (.text id))).status ≠ some .draft := by
    unfold QueryRequest.filter
    cases q.filters with
    | none => exact hq
    | some f => exact hq
  refine ⟨h.query_eq he docType hq token now, h.findFirst_eq he docType hq token now,
    h.findFirst_eq he docType hfilter token now, ?_⟩
  refine reading_progress_eq h.cache (ensures_prepareCount e docType q.filters hq) ?_ now
  intro p hp
  rw [h.countCall_eq he hp]

/-- The first article has another draft in the second store. -/
theorem published_reads_eq_blog :
    let e : Engine MemoryStore := ⟨Blog.registry, MemoryStore.adapter, .empty, {}⟩
    let q : QueryRequest := { populate := .every }
    Blog.store.get? "article" "a" (some .draft) = some (Blog.first.withStatus (some .draft)) ∧
      (Blog.store.insert Blog.revision).get? "article" "a" (some .draft) = some Blog.revision ∧
      (e.query (e.start Blog.store) "article" q .never 0).progress =
        (e.query (e.start (Blog.store.insert Blog.revision)) "article" q .never 0).progress := by
  intro e q
  have hs : Blog.store.Reachable := .insert _ _ (.insert _ _ (.empty _ rfl))
  have hagree : AgreeOnPublished (e.start Blog.store) (e.start (Blog.store.insert Blog.revision)) :=
    ⟨rfl, hs, .insert _ _ hs, MemoryStore.agreeOnPublished_insert Blog.store rfl⟩
  have hq : q.status ≠ some .draft := by simp [q]
  exact ⟨rfl, rfl, (published_reads_eq e rfl hagree "article" q hq "a" .never 0).1⟩

end Engine
end ContentEngine
