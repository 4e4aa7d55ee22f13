import ContentEngine.Proofs.Engine.Fields
import ContentEngine.Proofs.Filter.Agreement

/-!
# Finding and counting

`findFirst`, `findOne` and `count` are read off the same rows as `query`: the first of them, the one
with an identifier, and their number. A result of one of these calls shows that the request is
accepted; so the others have a result as well, unless they are cut off.
-/

namespace ContentEngine

namespace Preparing
variable {α : Type} {d d' : Desk}

theorem of_runs_ofExcept {ε : Type} {wrap : ε → Error} {x : Except ε α} {a : α}
    (h : Runs (ofExcept wrap x) d a d') : x = .ok a ∧ d' = d := by
  cases x with
  | error e => exact absurd (Prod.ext_iff.1 h).1 (by rintro ⟨⟩)
  | ok b =>
    obtain ⟨hb, rfl⟩ := Prod.mk.inj h
    obtain rfl := Except.ok.inj hb
    exact ⟨rfl, rfl⟩

/-- Without a cache, the predicate of a request is what its filter compiles to. -/
theorem of_runs_predicate {r : Registry} {t : DocumentType} {filter : Option Filter}
    {metrics : List MetricsEvent} {p : Predicate}
    (h : Runs (predicate r t filter) ⟨.empty 0, metrics⟩ p d') :
    filter.elim (.ok .always) (·.compile r t) = .ok p ∧ d'.cache = .empty 0 := by
  cases filter with
  | none =>
    obtain ⟨hp, rfl⟩ := Prod.mk.inj h
    obtain rfl := Except.ok.inj hp
    exact ⟨rfl, rfl⟩
  | some f =>
    obtain ⟨hresult, hcache⟩ := run_predicate r t f ⟨.empty 0, metrics⟩
    have hempty : (PredicateCache.empty 0).getOrCompile r t f =
        ((f.compile r t).map (·, false), .empty 0) := rfl
    rw [h, hempty] at hresult hcache
    refine ⟨?_, hcache⟩
    cases hcompile : f.compile r t with
    | error e =>
      rw [hcompile] at hresult
      exact absurd hresult (by rintro ⟨⟩)
    | ok p' =>
      rw [hcompile] at hresult
      obtain rfl := Except.ok.inj hresult
      exact hcompile

end Preparing

/-! ## What a result shows -/

namespace Engine
open Preparing

variable {e : Engine MemoryStore} {filters : List Filter} {docType : String} {q : QueryRequest}
  {st st' : EngineState MemoryStore} {token : CancelToken} {now : Nat}

theorem Accepts.of_runs {prepared : PreparedQuery} {desk : Desk}
    (h : Runs (e.prepareQuery docType q) { cache := .empty 0 } prepared desk) :
    ∃ t status p plan projection w, e.Accepts docType q t status p plan projection ∧
      q.page.window e.config.pages = .ok w := by
  unfold prepareQuery at h
  obtain ⟨t, d₁, hread, h⟩ := h.of_bind
  obtain ⟨htyped, rfl⟩ := of_runs_ofExcept hread
  obtain ⟨_, d₂, hrecord, h⟩ := h.of_bind
  obtain ⟨-, rfl⟩ := Prod.mk.inj hrecord
  obtain ⟨status, d₃, hread, h⟩ := h.of_bind
  obtain ⟨hresolved, rfl⟩ := of_runs_ofExcept hread
  obtain ⟨p, d₄, hread, h⟩ := h.of_bind
  obtain ⟨hcompiled, hcache⟩ := of_runs_predicate hread
  obtain ⟨plan, d₅, hread, h⟩ := h.of_bind
  obtain ⟨cache, hbuild, rfl⟩ := runs_plan_iff.1 hread
  obtain ⟨w, d₆, hread, h⟩ := h.of_bind
  obtain ⟨hwindow, rfl⟩ := of_runs_ofExcept hread
  obtain ⟨_, d₇, hread, h⟩ := h.of_bind
  obtain ⟨hsorted, rfl⟩ := of_runs_ofExcept hread
  obtain ⟨projection, d₈, hread, -⟩ := h.of_bind
  obtain ⟨hshown, -⟩ := of_runs_ofExcept hread
  have hplanned : (PopulatePlan.build e.registry t q.populate (.empty 0)).1 = .ok plan := by
    rw [← hcache, hbuild]
  exact ⟨t, status, p, plan, projection, w,
    ⟨htyped, hresolved, hcompiled, hplanned, hsorted, hshown⟩, hwindow⟩

/-- A request with a result is accepted, and its page has a window. -/
theorem Accepts.of_outcome (hsound : e.Sound filters st) (hq : q.Uses filters)
    (hreads : e.ReadsTo filters st st') {page : PageResult Document}
    (h : (e.query st' docType q token now).outcome = .ok page) :
    ∃ t status p plan projection w, e.Accepts docType q t status p plan projection ∧
      q.page.window e.config.pages = .ok w := by
  obtain ⟨prepared, desk, hruns⟩ := prepared_of_ok h
  have hfaithful := (hreads.kept hsound.store hsound.distinguished hsound.faithful).1
  have hempty : Preparing.Faithful e.registry filters { cache := .empty 0 } :=
    PredicateCache.faithful_empty _ _ 0
  obtain ⟨desk', hruns⟩ :=
    hruns.of_steady (steady_prepareQuery hsound.distinguished docType hq) hfaithful hempty
  exact of_runs hruns

/-! ## The first document -/

theorem outcome_map {α β : Type} (f : α → β) (a : Answer MemoryStore α) :
    (a.map f).outcome = a.outcome.map f := by
  unfold Answer.map Answer.andThen Answer.outcome
  cases a.progress.outcome <;> rfl

theorem CutOff.map {α β : Type} {a : Answer MemoryStore α} {s : MemoryStore} (h : CutOff a s token)
    (f : α → β) : CutOff (a.map f) s token := by
  obtain ⟨i, herr, hinterrupts⟩ := h
  refine ⟨i, ?_, hinterrupts⟩
  rw [outcome_map, herr]
  rfl

variable {t : DocumentType} {status : Option Status} {p : Predicate} {plan : PopulatePlan}
  {projection : Projection}

/-- The first page, of any size, begins with the first row. -/
theorem Accepts.yields_first (h : e.Accepts docType q t status p plan projection)
    (hsound : e.Sound filters st) (hq : q.Uses filters) (hplan : ∀ b ∈ plan, b.TagsOnce)
    (hlimits : e.config.pages.maxSize ≠ 0) {n : UInt32} (hn : 1 ≤ n)
    (hreads : e.ReadsTo filters st st') (token : CancelToken) (now : Nat) :
    Yields (e.query st' docType { q with page := .page (some 1) (some n) } token now) st.store
      (e.tokenOf token now) fun page => page.data.head? =
        (st.store.rows docType p status q.sort).head?.map
          (shownRow st.store status plan projection) := by
  obtain ⟨hsize, hwindow⟩ := PageRequest.window_first hlimits hn
  refine (h.outcome_query hsound hq hplan hwindow hreads token now).imp (fun hok => ⟨_, hok, ?_⟩) id
  have hpos : (min n e.config.pages.maxSize).toNat ≠ 0 :=
    Nat.one_le_iff_ne_zero.1 (UInt32.le_iff_toNat_le.1 hsize)
  change (List.map _ (List.take _ (List.drop 0 _))).head? = _
  rw [List.head?_map, List.head?_take, if_neg hpos, List.drop_zero]

theorem Accepts.yields_findFirst (h : e.Accepts docType q t status p plan projection)
    (hsound : e.Sound filters st) (hq : q.Uses filters) (hplan : ∀ b ∈ plan, b.TagsOnce)
    (hlimits : e.config.pages.maxSize ≠ 0) (hreads : e.ReadsTo filters st st') (token : CancelToken)
    (now : Nat) :
    Yields (e.findFirst st' docType q token now) st.store (e.tokenOf token now)
      (· = (st.store.rows docType p status q.sort).head?.map
        (shownRow st.store status plan projection)) := by
  unfold findFirst
  have hone : (1 : UInt32) ≤ 1 := by decide
  rcases h.yields_first hsound hq hplan hlimits hone hreads token now with
    ⟨page, hok, hfirst⟩ | hcut
  · refine .inl ⟨_, ?_, hfirst⟩
    rw [outcome_map, hok]
    rfl
  · exact .inr (hcut.map _)

/-! ## One document -/

/-- The filter for one document. -/
def idIs (id : DocumentId) : Filter := .leaf documentIdName .eq (.text id)

theorem filters_filter (q : QueryRequest) (f : Filter) :
    (q.filter f).filters = some (q.filters.elim f fun g => .and [g, f]) := by
  unfold QueryRequest.filter
  cases q.filters <;> rfl

section
variable (hid : t.attr? documentIdName = some ⟨documentIdName, .scalar .text, false⟩)
include hid

theorem exists_compile_idIs (r : Registry) (id : DocumentId) :
    ∃ p, (idIs id).compile r t = .ok p := by
  have hdot : '.' ∉ documentIdName.toList := by decide
  refine (Filter.leafCompiles_single_iff hdot hid rfl (by decide)).2 ⟨⟨?_, ?_, ?_⟩, _, .text id⟩
  · simp
  · simp
  · simp

theorem selects_idIs_iff (r : Registry) (lookup : Lookup) (id : DocumentId) (d : Document) :
    (idIs id).Selects r lookup t d ↔ d.id = id := by
  have hdot : '.' ∉ documentIdName.toList := by decide
  rw [idIs, Filter.Selects, Filter.leafSelects_iff hdot hid rfl rfl]
  have hvalue : d.value? documentIdName = some (.text d.id) := if_pos rfl
  constructor
  · rintro (⟨hop, -⟩ | ⟨v, x, hv, hx, w, hw, hequal⟩)
    · cases hop
    · obtain rfl := Option.some.inj (hvalue.symm.trans hv)
      cases hx
      cases hw
      cases hequal
      assumption
  · rintro rfl
    exact .inr ⟨_, _, hvalue, .text d.id, _, .text d.id, .text _ _ rfl⟩

end

theorem exists_compile_pair_iff {r : Registry} {f g : Filter} :
    (∃ p, (Filter.and [f, g]).compile r t = .ok p) ↔
      (∃ p, f.compile r t = .ok p) ∧ ∃ p, g.compile r t = .ok p := by
  constructor
  · rintro ⟨p, hp⟩
    obtain ⟨ps, hps, -⟩ := Filter.compile_and hp
    obtain ⟨p, ps', hf, hps', -⟩ := Filter.compileAll_cons hps
    obtain ⟨p', -, hg, -⟩ := Filter.compileAll_cons hps'
    exact ⟨⟨p, hf⟩, p', hg⟩
  · rintro ⟨⟨p, hf⟩, p', hg⟩
    exact ⟨.and [p, p'], by simp [Filter.compile, Filter.compileAll, hf, hg, Except.map]⟩

/-- A request is accepted if and only if it is when it asks for one document in addition. -/
theorem exists_accepts_filter_idIs_iff
    (hid : t.attr? documentIdName = some ⟨documentIdName, .scalar .text, false⟩) (id : DocumentId) :
    (∃ p, e.Accepts docType (q.filter (idIs id)) t status p plan projection) ↔
      ∃ p, e.Accepts docType q t status p plan projection := by
  have hcompiles : (∃ p, (q.filter (idIs id)).filters.elim (.ok .always) (·.compile e.registry t) =
      .ok p) ↔ ∃ p, q.filters.elim (.ok .always) (·.compile e.registry t) = .ok p := by
    rw [filters_filter]
    have hone := exists_compile_idIs hid e.registry id
    cases q.filters with
    | none => exact iff_of_true hone ⟨_, rfl⟩
    | some f => exact exists_compile_pair_iff.trans (and_iff_left hone)
  have hrest : (q.filter (idIs id)).status = q.status ∧
      (q.filter (idIs id)).populate = q.populate ∧ (q.filter (idIs id)).sort = q.sort ∧
      (q.filter (idIs id)).fields = q.fields := by
    unfold QueryRequest.filter
    cases q.filters <;> exact ⟨rfl, rfl, rfl, rfl⟩
  obtain ⟨hstatus, hpopulate, hsort, hfields⟩ := hrest
  constructor
  · rintro ⟨p, h⟩
    obtain ⟨p', hp'⟩ := hcompiles.1 ⟨p, h.compiled⟩
    exact ⟨p', h.typed, hstatus ▸ h.resolved, hp', hpopulate ▸ h.planned, hsort ▸ h.sorted,
      hfields ▸ h.shown⟩
  · rintro ⟨p, h⟩
    obtain ⟨p', hp'⟩ := hcompiles.2 ⟨p, h.compiled⟩
    exact ⟨p', h.typed, hstatus ▸ h.resolved, hp', hpopulate ▸ h.planned, hsort ▸ h.sorted,
      hfields ▸ h.shown⟩

theorem selects_filter_idIs_iff
    (hid : t.attr? documentIdName = some ⟨documentIdName, .scalar .text, false⟩) (r : Registry)
    (lookup : Lookup) (id : DocumentId) (d : Document) :
    (∀ f ∈ (q.filter (idIs id)).filters, f.Selects r lookup t d) ↔
      (∀ f ∈ q.filters, f.Selects r lookup t d) ∧ d.id = id := by
  rw [filters_filter]
  cases q.filters with
  | none => simp [selects_idIs_iff hid]
  | some f => simp [Filter.Selects, Filter.SelectsAll, selects_idIs_iff hid]

/-- The rows of a request that asks for one document in addition: that document, if the request
selects it. -/
theorem Accepts.head_rows_idIs {id : DocumentId} {s : MemoryStore}
    (h : e.Accepts docType (q.filter (idIs id)) t status p plan projection)
    (hid : t.attr? documentIdName = some ⟨documentIdName, .scalar .text, false⟩) (hs : s.Reachable)
    (d : Document) :
    (s.rows docType p status (q.filter (idIs id)).sort).head? = some d ↔
      s.get? docType id status = some d ∧
        ∀ f ∈ q.filters, f.Selects e.registry (s.lookup status) t d := by
  have hmem : ∀ d, d ∈ s.rows docType p status (q.filter (idIs id)).sort ↔
      s.get? docType id status = some d ∧
        ∀ f ∈ q.filters, f.Selects e.registry (s.lookup status) t d := by
    intro d
    rw [h.mem_rows_iff hs, selects_filter_idIs_iff hid]
    constructor
    · rintro ⟨⟨id', hget⟩, hselected, hsame⟩
      exact ⟨by rwa [← hsame, hs.id_of_get? hget], hselected⟩
    · rintro ⟨hget, hselected⟩
      exact ⟨⟨id, hget⟩, hselected, hs.id_of_get? hget⟩
  rw [← hmem]
  refine ⟨List.mem_of_head?, fun hd => ?_⟩
  obtain ⟨first, rest, hrows⟩ := List.exists_cons_of_ne_nil (List.ne_nil_of_mem hd)
  have hfirst := (hmem first).1 (hrows ▸ List.mem_cons_self ..)
  have hsame : first = d := Option.some.inj (hfirst.1.symm.trans ((hmem d).1 hd).1)
  rw [hrows, hsame]
  rfl

/-- On a collection that does not declare it itself, the identifier is a text. -/
theorem attr?_documentId {types : List DocumentType} (hbuild : Registry.build types = .ok e.registry)
    (ht : e.registry.collection docType = .ok t)
    (hown : ∀ u ∈ types, u.name = docType → u.attr? documentIdName = none) :
    t.attr? documentIdName = some ⟨documentIdName, .scalar .text, false⟩ := by
  obtain ⟨hget, hkind⟩ := Registry.get?_of_collection ht
  obtain ⟨u, hu, hname, rfl⟩ := Registry.given_of_build hbuild hget
  have hnone := hown u hu hname
  have hcollection : u.kind = .collection := hkind
  obtain ⟨others, hsystem⟩ : ∃ others, u.systemAttributes =
      ⟨documentIdName, .scalar .text, false⟩ :: others := by
    unfold DocumentType.systemAttributes
    rw [hcollection]
    by_cases hdrafts : u.draftAndPublish
    · exact ⟨_, if_pos hdrafts⟩
    · exact ⟨_, if_neg hdrafts⟩
  unfold DocumentType.attr? DocumentType.withSystemAttributes
  rw [List.find?_append, hsystem, List.filter_cons_of_pos (by simp [hnone])]
  rw [show u.attributes.find? (·.name = documentIdName) = none from hnone]
  simp

theorem Accepts.tagsOnce {types : List DocumentType} (hbuild : Registry.build types = .ok e.registry)
    (htypes : ∀ t ∈ types, t.TagsOnce) (hspec : q.populate.TagsOnce)
    (h : e.Accepts docType q t status p plan projection) : ∀ b ∈ plan, b.TagsOnce :=
  PopulatePlan.tagsOnce_of_build (Registry.wellFormed_build hbuild htypes)
    (Registry.get?_of_collection h.typed).1 hspec h.planned

theorem Yields.of_ok {α : Type} {a : Answer MemoryStore α} {s : MemoryStore} {P : α → Prop} {x : α}
    (h : Yields a s token P) (hx : a.outcome = .ok x) : P x := by
  rcases h with ⟨y, hy, hP⟩ | ⟨i, herr, -⟩
  · obtain rfl := Except.ok.inj (hy.symm.trans hx)
    exact hP
  · exact absurd (herr.symm.trans hx) (by simp)

theorem Yields.imp {α : Type} {a : Answer MemoryStore α} {s : MemoryStore} {P Q : α → Prop}
    (h : Yields a s token P) (hPQ : ∀ x, P x → Q x) : Yields a s token Q :=
  Or.imp (fun ⟨x, hx, hP⟩ => ⟨x, hx, hPQ x hP⟩) id h

/-- What a page with a result holds: its range of the rows, and their number. -/
theorem Accepts.data_of_ok (h : e.Accepts docType q t status p plan projection)
    (hsound : e.Sound filters st) (hq : q.Uses filters) (hplan : ∀ b ∈ plan, b.TagsOnce)
    {w : PageWindow} (hw : q.page.window e.config.pages = .ok w) (hreads : e.ReadsTo filters st st')
    {page : PageResult Document} (hok : (e.query st' docType q token now).outcome = .ok page) :
    let rows := st.store.rows docType p status q.sort
    page.data = ((rows.drop w.start.toNat).take w.limit.toNat).map
        (shownRow st.store status plan projection) ∧
      page.pageMeta.total = UInt64.ofNat rows.length := by
  rcases h.outcome_query hsound hq hplan hw hreads token now with hpage | ⟨i, herr, -⟩
  · obtain rfl := Except.ok.inj (hpage.symm.trans hok)
    exact ⟨rfl, rfl⟩
  · exact absurd (herr.symm.trans hok) (by simp)

/-- What a page shows of a document is what asking for that document shows of it. -/
theorem Accepts.head_of_mem_data {p' : Predicate} {id : DocumentId}
    (h : e.Accepts docType q t status p plan projection)
    (h' : e.Accepts docType (q.filter (idIs id)) t status p' plan projection)
    (hid : t.attr? documentIdName = some ⟨documentIdName, .scalar .text, false⟩)
    (hsound : e.Sound filters st) (hq : q.Uses filters) (hplan : ∀ b ∈ plan, b.TagsOnce)
    {w : PageWindow} (hw : q.page.window e.config.pages = .ok w) (hreads : e.ReadsTo filters st st')
    {page : PageResult Document} (hok : (e.query st' docType q token now).outcome = .ok page)
    {d' : Document} (hd' : d' ∈ page.data) (hsame : d'.id = id) :
    (st.store.rows docType p' status (q.filter (idIs id)).sort).head?.map
      (shownRow st.store status plan projection) = some d' := by
  obtain ⟨hdata, -⟩ := h.data_of_ok hsound hq hplan hw hreads hok
  rw [hdata] at hd'
  obtain ⟨d, hrow, rfl⟩ := List.mem_map.1 hd'
  have hrow := List.mem_of_mem_drop (List.mem_of_mem_take hrow)
  obtain ⟨⟨id', hget⟩, hselected⟩ := (h.mem_rows_iff hsound.reachable).1 hrow
  have hid' : d.id = id := (shownRow_kept st.store status plan projection d).2.1.symm.trans hsame
  have hget : st.store.get? docType id status = some d := by
    rwa [← hid', hsound.reachable.id_of_get? hget]
  rw [(h'.head_rows_idIs hid hsound.reachable d).2 ⟨hget, hselected⟩]
  rfl

/-- Whether a request is accepted does not depend on its page. -/
theorem Accepts.of_page {page : PageRequest}
    (h : e.Accepts docType { q with page := page } t status p plan projection) :
    e.Accepts docType q t status p plan projection :=
  ⟨h.typed, h.resolved, h.compiled, h.planned, h.sorted, h.shown⟩

theorem uses_of_page (hq : q.Uses filters) (page : PageRequest) :
    QueryRequest.Uses filters { q with page := page } := ⟨hq.root, hq.populate⟩

theorem Accepts.of_findFirst (hsound : e.Sound filters st) (hq : q.Uses filters)
    (hreads : e.ReadsTo filters st st') {found : Option Document}
    (h : (e.findFirst st' docType q token now).outcome = .ok found) :
    e.config.pages.maxSize ≠ 0 ∧
      ∃ t status p plan projection, e.Accepts docType q t status p plan projection := by
  rw [findFirst, outcome_map] at h
  obtain ⟨page, hok, -⟩ := Except.map_eq_ok_iff.1 h
  obtain ⟨t, status, p, plan, projection, w, haccepts, hwindow⟩ :=
    of_outcome hsound (uses_of_page hq _) hreads hok
  exact ⟨PageRequest.maxSize_ne_zero_of_window hwindow, t, status, p, plan, projection,
    haccepts.of_page⟩

/-- Let a request be asked in two ways, each time after the engine has read something or other.
Where one call has a result, so has the other one, unless it is cut off. `findFirst` finds the first
document of the first page, of any size. `count` gives the total that a page states. On a type that does
not declare `documentId` itself, `findOne` finds a document if and only if the store has a version of it
at the status of the request that the filters select, and it finds that version, cut down and populated
as the request asks; in particular what any page shows of it. -/
theorem conveniences_agree {types : List DocumentType} (hbuild : Registry.build types = .ok e.registry)
    (htypes : ∀ t ∈ types, t.TagsOnce) (he : e.store = MemoryStore.adapter)
    (hs : st.store.Reachable) (hfilters : Filter.Apart filters)
    (hcache : st.cache.Faithful e.registry (e.registry.Asks filters)) (hq : q.Uses filters)
    (hspec : q.populate.TagsOnce) {st₁ st₂ : EngineState MemoryStore}
    (h₁ : e.ReadsTo filters st st₁) (h₂ : e.ReadsTo filters st st₂) (token₁ token₂ : CancelToken)
    (now₁ now₂ : Nat) :
    let firstPage := fun st n token now =>
      e.query st docType { q with page := .page (some 1) (some n) } token now
    (∀ n : UInt32, 1 ≤ n →
        (∀ page, (firstPage st₁ n token₁ now₁).outcome = .ok page →
          Yields (e.findFirst st₂ docType q token₂ now₂) st.store (e.tokenOf token₂ now₂)
            (· = page.data.head?)) ∧
        ∀ found, (e.findFirst st₁ docType q token₁ now₁).outcome = .ok found →
          Yields (firstPage st₂ n token₂ now₂) st.store (e.tokenOf token₂ now₂)
            (·.data.head? = found)) ∧
      (∀ page, (e.query st₁ docType q token₁ now₁).outcome = .ok page →
        Yields (e.count st₂ docType q.filters q.status token₂ now₂) st.store (e.tokenOf token₂ now₂)
          (· = page.pageMeta.total)) ∧
      ∀ id, (∀ u ∈ types, u.name = docType → u.attr? documentIdName = none) →
        (q.filter (idIs id)).Uses filters →
        (∀ found, (e.findOne st₁ docType id q token₁ now₁).outcome = .ok found →
          ∃ t status p plan projection, e.Accepts docType q t status p plan projection ∧
            ∀ d', found = some d' ↔ ∃ d, st.store.get? docType id status = some d ∧
              (∀ f ∈ q.filters, f.Selects e.registry (st.store.lookup status) t d) ∧
              shownRow st.store status plan projection d = d') ∧
        ∀ page, (e.query st₁ docType q token₁ now₁).outcome = .ok page →
          Yields (e.findOne st₂ docType id q token₂ now₂) st.store (e.tokenOf token₂ now₂)
            fun found => ∀ d' ∈ page.data, d'.id = id → found = some d' := by
  intro firstPage
  have hsound : e.Sound filters st := ⟨he, hfilters.distinguished hbuild, hcache, hs⟩
  refine ⟨fun n hn => ⟨fun page hpage => ?_, fun found hfound => ?_⟩, fun page hpage => ?_,
    fun id hown hid => ⟨fun found hfound => ?_, fun page hpage => ?_⟩⟩
  · obtain ⟨t, status, p, plan, projection, w, haccepts, hwindow⟩ :=
      Accepts.of_outcome hsound (uses_of_page hq _) h₁ hpage
    have haccepts := haccepts.of_page
    have hlimits := PageRequest.maxSize_ne_zero_of_window hwindow
    have hplan := haccepts.tagsOnce hbuild htypes hspec
    have hfirst := (haccepts.yields_first hsound hq hplan hlimits hn h₁ token₁ now₁).of_ok hpage
    rw [hfirst]
    exact haccepts.yields_findFirst hsound hq hplan hlimits h₂ token₂ now₂
  · obtain ⟨hlimits, t, status, p, plan, projection, haccepts⟩ :=
      Accepts.of_findFirst hsound hq h₁ hfound
    have hplan := haccepts.tagsOnce hbuild htypes hspec
    have hfirst := (haccepts.yields_findFirst hsound hq hplan hlimits h₁ token₁ now₁).of_ok hfound
    rw [hfirst]
    exact haccepts.yields_first hsound hq hplan hlimits hn h₂ token₂ now₂
  · obtain ⟨t, status, p, plan, projection, w, haccepts, hwindow⟩ :=
      Accepts.of_outcome hsound hq h₁ hpage
    have hplan := haccepts.tagsOnce hbuild htypes hspec
    obtain ⟨-, htotal⟩ :=
      haccepts.data_of_ok hsound hq hplan hwindow h₁ hpage
    rw [htotal]
    exact (haccepts.outcome_count hsound hq h₂ token₂ now₂).imp (fun hok => ⟨_, hok, rfl⟩) id
  · obtain ⟨hlimits, t, status, p, plan, projection, haccepts⟩ :=
      Accepts.of_findFirst hsound hid h₁ hfound
    have hdeclared := attr?_documentId hbuild haccepts.typed hown
    obtain ⟨p', haccepts'⟩ := (exists_accepts_filter_idIs_iff hdeclared id).1 ⟨p, haccepts⟩
    have hplan := haccepts'.tagsOnce hbuild htypes hspec
    refine ⟨t, status, p', plan, projection, haccepts', fun d' => ?_⟩
    have hfirst := (haccepts.yields_findFirst hsound hid hplan hlimits h₁ token₁ now₁).of_ok hfound
    rw [hfirst, Option.map_eq_some_iff]
    simp only [haccepts.head_rows_idIs hdeclared hs, and_assoc]
  · obtain ⟨t, status, p, plan, projection, w, haccepts, hwindow⟩ :=
      Accepts.of_outcome hsound hq h₁ hpage
    have hplan := haccepts.tagsOnce hbuild htypes hspec
    have hlimits := PageRequest.maxSize_ne_zero_of_window hwindow
    have hdeclared := attr?_documentId hbuild haccepts.typed hown
    obtain ⟨p', haccepts'⟩ := (exists_accepts_filter_idIs_iff hdeclared id).2 ⟨p, haccepts⟩
    refine (haccepts'.yields_findFirst hsound hid hplan hlimits h₂ token₂ now₂).imp
      fun found hfound d' hd' hsame => ?_
    exact hfound.trans
      (haccepts.head_of_mem_data haccepts' hdeclared hsound hq hplan hwindow h₁ hpage hd' hsame)

/-- The first two of the latest articles, with one of them asked for after that. -/
theorem conveniences_agree_blog :
    let q := { latest with page := .page (some 1) (some 2) }
    let st := reader.start Blog.store
    let asked := reader.query st "article" q .never 0
    let st' := asked.state
    ∃ page found total one, asked.outcome = .ok page ∧ page.data.map (·.id) = ["b", "a"] ∧
      (reader.findFirst st' "article" q .never 0).outcome = .ok found ∧ found = page.data.head? ∧
      (reader.count st' "article" q.filters q.status .never 0).outcome = .ok total ∧
      total = page.pageMeta.total ∧
      (reader.findOne st' "article" "a" q .never 0).outcome = .ok (some one) ∧ one ∈ page.data := by
  intro q st asked st'
  let f : Filter := .leaf documentIdName .ne (.text "c")
  let filters : List Filter := [f, .and [f, idIs "a"]]
  let p : Predicate := .compare ⟨⟨[], documentIdName, .scalar .text⟩, .ne, .one (.text "c")⟩
  have haccepts : reader.Accepts "article" q Blog.article.withSystemAttributes (some .published) p
      (Resolver.relatedPlan []) .all := ⟨rfl, rfl, rfl, rfl, rfl, rfl⟩
  have hs : st.store.Reachable := .insert _ _ (.insert _ _ (.empty _ rfl))
  have hapart : Filter.Apart filters := by
    have hne : Sha256.digest f.encode ≠ Sha256.digest (Filter.and [f, idIs "a"]).encode := by
      decide +kernel
    refine ⟨by decide +kernel, ?_⟩
    simp [filters, hne, hne.symm]
  have hspec : q.populate.Uses filters := List.forall_mem_singleton.2 .all
  have huses : q.Uses filters := ⟨by simp [q, latest, filters, f], hspec⟩
  have huses' : (q.filter (idIs "a")).Uses filters :=
    ⟨by simp [q, latest, QueryRequest.filter, filters, f], hspec⟩
  have hcache : st.cache.Faithful reader.registry (reader.registry.Asks filters) :=
    PredicateCache.faithful_empty _ _ _
  have hsound : reader.Sound filters st := ⟨rfl, hapart.distinguished Blog.build_types, hcache, hs⟩
  have hplan := haccepts.tagsOnce Blog.build_types Resolver.tagsOnce_blog
    (Resolver.tagsOnce_relatedSpec .all)
  have hwindow : q.page.window reader.config.pages = .ok ⟨0, 2, 1, 2⟩ := rfl
  have hrows : st.store.rows "article" p (some .published) q.sort = [Blog.second, Blog.first] := rfl
  let shown := shownRow st.store (some .published) (Resolver.relatedPlan []) .all
  have hids : ∀ d, (shown d).id = d.id := fun d => (shownRow_kept ..).2.1
  obtain ⟨page, hpage, hdata⟩ : ∃ page, asked.outcome = .ok page ∧
      page.data = [shown Blog.second, shown Blog.first] := by
    have hok := (haccepts.outcome_query hsound huses hplan hwindow .start .never 0).resolve_right
      (not_cutOff rfl)
    rw [hrows] at hok
    exact ⟨_, hok, rfl⟩
  have hreads : reader.ReadsTo filters st st' := .query st "article" q .never 0 .start huses
  obtain ⟨hfirst, hcount, hone⟩ := @conveniences_agree _ _ "article" _ _ _ Blog.build_types
    Resolver.tagsOnce_blog rfl hs hapart hcache huses (Resolver.tagsOnce_relatedSpec .all) _ _ .start
    hreads .never .never 0 0
  obtain ⟨found, hfound, hhead⟩ :=
    ((hfirst 2 (by decide)).1 page hpage).resolve_right (not_cutOff rfl)
  obtain ⟨total, htotal, hsame⟩ := (hcount page hpage).resolve_right (not_cutOff rfl)
  obtain ⟨one, hfoundOne, hone⟩ :=
    ((hone "a" (by decide) huses').2 page hpage).resolve_right (not_cutOff rfl)
  have hlast : shown Blog.first ∈ page.data := by
    rw [hdata]
    exact List.mem_cons_of_mem _ (List.mem_singleton_self _)
  obtain rfl := hone _ hlast (hids Blog.first)
  refine ⟨page, found, total, _, hpage, ?_, hfound, hhead, htotal, hsame, hfoundOne, hlast⟩
  rw [hdata]
  exact congrArg₂ (fun b a => [b, a]) (hids Blog.second) (hids Blog.first)

end Engine
end ContentEngine
