import ContentEngine.Proofs.Engine.Reading
import ContentEngine.Proofs.Filter.Compilation
import ContentEngine.Proofs.Page
import ContentEngine.Proofs.Populate.Batching
import ContentEngine.Proofs.Store.Scan

/-!
# Pages tile the result

A request that is accepted selects the rows that a single fetch of the store gives for its type,
filter, status and sort keys. Every page of `Engine.query` is a range of these rows, with the number
of all of them, which `Engine.count` gives as well. This goes on while the engine reads, and its cache
fills.
-/

namespace ContentEngine
namespace Engine
open Preparing

variable {e : Engine MemoryStore} {filters : List Filter} {docType : String} {q : QueryRequest}
  {t : DocumentType} {status : Option Status} {p : Predicate} {plan : PopulatePlan}
  {projection : Projection} {s s' : MemoryStore} {st st' : EngineState MemoryStore}
  {token : CancelToken}

/-! ## Reading -/

/-- The answer is cut off: the store fails for a type, or the token has fired. -/
def CutOff {α : Type} (a : Answer MemoryStore α) (s : MemoryStore) (token : CancelToken) : Prop :=
  ∃ i : Interruption, a.outcome = .error i.error ∧ s.Interrupts token i a.finish

/-- There is a result with the property, unless the answer is cut off. -/
def Yields {α : Type} (a : Answer MemoryStore α) (s : MemoryStore) (token : CancelToken)
    (P : α → Prop) : Prop := (∃ x, a.outcome = .ok x ∧ P x) ∨ CutOff a s token

/-- What a reading does once it is prepared. -/
def readingCall {α β : Type} (run : α → StoreCall β) (a : α) (desk : Desk) : EngineCall β := do
  Call.recordAll (desk.metrics.map .metric)
  (run a).mapError Interruption.error

theorem progress_reading {α β : Type} {prepare : Preparing α} {run : α → StoreCall β} {a : α}
    {desk : Desk} (hprepare : Runs prepare { cache := st.cache } a desk) (now : Nat) :
    (e.reading st now prepare run).progress = readingCall run a desk now := by
  unfold Runs at hprepare
  simp only [reading, hprepare]
  rfl

/-- A reading that is prepared answers what its calls of the store settle on. -/
theorem outcome_reading {α β : Type} {prepare : Preparing α} {run : α → StoreCall β} {a : α} {b : β}
    {desk : Desk} (hprepare : Runs prepare { cache := st.cache } a desk)
    (hrun : (run a).Settles (s.Interrupts token) b) (now : Nat) :
    (e.reading st now prepare run).outcome = .ok b ∨
      CutOff (e.reading st now prepare run) s token := by
  let fits : Error → Nat → Prop := fun err time => ∃ i : Interruption, err = i.error ∧
    s.Interrupts token i time
  have hcall : (readingCall run a desk).Settles fits b :=
    (Call.settles_recordAll _).bind (hrun.mapError fun i time hi => ⟨i, rfl, hi⟩)
  unfold CutOff Answer.outcome Answer.finish
  rw [progress_reading hprepare]
  rcases (hcall now).outcome with hok | ⟨err, herr, i, rfl, hi⟩
  · exact .inl hok
  · exact .inr ⟨i, herr, hi⟩

theorem settles_token {α : Type} {c : StoreCall α} {a : α}
    (h : c.Settles (s.Interrupts token) a) :
    (StoreCall.observed (token.run Interruption.cancelled c)).Settles (s.Interrupts token) a :=
  StoreCall.settles_observed (CancelToken.settles_run (fun t _ hc => ⟨t, Nat.le_refl t, hc⟩) h)

theorem settles_countCall (he : e.store = MemoryStore.adapter) (docType : String)
    (status : Option Status) (p : Predicate) (sort : List SortKey) :
    (e.countCall s ⟨docType, status, p⟩).Settles (s.Interrupts token)
      (UInt64.ofNat (s.rows docType p status sort).length) := by
  have hcount : MemoryStore.adapter.count s docType p status = _ :=
    MemoryStore.count_eq docType p status sort
  unfold countCall
  rw [he, hcount]
  exact Resolver.settles_entered s token _ _ docType _

/-- The rows of the page that a prepared query asks for. -/
def window (s : MemoryStore) (query : PreparedQuery) : List Document :=
  ((s.rows query.docType query.predicate query.status query.fetch.sort).drop
    query.fetch.start.toNat).take query.fetch.limit.toNat

theorem settles_pageCall (he : e.store = MemoryStore.adapter) (query : PreparedQuery) :
    (e.pageCall s query).Settles (s.Interrupts token)
      ((window s query).map query.fetch.projection.apply) := by
  have hpage : MemoryStore.adapter.page s query.docType query.predicate query.status query.fetch = _ :=
    MemoryStore.page_eq query.docType query.predicate query.status query.fetch
  unfold pageCall
  rw [he, hpage]
  exact Resolver.settles_entered s token _ _ query.docType _

theorem settles_populate (he : e.store = MemoryStore.adapter) (hs : s.Reachable)
    {query : PreparedQuery} (hplan : ∀ b ∈ query.plan, b.TagsOnce) (rows : List Document) :
    (e.populate s token query rows).Settles (s.Interrupts token)
      (rows.map (OneByOne.populate s query.status query.plan [])) := by
  unfold populate
  rw [he]
  by_cases hempty : query.plan.isEmpty
  · have hnothing : OneByOne.populate s query.status query.plan [] = id := by
      rw [List.isEmpty_iff.1 hempty]
      rfl
    rw [if_pos hempty, hnothing, List.map_id]
    exact Call.settles_succeed rows
  · rw [if_neg hempty]
    exact StoreCall.settles_observed (Resolver.settles_resolve hs hplan rows)

/-- A row as a request shows it: cut down to its fields, and with its attributes populated. -/
def shownRow (s : MemoryStore) (status : Option Status) (plan : PopulatePlan)
    (projection : Projection) (d : Document) : Document :=
  OneByOne.populate s status plan [] (projection.apply d)

theorem shownRow_kept (s : MemoryStore) (status : Option Status) (plan : PopulatePlan)
    (projection : Projection) (d : Document) :
    let d' := shownRow s status plan projection d
    d'.docType = d.docType ∧ d'.id = d.id ∧ d'.status = d.status :=
  ⟨Document.docType_setAll .., Document.id_setAll .., Document.status_setAll ..⟩

/-- The page is a range of the rows, and counts all of them. -/
structure Tile (page : PageResult Document) (rows : List Document) (start length : Nat)
    (shown : Document → Document) : Prop where
  data : page.data = ((rows.drop start).take length).map shown
  total : page.pageMeta.total.toNat = rows.length
  pageCount : page.pageMeta.pageCount.toNat = (rows.length + length - 1) / length

theorem settles_runQuery (he : e.store = MemoryStore.adapter) (hs : s.Reachable)
    {query : PreparedQuery} (hplan : ∀ b ∈ query.plan, b.TagsOnce) :
    let rows := s.rows query.docType query.predicate query.status query.fetch.sort
    (e.runQuery s token query).Settles (s.Interrupts token)
      ⟨(window s query).map (shownRow s query.status query.plan query.fetch.projection),
        query.window.describe (UInt64.ofNat rows.length)⟩ := by
  intro rows
  have hcount : (e.countCall s ⟨query.docType, query.status, query.predicate⟩).Settles
      (s.Interrupts token) (UInt64.ofNat rows.length) :=
    settles_countCall he query.docType query.status query.predicate query.fetch.sort
  unfold runQuery
  refine (settles_token (hcount.both (settles_pageCall he query))).bind ?_
  refine Call.Settles.bind (List.map_map ▸ settles_populate he hs hplan _) ?_
  exact (Call.settles_record _).bind (Call.settles_succeed _)

/-! ## Requests -/

/-- An engine over a store in memory whose cache is faithful. -/
structure Sound (e : Engine MemoryStore) (filters : List Filter) (st : EngineState MemoryStore) :
    Prop where
  store : e.store = MemoryStore.adapter
  distinguished : Distinguished e.registry (e.registry.Asks filters)
  faithful : st.cache.Faithful e.registry (e.registry.Asks filters)
  reachable : st.store.Reachable

/-- Rows are shown in the same way whatever the store has counted. -/
theorem shownRow_of_uncounted (h : s'.uncounted = s.uncounted) (status : Option Status)
    (plan : PopulatePlan) (projection : Projection) :
    shownRow s' status plan projection = shownRow s status plan projection := by
  -- The recursion passes the store on to the fetches, which do not look at the counters.
  have hvalues : ∀ s : MemoryStore, OneByOne.newValues s.uncounted status =
      OneByOne.newValues s status := by
    intro s
    delta OneByOne.newValues
    rfl
  have hshown : ∀ s : MemoryStore, shownRow s.uncounted status plan projection =
      shownRow s status plan projection := by
    intro s
    funext d
    simp only [shownRow, OneByOne.populate, hvalues]
  rw [← hshown s', h, hshown]

theorem CutOff.of_uncounted {α : Type} {a : Answer MemoryStore α} (hcut : CutOff a s' token)
    (h : s'.uncounted = s.uncounted) : CutOff a s token := by
  obtain ⟨i, herr, hinterrupts⟩ := hcut
  have hsame : s'.Interrupts token = s.Interrupts token := congrArg (·.Interrupts token) h
  exact ⟨i, herr, hsame ▸ hinterrupts⟩

/-- A page with a window answers with the range of the rows that the window names. -/
theorem Accepts.outcome_query (h : e.Accepts docType q t status p plan projection)
    (hsound : e.Sound filters st) (hq : q.Uses filters)
    (hplan : ∀ b ∈ plan, b.TagsOnce) {page : PageRequest} {w : PageWindow}
    (hw : page.window e.config.pages = .ok w) (hreads : e.ReadsTo filters st st')
    (token : CancelToken) (now : Nat) :
    let rows := st.store.rows docType p status q.sort
    let a := e.query st' docType { q with page := page } token now
    a.outcome = .ok ⟨((rows.drop w.start.toNat).take w.limit.toNat).map
        (shownRow st.store status plan projection), w.describe (UInt64.ofNat rows.length)⟩ ∨
      CutOff a st.store (e.tokenOf token now) := by
  intro rows a
  obtain ⟨hfaithful, hstore⟩ := hreads.kept hsound.store hsound.distinguished hsound.faithful
  obtain ⟨desk, hprepared⟩ := h.runs_query hsound.distinguished hq hfaithful hw
  let query : PreparedQuery :=
    ⟨docType, status, p, plan, w, ⟨w.start, w.limit, q.sort, projection⟩⟩
  have htables : st'.store.tables = st.store.tables := congrArg (·.tables) hstore
  have hreachable : st'.store.Reachable := .sameContents _ _ hsound.reachable htables
  have hrows : st'.store.rows docType p status q.sort = rows :=
    congrArg (·.rows docType p status q.sort) hstore
  rw [← hrows, ← shownRow_of_uncounted hstore]
  refine Or.imp id (fun hcut : CutOff a st'.store _ => hcut.of_uncounted hstore) ?_
  exact outcome_reading hprepared (settles_runQuery hsound.store hreachable hplan) now

/-- Counting answers with the number of the rows. -/
theorem Accepts.outcome_count (h : e.Accepts docType q t status p plan projection)
    (hsound : e.Sound filters st) (hq : q.Uses filters)
    (hreads : e.ReadsTo filters st st') (token : CancelToken) (now : Nat) :
    let a := e.count st' docType q.filters q.status token now
    a.outcome = .ok (UInt64.ofNat (st.store.rows docType p status q.sort).length) ∨
      CutOff a st.store (e.tokenOf token now) := by
  intro a
  obtain ⟨hfaithful, hstore⟩ := hreads.kept hsound.store hsound.distinguished hsound.faithful
  obtain ⟨desk, hprepared⟩ := h.runs_count hsound.distinguished hq hfaithful
  have hrows : st'.store.rows docType p status q.sort = st.store.rows docType p status q.sort :=
    congrArg (·.rows docType p status q.sort) hstore
  rw [← hrows]
  refine Or.imp id (fun hcut : CutOff a st'.store _ => hcut.of_uncounted hstore) ?_
  exact outcome_reading hprepared
    (settles_token (settles_countCall hsound.store docType status p q.sort)) now

theorem Accepts.mem_rows_iff (h : e.Accepts docType q t status p plan projection)
    (hs : s.Reachable) {d : Document} :
    d ∈ s.rows docType p status q.sort ↔ (∃ id, s.get? docType id status = some d) ∧
      ∀ f ∈ q.filters, f.Selects e.registry (s.lookup status) t d := by
  have hcompiled := h.compiled
  have hholds : p.holds (s.lookup status) d = true ↔
      ∀ f ∈ q.filters, f.Selects e.registry (s.lookup status) t d := by
    cases hf : q.filters with
    | none =>
      rw [hf] at hcompiled
      obtain rfl := Except.ok.inj hcompiled
      simp [Predicate.holds]
    | some f =>
      rw [hf] at hcompiled
      simpa using Filter.holds_iff_of_compile (s.lookup status) d f p hcompiled
  rw [(s.perm_rows docType p status q.sort).mem_iff, MemoryStore.mem_matching hs.valid, hholds]

theorem tile_describe {rows : List Document} {limit : UInt32} (hlimit : rows.length ≤ limit.toNat)
    {size : UInt32} (hsize : 1 ≤ size) (shown : Document → Document) (start : UInt64)
    (number : UInt32) :
    Tile ⟨((rows.drop start.toNat).take size.toNat).map shown,
      PageWindow.describe ⟨start, size, number, size⟩ (UInt64.ofNat rows.length)⟩ rows start.toNat
      size.toNat shown := by
  have htotal : (UInt64.ofNat rows.length).toNat = rows.length := by
    refine UInt64.toNat_ofNat_of_lt' ?_
    have hbound := limit.toNat_lt
    change rows.length < 2 ^ 64
    omega
  refine ⟨rfl, htotal, ?_⟩
  change (pageCount _ size).toNat = _
  rw [toNat_pageCount _ hsize, htotal]

/-- As many tiles as there are pages, side by side, are all rows. -/
theorem data_of_tiles {pages : List (PageResult Document)} {rows : List Document} {size : Nat}
    {shown : Document → Document} (hsize : 0 < size)
    (hpages : pages.length = (rows.length + size - 1) / size)
    (h : ∀ i (hi : i < pages.length), Tile pages[i] rows (i * size) size shown) :
    pages.flatMap (·.data) = rows.map shown := by
  have hslices : pages.map (·.data) =
      (List.range pages.length).map fun i => ((rows.drop (i * size)).take size).map shown := by
    refine List.ext_getElem (by simp) fun i hi _ => ?_
    rw [List.getElem_map, List.getElem_map, List.getElem_range]
    exact (h i (by simpa using hi)).data
  rw [List.flatMap_def, hslices, ← List.flatMap_def, hpages, ← List.map_flatMap,
    flatMap_pages rows hsize]

/-- Let `rows` be what a single fetch from the start gives for a request that is accepted. They are
the stored documents that the filter selects, each once. However much the engine has read since, a
page answers with its range of the rows as they are shown, with their number and the number of pages,
unless it is cut off; counting answers with their number; and all pages of one size together show all
rows. -/
theorem pages_tile {types : List DocumentType} (hbuild : Registry.build types = .ok e.registry)
    (htypes : ∀ t ∈ types, t.TagsOnce) (he : e.store = MemoryStore.adapter)
    (hs : st.store.Reachable) (hfilters : Filter.Apart filters)
    (hcache : st.cache.Faithful e.registry (e.registry.Asks filters)) (hq : q.Uses filters)
    (hspec : q.populate.TagsOnce) (h : e.Accepts docType q t status p plan projection)
    {limit : UInt32} (hlimit : (st.store.matching docType p status).length ≤ limit.toNat)
    {rows : List Document}
    (hrows : st.store.page docType p status ⟨0, limit, q.sort, .all⟩ = .ok rows) :
    let shown := shownRow st.store status plan projection
    let query := fun st page token now => e.query st docType { q with page := page } token now
    ((∀ d, d ∈ rows ↔ (∃ id, st.store.get? docType id status = some d) ∧
          ∀ f ∈ q.filters, f.Selects e.registry (st.store.lookup status) t d) ∧
        (rows.map (·.id)).Nodup) ∧
      (∀ d, (shown d).docType = d.docType ∧ (shown d).id = d.id ∧ (shown d).status = d.status) ∧
      (∀ size : UInt32, 1 ≤ size → size ≤ e.config.pages.maxSize →
        (∀ st' (number : UInt32) token now, e.ReadsTo filters st st' → 1 ≤ number →
          Yields (query st' (.page (some number) (some size)) token now) st.store
            (e.tokenOf token now)
            fun page => Tile page rows ((number.toNat - 1) * size.toNat) size.toNat shown) ∧
        (∀ st' (start : UInt32) token now, e.ReadsTo filters st st' →
          Yields (query st' (.offset (some start) (some size)) token now) st.store
            (e.tokenOf token now) fun page => Tile page rows start.toNat size.toNat shown) ∧
        ∀ pages : List (PageResult Document),
          pages.length = (rows.length + size.toNat - 1) / size.toNat →
          (∀ i (hi : i < pages.length), ∃ st' token now, e.ReadsTo filters st st' ∧
            (query st' (.page (some (UInt32.ofNat (i + 1))) (some size)) token now).outcome =
              .ok pages[i]) →
          pages.flatMap (·.data) = rows.map shown) ∧
      ∀ st' token now, e.ReadsTo filters st st' →
        Yields (e.count st' docType q.filters q.status token now) st.store (e.tokenOf token now)
          fun total => total.toNat = rows.length := by
  intro shown query
  obtain rfl := MemoryStore.rows_of_page hlimit hrows
  let rows := st.store.rows docType p status q.sort
  have hlength : rows.length ≤ limit.toNat :=
    (st.store.perm_rows docType p status q.sort).length_eq ▸ hlimit
  have hsound : e.Sound filters st := ⟨he, hfilters.distinguished hbuild, hcache, hs⟩
  have hplan : ∀ b ∈ plan, b.TagsOnce := by
    have hname := (Registry.get?_of_collection h.typed).1
    exact PopulatePlan.tagsOnce_of_build (Registry.wellFormed_build hbuild htypes) hname hspec
      h.planned
  have hpage : ∀ (size : UInt32), 1 ≤ size → size ≤ e.config.pages.maxSize →
      ∀ st' (number : UInt32) token now, e.ReadsTo filters st st' → 1 ≤ number →
        Yields (query st' (.page (some number) (some size)) token now) st.store
          (e.tokenOf token now)
          fun page => Tile page rows ((number.toNat - 1) * size.toNat) size.toNat shown := by
    intro size hsize hmax st' number token now hreads hnumber
    have htile := tile_describe hlength hsize shown ((number - 1).toUInt64 * size.toUInt64) number
    rw [toNat_pageStart hnumber] at htile
    have hanswer := h.outcome_query hsound hq hplan
      (PageRequest.window_page hnumber hsize hmax) hreads token now
    simp only [toNat_pageStart hnumber] at hanswer
    exact hanswer.imp (fun hok => ⟨_, hok, htile⟩) id
  refine ⟨⟨fun d => h.mem_rows_iff hs, ?_⟩, shownRow_kept _ _ _ _, fun size hsize hmax =>
    ⟨hpage size hsize hmax, fun st' start token now hreads => ?_, fun pages hpages hanswers => ?_⟩,
    fun st' token now hreads => ?_⟩
  · have hperm := (st.store.perm_rows docType p status q.sort).map (·.id)
    exact hperm.nodup_iff.2 (MemoryStore.nodup_matching hs.valid docType p status)
  · have htile := tile_describe hlength hsize shown start.toUInt64 (pageOfStart start size)
    rw [UInt32.toNat_toUInt64] at htile
    have hanswer := h.outcome_query hsound hq hplan
      (PageRequest.window_offset start hsize hmax) hreads token now
    simp only [UInt32.toNat_toUInt64] at hanswer
    exact hanswer.imp (fun hok => ⟨_, hok, htile⟩) id
  · have hpos : 0 < size.toNat := UInt32.le_iff_toNat_le.1 hsize
    refine data_of_tiles hpos hpages fun i hi => ?_
    obtain ⟨st', token, now, hreads, houtcome⟩ := hanswers i hi
    have hbound : i + 1 < 2 ^ 32 := by
      have hcount : pages.length ≤ rows.length := hpages ▸ pages_le_length hpos
      have hlimit' := limit.toNat_lt
      omega
    have hnumber : (UInt32.ofNat (i + 1)).toNat = i + 1 := UInt32.toNat_ofNat_of_lt' hbound
    have hone : 1 ≤ UInt32.ofNat (i + 1) := by
      rw [UInt32.le_iff_toNat_le, hnumber]
      exact Nat.succ_le_succ (Nat.zero_le i)
    rcases hpage size hsize hmax st' _ token now hreads hone with
      ⟨page, hok, htile⟩ | ⟨cause, herr, -⟩
    · obtain rfl : page = pages[i] := Except.ok.inj (hok.symm.trans houtcome)
      rwa [hnumber, Nat.add_sub_cancel] at htile
    · exact absurd (herr.symm.trans houtcome) (by simp)
  · have htotal : (UInt64.ofNat rows.length).toNat = rows.length :=
      (tile_describe hlength (UInt32.le_refl 1) shown 0 1).total
    exact (h.outcome_count hsound hq hreads token now).imp
      (fun hok => ⟨_, hok, htotal⟩) id

/-- The articles of the blog but one, the last identifier first. -/
def latest : QueryRequest where
  filters := some (.leaf documentIdName .ne (.text "c"))
  populate := Resolver.relatedSpec .all
  sort := [⟨documentIdName, .descending⟩]

def reader : Engine MemoryStore := ⟨Blog.registry, MemoryStore.adapter, .empty, {}⟩

theorem not_cutOff {α : Type} {a : Answer MemoryStore α} (hfailing : s.failing = []) :
    ¬ CutOff a s .never := by
  rintro ⟨_ | _, -, hcause⟩
  · obtain ⟨docType, hmem, -⟩ := hcause
    rw [hfailing] at hmem
    exact absurd hmem List.not_mem_nil
  · obtain ⟨time, -, hcheck⟩ := hcause
    exact absurd hcheck (by simp [CancelToken.check, CancelToken.never, CancelToken.reached])

/-- The second page is asked for after the first one, which has left its filter in the cache. -/
theorem pages_tile_blog :
    let query := fun st number => reader.query st "article"
      { latest with page := .page (some number) (some 1) } .never 0
    let st := reader.start Blog.store
    let st₁ := (query st 1).state
    let st₂ := (query st₁ 2).state
    st₁.cache.size = 1 ∧ ∃ one two total, (query st 1).outcome = .ok one ∧
      (query st₁ 2).outcome = .ok two ∧ (one.data ++ two.data).map (·.id) = ["b", "a"] ∧
      (reader.count st₂ "article" latest.filters latest.status .never 0).outcome = .ok total ∧
      total.toNat = 2 := by
  intro query st st₁ st₂
  let filters : List Filter := latest.filters.toList
  have haccepts : reader.Accepts "article" latest Blog.article.withSystemAttributes
      (some .published) (.compare ⟨⟨[], documentIdName, .scalar .text⟩, .ne, .one (.text "c")⟩)
      (Resolver.relatedPlan []) .all :=
    ⟨rfl, rfl, rfl, rfl, rfl, rfl⟩
  have hs : st.store.Reachable := .insert _ _ (.insert _ _ (.empty _ rfl))
  have hapart : Filter.Apart filters := by
    refine ⟨by decide +kernel, ?_⟩
    simp [filters, latest]
  have huses : latest.Uses filters := by
    refine ⟨fun f hf => Option.mem_toList.2 hf, List.forall_mem_singleton.2 ?_⟩
    exact .all
  have hmatches : (st.store.matching "article"
      (.compare ⟨⟨[], documentIdName, .scalar .text⟩, .ne, .one (.text "c")⟩)
      (some .published)).length ≤ (2 : UInt32).toNat := by
    decide +kernel
  have hrows : st.store.page "article"
      (.compare ⟨⟨[], documentIdName, .scalar .text⟩, .ne, .one (.text "c")⟩) (some .published)
      ⟨0, 2, latest.sort, .all⟩ = .ok [Blog.second, Blog.first] := rfl
  obtain ⟨-, hkept, hpages, hcount⟩ := pages_tile Blog.build_types Resolver.tagsOnce_blog rfl hs
    hapart (PredicateCache.faithful_empty _ _ _) huses (Resolver.tagsOnce_relatedSpec .all) haccepts
    hmatches hrows
  obtain ⟨hone, -, -⟩ := hpages 1 (by decide) (by decide)
  have hreads₁ : reader.ReadsTo filters st st₁ :=
    .query st "article" _ .never 0 .start ⟨huses.root, huses.populate⟩
  have hreads₂ : reader.ReadsTo filters st st₂ :=
    .query st₁ "article" _ .never 0 hreads₁ ⟨huses.root, huses.populate⟩
  obtain ⟨one, hquery, htile⟩ :=
    (hone st 1 .never 0 .start (by decide)).resolve_right (not_cutOff rfl)
  obtain ⟨two, hquery', htile'⟩ :=
    (hone st₁ 2 .never 0 hreads₁ (by decide)).resolve_right (not_cutOff rfl)
  obtain ⟨total, htotal, hnumber⟩ := (hcount st₂ .never 0 hreads₂).resolve_right (not_cutOff rfl)
  refine ⟨by decide +kernel, one, two, total, hquery, hquery', ?_, htotal, hnumber⟩
  rw [htile.data, htile'.data]
  exact congrArg₂ (fun b a => [b, a]) (hkept Blog.second).2.1 (hkept Blog.first).2.1

end Engine
end ContentEngine
