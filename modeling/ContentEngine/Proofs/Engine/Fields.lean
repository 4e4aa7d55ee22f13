import ContentEngine.Proofs.Engine.Paging
import ContentEngine.Proofs.Populate.InStep

/-!
# Fields only hide

A request that names the fields to show, at the root or in a shape below it, is answered like the
request that leaves them out, but for the fields that are hidden.
-/

namespace ContentEngine

/-- The same prepared query, which shows all fields in some of the places. -/
inductive PreparedQuery.Opens : PreparedQuery → PreparedQuery → Prop
  | intro (docType : String) (status : Option Status) (predicate : Predicate) (window : PageWindow)
      (sort : List SortKey) {plan plan' : PopulatePlan} {projection projection' : Projection}
      (populate : plan.Opens plan') (shown : projection.Opens projection') :
      Opens
        ⟨docType, status, predicate, plan, window, ⟨window.start, window.limit, sort, projection⟩⟩
        ⟨docType, status, predicate, plan', window, ⟨window.start, window.limit, sort, projection'⟩⟩

theorem PreparedQuery.Opens.plan {p p' : PreparedQuery} (h : p.Opens p') : p.plan.Opens p'.plan := by
  cases h
  assumption

theorem PreparedQuery.Opens.projection {p p' : PreparedQuery} (h : p.Opens p') :
    p.fetch.projection.Opens p'.fetch.projection := by
  cases h
  assumption

theorem PreparedQuery.Opens.counted {p p' : PreparedQuery} (h : p.Opens p') :
    (⟨p'.docType, p'.status, p'.predicate⟩ : PreparedCount) =
      ⟨p.docType, p.status, p.predicate⟩ := by
  cases h
  rfl

namespace Preparing
variable {r : Registry} {t : DocumentType}

theorem follows_ofExcept {α α' ε : Type} {R : α → α' → Prop} {wrap : ε → Error} {x : Except ε α}
    {x' : Except ε α'} (h : ∀ a, x = .ok a → ∃ a', x' = .ok a' ∧ R a a') :
    Follows R (ofExcept wrap x) (ofExcept wrap x') := by
  cases x with
  | error e => exact follows_throw _ _
  | ok a =>
    obtain ⟨a', rfl, hR⟩ := h a rfl
    exact follows_pure hR

theorem follows_plan (r : Registry) (t : DocumentType) {spec spec' : PopulateSpec}
    (h : spec.Opens spec') : Follows PopulatePlan.Opens (plan r t spec) (plan r t spec') := by
  intro d p d' hp
  obtain ⟨cache, hbuild, rfl⟩ := runs_plan_iff.1 hp
  obtain ⟨p', hbuild', hopens⟩ := PopulatePlan.opens_of_build h hbuild
  exact ⟨p', runs_plan_iff.2 ⟨cache, hbuild', rfl⟩, hopens⟩

end Preparing

namespace Engine
open Preparing

variable {e : Engine MemoryStore} {types : List DocumentType} {docType : String}
  {q q' : QueryRequest}

theorem rootProjection_opens {t : DocumentType} {fields fields' : Option Names}
    (hfields : Names.Opens fields fields') {plan plan' : PopulatePlan}
    (hplan : plan'.attributes = plan.attributes) {p : Projection}
    (h : rootProjection t fields plan = .ok p) :
    ∃ p', rootProjection t fields' plan' = .ok p' ∧ p.Opens p' := by
  rcases hfields with rfl | rfl
  · refine ⟨p, ?_, Projection.opens_refl p⟩
    unfold rootProjection at h ⊢
    rwa [hplan]
  · exact ⟨.all, rfl, .inr rfl⟩

theorem follows_prepareQuery (hq : q.Opens q') (docType : String) :
    Follows PreparedQuery.Opens (e.prepareQuery docType q) (e.prepareQuery docType q') := by
  unfold prepareQuery
  rw [hq.filters, hq.sort, hq.page, hq.status]
  refine (ensures_true _).followed fun t _ => ?_
  refine (ensures_true _).followed fun _ _ => ?_
  refine (ensures_true _).followed fun status _ => ?_
  refine (ensures_true _).followed fun predicate _ => ?_
  refine (follows_plan _ t hq.populate).bind fun plan plan' hplan => ?_
  refine (ensures_true _).followed fun window _ => ?_
  refine (ensures_true _).followed fun _ _ => ?_
  refine (follows_ofExcept fun p hp => rootProjection_opens hq.fields hplan.attributes hp).bind
    fun p p' hshown => ?_
  exact follows_pure (.intro _ _ _ _ _ hplan hshown)

/-- Without fields, everything is shown, and nothing else changes. -/
theorem follows_without_fields (docType : String) :
    Follows (fun p p' => p' = { p with fetch := { p.fetch with projection := .all } })
      (e.prepareQuery docType q) (e.prepareQuery docType { q with fields := none }) := by
  refine (ensures_true _).followed fun t _ => ?_
  refine (ensures_true _).followed fun _ _ => ?_
  refine (ensures_true _).followed fun status _ => ?_
  refine (ensures_true _).followed fun predicate _ => ?_
  refine (ensures_true _).followed fun plan _ => ?_
  refine (ensures_true _).followed fun window _ => ?_
  refine (ensures_true _).followed fun _ _ => ?_
  refine Follows.bind (R := fun _ p' => p' = .all) (follows_ofExcept fun _ _ => ⟨.all, rfl, rfl⟩)
    fun p p' hall => ?_
  subst hall
  exact follows_pure rfl

/-- The plan of a prepared query is what the query asks for, and so is what it shows. -/
structure Planned (q : QueryRequest) (p : PreparedQuery) : Prop where
  tagsOnce : p.plan.TagsOnce
  asked : p.plan.Implements q.populate
  shown : p.fetch.projection = p.plan.shown q.fields

theorem Planned.fits {p : PreparedQuery} (h : Planned q p) : p.plan.Fits p.fetch.projection :=
  h.shown ▸ PopulatePlan.fits_shown h.asked.names.nodup q.fields

theorem ensures_planned (hr : Registry.build types = .ok e.registry)
    (htypes : ∀ t ∈ types, t.TagsOnce) (hq : q.populate.Keyed) (docType : String) :
    Ensures (e.prepareQuery docType q) (Planned q) := by
  refine (ensures_ofExcept _ _).bind fun t ht => ?_
  have hget := (Registry.get?_of_collection ht).1
  refine (ensures_true _).bind fun _ _ => ?_
  refine (ensures_true _).bind fun status _ => ?_
  refine (ensures_true _).bind fun predicate _ => ?_
  refine Ensures.bind (P := fun plan => plan.TagsOnce ∧ plan.Implements q.populate) ?_
    fun plan hplan => ?_
  · intro d plan hplan
    obtain ⟨cache, hbuild, -⟩ := runs_plan_iff.1 (Prod.ext hplan rfl)
    have hbuild := congrArg Prod.fst hbuild
    have hwell := Registry.wellFormed_build hr htypes
    exact ⟨PopulatePlan.tagsOnce_of_build hwell hget hq.tagsOnce hbuild,
      PopulatePlan.implements_of_build hwell hq hbuild⟩
  refine (ensures_true _).bind fun window _ => ?_
  refine (ensures_true _).bind fun _ _ => ?_
  refine (ensures_ofExcept _ _).bind fun projection hprojection => ?_
  refine ensures_pure ⟨hplan.1, hplan.2, ?_⟩
  cases hfields : q.fields with
  | none =>
    rw [hfields] at hprojection
    exact (Except.ok.inj hprojection).symm
  | some names =>
    rw [hfields] at hprojection
    obtain ⟨_, -, h⟩ := Except.bind_eq_ok_iff.1 hprojection
    exact (Except.ok.inj h).symm

/-! ## Running -/

variable {s : MemoryStore} {token : CancelToken} {p p' : PreparedQuery}

theorem stored_of_window (hs : s.Reachable) {d : Document} (hd : d ∈ window s p) :
    ∃ id, s.get? p.docType id p.status = some d := by
  have hrow := List.mem_of_mem_drop (List.mem_of_mem_take hd)
  have hmatches := (s.perm_rows p.docType p.predicate p.status p.fetch.sort).mem_iff.1 hrow
  exact ((MemoryStore.mem_matching hs.valid).1 hmatches).1

theorem window_of_opens (s : MemoryStore) (h : p.Opens p') : window s p' = window s p := by
  cases h
  rfl

theorem alike_pageCall (he : e.store = MemoryStore.adapter) (h : p.Opens p') :
    (e.pageCall s p).Alike (e.pageCall s p') := by
  obtain ⟨docType, status, predicate, window, sort, hplan, hshown⟩ := h
  unfold pageCall
  rw [he]
  refine StoreCall.alike_ofStore _ _ ?_
  change ((s.page ..).map fun _ => ()) = (s.page ..).map fun _ => ()
  rw [MemoryStore.page_eq, MemoryStore.page_eq]
  cases s.enter docType <;> rfl

theorem alike_populate (token : CancelToken) (he : e.store = MemoryStore.adapter)
    (hs : s.Reachable) (h : p.Opens p') (hp : Planned q p) {rows rows' : List Document}
    (hrows : List.Forall₂ (Document.Agrees p.plan.attributes) rows rows') :
    (e.populate s token p rows).Alike (e.populate s token p' rows') := by
  obtain ⟨docType, status, predicate, window, sort, hplan, hshown⟩ := h
  have hresolve := Resolver.alike_resolve status token hs hplan hp.tagsOnce hp.asked.levelled hrows
  unfold populate
  rw [he]
  cases hplan with
  | nil => exact Call.alike_succeed _ _
  | cons => exact StoreCall.alike_observed hresolve

theorem alike_runQuery (token : CancelToken) (he : e.store = MemoryStore.adapter)
    (hs : s.Reachable) (h : p.Opens p') (hp : Planned q p) :
    (e.runQuery s token p).Alike (e.runQuery s token p') := by
  have hcount : (e.countCall s ⟨p.docType, p.status, p.predicate⟩).Settles (s.Interrupts token) _ :=
    settles_countCall he p.docType p.status p.predicate p.fetch.sort
  have hrows : ∀ p : PreparedQuery, (e.pageCall s p).Settles (s.Interrupts token) _ :=
    settles_pageCall he
  have hpage : (e.pageCall s p).Alike (e.pageCall s p') := alike_pageCall he h
  have hagree : List.Forall₂ (Document.Agrees p.plan.attributes)
      ((window s p).map p.fetch.projection.apply) ((window s p').map p'.fetch.projection.apply) := by
    rw [List.forall₂_map_left_iff, List.forall₂_map_right_iff, window_of_opens s h]
    exact List.forall₂_same.2 fun d _ => h.projection.agrees hp.fits d
  have hpopulate := alike_populate token he hs h hp hagree
  unfold runQuery
  rw [h.counted]
  refine (StoreCall.alike_observed (CancelToken.alike_run token _
    ((Call.alike_refl _).both hpage))).settled (settles_token (hcount.both (hrows p)))
      (settles_token (hcount.both (hrows p'))) ?_
  exact hpopulate.andThen fun rows rows' =>
    (Call.alike_record _ _).andThen fun _ _ => Call.alike_succeed _ _

theorem prepared_of_ok {page : PageResult Document} {now : Nat} {st : EngineState MemoryStore}
    (h : (e.query st docType q token now).outcome = .ok page) :
    ∃ p desk, Runs (e.prepareQuery docType q) { cache := st.cache } p desk := by
  rcases hprepared : (e.prepareQuery docType q).run.run { cache := st.cache } with ⟨x | p, desk⟩
  · simp only [query, reading, Answer.outcome, hprepared] at h
    exact absurd h (by rintro ⟨⟩)
  · exact ⟨p, desk, hprepared⟩

theorem page_eq_of_outcome {page : PageResult Document} {now : Nat} {st : EngineState MemoryStore}
    {desk : Desk} (he : e.store = MemoryStore.adapter) (hs : st.store.Reachable)
    (hplan : p.plan.TagsOnce)
    (hprepared : Runs (e.prepareQuery docType q) { cache := st.cache } p desk)
    (h : (e.query st docType q token now).outcome = .ok page) :
    page.data = (window st.store p).map
        (shownRow st.store p.status p.plan p.fetch.projection) ∧
      page.pageMeta = p.window.describe
        (UInt64.ofNat (st.store.rows p.docType p.predicate p.status p.fetch.sort).length) := by
  have hsettles : (e.runQuery st.store (e.tokenOf token now) p).Settles
      (st.store.Interrupts (e.tokenOf token now)) _ := settles_runQuery he hs hplan
  rcases outcome_reading hprepared hsettles now with hok | ⟨i, herr, -⟩
  · obtain rfl := Except.ok.inj (h.symm.trans hok)
    exact ⟨rfl, rfl⟩
  · exact absurd (h.symm.trans herr) (by simp)

variable {st : EngineState MemoryStore} {now : Nat} {page : PageResult Document}

theorem alike_reading {α α' β : Type} {prepare : Preparing α} {prepare' : Preparing α'} {a : α}
    {a' : α'} {desk desk' : Desk} {run : α → StoreCall β} {run' : α' → StoreCall β}
    (ha : Runs prepare { cache := st.cache } a desk)
    (ha' : Runs prepare' { cache := st.cache } a' desk') (h : (run a).Alike (run' a')) (now : Nat) :
    (e.reading st now prepare run).progress.Alike (e.reading st now prepare' run').progress := by
  rw [progress_reading ha, progress_reading ha']
  exact (Call.alike_recordAll _ _).andThen (fun _ _ => h.mapError _) now

/-- The answers to two prepared queries are about the same rows, as each of them shows these. -/
structure Answers (s : MemoryStore) (p p' : PreparedQuery) (page page' : PageResult Document) :
    Prop where
  described : page.pageMeta = page'.pageMeta
  left : page.data = (window s p).map (shownRow s p.status p.plan p.fetch.projection)
  right : page'.data = (window s p).map (shownRow s p.status p'.plan p'.fetch.projection)

/-- If a request has an answer, so has a request that it opens to. -/
theorem answers_of_opens (hbuild : Registry.build types = .ok e.registry)
    (htypes : ∀ t ∈ types, t.TagsOnce) (he : e.store = MemoryStore.adapter)
    (hs : st.store.Reachable) (hq : q.populate.Keyed) {desk : Desk}
    (hp : Runs (e.prepareQuery docType q) { cache := st.cache } p desk)
    (hok : (e.query st docType q token now).outcome = .ok page) (hopens : q.Opens q') :
    ∃ p' page', Runs (e.prepareQuery docType q') { cache := st.cache } p' desk ∧
      p.Opens p' ∧ (e.query st docType q' token now).outcome = .ok page' ∧
      Answers st.store p p' page page' := by
  have hplanned := ensures_planned hbuild htypes hq docType _ p (congrArg Prod.fst hp)
  obtain ⟨p', hp', hpp'⟩ := follows_prepareQuery hopens docType _ p desk hp
  have hplanned' := ensures_planned hbuild htypes (hq.of_opens hopens.populate) docType _ p'
    (congrArg Prod.fst hp')
  have halike := alike_reading (e := e) hp hp'
    (alike_runQuery (e.tokenOf token now) he hs hpp' hplanned) now
  rcases halike.cases with ⟨_, page', -, hok'⟩ | ⟨i, herr, -⟩
  · obtain ⟨hdata, hmeta⟩ := page_eq_of_outcome he hs hplanned.tagsOnce hp hok
    obtain ⟨hdata', hmeta'⟩ := page_eq_of_outcome he hs hplanned'.tagsOnce hp' hok'
    refine ⟨p', page', hp', hpp', hok', ?_⟩
    obtain ⟨docType, status, predicate, window, sort, -, -⟩ := hpp'
    exact ⟨hmeta.trans hmeta'.symm, hdata, hdata'⟩
  · exact absurd (hok.symm.trans herr) (by simp)

end Engine

/-- What a document is, apart from its fields. -/
def Document.heading (d : Document) : String × DocumentId × Option Status :=
  (d.docType, d.id, d.status)

/-- The pages have the same description and the same documents in the same order, and the first one
shows of each of them what `cut` leaves. -/
structure PageResult.Hides (cut : Document → Document) (page page' : PageResult Document) : Prop where
  described : page.pageMeta = page'.pageMeta
  headings : page.data.map Document.heading = page'.data.map Document.heading
  shown : page.data = page'.data.map cut

theorem Engine.Answers.hides {s : MemoryStore} {p p' : PreparedQuery}
    {page page' : PageResult Document} (h : Answers s p p' page page') {cut : Document → Document}
    (hheading : ∀ d, (cut d).heading = d.heading)
    (hcut : ∀ d ∈ window s p, shownRow s p.status p.plan p.fetch.projection d =
      cut (shownRow s p.status p'.plan p'.fetch.projection d)) : page.Hides cut page' := by
  have hshown : page.data = page'.data.map cut := by
    rw [h.left, h.right, List.map_map]
    exact List.map_congr_left hcut
  refine ⟨h.described, ?_, hshown⟩
  rw [hshown, List.map_map]
  exact List.map_congr_left fun d _ => hheading d

namespace Engine
variable {e : Engine MemoryStore} {types : List DocumentType} {docType : String}
  {q : QueryRequest} {token : CancelToken} {st : EngineState MemoryStore} {now : Nat}
  {page : PageResult Document}

/-- Let a request with fields, at the root or in shapes below it, be answered. Without the fields at
the root, the answer is the same, except that its documents have all their fields and not only those
that the request names or populates. Without some of the fields at any depth, the answer is the same,
except that its documents are cut down at every level of the plan to what the request names or
populates there, provided that no stored document embeds another one in an instance of a polymorphic
relation that the request names fields for. -/
theorem fields_only_hide (hbuild : Registry.build types = .ok e.registry)
    (htypes : ∀ t ∈ types, t.TagsOnce) (he : e.store = MemoryStore.adapter)
    (hs : st.store.Reachable)
    (hordered : ∀ docType id status d, st.store.get? docType id status = some d →
      Entries.Sorted d.fields)
    (hq : q.populate.Keyed) (hok : (e.query st docType q token now).outcome = .ok page) :
    ∃ p desk, Runs (e.prepareQuery docType q) { cache := st.cache } p desk ∧
      p.plan.Implements q.populate ∧
      (∀ names, q.fields = some names → ∃ page',
        (e.query st docType { q with fields := none } token now).outcome = .ok page' ∧
          page.Hides ((Projection.only names).extend p.plan.attributes).apply page') ∧
      ∀ q', q.Opens q' → (st.store.EmbedsOnly fun tag => ∀ b ∈ p.plan, ¬ b.Restricts tag) → ∃ page',
        (e.query st docType q' token now).outcome = .ok page' ∧
          page.Hides (CutDown.document p.plan p.fetch.projection []) page' := by
  obtain ⟨p, desk, hp⟩ := prepared_of_ok hok
  have hplanned := ensures_planned hbuild htypes hq docType _ p (congrArg Prod.fst hp)
  refine ⟨p, desk, hp, hplanned.asked, fun names hnames => ?_, fun q' hopens hcontents => ?_⟩
  · obtain ⟨p', page', hp', -, hok', hanswers⟩ :=
      answers_of_opens hbuild htypes he hs hq hp hok (QueryRequest.opens_fields hq)
    obtain ⟨_, hall, rfl⟩ := follows_without_fields docType _ p desk hp
    obtain rfl := hp'.unique hall
    refine ⟨page', hok', hanswers.hides (fun _ => rfl) fun d hd => ?_⟩
    obtain ⟨id, hget⟩ := stored_of_window hs hd
    have hprojection : p.fetch.projection = (Projection.only names).extend p.plan.attributes := by
      rw [hplanned.shown, hnames]
      rfl
    rw [shownRow, shownRow, Projection.apply_all, ← hprojection]
    exact OneByOne.populate_apply hplanned.fits [] (hordered _ _ _ d hget)
  · obtain ⟨p', page', -, hpp', hok', hanswers⟩ :=
      answers_of_opens hbuild htypes he hs hq hp hok hopens
    refine ⟨page', hok', hanswers.hides (fun d => ?_) fun d hd => ?_⟩
    · simp [Document.heading]
    · obtain ⟨id, hget⟩ := stored_of_window hs hd
      have hcuts : List.Forall₂ (OneByOne.Cuts st.store p.status _) p.plan p'.plan :=
        OneByOne.cuts_plan hcontents p.plan p'.plan hpp'.plan hplanned.asked.levelled.2
          fun b hb tag h hspared => hspared b hb h
      exact OneByOne.populate_eq_cutDown hcuts hpp'.projection hplanned.fits []
        (hcontents _ _ _ d hget)

/-- An article with a slug, a title and what is stored under its related articles. -/
def written (id : DocumentId) (related : List Value) : Document :=
  ⟨"article", id, some .published,
    [("related", .list related), ("slug", .text "slug"), ("title", .text "Title")]⟩

def writtenStore : MemoryStore :=
  (({ registry := Blog.registry, now := "" } : MemoryStore).insert (written "a" [.ref "b"])).insert
    (written "b" [])

/-- Articles with their related articles, and the fields to show of both. -/
def withRelated (fields below : Option Names) : QueryRequest where
  populate := Resolver.relatedSpec (.shape ⟨below, none, PopulateSpec.empty⟩)
  fields

theorem stored_written (embeds : String → Prop) (id : DocumentId) (related : List DocumentId) :
    (written id (related.map .ref)).Stored embeds := by
  have hkeys : ["related", "slug", "title"].Pairwise (· < ·) := by decide
  refine ⟨List.pairwise_map.1 hkeys, ?_⟩
  have hrelated : (Value.list (related.map .ref)).Stored embeds := by
    refine Value.stored_of_flat fun tag d hd => ?_
    simp [Value.instances] at hd
  simp only [written, List.forall_mem_cons]
  exact ⟨hrelated, Value.stored_of_flat (by simp [Value.instances]),
    Value.stored_of_flat (by simp [Value.instances]), List.forall_mem_nil _⟩

theorem embedsOnly_writtenStore (embeds : String → Prop) : writtenStore.EmbedsOnly embeds :=
  ((MemoryStore.embedsOnly_empty rfl embeds).insert (stored_written embeds "a" ["b"])).insert
    (stored_written embeds "b" [])

theorem fields_only_hide_blog :
    let st := reader.start writtenStore
    let query := fun q => (reader.query st "article" q .never 0).outcome
    let plan : PopulatePlan :=
      [.relation "article" "related" false ⟨"article", none, .only ["title"], true, []⟩]
    ∃ page, query (withRelated (some ["slug"]) (some ["title"])) = .ok page ∧
      (∃ page', query (withRelated none (some ["title"])) = .ok page' ∧
        page.Hides (Projection.only ["related", "slug"]).apply page') ∧
      ∃ page', query (withRelated none none) = .ok page' ∧
        page.Hides (CutDown.document plan (.only ["related", "slug"]) []) page' := by
  intro st query plan
  let q := withRelated (some ["slug"]) (some ["title"])
  have hs : st.store.Reachable := .insert _ _ (.insert _ _ (.empty _ rfl))
  have hkeyed : q.populate.Keyed :=
    PopulateSpec.keyed_single _ (.shape _ .nil (List.forall_mem_nil _))
  have hopens : q.Opens (withRelated none none) :=
    ⟨rfl, .intro _ (.cons (.intro _ (.shape (.intro _ (.inr rfl) (.intro _ .nil)))) .nil), rfl,
      .inr rfl, rfl, rfl⟩
  have hordered : ∀ docType id status d, st.store.get? docType id status = some d →
      Entries.Sorted d.fields :=
    fun docType id status d hd => (embedsOnly_writtenStore (fun _ => True) _ _ _ d hd).ordered
  have hanswer : ∃ page, (reader.query (reader.start writtenStore) "article"
      (withRelated (some ["slug"]) (some ["title"])) .never 0).outcome = .ok page := ⟨_, rfl⟩
  obtain ⟨page, hok⟩ := hanswer
  obtain ⟨p, desk, hp, -, hroot, hbelow⟩ := fields_only_hide Blog.build_types Resolver.tagsOnce_blog
    rfl hs hordered hkeyed hok
  have hplan : p.plan = plan := congrArg PreparedQuery.plan (hp.unique rfl)
  have hshown : p.fetch.projection = .only ["related", "slug"] :=
    congrArg (·.fetch.projection) (hp.unique rfl)
  refine ⟨page, hok, ?_, ?_⟩
  · have hpage := hroot ["slug"] rfl
    rwa [hplan] at hpage
  · have hpage := hbelow _ hopens (embedsOnly_writtenStore _)
    rwa [hplan, hshown] at hpage

/-! ## Embedded documents -/

/-- Articles with the authors that they mention, and the fields to show of these. -/
def withMentions (fields : Option Names) : QueryRequest where
  populate := ⟨false, [("mentions", .tags [("author", .shape ⟨fields, none, PopulateSpec.empty⟩)])]⟩

/-- An article that holds an author where a reference to the author is expected. -/
def mentioning : Document :=
  ⟨"article", "a", some .published,
    [("mentions", .list [.variant "author" (.doc ⟨"author", "u", none,
        [("email", .text "ada@example.com"), ("name", .text "Ada")]⟩)]),
      ("title", .text "T")]⟩

def mentioningStore : MemoryStore :=
  ({ registry := Blog.registry, now := "" } : MemoryStore).insert mentioning

/-- The page with the article as it is stored. -/
def mentioningPage : PageResult Document := ⟨[mentioning], ⟨1, 25, 1, 1⟩⟩

/-- Without the condition on what is stored: an embedded author is not fetched, and keeps the address
that the fields of the branch leave out. -/
theorem fields_of_embedded_stay :
    let st := reader.start mentioningStore
    let query := fun q => (reader.query st "article" q .never 0).outcome
    (withMentions (some ["name"])).Opens (withMentions none) ∧
      query (withMentions (some ["name"])) = .ok mentioningPage ∧
      query (withMentions none) = .ok mentioningPage ∧
      ∃ p desk, Runs (reader.prepareQuery "article" (withMentions (some ["name"])))
          { cache := st.cache } p desk ∧
        ¬ mentioningPage.Hides (CutDown.document p.plan p.fetch.projection []) mentioningPage := by
  intro st query
  let plan : PopulatePlan := [.polymorphic "article" "mentions"
    [⟨"author", none, .only ["name"], false, []⟩]]
  have hopens : (withMentions (some ["name"])).Opens (withMentions none) :=
    ⟨rfl, .intro _ (.cons (.intro _ (.tags (.cons (.intro _ (.shape
      (.intro _ (.inr rfl) (.intro _ .nil)))) .nil))) .nil), rfl, .inl rfl, rfl, rfl⟩
  have hok : ∀ fields ∈ [some ["name"], none], (reader.query (reader.start mentioningStore) "article"
      (withMentions fields) .never 0).outcome = .ok mentioningPage := by
    rintro _ (_ | ⟨_, _ | ⟨_, ⟨⟩⟩⟩) <;> rfl
  obtain ⟨p, desk, hp, hplan, hshown⟩ : ∃ p desk, Runs (reader.prepareQuery "article"
      (withMentions (some ["name"]))) { cache := (reader.start mentioningStore).cache } p desk ∧
        p.plan = plan ∧ p.fetch.projection = .all := ⟨_, _, rfl, rfl, rfl⟩
  refine ⟨hopens, hok _ (by simp), hok _ (by simp), p, desk, hp, fun hhides => ?_⟩
  have hcut : CutDown.document plan .all [] mentioning = mentioning.set "mentions" (.list
      [.variant "author" (.doc ⟨"author", "u", none, [("name", .text "Ada")]⟩)]) := rfl
  have hdata : [mentioning] = [mentioning].map _ := hhides.shown
  rw [hplan, hshown, List.map_cons, List.map_nil, hcut] at hdata
  simp [mentioning, Document.set, Entries.insert] at hdata

end Engine
end ContentEngine
