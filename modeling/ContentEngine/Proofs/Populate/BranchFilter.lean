import ContentEngine.Proofs.Filter.Behind
import ContentEngine.Proofs.Populate.Populated
import ContentEngine.Proofs.Store.Scan

/-!
# A filter through a relation, and on its branch

A document matches a filter through a relation exactly if populating the relation under the rest of
the filter leaves a target, provided that both look up the types behind the target at the same
status. A request for drafts is the one case in which they may not: the documents of a target without
drafts are filtered as if no status were asked for, and what they refer to is read as published.
-/

namespace ContentEngine

/-! ## Populating under a filter -/

/-- A relation whose documents have to match a filter. -/
def PopulateSpec.filtered (attr : String) (filter : Filter) : PopulateSpec :=
  ⟨false, [(attr, .shape ⟨none, some filter, PopulateSpec.empty⟩)]⟩

namespace Planning
variable {r : Registry} {t next : DocumentType} {attr target : String} {a : AttributeDefinition}

theorem runs_compileFilter {f : Filter} {p : Predicate} (h : f.compile r t = .ok p)
    (capacity : Nat) : ∃ cache, Runs (compileFilter r t f) (.empty capacity) p cache := by
  have hget : ((PredicateCache.empty capacity).getOrCompile r t f).1 = .ok (p, false) := by
    unfold PredicateCache.getOrCompile
    by_cases hzero : (PredicateCache.empty capacity).capacity = 0
    · rw [if_pos hzero, h]
      rfl
    · rw [if_neg hzero]
      simp [PredicateCache.find?, PredicateCache.empty, h]
  refine ⟨((PredicateCache.empty capacity).getOrCompile r t f).2, ?_⟩
  have hread : ∀ k : PredicateCache → Planning Predicate,
      (get >>= k).run.run (.empty capacity) = (k (.empty capacity)).run.run (.empty capacity) :=
    fun _ => rfl
  unfold Runs compileFilter
  rw [hread]
  generalize (PredicateCache.empty capacity).getOrCompile r t f = x at hget ⊢
  obtain ⟨answer, cache⟩ := x
  obtain rfl : answer = .ok (p, false) := hget
  rfl

theorem populatable_eq_pure (ha : t.attr? attr = some a)
    (htarget : a.kind.relationTarget? = some target) : populatable t attr = pure a := by
  have hpopulatable : a.kind.isPopulatable = true := by
    cases hkind : a.kind <;> simp_all [AttributeKind.relationTarget?, AttributeKind.isPopulatable,
      AttributeKind.scalar?]
  unfold populatable
  simp [ha, hpopulatable]

theorem build_filtered (ha : t.attr? attr = some a)
    (htarget : a.kind.relationTarget? = some target) (hnext : r.get? target = some next)
    {f : Filter} {p : Predicate} (h : f.compile r next = .ok p) (capacity : Nat) :
    (PopulatePlan.build r t (.filtered attr f) (.empty capacity)).1 =
      .ok [.relation t.name a.name (a.kind.cardinality? = some .one)
        ⟨next.name, some p, .all, next.draftAndPublish, []⟩] := by
  obtain ⟨cache, hcompile⟩ := runs_compileFilter h capacity
  have hget : ofSchema (r.get target) = (pure next : Planning DocumentType) := by
    rw [Registry.get_eq_ok_iff.2 hnext]
    rfl
  have hbelow : Runs (Planning.target r next none (some f) []) (.empty capacity)
      ⟨next.name, some p, .all, next.draftAndPublish, []⟩ cache :=
    Runs.bind (runs_pure _ _) (Runs.bind (Runs.bind hcompile (runs_pure _ _)) (runs_pure _ _))
  have hbranch : ∀ expand, Runs (planBranch r expand t attr (.shape ⟨none, some f, PopulateSpec.empty⟩))
      (.empty capacity) (.relation t.name a.name (a.kind.cardinality? = some .one)
        ⟨next.name, some p, .all, next.draftAndPublish, []⟩) cache := by
    intro expand
    rw [planBranch, populatable_eq_pure ha htarget]
    refine Runs.bind (runs_pure _ _) ?_
    simp only [htarget, hget]
    exact Runs.bind (runs_pure _ _) (Runs.bind (runs_pure _ _) (Runs.bind hbelow (runs_pure _ _)))
  let expand := planDefaults r (r.types.length + 1) []
  have hplan : Runs (runAll [planBranch r expand t attr (.shape ⟨none, some f, PopulateSpec.empty⟩)])
      (.empty capacity) [.relation t.name a.name (a.kind.cardinality? = some .one)
        ⟨next.name, some p, .all, next.draftAndPublish, []⟩] cache :=
    Runs.bind (hbranch expand) (Runs.bind (runs_pure _ cache) (runs_pure _ cache))
  exact congrArg Prod.fst hplan

end Planning

/-! ## Both readings -/

namespace Value
variable {lookup : Lookup} {target : String} {x : Document}

mutual
theorem leads_of_mem_refs {id : DocumentId} (hx : lookup target id = some x) :
    ∀ v : Value, (∀ e, ¬ v.HoldsDoc e) → id ∈ v.refs → v.Leads lookup target x
  | .ref i, _, hid => by
    obtain rfl := List.mem_singleton.1 hid
    exact .ref id x hx
  | .doc d, h, _ => absurd .doc (h d)
  | .list items, h, hid => by
    have hitems : ∀ v ∈ items, ∀ e, ¬ v.HoldsDoc e := fun v hv e he => h e (.item items v hv he)
    obtain ⟨v, hv, hlead⟩ := leads_of_mem_refsOfItems hx items hitems hid
    exact .item items v x hv hlead
  | .null, _, hid | .bool _, _, hid | .int _, _, hid | .float _, _, hid | .text _, _, hid
  | .json _, _, hid | .variant _ _, _, hid => absurd hid List.not_mem_nil

theorem leads_of_mem_refsOfItems {id : DocumentId} (hx : lookup target id = some x) :
    ∀ vs : List Value, (∀ v ∈ vs, ∀ e, ¬ v.HoldsDoc e) → id ∈ refsOfItems vs →
      ∃ v ∈ vs, v.Leads lookup target x
  | [], _, hid => absurd hid List.not_mem_nil
  | v :: vs, h, hid => by
    obtain ⟨hv, hvs⟩ := List.forall_mem_cons.1 h
    rcases List.mem_append.1 hid with hid | hid
    · exact ⟨v, List.mem_cons_self .., leads_of_mem_refs hx v hv hid⟩
    · obtain ⟨w, hw, hlead⟩ := leads_of_mem_refsOfItems hx vs hvs hid
      exact ⟨w, List.mem_cons_of_mem _ hw, hlead⟩
end

/-- What a value without documents of its own leads to is behind one of its references. -/
theorem leads_iff_of_refs {v : Value} (h : ∀ e, ¬ v.HoldsDoc e) :
    v.Leads lookup target x ↔ ∃ id ∈ v.refs, lookup target id = some x := by
  constructor
  · intro hlead
    induction hlead with
    | ref id x hx => exact ⟨id, List.mem_singleton_self id, hx⟩
    | doc d => exact absurd .doc (h d)
    | item items v x hv _ ih =>
      obtain ⟨id, hid, hx⟩ := ih fun e he => h e (.item items v hv he)
      refine ⟨id, ?_, hx⟩
      rw [refs, refsOfItems_eq_flatMap]
      exact List.mem_flatMap.2 ⟨v, hv, hid⟩
  · rintro ⟨id, hid, hx⟩
    exact leads_of_mem_refs hx v h hid

end Value

theorem isAbsent_relationValue (one : Bool) (docs : List Document) :
    (relationValue one docs).isAbsent = docs.isEmpty := by
  cases one <;> cases docs <;> rfl

section
variable {s : MemoryStore} {status : Option Status} {next : DocumentType} {c : Comparison}

/-- The status at which the documents of a target are filtered. -/
def targetStatus (next : DocumentType) (status : Option Status) : Option Status :=
  if next.draftAndPublish then some (status.getD .published) else none

/-- Only a request for drafts is read differently behind a target without drafts. -/
theorem lookup_agrees
    (h : status = some .draft → next.draftAndPublish = false →
      ∀ hop ∈ c.path.hops, s.registry.hasDrafts hop.target = false) :
    ∀ hop ∈ c.path.hops,
      s.lookup status hop.target = s.lookup (targetStatus next status) hop.target := by
  intro hop hhop
  have hread : MemoryStore.readStatus s.registry hop.target status =
      MemoryStore.readStatus s.registry hop.target (targetStatus next status) := by
    unfold MemoryStore.readStatus targetStatus
    cases hdrafts : s.registry.hasDrafts hop.target with
    | false => rfl
    | true =>
      cases hnext : next.draftAndPublish with
      | true => rfl
      | false =>
        rcases status with _ | _ | _
        · rfl
        · rw [h rfl hnext hop hhop] at hdrafts
          cases hdrafts
        · rfl
  funext id
  unfold MemoryStore.lookup
  rw [hread]

theorem fetchOne_filtered (hnext : s.registry.hasDrafts next.name = next.draftAndPublish)
    (ref : DocumentId) (x : Document) :
    s.fetchOne status (⟨next.name, some (.compare c), .all, next.draftAndPublish, []⟩ : TargetPlan)
        ref = some x ↔
      s.lookup status next.name ref = some x ∧
        c.matches? (s.lookup (targetStatus next status)) x = true := by
  have hlookup : s.lookup status next.name ref =
      s.get? next.name ref (targetStatus next status) := by
    unfold MemoryStore.lookup MemoryStore.readStatus targetStatus
    rw [hnext]
  have hall : Projection.apply .all = id := funext Projection.apply_all
  rw [hlookup]
  unfold MemoryStore.fetchOne
  simp only [hall, Option.map_id, id]
  exact Option.filter_eq_some_iff

/-- Populating the relation leaves a target exactly if the document refers to one that is accepted. -/
theorem target_left_iff (hnext : s.registry.hasDrafts next.name = next.draftAndPublish)
    (owner attr : String) (one : Bool) (d : Document) :
    (∃ v, (OneByOne.populate s status [.relation owner attr one
        ⟨next.name, some (.compare c), .all, next.draftAndPublish, []⟩] [] d).get? attr = some v ∧
        v.isAbsent = false) ↔
      ∃ v, d.get? attr = some v ∧ ∃ ref ∈ v.refs, ∃ x, s.lookup status next.name ref = some x ∧
        c.matches? (s.lookup (targetStatus next status)) x = true := by
  let target : TargetPlan := ⟨next.name, some (.compare c), .all, next.draftAndPublish, []⟩
  have honce : (PopulatePlan.attributes [.relation owner attr one target]).Nodup :=
    List.nodup_singleton attr
  have hget : (OneByOne.populate s status [.relation owner attr one target] [] d).get? attr =
      (d.get? attr).map (OneByOne.newValue s status (.relation owner attr one target) [] d.id) :=
    OneByOne.get?_populate honce (List.mem_singleton_self _) d
  rw [hget]
  cases hv : d.get? attr with
  | none => simp
  | some v =>
    have hleft : (OneByOne.newValue s status (.relation owner attr one target) [] d.id v).isAbsent =
        (v.refs.filterMap (s.fetchOne status target)).isEmpty := by
      simp only [OneByOne.newValue, List.not_mem_nil, if_false, isAbsent_relationValue,
        List.isEmpty_map]
    simp only [Option.map_some, Option.some.injEq, exists_eq_left', hleft,
      ← fetchOne_filtered hnext]
    rw [← Bool.not_eq_true, List.isEmpty_iff, List.eq_nil_iff_forall_not_mem]
    push Not
    simp only [List.mem_filterMap]
    exact ⟨fun ⟨x, ref, href, hx⟩ => ⟨ref, href, x, hx⟩, fun ⟨ref, href, x, hx⟩ => ⟨x, ref, href, hx⟩⟩

end

/-- A stored document matches a leaf behind a relation exactly if populating the relation under the
leaf leaves a target. The leaf has to look at something, and a request for drafts must not go through
a target without drafts to a type that has them. -/
theorem matches_iff_target_left {types : List DocumentType} {r : Registry}
    (hr : Registry.build types = .ok r) {name : String} {t : DocumentType}
    (ht : r.get? name = some t) {attr target : String} (hdot : '.' ∉ attr.toList)
    {a : AttributeDefinition} (ha : t.attr? attr = some a)
    (htarget : a.kind.relationTarget? = some target) {next : DocumentType}
    (hnext : r.get? target = some next) {path : String} {op : FilterOp} {operand : Value}
    {c : Comparison} (hleaf : (Filter.leaf path op operand).compile r next = .ok (.compare c))
    (hlooks : ¬ (op = .notIn ∧ operand = .list [])) {s : MemoryStore} (hs : s.Reachable)
    (hregistry : s.registry = r) {status : Option Status}
    (hdrafts : status = some .draft → next.draftAndPublish = false →
      ∀ hop ∈ c.path.hops, r.hasDrafts hop.target = false)
    {id : DocumentId} {d : Document} (hd : s.get? name id status = some d)
    (hrefs : ∀ v, d.get? attr = some v → ∀ e, ¬ v.HoldsDoc e) (token : CancelToken)
    (capacity now : Nat) :
    ∃ q plan d', (Filter.leaf (attr ++ "." ++ path) op operand).compile r t = .ok q ∧
      (PopulatePlan.build r t (.filtered attr (.leaf path op operand)) (.empty capacity)).1 =
        .ok plan ∧
      (let p := (Resolver.inMemory s status token).resolve plan [d] now
       p.outcome = .ok [d'] ∨ ∃ e, p.outcome = .error e ∧ s.Interrupts token e p.finish) ∧
      (d ∈ s.matching name q status ↔ ∃ v, d'.get? attr = some v ∧ v.isAbsent = false) := by
  obtain ⟨p, c, -, hc, ⟨⟩⟩ := Filter.compile_leaf hleaf
  have hempty : c.emptyMembership? ≠ some true := by
    intro hsome
    obtain ⟨hlist, ⟨-, ⟨⟩⟩ | ⟨hop, -⟩⟩ := (Filter.emptyMembership?_eq_some_iff hc true).1 hsome
    exact hlooks ⟨hop, hlist⟩
  obtain rfl := Registry.name_of_build hr hnext
  have hnextDrafts := Registry.hasDrafts_of_get? hnext
  subst hregistry
  have hcompile := Filter.compile_behind hdot ha htarget hnext hleaf
  have hplan := Planning.build_filtered ha htarget hnext hleaf capacity
  rw [DocumentType.attr?_name ha] at hplan
  refine ⟨_, _, _, hcompile, hplan, (Resolver.settles_resolve hs ?_ [d] now).outcome, ?_⟩
  · exact List.forall_mem_singleton.2 (.relation _ _ _ _ (List.forall_mem_nil _))
  rw [target_left_iff hnextDrafts, MemoryStore.mem_matching hs.valid, Predicate.holds,
    Comparison.matches?_behind _ hempty]
  have hagree := lookup_agrees hdrafts
  have hagree' := fun hop hhop => (hagree hop hhop).symm
  constructor
  · rintro ⟨-, v, x, hv, hlead, hx⟩
    obtain ⟨ref, href, hlookup⟩ := (Value.leads_iff_of_refs (hrefs v hv)).1 hlead
    exact ⟨v, hv, ref, href, x, hlookup, Comparison.matches?_of_agree hagree hx⟩
  · rintro ⟨v, hv, ref, href, x, hlookup, hx⟩
    exact ⟨⟨id, hd⟩, v, x, hv, (Value.leads_iff_of_refs (hrefs v hv)).2 ⟨ref, href, hlookup⟩,
      Comparison.matches?_of_agree hagree' hx⟩

/-! ## Articles and their authors -/

namespace Blog

/-- An author who refers to an article. -/
def ada : Document := ⟨"author", "u", none, [("articles", .list [.ref "a"]), ("name", .text "Ada")]⟩

def byAda (status : Status) (title : String) : Document :=
  ⟨"article", "a", some status, [("author", .ref "u"), ("title", .text title)]⟩

/-- An article that was published, and then given a new title in its draft. -/
def retitled : MemoryStore :=
  ((({ registry, now := "" } : MemoryStore).insert ada).insert (byAda .published "Old")).insert
    (byAda .draft "New")

theorem reachable_retitled : retitled.Reachable :=
  .insert _ _ (.insert _ _ (.insert _ _ (.empty _ rfl)))

theorem get?_retitled : retitled.get? "article" "a" (some .draft) = some (byAda .draft "New") := rfl

theorem refs_byAda {status : Status} {title : String} (v : Value)
    (hv : (byAda status title).get? "author" = some v) (e : Document) : ¬ v.HoldsDoc e := by
  obtain rfl := Option.some.inj hv
  rintro ⟨⟩

/-- The title of an article of an author, compared with the new one. -/
def newTitle : Comparison :=
  ⟨⟨[⟨"articles", "article"⟩], "title", .scalar .text⟩, .eq, .one (.text "New")⟩

def newTitlePlan : PopulatePlan :=
  [.relation "article" "author" true ⟨"author", some (.compare newTitle), .all, false, []⟩]

end Blog

/-- Drafts by an author of some name: no type behind the author is looked up. -/
theorem matches_iff_target_left_blog :
    ∃ q plan d', (Filter.leaf "author.name" .eq (.text "Ada")).compile Blog.registry
        Blog.article.withSystemAttributes = .ok q ∧
      (PopulatePlan.build Blog.registry Blog.article.withSystemAttributes
        (.filtered "author" (.leaf "name" .eq (.text "Ada"))) (.empty 0)).1 = .ok plan ∧
      (let p := (Resolver.inMemory Blog.retitled (some .draft) .never).resolve plan
          [Blog.byAda .draft "New"] 0
       p.outcome = .ok [d'] ∨
        ∃ e, p.outcome = .error e ∧ Blog.retitled.Interrupts .never e p.finish) ∧
      (Blog.byAda .draft "New" ∈ Blog.retitled.matching "article" q (some .draft) ↔
        ∃ v, d'.get? "author" = some v ∧ v.isAbsent = false) := by
  have hleaf : (Filter.leaf "name" .eq (.text "Ada")).compile Blog.registry
      Blog.author.withSystemAttributes =
        .ok (.compare ⟨⟨[], "name", .scalar .text⟩, .eq, .one (.text "Ada")⟩) := rfl
  have ht : Blog.registry.get? "article" = some Blog.article.withSystemAttributes := rfl
  exact matches_iff_target_left Blog.build_types ht (by decide) rfl rfl rfl hleaf (by simp)
    Blog.reachable_retitled rfl (by simp) Blog.get?_retitled Blog.refs_byAda .never 0 0

/-- Drafts by an author of an article of some title: the draft matches, as the look-up through its
author finds the draft itself, but its author is left out, as the filter of the branch finds the
published title. -/
theorem target_dropped_behind_author :
    (Filter.leaf "articles.title" .eq (.text "New")).compile Blog.registry
        Blog.author.withSystemAttributes = .ok (.compare Blog.newTitle) ∧
      (Filter.leaf "author.articles.title" .eq (.text "New")).compile Blog.registry
        Blog.article.withSystemAttributes =
          .ok (.compare (Blog.newTitle.behind ⟨"author", "author"⟩)) ∧
      Blog.retitled.Reachable ∧
      Blog.byAda .draft "New" ∈ Blog.retitled.matching "article"
        (.compare (Blog.newTitle.behind ⟨"author", "author"⟩)) (some .draft) ∧
      (PopulatePlan.build Blog.registry Blog.article.withSystemAttributes
        (.filtered "author" (.leaf "articles.title" .eq (.text "New"))) (.empty 0)).1 =
          .ok Blog.newTitlePlan ∧
      ((Resolver.inMemory Blog.retitled (some .draft) .never).resolve Blog.newTitlePlan
        [Blog.byAda .draft "New"] 0).outcome =
          .ok [(Blog.byAda .draft "New").set "author" .null] := by
  have ht : Blog.article.withSystemAttributes.attr? "author" = some (Blog.one "author" "author") :=
    rfl
  have hleaf : (Filter.leaf "articles.title" .eq (.text "New")).compile Blog.registry
      Blog.author.withSystemAttributes = .ok (.compare Blog.newTitle) := rfl
  have hroot : OneByOne.populate Blog.retitled (some .draft) Blog.newTitlePlan []
      (Blog.byAda .draft "New") = (Blog.byAda .draft "New").set "author" .null := rfl
  refine ⟨hleaf, rfl, Blog.reachable_retitled, ?_, Planning.build_filtered ht rfl rfl hleaf 0, ?_⟩
  · rw [MemoryStore.mem_matching Blog.reachable_retitled.valid]
    exact ⟨⟨"a", Blog.get?_retitled⟩, by decide +kernel⟩
  · rw [Resolver.resolve_never Blog.reachable_retitled rfl, List.map_singleton, hroot]
    exact List.forall_mem_singleton.2 (.relation _ _ _ _ (List.forall_mem_nil _))

end ContentEngine
