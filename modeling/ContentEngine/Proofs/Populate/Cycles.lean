import ContentEngine.Proofs.Populate.Populated

/-!
# Where the cycle guard stops

`Expanded` follows the documents that a plan expands from a root, with the steps that lead to each of
them. A relation at the end of such a path still holds bare references only where a document of the
same identifier was expanded along an attribute of the same name before. Identifiers are unique
within a type, so that document may be of another type: `Twins` has such a store.
-/

namespace ContentEngine

/-- An attribute of a document along which a plan went on. -/
structure Step where
  docType : String
  id : DocumentId
  attr : String
deriving DecidableEq, Repr

namespace Step

/-- What a chain records of a step. -/
def key (step : Step) : DocumentId × String := (step.id, step.attr)

end Step

/-- A document of this identifier was expanded along an attribute of this name. -/
def Repeats (path : List Step) (id : DocumentId) (attr : String) : Prop :=
  ∃ step ∈ path, step.id = id ∧ step.attr = attr

namespace Value

inductive HoldsRef : Value → Prop
  | ref (id : DocumentId) : HoldsRef (.ref id)
  | item (items : List Value) (v : Value) (hv : v ∈ items) (h : HoldsRef v) :
      HoldsRef (.list items)

end Value

/-- The value of a relation leaves a reference bare; the components of a dynamic zone are no
references, and no tag that is not planned is expanded. -/
def Branch.LeavesBare : Branch → Value → Prop
  | .relation _ _ _ _, v => v.HoldsRef
  | .polymorphic _ _ targets, v => ∃ t ∈ targets, ∃ id, (t.docType, .ref id) ∈ v.instances
  | .dynamicZone _ _ _, _ => False

/-- `Expanded plan root path level e`: the steps of `path`, the last one first, lead from a root that
is populated by `plan` to the document `e`, which is populated by `level`. A step that comes again is
not taken, and components add none. -/
inductive Expanded (plan : PopulatePlan) (root : Document) :
    List Step → PopulatePlan → Document → Prop
  | root : Expanded plan root [] plan root
  | relation {path : List Step} {level : PopulatePlan} {d e : Document} {owner attr : String}
      {one : Bool} {target : TargetPlan} {v : Value} (hd : Expanded plan root path level d)
      (hb : .relation owner attr one target ∈ level) (hv : d.get? attr = some v)
      (hnew : ¬ Repeats path d.id attr) (he : v.HoldsDoc e) :
      Expanded plan root (⟨d.docType, d.id, attr⟩ :: path) target.populate e
  | polymorphic {path : List Step} {level : PopulatePlan} {d e : Document} {owner attr : String}
      {targets : List TargetPlan} {target : TargetPlan} {v : Value}
      (hd : Expanded plan root path level d) (hb : .polymorphic owner attr targets ∈ level)
      (hv : d.get? attr = some v) (hnew : ¬ Repeats path d.id attr) (ht : target ∈ targets)
      (he : (target.docType, .doc e) ∈ v.instances) :
      Expanded plan root (⟨d.docType, d.id, attr⟩ :: path) target.populate e
  | dynamicZone {path : List Step} {level : PopulatePlan} {d e : Document} {owner attr : String}
      {components : List ComponentPlan} {component : ComponentPlan} {v : Value}
      (hd : Expanded plan root path level d) (hb : .dynamicZone owner attr components ∈ level)
      (hv : d.get? attr = some v) (hc : component ∈ components)
      (he : (component.docType, .doc e) ∈ v.instances) :
      Expanded plan root path component.populate e

theorem mem_chain_iff {path : List Step} {id : DocumentId} {attr : String} :
    (id, attr) ∈ path.map Step.key ↔ Repeats path id attr := by
  simp [Step.key, Repeats]

/-! ## Populated values -/

theorem mem_of_holdsDoc_relationValue {one : Bool} {docs : List Document} {e : Document}
    (h : (relationValue one docs).HoldsDoc e) : e ∈ docs := by
  cases one with
  | true =>
    cases docs with
    | nil => cases h
    | cons d docs =>
      cases h
      exact List.mem_cons_self ..
  | false =>
    cases h with
    | item items v hv h =>
      obtain ⟨d, hd, rfl⟩ := List.mem_map.1 hv
      cases h
      exact hd

theorem not_holdsRef_relationValue (one : Bool) (docs : List Document) :
    ¬ (relationValue one docs).HoldsRef := by
  intro h
  cases one with
  | true => cases docs <;> cases h
  | false =>
    cases h with
    | item items v hv h =>
      obtain ⟨d, -, rfl⟩ := List.mem_map.1 hv
      cases h

/-- The document is a root, or comes from the store, or is embedded in a document that does. Some of
its fields may be left out. -/
inductive Stems (s : MemoryStore) (root : Document) : Document → Prop
  | root : Stems s root root
  | stored {docType : String} {id : DocumentId} {status : Option Status} {d : Document}
      (h : s.get? docType id status = some d) (p : Projection) : Stems s root (p.apply d)
  | embedded {d e : Document} {attr tag : String} {v : Value} (hd : Stems s root d)
      (hv : d.get? attr = some v) (he : (tag, .doc e) ∈ v.instances) (p : Projection) :
      Stems s root (p.apply e)

section
variable {s : MemoryStore} {status : Option Status} {target : TargetPlan} {id : DocumentId}
  {d : Document}

theorem MemoryStore.stored_of_fetchOne (h : s.fetchOne status target id = some d) :
    ∃ read stored, s.get? target.docType id read = some stored ∧
      d = target.projection.apply stored := by
  obtain ⟨stored, hstored, rfl⟩ := Option.map_eq_some_iff.1 h
  exact ⟨_, stored, (Option.mem_filter_iff.1 hstored).1, rfl⟩

theorem stems_of_fetchOne (h : s.fetchOne status target id = some d) (root : Document) :
    Stems s root d := by
  obtain ⟨read, stored, hstored, rfl⟩ := MemoryStore.stored_of_fetchOne h
  exact .stored hstored _

end

namespace OneByOne
variable {s : MemoryStore} {status : Option Status} {chain : Chain}

theorem populated_of_newTarget {targets : List TargetPlan} (once : (targets.map (·.docType)).Nodup)
    {target : TargetPlan} (ht : target ∈ targets) {w : Value} {e : Document}
    (h : newTarget s status targets chain target.docType w = some (.doc e)) :
    ∃ d, (w = .doc d ∨ ∃ id, s.fetchOne status target id = some d) ∧
      e = populate s status target.populate chain d := by
  rw [newTarget_of_mem once ht] at h
  cases w with
  | ref id =>
    rw [newTarget_ref] at h
    obtain ⟨d, hfetched, hd⟩ := Option.map_eq_some_iff.1 h
    cases hd
    exact ⟨d, .inr ⟨id, hfetched⟩, rfl⟩
  | doc d =>
    rw [newTarget_doc] at h
    cases h
    exact ⟨d, .inl rfl, rfl⟩
  | _ => simp [newTarget] at h

theorem newTarget_ne_ref {targets : List TargetPlan} (once : (targets.map (·.docType)).Nodup)
    {target : TargetPlan} (ht : target ∈ targets) (w : Value) (id : DocumentId) :
    newTarget s status targets chain target.docType w ≠ some (.ref id) := by
  rw [newTarget_of_mem once ht]
  cases w <;> simp [newTarget]

theorem populated_of_newComponent {components : List ComponentPlan}
    (once : (components.map (·.docType)).Nodup) {component : ComponentPlan}
    (hc : component ∈ components) {w : Value} {e : Document}
    (h : newComponent s status components chain component.docType w = some (.doc e)) :
    ∃ d, w = .doc d ∧
      e = populate s status component.populate chain (component.projection.apply d) := by
  rw [newComponent_of_mem once hc] at h
  cases w with
  | doc d =>
    rw [newComponent_doc] at h
    cases h
    exact ⟨d, rfl, rfl⟩
  | _ => simp [newComponent] at h

/-! ## The walk -/

/-- A level of a plan that was built, and a document that it made of another one at the end of a
path. -/
structure AtLevel (s : MemoryStore) (status : Option Status) (root : Document) (path : List Step)
    (level : PopulatePlan) (d e : Document) : Prop where
  levelled : level.Levelled
  tagsOnce : level.TagsOnce
  stems : Stems s root d
  populated : e = populate s status level (path.map Step.key) d

/-- What a planned attribute of a populated document was made of. -/
theorem AtLevel.value {root : Document} {path : List Step} {level : PopulatePlan} {d e : Document}
    (h : AtLevel s status root path level d e) {b : Branch} (hb : b ∈ level) {v : Value}
    (hv : e.get? b.attr = some v) :
    ∃ v₀, d.get? b.attr = some v₀ ∧ v = newValue s status b (path.map Step.key) e.id v₀ := by
  obtain rfl := h.populated
  rw [get?_populate h.levelled.1 hb] at hv
  obtain ⟨v₀, hv₀, rfl⟩ := Option.map_eq_some_iff.1 hv
  exact ⟨v₀, hv₀, by rw [id_populate]⟩

theorem atLevel_of_expanded {plan : PopulatePlan} (hlevelled : plan.Levelled)
    (htags : plan.TagsOnce) {root : Document} {path : List Step} {level : PopulatePlan}
    {e : Document} (h : Expanded plan (populate s status plan [] root) path level e) :
    ∃ d, AtLevel s status root path level d e := by
  induction h with
  | root => exact ⟨root, hlevelled, htags, .root, rfl⟩
  | @relation path level d e owner attr one target v hd hb hv hnew he ih =>
    obtain ⟨d₀, ih⟩ := ih
    obtain ⟨v₀, -, rfl⟩ := ih.value hb hv
    have htarget : PopulatePlan.TagsOnce target.populate := by cases ih.tagsOnce _ hb; assumption
    rw [newValue, if_neg (mem_chain_iff.not.2 hnew)] at he
    obtain ⟨d', hd', rfl⟩ := List.mem_map.1 (mem_of_holdsDoc_relationValue he)
    obtain ⟨id, -, hfetched⟩ := List.mem_filterMap.1 hd'
    exact ⟨d', (ih.levelled.2 _ hb).below_relation, htarget, stems_of_fetchOne hfetched root, rfl⟩
  | @polymorphic path level d e owner attr targets target v hd hb hv hnew ht he ih =>
    obtain ⟨d₀, ih⟩ := ih
    obtain ⟨v₀, hv₀, rfl⟩ := ih.value hb hv
    obtain ⟨once, htargets⟩ : (targets.map (·.docType)).Nodup ∧
        ∀ t ∈ targets, PopulatePlan.TagsOnce t.populate := by
      cases ih.tagsOnce _ hb
      exact ⟨by assumption, by assumption⟩
    rw [newValue, if_neg (mem_chain_iff.not.2 hnew)] at he
    obtain ⟨w, hinstance, hw⟩ := Value.mem_instances_mapInstances.1 he
    obtain ⟨d', horigin, rfl⟩ := populated_of_newTarget once ht hw
    refine ⟨d', (ih.levelled.2 _ hb).below_polymorphic ht, htargets target ht, ?_, rfl⟩
    rcases horigin with rfl | ⟨id, hfetched⟩
    · exact Projection.apply_all d' ▸ .embedded ih.stems hv₀ hinstance .all
    · exact stems_of_fetchOne hfetched root
  | @dynamicZone path level d e owner attr components component v hd hb hv hc he ih =>
    obtain ⟨d₀, ih⟩ := ih
    obtain ⟨v₀, hv₀, rfl⟩ := ih.value hb hv
    obtain ⟨once, hcomponents⟩ : (components.map (·.docType)).Nodup ∧
        ∀ c ∈ components, PopulatePlan.TagsOnce c.populate := by
      cases ih.tagsOnce _ hb
      exact ⟨by assumption, by assumption⟩
    rw [newValue] at he
    obtain ⟨w, hinstance, hw⟩ := Value.mem_instances_mapInstances.1 he
    obtain ⟨d', rfl, rfl⟩ := populated_of_newComponent once hc hw
    exact ⟨component.projection.apply d', (ih.levelled.2 _ hb).below_dynamicZone hc,
      hcomponents component hc, .embedded ih.stems hv₀ hinstance _, rfl⟩

/-- A branch whose step is new on the path leaves nothing bare. -/
theorem repeats_of_leavesBare {root : Document} {path : List Step} {level : PopulatePlan}
    {e : Document} (h : ∃ d, AtLevel s status root path level d e) {b : Branch} (hb : b ∈ level)
    {v : Value} (hv : e.get? b.attr = some v) (hbare : b.LeavesBare v) : Repeats path e.id b.attr := by
  obtain ⟨d, h⟩ := h
  obtain ⟨v₀, -, rfl⟩ := h.value hb hv
  by_contra hnew
  cases b with
  | relation owner attr one target =>
    have hchain : (e.id, attr) ∉ path.map Step.key := mem_chain_iff.not.2 hnew
    rw [newValue, if_neg hchain] at hbare
    exact not_holdsRef_relationValue _ _ hbare
  | polymorphic owner attr targets =>
    have once : (targets.map (·.docType)).Nodup := by cases h.tagsOnce _ hb; assumption
    obtain ⟨target, ht, id, hid⟩ := hbare
    have hchain : (e.id, attr) ∉ path.map Step.key := mem_chain_iff.not.2 hnew
    rw [newValue, if_neg hchain] at hid
    obtain ⟨w, -, hw⟩ := Value.mem_instances_mapInstances.1 hid
    exact newTarget_ne_ref once ht w id hw
  | dynamicZone owner attr components => exact hbare

end OneByOne

/-- If populating by a plan that was built succeeds, a relation that the plan expands holds bare
references only in a document whose identifier and attribute were a step on the path before. -/
theorem bare_only_after_repeat {types : List DocumentType} {r : Registry}
    (hr : Registry.build types = .ok r) (htypes : ∀ t ∈ types, t.TagsOnce) {name : String}
    {t : DocumentType} (ht : r.get? name = some t) {spec : PopulateSpec} (hspec : spec.Keyed)
    {cache : PredicateCache} {plan : PopulatePlan}
    (hplan : (PopulatePlan.build r t spec cache).1 = .ok plan) {s : MemoryStore} (hs : s.Reachable)
    (status : Option Status) (token : CancelToken) (roots docs : List Document) (now : Nat)
    (hdocs : ((Resolver.inMemory s status token).resolve plan roots now).outcome = .ok docs) :
    ∀ d ∈ docs, ∀ path level e, Expanded plan d path level e → ∀ b ∈ level, ∀ v,
      e.get? b.attr = some v → b.LeavesBare v →
        ∃ step ∈ path, step.id = e.id ∧ step.attr = b.attr := by
  have hwell := Registry.wellFormed_build hr htypes
  have hlevelled := (PopulatePlan.implements_of_build hwell hspec hplan).levelled
  have htags := PopulatePlan.tagsOnce_of_build hwell ht hspec.tagsOnce hplan
  obtain rfl := Resolver.eq_of_resolve hs htags hdocs
  intro d hd path level e he b hb v hv hbare
  obtain ⟨root, -, rfl⟩ := List.mem_map.1 hd
  exact OneByOne.repeats_of_leavesBare (OneByOne.atLevel_of_expanded hlevelled htags he) hb hv hbare

/-- Two articles that refer to each other: at the second visit of the first one its references stay,
as its related articles were expanded at the root. -/
theorem bare_only_after_repeat_blog :
    let below : Document := Blog.related "b" [.doc Blog.first]
    let root : Document := Blog.related "a" [.doc below, .doc below]
    let plan := Resolver.relatedPlan (Resolver.relatedPlan (Resolver.relatedPlan []))
    let path : List Step := [⟨"article", "b", "related"⟩, ⟨"article", "a", "related"⟩]
    ((Resolver.inMemory Blog.store none .never).resolve plan [Blog.first] 0).outcome = .ok [root] ∧
      Expanded plan root path (Resolver.relatedPlan []) Blog.first ∧
      ∃ step ∈ path, step.id = Blog.first.id ∧ step.attr = "related" := by
  intro below root plan path
  let spec := Resolver.relatedSpec (.nested (Resolver.relatedSpec
    (.nested (Resolver.relatedSpec .all))))
  have hspec : spec.Keyed :=
    PopulateSpec.keyed_single _ (PopulateSpec.Keyed.nested (PopulateSpec.keyed_single _
      (PopulateSpec.Keyed.nested (PopulateSpec.keyed_single _ .all))))
  have ht : Blog.registry.get? "article" = some Blog.article.withSystemAttributes := rfl
  have hplan : (PopulatePlan.build Blog.registry Blog.article.withSystemAttributes spec
      (.empty 0)).1 = .ok plan := rfl
  have hs : Blog.store.Reachable := .insert _ _ (.insert _ _ (.empty _ rfl))
  have htags := PopulatePlan.tagsOnce_of_build
    (Registry.wellFormed_build Blog.build_types Resolver.tagsOnce_blog) ht hspec.tagsOnce hplan
  have hroot : OneByOne.populate Blog.store none
      (Resolver.relatedPlan (Resolver.relatedPlan (Resolver.relatedPlan []))) [] Blog.first =
        Blog.related "a" [.doc (Blog.related "b" [.doc Blog.first]),
          .doc (Blog.related "b" [.doc Blog.first])] := rfl
  have hdocs : ((Resolver.inMemory Blog.store none .never).resolve plan [Blog.first] 0).outcome =
      .ok [root] := by
    rw [Resolver.resolve_never hs rfl htags]
    exact congrArg (fun d => Except.ok [d]) hroot
  have hbelow : Expanded plan root [⟨"article", "a", "related"⟩]
      (Resolver.relatedPlan (Resolver.relatedPlan [])) below :=
    .relation .root (List.mem_singleton_self _) rfl (by simp [Repeats])
      (.item _ (.doc below) (List.mem_cons_self ..) .doc)
  have hagain : Expanded plan root path (Resolver.relatedPlan []) Blog.first :=
    .relation hbelow (List.mem_singleton_self _) rfl (by simp [Repeats, below, Blog.related])
      (.item _ (.doc Blog.first) (List.mem_cons_self ..) .doc)
  have hbare : Value.HoldsRef (.list [.ref "b", .ref "b"]) :=
    .item _ (.ref "b") (List.mem_cons_self ..) (.ref "b")
  exact ⟨hdocs, hagain, bare_only_after_repeat Blog.build_types Resolver.tagsOnce_blog ht hspec hplan
    hs none .never [Blog.first] [root] 0 hdocs root (List.mem_singleton_self _) path _ Blog.first
    hagain _ (List.mem_singleton_self _) _ rfl hbare⟩

/-! ## Documents of two types under one identifier -/

namespace Twins

def left : DocumentType where
  name := "left"
  attributes := [Blog.field "label" .text, Blog.one "next" "right"]

def right : DocumentType where
  name := "right"
  attributes := [Blog.one "next" "left"]

def types : List DocumentType := [left, right]

def registry : Registry := ⟨Entries.ofList (types.map fun t => (t.name, t.withSystemAttributes))⟩

def start : Document := ⟨"left", "x", none, [("next", .ref "x")]⟩

def twin : Document := ⟨"right", "x", none, [("next", .ref "y")]⟩

def last : Document := ⟨"left", "y", none, [("label", .text "end")]⟩

def store : MemoryStore :=
  ((({ registry, now := "" } : MemoryStore).insert start).insert twin).insert last

/-- The next document, and what is populated below it. -/
def nextPlan (owner target : String) (populate : PopulatePlan) : PopulatePlan :=
  [.relation owner "next" true ⟨target, none, .all, false, populate⟩]

def plan : PopulatePlan := nextPlan "left" "right" (nextPlan "right" "left" [])

/-- The first document with its next one, whose own next document is not populated. -/
def populated : Document := ⟨"left", "x", none, [("next", .doc twin)]⟩

end Twins

/-- The reference of the twin stays bare although the twin comes up for the first time: only a
document of the other type has been expanded. -/
theorem bare_without_repeat_twins :
    let spec : PopulateSpec := ⟨false, [("next", .nested ⟨false, [("next", .all)]⟩)]⟩
    let path : List Step := [⟨"left", "x", "next"⟩]
    let level : PopulatePlan := Twins.nextPlan "right" "left" []
    Registry.build Twins.types = .ok Twins.registry ∧
      (PopulatePlan.build Twins.registry Twins.left.withSystemAttributes spec (.empty 0)).1 =
        .ok Twins.plan ∧
      Twins.store.Reachable ∧
      ((Resolver.inMemory Twins.store none .never).resolve Twins.plan [Twins.start] 0).outcome =
        .ok [Twins.populated] ∧
      Expanded Twins.plan Twins.populated path level Twins.twin ∧
      ∃ b ∈ level, Twins.twin.get? b.attr = some (.ref "y") ∧ b.LeavesBare (.ref "y") ∧
        Twins.store.get? "left" "y" none = some Twins.last ∧
        ¬ ∃ step ∈ path, step.docType = Twins.twin.docType ∧ step.id = Twins.twin.id ∧
          step.attr = b.attr := by
  intro spec path level
  have hs : Twins.store.Reachable := .insert _ _ (.insert _ _ (.insert _ _ (.empty _ rfl)))
  have htags : Twins.plan.TagsOnce :=
    List.forall_mem_singleton.2 (.relation _ _ _ _ (List.forall_mem_singleton.2
      (.relation _ _ _ _ (List.forall_mem_nil _))))
  have hroot : OneByOne.populate Twins.store none Twins.plan [] Twins.start = Twins.populated := rfl
  have hdocs : ((Resolver.inMemory Twins.store none .never).resolve Twins.plan [Twins.start]
      0).outcome = .ok [Twins.populated] := by
    rw [Resolver.resolve_never hs rfl htags]
    exact congrArg (fun d => Except.ok [d]) hroot
  have htwin : Expanded Twins.plan Twins.populated path level Twins.twin :=
    .relation .root (List.mem_singleton_self _) rfl (by simp [Repeats]) .doc
  refine ⟨rfl, rfl, hs, hdocs, htwin, _, List.mem_singleton_self _, rfl, .ref "y", rfl, ?_⟩
  rintro ⟨step, hstep, htype, -⟩
  obtain rfl := List.mem_singleton.1 hstep
  exact absurd htype (by decide)

end ContentEngine
