import ContentEngine.Proofs.Populate.Batching
import ContentEngine.Proofs.Populate.Levels
import Mathlib.Data.List.Nodup

/-!
# What a populated document holds

A populated document keeps its head and all attributes that are not planned. If no attribute is
planned twice, each planned attribute that it has holds what its branch makes of the stored value.
-/

namespace ContentEngine

namespace Document

theorem get?_setAll_of_ne {values : List (String × Value)} {name : String}
    (h : ∀ e ∈ values, e.1 ≠ name) (d : Document) : (d.setAll values).get? name = d.get? name := by
  induction values generalizing d with
  | nil => rfl
  | cons e values ih =>
    obtain ⟨hne, hvalues⟩ := List.forall_mem_cons.1 h
    exact (ih hvalues _).trans (get?_set_ne d e.2 hne)

end Document

namespace Value

/-- The document stands in the value, in lists of any depth. -/
inductive HoldsDoc (e : Document) : Value → Prop
  | doc : HoldsDoc e (.doc e)
  | item (items : List Value) (v : Value) (hv : v ∈ items) (h : HoldsDoc e v) :
      HoldsDoc e (.list items)

theorem mem_instances_mapInstances {f : String → Value → Option Value} {v : Value} {tag : String}
    {w : Value} : (tag, w) ∈ (v.mapInstances f).instances ↔
      ∃ w₀, (tag, w₀) ∈ v.instances ∧ f tag w₀ = some w := by
  simp only [instances_mapInstances, List.mem_filterMap, Option.map_eq_some_iff]
  constructor
  · rintro ⟨⟨t, w₀⟩, hw₀, w', hw', heq⟩
    obtain ⟨rfl, rfl⟩ := Prod.mk.inj heq
    exact ⟨w₀, hw₀, hw'⟩
  · rintro ⟨w₀, hw₀, hw⟩
    exact ⟨(tag, w₀), hw₀, w, hw, rfl⟩

end Value

/-! ## Planned attributes -/

namespace PopulatePlan
variable {f : Branch → Value → Value} {plan : PopulatePlan}

/-- The planned attributes that a document has, with what their branches make of the values. -/
def valuesBy (f : Branch → Value → Value) (plan : PopulatePlan) (d : Document) :
    List (String × Value) :=
  plan.filterMap fun b => (d.get? b.attr).map fun v => (b.attr, f b v)

theorem mem_attributes_of_valuesBy {d : Document} {e : String × Value}
    (he : e ∈ plan.valuesBy f d) : e.1 ∈ plan.attributes := by
  obtain ⟨b, hb, he⟩ := List.mem_filterMap.1 he
  obtain ⟨v, -, rfl⟩ := Option.map_eq_some_iff.1 he
  exact List.mem_map_of_mem hb

theorem get?_setAll_of_notMem {name : String} (h : name ∉ plan.attributes) (d₀ d : Document) :
    (d.setAll (plan.valuesBy f d₀)).get? name = d.get? name := by
  refine Document.get?_setAll_of_ne (fun e he heq => h ?_) d
  exact heq ▸ mem_attributes_of_valuesBy he

/-- The values of all branches are set on `d`, as they are made of the attributes of `d₀`. -/
theorem get?_setAll_valuesBy (h : plan.attributes.Nodup) {b : Branch} (hb : b ∈ plan)
    (d₀ d : Document) (hd : d.get? b.attr = d₀.get? b.attr) :
    (d.setAll (plan.valuesBy f d₀)).get? b.attr = (d₀.get? b.attr).map (f b) := by
  induction plan generalizing d with
  | nil => exact absurd hb List.not_mem_nil
  | cons c plan ih =>
    obtain ⟨hnew, hnodup⟩ := List.nodup_cons.1 h
    have hcons : valuesBy f (c :: plan) d₀ =
        ((d₀.get? c.attr).map fun v => (c.attr, f c v)).toList ++ valuesBy f plan d₀ := by
      cases hv : d₀.get? c.attr <;> simp [valuesBy, hv]
    by_cases hcb : c.attr = b.attr
    · obtain rfl := List.inj_on_of_nodup_map h hb (List.mem_cons_self ..) hcb.symm
      rw [hcons]
      cases hv : d₀.get? b.attr with
      | none => exact (get?_setAll_of_notMem hnew d₀ d).trans (hd.trans hv)
      | some v => exact (get?_setAll_of_notMem hnew d₀ _).trans (Document.get?_set_self ..)
    · have hb : b ∈ plan := (List.mem_cons.1 hb).resolve_left fun h => hcb (h ▸ rfl)
      rw [hcons]
      cases hv : d₀.get? c.attr with
      | none => exact ih hnodup hb d hd
      | some v => exact ih hnodup hb _ ((Document.get?_set_ne d _ hcb).trans hd)

end PopulatePlan

namespace OneByOne
variable {s : MemoryStore} {status : Option Status} {plan : PopulatePlan} {chain : Chain}

@[simp] theorem id_populate (d : Document) : (populate s status plan chain d).id = d.id :=
  Document.id_setAll ..

@[simp] theorem docType_populate (d : Document) :
    (populate s status plan chain d).docType = d.docType := Document.docType_setAll ..

@[simp] theorem status_populate (d : Document) :
    (populate s status plan chain d).status = d.status := Document.status_setAll ..

theorem newValues_eq_valuesBy (plan : PopulatePlan) (chain : Chain) (d : Document) :
    newValues s status plan chain d =
      PopulatePlan.valuesBy (fun b => newValue s status b chain d.id) plan d := by
  induction plan with
  | nil => rfl
  | cons b plan ih =>
    rw [newValues]
    cases hv : d.get? b.attr <;> simp [PopulatePlan.valuesBy, hv, ih]

theorem get?_populate_of_notMem {name : String} (h : name ∉ plan.attributes) (d : Document) :
    (populate s status plan chain d).get? name = d.get? name := by
  rw [populate, newValues_eq_valuesBy]
  exact PopulatePlan.get?_setAll_of_notMem h d d

/-- What a planned attribute holds. -/
theorem get?_populate (h : plan.attributes.Nodup) {b : Branch} (hb : b ∈ plan) (d : Document) :
    (populate s status plan chain d).get? b.attr =
      (d.get? b.attr).map (newValue s status b chain d.id) := by
  rw [populate, newValues_eq_valuesBy]
  exact PopulatePlan.get?_setAll_valuesBy h hb d d rfl

/-! ## The instances of a planned tag -/

theorem newTarget_ref (target : TargetPlan) (rest : List TargetPlan) (chain : Chain)
    (id : DocumentId) :
    newTarget s status (target :: rest) chain target.docType (.ref id) =
      (s.fetchOne status target id).map (Value.doc ∘ populate s status target.populate chain) := by
  simp only [newTarget, if_true]
  rfl

theorem newTarget_doc (target : TargetPlan) (rest : List TargetPlan) (chain : Chain)
    (d : Document) :
    newTarget s status (target :: rest) chain target.docType (.doc d) =
      some (.doc (populate s status target.populate chain d)) := by
  simp only [newTarget, if_true]
  rfl

theorem newComponent_doc (component : ComponentPlan) (rest : List ComponentPlan) (chain : Chain)
    (d : Document) :
    newComponent s status (component :: rest) chain component.docType (.doc d) =
      some (.doc (populate s status component.populate chain (component.projection.apply d))) := by
  simp only [newComponent, if_true]
  rfl

theorem newTarget_of_mem {targets : List (TargetOf Branch)}
    (once : (targets.map (·.docType)).Nodup) {target : TargetOf Branch} (ht : target ∈ targets)
    (w : Value) :
    newTarget s status targets chain target.docType w =
      newTarget s status [target] chain target.docType w := by
  induction targets with
  | nil => exact absurd ht List.not_mem_nil
  | cons t targets ih =>
    by_cases htag : t.docType = target.docType
    · obtain rfl := List.inj_on_of_nodup_map once ht (List.mem_cons_self ..) htag.symm
      simp only [newTarget, if_true]
    · have ht : target ∈ targets := (List.mem_cons.1 ht).resolve_left fun h => htag (h ▸ rfl)
      rw [← ih (List.nodup_cons.1 once).2 ht]
      simp only [newTarget, if_neg htag]

theorem newComponent_of_mem {components : List (ComponentOf Branch)}
    (once : (components.map (·.docType)).Nodup) {component : ComponentOf Branch}
    (hc : component ∈ components) (w : Value) :
    newComponent s status components chain component.docType w =
      newComponent s status [component] chain component.docType w := by
  induction components with
  | nil => exact absurd hc List.not_mem_nil
  | cons c components ih =>
    by_cases htag : c.docType = component.docType
    · obtain rfl := List.inj_on_of_nodup_map once hc (List.mem_cons_self ..) htag.symm
      simp only [newComponent, if_true]
    · have hc : component ∈ components := (List.mem_cons.1 hc).resolve_left fun h => htag (h ▸ rfl)
      rw [← ih (List.nodup_cons.1 once).2 hc]
      simp only [newComponent, if_neg htag]

end OneByOne

namespace Resolver
variable {s : MemoryStore} {status : Option Status} {token : CancelToken}

/-- If populating succeeds, every root is populated as on its own. -/
theorem eq_of_resolve (hs : s.Reachable) {plan : PopulatePlan} (hplan : plan.TagsOnce)
    {roots docs : List Document} {now : Nat}
    (h : ((inMemory s status token).resolve plan roots now).outcome = .ok docs) :
    docs = roots.map (OneByOne.populate s status plan []) := by
  rcases (settles_resolve hs hplan roots now).outcome with hok | ⟨e, he, -⟩
  · exact Except.ok.inj (h.symm.trans hok)
  · rw [he] at h
    cases h

theorem not_interrupts_never (h : s.failing = []) (e : Interruption) (time : Nat) :
    ¬ s.Interrupts .never e time := by
  cases e with
  | adapter e =>
    rintro ⟨docType, hfail, -⟩
    rw [h] at hfail
    exact absurd hfail List.not_mem_nil
  | cancelled c =>
    rintro ⟨t, -, hcheck⟩
    simp [CancelToken.check, CancelToken.never, CancelToken.reached] at hcheck

theorem resolve_never (hs : s.Reachable) (hfail : s.failing = []) {plan : PopulatePlan}
    (hplan : plan.TagsOnce) (status : Option Status) (roots : List Document) (now : Nat) :
    ((inMemory s status .never).resolve plan roots now).outcome =
      .ok (roots.map (OneByOne.populate s status plan [])) := by
  rcases (settles_resolve hs hplan roots now).outcome with hok | ⟨e, -, hinterrupts⟩
  · exact hok
  · exact absurd hinterrupts (not_interrupts_never hfail e _)

end Resolver
end ContentEngine
