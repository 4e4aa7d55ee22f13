import ContentEngine.Proofs.Populate.Opened
import ContentEngine.Proofs.Populate.Populated

/-!
# Cutting down populated documents

`CutDown.document` hides fields of a document that is populated already. At every level of a plan it
keeps what the projection of that level includes, and goes on with the documents that the planned
attributes hold by now. Nothing is fetched.

Populating by a plan gives the same as populating by a plan that it opens to and cutting down what
comes out. A document that stands in an instance of a polymorphic relation, where a reference is
expected, is not fetched and keeps all its fields; so there must be none under a tag for which the
plan names fields.
-/

namespace ContentEngine

namespace Value

/-- Changes the documents that a populated relation holds. -/
def mapDocs (f : Document → Document) : Value → Value
  | .list items => .list (items.map (onDoc f))
  | v => v.onDoc f

theorem mapDocs_relationValue (f : Document → Document) (one : Bool) (docs : List Document) :
    (relationValue one docs).mapDocs f = relationValue one (docs.map f) := by
  cases one with
  | true => cases docs <;> rfl
  | false => simp [relationValue, mapDocs, onDoc, Function.comp_def]

end Value

namespace CutDown

mutual
/-- What the planned attributes of a document hold once their documents are cut down. -/
def values : List Branch → Chain → Document → List (String × Value)
  | [], _, _ => []
  | b :: bs, chain, d =>
    match d.get? b.attr with
    | none => values bs chain d
    | some v => (b.attr, value b chain d.id v) :: values bs chain d

/-- A populated value with its documents cut down. Where populating has stopped at a cycle, nothing
is hidden. -/
def value : Branch → Chain → DocumentId → Value → Value
  | .relation _ attr _ ⟨_, _, projection, _, populate⟩, chain, id, v =>
    if chain.contains (id, attr) then v
    else v.mapDocs fun d =>
      let d := projection.apply d
      Document.setAll d (values populate ((id, attr) :: chain) d)
  | .polymorphic _ attr targets, chain, id, v =>
    if chain.contains (id, attr) then v else v.mapInstances (target targets ((id, attr) :: chain))
  | .dynamicZone _ _ components, chain, _, v => v.mapInstances (component components chain)

def target : List (TargetOf Branch) → Chain → String → Value → Option Value
  | [], _, _, v => some v
  | ⟨docType, _, projection, _, populate⟩ :: rest, chain, tag, v =>
    if docType = tag then
      some (v.onDoc fun d =>
        let d := projection.apply d
        Document.setAll d (values populate chain d))
    else target rest chain tag v

def component : List (ComponentOf Branch) → Chain → String → Value → Option Value
  | [], _, _, v => some v
  | ⟨docType, projection, populate⟩ :: rest, chain, tag, v =>
    if docType = tag then
      some (v.onDoc fun d =>
        let d := projection.apply d
        Document.setAll d (values populate chain d))
    else component rest chain tag v
end

/-- A populated document that a chain leads to, with the fields that a projection includes, and with
the documents below it cut down by a plan. -/
def document (plan : PopulatePlan) (projection : Projection) (chain : Chain) (d : Document) :
    Document :=
  let d := projection.apply d
  d.setAll (values plan chain d)

theorem values_eq_valuesBy (plan : PopulatePlan) (chain : Chain) (d : Document) :
    values plan chain d = PopulatePlan.valuesBy (fun b => value b chain d.id) plan d := by
  induction plan with
  | nil => rfl
  | cons b plan ih =>
    rw [values]
    cases hv : d.get? b.attr <;> simp [PopulatePlan.valuesBy, hv, ih]

theorem target_doc (t : TargetPlan) (rest : List TargetPlan) (chain : Chain) (d : Document) :
    target (t :: rest) chain t.docType (.doc d) =
      some (.doc (document t.populate t.projection chain d)) := by
  simp only [target, if_true]
  rfl

theorem component_doc (c : ComponentPlan) (rest : List ComponentPlan) (chain : Chain)
    (d : Document) :
    component (c :: rest) chain c.docType (.doc d) =
      some (.doc (document c.populate c.projection chain d)) := by
  simp only [component, if_true]
  rfl

section
variable {plan : PopulatePlan} {projection : Projection} {chain : Chain}

@[simp] theorem id_document (d : Document) : (document plan projection chain d).id = d.id :=
  Document.id_setAll ..

@[simp] theorem docType_document (d : Document) :
    (document plan projection chain d).docType = d.docType := Document.docType_setAll ..

@[simp] theorem status_document (d : Document) :
    (document plan projection chain d).status = d.status := Document.status_setAll ..

theorem get?_document_of_notMem {name : String} (h : name ∉ plan.attributes) (d : Document) :
    (document plan projection chain d).get? name = (projection.apply d).get? name := by
  rw [document, values_eq_valuesBy]
  exact PopulatePlan.get?_setAll_of_notMem h _ _

theorem get?_document (h : plan.Fits projection) {b : Branch} (hb : b ∈ plan) (d : Document) :
    (document plan projection chain d).get? b.attr = (d.get? b.attr).map (value b chain d.id) := by
  have hkept : (projection.apply d).get? b.attr = d.get? b.attr := by
    rw [Projection.get?_apply, if_pos (h.kept b hb)]
  rw [document, values_eq_valuesBy]
  exact (PopulatePlan.get?_setAll_valuesBy h.once hb _ _ rfl).trans (congrArg _ hkept)

end

end CutDown

/-! ## Stored documents -/

/-- A polymorphic relation in the branch names the fields to show for a tag. -/
inductive Branch.Restricts (tag : String) : Branch → Prop
  | here (owner attr : String) {targets : List (TargetOf Branch)} {t : TargetOf Branch}
      (ht : t ∈ targets) (htag : t.docType = tag) (h : t.projection ≠ .all) :
      Restricts tag (.polymorphic owner attr targets)
  | relation (owner attr : String) (one : Bool) {target : TargetOf Branch} {b : Branch}
      (hb : b ∈ target.populate) (h : Restricts tag b) :
      Restricts tag (.relation owner attr one target)
  | polymorphic (owner attr : String) {targets : List (TargetOf Branch)} {t : TargetOf Branch}
      {b : Branch} (ht : t ∈ targets) (hb : b ∈ t.populate) (h : Restricts tag b) :
      Restricts tag (.polymorphic owner attr targets)
  | dynamicZone (owner attr : String) {components : List (ComponentOf Branch)}
      {c : ComponentOf Branch} {b : Branch} (hc : c ∈ components) (hb : b ∈ c.populate)
      (h : Restricts tag b) : Restricts tag (.dynamicZone owner attr components)

/-- The plan leaves alone what may be embedded: it names no fields for these tags. -/
def PopulatePlan.Spares (plan : PopulatePlan) (embeds : String → Prop) : Prop :=
  ∀ b ∈ plan, ∀ tag, b.Restricts tag → ¬ embeds tag

/-- Documents stand in instances of some tags only. Their fields are maps, at every depth. -/
inductive Value.Stored (embeds : String → Prop) : Value → Prop
  | intro {v : Value} (tagged : ∀ tag d, (tag, Value.doc d) ∈ v.instances → embeds tag)
      (ordered : ∀ tag d, (tag, Value.doc d) ∈ v.instances → Entries.Sorted d.fields)
      (below : ∀ tag d, (tag, Value.doc d) ∈ v.instances → ∀ e ∈ d.fields, Stored embeds e.2) :
      Stored embeds v

structure Document.Stored (embeds : String → Prop) (d : Document) : Prop where
  ordered : Entries.Sorted d.fields
  values : ∀ e ∈ d.fields, e.2.Stored embeds

/-- Stored documents embed others under some tags only. -/
def MemoryStore.EmbedsOnly (s : MemoryStore) (embeds : String → Prop) : Prop :=
  ∀ docType id status d, s.get? docType id status = some d → d.Stored embeds

theorem MemoryStore.embedsOnly_empty {s : MemoryStore} (h : s.tables = []) (embeds : String → Prop) :
    s.EmbedsOnly embeds := by
  intro docType id status d hd
  simp [MemoryStore.get?, h, Tables.get?] at hd

theorem MemoryStore.EmbedsOnly.insert {s : MemoryStore} {embeds : String → Prop}
    (h : s.EmbedsOnly embeds) {d : Document} (hd : d.Stored embeds) :
    (s.insert d).EmbedsOnly embeds := by
  have hold : s.tables.Every fun _ _ v => v.All (Document.Stored embeds) := by
    intro docType id v hv status e he
    exact h docType id status e (Option.bind_eq_some_iff.2 ⟨v, hv, he⟩)
  obtain ⟨v, hv, htables⟩ :=
    insert_put (fun _ _ h => ⟨h.ordered, h.values⟩) (hold d.docType d.id) hd
  intro docType id status e he
  obtain ⟨w, hw, he⟩ := Option.bind_eq_some_iff.1 he
  rw [htables] at hw
  exact hold.put hv docType id w hw status e he

/-- Nothing is embedded in a value that is not an instance or a list of instances. -/
theorem Value.stored_of_flat {embeds : String → Prop} {v : Value}
    (h : ∀ tag d, (tag, Value.doc d) ∉ v.instances) : v.Stored embeds :=
  .intro (fun tag d hd => absurd hd (h tag d)) (fun tag d hd => absurd hd (h tag d))
    fun tag d hd => absurd hd (h tag d)

theorem Value.Stored.of_instance {embeds : String → Prop} {v : Value} (h : v.Stored embeds)
    {tag : String} {d : Document} (hd : (tag, Value.doc d) ∈ v.instances) :
    embeds tag ∧ d.Stored embeds := by
  obtain ⟨tagged, ordered, below⟩ := h
  exact ⟨tagged tag d hd, ordered tag d hd, below tag d hd⟩

namespace Document

theorem sorted_setAll {d : Document} (h : Entries.Sorted d.fields) (values : List (String × Value)) :
    Entries.Sorted (d.setAll values).fields := by
  induction values generalizing d with
  | nil => exact h
  | cons e values ih => exact ih (h.insert e.1 e.2)

theorem sorted_apply {d : Document} (h : Entries.Sorted d.fields) (p : Projection) :
    Entries.Sorted (p.apply d).fields := h.filter _

theorem ext_get? {d e : Document} (htype : d.docType = e.docType) (hid : d.id = e.id)
    (hstatus : d.status = e.status) (hd : Entries.Sorted d.fields) (he : Entries.Sorted e.fields)
    (h : ∀ name, d.get? name = e.get? name) : d = e := by
  obtain ⟨docType, id, status, fields⟩ := d
  obtain ⟨docType', id', status', fields'⟩ := e
  obtain rfl := Entries.Sorted.ext hd he h
  obtain rfl : docType = docType' := htype
  obtain rfl : id = id' := hid
  obtain rfl : status = status' := hstatus
  rfl

end Document

/-! ## Populating and cutting down -/

namespace OneByOne
variable {s : MemoryStore} {status : Option Status} {embeds : String → Prop}

/-- The planned attributes that a projection keeps hold the same afterwards. -/
theorem populate_apply {plan : PopulatePlan} {projection : Projection} (hfits : plan.Fits projection)
    (chain : Chain) {d : Document} (hd : Entries.Sorted d.fields) :
    populate s status plan chain (projection.apply d) =
      projection.apply (populate s status plan chain d) := by
  refine Document.ext_get? (by simp [Projection.apply]) (by simp [Projection.apply])
    (by simp [Projection.apply]) (Document.sorted_setAll (Document.sorted_apply hd _) _)
    (Document.sorted_apply (Document.sorted_setAll hd _) _) fun name => ?_
  by_cases hname : name ∈ plan.attributes
  · obtain ⟨b, hb, rfl⟩ := List.mem_map.1 hname
    have hkept := hfits.kept b hb
    rw [get?_populate hfits.once hb, Projection.get?_apply, Projection.get?_apply, if_pos hkept,
      if_pos hkept, get?_populate hfits.once hb]
    rfl
  · rw [get?_populate_of_notMem hname, Projection.get?_apply, Projection.get?_apply,
      get?_populate_of_notMem hname]

/-- What the first branch makes of stored values is what the second one makes of them, cut down. -/
def Cuts (s : MemoryStore) (status : Option Status) (embeds : String → Prop) (b b' : Branch) : Prop :=
  b'.attr = b.attr ∧ ∀ chain id v, v.Stored embeds →
    newValue s status b chain id v =
      CutDown.value b chain id (newValue s status b' chain id v)

theorem attributes_of_cuts {plan plan' : PopulatePlan}
    (h : List.Forall₂ (Cuts s status embeds) plan plan') : plan'.attributes = plan.attributes := by
  induction h with
  | nil => rfl
  | cons hb _ ih => exact congrArg₂ List.cons hb.1 ih

/-- A document that is cut down before it is populated, and one that is cut down afterwards. -/
theorem populate_eq_cutDown {plan plan' : PopulatePlan}
    (h : List.Forall₂ (Cuts s status embeds) plan plan') {projection projection' : Projection}
    (hopens : projection.Opens projection') (hfits : plan.Fits projection) (chain : Chain)
    {d : Document} (hd : d.Stored embeds) :
    populate s status plan chain (projection.apply d) =
      CutDown.document plan projection chain
        (populate s status plan' chain (projection'.apply d)) := by
  have hattributes := attributes_of_cuts h
  have hordered : ∀ (p : Projection) (values : List (String × Value)),
      Entries.Sorted ((p.apply d).setAll values).fields :=
    fun p values => Document.sorted_setAll (Document.sorted_apply hd.ordered p) values
  refine Document.ext_get? (by simp [Projection.apply]) (by simp [Projection.apply])
    (by simp [Projection.apply]) (hordered _ _) ?_ fun name => ?_
  · exact Document.sorted_setAll (Document.sorted_apply (hordered _ _) projection) _
  by_cases hname : name ∈ plan.attributes
  · obtain ⟨b, hb, rfl⟩ := List.mem_map.1 hname
    obtain ⟨b', hb', hattr, hcuts⟩ := exists_of_forall₂ h hb
    have hkept := hfits.kept b hb
    have hget : (populate s status plan' chain (projection'.apply d)).get? b.attr =
        (d.get? b.attr).map (newValue s status b' chain d.id) := by
      rw [← hattr, get?_populate (hattributes ▸ hfits.once) hb', Projection.get?_apply,
        if_pos (hattr ▸ hopens.includes hkept)]
      rfl
    rw [get?_populate hfits.once hb, CutDown.get?_document hfits hb, hget, Projection.get?_apply,
      if_pos hkept, Option.map_map]
    cases hv : d.get? b.attr with
    | none => rfl
    | some v =>
      have hstored := hd.values _ (Entries.mem_of_get? hv)
      simp only [Option.map_some, Function.comp_apply, id_populate]
      exact congrArg some (hcuts chain d.id v hstored)
  · rw [get?_populate_of_notMem hname, CutDown.get?_document_of_notMem hname, Projection.get?_apply,
      Projection.get?_apply, get?_populate_of_notMem (hattributes ▸ hname), Projection.get?_apply]
    by_cases hshown : projection.includes name
    · rw [if_pos hshown, if_pos hshown, if_pos (hopens.includes hshown)]
    · rw [if_neg hshown, if_neg hshown]

/-- The same for a document that a reference leads to. -/
theorem fetchOne_cutDown (hs : s.EmbedsOnly embeds) {target target' : TargetPlan}
    (hopens : TargetOf.Opens Branch.Opens target target')
    (h : List.Forall₂ (Cuts s status embeds) target.populate target'.populate)
    (hfits : PopulatePlan.Fits target.populate target.projection) (chain : Chain)
    (id : DocumentId) :
    (s.fetchOne status target id).map (populate s status target.populate chain) =
      ((s.fetchOne status target' id).map (populate s status target'.populate chain)).map
        (CutDown.document target.populate target.projection chain) := by
  obtain ⟨docType, filter, versioned, hshown, -⟩ := hopens
  simp only [MemoryStore.fetchOne, Option.map_map]
  generalize hfound : s.get? docType id _ = found
  cases found with
  | none => rfl
  | some d =>
    have hstored := hs _ _ _ d hfound
    cases hkept : (some d).filter _ with
    | none => rfl
    | some d' =>
      obtain rfl : d = d' := Option.some.inj (Option.mem_filter_iff.1 hkept).1
      exact congrArg some (populate_eq_cutDown h hshown hfits chain hstored)

mutual
theorem cuts_plan (hs : s.EmbedsOnly embeds) : (plan plan' : List Branch) →
    PopulatePlan.Opens plan plan' → (∀ b ∈ plan, b.Levelled) → PopulatePlan.Spares plan embeds →
      List.Forall₂ (Cuts s status embeds) plan plan'
  | [], _, h, _, _ => by
    cases h
    exact .nil
  | b :: bs, _, h, hlevels, hspares => by
    obtain ⟨b', bs', hb, hbs, rfl⟩ := List.forall₂_cons_left_iff.1 h
    obtain ⟨hlevel, hlevels⟩ := List.forall_mem_cons.1 hlevels
    obtain ⟨hspare, hspares⟩ := List.forall_mem_cons.1 hspares
    exact .cons (cuts_branch hs b b' hb hlevel hspare) (cuts_plan hs bs bs' hbs hlevels hspares)
termination_by structural plan => plan

theorem cuts_branch (hs : s.EmbedsOnly embeds) : (b b' : Branch) → b.Opens b' → b.Levelled →
    (∀ tag, b.Restricts tag → ¬ embeds tag) → Cuts s status embeds b b'
  | .relation owner attr one ⟨docType, filter, projection, versioned, plan⟩, _, h, hlevel, hspare => by
    obtain ⟨_, _, _, ⟨_, _, _, hshown, hbelow⟩⟩ := h
    cases hlevel with
    | relation _ _ _ _ fits below =>
      have hplan := cuts_plan hs plan _ hbelow below fun b hb tag h =>
        hspare tag (.relation _ _ _ hb h)
      refine ⟨rfl, fun chain id v _ => ?_⟩
      by_cases hcycle : (id, attr) ∈ chain
      · simp only [newValue, CutDown.value, if_pos hcycle, if_pos (List.contains_iff_mem.2 hcycle)]
      · simp only [newValue, CutDown.value, if_neg hcycle,
          if_neg (mt List.contains_iff_mem.1 hcycle), Value.mapDocs_relationValue,
          List.map_filterMap]
        refine congrArg (relationValue one) (List.filterMap_congr fun id _ => ?_)
        exact fetchOne_cutDown hs (.intro _ _ _ hshown hbelow) hplan fits _ id
  | .polymorphic owner attr targets, _, h, hlevel, hspare => by
    obtain _ | ⟨_, _, hopens⟩ := h
    cases hlevel with
    | polymorphic _ _ _ fits below =>
      have htargets := cuts_targets hs targets _ hopens fits below
        (fun t ht hprojection => hspare _ (.here _ _ ht rfl hprojection))
        fun t ht b hb tag h => hspare tag (.polymorphic _ _ ht hb h)
      refine ⟨rfl, fun chain id v hv => ?_⟩
      by_cases hcycle : (id, attr) ∈ chain
      · simp only [newValue, CutDown.value, if_pos hcycle, if_pos (List.contains_iff_mem.2 hcycle)]
      · simp only [newValue, CutDown.value, if_neg hcycle,
          if_neg (mt List.contains_iff_mem.1 hcycle), Value.mapInstances_mapInstances]
        refine Value.mapInstances_congr fun tag w hw => htargets _ tag w ?_
        rintro d rfl
        exact hv.of_instance hw
  | .dynamicZone owner attr components, _, h, hlevel, hspare => by
    obtain _ | _ | ⟨_, _, hopens⟩ := h
    cases hlevel with
    | dynamicZone _ _ _ fits below =>
      have hcomponents := cuts_components hs components _ hopens fits below
        fun c hc b hb tag h => hspare tag (.dynamicZone _ _ hc hb h)
      refine ⟨rfl, fun chain id v hv => ?_⟩
      simp only [newValue, CutDown.value, Value.mapInstances_mapInstances]
      refine Value.mapInstances_congr fun tag w hw => hcomponents chain tag w ?_
      rintro d rfl
      exact (hv.of_instance hw).2
termination_by structural b => b

/-- A document that stands in an instance already is not cut down by its target. -/
theorem cuts_targets (hs : s.EmbedsOnly embeds) : (targets targets' : List (TargetOf Branch)) →
    List.Forall₂ (TargetOf.Opens Branch.Opens) targets targets' →
    (∀ t ∈ targets, PopulatePlan.Fits t.populate t.projection) →
    (∀ t ∈ targets, ∀ b ∈ t.populate, b.Levelled) →
    (∀ t ∈ targets, t.projection ≠ .all → ¬ embeds t.docType) →
    (∀ t ∈ targets, PopulatePlan.Spares t.populate embeds) →
    ∀ chain tag w, (∀ d, w = .doc d → embeds tag ∧ Document.Stored embeds d) →
      newTarget s status targets chain tag w =
        (newTarget s status targets' chain tag w).bind (CutDown.target targets chain tag)
  | [], _, h, _, _, _, _ => by
    intro chain tag w _
    cases h
    rfl
  | ⟨docType, filter, projection, versioned, plan⟩ :: rest, _, h, hfits, hlevels, hall, hspares => by
    intro chain tag w hw
    obtain ⟨target', rest', hopens, hrest, rfl⟩ := List.forall₂_cons_left_iff.1 h
    obtain ⟨hfits, hfits'⟩ := List.forall_mem_cons.1 hfits
    obtain ⟨hlevel, hlevels⟩ := List.forall_mem_cons.1 hlevels
    obtain ⟨hshows, hall⟩ := List.forall_mem_cons.1 hall
    obtain ⟨hspare, hspares⟩ := List.forall_mem_cons.1 hspares
    have hrest := cuts_targets hs rest rest' hrest hfits' hlevels hall hspares chain tag w hw
    obtain ⟨_, _, _, hshown, hbelow⟩ := hopens
    have hplan := cuts_plan hs plan _ hbelow hlevel hspare
    by_cases htag : docType = tag
    · subst htag
      cases w with
      | ref id =>
        have hfetched := fetchOne_cutDown hs (.intro _ _ _ hshown hbelow) hplan hfits chain id
        rw [newTarget_ref, newTarget_ref, ← Option.map_map, hfetched]
        cases MemoryStore.fetchOne s status (⟨docType, filter, _, versioned, _⟩ : TargetPlan) id with
        | none => rfl
        | some d => exact (CutDown.target_doc _ rest chain _).symm
      | doc d =>
        obtain ⟨hembeds, hstored⟩ := hw d rfl
        obtain rfl : projection = .all := by
          by_contra hprojection
          exact hshows hprojection hembeds
        have hcut := populate_eq_cutDown hplan (Projection.opens_refl _) hfits chain hstored
        rw [Projection.apply_all] at hcut
        rw [newTarget_doc, newTarget_doc, Option.bind_some, CutDown.target_doc]
        exact congrArg (fun d => some (Value.doc d)) hcut
      | _ => simp [newTarget, CutDown.target, Value.onDoc]
    · simp only [newTarget, if_neg htag, hrest]
      congr 1
      funext v
      rw [CutDown.target, if_neg htag]
termination_by structural targets => targets

theorem cuts_components (hs : s.EmbedsOnly embeds) :
    (components components' : List (ComponentOf Branch)) →
    List.Forall₂ (ComponentOf.Opens Branch.Opens) components components' →
    (∀ c ∈ components, PopulatePlan.Fits c.populate c.projection) →
    (∀ c ∈ components, ∀ b ∈ c.populate, b.Levelled) →
    (∀ c ∈ components, PopulatePlan.Spares c.populate embeds) →
    ∀ chain tag w, (∀ d, w = .doc d → Document.Stored embeds d) →
      newComponent s status components chain tag w =
        (newComponent s status components' chain tag w).bind (CutDown.component components chain tag)
  | [], _, h, _, _, _ => by
    intro chain tag w _
    cases h
    rfl
  | ⟨docType, projection, plan⟩ :: rest, _, h, hfits, hlevels, hspares => by
    intro chain tag w hw
    obtain ⟨component', rest', hopens, hrest, rfl⟩ := List.forall₂_cons_left_iff.1 h
    obtain ⟨hfits, hfits'⟩ := List.forall_mem_cons.1 hfits
    obtain ⟨hlevel, hlevels⟩ := List.forall_mem_cons.1 hlevels
    obtain ⟨hspare, hspares⟩ := List.forall_mem_cons.1 hspares
    have hrest := cuts_components hs rest rest' hrest hfits' hlevels hspares chain tag w hw
    obtain ⟨_, hshown, hbelow⟩ := hopens
    by_cases htag : docType = tag
    · subst htag
      cases w with
      | doc d =>
        have hcut := populate_eq_cutDown (cuts_plan hs plan _ hbelow hlevel hspare) hshown hfits chain
          (hw d rfl)
        rw [newComponent_doc, newComponent_doc, Option.bind_some, CutDown.component_doc]
        exact congrArg (fun d => some (Value.doc d)) hcut
      | _ => simp [newComponent, CutDown.component, Value.onDoc]
    · simp only [newComponent, if_neg htag, hrest]
      congr 1
      funext v
      rw [CutDown.component, if_neg htag]
termination_by structural components => components
end

end OneByOne

end ContentEngine
