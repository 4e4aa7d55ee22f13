import ContentEngine.Proofs.Clock.Alike
import ContentEngine.Proofs.Populate.CutDown

/-!
# Populating takes the same course

Populating by a plan and by one that it opens to makes the same calls of the store at the same
times: a projection does not hide what is expanded behind it. So both end at the same time, and if
one is cut off then so is the other, for the same reason.
-/

namespace ContentEngine

/-- The documents have the same identifier, and the named attributes hold the same. -/
structure Document.Agrees (names : List String) (d d' : Document) : Prop where
  id : d'.id = d.id
  attributes : ∀ name ∈ names, d'.get? name = d.get? name

/-- The slots have agreeing documents, which the same steps led to. -/
structure Slot.Agrees (names : List String) (x x' : Slot) : Prop where
  doc : x.doc.Agrees names x'.doc
  chain : x'.chain = x.chain

theorem Slot.Agrees.item? {names : List String} {x x' : Slot} (h : x.Agrees names x') {attr : String}
    (hattr : attr ∈ names) : x'.item? attr = x.item? attr := by
  unfold Slot.item?
  rw [h.doc.attributes attr hattr, h.doc.id, h.chain]

theorem Slot.items_of_agrees {names : List String} {slots slots' : List Slot}
    (h : List.Forall₂ (Slot.Agrees names) slots slots') {attr : String} (hattr : attr ∈ names) :
    slots'.filterMap (Slot.item? attr) = slots.filterMap (Slot.item? attr) := by
  induction h with
  | nil => rfl
  | cons hx _ ih => rw [List.filterMap_cons, List.filterMap_cons, hx.item? hattr, ih]

/-- Projections keep the attributes of the level behind them. -/
theorem Projection.Opens.agrees {projection projection' : Projection}
    (h : projection.Opens projection') {plan : PopulatePlan} (hfits : plan.Fits projection)
    (d : Document) : (projection.apply d).Agrees plan.attributes (projection'.apply d) := by
  refine ⟨rfl, fun name hname => ?_⟩
  obtain ⟨b, hb, rfl⟩ := List.mem_map.1 hname
  have hkept := hfits.kept b hb
  rw [Projection.get?_apply, Projection.get?_apply, if_pos hkept, if_pos (h.includes hkept)]

namespace Resolver
variable {s : MemoryStore} {status : Option Status} {token : CancelToken}

theorem fetchOne_agrees (s : MemoryStore) (status : Option Status) {target target' : TargetPlan}
    (h : TargetOf.Opens Branch.Opens target target')
    (hfits : PopulatePlan.Fits target.populate target.projection) (id : DocumentId) :
    Option.Rel (Document.Agrees (PopulatePlan.attributes target.populate))
      (s.fetchOne status target id) (s.fetchOne status target' id) := by
  obtain ⟨docType, filter, versioned, hshown, -⟩ := h
  simp only [MemoryStore.fetchOne]
  cases (s.get? docType id _).filter _ with
  | none => exact .none
  | some d => exact .some (hshown.agrees hfits d)

theorem alike_fetch {target target' : TargetPlan} (h : TargetOf.Opens Branch.Opens target target')
    (attr : String) (ids : List DocumentId) :
    ((inMemory s status token).fetch attr target ids).Alike
      ((inMemory s status token).fetch attr target' ids) := by
  obtain ⟨docType, filter, versioned, hshown, -⟩ := h
  unfold fetch
  by_cases hempty : ids.isEmpty
  · rw [if_pos hempty, if_pos hempty]
    exact Call.alike_succeed _ _
  · rw [if_neg hempty, if_neg hempty]
    have hstore : ∀ p : Projection, ((s.references docType ids filter p
        (if versioned then some (status.getD .published) else none)).map fun _ => ()) =
          s.enter docType := by
      intro p
      unfold MemoryStore.references
      cases s.enter docType <;> rfl
    refine Call.Alike.andThen (CancelToken.alike_run token _ (StoreCall.alike_ofStore _ _ ?_))
      fun _ _ => Call.Alike.andThen (Call.alike_record _ _) fun _ _ => Call.alike_succeed _ _
    exact (hstore _).trans (hstore _).symm

theorem alike_fetchTags {targets targets' : List TargetPlan}
    (h : List.Forall₂ (TargetOf.Opens Branch.Opens) targets targets') (attr : String)
    (items : List Item) :
    ((inMemory s status token).fetchTags attr targets items).Alike
      ((inMemory s status token).fetchTags attr targets' items) := by
  refine Call.alike_all ?_
  rw [List.forall₂_map_left_iff, List.forall₂_map_right_iff]
  refine h.imp fun target target' hopens => ?_
  have hfetch : ∀ ids, ((inMemory s status token).fetch attr target ids).Alike
      ((inMemory s status token).fetch attr target' ids) := alike_fetch hopens attr
  obtain ⟨docType, filter, versioned, hshown, hbelow⟩ := hopens
  exact (hfetch _).map _ _

theorem alike_expand {columns columns' : List Slot → List (StoreCall (String × List Value))}
    {slots slots' : List Slot} {R : Slot → Slot → Prop} (hslots : List.Forall₂ R slots slots')
    (h : List.Forall₂ Call.Alike (columns slots) (columns' slots')) :
    (expand columns slots).Alike (expand columns' slots') := by
  cases hslots with
  | nil => exact Call.alike_succeed _ _
  | cons => exact (Call.alike_all h).map _ _

theorem alike_acyclic {resolve resolve' : List Item → StoreCall (List Value)}
    (h : ∀ items, (resolve items).Alike (resolve' items)) (owner attr : String)
    (items : List Item) :
    (acyclic owner attr items resolve).Alike (acyclic owner attr items resolve') :=
  (Call.alike_refl _).andThen fun _ _ => (h _).map _ _

/-- The documents that a relation leads to, from all items. -/
theorem agrees_children (s : MemoryStore) (status : Option Status) {target target' : TargetPlan}
    (h : TargetOf.Opens Branch.Opens target target')
    (hfits : PopulatePlan.Fits target.populate target.projection) (attr : String)
    {ids : List DocumentId} {items : List Item} (hids : ∀ i ∈ items, ∀ id ∈ i.value.refs, id ∈ ids) :
    List.Forall₂ (Slot.Agrees (PopulatePlan.attributes target.populate))
      (items.map fun i => (i.targets (rowsOf s status target ids)).map (i.child attr)).flatten
      (items.map fun i => (i.targets (rowsOf s status target' ids)).map (i.child attr)).flatten := by
  rw [← List.flatMap_def, ← List.flatMap_def]
  refine forall₂_flatMap fun i hi => ?_
  rw [targets_rowsOf target (hids i hi), targets_rowsOf target' (hids i hi),
    List.forall₂_map_left_iff, List.forall₂_map_right_iff]
  have hdocs := forall₂_filterMap fun id (_ : id ∈ i.value.refs) =>
    fetchOne_agrees s status h hfits id
  exact hdocs.imp fun d d' hd => ⟨hd, rfl⟩

/-! ## Tags -/

/-- The slots of the documents in the instances of one tag. -/
def childSlots (attr tag : String) (items : List Item) : List Slot :=
  items.flatMap fun i => (i.embedded tag).map (i.child attr)

theorem get?_rowsByTag (s : MemoryStore) (status : Option Status) (ids : String → List DocumentId)
    {targets : List TargetPlan} (once : (targets.map (·.docType)).Nodup) {target : TargetPlan}
    (ht : target ∈ targets) :
    Entries.get? (rowsByTag s status ids targets) target.docType =
      some (rowsOf s status target (ids target.docType)) := by
  induction targets with
  | nil => exact absurd ht List.not_mem_nil
  | cons t targets ih =>
    by_cases htag : t.docType = target.docType
    · obtain rfl := List.inj_on_of_nodup_map once ht (List.mem_cons_self ..) htag.symm
      simp [rowsByTag, Entries.get?]
    · have ht : target ∈ targets := (List.mem_cons.1 ht).resolve_left fun h => htag (h ▸ rfl)
      simp only [rowsByTag, List.map_cons, Entries.get?, if_neg htag]
      exact ih (List.nodup_cons.1 once).2 ht

theorem embedded_attach (rows : Entries (Entries Document)) (tag : String) (i : Item) :
    (i.withValue (i.value.attach rows)).embedded tag =
      (i.value.tagged tag).filterMap fun w => (Value.attachTo rows tag w).bind Value.asDoc? := by
  change ((i.value.attach rows).tagged tag).filterMap Value.asDoc? = _
  rw [Value.attach_eq, Value.tagged_mapInstances, List.filterMap_filterMap]

theorem agrees_childSlots {targets targets' : List TargetPlan}
    (once : (targets.map (·.docType)).Nodup)
    (h : List.Forall₂ (TargetOf.Opens Branch.Opens) targets targets') {target : TargetPlan}
    (ht : target ∈ targets) (hfits : PopulatePlan.Fits target.populate target.projection)
    (attr : String) (items : List Item) :
    let attached := fun targets : List TargetPlan => items.map fun i =>
      i.withValue (i.value.attach (rowsByTag s status (idsOf items) targets))
    List.Forall₂ (Slot.Agrees (PopulatePlan.attributes target.populate))
      (childSlots attr target.docType (attached targets))
      (childSlots attr target.docType (attached targets')) := by
  intro attached
  obtain ⟨target', ht', hopens⟩ := exists_of_forall₂ h ht
  have htag : target'.docType = target.docType := by
    cases hopens
    rfl
  have once' : (targets'.map (·.docType)).Nodup := by
    have hnames : targets'.map (·.docType) = targets.map (·.docType) := by
      clear ht ht' once
      induction h with
      | nil => rfl
      | cons hopens _ ih =>
        cases hopens
        exact congrArg (_ :: ·) ih
    rw [hnames]
    exact once
  simp only [childSlots, attached, List.flatMap_map]
  refine forall₂_flatMap fun i hi => ?_
  rw [List.forall₂_map_left_iff, List.forall₂_map_right_iff, embedded_attach, embedded_attach]
  refine (forall₂_filterMap fun w hw => ?_).imp fun d d' hd => ⟨hd, rfl⟩
  have hrows := get?_rowsByTag s status (idsOf items) once ht
  have hrows' := get?_rowsByTag s status (idsOf items) once' ht'
  rw [htag] at hrows'
  cases w with
  | ref id =>
    have hid : id ∈ idsOf items target.docType := mem_idsOf hi (Value.mem_tagged.1 hw)
    simp only [Value.attachTo, hrows, hrows', Option.elim_some, get?_rowsOf, if_pos hid]
    have hfetched := fetchOne_agrees s status hopens hfits id
    generalize s.fetchOne status target id = found at hfetched ⊢
    generalize s.fetchOne status target' id = found' at hfetched ⊢
    cases hfetched with
    | none => exact .none
    | some hagrees => exact .some hagrees
  | doc d => exact .some ⟨rfl, fun _ _ => rfl⟩
  | _ => exact .none

/-- The slots of the components of one tag, cut down where they are. -/
def componentSlots (projection : Projection) (tag : String) (items : List Item) : List Slot :=
  items.flatMap fun i => (i.embedded tag).map fun d => ⟨projection.apply d, i.chain⟩

theorem agrees_componentSlots {projection projection' : Projection}
    (h : projection.Opens projection') {plan : PopulatePlan} (hfits : plan.Fits projection)
    (tag : String) (items : List Item) :
    List.Forall₂ (Slot.Agrees plan.attributes) (componentSlots projection tag items)
      (componentSlots projection' tag items) := by
  refine forall₂_flatMap fun i _ => ?_
  rw [List.forall₂_map_left_iff, List.forall₂_map_right_iff]
  exact List.forall₂_same.2 fun d _ => ⟨h.agrees hfits d, rfl⟩

/-- One more tag; a tag without documents has no group. -/
theorem alike_group {slots slots' : List Slot} {R : Slot → Slot → Prop}
    (hslots : List.Forall₂ R slots slots') (tag : String)
    {expand expand' : List Slot → StoreCall (List Document)}
    {others others' : List (StoreCall (String × List Document))}
    (hothers : List.Forall₂ Call.Alike others others')
    (hexpand : (expand slots).Alike (expand' slots')) :
    List.Forall₂ Call.Alike
      (if slots.isEmpty then others else (do return (tag, ← expand slots)) :: others)
      (if slots'.isEmpty then others' else (do return (tag, ← expand' slots')) :: others') := by
  cases hslots with
  | nil => exact hothers
  | cons => exact .cons (hexpand.map _ _) hothers

/-! ## Levels -/

mutual
theorem alike_columns (hs : s.Reachable) : (plan plan' : List Branch) →
    PopulatePlan.Opens plan plan' → (∀ b ∈ plan, b.TagsOnce) → (∀ b ∈ plan, b.Levelled) →
    ∀ names, (∀ b ∈ plan, b.attr ∈ names) → ∀ slots slots',
      List.Forall₂ (Slot.Agrees names) slots slots' →
      List.Forall₂ Call.Alike (columns (inMemory s status token) plan slots)
        (columns (inMemory s status token) plan' slots')
  | [], _, h, _, _ => by
    intro names _ slots slots' _
    cases h
    exact .nil
  | b :: bs, _, h, htags, hlevels => by
    intro names hnames slots slots' hslots
    obtain ⟨b', bs', hb, hbs, rfl⟩ := List.forall₂_cons_left_iff.1 h
    obtain ⟨htag, htags⟩ := List.forall_mem_cons.1 htags
    obtain ⟨hlevel, hlevels⟩ := List.forall_mem_cons.1 hlevels
    obtain ⟨hname, hnames⟩ := List.forall_mem_cons.1 hnames
    rw [columns, columns, hb.attr, Slot.items_of_agrees hslots hname]
    refine .cons ((alike_branch hs b b' hb htag hlevel _).map _ _) ?_
    exact alike_columns hs bs bs' hbs htags hlevels names hnames slots slots' hslots
termination_by structural plan => plan

theorem alike_branch (hs : s.Reachable) : (b b' : Branch) → b.Opens b' → b.TagsOnce →
    b.Levelled → ∀ items, (branch (inMemory s status token) b items).Alike
      (branch (inMemory s status token) b' items)
  | .relation owner attr one ⟨docType, filter, projection, versioned, plan⟩, _, h, htags, hlevel => by
    have hplan : ∀ b ∈ plan, b.TagsOnce := by cases htags; assumption
    cases h with
    | relation _ _ _ hopens =>
      cases hopens with
      | intro _ _ _ hshown hbelow =>
        cases hlevel with
        | relation _ _ _ _ fits below =>
          intro items
          simp only [branch]
          refine alike_acyclic (fun items => ?_) owner attr items
          have hopens := TargetOf.Opens.intro docType filter versioned hshown hbelow
          refine (alike_fetch hopens attr _).settled (settles_fetch hs attr _ _)
            (settles_fetch hs attr _ _) ?_
          have hids : ∀ i ∈ items, ∀ id ∈ i.value.refs,
              id ∈ Names.distinct (Names.distinct (items.flatMap (·.value.refs))) := by
            intro i hi id hid
            rw [Names.mem_distinct, Names.mem_distinct]
            exact List.mem_flatMap.2 ⟨i, hi, hid⟩
          have hslots := agrees_children s status hopens fits attr hids
          refine (alike_expand hslots ?_).map _ _
          exact alike_columns hs plan _ hbelow hplan below _ (fun b hb => List.mem_map_of_mem hb) _ _
            hslots
  | .polymorphic owner attr targets, _, h, htags, hlevel => by
    obtain ⟨once, hplans⟩ : (targets.map (·.docType)).Nodup ∧
        ∀ t ∈ targets, ∀ b ∈ t.populate, b.TagsOnce := by
      cases htags; exact ⟨by assumption, by assumption⟩
    cases h with
    | polymorphic _ _ hopens =>
      cases hlevel with
      | polymorphic _ _ _ fits below =>
        intro items
        simp only [branch]
        refine alike_acyclic (fun items => ?_) owner attr items
        refine (alike_fetchTags hopens attr items).settled (settles_fetchTags hs attr _ items)
          (settles_fetchTags hs attr _ items) ?_
        refine (Call.alike_all ?_).map _ _
        exact alike_targetGroups hs attr targets _ hopens hplans below _ _ fun t ht =>
          agrees_childSlots once hopens ht (fits t ht) attr items
  | .dynamicZone owner attr components, _, h, htags, hlevel => by
    have hplans : ∀ c ∈ components, ∀ b ∈ c.populate, b.TagsOnce := by cases htags; assumption
    cases h with
    | dynamicZone _ _ hopens =>
      cases hlevel with
      | dynamicZone _ _ _ fits below =>
        intro items
        simp only [branch]
        exact (Call.alike_all (alike_componentGroups hs components _ hopens hplans fits below
          items)).map _ _
termination_by structural b => b

theorem alike_targetGroups (hs : s.Reachable) (attr : String) :
    (targets targets' : List (TargetOf Branch)) →
    List.Forall₂ (TargetOf.Opens Branch.Opens) targets targets' →
    (∀ t ∈ targets, ∀ b ∈ t.populate, b.TagsOnce) →
    (∀ t ∈ targets, ∀ b ∈ t.populate, b.Levelled) →
    ∀ items items', (∀ t ∈ targets, List.Forall₂ (Slot.Agrees (PopulatePlan.attributes t.populate))
        (childSlots attr t.docType items) (childSlots attr t.docType items')) →
      List.Forall₂ Call.Alike (targetGroups (inMemory s status token) attr targets items)
        (targetGroups (inMemory s status token) attr targets' items')
  | [], _, h, _, _ => by
    intro items items' _
    cases h
    exact .nil
  | ⟨docType, filter, projection, versioned, plan⟩ :: rest, _, h, htags, hlevels => by
    intro items items' hslots
    obtain ⟨target', rest', hopens, hrest, rfl⟩ := List.forall₂_cons_left_iff.1 h
    obtain ⟨htag, htags⟩ := List.forall_mem_cons.1 htags
    obtain ⟨hlevel, hlevels⟩ := List.forall_mem_cons.1 hlevels
    obtain ⟨hslot, hslots⟩ := List.forall_mem_cons.1 hslots
    have hothers := alike_targetGroups hs attr rest rest' hrest htags hlevels items items' hslots
    cases hopens with
    | intro _ _ _ hshown hbelow =>
      refine alike_group hslot docType hothers (alike_expand hslot ?_)
      exact alike_columns hs plan _ hbelow htag hlevel _ (fun b hb => List.mem_map_of_mem hb) _ _ hslot
termination_by structural targets => targets

theorem alike_componentGroups (hs : s.Reachable) :
    (components components' : List (ComponentOf Branch)) →
    List.Forall₂ (ComponentOf.Opens Branch.Opens) components components' →
    (∀ c ∈ components, ∀ b ∈ c.populate, b.TagsOnce) →
    (∀ c ∈ components, PopulatePlan.Fits c.populate c.projection) →
    (∀ c ∈ components, ∀ b ∈ c.populate, b.Levelled) →
    ∀ items, List.Forall₂ Call.Alike (componentGroups (inMemory s status token) components items)
      (componentGroups (inMemory s status token) components' items)
  | [], _, h, _, _, _ => by
    intro items
    cases h
    exact .nil
  | ⟨docType, projection, plan⟩ :: rest, _, h, htags, hfits, hlevels => by
    intro items
    obtain ⟨component', rest', hopens, hrest, rfl⟩ := List.forall₂_cons_left_iff.1 h
    obtain ⟨htag, htags⟩ := List.forall_mem_cons.1 htags
    obtain ⟨hfit, hfits⟩ := List.forall_mem_cons.1 hfits
    obtain ⟨hlevel, hlevels⟩ := List.forall_mem_cons.1 hlevels
    have hothers := alike_componentGroups hs rest rest' hrest htags hfits hlevels items
    cases hopens with
    | intro _ hshown hbelow =>
      have hslots := agrees_componentSlots hshown hfit docType items
      refine alike_group hslots docType hothers (alike_expand hslots ?_)
      exact alike_columns hs plan _ hbelow htag hlevel _ (fun b hb => List.mem_map_of_mem hb) _ _
        hslots
termination_by structural components => components
end

theorem alike_resolve (status : Option Status) (token : CancelToken) (hs : s.Reachable)
    {plan plan' : PopulatePlan} (h : plan.Opens plan') (htags : plan.TagsOnce)
    (hlevels : plan.Levelled) {roots roots' : List Document}
    (hroots : List.Forall₂ (Document.Agrees plan.attributes) roots roots') :
    ((inMemory s status token).resolve plan roots).Alike
      ((inMemory s status token).resolve plan' roots') := by
  have hslots : List.Forall₂ (Slot.Agrees plan.attributes) (roots.map fun d => ⟨d, []⟩)
      (roots'.map fun d => ⟨d, []⟩) := by
    rw [List.forall₂_map_left_iff, List.forall₂_map_right_iff]
    exact hroots.imp fun d d' hd => ⟨hd, rfl⟩
  refine alike_expand hslots ?_
  exact alike_columns hs plan plan' h htags hlevels.2 _ (fun b hb => List.mem_map_of_mem hb) _ _ hslots

end Resolver

end ContentEngine
