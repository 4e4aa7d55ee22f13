import ContentEngine.Proofs.Clock.Settles
import ContentEngine.Proofs.Populate.Instances
import ContentEngine.Proofs.Populate.Planned
import ContentEngine.Proofs.Store.Contents
import ContentEngine.Sample.Blog

/-!
# Populating a level at a time

The resolver takes the values of an attribute out of all documents of a level, fetches what they
refer to at once, populates all documents found as the next level, and puts everything back.
-/

namespace ContentEngine

/-- Why populating may stop: the store fails for a type, or the token has fired by that time. -/
def MemoryStore.Interrupts (s : MemoryStore) (token : CancelToken) : Interruption → Nat → Prop
  | .adapter e, _ => ∃ docType ∈ s.failing, s.enter docType = .error e
  | .cancelled c, time => ∃ t ≤ time, token.check t = .error c

namespace Resolver
open OneByOne

variable {s : MemoryStore} {status : Option Status} {token : CancelToken}

/-- The resolver that reads a store in memory. -/
abbrev inMemory (s : MemoryStore) (status : Option Status) (token : CancelToken) :
    Resolver MemoryStore :=
  ⟨MemoryStore.adapter, s, status, token⟩

theorem interrupts_mono (e : Interruption) (t t' : Nat) (htt' : t ≤ t')
    (h : s.Interrupts token e t) : s.Interrupts token e t' := by
  cases e with
  | adapter e => exact h
  | cancelled c =>
    obtain ⟨u, hu, hc⟩ := h
    exact ⟨u, Nat.le_trans hu htt', hc⟩

/-! ## Fetching -/

/-- The rows of a batch, by identifier. -/
def rowsOf {β : Type} (s : MemoryStore) (status : Option Status) (target : TargetOf β)
    (ids : List DocumentId) : Entries Document :=
  Entries.ofList (ids.filterMap fun id => (s.fetchOne status target id).map fun d => (id, d))

theorem get?_rowsOf {β : Type} (target : TargetOf β) (ids : List DocumentId) (id : DocumentId) :
    Entries.get? (rowsOf s status target ids) id =
      if id ∈ ids then s.fetchOne status target id else none :=
  Entries.get?_ofList_filterMap ..

theorem rows_keyed {find : DocumentId → Option Document} {keep : Document → Bool}
    {projection : Projection} (hid : ∀ id d, find id = some d → d.id = id)
    (ids : List DocumentId) :
    (((ids.filterMap find).filter keep).map projection.apply).map (fun d => (d.id, d)) =
      ids.filterMap fun id =>
        (((find id).filter keep).map projection.apply).map fun d => (id, d) := by
  induction ids with
  | nil => rfl
  | cons id ids ih =>
    cases hfind : find id with
    | none => simpa [hfind] using ih
    | some d =>
      have hd : (projection.apply d).id = id := hid id d hfind
      cases hkeep : keep d <;> simpa [hfind, hkeep, hd] using ih

theorem references_eq {β : Type} (hs : s.Reachable) (status : Option Status)
    (token : CancelToken) (target : TargetOf β) (ids : List DocumentId) :
    ∃ rows, Entries.ofList (rows.map fun d => (d.id, d)) =
        rowsOf s status target (Names.distinct ids) ∧
      s.references target.docType ids target.filter target.projection
        ((inMemory s status token).statusFor target) =
          (s.enter target.docType).map fun _ => rows := by
  refine ⟨_, congrArg Entries.ofList ?_, rfl⟩
  exact rows_keyed (fun id d hd => hs.id_of_get? hd) (Names.distinct ids)

theorem mem_failing_of_enter {docType : String} {e : AdapterError}
    (h : s.enter docType = .error e) : docType ∈ s.failing := by
  unfold MemoryStore.enter at h
  by_cases hfail : docType ∈ s.failing
  · exact hfail
  · simp [hfail] at h

/-- A call of the store settles on what it gives for a type that does not fail. -/
theorem settles_entered {α : Type} (s : MemoryStore) (token : CancelToken) (delay : Nat)
    (call : AdapterCall) (docType : String) (a : α) :
    (StoreCall.ofStore delay call ((s.enter docType).map fun _ => a)).Settles
      (s.Interrupts token) a := by
  refine StoreCall.settles_ofStore ?_
  cases henter : s.enter docType with
  | ok u => exact .inl rfl
  | error e => exact .inr ⟨e, rfl, fun _ => ⟨_, mem_failing_of_enter henter, henter⟩⟩

theorem settles_fetch {β : Type} (hs : s.Reachable) (attr : String) (target : TargetOf β)
    (ids : List DocumentId) :
    ((inMemory s status token).fetch attr target ids).Settles (s.Interrupts token)
      (rowsOf s status target (Names.distinct ids)) := by
  unfold fetch
  cases hempty : ids.isEmpty with
  | true =>
    rw [List.isEmpty_iff.1 hempty]
    exact Call.settles_succeed []
  | false =>
    obtain ⟨rows, hkeyed, hrows⟩ := references_eq hs status token target ids
    have hstore := settles_entered s token (s.latency.getD 0)
      (.references target.docType ids) target.docType rows
    rw [← hrows] at hstore
    refine Call.Settles.bind (CancelToken.settles_run ?_ hstore) ?_
    · exact fun t c hc => ⟨t, Nat.le_refl t, hc⟩
    · refine Call.Settles.bind (Call.settles_record _) ?_
      rw [hkeyed]
      exact Call.settles_succeed _

/-! ## Filling -/

/-- The columns that the plain recursion gives for the documents of a level. -/
def newColumns (s : MemoryStore) (status : Option Status) (plan : PopulatePlan)
    (slots : List Slot) : List (String × List Value) :=
  plan.map fun b =>
    (b.attr, (slots.filterMap (Slot.item? b.attr)).map fun i =>
      newValue s status b i.chain i.parent i.value)

theorem get?_set_isSome {d : Document} {name : String} (h : (d.get? name).isSome) (v : Value)
    (other : String) : ((d.set name v).get? other).isSome = (d.get? other).isSome := by
  by_cases hname : name = other
  · subst hname
    rw [Document.get?_set_self, h, Option.isSome_some]
  · rw [Document.get?_set_ne d v hname]

/-- A document with the value that a branch gives to its attribute on a slot. -/
def putValue (s : MemoryStore) (status : Option Status) (b : Branch) (x : Slot)
    (d : Document) : Document :=
  match x.doc.get? b.attr with
  | none => d
  | some v => d.set b.attr (newValue s status b x.chain x.doc.id v)

/-- `g` gives the documents as far as they are filled by now. -/
theorem fill_newColumns (s : MemoryStore) (status : Option Status) (plan : PopulatePlan)
    (g : Slot → Document) (slots : List Slot)
    (hg : ∀ x ∈ slots, ∀ name, ((g x).get? name).isSome = (x.doc.get? name).isSome) :
    Slot.fill (slots.map fun x => { x with doc := g x }) (newColumns s status plan slots) =
      slots.map fun x =>
        { x with doc := (g x).setAll (newValues s status plan x.chain x.doc) } := by
  induction plan generalizing g with
  | nil => rfl
  | cons b plan ih =>
    have hcolumn : Places.refill (Slot.attrPlace b.attr) (slots.map fun x => { x with doc := g x })
        ((slots.filterMap (Slot.item? b.attr)).map fun i =>
          newValue s status b i.chain i.parent i.value) =
        slots.map fun x => { x with doc := putValue s status b x (g x) } := by
      rw [List.map_filterMap, Places.refill_map]
      · refine List.map_congr_left fun x hx => ?_
        have hgx := hg x hx b.attr
        cases hv : x.doc.get? b.attr with
        | none =>
          rw [hv] at hgx
          have hnone := Option.not_isSome_iff_eq_none.1 (by rw [hgx]; simp)
          simp [Slot.attrPlace, hnone, putValue, hv]
        | some v =>
          rw [hv] at hgx
          obtain ⟨w, hw⟩ := Option.isSome_iff_exists.1 (hgx.trans rfl)
          simp [Slot.attrPlace, Slot.item?, hw, putValue, hv]
      · intro x hx
        simp [Slot.attrPlace, Slot.item?, hg x hx b.attr]
    have hput : ∀ x ∈ slots, ∀ name,
        ((putValue s status b x (g x)).get? name).isSome = (x.doc.get? name).isSome := by
      intro x hx name
      cases hv : x.doc.get? b.attr with
      | none => simpa only [putValue, hv] using hg x hx name
      | some v =>
        have hattr : ((g x).get? b.attr).isSome := by rw [hg x hx b.attr, hv]; rfl
        simp only [putValue, hv, get?_set_isSome hattr]
        exact hg x hx name
    change Slot.fill (Places.refill _ _ _) (newColumns s status plan slots) = _
    rw [hcolumn, ih (fun x => putValue s status b x (g x)) hput]
    refine List.map_congr_left fun x _ => ?_
    cases hv : x.doc.get? b.attr with
    | none => simp only [putValue, hv, newValues]
    | some v => simp only [putValue, hv, newValues, Document.setAll, List.foldl_cons]

theorem settles_expand {plan : PopulatePlan}
    {columns : List Slot → List (StoreCall (String × List Value))}
    (h : ∀ slots, List.Forall₂ (Call.Settles (s.Interrupts token)) (columns slots)
      (newColumns s status plan slots)) (slots : List Slot) :
    (expand columns slots).Settles (s.Interrupts token)
      (slots.map fun x => populate s status plan x.chain x.doc) := by
  unfold expand
  cases hempty : slots.isEmpty with
  | true =>
    rw [List.isEmpty_iff.1 hempty]
    exact Call.settles_succeed []
  | false =>
    have hfill := fill_newColumns s status plan Slot.doc slots fun _ _ _ => rfl
    rw [List.map_id'] at hfill
    have hdocs := (Call.settles_all interrupts_mono (h slots)).map fun columns =>
      (Slot.fill slots columns).map (·.doc)
    rw [hfill, List.map_map] at hdocs
    exact hdocs

theorem settles_acyclic {owner attr : String} {resolve : List Item → StoreCall (List Value)}
    {f : Item → Value}
    (h : ∀ items, (resolve items).Settles (s.Interrupts token) (items.map f)) (items : List Item) :
    (acyclic owner attr items resolve).Settles (s.Interrupts token)
      (items.map fun i => if (i.parent, attr) ∈ i.chain then i.value else f i) := by
  have hlive : (items.filter fun i => !i.isCycle attr).map f =
      items.filterMap fun i => (i.livePlace attr).map fun _ => f i := by
    rw [← List.filterMap_eq_map, List.filterMap_filter]
    congr 1
    funext i
    cases hcycle : i.isCycle attr <;> simp [Item.livePlace, hcycle]
  refine Call.Settles.bind (Call.settles_recordAll _) ?_
  have hvalues := (h (items.filter fun i => !i.isCycle attr)).map fun values =>
    (Places.refill (Item.livePlace attr) items values).map (·.value)
  rw [hlive, Places.refill_filterMap, List.map_map] at hvalues
  have hresult : items.map (Item.value ∘ fun i =>
      (i.livePlace attr).elim i fun put => put (f i)) =
      items.map fun i => if (i.parent, attr) ∈ i.chain then i.value else f i := by
    refine List.map_congr_left fun i _ => ?_
    by_cases hcycle : (i.parent, attr) ∈ i.chain <;>
      simp [Item.livePlace, Item.isCycle, Item.withValue, hcycle]
  rw [hresult] at hvalues
  exact hvalues

/-! ## Relations -/

theorem targets_rowsOf {β : Type} (target : TargetOf β) {ids : List DocumentId} {i : Item}
    (hi : ∀ id ∈ i.value.refs, id ∈ ids) :
    i.targets (rowsOf s status target ids) = i.value.refs.filterMap (s.fetchOne status target) := by
  refine List.filterMap_congr fun id hid => ?_
  rw [get?_rowsOf, if_pos (hi id hid)]

/-- The documents that were populated as one list go back to the items that led to them. -/
theorem relation_values {β : Type} (target : TargetOf β) (plan : PopulatePlan) (attr : String)
    (one : Bool) (ids : List DocumentId) (items : List Item)
    (hids : ∀ i ∈ items, ∀ id ∈ i.value.refs, id ∈ ids) :
    let children := items.map fun i =>
      (i.targets (rowsOf s status target ids)).map (i.child attr)
    (Places.regroup children (children.flatten.map fun x =>
        populate s status plan x.chain x.doc)).map (relationValue one) =
      items.map fun i => relationValue one
        ((i.value.refs.filterMap (s.fetchOne status target)).map
          (populate s status plan ((i.parent, attr) :: i.chain))) := by
  simp only [Places.regroup_map, List.map_map]
  refine List.map_congr_left fun i hi => ?_
  simp only [Function.comp_apply, targets_rowsOf target (hids i hi), List.map_map]
  rfl

/-! ## Polymorphic relations and dynamic zones -/

/-- The rows fetched for every target, given the identifiers asked for by tag. -/
def rowsByTag {β : Type} (s : MemoryStore) (status : Option Status) (ids : String → List DocumentId)
    (targets : List (TargetOf β)) : Entries (Entries Document) :=
  targets.map fun target => (target.docType, rowsOf s status target (ids target.docType))

def idsOf (items : List Item) (tag : String) : List DocumentId :=
  Names.distinct (Names.distinct (items.flatMap fun i => (i.value.tagged tag).flatMap Value.refs))

theorem mem_idsOf {items : List Item} {i : Item} {tag : String} {id : DocumentId}
    (hi : i ∈ items) (hw : (tag, Value.ref id) ∈ i.value.instances) : id ∈ idsOf items tag := by
  rw [idsOf, Names.mem_distinct, Names.mem_distinct, List.mem_flatMap]
  refine ⟨i, hi, List.mem_flatMap.2 ⟨.ref id, List.mem_filterMap.2 ⟨_, hw, ?_⟩, ?_⟩⟩
  · simp
  · simp [Value.refs]

theorem settles_fetchTags {β : Type} (hs : s.Reachable) (attr : String)
    (targets : List (TargetOf β)) (items : List Item) :
    ((inMemory s status token).fetchTags attr targets items).Settles (s.Interrupts token)
      (rowsByTag s status (idsOf items) targets) := by
  refine Call.settles_all interrupts_mono ?_
  rw [rowsByTag, List.forall₂_map_left_iff, List.forall₂_map_right_iff, List.forall₂_same]
  intro target _
  exact (settles_fetch hs attr target _).map fun rows => (target.docType, rows)

/-- What is done to the documents of every target's tag. -/
def targetEdits (s : MemoryStore) (status : Option Status) (attr : String)
    (targets : List (TargetOf Branch)) : Item.Edits :=
  targets.map fun t =>
    (t.docType, fun i d => populate s status t.populate ((i.parent, attr) :: i.chain) d)

def componentEdits (s : MemoryStore) (status : Option Status)
    (components : List (ComponentOf Branch)) : Item.Edits :=
  components.map fun c =>
    (c.docType, fun i d => populate s status c.populate i.chain (c.projection.apply d))

theorem newTarget_eq (attr : String) (ids : String → List DocumentId)
    (targets : List (TargetOf Branch)) (i : Item) (tag : String) (w : Value)
    (hw : ∀ id, w = .ref id → id ∈ ids tag) :
    (Value.attachTo (rowsByTag s status ids targets) tag w).bind
        (Item.edited (targetEdits s status attr targets) i tag) =
      newTarget s status targets ((i.parent, attr) :: i.chain) tag w := by
  induction targets with
  | nil => cases w <;> rfl
  | cons t targets ih =>
    obtain ⟨docType, filter, projection, versioned, plan⟩ := t
    by_cases htag : docType = tag
    · subst htag
      cases w with
      | ref id =>
        have hid := hw id rfl
        simp only [rowsByTag, List.map_cons, Value.attachTo, Entries.get?, if_true, Option.elim_some,
          get?_rowsOf, hid, newTarget]
        cases s.fetchOne status (⟨docType, filter, projection, versioned, plan⟩ : TargetPlan) id with
        | none => rfl
        | some d => simp [Item.edited, targetEdits, Entries.get?, Value.onDoc, populate]
      | _ =>
        simp [Value.attachTo, Item.edited, targetEdits, Entries.get?, newTarget, Value.onDoc,
          populate]
    · have hrows : Value.attachTo (rowsByTag s status ids
            (⟨docType, filter, projection, versioned, plan⟩ :: targets)) tag w =
          Value.attachTo (rowsByTag s status ids targets) tag w := by
        cases w <;> simp [rowsByTag, Value.attachTo, Entries.get?, htag]
      have hedits : ∀ w', Item.edited (targetEdits s status attr
            (⟨docType, filter, projection, versioned, plan⟩ :: targets)) i tag w' =
          Item.edited (targetEdits s status attr targets) i tag w' := by
        intro w'
        simp [Item.edited, targetEdits, Entries.get?, htag]
      rw [hrows, funext hedits, ih, newTarget, if_neg htag]

theorem newComponent_eq (components : List (ComponentOf Branch)) (i : Item) (tag : String)
    (w : Value) :
    Item.edited (componentEdits s status components) i tag w =
      newComponent s status components i.chain tag w := by
  induction components with
  | nil => rfl
  | cons c components ih =>
    obtain ⟨docType, projection, plan⟩ := c
    by_cases htag : docType = tag
    · cases w <;>
        simp [Item.edited, componentEdits, Entries.get?, newComponent, htag, Value.onDoc, populate]
    · simp only [newComponent, if_neg htag, ← ih]
      simp [Item.edited, componentEdits, Entries.get?, htag]

theorem polymorphic_values {targets : List (TargetOf Branch)}
    (once : (targets.map (·.docType)).Nodup) (attr : String) (items : List Item) :
    let attached := items.map fun i =>
      i.withValue (i.value.attach (rowsByTag s status (idsOf items) targets))
    (Item.refillTags attached
        (Item.editGroups attached (targetEdits s status attr targets))).map (·.value) =
      items.map fun i =>
        i.value.mapInstances (newTarget s status targets ((i.parent, attr) :: i.chain)) := by
  intro attached
  have htags : ((targetEdits s status attr targets).map (·.1)).Nodup := by
    simpa [targetEdits, Function.comp_def] using once
  have hrefill := Item.refillTags_map _ htags Item.value attached fun _ _ _ _ => rfl
  have hself : attached.map (fun i => i.withValue i.value) = attached := List.map_id' attached
  rw [hself] at hrefill
  rw [hrefill, List.map_map, List.map_map]
  refine List.map_congr_left fun i hi => ?_
  change (i.value.attach _).mapInstances (Item.edited _ (i.withValue _)) = _
  rw [Value.attach_eq, Value.mapInstances_mapInstances]
  refine Value.mapInstances_congr fun t w hw => ?_
  refine newTarget_eq attr (idsOf items) targets (i.withValue _) t w ?_
  rintro id rfl
  exact mem_idsOf hi hw

theorem dynamicZone_values {components : List (ComponentOf Branch)}
    (once : (components.map (·.docType)).Nodup) (items : List Item) :
    (Item.refillTags items
        (Item.editGroups items (componentEdits s status components))).map (·.value) =
      items.map fun i => i.value.mapInstances (newComponent s status components i.chain) := by
  have htags : ((componentEdits s status components).map (·.1)).Nodup := by
    simpa [componentEdits, Function.comp_def] using once
  have hrefill := Item.refillTags_map _ htags Item.value items fun _ _ _ _ => rfl
  have hself : items.map (fun i => i.withValue i.value) = items := List.map_id' items
  rw [hself] at hrefill
  rw [hrefill, List.map_map]
  refine List.map_congr_left fun i _ => ?_
  exact Value.mapInstances_congr fun t w _ => newComponent_eq components i t w

/-- One more tag; a tag without documents has no group. -/
theorem settles_group {items : List Item} {edits : Item.Edits} (tag : String)
    {slotOf : Item → Document → Slot} {f : Slot → Document}
    {expand : List Slot → StoreCall (List Document)}
    {others : List (StoreCall (String × List Document))}
    (hothers : List.Forall₂ (Call.Settles (s.Interrupts token)) others
      (Item.editGroups items edits))
    (hexpand : ∀ slots, (expand slots).Settles (s.Interrupts token) (slots.map f)) :
    let slots := items.flatMap fun i => (i.embedded tag).map (slotOf i)
    List.Forall₂ (Call.Settles (s.Interrupts token))
      (if slots.isEmpty then others else (do return (tag, ← expand slots)) :: others)
      (Item.editGroups items ((tag, fun i d => f (slotOf i d)) :: edits)) := by
  intro slots
  have hdocs : slots.map f = items.flatMap fun i => (i.embedded tag).map fun d => f (slotOf i d) := by
    simp only [slots, List.map_flatMap, List.map_map]
    rfl
  have hgroups : Item.editGroups items ((tag, fun i d => f (slotOf i d)) :: edits) =
      if slots.isEmpty then Item.editGroups items edits
      else (tag, slots.map f) :: Item.editGroups items edits := by
    simp only [Item.editGroups, List.filterMap_cons, ← hdocs, List.isEmpty_map]
    cases slots.isEmpty <;> rfl
  rw [hgroups]
  by_cases hempty : slots.isEmpty
  · rw [if_pos hempty, if_pos hempty]
    exact hothers
  · rw [if_neg hempty, if_neg hempty]
    exact .cons ((hexpand slots).map fun docs => (tag, docs)) hothers

/-! ## Levels -/

mutual
theorem settles_columns (hs : s.Reachable) :
    (plan : List Branch) → (∀ b ∈ plan, b.TagsOnce) → (slots : List Slot) →
      List.Forall₂ (Call.Settles (s.Interrupts token))
        (columns (inMemory s status token) plan slots) (newColumns s status plan slots)
  | [], _, _ => .nil
  | b :: bs, h, slots =>
    .cons
      ((settles_branch hs b (h b (List.mem_cons_self ..)) _).map fun values => (b.attr, values))
      (settles_columns hs bs (fun b' hb' => h b' (List.mem_cons_of_mem _ hb')) slots)

theorem settles_branch (hs : s.Reachable) :
    (b : Branch) → b.TagsOnce → (items : List Item) →
      (branch (inMemory s status token) b items).Settles (s.Interrupts token)
        (items.map fun i => newValue s status b i.chain i.parent i.value)
  | .relation owner attr one ⟨docType, filter, projection, versioned, plan⟩, h, items => by
    let target : TargetPlan := ⟨docType, filter, projection, versioned, plan⟩
    have hplan : ∀ b ∈ plan, b.TagsOnce := by cases h; assumption
    simp only [branch, newValue]
    refine settles_acyclic (fun items => ?_) items
    refine Call.Settles.bind (settles_fetch hs attr target _) ?_
    have hids : ∀ i ∈ items, ∀ id ∈ i.value.refs,
        id ∈ Names.distinct (Names.distinct (items.flatMap (·.value.refs))) := by
      intro i hi id hid
      rw [Names.mem_distinct, Names.mem_distinct]
      exact List.mem_flatMap.2 ⟨i, hi, hid⟩
    change Call.Settles _ _ (items.map fun i => relationValue one
      ((i.value.refs.filterMap (s.fetchOne status target)).map
        (populate s status plan ((i.parent, attr) :: i.chain))))
    rw [← relation_values target plan attr one _ items hids]
    exact (settles_expand (fun slots => settles_columns hs plan hplan slots) _).map _
  | .polymorphic owner attr targets, h, items => by
    obtain ⟨once, hplan⟩ : (targets.map (·.docType)).Nodup ∧
        ∀ t ∈ targets, ∀ b ∈ t.populate, b.TagsOnce := by
      cases h; exact ⟨by assumption, by assumption⟩
    simp only [branch, newValue]
    refine settles_acyclic (fun items => ?_) items
    refine Call.Settles.bind (settles_fetchTags hs attr targets items) ?_
    rw [← polymorphic_values once]
    exact (Call.settles_all interrupts_mono (settles_targetGroups hs attr targets hplan _)).map _
  | .dynamicZone owner attr components, h, items => by
    obtain ⟨once, hplan⟩ : (components.map (·.docType)).Nodup ∧
        ∀ c ∈ components, ∀ b ∈ c.populate, b.TagsOnce := by
      cases h; exact ⟨by assumption, by assumption⟩
    simp only [branch, newValue]
    rw [← dynamicZone_values once]
    exact (Call.settles_all interrupts_mono (settles_componentGroups hs components hplan _)).map _

theorem settles_targetGroups (hs : s.Reachable) (attr : String) :
    (targets : List (TargetOf Branch)) → (∀ t ∈ targets, ∀ b ∈ t.populate, b.TagsOnce) →
      (items : List Item) → List.Forall₂ (Call.Settles (s.Interrupts token))
        (targetGroups (inMemory s status token) attr targets items)
        (Item.editGroups items (targetEdits s status attr targets))
  | [], _, _ => .nil
  | ⟨docType, filter, projection, versioned, plan⟩ :: rest, h, items => by
    have hplan : ∀ b ∈ plan, b.TagsOnce := h _ (List.mem_cons_self ..)
    have hrest := settles_targetGroups hs attr rest (fun t ht => h t (List.mem_cons_of_mem _ ht)) items
    exact settles_group docType hrest
      (settles_expand (fun slots => settles_columns hs plan hplan slots))

theorem settles_componentGroups (hs : s.Reachable) :
    (components : List (ComponentOf Branch)) →
      (∀ c ∈ components, ∀ b ∈ c.populate, b.TagsOnce) →
      (items : List Item) → List.Forall₂ (Call.Settles (s.Interrupts token))
        (componentGroups (inMemory s status token) components items)
        (Item.editGroups items (componentEdits s status components))
  | [], _, _ => .nil
  | ⟨docType, projection, plan⟩ :: rest, h, items => by
    have hplan : ∀ b ∈ plan, b.TagsOnce := h _ (List.mem_cons_self ..)
    have hrest := settles_componentGroups hs rest (fun c hc => h c (List.mem_cons_of_mem _ hc)) items
    exact settles_group docType hrest
      (settles_expand (fun slots => settles_columns hs plan hplan slots))
end

theorem settles_resolve (hs : s.Reachable) {plan : PopulatePlan} (hplan : plan.TagsOnce)
    (roots : List Document) :
    ((inMemory s status token).resolve plan roots).Settles (s.Interrupts token)
      (roots.map (OneByOne.populate s status plan [])) := by
  have hcolumns : ∀ slots, List.Forall₂ (Call.Settles (s.Interrupts token))
      (columns (inMemory s status token) plan slots) (newColumns s status plan slots) :=
    settles_columns hs plan hplan
  have hsettles := settles_expand hcolumns (roots.map fun d => ⟨d, []⟩)
  rwa [List.map_map] at hsettles

/-- A plan that was built from a registry populates every root as the plain recursion does on its
own, unless the store fails for a type or the token fires before the end. -/
theorem resolve_eq_oneByOne {types : List DocumentType} {r : Registry}
    (hr : Registry.build types = .ok r) (htypes : ∀ t ∈ types, t.TagsOnce) {name : String}
    {t : DocumentType} (ht : r.get? name = some t) {spec : PopulateSpec} (hspec : spec.TagsOnce)
    {cache : PredicateCache} {plan : PopulatePlan}
    (hplan : (PopulatePlan.build r t spec cache).1 = .ok plan) {s : MemoryStore} (hs : s.Reachable)
    (status : Option Status) (token : CancelToken) (roots : List Document) (now : Nat) :
    let p := (inMemory s status token).resolve plan roots now
    p.outcome = .ok (roots.map (OneByOne.populate s status plan [])) ∨
      (∃ docType ∈ s.failing, ∃ e, s.enter docType = .error e ∧
        p.outcome = .error (.adapter e)) ∨
      ∃ c, ∃ time ≤ p.finish, token.check time = .error c ∧
        p.outcome = .error (.cancelled c) := by
  have hbranches := PopulatePlan.tagsOnce_of_build (Registry.wellFormed_build hr htypes) ht hspec hplan
  have hcolumns : ∀ slots, List.Forall₂ (Call.Settles (s.Interrupts token))
      (columns (inMemory s status token) plan slots) (newColumns s status plan slots) :=
    settles_columns hs plan hbranches
  have hsettles := settles_expand hcolumns (roots.map fun d => ⟨d, []⟩)
  rw [List.map_map] at hsettles
  rcases (hsettles now).outcome with hok | ⟨e, he, hinterrupts⟩
  · exact .inl hok
  · cases e with
    | adapter e =>
      obtain ⟨docType, hfail, henter⟩ := hinterrupts
      exact .inr (.inl ⟨docType, hfail, e, henter, he⟩)
    | cancelled c =>
      obtain ⟨time, htime, hcheck⟩ := hinterrupts
      exact .inr (.inr ⟨c, time, htime, hcheck, he⟩)

theorem tagsOnce_blog : ∀ t ∈ Blog.types, t.TagsOnce := by
  have hcheck : ∀ t ∈ Blog.types, ∀ a ∈ t.attributes, ∀ tags ∈ a.kind.tags?, tags.Nodup := by
    decide
  exact fun t ht a ha tags htags => hcheck t ht a ha tags htags

def relatedSpec (populate : PopulateNode) : PopulateSpec := ⟨false, [("related", populate)]⟩

theorem tagsOnce_relatedSpec {node : PopulateNode} (h : node.TagsOnce) :
    (relatedSpec node).TagsOnce :=
  List.forall_mem_singleton.2 h

theorem tagsOnce_nested {node : PopulateNode} (h : node.TagsOnce) :
    (PopulateNode.nested (relatedSpec node)).TagsOnce :=
  .shape _ (tagsOnce_relatedSpec h)

/-- The related articles of an article, and what is populated below them. -/
def relatedPlan (populate : PopulatePlan) : PopulatePlan :=
  [.relation "article" "related" false ⟨"article", none, .all, true, populate⟩]

/-- Two articles that refer to each other, three levels deep: the step that comes again keeps its
references. -/
theorem resolve_eq_oneByOne_blog :
    Registry.build Blog.types = .ok Blog.registry ∧
      (PopulatePlan.build Blog.registry Blog.article.withSystemAttributes
          (relatedSpec (.nested (relatedSpec (.nested (relatedSpec .all))))) (.empty 0)).1 =
        .ok (relatedPlan (relatedPlan (relatedPlan []))) ∧
      ((inMemory Blog.store none .never).resolve (relatedPlan (relatedPlan (relatedPlan [])))
          [Blog.first, Blog.second] 0).outcome =
        .ok [Blog.related "a" [.doc (Blog.related "b" [.doc Blog.first]),
            .doc (Blog.related "b" [.doc Blog.first])],
          Blog.related "b" [.doc (Blog.related "a" [.doc Blog.second, .doc Blog.second])]] := by
  have ht : Blog.registry.get? "article" = some Blog.article.withSystemAttributes := rfl
  have hspec := tagsOnce_relatedSpec (tagsOnce_nested (tagsOnce_nested .all))
  have hplan : (PopulatePlan.build Blog.registry Blog.article.withSystemAttributes
      (relatedSpec (.nested (relatedSpec (.nested (relatedSpec .all))))) (.empty 0)).1 =
        .ok (relatedPlan (relatedPlan (relatedPlan []))) := rfl
  have hs : Blog.store.Reachable := .insert _ _ (.insert _ _ (.empty _ rfl))
  refine ⟨Blog.build_types, hplan, ?_⟩
  rcases resolve_eq_oneByOne Blog.build_types tagsOnce_blog ht hspec hplan hs none .never
    [Blog.first, Blog.second] 0 with hok | ⟨docType, hfail, -⟩ | ⟨c, time, -, hcheck, -⟩
  · rw [hok]
    rfl
  · exact absurd hfail List.not_mem_nil
  · exact absurd hcheck (by simp [CancelToken.check, CancelToken.never, CancelToken.reached])

end Resolver
end ContentEngine
