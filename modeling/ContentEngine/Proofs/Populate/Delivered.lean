import ContentEngine.Populate.Resolve
import ContentEngine.Proofs.Clock.Delivers
import ContentEngine.Proofs.Entries
import ContentEngine.Proofs.Value.Occurrences

/-!
# What populating delivers

Populating makes no documents of its own. It takes those that it is given and those that the store
finds, leaves fields out of them, and puts values into fields that were there. So a property that all
documents of a store have, at any depth, and that these two changes keep, is one that all documents of
a populated result have.
-/

namespace ContentEngine

/-- The changes that reading makes to documents keep the property. -/
structure KeptByReading (P : Document → Prop) : Prop where
  project : ∀ (p : Projection) (d : Document), P d → P (p.apply d)
  refill : ∀ (d : Document) name v, (d.get? name).isSome → P d → P (d.set name v)

/-! ## Places -/

namespace Places
variable {α β : Type}

/-- What stands in a refilled list stood there before, or was put into the place of what did. -/
theorem mem_refill {place : α → Option (β → α)} {l : List α} {bs : List β} {x : α}
    (h : x ∈ refill place l bs) :
    x ∈ l ∨ ∃ a ∈ l, ∃ put, place a = some put ∧ ∃ b ∈ bs, x = put b := by
  induction l generalizing bs with
  | nil => exact .inl h
  | cons a l ih =>
    have hrest : ∀ bs', x ∈ refill place l bs' → (∀ b ∈ bs', b ∈ bs) →
        x ∈ a :: l ∨ ∃ a' ∈ a :: l, ∃ put, place a' = some put ∧ ∃ b ∈ bs, x = put b := by
      intro bs' hx hbs
      rcases ih hx with hx | ⟨a', ha', put, hput, b, hb, rfl⟩
      · exact .inl (List.mem_cons_of_mem a hx)
      · exact .inr ⟨a', List.mem_cons_of_mem a ha', put, hput, b, hbs b hb, rfl⟩
    have hstays : x ∈ a :: refill place l bs →
        x ∈ a :: l ∨ ∃ a' ∈ a :: l, ∃ put, place a' = some put ∧ ∃ b ∈ bs, x = put b := by
      intro h
      rcases List.mem_cons.1 h with rfl | h
      · exact .inl List.mem_cons_self
      · exact hrest bs h fun b hb => hb
    unfold refill at h
    cases hplace : place a with
    | none =>
      rw [hplace] at h
      exact hstays h
    | some put =>
      rw [hplace] at h
      cases bs with
      | nil => exact hstays h
      | cons b bs =>
        rcases List.mem_cons.1 h with rfl | h
        · exact .inr ⟨a, List.mem_cons_self, put, hplace, b, List.mem_cons_self, rfl⟩
        · exact hrest bs h fun b' hb' => List.mem_cons_of_mem b hb'

theorem mem_of_mem_regroup {gs : List (List β)} {l : List α} {g : List α} (hg : g ∈ regroup gs l)
    {x : α} (hx : x ∈ g) : x ∈ l := by
  induction gs generalizing l with
  | nil => exact absurd hg List.not_mem_nil
  | cons first gs ih =>
    rcases List.mem_cons.1 hg with rfl | hg
    · exact List.mem_of_mem_take hx
    · exact List.mem_of_mem_drop (ih hg)

end Places

/-! ## Documents and values -/

section
variable {P : Document → Prop} {d : Document} {v : Value}

theorem Document.Every.get? (h : d.Every P) {name : String} (hv : d.get? name = some v) : v.Every P :=
  (Value.every_doc.1 h).2 _ (Entries.mem_of_get? hv)

theorem Document.Every.project (hP : KeptByReading P) (h : d.Every P) (p : Projection) :
    Document.Every P (p.apply d) := by
  obtain ⟨hd, hfields⟩ := Value.every_doc.1 h
  exact Value.every_doc.2 ⟨hP.project p d hd, fun f hf => hfields f (List.mem_of_mem_filter hf)⟩

theorem Document.Every.refill (hP : KeptByReading P) (h : d.Every P) {name : String}
    (hname : (d.get? name).isSome) (hv : v.Every P) : Document.Every P (d.set name v) := by
  obtain ⟨hd, hfields⟩ := Value.every_doc.1 h
  refine Value.every_doc.2 ⟨hP.refill d name v hname hd, fun f hf => ?_⟩
  rcases Entries.mem_insert hf with rfl | hf
  · exact hv
  · exact hfields f hf

namespace Value

theorem every_relationValue (one : Bool) {docs : List Document} (h : ∀ d ∈ docs, d.Every P) :
    (relationValue one docs).Every P := by
  cases one with
  | true =>
    cases docs with
    | nil => exact every_null
    | cons d docs => exact h d List.mem_cons_self
  | false =>
    refine every_list.2 fun v hv => ?_
    obtain ⟨d, hd, rfl⟩ := List.mem_map.1 hv
    exact h d hd

/-- Documents that were fetched, by tag and identifier. -/
abbrev Fetched (P : Document → Prop) (fetched : Entries (Entries Document)) : Prop :=
  ∀ e ∈ fetched, ∀ row ∈ e.2, row.2.Every P

theorem every_attachOne? {fetched : Entries (Entries Document)} (hfetched : Fetched P fetched)
    (h : v.Every P) {w : Value} (hw : attachOne? fetched v = some w) : w.Every P := by
  unfold attachOne? at hw
  split at hw
  case h_1 tag id =>
    split at hw
    case h_1 =>
      obtain rfl := Option.some.inj hw
      exact h
    case h_2 rows hrows =>
      obtain ⟨d, hd, rfl⟩ := Option.map_eq_some_iff.1 hw
      exact every_variant.2 (hfetched _ (Entries.mem_of_get? hrows) _ (Entries.mem_of_get? hd))
  case h_2 =>
    obtain rfl := Option.some.inj hw
    exact h

theorem every_attach {fetched : Entries (Entries Document)} (hfetched : Fetched P fetched)
    (h : v.Every P) : (v.attach fetched).Every P := by
  unfold attach
  split
  case h_1 items =>
    refine every_list.2 fun w hw => ?_
    obtain ⟨u, hu, hattached⟩ := List.mem_filterMap.1 hw
    exact every_attachOne? hfetched (every_list.1 h u hu) hattached
  case h_2 =>
    cases hattached : attachOne? fetched v with
    | none => exact every_null
    | some w => exact every_attachOne? hfetched h hattached

/-- What stands in an instance of a value. -/
theorem Every.tagged {tag : String} (h : v.Every P) {w : Value} (hw : w ∈ v.tagged tag) :
    w.Every P := by
  obtain ⟨i, hi, hsome⟩ := List.mem_filterMap.1 hw
  obtain ⟨-, hsame⟩ := Option.ite_none_right_eq_some.1 hsome
  obtain rfl := Option.some.inj hsame
  unfold instances at hi
  split at hi
  · obtain rfl := List.mem_singleton.1 hi
    exact every_variant.1 h
  · obtain ⟨item, hitem, hinstance⟩ := List.mem_filterMap.1 hi
    have hevery := every_list.1 h item hitem
    split at hinstance
    · obtain rfl := Option.some.inj hinstance
      exact every_variant.1 hevery
    · cases hinstance
  · exact absurd hi List.not_mem_nil

theorem every_of_instancePlace {tag : String} {put : Document → Value}
    (h : instancePlace tag v = some put) (hd : d.Every P) : (put d).Every P := by
  unfold instancePlace at h
  split at h
  · obtain ⟨-, hput⟩ := Option.ite_none_right_eq_some.1 h
    obtain rfl := Option.some.inj hput
    exact every_variant.2 hd
  · cases h

theorem every_refillInstances {tag : String} {docs : List Document} (h : v.Every P)
    (hdocs : ∀ d ∈ docs, d.Every P) : (v.refillInstances tag docs).Every P := by
  have hplaces : ∀ items : List Value, (∀ u ∈ items, u.Every P) →
      ∀ w ∈ Places.refill (instancePlace tag) items docs, w.Every P := by
    intro items hitems w hw
    rcases Places.mem_refill hw with hw | ⟨u, -, put, hput, d, hd, rfl⟩
    · exact hitems w hw
    · exact every_of_instancePlace hput (hdocs d hd)
  unfold refillInstances
  split
  case h_1 items => exact every_list.2 (hplaces items (every_list.1 h))
  case h_2 =>
    cases hhead : (Places.refill (instancePlace tag) [v] docs).head? with
    | none => exact h
    | some w => exact hplaces [v] (List.forall_mem_singleton.2 h) w (List.mem_of_head? hhead)

end Value

/-! ## Slots and items -/

abbrev Slots (P : Document → Prop) (slots : List Slot) : Prop := ∀ s ∈ slots, s.doc.Every P

abbrev Items (P : Document → Prop) (items : List Item) : Prop := ∀ i ∈ items, i.value.Every P

theorem Slots.items {slots : List Slot} (h : Slots P slots) (attr : String) :
    Items P (slots.filterMap (Slot.item? attr)) := by
  intro i hi
  obtain ⟨s, hs, hitem⟩ := List.mem_filterMap.1 hi
  obtain ⟨v, hv, rfl⟩ := Option.map_eq_some_iff.1 hitem
  exact (h s hs).get? hv

theorem Slots.fill (hP : KeptByReading P) {slots : List Slot} (h : Slots P slots)
    {columns : List (String × List Value)} (hcolumns : ∀ c ∈ columns, ∀ v ∈ c.2, v.Every P) :
    Slots P (Slot.fill slots columns) := by
  unfold Slot.fill
  induction columns generalizing slots with
  | nil => exact h
  | cons c columns ih =>
    rw [List.forall_mem_cons] at hcolumns
    have hfilled : Slots P (Places.refill (Slot.attrPlace c.1) slots c.2) := by
      intro s' hs'
      rcases Places.mem_refill hs' with hs' | ⟨s, hs, put, hput, v, hv, rfl⟩
      · exact h s' hs'
      · obtain ⟨old, hold, rfl⟩ := Option.map_eq_some_iff.1 hput
        exact (h s hs).refill hP (by rw [hold]; rfl) (hcolumns.1 v hv)
    exact ih hfilled hcolumns.2

theorem Items.embedded {items : List Item} (h : Items P items) {tag : String} {i : Item} (hi : i ∈ items)
    (hd : d ∈ i.embedded tag) : d.Every P := by
  obtain ⟨v, hv, hdoc⟩ := List.mem_filterMap.1 hd
  have hevery := (h i hi).tagged hv
  cases v with
  | doc e =>
    obtain rfl := Option.some.inj hdoc
    exact hevery
  | _ => cases hdoc

theorem Items.refillTag {items : List Item} (h : Items P items) (tag : String) {docs : List Document}
    (hdocs : ∀ d ∈ docs, d.Every P) : Items P (Item.refillTag items tag docs) := by
  intro i' hi'
  unfold Item.refillTag at hi'
  rw [← List.map_uncurry_zip_eq_zipWith] at hi'
  obtain ⟨⟨i, group⟩, hzip, rfl⟩ := List.mem_map.1 hi'
  obtain ⟨hi, hgroup⟩ := List.of_mem_zip hzip
  exact Value.every_refillInstances (h i hi) fun d hd =>
    hdocs d (Places.mem_of_mem_regroup hgroup hd)

theorem Items.refillTags {items : List Item} (h : Items P items)
    {groups : List (String × List Document)} (hgroups : ∀ g ∈ groups, ∀ d ∈ g.2, d.Every P) :
    Items P (Item.refillTags items groups) := by
  unfold Item.refillTags
  induction groups generalizing items with
  | nil => exact h
  | cons g groups ih =>
    rw [List.forall_mem_cons] at hgroups
    exact ih (h.refillTag g.1 hgroups.1) hgroups.2

end

/-! ## Populating -/

namespace Resolver
variable {σ β : Type} {r : Resolver σ} {P : Document → Prop}

/-- All documents that are found by reference have the property. -/
def Finds (r : Resolver σ) (P : Document → Prop) : Prop :=
  ∀ docType ids filter projection status rows,
    r.store.references r.state docType ids filter projection status = .ok rows →
    ∀ d ∈ rows, d.Every P

theorem Finds.fetch (h : r.Finds P) (attr : String) (target : TargetOf β) (ids : List DocumentId) :
    (r.fetch attr target ids).Delivers fun rows => ∀ row ∈ rows, row.2.Every P := by
  unfold Resolver.fetch
  split
  · exact Call.delivers_succeed (List.forall_mem_nil _)
  · have hrows := r.token.delivers_run Interruption.cancelled
      (StoreCall.delivers_ofStore (r.store.delay r.state) (.references target.docType ids)
        (h target.docType ids target.filter target.projection (r.statusFor target)))
    refine hrows.bind fun rows hrows => (Call.delivers_true _).map fun _ _ row hrow => ?_
    have hmem : row ∈ rows.map fun d => (d.id, d) :=
      (Entries.mem_insertAll hrow).resolve_left List.not_mem_nil
    obtain ⟨d, hd, rfl⟩ := List.mem_map.1 hmem
    exact hrows d hd

theorem Finds.fetchTags (h : r.Finds P) (attr : String) (targets : List (TargetOf β))
    (items : List Item) : (r.fetchTags attr targets items).Delivers (Value.Fetched P) := by
  apply Call.delivers_all
  intro c hc
  obtain ⟨target, -, rfl⟩ := List.mem_map.1 hc
  exact (h.fetch attr target _).map fun _ hrows => hrows

theorem delivers_expand (hP : KeptByReading P)
    {columns : List Slot → List (StoreCall (String × List Value))} {slots : List Slot}
    (h : ∀ c ∈ columns slots, c.Delivers fun column => ∀ v ∈ column.2, v.Every P)
    (hslots : Slots P slots) :
    (expand columns slots).Delivers fun docs => ∀ d ∈ docs, d.Every P := by
  unfold expand
  split
  · exact Call.delivers_succeed (List.forall_mem_nil _)
  · refine (Call.delivers_all h).map fun columns hcolumns d hd => ?_
    obtain ⟨s, hs, rfl⟩ := List.mem_map.1 hd
    exact hslots.fill hP hcolumns s hs

theorem delivers_acyclic {owner attr : String} {resolve : List Item → StoreCall (List Value)}
    (h : ∀ items, Items P items → (resolve items).Delivers fun vs => ∀ v ∈ vs, v.Every P)
    {items : List Item} (hitems : Items P items) :
    (acyclic owner attr items resolve).Delivers fun vs => ∀ v ∈ vs, v.Every P := by
  refine (Call.delivers_true _).bind fun _ _ => ?_
  refine (h _ fun i hi => hitems i (List.mem_of_mem_filter hi)).map fun values hvalues v hv => ?_
  obtain ⟨i, hi, rfl⟩ := List.mem_map.1 hv
  rcases Places.mem_refill hi with hi | ⟨i, -, put, hput, w, hw, rfl⟩
  · exact hitems i hi
  · unfold Item.livePlace at hput
    split at hput
    · cases hput
    · obtain rfl := Option.some.inj hput
      exact hvalues w hw

theorem delivers_group (hP : KeptByReading P) (docType : String)
    {columns : List Slot → List (StoreCall (String × List Value))} {slots : List Slot}
    (h : ∀ c ∈ columns slots, c.Delivers fun column => ∀ v ∈ column.2, v.Every P)
    (hslots : Slots P slots) {others : List (StoreCall (String × List Document))}
    (hothers : ∀ c ∈ others, c.Delivers fun group => ∀ d ∈ group.2, d.Every P) :
    ∀ c ∈ (if slots.isEmpty then others
      else (do return (docType, ← expand columns slots)) :: others),
      c.Delivers fun group => ∀ d ∈ group.2, d.Every P := by
  split
  · exact hothers
  · exact List.forall_mem_cons.2 ⟨(delivers_expand hP h hslots).map fun _ hdocs => hdocs, hothers⟩

theorem delivers_refilled {items : List Item} (hitems : Items P items)
    {groups : List (StoreCall (String × List Document))}
    (hgroups : ∀ c ∈ groups, c.Delivers fun group => ∀ d ∈ group.2, d.Every P) :
    Call.Delivers (fun vs => ∀ v ∈ vs, Value.Every P v)
      (do return (Item.refillTags items (← Call.all groups)).map (·.value)) := by
  refine (Call.delivers_all hgroups).map fun groups hgroups v hv => ?_
  obtain ⟨i, hi, rfl⟩ := List.mem_map.1 hv
  exact hitems.refillTags hgroups i hi

/- The recursion is that of the resolver: the items of a level come from documents with the property,
and so do the documents that are found for them or stand in them. -/
mutual
theorem delivers_columns (hP : KeptByReading P) (h : r.Finds P) : ∀ (plan : List Branch)
    {slots : List Slot}, Slots P slots →
    ∀ c ∈ columns r plan slots, c.Delivers fun column => ∀ v ∈ column.2, v.Every P
  | [], _, _ => fun _ hc => absurd hc List.not_mem_nil
  | b :: plan, _, hslots =>
    List.forall_mem_cons.2 ⟨(delivers_branch hP h b (hslots.items b.attr)).map fun _ hvs => hvs,
      delivers_columns hP h plan hslots⟩

theorem delivers_branch (hP : KeptByReading P) (h : r.Finds P) : ∀ (b : Branch) {items : List Item},
    Items P items → (branch r b items).Delivers fun vs => ∀ v ∈ vs, v.Every P
  | .relation owner attr one ⟨docType, filter, projection, versioned, populate⟩, items, hitems => by
    refine delivers_acyclic (fun items _ => ?_) hitems
    refine (h.fetch attr _ _).bind fun rows hrows => ?_
    have hchildren : Slots P (items.map fun i => (i.targets rows).map (i.child attr)).flatten := by
      intro s hs
      obtain ⟨children, hchildren, hs⟩ := List.mem_flatten.1 hs
      obtain ⟨i, -, rfl⟩ := List.mem_map.1 hchildren
      obtain ⟨d, hd, rfl⟩ := List.mem_map.1 hs
      obtain ⟨id, -, hrow⟩ := List.mem_filterMap.1 hd
      exact hrows _ (Entries.mem_of_get? hrow)
    refine (delivers_expand hP (delivers_columns hP h populate hchildren) hchildren).map ?_
    intro docs hdocs v hv
    obtain ⟨group, hgroup, rfl⟩ := List.mem_map.1 hv
    exact Value.every_relationValue one fun d hd => hdocs d (Places.mem_of_mem_regroup hgroup hd)
  | .polymorphic owner attr targets, items, hitems => by
    refine delivers_acyclic (fun items hitems => ?_) hitems
    refine (h.fetchTags attr targets items).bind fun fetched hfetched => ?_
    have hattached : Items P (items.map fun i => i.withValue (i.value.attach fetched)) := by
      intro j hj
      obtain ⟨i, hi, rfl⟩ := List.mem_map.1 hj
      exact Value.every_attach hfetched (hitems i hi)
    exact delivers_refilled hattached (delivers_targetGroups hP h attr targets hattached)
  | .dynamicZone _ _ components, items, hitems =>
    delivers_refilled hitems (delivers_componentGroups hP h components hitems)

theorem delivers_targetGroups (hP : KeptByReading P) (h : r.Finds P) (attr : String) :
    ∀ (targets : List (TargetOf Branch)) {items : List Item}, Items P items →
    ∀ c ∈ targetGroups r attr targets items, c.Delivers fun group => ∀ d ∈ group.2, d.Every P
  | [], _, _ => fun _ hc => absurd hc List.not_mem_nil
  | ⟨docType, _, _, _, populate⟩ :: rest, items, hitems => by
    have hslots : Slots P (items.flatMap fun i => (i.embedded docType).map (i.child attr)) := by
      intro s hs
      obtain ⟨i, hi, hs⟩ := List.mem_flatMap.1 hs
      obtain ⟨d, hd, rfl⟩ := List.mem_map.1 hs
      exact hitems.embedded hi hd
    exact delivers_group hP docType (delivers_columns hP h populate hslots) hslots
      (delivers_targetGroups hP h attr rest hitems)

theorem delivers_componentGroups (hP : KeptByReading P) (h : r.Finds P) :
    ∀ (components : List (ComponentOf Branch)) {items : List Item}, Items P items →
    ∀ c ∈ componentGroups r components items, c.Delivers fun group => ∀ d ∈ group.2, d.Every P
  | [], _, _ => fun _ hc => absurd hc List.not_mem_nil
  | ⟨docType, projection, populate⟩ :: rest, items, hitems => by
    have hslots : Slots P (items.flatMap fun i =>
        (i.embedded docType).map fun d => ⟨projection.apply d, i.chain⟩) := by
      intro s hs
      obtain ⟨i, hi, hs⟩ := List.mem_flatMap.1 hs
      obtain ⟨d, hd, rfl⟩ := List.mem_map.1 hs
      exact (hitems.embedded hi hd).project hP projection
    exact delivers_group hP docType (delivers_columns hP h populate hslots) hslots
      (delivers_componentGroups hP h rest hitems)
end

theorem delivers_resolve (hP : KeptByReading P) (h : r.Finds P) (plan : PopulatePlan)
    {roots : List Document} (hroots : ∀ d ∈ roots, d.Every P) :
    (r.resolve plan roots).Delivers fun docs => ∀ d ∈ docs, d.Every P := by
  have hslots : Slots P (roots.map fun d => ⟨d, []⟩) := by
    intro s hs
    obtain ⟨d, hd, rfl⟩ := List.mem_map.1 hs
    exact hroots d hd
  exact delivers_expand hP (delivers_columns hP h plan hslots) hslots

end Resolver
end ContentEngine
