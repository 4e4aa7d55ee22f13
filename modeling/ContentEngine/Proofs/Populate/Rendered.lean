import ContentEngine.Proofs.Lifecycle.Rewriting
import ContentEngine.Proofs.Populate.Cycles
import ContentEngine.Proofs.Populate.Opened
import ContentEngine.Proofs.Schema.Closed

/-!
# Writing back what was populated

The key under which an instance shows its tag depends on the value in it alone. A polymorphic relation
that holds references shows its tags as such; once a document takes the place of a reference, the
instance looks like a component, and coercion refuses it for the relation. What a population leaves
can be written back only if every document in it tells its tag by a field of its own. `Rendered` says
so for one value, and `populated_instances_restored_iff` for whatever a plan populates.
-/

namespace ContentEngine

namespace Value

/-- A list of instances. -/
def ofInstances (is : List (String × Value)) : Value := .list (is.map fun i => .variant i.1 i.2)

@[simp] theorem instances_ofInstances (is : List (String × Value)) :
    (ofInstances is).instances = is := by
  simp [ofInstances, instances, List.filterMap_map]

@[simp] theorem mapInstances_ofInstances (f : String → Value → Option Value)
    (is : List (String × Value)) :
    (ofInstances is).mapInstances f =
      ofInstances (is.filterMap fun i => (f i.1 i.2).map fun w => (i.1, w)) := by
  simp [ofInstances, mapInstances, List.filterMap_map, List.map_filterMap, mapInstance?,
    Function.comp_def]

/-! ## The members of a rendered instance -/

theorem get?_toJson_reference (tag : String) (id : DocumentId) :
    (Value.variant tag (.ref id)).toJson.get? morphTypeKey = some (.str tag) := by
  simp [toJson, variantKey, Json.get?]

theorem get?_toJson_of_none {d : Document} (h : d.get? morphTypeKey = none) :
    (Value.doc d).toJson.get? morphTypeKey = none := by
  obtain ⟨docType, id, status, fields⟩ := d
  have hhead : Entries.get? (documentHead id status) morphTypeKey = none := by
    cases status <;> rfl
  simp only [toJson, Json.get?, toJsonFields_eq_insertAll]
  rcases Entries.get?_insertAll (documentHead id status) (fields.map fun f => (f.1, f.2.toJson))
    morphTypeKey with hnone | ⟨j, hj, -⟩
  · exact hnone.trans hhead
  · obtain ⟨f, hf, heq⟩ := List.mem_map.1 hj
    obtain ⟨hname, -⟩ := Prod.mk.inj heq
    exact absurd (List.mem_map.2 ⟨f, hf, hname⟩) (Entries.get?_eq_none_iff.1 h)

/-- The fields of a document tell its tag and its identifier, as an object does that stands for a
reference. -/
structure Tells (tag : String) (d : Document) : Prop where
  tag : (Value.doc d).toJson.get? morphTypeKey = some (.str tag)
  id : (Value.doc d).toJson.get? documentIdName = some (.str d.id)

end Value

/-! ## Reading instances back -/

namespace Coercion
variable {site : Site} {tags : Names} {tag : String}

theorem morph_eq_ok_iff {v : Value} {id : DocumentId} :
    morph site tags v = .ok (.variant tag (.ref id)) ↔ morph? v = some (tag, id) ∧ tag ∈ tags := by
  unfold morph
  cases hmorph : morph? v with
  | none => simp [Site.invalid]
  | some found =>
    obtain ⟨tag', id'⟩ := found
    simp only [Except.map_eq_ok_iff, Option.some.injEq, Prod.mk.injEq, Value.variant.injEq,
      Value.ref.injEq]
    constructor
    · rintro ⟨_, htag, rfl, rfl⟩
      exact ⟨⟨rfl, rfl⟩, checkTag_eq_ok htag⟩
    · rintro ⟨⟨rfl, rfl⟩, htag⟩
      exact ⟨(), checkTag_of_mem htag, rfl, rfl⟩

theorem bind_asStr?_eq_some_iff {j : Option Json} {text : String} :
    j.bind Json.asStr? = some text ↔ j = some (.str text) := by
  cases j with
  | none => simp
  | some j => cases j <;> simp [Json.asStr?]

/-- A populated instance is read by the members that its document shows. -/
theorem morph?_populated_iff {d : Document} {tag' : String} {id : DocumentId} :
    morph? (Value.ofJson (Value.variant tag (.doc d)).toJson) = some (tag', id) ↔
      (Value.doc d).toJson.get? morphTypeKey = some (.str tag') ∧
        (Value.doc d).toJson.get? documentIdName = some (.str id) := by
  have hread : ∀ members : Entries Json, morph? (Value.ofJson (.obj members)) = some (tag', id) ↔
      Entries.get? members morphTypeKey = some (.str tag') ∧
        Entries.get? members documentIdName = some (.str id) := by
    refine fun members => ⟨fun h => ?_, fun h => by simp [Value.ofJson, morph?, h, Json.asStr?]⟩
    obtain ⟨_, htag, h⟩ := Option.bind_eq_some_iff.1 h
    obtain ⟨_, hid, h⟩ := Option.bind_eq_some_iff.1 h
    obtain ⟨rfl, rfl⟩ := Prod.mk.inj (Option.some.inj h)
    exact ⟨bind_asStr?_eq_some_iff.1 htag, bind_asStr?_eq_some_iff.1 hid⟩
  rw [← Value.get?_toJson_document tag d (by decide : componentKey ≠ morphTypeKey),
    ← Value.get?_toJson_document tag d (by decide : componentKey ≠ documentIdName)]
  simp only [Value.toJson, Json.get?, hread]

theorem run_liftM_iff {α : Type} {x : Except SchemaError α} {a : α} {n n' : Nat} :
    (liftM x : Coercion α).run n = .ok (a, n') ↔ n' = n ∧ x = .ok a := by
  cases x with
  | error e => exact ⟨fun h => absurd h (by rintro ⟨⟩), fun h => absurd h.2 (by simp)⟩
  | ok b =>
    constructor
    · intro h
      obtain ⟨rfl, rfl⟩ := Prod.mk.inj (Except.ok.inj h)
      exact ⟨rfl, rfl⟩
    · rintro ⟨rfl, h⟩
      obtain rfl := Except.ok.inj h
      rfl

theorem run_mapItems_iff {f : Value → Except SchemaError Value} {vs ws : List Value} {n n' : Nat} :
    (mapItems (fun v => liftM (f v)) vs).run n = .ok (ws, n') ↔
      n' = n ∧ List.Forall₂ (fun v w => f v = .ok w) vs ws := by
  induction vs generalizing ws n n' with
  | nil =>
    constructor
    · intro h
      obtain ⟨rfl, rfl⟩ := Prod.mk.inj (Except.ok.inj h)
      exact ⟨rfl, .nil⟩
    · rintro ⟨rfl, h⟩
      cases h
      rfl
  | cons v vs ih =>
    constructor
    · intro h
      obtain ⟨⟨w, k⟩, hw, hrest⟩ := Except.bind_eq_ok_iff.1 h
      obtain ⟨⟨ws', k'⟩, hws, hlast⟩ := Except.bind_eq_ok_iff.1 hrest
      obtain ⟨rfl, hv⟩ := run_liftM_iff.1 hw
      obtain ⟨rfl, hvs⟩ := ih.1 hws
      obtain ⟨rfl, rfl⟩ := Prod.mk.inj (Except.ok.inj hlast)
      exact ⟨rfl, .cons hv hvs⟩
    · rintro ⟨rfl, h⟩
      cases h with
      | cons hw hws =>
        refine Except.bind_eq_ok_iff.2 ⟨_, run_liftM_iff.2 ⟨rfl, hw⟩, ?_⟩
        exact Except.bind_eq_ok_iff.2 ⟨_, ih.2 ⟨rfl, hws⟩, rfl⟩

variable {embed : Names → Value → Coercion Value} {is ks : List (String × Value)}

/-- Reading a list of instances back gives what reading each of them gives. -/
theorem run_value_iff {w : Value} {n n' : Nat} :
    (value site embed (.polymorphic tags) (Value.ofJson (Value.ofInstances is).toJson)).run n =
        .ok (w, n') ↔
      n' = n ∧ ∃ ws, w = .list ws ∧ List.Forall₂ (fun i w =>
        morph site tags (Value.ofJson (Value.variant i.1 i.2).toJson) = .ok w) is ws := by
  have hrun : (value site embed (.polymorphic tags)
        (Value.ofJson (Value.ofInstances is).toJson)).run n =
      ((mapItems (fun v => liftM (morph site tags v))
        ((is.map fun i => Value.variant i.1 i.2).map fun v => Value.ofJson v.toJson)).run n).map
          fun x => (.list x.1, x.2) := by
    rw [Value.ofInstances, Value.ofJson_toJson_list]
    rfl
  rw [hrun, Except.map_eq_ok_iff]
  constructor
  · rintro ⟨⟨ws, k⟩, hws, heq⟩
    obtain ⟨rfl, rfl⟩ := Prod.mk.inj heq
    obtain ⟨rfl, hread⟩ := run_mapItems_iff.1 hws
    rw [List.forall₂_map_left_iff, List.forall₂_map_left_iff] at hread
    exact ⟨rfl, ws, rfl, hread⟩
  · rintro ⟨rfl, ws, rfl, hws⟩
    refine ⟨(ws, _), run_mapItems_iff.2 ⟨rfl, ?_⟩, rfl⟩
    rwa [List.forall₂_map_left_iff, List.forall₂_map_left_iff]

end Coercion

/-! ## What a population leaves -/

namespace Value

/-- What a stored instance becomes: for some tags a document takes the place of the reference. -/
inductive Becomes (takes : String → Prop) : String × Value → String × Value → Prop
  | reference {tag : String} (h : ¬ takes tag) (id : DocumentId) :
      Becomes takes (tag, .ref id) (tag, .ref id)
  | populated {tag : String} (h : takes tag) (d : Document) :
      Becomes takes (tag, .ref d.id) (tag, .doc d)

/-- Every instance shows its tag as one of a polymorphic relation does, and what is shown is read for
such a relation as these references. -/
structure ShowsAs (tags : Names) (v refs : Value) : Prop where
  tagged : ∀ tag w, (tag, w) ∈ v.instances →
    (Value.variant tag w).toJson.get? morphTypeKey = some (.str tag)
  restored : ∀ site embed n,
    (Coercion.value site embed (.polymorphic tags) (Value.ofJson v.toJson)).run n = .ok (refs, n)

/-- How a value renders that a population made of a polymorphic relation. `kept` are the stored
references without those that find nothing. -/
structure Rendered (takes : String → Prop) (tags : Names) (kept v : Value) : Prop where
  becomes : List.Forall₂ (Becomes takes) kept.instances v.instances
  reference : ∀ tag id, (tag, .ref id) ∈ v.instances →
    (Value.variant tag (.ref id)).toJson.get? morphTypeKey = some (.str tag)
  populated : ∀ tag d, (tag, .doc d) ∈ v.instances →
    (Value.variant tag (.doc d)).toJson.get? componentKey = some (.str tag)
  showsAs_iff : v.ShowsAs tags kept ↔ ∀ tag d, (tag, .doc d) ∈ v.instances → Tells tag d
  refused : ∀ tag (d : Document), (tag, .doc d) ∈ v.instances → d.get? morphTypeKey = none →
    ∀ site embed n, ∃ e, site.Refuses e ∧
      (Coercion.value site embed (.polymorphic tags) (Value.ofJson v.toJson)).run n = .error e

section
open Coercion
variable {takes : String → Prop} {tags : Names} {site : Site}
  {embed : Names → Value → Coercion Value} {is ks : List (String × Value)}

theorem Becomes.read_iff {k i : String × Value} (h : Becomes takes k i) (htag : i.1 ∈ tags) :
    morph site tags (Value.ofJson (Value.variant i.1 i.2).toJson) = .ok (.variant k.1 k.2) ↔
      ∀ d, i.2 = .doc d → Tells i.1 d := by
  cases h with
  | reference hstays id => exact iff_of_true (morph_rendered htag id) (by rintro d ⟨⟩)
  | populated htakes d =>
    rw [morph_eq_ok_iff, morph?_populated_iff]
    constructor
    · rintro ⟨⟨hshown, hid⟩, -⟩ d' heq
      obtain rfl := Value.doc.inj heq
      exact ⟨hshown, hid⟩
    · intro htells
      obtain ⟨hshown, hid⟩ := htells d rfl
      exact ⟨⟨hshown, hid⟩, htag⟩

theorem restored_iff (h : List.Forall₂ (Becomes takes) ks is) (htags : ∀ i ∈ is, i.1 ∈ tags)
    (n : Nat) :
    (Coercion.value site embed (.polymorphic tags) (Value.ofJson (ofInstances is).toJson)).run n =
        .ok (ofInstances ks, n) ↔
      ∀ tag d, (tag, .doc d) ∈ is → Tells tag d := by
  have hread : List.Forall₂ (fun i w =>
        morph site tags (Value.ofJson (Value.variant i.1 i.2).toJson) = .ok w) is
        (ks.map fun k => .variant k.1 k.2) ↔
      ∀ i ∈ is, ∀ d, i.2 = .doc d → Tells i.1 d := by
    rw [List.forall₂_map_right_iff]
    induction h with
    | nil => simp
    | cons hk _ ih =>
      obtain ⟨htag, htags⟩ := List.forall_mem_cons.1 htags
      rw [List.forall₂_cons, List.forall_mem_cons, hk.read_iff htag, ih htags]
  rw [run_value_iff]
  constructor
  · rintro ⟨-, ws, hws, hall⟩ tag d hd
    obtain rfl := Value.list.inj hws
    exact hread.1 hall _ hd d rfl
  · intro htells
    refine ⟨rfl, _, rfl, hread.2 fun i hi d hd => htells i.1 d ?_⟩
    rwa [← hd]

theorem rendered_ofInstances (h : List.Forall₂ (Becomes takes) ks is)
    (htags : ∀ i ∈ is, i.1 ∈ tags) : Rendered takes tags (ofInstances ks) (ofInstances is) where
  becomes := by simpa using h
  reference tag id _ := get?_toJson_reference tag id
  populated tag d _ := get?_toJson_tag tag d
  showsAs_iff := by
    rw [instances_ofInstances]
    constructor
    · intro hshows
      exact (restored_iff h htags 0).1 (hshows.restored ⟨"", ""⟩ (fun _ _ => pure .null) 0)
    · intro htells
      refine ⟨fun tag w hw => ?_, fun site embed n => (restored_iff h htags n).2 htells⟩
      rw [instances_ofInstances] at hw
      obtain ⟨k, -, hk⟩ := exists_of_forall₂ h.flip hw
      cases hk with
      | reference _ id => exact get?_toJson_reference tag id
      | populated _ d =>
        rw [get?_toJson_document tag d (by decide)]
        exact (htells tag d hw).tag
  refused tag d hd hnone site embed n := by
    rw [instances_ofInstances] at hd
    cases hrun : (Coercion.value site embed (.polymorphic tags)
      (Value.ofJson (ofInstances is).toJson)).run n with
    | error e => exact ⟨e, fails_value (fun _ => id) (fun _ => by rintro ⟨⟩) _ n e hrun, rfl⟩
    | ok out =>
      -- the instance would have been read, and so would show a tag
      obtain ⟨-, ws, -, hall⟩ := run_value_iff.1 hrun
      obtain ⟨w, -, hw⟩ := exists_of_forall₂ hall hd
      obtain ⟨tag', id, -, rfl⟩ := morph_eq_ok hw
      have hshown := (morph?_populated_iff.1 (morph_eq_ok_iff.1 hw).1).1
      rw [get?_toJson_of_none hnone] at hshown
      exact absurd hshown (by simp)

theorem rendered_null : Rendered takes tags .null .null where
  becomes := .nil
  reference _ _ h := absurd h List.not_mem_nil
  populated _ _ h := absurd h List.not_mem_nil
  showsAs_iff := iff_of_true ⟨fun _ _ h => absurd h List.not_mem_nil, fun _ _ _ => rfl⟩
    fun _ _ h => absurd h List.not_mem_nil
  refused _ _ h := absurd h List.not_mem_nil

end

end Value

/-- What a polymorphic relation stores is null, or a list of references by tag. -/
theorem fits_polymorphic {r : Registry} {tags : Names} {v : Value} (h : Fits r (.polymorphic tags) v) :
    v = .null ∨ ∃ is, v = Value.ofInstances is ∧ ∀ i ∈ is, i.1 ∈ tags ∧ ∃ id, i.2 = .ref id := by
  cases h with
  | null => exact .inl rfl
  | polymorphic _ items h =>
    have hinstances : ∀ v ∈ items, ∃ i : String × Value, v = .variant i.1 i.2 ∧ i.1 ∈ tags ∧
        ∃ id, i.2 = .ref id := by
      intro v hv
      obtain ⟨tag, id, htag, rfl⟩ := h v hv
      exact ⟨(tag, .ref id), rfl, htag, id, rfl⟩
    choose! instanceOf hvariant hrest using hinstances
    refine .inr ⟨items.map instanceOf, ?_, fun i hi => ?_⟩
    · have hself : items.map ((fun i => Value.variant i.1 i.2) ∘ instanceOf) = items :=
        (List.map_congr_left fun v hv => (hvariant v hv).symm).trans (List.map_id _)
      rw [Value.ofInstances, List.map_map, hself]
    · obtain ⟨v, hv, rfl⟩ := List.mem_map.1 hi
      exact hrest v hv

instance (path : List Step) (id : DocumentId) (attr : String) : Decidable (Repeats path id attr) :=
  inferInstanceAs (Decidable (∃ step ∈ path, step.id = id ∧ step.attr = attr))

namespace OneByOne

/-- At the end of a path, documents take the place of references of this tag. -/
def Takes (path : List Step) (id : DocumentId) (attr : String) (targets : List TargetPlan)
    (tag : String) : Prop :=
  ¬ Repeats path id attr ∧ ∃ target ∈ targets, target.docType = tag

variable (s : MemoryStore) (status : Option Status)

/-- The tag is planned, and no document is found for the reference. -/
def misses (targets : List TargetPlan) (tag : String) : Value → Bool
  | .ref id => targets.any fun target =>
      target.docType = tag && (s.fetchOne status target id).isNone
  | _ => false

/-- A stored value without the references that a population drops. -/
def kept (path : List Step) (id : DocumentId) (attr : String) (targets : List TargetPlan)
    (v : Value) : Value :=
  if Repeats path id attr then v
  else v.mapInstances fun tag w => if misses s status targets tag w then none else some w

variable {s status}

theorem newTarget_of_notMem {targets : List (TargetOf Branch)} {chain : Chain} {tag : String}
    (h : ∀ target ∈ targets, target.docType ≠ tag) (w : Value) :
    newTarget s status targets chain tag w = some w := by
  induction targets with
  | nil => rfl
  | cons target targets ih =>
    obtain ⟨hne, h⟩ := List.forall_mem_cons.1 h
    rw [newTarget, if_neg hne, ih h]

theorem misses_of_mem {targets : List TargetPlan} (once : (targets.map (·.docType)).Nodup)
    {target : TargetPlan} (ht : target ∈ targets) (id : DocumentId) :
    misses s status targets target.docType (.ref id) = (s.fetchOne status target id).isNone := by
  rw [misses, Bool.eq_iff_iff, List.any_eq_true]
  constructor
  · rintro ⟨target', ht', h⟩
    obtain ⟨htag, hnone⟩ := Bool.and_eq_true_iff.1 h
    obtain rfl := List.inj_on_of_nodup_map once ht' ht (of_decide_eq_true htag)
    exact hnone
  · exact fun hnone => ⟨target, ht, by simpa using hnone⟩

theorem id_of_fetchOne (hs : s.Reachable) {target : TargetPlan} {id : DocumentId} {d : Document}
    (h : s.fetchOne status target id = some d) : d.id = id := by
  obtain ⟨read, stored, hstored, rfl⟩ := MemoryStore.stored_of_fetchOne h
  have hid : stored.id = id := hs.id_of_get? hstored
  exact hid

/-- A stored reference is dropped if it misses, and becomes what it becomes otherwise. -/
theorem becomes_newTarget (hs : s.Reachable) {targets : List TargetPlan}
    (once : (targets.map (·.docType)).Nodup) (chain : Chain) (tag : String) (id : DocumentId)
    {takes : String → Prop} (htakes : takes tag ↔ ∃ target ∈ targets, target.docType = tag) :
    Option.Rel (Value.Becomes takes)
      ((if misses s status targets tag (.ref id) then none else some (.ref id)).map fun w => (tag, w))
      ((newTarget s status targets chain tag (.ref id)).map fun w => (tag, w)) := by
  by_cases hplanned : ∃ target ∈ targets, target.docType = tag
  · have htakes := htakes.2 hplanned
    obtain ⟨target, ht, rfl⟩ := hplanned
    rw [newTarget_of_mem once ht, newTarget_ref, misses_of_mem once ht]
    cases hfetched : s.fetchOne status target id with
    | none => exact .none
    | some d =>
      obtain rfl := id_of_fetchOne hs hfetched
      refine .some ?_
      have hid : (populate s status target.populate chain d).id = d.id := id_populate d
      exact hid ▸ .populated htakes _
  · have hmisses : misses s status targets tag (.ref id) = false := by
      rw [misses, List.any_eq_false]
      intro target ht h
      exact hplanned ⟨target, ht, of_decide_eq_true (Bool.and_eq_true_iff.1 h).1⟩
    rw [hmisses, newTarget_of_notMem fun target ht htag => hplanned ⟨target, ht, htag⟩]
    exact .some (.reference (htakes.not.2 hplanned) id)

theorem rendered_newValue (hs : s.Reachable) {r : Registry} {owner attr : String}
    {targets : List TargetPlan} (once : (targets.map (·.docType)).Nodup) (path : List Step)
    (id : DocumentId) {tags : Names} {stored : Value} (hfits : Fits r (.polymorphic tags) stored) :
    Value.Rendered (Takes path id attr targets) tags (kept s status path id attr targets stored)
      (newValue s status (.polymorphic owner attr targets) (path.map Step.key) id stored) := by
  by_cases hrepeats : Repeats path id attr
  · rw [kept, if_pos hrepeats, newValue, if_pos (mem_chain_iff.2 hrepeats)]
    rcases fits_polymorphic hfits with rfl | ⟨is, rfl, his⟩
    · exact Value.rendered_null
    · refine Value.rendered_ofInstances (List.forall₂_same.2 fun i hi => ?_) fun i hi => (his i hi).1
      obtain ⟨tag, w⟩ := i
      obtain ⟨-, ref, rfl⟩ := his _ hi
      exact .reference (fun htakes => htakes.1 hrepeats) ref
  · rw [kept, if_neg hrepeats, newValue, if_neg (mem_chain_iff.not.2 hrepeats)]
    rcases fits_polymorphic hfits with rfl | ⟨is, rfl, his⟩
    · exact Value.rendered_null
    · rw [Value.mapInstances_ofInstances, Value.mapInstances_ofInstances]
      refine Value.rendered_ofInstances (forall₂_filterMap fun i hi => ?_) fun i hi => ?_
      · obtain ⟨tag, w⟩ := i
        obtain ⟨-, ref, rfl⟩ := his _ hi
        exact becomes_newTarget hs once _ tag ref (and_iff_right hrepeats)
      · obtain ⟨stored, hstored, hi⟩ := List.mem_filterMap.1 hi
        obtain ⟨w, -, rfl⟩ := Option.map_eq_some_iff.1 hi
        exact (his stored hstored).1

end OneByOne

/-- If populating by a plan that was built succeeds, every document that the plan expands comes from a
stored one. Where it expands a polymorphic relation of that document, the stored references that find
something are left, some of them as documents. The value shows as such a relation and can be written
back if and only if each of these documents tells its tag by a field of its own; if one of them has no
such field, the attribute refuses what is shown. -/
theorem populated_instances_restored_iff {types : List DocumentType} {r : Registry}
    (hr : Registry.build types = .ok r) (htypes : ∀ t ∈ types, t.TagsOnce) {name : String}
    {t : DocumentType} (ht : r.get? name = some t) {spec : PopulateSpec} (hspec : spec.Keyed)
    {cache : PredicateCache} {plan : PopulatePlan}
    (hplan : (PopulatePlan.build r t spec cache).1 = .ok plan) {s : MemoryStore} (hs : s.Reachable)
    (status : Option Status) (token : CancelToken) (roots docs : List Document) (now : Nat)
    (hdocs : ((Resolver.inMemory s status token).resolve plan roots now).outcome = .ok docs) :
    ∀ d ∈ docs, ∀ path level e, Expanded plan d path level e →
      (∃ root ∈ roots, ∃ source, Stems s root source ∧
        e = OneByOne.populate s status level (path.map Step.key) source) ∧
      ∀ source, e = OneByOne.populate s status level (path.map Step.key) source →
        ∀ owner attr targets v, .polymorphic owner attr targets ∈ level → e.get? attr = some v →
          ∃ stored, source.get? attr = some stored ∧ ∀ tags, Fits r (.polymorphic tags) stored →
            Value.Rendered (OneByOne.Takes path e.id attr targets) tags
              (OneByOne.kept s status path e.id attr targets stored) v := by
  have hwell := Registry.wellFormed_build hr htypes
  have hlevelled := (PopulatePlan.implements_of_build hwell hspec hplan).levelled
  have htags := PopulatePlan.tagsOnce_of_build hwell ht hspec.tagsOnce hplan
  obtain rfl := Resolver.eq_of_resolve hs htags hdocs
  intro d hd path level e he
  obtain ⟨root, hroot, rfl⟩ := List.mem_map.1 hd
  obtain ⟨stem, hat⟩ := OneByOne.atLevel_of_expanded hlevelled htags he
  refine ⟨⟨root, hroot, stem, hat.stems, hat.populated⟩, ?_⟩
  rintro source rfl owner attr targets v hb hv
  obtain ⟨stored, hstored, rfl⟩ := Option.map_eq_some_iff.1
    ((OneByOne.get?_populate hat.levelled.1 hb source).symm.trans hv)
  have once : (targets.map (·.docType)).Nodup := by cases hat.tagsOnce _ hb; assumption
  refine ⟨stored, hstored, fun tags hfits => ?_⟩
  rw [OneByOne.id_populate]
  exact OneByOne.rendered_newValue hs once path source.id hfits

/-! ## Mentions in an article -/

namespace Mentions

def ada : Document := ⟨"author", "u", none, [("name", .text "Ada")]⟩

def proofs : Document := ⟨"tag", "t", none, [("label", .text "Proofs")]⟩

/-- An article that mentions something. -/
def article (mentions : List (String × Value)) : Document :=
  ⟨"article", "m", some .published, [("mentions", .ofInstances mentions)]⟩

/-- The tag `gone` is not in the store. -/
def stored : List (String × Value) := [("author", .ref "u"), ("tag", .ref "gone"), ("tag", .ref "t")]

def store : MemoryStore :=
  ((({ registry := Blog.registry, now := "" } : MemoryStore).insert ada).insert proofs).insert
    (article stored)

theorem reachable_store : store.Reachable := .insert _ _ (.insert _ _ (.insert _ _ (.empty _ rfl)))

def target (docType : String) (populate : PopulatePlan) : TargetPlan :=
  ⟨docType, none, .all, false, populate⟩

/-- Only the mentioned tags are populated. -/
def tagPlan : PopulatePlan := [.polymorphic "article" "mentions" [target "tag" []]]

/-- All mentions are populated, and the default of the authors with them. -/
def plan : PopulatePlan :=
  [.polymorphic "article" "mentions"
    [target "author" [.relation "author" "avatar" true (target "media" [])], target "tag" []]]

theorem fits_stored : Fits Blog.registry (.polymorphic ["author", "tag"]) (.ofInstances stored) :=
  .polymorphic _ _ (by simp [stored])

theorem populate_article {spec : PopulateSpec} (hspec : spec.Keyed) {plan : PopulatePlan}
    (hplan : (PopulatePlan.build Blog.registry Blog.article.withSystemAttributes spec (.empty 0)).1 =
      .ok plan) {e : Document} (he : OneByOne.populate store none plan [] (article stored) = e) :
    ((Resolver.inMemory store none .never).resolve plan [article stored] 0).outcome = .ok [e] := by
  have hwell := Registry.wellFormed_build Blog.build_types Resolver.tagsOnce_blog
  have ht : Blog.registry.get? "article" = some Blog.article.withSystemAttributes := rfl
  rw [Resolver.resolve_never reachable_store rfl
    (PopulatePlan.tagsOnce_of_build hwell ht hspec.tagsOnce hplan)]
  exact congrArg (fun d => Except.ok [d]) he

end Mentions

/-- An author stays a reference, as only tags are planned; one tag is gone, and the other one is
populated. -/
theorem populated_instances_restored_iff_blog :
    let left := [("author", .ref "u"), ("tag", .doc Mentions.proofs)]
    let e := Mentions.article left
    ((Resolver.inMemory Mentions.store none .never).resolve Mentions.tagPlan
        [Mentions.article Mentions.stored] 0).outcome = .ok [e] ∧
      Expanded Mentions.tagPlan e [] Mentions.tagPlan e ∧
      Value.Rendered (OneByOne.Takes [] "m" "mentions" [Mentions.target "tag" []]) ["author", "tag"]
        (.ofInstances [("author", .ref "u"), ("tag", .ref "t")]) (.ofInstances left) := by
  intro left e
  have ht : Blog.registry.get? "article" = some Blog.article.withSystemAttributes := rfl
  have hspec : PopulateSpec.Keyed ⟨false, [("mentions", .tags [("tag", .all)])]⟩ :=
    PopulateSpec.keyed_single _
      (.tags _ (List.pairwise_singleton ..) (List.forall_mem_singleton.2 .all))
  have hplan : (PopulatePlan.build Blog.registry Blog.article.withSystemAttributes
      ⟨false, [("mentions", .tags [("tag", .all)])]⟩ (.empty 0)).1 = .ok Mentions.tagPlan := rfl
  have he : OneByOne.populate Mentions.store none Mentions.tagPlan []
      (Mentions.article Mentions.stored) = e := rfl
  have hdocs := Mentions.populate_article hspec hplan he
  obtain ⟨-, hrendered⟩ := populated_instances_restored_iff Blog.build_types Resolver.tagsOnce_blog ht
    hspec hplan Mentions.reachable_store none .never _ _ 0 hdocs e (List.mem_singleton_self _) [] _ e
    .root
  obtain ⟨stored, hstored, hrendered⟩ := hrendered _ he.symm _ "mentions" _ _
    (List.mem_singleton_self _) rfl
  obtain rfl := Option.some.inj hstored
  exact ⟨hdocs, .root, hrendered _ Mentions.fits_stored⟩

/-- Once all mentions are populated, none of them shows `__type`, and what the response shows of them
is refused for the attribute that it comes from. -/
theorem populated_mentions_refused :
    let left := [("author", .doc Mentions.ada), ("tag", .doc Mentions.proofs)]
    let v := Value.ofInstances left
    (PopulatePlan.build Blog.registry Blog.article.withSystemAttributes
        ⟨false, [("mentions", .all)]⟩ (.empty 0)).1 = .ok Mentions.plan ∧
      Mentions.store.Reachable ∧
      Mentions.store.get? "article" "m" (some .published) = some (Mentions.article Mentions.stored) ∧
      Fits Blog.registry (.polymorphic ["author", "tag"]) (.ofInstances Mentions.stored) ∧
      ((Resolver.inMemory Mentions.store none .never).resolve Mentions.plan
        [Mentions.article Mentions.stored] 0).outcome = .ok [Mentions.article left] ∧
      (∀ i ∈ left, (Value.variant i.1 i.2).toJson.get? morphTypeKey = none) ∧
      ∀ embed n, (Coercion.value ⟨"article", "mentions"⟩ embed (.polymorphic ["author", "tag"])
          (Value.ofJson v.toJson)).run n =
        .error (.invalidValue "article" "mentions" "object with '__type' and 'documentId'" "json") := by
  intro left v
  have hspec : PopulateSpec.Keyed ⟨false, [("mentions", .all)]⟩ := PopulateSpec.keyed_single _ .all
  refine ⟨rfl, Mentions.reachable_store, rfl, Mentions.fits_stored,
    Mentions.populate_article hspec rfl rfl, ?_, fun embed n => rfl⟩
  simp only [left, List.forall_mem_cons]
  exact ⟨rfl, rfl, List.forall_mem_nil _⟩

end ContentEngine
