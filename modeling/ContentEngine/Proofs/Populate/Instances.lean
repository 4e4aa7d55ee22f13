import ContentEngine.Proofs.Entries
import ContentEngine.Proofs.Populate.OneByOne
import Mathlib.Data.List.Basic

/-!
# The instances of a value

Attaching fetched documents, and putting populated documents back tag by tag, replace the value of
every instance where it is. `refillTags_map` says so for a whole list of items: tags are worked on
one after the other, and as no tag comes twice, none of them disturbs another.
-/

namespace ContentEngine

namespace Places
variable {α β γ : Type}

theorem refill_nil (place : α → Option (β → α)) (l : List α) : refill place l [] = l := by
  induction l with
  | nil => rfl
  | cons a l ih => cases h : place a <;> simp [refill, h, ih]

/-- `refill_filterMap` for places that are looked for in the image of a list. -/
theorem refill_map (place : α → Option (β → α)) (g : γ → α) (h : γ → Option β) (l : List γ)
    (hp : ∀ c ∈ l, (place (g c)).isSome = (h c).isSome) :
    refill place (l.map g) (l.filterMap h) =
      l.map fun c => ((place (g c)).bind fun put => (h c).map put).getD (g c) := by
  induction l with
  | nil => rfl
  | cons c l ih =>
    have hc := hp c (List.mem_cons_self ..)
    have ih := ih fun d hd => hp d (List.mem_cons_of_mem _ hd)
    cases hplace : place (g c) with
    | none =>
      cases hh : h c with
      | none => simp [refill, hplace, hh, ih]
      | some b => simp [hplace, hh] at hc
    | some put =>
      cases hh : h c with
      | none => simp [hplace, hh] at hc
      | some b => simp [refill, hplace, hh, ih]

theorem regroup_flatMap (e : α → List β) (k : α → β → γ) (l : List α) :
    regroup (l.map e) (l.flatMap fun a => (e a).map (k a)) = l.map fun a => (e a).map (k a) := by
  induction l with
  | nil => rfl
  | cons a l ih =>
    simp only [List.map_cons, List.flatMap_cons, regroup]
    rw [List.take_left' (List.length_map _), List.drop_left' (List.length_map _), ih]

end Places

namespace Value

/-- Changes the document that an instance holds, if it holds one. -/
def onDoc (f : Document → Document) : Value → Value
  | .doc d => .doc (f d)
  | v => v

/-- The document that an instance of one tag holds. -/
def docIn? (tag : String) : Value → Option Document
  | .variant t (.doc d) => if t = tag then some d else none
  | _ => none

/-- The documents in the instances of one tag. -/
def docsIn (tag : String) (v : Value) : List Document := (v.tagged tag).filterMap asDoc?

theorem docsIn_list (tag : String) (items : List Value) :
    docsIn tag (.list items) = items.filterMap (docIn? tag) := by
  simp only [docsIn, tagged, instances, List.filterMap_filterMap]
  congr 1
  funext v
  cases v with
  | variant t w =>
    by_cases ht : t = tag
    · cases w <;> simp [docIn?, asDoc?, ht]
    · cases w <;> simp [docIn?, ht]
  | _ => rfl

theorem docsIn_variant (tag t : String) (w : Value) :
    docsIn tag (.variant t w) = (docIn? tag (.variant t w)).toList := by
  by_cases ht : t = tag
  · cases w <;> simp [docsIn, tagged, instances, docIn?, asDoc?, ht]
  · cases w <;> simp [docsIn, tagged, instances, docIn?, ht]

theorem instancePlace_isSome (tag : String) (v : Value) :
    (instancePlace tag v).isSome = (docIn? tag v).isSome := by
  cases v with
  | variant t w =>
    by_cases ht : t = tag
    · cases w <;> simp [instancePlace, docIn?, ht]
    · cases w <;> simp [instancePlace, docIn?, ht]
  | _ => rfl

/-- What an instance becomes when the documents of one tag are changed. -/
def onTag (tag : String) (k : Document → Document) (t : String) (w : Value) : Option Value :=
  some (if t = tag then w.onDoc k else w)

theorem putDoc_eq (tag : String) (k : Document → Document) (v : Value) :
    some (((instancePlace tag v).bind fun put => ((docIn? tag v).map k).map put).getD v) =
      mapInstance? (onTag tag k) v := by
  cases v with
  | variant t w =>
    by_cases ht : t = tag
    · cases w <;> simp [instancePlace, docIn?, mapInstance?, onTag, onDoc, ht]
    · cases w <;> simp [instancePlace, docIn?, mapInstance?, onTag, ht]
  | _ => rfl

theorem refill_instances (tag : String) (k : Document → Document) (l : List Value) :
    Places.refill (instancePlace tag) l ((l.filterMap (docIn? tag)).map k) =
      l.filterMap (mapInstance? (onTag tag k)) := by
  have h := Places.refill_map (instancePlace tag) id (fun v => (docIn? tag v).map k) l
    (by simp [instancePlace_isSome])
  rw [List.map_id] at h
  rw [List.map_filterMap, h, ← List.filterMap_eq_map]
  congr 1
  funext v
  exact putDoc_eq tag k v

theorem refillInstances_docsIn (tag : String) (k : Document → Document) (v : Value) :
    v.refillInstances tag ((v.docsIn tag).map k) = v.mapInstances (onTag tag k) := by
  cases v with
  | list items =>
    rw [docsIn_list]
    exact congrArg Value.list (refill_instances tag k items)
  | variant t w =>
    have h := refill_instances tag k [.variant t w]
    have hdocs : docsIn tag (.variant t w) = [Value.variant t w].filterMap (docIn? tag) := by
      rw [docsIn_variant]
      cases hdoc : docIn? tag (.variant t w) <;> simp [hdoc]
    rw [hdocs]
    simp only [refillInstances, h]
    simp [mapInstances, mapInstance?, onTag]
  | _ => rfl

theorem refillInstances_nil (tag : String) (v : Value) : v.refillInstances tag [] = v := by
  cases v <;> simp [refillInstances, Places.refill_nil]

theorem docsIn_mapInstances {tag : String} {f : String → Value → Option Value}
    (hf : ∀ w, f tag w = some w) (hd : ∀ t w, (f t w).isSome) (v : Value) :
    docsIn tag (v.mapInstances f) = docsIn tag v := by
  have hone : ∀ v, (mapInstance? f v).bind (docIn? tag) = docIn? tag v := by
    intro v
    cases v with
    | variant t w =>
      by_cases ht : t = tag
      · simp [mapInstance?, ht, hf]
      · obtain ⟨w', hw'⟩ := Option.isSome_iff_exists.1 (hd t w)
        have hno : ∀ u, docIn? tag (.variant t u) = none := by
          intro u
          cases u <;> simp [docIn?, ht]
        simp [mapInstance?, hw', hno]
    | _ => rfl
  cases v with
  | list items =>
    simp only [mapInstances, docsIn_list, List.filterMap_filterMap]
    congr 1
    funext v
    exact hone v
  | variant t w =>
    obtain ⟨w', hw'⟩ := Option.isSome_iff_exists.1 (hd t w)
    have h := hone (.variant t w)
    simp only [mapInstance?, hw', Option.map_some, Option.bind_some] at h
    simp [mapInstances, mapInstance?, hw', docsIn_variant, h]
  | _ => rfl

theorem mapInstance?_mapInstance? (f g : String → Value → Option Value) (v : Value) :
    (mapInstance? f v).bind (mapInstance? g) =
      mapInstance? (fun t w => (f t w).bind (g t)) v := by
  cases v with
  | variant t w =>
    cases hf : f t w <;> simp [mapInstance?, hf]
  | _ => rfl

theorem mapInstances_mapInstances (f g : String → Value → Option Value) (v : Value) :
    (v.mapInstances f).mapInstances g = v.mapInstances fun t w => (f t w).bind (g t) := by
  cases v with
  | list items =>
    simp only [mapInstances, List.filterMap_filterMap, mapInstance?_mapInstance?]
  | variant t w => cases hf : f t w <;> simp [mapInstances, mapInstance?, hf]
  | _ => rfl

theorem instances_mapInstances (f : String → Value → Option Value) (v : Value) :
    (v.mapInstances f).instances =
      v.instances.filterMap fun i => (f i.1 i.2).map fun w => (i.1, w) := by
  cases v with
  | list items =>
    simp only [mapInstances, instances, List.filterMap_filterMap]
    congr 1
    funext v
    cases v with
    | variant t w => cases hf : f t w <;> simp [mapInstance?, hf]
    | _ => rfl
  | variant t w => cases hf : f t w <;> simp [mapInstances, mapInstance?, instances, hf]
  | _ => rfl

theorem mem_tagged {tag : String} {v w : Value} : w ∈ v.tagged tag ↔ (tag, w) ∈ v.instances := by
  simp only [tagged, List.mem_filterMap]
  constructor
  · rintro ⟨⟨t, w'⟩, hw, h⟩
    by_cases htag : t = tag <;> simp [htag] at h
    subst htag h
    exact hw
  · exact fun h => ⟨(tag, w), h, by simp⟩

theorem tagged_mapInstances (f : String → Value → Option Value) (tag : String) (v : Value) :
    (v.mapInstances f).tagged tag = (v.tagged tag).filterMap (f tag) := by
  simp only [tagged, instances_mapInstances, List.filterMap_filterMap]
  congr 1
  funext ⟨t, w⟩
  by_cases htag : t = tag
  · subst htag
    cases hf : f t w <;> simp [hf]
  · cases hf : f t w <;> simp [htag]

theorem mapInstances_keep {f : String → Value → Option Value} (hf : ∀ t w, f t w = some w)
    (v : Value) : v.mapInstances f = v := by
  have hone : mapInstance? f = some := by
    funext v
    cases v <;> simp [mapInstance?, hf]
  cases v <;> simp [mapInstances, hone]

theorem mapInstances_congr {f g : String → Value → Option Value} {v : Value}
    (h : ∀ t w, (t, w) ∈ v.instances → f t w = g t w) : v.mapInstances f = v.mapInstances g := by
  cases v with
  | list items =>
    refine congrArg Value.list (List.filterMap_congr fun v hv => ?_)
    cases v with
    | variant t w =>
      have hmem : (t, w) ∈ instances (.list items) := List.mem_filterMap.2 ⟨_, hv, rfl⟩
      simp [mapInstance?, h t w hmem]
    | _ => rfl
  | variant t w => simp [mapInstances, mapInstance?, h t w (List.mem_singleton_self _)]
  | _ => rfl

/-- What an instance of a tag becomes when fetched documents are attached. -/
def attachTo (fetched : Entries (Entries Document)) (tag : String) : Value → Option Value
  | .ref id => (Entries.get? fetched tag).elim (some (.ref id)) fun rows =>
      (Entries.get? rows id).map .doc
  | v => some v

theorem attachOne?_eq (fetched : Entries (Entries Document)) (v : Value) :
    attachOne? fetched v = mapInstance? (attachTo fetched) v := by
  cases v with
  | variant t w =>
    cases w with
    | ref id =>
      cases h : Entries.get? fetched t <;>
        simp [attachOne?, mapInstance?, attachTo, h, Function.comp_def]
    | _ => rfl
  | _ => rfl

theorem attach_eq (fetched : Entries (Entries Document)) (v : Value) :
    v.attach fetched = v.mapInstances (attachTo fetched) := by
  cases v with
  | list items =>
    exact congrArg (fun f => Value.list (items.filterMap f)) (funext (attachOne?_eq fetched))
  | _ => simp only [attach, mapInstances, attachOne?_eq]

end Value

namespace Item

/-- What is done to the documents of some tags, for each item in its own way. -/
abbrev Edits := List (String × (Item → Document → Document))

/-- The changed documents of every tag, from all items; a tag without any has no group. -/
def editGroups (items : List Item) (edits : Edits) : List (String × List Document) :=
  edits.filterMap fun e =>
    let docs := items.flatMap fun i => (i.embedded e.1).map (e.2 i)
    if docs.isEmpty then none else some (e.1, docs)

/-- What an instance of an item becomes by the edit of its tag. -/
def edited (edits : Edits) (i : Item) (tag : String) (w : Value) : Option Value :=
  some ((Entries.get? edits tag).elim w fun f => w.onDoc (f i))

/-- `u` gives the values that the items hold by now. -/
theorem refillTag_map (tag : String) (k : Item → Document → Document) (u : Item → Value)
    (items : List Item) (hu : ∀ i ∈ items, (u i).docsIn tag = i.embedded tag) :
    refillTag (items.map fun i => i.withValue (u i)) tag
        (items.flatMap fun i => (i.embedded tag).map (k i)) =
      items.map fun i => i.withValue ((u i).mapInstances (Value.onTag tag (k i))) := by
  have hembedded : (items.map fun i => i.withValue (u i)).map (embedded tag) =
      items.map (embedded tag) := by
    rw [List.map_map]
    exact List.map_congr_left hu
  simp only [refillTag, hembedded, Places.regroup_flatMap, List.zipWith_map, List.zipWith_self]
  refine List.map_congr_left fun i hi => ?_
  rw [← hu i hi]
  exact congrArg i.withValue (Value.refillInstances_docsIn tag (k i) (u i))

theorem refillTag_nil (items : List Item) (tag : String) : refillTag items tag [] = items := by
  have hgroups : ∀ gs : List (List Document), (Places.regroup gs ([] : List Document)) =
      gs.map fun _ => [] := by
    intro gs
    induction gs with
    | nil => rfl
    | cons g gs ih => simp [Places.regroup, ih]
  simp only [refillTag, hgroups, List.map_map, List.zipWith_map_right, List.zipWith_self]
  simp [Value.refillInstances_nil, withValue]

theorem refillTags_map (edits : Edits) (hedits : (edits.map (·.1)).Nodup) (u : Item → Value)
    (items : List Item)
    (hu : ∀ i ∈ items, ∀ e ∈ edits, (u i).docsIn e.1 = i.embedded e.1) :
    refillTags (items.map fun i => i.withValue (u i)) (editGroups items edits) =
      items.map fun i => i.withValue ((u i).mapInstances (edited edits i)) := by
  induction edits generalizing u with
  | nil =>
    refine List.map_congr_left fun i _ => ?_
    rw [Value.mapInstances_keep (f := edited [] i) fun _ _ => rfl]
  | cons e edits ih =>
    obtain ⟨hnew, hedits⟩ := List.nodup_cons.1 hedits
    let u' := fun i => (u i).mapInstances (Value.onTag e.1 (e.2 i))
    have hstep : refillTags (items.map fun i => i.withValue (u i)) (editGroups items (e :: edits)) =
        refillTags (items.map fun i => i.withValue (u' i)) (editGroups items edits) := by
      have htag := refillTag_map e.1 e.2 u items fun i hi => hu i hi e (List.mem_cons_self ..)
      by_cases hdocs : (items.flatMap fun i => (i.embedded e.1).map (e.2 i)).isEmpty
      · have hskip : editGroups items (e :: edits) = editGroups items edits := by
          simp only [editGroups, List.filterMap_cons, hdocs, if_true]
        rw [List.isEmpty_iff.1 hdocs, refillTag_nil] at htag
        rw [hskip, htag]
      · have hgroup : editGroups items (e :: edits) =
            (e.1, items.flatMap fun i => (i.embedded e.1).map (e.2 i)) ::
              editGroups items edits := by
          simp only [editGroups, List.filterMap_cons, hdocs]
          rfl
        rw [hgroup]
        exact congrArg (refillTags · (editGroups items edits)) htag
    have hu' : ∀ i ∈ items, ∀ e' ∈ edits, (u' i).docsIn e'.1 = i.embedded e'.1 := by
      intro i hi e' he'
      have hne : ¬ e'.1 = e.1 := fun heq => hnew (List.mem_map.2 ⟨e', he', heq⟩)
      rw [Value.docsIn_mapInstances (by simp [Value.onTag, hne]) (by simp [Value.onTag])]
      exact hu i hi e' (List.mem_cons_of_mem _ he')
    rw [hstep, ih hedits u' hu']
    refine List.map_congr_left fun i _ => congrArg i.withValue ?_
    simp only [u', Value.mapInstances_mapInstances]
    congr 1
    funext t w
    by_cases ht : e.1 = t
    · subst ht
      have hnone : Entries.get? edits e.1 = none := by
        cases hget : Entries.get? edits e.1 with
        | none => rfl
        | some f => exact absurd (List.mem_map_of_mem (Entries.mem_of_get? hget)) hnew
      simp [Value.onTag, edited, Entries.get?, hnone]
    · simp [Value.onTag, edited, Entries.get?, ht, Ne.symm ht]

end Item
end ContentEngine
