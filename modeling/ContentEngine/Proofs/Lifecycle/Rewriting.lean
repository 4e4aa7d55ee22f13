import ContentEngine.Proofs.Lifecycle.Conformity
import ContentEngine.Proofs.Value.Rendering
import ContentEngine.Sample.Blog

/-!
# Writing back what was rendered

What a response shows of a value can be sent back for the same attribute: coercion accepts it, and
makes the value again, apart from the identifiers of the components in it. Nothing marks the objects
that stand for references, instances and components but their keys, so the attributes may not be named
as these keys are.
-/

namespace ContentEngine

namespace Coercion
variable {α β : Type} {P : α → Prop} {Q : β → Prop}

/-- Whatever the number it starts from, the coercion succeeds and gives something with the
property. -/
def Makes (m : Coercion α) (P : α → Prop) : Prop := ∀ n, ∃ a n', m.run n = .ok (a, n') ∧ P a

theorem makes_pure {a : α} (h : P a) : Makes (pure a) P := fun n => ⟨a, n, rfl, h⟩

theorem makes_liftM {x : Except SchemaError α} {a : α} (hx : x = .ok a) (h : P a) :
    Makes (liftM x : Coercion α) P := by
  subst hx
  exact fun n => ⟨a, n, rfl, h⟩

theorem Makes.bind {m : Coercion α} {f : α → Coercion β} (hm : Makes m P)
    (hf : ∀ a, P a → Makes (f a) Q) : Makes (m >>= f) Q := by
  intro n
  obtain ⟨a, k, ha, hP⟩ := hm n
  obtain ⟨b, n', hb, hQ⟩ := hf a hP k
  refine ⟨b, n', ?_, hQ⟩
  rw [StateT.run_bind, ha]
  exact hb

/-- The coercion gives the value again, apart from identifiers. -/
def Restores (m : Coercion Value) (v : Value) : Prop := Makes m (·.anonymous = v.anonymous)

theorem restores_mapItems {f : Value → Coercion Value} {items : List Value}
    (h : ∀ v ∈ items, Restores (f (Value.ofJson v.toJson)) v) :
    Makes (mapItems f (items.map fun v => Value.ofJson v.toJson))
      fun ws => ws.map Value.anonymous = items.map Value.anonymous := by
  induction items with
  | nil => exact makes_pure rfl
  | cons v items ih =>
    refine (h v (List.mem_cons_self ..)).bind fun w hw => ?_
    refine (ih fun v hv => h v (List.mem_cons_of_mem _ hv)).bind fun ws hws => makes_pure ?_
    rw [List.map_cons, List.map_cons, hw, hws]

variable {r : Registry} {t : DocumentType} {site : Site}

/-- Lists of references, of instances and of components are restored item by item. -/
theorem restores_list {expected : String} {f : Value → Coercion Value} {vs : List Value}
    (h : ∀ v ∈ vs, Restores (f (Value.ofJson v.toJson)) v) :
    Restores (do
      let vs ← liftM (items site expected (Value.ofJson (Value.list vs).toJson))
      return .list (← mapItems f vs)) (.list vs) := by
  rw [Value.ofJson_toJson_list]
  refine (makes_liftM (P := (· = vs.map fun v => Value.ofJson v.toJson)) rfl rfl).bind ?_
  rintro _ rfl
  refine (restores_mapItems h).bind fun ws hws => makes_pure ?_
  simp only [Value.anonymous, Value.anonymousItems_eq_map, hws]

/-! ## References -/

theorem reference_rendered (id : DocumentId) :
    reference site (Value.ofJson (Value.ref id).toJson) = .ok (.ref id) := by
  simp [Value.toJson, Value.ofJson, reference, reference?, Entries.get?, Json.asStr?]

theorem checkTag_of_mem {tags : Names} {tag : String} (h : tag ∈ tags) :
    checkTag site tags tag = .ok () := if_pos h

theorem morph_rendered {tags : Names} {tag : String} (h : tag ∈ tags) (id : DocumentId) :
    morph site tags (Value.ofJson (Value.variant tag (.ref id)).toJson) =
      .ok (.variant tag (.ref id)) := by
  have hkeys : morphTypeKey ≠ documentIdName := by decide
  have hmorph : morph? (Value.ofJson (Value.variant tag (.ref id)).toJson) = some (tag, id) := by
    simp [Value.toJson, Value.ofJson, morph?, Value.variantMembers, Value.variantKey,
      Entries.get?_insert_ne _ _ hkeys, Entries.get?, Json.asStr?]
  simp [morph, hmorph, checkTag_of_mem h, Except.map]

/-! ## Components -/

theorem scalar_json (v : Value) : scalar site .json v = .ok (.json v.toJson) := by
  cases v <;> rfl

theorem component_rendered (tag docType : String) (id : DocumentId)
    (fields : List (String × Value)) :
    component site (Value.ofJson (Value.variant tag (.doc ⟨docType, id, none, fields⟩)).toJson) =
      .ok (tag, componentFields (componentMembers tag id fields)) := by
  rw [toJson_component]
  simp [Value.ofJson, component, componentMembers, Json.asStr?]

theorem fields_eq_filter (embed : Site → Names → Value → Coercion Value)
    (data : List (String × Value)) :
    fields embed t data = fields embed t (data.filter fun f => decide (f.1 ∉ systemNames)) := by
  induction data with
  | nil => rfl
  | cons f data ih =>
    obtain ⟨name, v⟩ := f
    by_cases hname : name ∈ systemNames
    · rw [List.filter_cons_of_neg (by simpa using hname), fields, if_pos hname, ih]
    · rw [List.filter_cons_of_pos (by simpa using hname)]
      simp only [fields, if_neg hname, ← ih]

/-- Of the members of an object that stands for a component, coercion takes the fields. -/
theorem fields_component (embed : Site → Names → Value → Coercion Value) (tag : String)
    (id : DocumentId) {fs : List (String × Value)} (hsorted : Entries.Sorted fs)
    (hnames : ∀ f ∈ fs, f.1 ∉ reservedNames) :
    fields embed t (componentFields (componentMembers tag id fs)) =
      fields embed t (fs.map fun f => (f.1, Value.ofJson f.2.toJson)) := by
  have hfilter : (componentFields (componentMembers tag id fs)).filter
        (fun f => decide (f.1 ∉ systemNames)) =
      ((componentMembers tag id fs).filter fun m => decide (m.1 ∉ reservedNames)).map
        fun m => (m.1, Value.ofJson m.2) := by
    unfold componentFields
    rw [List.filter_map, List.filter_filter]
    congr 2
    funext m
    simp [reservedNames, Bool.and_comm, Bool.and_assoc]
  rw [fields_eq_filter, hfilter, filter_componentMembers hsorted hnames, List.map_map]
  rfl

/-- The field is one that the type declares, and coercion restores its value. -/
def RestoresField (embed : Site → Names → Value → Coercion Value) (t : DocumentType)
    (f : String × Value) : Prop :=
  f.1 ∉ systemNames ∧ ∃ a, t.attr? f.1 = some a ∧
    Restores (value ⟨t.name, f.1⟩ (embed ⟨t.name, f.1⟩) a.kind (Value.ofJson f.2.toJson)) f.2

theorem restores_fields {embed : Site → Names → Value → Coercion Value}
    {fs : List (String × Value)} (h : ∀ f ∈ fs, RestoresField embed t f) :
    Makes (fields embed t (fs.map fun f => (f.1, Value.ofJson f.2.toJson)))
      fun out => Value.anonymousFields out = Value.anonymousFields fs := by
  induction fs with
  | nil => exact makes_pure rfl
  | cons f fs ih =>
    obtain ⟨hsystem, a, ha, hvalue⟩ := h f (List.mem_cons_self ..)
    rw [List.map_cons, fields, if_neg hsystem]
    refine (makes_liftM (P := (· = a)) (DocumentType.getAttr_eq_ok_iff.2 ha) rfl).bind ?_
    rintro _ rfl
    refine hvalue.bind fun w hw => ?_
    refine (ih fun f hf => h f (List.mem_cons_of_mem _ hf)).bind fun out hout => makes_pure ?_
    simp only [Value.anonymousFields, hw, hout]

/-- No attribute gets lost with the identifiers. -/
theorem Complete.of_anonymous {data out : Entries Value} (h : Complete t data)
    (hout : Value.anonymousFields out = Value.anonymousFields data) : Complete t out := by
  intro a ha hrequired
  obtain ⟨v, hv, hnull⟩ := h a ha hrequired
  rw [Value.anonymousFields_eq_map, Value.anonymousFields_eq_map] at hout
  have hfound := congrArg (Entries.get? · a.name) hout
  simp only [Entries.get?_map, hv, Option.map_some] at hfound
  obtain ⟨w, hw, hwv⟩ := Option.map_eq_some_iff.1 hfound
  refine ⟨w, hw, ?_⟩
  rw [← Value.isNull_anonymous, hwv, Value.isNull_anonymous, hnull]

/-- A component is restored with one level more than its fields. -/
theorem restores_embed {depth : Nat} {tags : Names} {tag : String} (htag : tag ∈ tags)
    (ht : r.get? tag = some t) (id : DocumentId) {fs : List (String × Value)}
    (hsorted : Entries.Sorted fs) (hnames : ∀ f ∈ fs, f.1 ∉ reservedNames) (hcomplete : Complete t fs)
    (hfields : ∀ f ∈ fs, RestoresField (embed r depth) t f) :
    Restores
      (embed r (depth + 1) site tags
        (Value.ofJson (Value.variant tag (.doc ⟨tag, id, none, fs⟩)).toJson))
      (.variant tag (.doc ⟨tag, id, none, fs⟩)) := by
  unfold embed
  refine (makes_liftM (P := (· = (tag, componentFields (componentMembers tag id fs))))
    (component_rendered tag tag id fs) rfl).bind ?_
  rintro _ rfl
  refine (makes_liftM (P := fun _ => True) (checkTag_of_mem htag) trivial).bind fun _ _ => ?_
  refine (makes_liftM (P := (· = t)) (Registry.get_eq_ok_iff.2 ht) rfl).bind ?_
  rintro _ rfl
  rw [fields_component _ tag id hsorted hnames]
  refine (restores_fields hfields).bind fun out hout => ?_
  have hchecked := checkRequired_eq_ok_iff.2 ⟨rfl, hcomplete.of_anonymous hout⟩
  refine (makes_liftM (P := (· = out)) hchecked rfl).bind ?_
  rintro _ rfl
  intro n
  refine ⟨_, n + 1, rfl, ?_⟩
  simp only [Value.anonymous, hout]

end Coercion

/-! ## Values that fit -/

/-- No component has an attribute that is named as a key of the objects that stand for components. -/
def Registry.Unreserved (r : Registry) : Prop :=
  ∀ name t, r.get? name = some t → t.kind = .component → ∀ a ∈ t.attributes, a.name ∉ reservedNames

theorem Registry.unreserved_of_build {types : List DocumentType} {r : Registry}
    (hbuild : Registry.build types = .ok r)
    (hnames : ∀ u ∈ types, ∀ a ∈ u.attributes, a.name ∉ reservedNames) : r.Unreserved := by
  intro name t ht hkind a ha
  obtain ⟨u, hu, -, rfl⟩ := Registry.given_of_build hbuild ht
  have hcomponent : u.kind = .component := hkind
  have hnone : u.systemAttributes = [] := by simp [DocumentType.systemAttributes, hcomponent]
  rw [DocumentType.withSystemAttributes, hnone] at ha
  exact hnames u hu a (by simpa using ha)

section
open Coercion
variable {r : Registry} {t : DocumentType} {name : String} {f : String × Value}

theorem FitsField.unreserved (h : FitsField r t f) (hr : r.Unreserved) (ht : r.get? name = some t)
    (hkind : t.kind = .component) : f.1 ∉ reservedNames := by
  obtain ⟨_, _, _, a, ha, -⟩ := h
  exact DocumentType.attr?_name ha ▸ hr name t ht hkind a (List.mem_of_find?_eq_some ha)

-- The recursion follows what the value fits: a list of components leads to its components, a
-- component to its fields, a field to the value that it holds.
mutual
theorem Fits.restored (hr : r.Unreserved) : ∀ {kind v}, Fits r kind v → v.Renderable →
    ∀ site depth, v.toJson.depth ≤ depth →
      Restores (value site (embed r depth site) kind (Value.ofJson v.toJson)) v
  | _, _, .null _, _, _, _, _ => makes_pure rfl
  | _, _, .text _, _, _, _, _ => makes_liftM rfl rfl
  | _, _, .integer i, _, site, depth, _ => by
    have hint : Value.ofJson (Value.int i).toJson = .int i := by
      simp [Value.toJson, Value.ofJson, isInt64_toInt]
    rw [hint]
    exact makes_liftM rfl rfl
  | _, _, .float x, hv, site, depth, _ => by
    cases hv with
    | float _ hfinite =>
      have hfloat : Value.ofJson (Value.float x).toJson = .float x := by
        simp [Value.toJson, Value.ofJson, hfinite]
      rw [hfloat]
      exact makes_liftM rfl rfl
  | _, _, .boolean _, _, _, _, _ => makes_liftM rfl rfl
  | _, _, .datetime _ hs, _, _, _, _ => makes_liftM (if_pos hs) rfl
  | _, _, .json j, hv, site, depth, _ => by
    cases hv with
    | json _ hnull hreadable =>
      have hgiven : (Value.ofJson (Value.json j).toJson).isNull = false := Value.isNull_ofJson hnull
      unfold value
      rw [if_neg (by simp [hgiven])]
      refine makes_liftM (scalar_json _) ?_
      rw [Value.toJson, Value.toJson_ofJson hreadable]
  | _, _, .relationOne _ id, _, _, _, _ => makes_liftM (reference_rendered id) rfl
  | _, _, .relationMany _ vs h, _, site, _, _ => by
    refine restores_list (f := fun v => liftM (reference site v)) fun v hv => ?_
    obtain ⟨id, rfl⟩ := h v hv
    exact makes_liftM (reference_rendered id) rfl
  | _, _, .polymorphic tags vs h, _, site, _, _ => by
    refine restores_list (f := fun v => liftM (morph site tags v)) fun v hv => ?_
    obtain ⟨tag, id, htag, rfl⟩ := h v hv
    exact makes_liftM (morph_rendered htag id) rfl
  | _, _, .dynamicZone tags vs h, hvs, site, depth, hdepth => by
    cases hvs with
    | list _ hrenderable =>
      refine restores_list (f := embed r depth site tags) fun v hv => ?_
      have hless := Nat.lt_of_lt_of_le (Value.depth_lt_list hv) hdepth
      exact FitsZone.restored hr (h v hv) (hrenderable v hv) site depth (Nat.le_of_lt hless)

theorem FitsZone.restored (hr : r.Unreserved) : ∀ {tags v}, FitsZone r tags v → v.Renderable →
    ∀ site depth, v.toJson.depth ≤ depth →
      Restores (embed r depth site tags (Value.ofJson v.toJson)) v
  | _, _, .component tags tag t id status fields htag ht hkind hfields hrequired, hv, site, depth,
      hdepth => by
    cases hv with
    | variant _ _ hdoc =>
      cases hdoc with
      | doc _ _ _ hsorted hrenderable =>
        have hnames : ∀ f ∈ fields, f.1 ∉ reservedNames := fun f hf =>
          (hfields f hf).unreserved hr ht hkind
        cases depth with
        | zero => exact absurd hdepth (Nat.not_succ_le_zero _)
        | succ depth =>
          refine restores_embed htag ht id hsorted hnames hrequired fun f hf => ?_
          have hless := Nat.lt_of_lt_of_le (depth_lt_component tag hsorted hnames hf) hdepth
          exact FitsField.restored hr (hfields f hf)
            (fun hsystem => hnames f hf (List.mem_append_left _ hsystem)) (hrenderable f hf) depth
            (Nat.le_of_lt_succ hless)

theorem FitsField.restored (hr : r.Unreserved) : ∀ {t f}, FitsField r t f → f.1 ∉ systemNames →
    f.2.Renderable → ∀ depth, f.2.toJson.depth ≤ depth → RestoresField (embed r depth) t f
  | _, _, .attribute t name _ a ha hv, hsystem, hrenderable, depth, hdepth =>
    ⟨hsystem, a, ha, Fits.restored hr hv hrenderable ⟨t.name, name⟩ depth hdepth⟩
end

/-- What the fields of a document show can be written back. -/
theorem restores_document (hr : r.Unreserved) {data : Entries Value}
    (hdata : ∀ f ∈ data, f.1 ∉ systemNames ∧ FitsField r t f ∧ f.2.Renderable) {creating : Bool}
    (hcomplete : creating = true → Complete t data) :
    Makes (document r t (data.map fun f => (f.1, Value.ofJson f.2.toJson)) creating)
      fun out => Value.anonymousFields out = Value.anonymousFields data := by
  refine (restores_fields fun f hf => ?_).bind fun out hout => ?_
  · obtain ⟨hsystem, hfits, hrenderable⟩ := hdata f hf
    refine hfits.restored hr hsystem hrenderable _ ?_
    have hread : (f.1, Value.ofJson f.2.toJson) ∈
        data.map fun f => (f.1, Value.ofJson f.2.toJson) := List.mem_map.2 ⟨f, hf, rfl⟩
    rw [← Value.depth_ofJson]
    exact Value.depth_le_depthFields hread
  · cases creating with
    | false => exact makes_pure hout
    | true =>
      exact makes_liftM (checkRequired_eq_ok_iff.2 ⟨rfl, (hcomplete rfl).of_anonymous hout⟩) hout

/-- If no type declares an attribute that is named as a system attribute or as a key of components,
then a value that an attribute can hold, and of which its JSON keeps everything, is restored from that
JSON for the same attribute. The same holds of the fields of a document, all together. -/
theorem rendered_values_restored {types : List DocumentType}
    (hbuild : Registry.build types = .ok r)
    (hnames : ∀ u ∈ types, ∀ a ∈ u.attributes, a.name ∉ reservedNames) :
    (∀ kind v, Fits r kind v → v.Renderable → ∀ site depth, v.toJson.depth ≤ depth →
      Restores (value site (embed r depth site) kind (Value.ofJson v.toJson)) v) ∧
    ∀ t data, (∀ f ∈ data, f.1 ∉ systemNames ∧ FitsField r t f ∧ f.2.Renderable) →
      ∀ creating, (creating = true → Complete t data) →
        Makes (document r t (data.map fun f => (f.1, Value.ofJson f.2.toJson)) creating)
          fun out => Value.anonymousFields out = Value.anonymousFields data := by
  have hr := Registry.unreserved_of_build hbuild hnames
  exact ⟨fun _ _ hfits hrenderable => hfits.restored hr hrenderable,
    fun _ _ hdata _ hcomplete => restores_document hr hdata hcomplete⟩

/-- An article with an opening block, a mention, JSON that is no object, and a rating. -/
def Blog.page : Entries Value := [
  ("blocks", .list [.variant "blocks.hero" (.doc ⟨"blocks.hero", "c", none,
    [("heading", .text "Hello"), ("image", .ref "m")]⟩)]),
  ("mentions", .list [.variant "tag" (.ref "t")]),
  ("meta", .json (.arr [.null, .obj [("size", .int (.ofNat UInt64.size))]])),
  ("rating", .float ⟨0x3ff8000000000000⟩),
  ("title", .text "One")]

theorem Blog.fits_page :
    ∀ f ∈ Blog.page, FitsField Blog.registry Blog.article.withSystemAttributes f := by
  have hhero : ∀ f ∈ [("heading", Value.text "Hello"), ("image", .ref "m")],
      FitsField Blog.registry Blog.hero.withSystemAttributes f := by
    simp only [List.forall_mem_cons]
    exact ⟨.attribute _ _ _ (Blog.field "heading" .text) rfl (.text _),
      .attribute _ _ _ (Blog.one "image" "media") rfl (.relationOne _ _), List.forall_mem_nil _⟩
  have hblocks : ∀ v ∈ [Value.variant "blocks.hero" (.doc ⟨"blocks.hero", "c", none,
      [("heading", .text "Hello"), ("image", .ref "m")]⟩)],
      FitsZone Blog.registry ["blocks.cta", "blocks.hero"] v :=
    List.forall_mem_singleton.2 (.component _ _ _ _ _ _ (by decide) rfl rfl hhero (by decide))
  simp only [Blog.page, List.forall_mem_cons]
  exact ⟨.attribute _ _ _ ⟨"blocks", .dynamicZone ["blocks.cta", "blocks.hero"], false⟩ rfl
      (.dynamicZone _ _ hblocks),
    .attribute _ _ _ ⟨"mentions", .polymorphic ["author", "tag"], false⟩ rfl
      (.polymorphic _ _ (by simp)),
    .attribute _ _ _ (Blog.field "meta" .json) rfl (.json _),
    .attribute _ _ _ (Blog.field "rating" .float) rfl (.float _),
    .attribute _ _ _ (Blog.field "title" .text true) rfl (.text _), List.forall_mem_nil _⟩

theorem Blog.renderable_page : ∀ f ∈ Blog.page, f.2.Renderable := by
  have hfields : ∀ f ∈ [("heading", Value.text "Hello"), ("image", .ref "m")], f.2.Renderable := by
    simp only [List.forall_mem_cons]
    exact ⟨.text _, .ref _, List.forall_mem_nil _⟩
  simp only [Blog.page, List.forall_mem_cons]
  refine ⟨.list _ (List.forall_mem_singleton.2 (.variant _ _ (.doc _ _ _ ?_ hfields))),
    .list _ (List.forall_mem_singleton.2 (.variant _ _ (.ref _))), .json _ (by simp) (.arr _ ?_),
    .float _ (by decide), .text _, List.forall_mem_nil _⟩
  · exact List.pairwise_pair.2 (by decide)
  · simp only [List.forall_mem_cons]
    exact ⟨.null, .obj _, List.forall_mem_nil _⟩

theorem rendered_values_restored_blog :
    ∃ out n, (document Blog.registry Blog.article.withSystemAttributes
        (Blog.page.map fun f => (f.1, Value.ofJson f.2.toJson)) true).run 0 = .ok (out, n) ∧
      Value.anonymousFields out = Value.anonymousFields Blog.page := by
  have hnames : ∀ u ∈ Blog.types, ∀ a ∈ u.attributes, a.name ∉ reservedNames := by decide
  have hcomplete : Complete Blog.article.withSystemAttributes Blog.page := by
    intro a ha hrequired
    have hname : a.name = "title" := by
      revert a
      decide
    exact ⟨.text "One", by rw [hname]; rfl, rfl⟩
  have hsystem : ∀ f ∈ Blog.page, f.1 ∉ systemNames := by decide
  have hdata : ∀ f ∈ Blog.page, f.1 ∉ systemNames ∧
      FitsField Blog.registry Blog.article.withSystemAttributes f ∧ f.2.Renderable :=
    fun f hf => ⟨hsystem f hf, Blog.fits_page f hf, Blog.renderable_page f hf⟩
  exact (rendered_values_restored Blog.build_types hnames).2 _ Blog.page hdata true
    (fun _ => hcomplete) 0

end

end ContentEngine
