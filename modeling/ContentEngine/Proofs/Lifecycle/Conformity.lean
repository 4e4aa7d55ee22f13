import ContentEngine.Lifecycle.Coercion
import ContentEngine.Proofs.Outcome
import ContentEngine.Proofs.Schema.Registry
import ContentEngine.Proofs.Store.Contents

/-!
# Coerced data conforms to the schema

`Fits` states which values an attribute of a kind can hold, down through the components that are
embedded in dynamic zones. Whatever is given for an attribute, coercion fails or gives a value that
fits; a field that is not given is not made up, and null stays null.
-/

namespace ContentEngine

mutual
/-- The value can be held by an attribute of the kind. -/
inductive Fits (r : Registry) : AttributeKind → Value → Prop
  | null (kind : AttributeKind) : Fits r kind .null
  | text (s : String) : Fits r (.scalar .text) (.text s)
  | integer (i : Int64) : Fits r (.scalar .integer) (.int i)
  | float (x : Double) : Fits r (.scalar .float) (.float x)
  | boolean (b : Bool) : Fits r (.scalar .boolean) (.bool b)
  | datetime (s : String) (h : (Instant.millis? s).isSome = true) :
      Fits r (.scalar .datetime) (.text s)
  | json (j : Json) : Fits r (.scalar .json) (.json j)
  | relationOne (target : String) (id : DocumentId) : Fits r (.relationOne target) (.ref id)
  | relationMany (target : String) (items : List Value) (h : ∀ v ∈ items, ∃ id, v = .ref id) :
      Fits r (.relationMany target) (.list items)
  | polymorphic (tags : Names) (items : List Value)
      (h : ∀ v ∈ items, ∃ tag id, tag ∈ tags ∧ v = .variant tag (.ref id)) :
      Fits r (.polymorphic tags) (.list items)
  | dynamicZone (tags : Names) (items : List Value) (h : ∀ v ∈ items, FitsZone r tags v) :
      Fits r (.dynamicZone tags) (.list items)

/-- The value is a component with one of the tags, and has all that the component requires. -/
inductive FitsZone (r : Registry) : Names → Value → Prop
  | component (tags : Names) (tag : String) (t : DocumentType) (id : DocumentId)
      (status : Option Status) (fields : List (String × Value)) (htag : tag ∈ tags)
      (ht : r.get? tag = some t) (hkind : t.kind = .component)
      (hfields : ∀ f ∈ fields, FitsField r t f)
      (hrequired : ∀ a ∈ t.attributes, a.required = true →
        ∃ v, Entries.get? fields a.name = some v ∧ v.isNull = false) :
      FitsZone r tags (.variant tag (.doc ⟨tag, id, status, fields⟩))

/-- The field is an attribute of the type, with a value that the attribute can hold. -/
inductive FitsField (r : Registry) : DocumentType → String × Value → Prop
  | attribute (t : DocumentType) (name : String) (v : Value) (a : AttributeDefinition)
      (ha : t.attr? name = some a) (hv : Fits r a.kind v) : FitsField r t (name, v)
end

namespace Coercion
variable {α β : Type} {P : α → Prop} {Q : β → Prop}

/-- What the coercion gives, if it succeeds, has the property. -/
def Gives (m : Coercion α) (P : α → Prop) : Prop := ∀ n a n', m.run n = .ok (a, n') → P a

theorem gives_pure {a : α} (h : P a) : Gives (pure a) P := by
  intro n b n' hb
  obtain ⟨rfl, -⟩ := Prod.mk.inj (Except.ok.inj hb)
  exact h

theorem gives_liftM {x : Except SchemaError α} (h : ∀ a, x = .ok a → P a) :
    Gives (liftM x : Coercion α) P := by
  intro n a n' ha
  obtain ⟨b, hx, hb⟩ := Except.bind_eq_ok_iff.1 ha
  obtain ⟨rfl, -⟩ := Prod.mk.inj (Except.ok.inj hb)
  exact h b hx

theorem Gives.bind {m : Coercion α} {f : α → Coercion β} (hm : Gives m P)
    (hf : ∀ a, P a → Gives (f a) Q) : Gives (m >>= f) Q := by
  intro n b n' hb
  obtain ⟨⟨a, k⟩, ha, hb⟩ := Except.bind_eq_ok_iff.1 hb
  exact hf a (hm n a k ha) k b n' hb

theorem Gives.imp {m : Coercion α} {P' : α → Prop} (h : Gives m P) (himp : ∀ a, P a → P' a) :
    Gives m P' := fun n a n' ha => himp a (h n a n' ha)

theorem gives_true (m : Coercion α) : Gives m fun _ => True := fun _ _ _ _ => trivial

theorem gives_mapItems {f : Value → Coercion Value} {R : Value → Prop} (hf : ∀ v, Gives (f v) R)
    (vs : List Value) : Gives (mapItems f vs) fun ws => ∀ w ∈ ws, R w := by
  induction vs with
  | nil => exact gives_pure (by simp)
  | cons v vs ih =>
    refine (hf v).bind fun w hw => ih.bind fun ws hws => gives_pure ?_
    exact List.forall_mem_cons.2 ⟨hw, hws⟩

/-! ## Values -/

variable {r : Registry} {t : DocumentType} {site : Site} {v w : Value}

theorem fits_scalar {kind : ScalarKind} (h : scalar site kind v = .ok w) :
    Fits r (.scalar kind) w := by
  cases kind with
  | json =>
    cases v <;> (obtain rfl := Except.ok.inj h; exact .json _)
  | datetime =>
    cases v with
    | text s =>
      simp only [scalar] at h
      by_cases hs : (Instant.millis? s).isSome
      · rw [if_pos hs] at h
        obtain rfl := Except.ok.inj h
        exact .datetime s hs
      · rw [if_neg hs] at h
        exact absurd h (by simp [Site.invalid])
    | _ => exact absurd h (by simp [scalar, Site.invalid])
  | text =>
    cases v with
    | text s =>
      obtain rfl := Except.ok.inj h
      exact .text s
    | _ => exact absurd h (by simp [scalar, Site.invalid])
  | integer =>
    cases v with
    | int i =>
      obtain rfl := Except.ok.inj h
      exact .integer i
    | _ => exact absurd h (by simp [scalar, Site.invalid])
  | float =>
    cases v with
    | float x =>
      obtain rfl := Except.ok.inj h
      exact .float x
    | int i =>
      obtain rfl := Except.ok.inj h
      exact .float _
    | _ => exact absurd h (by simp [scalar, Site.invalid])
  | boolean =>
    cases v with
    | bool b =>
      obtain rfl := Except.ok.inj h
      exact .boolean b
    | _ => exact absurd h (by simp [scalar, Site.invalid])

theorem reference_eq_ok (h : reference site v = .ok w) : ∃ id, w = .ref id := by
  unfold reference at h
  cases hid : reference? v with
  | none =>
    rw [hid] at h
    exact absurd h (by simp [Site.invalid])
  | some id =>
    rw [hid] at h
    exact ⟨id, (Except.ok.inj h).symm⟩

theorem checkTag_eq_ok {tags : Names} {tag : String} (h : checkTag site tags tag = .ok ()) :
    tag ∈ tags := by
  unfold checkTag at h
  by_cases htag : tag ∈ tags
  · exact htag
  · rw [if_neg htag] at h
    exact absurd h (by simp [Site.invalid])

theorem morph_eq_ok {tags : Names} (h : morph site tags v = .ok w) :
    ∃ tag id, tag ∈ tags ∧ w = .variant tag (.ref id) := by
  unfold morph at h
  cases hmorph : morph? v with
  | none =>
    rw [hmorph] at h
    exact absurd h (by simp [Site.invalid])
  | some instance' =>
    obtain ⟨tag, id⟩ := instance'
    rw [hmorph] at h
    obtain ⟨_, htag, hw⟩ := Except.map_eq_ok_iff.1 h
    exact ⟨tag, id, checkTag_eq_ok htag, hw.symm⟩

theorem gives_value {embed : Names → Value → Coercion Value} {kind : AttributeKind}
    (hembed : ∀ tags, kind = .dynamicZone tags → ∀ v, Gives (embed tags v) (FitsZone r tags))
    (v : Value) : Gives (value site embed kind v) (Fits r kind) := by
  unfold value
  by_cases hnull : v.isNull
  · rw [if_pos hnull]
    exact gives_pure (.null kind)
  · rw [if_neg hnull]
    cases kind with
    | scalar kind => exact gives_liftM fun w hw => fits_scalar hw
    | relationOne target =>
      refine gives_liftM fun w hw => ?_
      obtain ⟨id, rfl⟩ := reference_eq_ok hw
      exact .relationOne target id
    | relationMany target =>
      refine (gives_true _).bind fun vs _ => ?_
      refine (gives_mapItems (fun v => gives_liftM fun w hw => reference_eq_ok hw) vs).bind ?_
      exact fun ws hws => gives_pure (.relationMany target ws hws)
    | polymorphic tags =>
      refine (gives_true _).bind fun vs _ => ?_
      refine (gives_mapItems (fun v => gives_liftM fun w hw => morph_eq_ok hw) vs).bind ?_
      exact fun ws hws => gives_pure (.polymorphic tags ws hws)
    | dynamicZone tags =>
      refine (gives_true _).bind fun vs _ => ?_
      refine (gives_mapItems (hembed tags rfl) vs).bind ?_
      exact fun ws hws => gives_pure (.dynamicZone tags ws hws)

/-! ## Components and documents -/

theorem gives_fields {embed : Site → Names → Value → Coercion Value}
    (hembed : ∀ a ∈ t.attributes, ∀ tags, a.kind = .dynamicZone tags → ∀ site v,
      Gives (embed site tags v) (FitsZone r tags))
    (data : List (String × Value)) :
    Gives (fields embed t data) fun out => ∀ f ∈ out, FitsField r t f := by
  induction data with
  | nil => exact gives_pure (by simp)
  | cons e data ih =>
    obtain ⟨name, v⟩ := e
    unfold fields
    by_cases hsystem : name ∈ systemNames
    · rw [if_pos hsystem]
      exact ih
    · rw [if_neg hsystem]
      refine (gives_liftM fun a => DocumentType.getAttr_eq_ok_iff.1).bind fun a ha => ?_
      have hmem : a ∈ t.attributes := List.mem_of_find?_eq_some ha
      refine (gives_value (r := r) (fun tags hkind v => hembed a hmem tags hkind _ v) v).bind ?_
      intro w hw
      refine ih.bind fun out hout => gives_pure ?_
      exact List.forall_mem_cons.2 ⟨.attribute t name w a ha hw, hout⟩

/-- All that the type requires is there. -/
def Complete (t : DocumentType) (data : Entries Value) : Prop :=
  ∀ a ∈ t.attributes, a.required = true →
    ∃ v, Entries.get? data a.name = some v ∧ v.isNull = false

theorem missing?_eq_none_iff {data : Entries Value} : missing? t data = none ↔ Complete t data := by
  unfold missing?
  rw [List.find?_eq_none]
  refine forall₂_congr fun a ha => ?_
  cases a.required <;> cases Entries.get? data a.name <;> simp

theorem checkRequired_eq_ok_iff {data out : Entries Value} :
    checkRequired t data = .ok out ↔ out = data ∧ Complete t data := by
  rw [← missing?_eq_none_iff]
  unfold checkRequired
  cases missing? t data <;> simp [eq_comm]

/-- The induction is on the levels that are left: the components that are embedded in this one are
coerced with one level less. -/
theorem gives_embed (hr : r.Closed) (depth : Nat) (site : Site) (tags : Names)
    (htags : ∀ tag ∈ tags, ∃ u, r.get? tag = some u ∧ u.kind = .component) (v : Value) :
    Gives (embed r depth site tags v) (FitsZone r tags) := by
  induction depth generalizing site tags v with
  | zero => exact gives_liftM fun w hw => absurd hw (by simp [Site.invalid])
  | succ depth ih =>
    unfold embed
    refine (gives_true _).bind fun shape _ => ?_
    obtain ⟨tag, data⟩ := shape
    refine (gives_liftM (P := fun _ => tag ∈ tags) fun _ => checkTag_eq_ok).bind fun _ htag => ?_
    refine (gives_liftM fun t => Registry.get_eq_ok_iff.1).bind fun t ht => ?_
    obtain ⟨u, hu, hkind⟩ := htags tag htag
    obtain rfl : u = t := Option.some.inj (hu.symm.trans ht)
    have hnested : ∀ a ∈ u.attributes, ∀ tags', a.kind = .dynamicZone tags' → ∀ site v,
        Gives (embed r depth site tags' v) (FitsZone r tags') :=
      fun a ha tags' hzone site v => ih site tags' (fun _ => hr.zoneTag ht ha hzone) v
    refine (gives_fields hnested data).bind fun coerced hcoerced => ?_
    refine (gives_liftM (P := fun out => out = coerced ∧ Complete u coerced)
      fun out => checkRequired_eq_ok_iff.1).bind fun out hout => ?_
    obtain ⟨rfl, hrequired⟩ := hout
    refine (gives_true _).bind fun n _ => (gives_true _).bind fun _ _ => gives_pure ?_
    exact .component tags tag u _ none out htag ht hkind hcoerced hrequired

/-- A document is made of its fields; only in a creation the required attributes are looked for. -/
theorem gives_document_of_fields {data : Entries Value} (creating : Bool) {P : Entries Value → Prop}
    (h : Gives (fields (embed r (Value.depthFields data)) t data) P) :
    Gives (document r t data creating) fun out => P out ∧ (creating = true → Complete t out) := by
  refine h.bind fun out hout => ?_
  cases creating with
  | false => exact gives_pure ⟨hout, by simp⟩
  | true =>
    refine gives_liftM fun out' hout' => ?_
    obtain ⟨rfl, hcomplete⟩ := checkRequired_eq_ok_iff.1 hout'
    exact ⟨hout, fun _ => hcomplete⟩

theorem gives_document (hr : r.Closed) {name : String} (ht : r.get? name = some t)
    (data : Entries Value) (creating : Bool) :
    Gives (document r t data creating) fun out => ∀ f ∈ out, FitsField r t f := by
  have hembed : ∀ a ∈ t.attributes, ∀ tags, a.kind = .dynamicZone tags → ∀ site v,
      Gives (embed r (Value.depthFields data) site tags v) (FitsZone r tags) :=
    fun a ha tags hzone site v => gives_embed hr _ site tags (fun _ => hr.zoneTag ht ha hzone) v
  exact (gives_document_of_fields creating (gives_fields hembed data)).imp fun _ h => h.1

/-! ## What is coerced was given -/

theorem isNull_scalar {kind : ScalarKind} (h : scalar site kind v = .ok w) : w.isNull = false := by
  unfold scalar at h
  split at h
  case h_8 =>
    split at h
    · obtain rfl := Except.ok.inj h
      rfl
    · exact absurd h (by simp [Site.invalid])
  case h_9 => exact absurd h (by simp [Site.invalid])
  all_goals
    obtain rfl := Except.ok.inj h
    rfl

/-- Null stays null, and nothing else becomes null. -/
theorem gives_isNull {embed : Names → Value → Coercion Value} (kind : AttributeKind) (v : Value) :
    Gives (value site embed kind v) (·.isNull = v.isNull) := by
  unfold value
  by_cases hnull : v.isNull
  · rw [if_pos hnull]
    exact gives_pure hnull.symm
  · rw [if_neg hnull]
    have hfalse : v.isNull = false := by simpa using hnull
    rw [hfalse]
    cases kind with
    | scalar kind => exact gives_liftM fun w hw => isNull_scalar hw
    | relationOne target =>
      refine gives_liftM fun w hw => ?_
      obtain ⟨id, rfl⟩ := reference_eq_ok hw
      rfl
    | relationMany target =>
      exact (gives_true _).bind fun vs _ => (gives_true _).bind fun ws _ => gives_pure rfl
    | polymorphic tags =>
      exact (gives_true _).bind fun vs _ => (gives_true _).bind fun ws _ => gives_pure rfl
    | dynamicZone tags =>
      exact (gives_true _).bind fun vs _ => (gives_true _).bind fun ws _ => gives_pure rfl

/-- The field is none of the system's, and was given; it is null if it was given as null. -/
def Given (data : Entries Value) (f : String × Value) : Prop :=
  f.1 ∉ systemNames ∧ ∃ v, (f.1, v) ∈ data ∧ f.2.isNull = v.isNull

theorem Given.cons {data : Entries Value} {f : String × Value} (h : Given data f)
    (e : String × Value) : Given (e :: data) f := by
  obtain ⟨hname, v, hv, hnull⟩ := h
  exact ⟨hname, v, List.mem_cons_of_mem _ hv, hnull⟩

theorem gives_given {embed : Site → Names → Value → Coercion Value} (data : List (String × Value)) :
    Gives (fields embed t data) fun out => ∀ f ∈ out, Given data f := by
  induction data with
  | nil => exact gives_pure (List.forall_mem_nil _)
  | cons e data ih =>
    obtain ⟨name, v⟩ := e
    unfold fields
    by_cases hsystem : name ∈ systemNames
    · rw [if_pos hsystem]
      exact fun n out n' hout f hf => (ih n out n' hout f hf).cons _
    · rw [if_neg hsystem]
      refine (gives_true _).bind fun a _ => ?_
      refine (gives_isNull a.kind v).bind fun w hw => ih.bind fun out hout => gives_pure ?_
      exact List.forall_mem_cons.2 ⟨⟨hsystem, v, List.mem_cons_self .., hw⟩,
        fun f hf => (hout f hf).cons _⟩

theorem gives_required (r : Registry) (t : DocumentType) (data : Entries Value) (creating : Bool) :
    Gives (document r t data creating) fun out => (∀ f ∈ out, Given data f) ∧
      (creating = true → Complete t out) :=
  gives_document_of_fields creating (gives_given data)

end Coercion
end ContentEngine
