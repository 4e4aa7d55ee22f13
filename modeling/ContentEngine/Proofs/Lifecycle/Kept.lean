import ContentEngine.Proofs.Lifecycle.Rewriting
import Mathlib.Logic.Relation

/-!
# Declared attributes are kept

Coercion writes what it is given for a declared attribute, or it fails. The names of the system
attributes are the exception, whatever the type declares under them. A component can be given as an
object of JSON or as an instance with its tag, and becomes the same either way.
-/

namespace ContentEngine

namespace Value

/-- Without some members, the fields that an object gives are not deeper than the object. -/
theorem depthFields_filter_le (keep : String × Json → Bool) (members : List (String × Json)) :
    depthFields ((members.filter keep).map fun m => (m.1, ofJson m.2)) ≤
      Json.depthMembers members := by
  induction members with
  | nil => exact Nat.le_refl _
  | cons m members ih =>
    obtain ⟨key, j⟩ := m
    rw [List.filter_cons, Json.depthMembers]
    split
    · simp only [List.map_cons, depthFields, depth_ofJson]
      omega
    · exact Nat.le_trans ih (Nat.le_max_right ..)

end Value

namespace Coercion
variable {α β : Type} {r : Registry} {t : DocumentType} {site : Site} {tags : Names}

/-! ## Levels of components -/

theorem liftM_bind_congr {x : Except SchemaError α} {f g : α → Coercion β}
    (h : ∀ a, x = .ok a → f a = g a) :
    (liftM x : Coercion α) >>= f = (liftM x : Coercion α) >>= g := by
  cases x with
  | error e => rfl
  | ok a => exact h a rfl

theorem liftM_ok_bind (a : α) (f : α → Coercion β) :
    (liftM (Except.ok a : Except SchemaError α) : Coercion α) >>= f = f a := rfl

theorem items_eq_ok {expected : String} {v : Value} {vs : List Value}
    (h : items site expected v = .ok vs) : v = .list vs := by
  cases v with
  | list ws => exact congrArg Value.list (Except.ok.inj h)
  | _ => cases h

theorem mapItems_congr {f g : Value → Coercion Value} {vs : List Value}
    (h : ∀ v ∈ vs, f v = g v) : mapItems f vs = mapItems g vs := by
  induction vs with
  | nil => rfl
  | cons v vs ih =>
    rw [mapItems, mapItems, h v List.mem_cons_self,
      ih fun w hw => h w (List.mem_cons_of_mem _ hw)]

/-- A value is coerced the same by two ways to coerce components that agree down to its depth. -/
theorem value_congr {e e' : Names → Value → Coercion Value} {kind : AttributeKind} {v : Value}
    (h : ∀ tags w, w.depth ≤ v.depth → e tags w = e' tags w) :
    value site e kind v = value site e' kind v := by
  unfold value
  split
  · rfl
  · cases kind with
    | dynamicZone tags =>
      refine liftM_bind_congr fun vs hvs => ?_
      obtain rfl := items_eq_ok hvs
      have hitems : mapItems (e tags) vs = mapItems (e' tags) vs :=
        mapItems_congr fun w hw =>
          h tags w (Nat.le_trans (Value.depth_le_depthItems hw) (Nat.le_succ _))
      rw [hitems]
    | _ => rfl

theorem fields_congr {e e' : Site → Names → Value → Coercion Value} {data : List (String × Value)}
    (h : ∀ site tags w, w.depth ≤ Value.depthFields data → e site tags w = e' site tags w) :
    fields e t data = fields e' t data := by
  induction data with
  | nil => rfl
  | cons f data ih =>
    obtain ⟨name, v⟩ := f
    have hrest := ih fun site tags w hw => h site tags w (Nat.le_trans hw (Nat.le_max_right ..))
    have hvalue : ∀ site kind, value site (e site) kind v = value site (e' site) kind v :=
      fun site kind => value_congr fun tags w hw =>
        h site tags w (Nat.le_trans hw (Nat.le_max_left ..))
    simp only [fields, hrest, hvalue]

theorem depth_of_component {v : Value} {tag : String} {data : Entries Value}
    (h : component site v = .ok (tag, data)) : Value.depthFields data < v.depth := by
  cases v with
  | variant tag' w =>
    cases w with
    | doc d =>
      obtain ⟨-, rfl⟩ := Prod.mk.inj (Except.ok.inj h)
      exact Nat.lt_succ_of_lt (Nat.lt_succ_self _)
    | _ => cases h
  | json j =>
    cases j with
    | obj members =>
      simp only [component] at h
      cases htag : (Entries.get? members componentKey).bind Json.asStr? with
      | none => simp [htag, Site.invalid] at h
      | some tag' =>
        simp only [htag, Except.ok.injEq, Prod.mk.injEq] at h
        obtain ⟨-, rfl⟩ := h
        exact Nat.lt_succ_of_le (Value.depthFields_filter_le _ members)
    | _ => cases h
  | _ => cases h

/-- An instance of a dynamic zone is a document of its type, written anew. -/
def embedded (r : Registry) (site : Site) (tags : Names) (v : Value) : Coercion Value := do
  let (tag, data) ← liftM (component site v)
  liftM (checkTag site tags tag)
  let t ← liftM (r.get tag)
  let data ← document r t data true
  let n ← get
  set (n + 1)
  return .variant tag (.doc ⟨tag, DocumentId.generated (2 * n + 1), none, data⟩)

/-- The levels do not show once they are enough for the value. The induction is on the levels; those
of a document are as many as its data has, and so they are fewer. -/
theorem embed_eq_embedded {depth : Nat} {v : Value} (h : v.depth ≤ depth) :
    embed r depth site tags v = embedded r site tags v := by
  induction depth using Nat.strongRecOn generalizing site tags v with
  | ind depth ih =>
    cases depth with
    | zero =>
      unfold embed embedded
      cases v with
      | json j =>
        cases j with
        | obj members => exact absurd h (Nat.not_succ_le_zero _)
        | arr items => exact absurd h (Nat.not_succ_le_zero _)
        | _ => rfl
      | variant tag w => exact absurd h (Nat.not_succ_le_zero _)
      | _ => rfl
    | succ depth =>
      unfold embed embedded
      refine liftM_bind_congr fun shape hshape => ?_
      obtain ⟨tag, data⟩ := shape
      have hless : Value.depthFields data ≤ depth :=
        Nat.le_of_lt_succ (Nat.lt_of_lt_of_le (depth_of_component hshape) h)
      have hfields : ∀ t, fields (embed r depth) t data =
          fields (embed r (Value.depthFields data)) t data := fun t =>
        fields_congr fun site tags w hw => by
          rw [ih depth (Nat.lt_succ_self _) (Nat.le_trans hw hless),
            ih _ (Nat.lt_succ_of_le hless) hw]
      simp only [document, hfields, if_true, bind_assoc]

theorem fields_embed_eq (data : List (String × Value)) :
    fields (embed r (Value.depthFields data)) t data = fields (embedded r) t data :=
  fields_congr fun _ _ _ hw => embed_eq_embedded hw

theorem document_eq (data : Entries Value) (creating : Bool) :
    document r t data creating = do
      let data ← fields (embedded r) t data
      if creating then liftM (checkRequired t data) else return data := by
  rw [document, fields_embed_eq]

/-! ## What is written -/

/-- Started with some number, the coercion gives this. -/
def CanGive (m : Coercion α) (a : α) : Prop := ∃ n n', m.run n = .ok (a, n')

theorem gives_canGive (m : Coercion α) : Gives m (CanGive m) := fun n _ n' h => ⟨n, n', h⟩

/-- What is written for a name is the value that was given for it, in the form of the attribute. -/
theorem gives_fields_values {e : Site → Names → Value → Coercion Value}
    (data : List (String × Value)) : Gives (fields e t data) fun out =>
      ∀ name v, name ∉ systemNames → Entries.get? data name = some v →
        ∃ a w, t.attr? name = some a ∧ Entries.get? out name = some w ∧
          CanGive (value ⟨t.name, name⟩ (e ⟨t.name, name⟩) a.kind v) w := by
  induction data with
  | nil => exact gives_pure (by simp)
  | cons f data ih =>
    obtain ⟨first, v⟩ := f
    unfold fields
    split
    · rename_i hfirst
      intro n out n' h name w hname hw
      have hne : first ≠ name := fun heq => hname (heq ▸ hfirst)
      rw [Entries.get?, if_neg hne] at hw
      exact ih n out n' h name w hname hw
    · refine (gives_liftM fun a => DocumentType.getAttr_eq_ok_iff.1).bind fun a ha => ?_
      refine (gives_canGive _).bind fun w hw => ih.bind fun out hout => gives_pure ?_
      intro name u hname hu
      by_cases heq : first = name
      · subst heq
        rw [Entries.get?, if_pos rfl] at hu
        obtain rfl := Option.some.inj hu
        exact ⟨a, w, ha, if_pos rfl, hw⟩
      · rw [Entries.get?, if_neg heq] at hu ⊢
        exact hout name u hname hu

/-! ## Components as objects and as instances -/

mutual
/-- One component that is given as an object of JSON is given as an instance with its tag instead,
or one in the fields of an instance is. -/
inductive Retypes (r : Registry) : Value → Value → Prop
  | typed (members : List (String × Json)) (d : Document) (tag : String)
      (htag : Entries.get? members componentKey = some (.str tag))
      (hfields : d.fields = (Entries.erase (Entries.erase members componentKey) "id").map
        fun m => (m.1, Value.ofJson m.2)) : Retypes r (.json (.obj members)) (.variant tag (.doc d))
  | inside (tag : String) (t : DocumentType) (d e : Document) (ht : r.get? tag = some t)
      (h : RetypesField r t d.fields e.fields) : Retypes r (.variant tag (.doc d)) (.variant tag (.doc e))

inductive RetypesItem (r : Registry) : List Value → List Value → Prop
  | here (v w : Value) (vs : List Value) (h : Retypes r v w) : RetypesItem r (v :: vs) (w :: vs)
  | later (v : Value) (vs ws : List Value) (h : RetypesItem r vs ws) :
      RetypesItem r (v :: vs) (v :: ws)

/-- The component is an item of a dynamic zone of the type. -/
inductive RetypesField (r : Registry) :
    DocumentType → List (String × Value) → List (String × Value) → Prop
  | here (t : DocumentType) (a : AttributeDefinition) (name : String) (tags : Names)
      (vs ws : List Value) (data : List (String × Value)) (ha : t.attr? name = some a)
      (hkind : a.kind = .dynamicZone tags) (h : RetypesItem r vs ws) :
      RetypesField r t ((name, .list vs) :: data) ((name, .list ws) :: data)
  | later (t : DocumentType) (f : String × Value) (data data' : List (String × Value))
      (h : RetypesField r t data data') : RetypesField r t (f :: data) (f :: data')
end

theorem erase_component (members : List (String × Json)) :
    (Entries.erase (Entries.erase members componentKey) "id").map
      (fun m => (m.1, Value.ofJson m.2)) = componentFields members := by
  rw [componentFields, Entries.erase, Entries.erase, List.filter_filter]
  congr 2
  funext m
  simp [Bool.and_comm]

mutual
theorem embedded_retypes : ∀ {v w}, Retypes r v w → ∀ site tags,
    embedded r site tags v = embedded r site tags w
  | _, _, .typed members d tag htag hfields, site, tags => by
    have hcomponent : component site (.json (.obj members)) =
        component site (.variant tag (.doc d)) := by
      simp [component, htag, Json.asStr?, hfields, erase_component]
    unfold embedded
    rw [hcomponent]
  | _, _, .inside tag t d e ht h, site, tags => by
    have hdocument : document r t d.fields true = document r t e.fields true := by
      rw [document_eq, document_eq, fields_retypes h]
    unfold embedded
    simp only [component, liftM_ok_bind]
    refine liftM_bind_congr fun _ _ => liftM_bind_congr fun u hu => ?_
    obtain rfl := Option.some.inj (ht.symm.trans (Registry.get_eq_ok_iff.1 hu))
    rw [hdocument]

theorem mapItems_retypes : ∀ {vs ws}, RetypesItem r vs ws → ∀ site tags,
    mapItems (embedded r site tags) vs = mapItems (embedded r site tags) ws
  | _, _, .here v w vs h, site, tags => by rw [mapItems, mapItems, embedded_retypes h site tags]
  | _, _, .later v vs ws h, site, tags => by rw [mapItems, mapItems, mapItems_retypes h site tags]

theorem fields_retypes : ∀ {t data data'}, RetypesField r t data data' →
    fields (embedded r) t data = fields (embedded r) t data'
  | t, _, _, .here _ a name tags vs ws data ha hkind h => by
    have hitems := mapItems_retypes h ⟨t.name, name⟩ tags
    have hvalue : value ⟨t.name, name⟩ (embedded r ⟨t.name, name⟩) a.kind (.list vs) =
        value ⟨t.name, name⟩ (embedded r ⟨t.name, name⟩) a.kind (.list ws) := by
      rw [hkind]
      simp only [value, Value.isNull, items, liftM_ok_bind, hitems]
      rfl
    rw [fields, fields]
    split
    · rfl
    · refine liftM_bind_congr fun b hb => ?_
      obtain rfl := Option.some.inj (ha.symm.trans (DocumentType.getAttr_eq_ok_iff.1 hb))
      rw [hvalue]
  | _, _, _, .later _ (name, v) data data' h => by rw [fields, fields, fields_retypes h]
end

theorem document_retypes {data data' : Entries Value} (h : RetypesField r t data data')
    (creating : Bool) : document r t data creating = document r t data' creating := by
  rw [document_eq, document_eq, fields_retypes h]

/-! ## Documents -/

/-- The attribute's form of a value, with some identifiers for the components in it. -/
def Coerced (r : Registry) (t : DocumentType) (a : AttributeDefinition) (v w : Value) : Prop :=
  CanGive (value ⟨t.name, a.name⟩ (embedded r ⟨t.name, a.name⟩) a.kind v) w

/-- What is given for an attribute is written. -/
theorem gives_coerced (data : Entries Value) (creating : Bool) :
    Gives (document r t data creating) fun out =>
      ∀ a, t.attr? a.name = some a → a.name ∉ systemNames →
        ∀ v, Entries.get? data a.name = some v →
          ∃ w, Entries.get? out a.name = some w ∧ Coerced r t a v w := by
  have hfields := gives_fields_values (e := embedded r) (t := t) data
  rw [← fields_embed_eq] at hfields
  refine (gives_document_of_fields creating hfields).imp fun out hout => ?_
  intro a ha hname v hv
  obtain ⟨b, w, hb, hw, hgive⟩ := hout.1 a.name v hname hv
  obtain rfl := Option.some.inj (ha.symm.trans hb)
  exact ⟨w, hw, hgive⟩

/-- Nothing is written for the system's names, or for names that are not given. -/
theorem gives_none (data : Entries Value) (creating : Bool) :
    Gives (document r t data creating) fun out =>
      ∀ name, name ∈ systemNames ∨ Entries.get? data name = none →
        Entries.get? out name = none := by
  refine (gives_required r t data creating).imp fun out hout name hname => ?_
  rw [Entries.get?_eq_none_iff]
  intro hmem
  obtain ⟨f, hf, rfl⟩ := List.mem_map.1 hmem
  obtain ⟨hsystem, v, hv, -⟩ := hout.1 f hf
  rcases hname with hname | hname
  · exact hsystem hname
  · exact Entries.get?_eq_none_iff.1 hname (List.mem_map.2 ⟨_, hv, rfl⟩)

theorem mem_systemNames {u : DocumentType} {a : AttributeDefinition}
    (h : a ∈ u.systemAttributes) : a.name ∈ systemNames := by
  unfold DocumentType.systemAttributes at h
  split at h
  · cases h
  · split at h <;> simp only [List.mem_append, List.mem_cons, List.not_mem_nil, or_false] at h
    · rcases h with (rfl | rfl | rfl) | rfl <;> simp [systemNames]
    · rcases h with rfl | rfl | rfl <;> simp [systemNames]

/-- In a document or component that is written, each attribute that the type was given with, under
a name that is none of a system attribute, has the value that was given for it, in its form. The
system attributes of the type are left out, and nothing else is written. Components are written as
documents of their types, and whether they are given as objects or as instances makes no
difference. -/
theorem declared_data_kept {types : List DocumentType} (hbuild : Registry.build types = .ok r) :
    (∀ u ∈ types, ∀ data creating n out n',
      (document r u.withSystemAttributes data creating).run n = .ok (out, n') →
        (∀ a ∈ u.attributes, a.name ∉ systemNames → ∀ v, Entries.get? data a.name = some v →
          ∃ w, Entries.get? out a.name = some w ∧ Coerced r u.withSystemAttributes a v w) ∧
        (∀ a ∈ u.systemAttributes, Entries.get? out a.name = none) ∧
        ∀ name, Entries.get? data name = none → Entries.get? out name = none) ∧
    (∀ depth site tags v, v.depth ≤ depth → embed r depth site tags v = embedded r site tags v) ∧
    ∀ t data data', Relation.ReflTransGen (RetypesField r t) data data' → ∀ creating,
      document r t data creating = document r t data' creating := by
  refine ⟨?_, fun _ _ _ _ => embed_eq_embedded, ?_⟩
  · intro u hu data creating n out n' h
    refine ⟨fun a ha hname => ?_, fun a ha => ?_, fun name hname => ?_⟩
    · have hmem : a ∈ u.withSystemAttributes.attributes := List.mem_append_left _ ha
      have hattr := Registry.attr?_of_build hbuild (Registry.registered_of_build hbuild hu) hmem
      exact gives_coerced data creating n out n' h a hattr hname
    · exact gives_none data creating n out n' h a.name (.inl (mem_systemNames ha))
    · exact gives_none data creating n out n' h name (.inr hname)
  · intro t data data' h creating
    induction h with
    | refl => rfl
    | tail _ hstep ih => exact ih.trans (document_retypes hstep creating)

/-- An article with a publication time, and an opening block that is given in two ways. -/
theorem declared_data_kept_blog :
    let hero : List (String × Json) := [("__component", .str "blocks.hero"), ("heading", .str "Hi")]
    let typed : Document := ⟨"blocks.hero", "c", none, [("heading", .text "Hi")]⟩
    let given (item : Value) : Entries Value :=
      [("blocks", .list [item]), ("publishedAt", .text "mine"), ("title", .text "One")]
    let article := Blog.article.withSystemAttributes
    let out : Entries Value := [("blocks", .list [.variant "blocks.hero"
      (.doc ⟨"blocks.hero", DocumentId.generated 1, none, [("heading", .text "Hi")]⟩)]),
      ("title", .text "One")]
    (document Blog.registry article (given (.json (.obj hero))) true).run 0 = .ok (out, 1) ∧
      (∃ w, Entries.get? out "title" = some w ∧
        Coerced Blog.registry article (Blog.field "title" .text true) (.text "One") w) ∧
      Entries.get? out publishedAtName = none ∧ Entries.get? out "slug" = none ∧
      document Blog.registry article (given (.json (.obj hero))) true =
        document Blog.registry article (given (.variant "blocks.hero" (.doc typed))) true := by
  intro hero typed given article out
  have hrun : (document Blog.registry article (given (.json (.obj hero))) true).run 0 =
    .ok (out, 1) := rfl
  obtain ⟨hkept, -, hretyped⟩ := declared_data_kept Blog.build_types
  obtain ⟨hdeclared, hsystem, habsent⟩ :=
    hkept Blog.article (List.mem_cons_self ..) _ true 0 out 1 hrun
  have hstep : RetypesField Blog.registry article (given (.json (.obj hero)))
      (given (.variant "blocks.hero" (.doc typed))) :=
    .here _ ⟨"blocks", .dynamicZone ["blocks.cta", "blocks.hero"], false⟩ _ _ _ _ _ rfl rfl
      (.here _ _ _ (.typed _ _ _ rfl rfl))
  exact ⟨hrun, hdeclared (Blog.field "title" .text true) (by decide) (by decide) _ rfl,
    hsystem ⟨publishedAtName, .scalar .datetime, false⟩ (by decide), habsent "slug" rfl,
    hretyped _ _ _ (.single hstep) true⟩

/-- A type without drafts can declare a publication time of its own, which is left out of its
documents; so is an attribute of a component that is named as its identifier, but only if the
component is given as an object. -/
theorem declared_names_left_out :
    let part : DocumentType := ⟨"part", .component, false, [Blog.field "id" .text], []⟩
    let note : DocumentType := ⟨"note", .collection, false,
      [Blog.field "publishedAt" .text, ⟨"zone", .dynamicZone ["part"], false⟩], []⟩
    let r : Registry := ⟨[("note", note.withSystemAttributes), ("part", part)]⟩
    let data (item : Value) : Entries Value := [("publishedAt", .text "mine"), ("zone", .list [item])]
    let out (fields : Entries Value) : Entries Value :=
      [("zone", .list [.variant "part" (.doc ⟨"part", DocumentId.generated 1, none, fields⟩)])]
    Registry.build [note, part] = .ok r ∧
      (document r note.withSystemAttributes
        (data (.json (.obj [("__component", .str "part"), ("id", .str "x")]))) true).run 0 =
          .ok (out [], 1) ∧
      (document r note.withSystemAttributes
        (data (.variant "part" (.doc ⟨"part", "c", none, [("id", .text "x")]⟩))) true).run 0 =
          .ok (out [("id", .text "x")], 1) :=
  ⟨rfl, rfl, rfl⟩

end Coercion
end ContentEngine
