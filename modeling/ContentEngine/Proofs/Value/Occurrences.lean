import ContentEngine.Proofs.Value.Rendering

/-!
# Documents inside a value

A value can hold documents at any depth: in lists, in instances, and in the fields of other documents.
`Every P v` says that all of them have a property. What a document shows in a response depends on its
own fields only, and on the instance in which it stands: a field covers the member of the head that
has its name, and the tag of an instance covers a field.
-/

namespace ContentEngine

/-- `Within u v`: the value `u` is `v`, or a part of it. -/
inductive Value.Within (u : Value) : Value → Prop
  | self : Within u u
  | item (items : List Value) (v : Value) (hv : v ∈ items) (h : Within u v) : Within u (.list items)
  | field (d : Document) (f : String × Value) (hf : f ∈ d.fields) (h : Within u f.2) :
      Within u (.doc d)
  | tagged (tag : String) (v : Value) (h : Within u v) : Within u (.variant tag v)

/-- All documents in a value have the property, at any depth. -/
def Value.Every (P : Document → Prop) (v : Value) : Prop := ∀ d, Value.Within (.doc d) v → P d

/-- All documents that a document consists of have the property, itself included. -/
abbrev Document.Every (P : Document → Prop) (d : Document) : Prop := Value.Every P (.doc d)

namespace Value
variable {P : Document → Prop} {v : Value} {d : Document}

theorem Within.trans {u w : Value} (huv : Within u v) (hvw : Within v w) : Within u w := by
  induction hvw with
  | self => exact huv
  | item items w hw _ ih => exact .item items w hw ih
  | field d f hf _ ih => exact .field d f hf ih
  | tagged tag w _ ih => exact .tagged tag w ih

theorem every_of_leaf (hlist : ∀ items, v ≠ .list items) (hdoc : ∀ d, v ≠ .doc d)
    (hvariant : ∀ tag w, v ≠ .variant tag w) : Every P v := by
  intro d hd
  cases hd with
  | self => exact absurd rfl (hdoc d)
  | item items => exact absurd rfl (hlist items)
  | field d => exact absurd rfl (hdoc d)
  | tagged tag w => exact absurd rfl (hvariant tag w)

theorem every_null : Every P .null := every_of_leaf (by simp) (by simp) (by simp)

theorem every_text (s : String) : Every P (.text s) := every_of_leaf (by simp) (by simp) (by simp)

theorem every_ref (id : DocumentId) : Every P (.ref id) := every_of_leaf (by simp) (by simp) (by simp)

theorem every_list {items : List Value} : Every P (.list items) ↔ ∀ v ∈ items, Every P v := by
  constructor
  · intro h v hv d hd
    exact h d (.item items v hv hd)
  · intro h d hd
    cases hd with
    | item _ v hv hd => exact h v hv d hd

theorem every_variant {tag : String} : Every P (.variant tag v) ↔ Every P v := by
  constructor
  · intro h d hd
    exact h d (.tagged tag v hd)
  · intro h d hd
    cases hd with
    | tagged _ _ hd => exact h d hd

theorem every_doc : Every P (.doc d) ↔ P d ∧ ∀ f ∈ d.fields, Every P f.2 := by
  constructor
  · intro h
    exact ⟨h d .self, fun f hf e he => h e (.field d f hf he)⟩
  · rintro ⟨hd, hfields⟩ e he
    cases he with
    | self => exact hd
    | field _ f hf he => exact hfields f hf e he

end Value

/-! ## What a document shows -/

/-- A field of a document as a map; should several have the name, the last one counts. -/
def Document.field? (d : Document) (name : String) : Option Value :=
  Entries.get? (Entries.ofList d.fields) name

/-- The last entry of a key is the one that an insertion of all leaves. -/
theorem Entries.get?_insertAll_reverse {α : Type} (m l : Entries α) (k : String) :
    get? (insertAll m l) k = (get? l.reverse k <|> get? m k) := by
  induction l generalizing m with
  | nil => simp [insertAll]
  | cons e l ih =>
    have hlast : get? (insertAll m (e :: l)) k = (get? l.reverse k <|> get? (insert m e.1 e.2) k) :=
      ih _
    rw [hlast, List.reverse_cons, get?_append]
    by_cases hk : e.1 = k
    · rw [← hk]
      cases get? l.reverse e.1 <;> simp [get?]
    · rw [get?_insert_ne _ _ hk]
      cases get? l.reverse k <;> simp [get?, hk]

namespace Document
variable (d : Document)

theorem field?_eq_last (name : String) : d.field? name = Entries.get? d.fields.reverse name := by
  rw [field?, Entries.ofList, Entries.get?_insertAll_reverse]
  simp

theorem mem_of_field? {d : Document} {name : String} {v : Value} (h : d.field? name = some v) :
    (name, v) ∈ d.fields := by
  rw [field?_eq_last] at h
  exact List.mem_reverse.1 (Entries.mem_of_get? h)

/-- A member of a document is a field, or else one of the head. -/
theorem get?_toJson (key : String) :
    (Value.doc d).toJson.get? key =
      ((d.field? key).map Value.toJson <|> Entries.get? (Value.documentHead d.id d.status) key) := by
  obtain ⟨docType, id, status, fields⟩ := d
  have hrendered : Entries.get? (fields.map fun f => (f.1, f.2.toJson)).reverse key =
      (Entries.get? fields.reverse key).map Value.toJson := by
    rw [← List.map_reverse, Entries.get?_map]
  rw [field?_eq_last, Value.toJson, Json.get?, Value.toJsonFields_eq_insertAll,
    Entries.get?_insertAll_reverse, hrendered]

theorem get?_documentHead_id (id : DocumentId) (status : Option Status) :
    Entries.get? (Value.documentHead id status) documentIdName = some (.str id) := by
  cases status <;> rfl

theorem get?_documentHead_status (id : DocumentId) (status : Status) :
    Entries.get? (Value.documentHead id (some status)) "status" = some (.str status.label) :=
  Entries.get?_insert_self ..

/-- What an object tells of the document that it stands for; `tag` is that of the instance in which
the document stands, if it stands in one. -/
structure ShownAs (d : Document) (tag : Option String) (o : Json) : Prop where
  identity : o.get? documentIdName = some (.str d.id)
  status : ∀ s, d.status = some s →
    (o.get? "status" = some (.str s.label) ↔ ∀ v, d.field? "status" = some v → v.toJson = .str s.label)
  field : ∀ name v, d.field? name = some v →
    (o.get? name = some v.toJson ↔ ∀ t, tag = some t → name = componentKey → v.toJson = .str t)

variable {d : Document}

theorem shownAs_document (hid : ∀ f ∈ d.fields, f.1 ≠ documentIdName) :
    d.ShownAs none (Value.doc d).toJson := by
  constructor
  case identity =>
    have hnone : d.field? documentIdName = none := by
      cases hfield : d.field? documentIdName with
      | none => rfl
      | some v => exact absurd rfl (hid _ (mem_of_field? hfield))
    rw [get?_toJson, hnone]
    exact get?_documentHead_id d.id d.status
  case status =>
    intro s hs
    rw [get?_toJson, hs, get?_documentHead_status]
    cases d.field? "status" <;> simp
  case field =>
    intro name v hv
    rw [get?_toJson, hv]
    simp

/-- The tag of an instance is written last. -/
theorem shownAs_instance (hid : ∀ f ∈ d.fields, f.1 ≠ documentIdName) (tag : String) :
    d.ShownAs (some tag) (Value.variant tag (.doc d)).toJson := by
  have hbare := shownAs_document hid
  constructor
  case identity => rw [Value.get?_toJson_document tag d (by decide), hbare.identity]
  case status =>
    intro s hs
    rw [Value.get?_toJson_document tag d (by decide)]
    exact hbare.status s hs
  case field =>
    intro name v hv
    by_cases hname : componentKey = name
    · subst hname
      rw [Value.get?_toJson_tag]
      simp [eq_comm]
    · rw [Value.get?_toJson_document tag d hname, hbare.field name v hv]
      simp [Ne.symm hname]

/-- The document is a part of the root, in an instance of the tag if there is one; the object is what
that part renders to. -/
inductive Renders (root d : Document) : Option String → Json → Prop
  | bare (h : Value.Within (.doc d) (.doc root)) : Renders root d none (Value.doc d).toJson
  | tagged (tag : String) (h : Value.Within (.variant tag (.doc d)) (.doc root)) :
      Renders root d (some tag) (Value.variant tag (.doc d)).toJson

theorem Renders.within {root : Document} {tag : Option String} {o : Json} (h : root.Renders d tag o) :
    Value.Within (.doc d) (.doc root) := by
  cases h with
  | bare h => exact h
  | tagged tag h => exact Value.Within.trans (.tagged tag _ .self) h

theorem Renders.shownAs {root : Document} {tag : Option String} {o : Json} (h : root.Renders d tag o)
    (hid : ∀ f ∈ d.fields, f.1 ≠ documentIdName) : d.ShownAs tag o := by
  cases h with
  | bare => exact shownAs_document hid
  | tagged tag => exact shownAs_instance hid tag

end Document
end ContentEngine
