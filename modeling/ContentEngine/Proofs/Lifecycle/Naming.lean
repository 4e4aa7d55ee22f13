import ContentEngine.Proofs.Lifecycle.Conformity
import ContentEngine.Proofs.Value.Occurrences

/-!
# The names of fields

A document has fields under the names that its type declares, and the stamps of the store. No field
has the name of the identifier, although the type declares that name as well: coercion leaves out
whatever is given under it, in a document and in each of its components.
-/

namespace ContentEngine

/-- The field is a stamp or declared by the type, and does not have the name of the identifier. -/
structure FieldNamed (r : Registry) (docType : String) (f : String × Value) : Prop where
  ne_documentId : f.1 ≠ documentIdName
  known : f.1 ∈ stampNames ∨ (r.get? docType).bind (·.attr? f.1) ≠ none

def Document.Named (r : Registry) (d : Document) : Prop := ∀ f ∈ d.fields, FieldNamed r d.docType f

namespace Document
variable {r : Registry} {d : Document}

theorem every_named_iff : d.Every (Named r) ↔
    ∀ f ∈ d.fields, FieldNamed r d.docType f ∧ f.2.Every (Named r) := by
  rw [Document.Every, Value.every_doc, Named, ← forall₂_and]

/-- What the type does not declare, and is no stamp, the document does not have. -/
theorem Named.field?_eq_none (h : d.Named r) {name : String} (hstamp : name ∉ stampNames)
    (hname : (r.get? d.docType).bind (·.attr? name) = none) : d.field? name = none := by
  cases hfield : d.field? name with
  | none => rfl
  | some v =>
    rcases (h _ (mem_of_field? hfield)).known with hstamped | hdeclared
    · exact absurd hstamped hstamp
    · exact absurd hname hdeclared

end Document

namespace Coercion
variable {r : Registry} {t : DocumentType} {P : Document → Prop}

/-- The field is declared and none of the system's, and documents in it have fields that are named
by their types. -/
structure Declares (r : Registry) (t : DocumentType) (f : String × Value) : Prop where
  system : f.1 ∉ systemNames
  declared : t.attr? f.1 ≠ none
  inside : f.2.Every (Document.Named r)

theorem Declares.named {f : String × Value} (h : Declares r t f) {docType : String}
    (ht : r.get? docType = some t) : FieldNamed r docType f where
  ne_documentId hname := h.system (hname ▸ List.mem_cons_self)
  known := .inr (by rw [ht]; exact h.declared)

/-- Scalars hold no documents, whatever the schema. -/
theorem every_of_scalar {site : Site} {kind : ScalarKind} {v w : Value}
    (h : scalar site kind v = .ok w) : w.Every P := by
  have hfits : Fits ⟨[]⟩ (.scalar kind) w := fits_scalar h
  apply Value.every_of_leaf
  · rintro items rfl
    cases hfits
  · rintro d rfl
    cases hfits
  · rintro tag u rfl
    cases hfits

theorem gives_every_value {site : Site} {embed : Names → Value → Coercion Value}
    (hembed : ∀ tags v, Gives (embed tags v) (Value.Every P)) (kind : AttributeKind) (v : Value) :
    Gives (value site embed kind v) (Value.Every P) := by
  have hlist : ∀ {f : Value → Coercion Value}, (∀ v, Gives (f v) (Value.Every P)) → ∀ vs,
      Gives (do return .list (← mapItems f vs)) (Value.Every P) := fun hf vs =>
    (gives_mapItems hf vs).bind fun ws hws => gives_pure (Value.every_list.2 hws)
  unfold value
  by_cases hnull : v.isNull
  · rw [if_pos hnull]
    exact gives_pure Value.every_null
  · rw [if_neg hnull]
    cases kind with
    | scalar kind => exact gives_liftM fun w hw => every_of_scalar hw
    | relationOne target =>
      refine gives_liftM fun w hw => ?_
      obtain ⟨id, rfl⟩ := reference_eq_ok hw
      exact Value.every_ref id
    | relationMany target =>
      refine (gives_true _).bind fun vs _ => hlist (fun v => gives_liftM fun w hw => ?_) vs
      obtain ⟨id, rfl⟩ := reference_eq_ok hw
      exact Value.every_ref id
    | polymorphic tags =>
      refine (gives_true _).bind fun vs _ => hlist (fun v => gives_liftM fun w hw => ?_) vs
      obtain ⟨tag, id, -, rfl⟩ := morph_eq_ok hw
      exact Value.every_variant.2 (Value.every_ref id)
    | dynamicZone tags => exact (gives_true _).bind fun vs _ => hlist (hembed tags) vs

theorem gives_declared {embed : Site → Names → Value → Coercion Value}
    (hembed : ∀ site tags v, Gives (embed site tags v) (Value.Every (Document.Named r)))
    (data : List (String × Value)) :
    Gives (fields embed t data) fun out => ∀ f ∈ out, Declares r t f := by
  induction data with
  | nil => exact gives_pure (List.forall_mem_nil _)
  | cons e data ih =>
    obtain ⟨name, v⟩ := e
    unfold fields
    by_cases hsystem : name ∈ systemNames
    · rw [if_pos hsystem]
      exact ih
    · rw [if_neg hsystem]
      refine (gives_liftM fun a => DocumentType.getAttr_eq_ok_iff.1).bind fun a ha => ?_
      refine (gives_every_value (hembed _) a.kind v).bind fun w hw => ?_
      refine ih.bind fun out hout => gives_pure (List.forall_mem_cons.2 ⟨?_, hout⟩)
      exact ⟨hsystem, by simp [ha], hw⟩

/-- The induction is on the levels that are left for components inside of components. -/
theorem gives_named_embed (depth : Nat) (site : Site) (tags : Names) (v : Value) :
    Gives (embed r depth site tags v) (Value.Every (Document.Named r)) := by
  induction depth generalizing site tags v with
  | zero => exact gives_liftM fun w hw => absurd hw (by simp [Site.invalid])
  | succ depth ih =>
    unfold embed
    refine (gives_true _).bind fun shape _ => (gives_true _).bind fun _ _ => ?_
    refine (gives_liftM fun t => Registry.get_eq_ok_iff.1).bind fun t ht => ?_
    refine (gives_declared ih shape.2).bind fun coerced hcoerced => ?_
    refine (gives_liftM (P := fun out => out = coerced) fun out hout =>
      (checkRequired_eq_ok_iff.1 hout).1).bind fun out hout => ?_
    refine (gives_true _).bind fun n _ => (gives_true _).bind fun _ _ => gives_pure ?_
    subst hout
    exact Value.every_variant.2 (Document.every_named_iff.2 fun f hf =>
      ⟨(hcoerced f hf).named ht, (hcoerced f hf).inside⟩)

theorem gives_declared_document (r : Registry) (t : DocumentType) (data : Entries Value)
    (creating : Bool) :
    Gives (document r t data creating) fun out => ∀ f ∈ out, Declares r t f :=
  (gives_document_of_fields creating (gives_declared (gives_named_embed _) data)).imp fun _ h => h.1

end Coercion
end ContentEngine
