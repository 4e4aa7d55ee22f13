import ContentEngine.Populate.Parser
import ContentEngine.Predicate.Cache
import ContentEngine.Proofs.Lifecycle.Conformity
import ContentEngine.Schema.Reader

/-!
# Registries are closed

A registry that was built has every type that its types name. So a filter that is compiled against
one of them, or data that is coerced to it, can be wrong in many ways, but no unknown type comes up
on the way: each type that is looked up is the target of an attribute.
-/

namespace ContentEngine

def SchemaError.isUnknownType : SchemaError → Bool
  | .unknownType _ => true
  | _ => false

def FilterError.isUnknownType : FilterError → Bool
  | .schema e => e.isUnknownType
  | .operator _ => false

def PopulateError.isUnknownType : PopulateError → Bool
  | .schema e => e.isUnknownType
  | .filter e => e.isUnknownType
  | _ => false

namespace Registry

/-- The registries that there are: built from types, or read from a schema document. -/
inductive Accepted : Registry → Prop
  | built (types : List DocumentType) (r : Registry) (h : build types = .ok r) : Accepted r
  | read (text : String) (r : Registry) (h : Schema.ofText text = .ok r) : Accepted r

variable {r : Registry} {name : String} {t : DocumentType}

theorem Accepted.exists_types (h : r.Accepted) : ∃ types, build types = .ok r := by
  cases h with
  | built types r h => exact ⟨types, h⟩
  | read text r h =>
    unfold Schema.ofText at h
    simp only at h
    split at h
    · exact absurd h (by simp)
    · obtain ⟨types, -, hbuild⟩ := Except.bind_eq_ok_iff.1 h
      exact ⟨types, hbuild⟩

theorem Accepted.closed (h : r.Accepted) : r.Closed :=
  closed_of_build h.exists_types.choose_spec

theorem Accepted.attr? (h : r.Accepted) (ht : r.get? name = some t) {a : AttributeDefinition}
    (ha : a ∈ t.attributes) : t.attr? a.name = some a :=
  attr?_of_build h.exists_types.choose_spec ht ha

theorem Accepted.default (h : r.Accepted) (ht : r.get? name = some t) {attr : String}
    (hattr : attr ∈ t.defaultPopulate) :
    ∃ a, t.attr? attr = some a ∧ a.kind.isPopulatable = true :=
  default_of_build h.exists_types.choose_spec ht hattr

end Registry

theorem DocumentType.getAttr_known {t : DocumentType} {name : String} {e : SchemaError}
    (h : t.getAttr name = .error e) : e.isUnknownType = false := by
  unfold getAttr at h
  cases hattr : t.attr? name with
  | some a =>
    rw [hattr] at h
    exact absurd h (by simp)
  | none =>
    rw [hattr] at h
    obtain rfl := Except.error.inj h
    rfl

/-! ## Filters -/

section
variable {r : Registry} {name : String} {t : DocumentType}

/-- Every segment of a path but the last one leads to a type that is registered. -/
theorem resolvePath_known (hr : r.Closed) (ht : r.get? name = some t) {segments : List String}
    {e : SchemaError} (h : resolvePath r t segments = .error e) : e.isUnknownType = false := by
  induction segments generalizing name t with
  | nil =>
    obtain rfl := Except.error.inj h
    rfl
  | cons segment segments ih =>
    cases segments with
    | nil =>
      unfold resolvePath at h
      cases ha : t.getAttr segment with
      | error e' =>
        rw [ha] at h
        obtain rfl := Except.error.inj h
        exact DocumentType.getAttr_known ha
      | ok a =>
        rw [ha] at h
        exact absurd h (by simp)
    | cons next rest =>
      unfold resolvePath at h
      cases ha : t.getAttr segment with
      | error e' =>
        rw [ha] at h
        obtain rfl := Except.error.inj h
        exact DocumentType.getAttr_known ha
      | ok a =>
        simp only [ha] at h
        cases htarget : a.kind.relationTarget? with
        | none =>
          simp only [htarget] at h
          obtain rfl := Except.error.inj h
          rfl
        | some target =>
          obtain ⟨u, hu, -⟩ := hr.relationTarget ht (DocumentType.mem_of_getAttr ha) htarget
          simp only [htarget, Registry.get_eq_ok_iff.2 hu] at h
          cases hrest : resolvePath r u (next :: rest) with
          | error e' =>
            simp only [hrest] at h
            obtain rfl := Except.error.inj h
            exact ih hu hrest
          | ok p =>
            simp only [hrest] at h
            exact absurd h (by simp)

namespace Filter

mutual
theorem compile_known (hr : r.Closed) (ht : r.get? name = some t) :
    (f : Filter) → ∀ e, f.compile r t = .error e → e.isUnknownType = false
  | .and children, e, h => by
    rw [compile] at h
    split at h
    · obtain rfl := Except.error.inj h
      rfl
    · exact compileAll_known hr ht children e (Except.map_eq_error_iff.1 h)
  | .or children, e, h => by
    rw [compile] at h
    split at h
    · obtain rfl := Except.error.inj h
      rfl
    · exact compileAll_known hr ht children e (Except.map_eq_error_iff.1 h)
  | .not child, e, h => by
    rw [compile] at h
    exact compile_known hr ht child e (Except.map_eq_error_iff.1 h)
  | .leaf path op operand, e, h => by
    rw [compile] at h
    cases hpath : resolvePath r t (Text.split '.' path) with
    | error e' =>
      simp only [hpath] at h
      obtain rfl := Except.error.inj h
      exact resolvePath_known hr ht hpath
    | ok p =>
      simp only [hpath] at h
      split at h
      · obtain rfl := Except.error.inj h
        rfl
      · exact absurd h (by simp)

theorem compileAll_known (hr : r.Closed) (ht : r.get? name = some t) :
    (fs : List Filter) → ∀ e, compileAll r t fs = .error e → e.isUnknownType = false
  | [], e, h => absurd h (by simp [compileAll])
  | f :: fs, e, h => by
    rw [compileAll] at h
    cases hf : compile r t f with
    | error e' =>
      simp only [hf] at h
      obtain rfl := Except.error.inj h
      exact compile_known hr ht f e' hf
    | ok p =>
      simp only [hf] at h
      cases hfs : compileAll r t fs with
      | error e' =>
        simp only [hfs] at h
        obtain rfl := Except.error.inj h
        exact compileAll_known hr ht fs e' hfs
      | ok ps =>
        simp only [hfs] at h
        exact absurd h (by simp)
end

end Filter

/-- Whatever the cache holds, an error is that of the compilation. -/
theorem PredicateCache.getOrCompile_known (hr : r.Closed) (ht : r.get? name = some t)
    {cache : PredicateCache} {f : Filter} {e : FilterError}
    (h : (cache.getOrCompile r t f).1 = .error e) : e.isUnknownType = false := by
  have hcompile : f.compile r t = .error e := by
    unfold getOrCompile at h
    by_cases hcapacity : cache.capacity = 0
    · rw [if_pos hcapacity] at h
      exact Except.map_eq_error_iff.1 h
    · rw [if_neg hcapacity] at h
      simp only at h
      cases hfind : cache.find? (t.name, f.fingerprint) with
      | some p =>
        simp only [hfind] at h
        exact absurd h (by simp)
      | none =>
        simp only [hfind] at h
        cases hf : f.compile r t with
        | ok p =>
          simp only [hf] at h
          exact absurd h (by simp)
        | error e' =>
          simp only [hf] at h
          exact congrArg Except.error (Except.error.inj h)
  exact Filter.compile_known hr ht f e hcompile

end

/-! ## Data -/

namespace Coercion
variable {α β : Type} {P : α → Prop} {E : SchemaError → Prop}

/-- If the coercion fails, its error is of the kind. -/
def Fails (m : Coercion α) (E : SchemaError → Prop) : Prop := ∀ n e, m.run n = .error e → E e

theorem fails_pure (a : α) : Fails (pure a) E := fun _ _ h => absurd h (by rintro ⟨⟩)

theorem fails_get : Fails get E := fun _ _ h => absurd h (by rintro ⟨⟩)

theorem fails_set (n : Nat) : Fails (set n) E := fun _ _ h => absurd h (by rintro ⟨⟩)

theorem fails_liftM {x : Except SchemaError α} (h : ∀ e, x = .error e → E e) :
    Fails (liftM x : Coercion α) E := by
  intro n e he
  cases x with
  | ok a => exact absurd he (by rintro ⟨⟩)
  | error e' =>
    obtain rfl : e' = e := Except.error.inj he
    exact h e' rfl

theorem Fails.bind {m : Coercion α} {f : α → Coercion β} (hm : Fails m E) (hp : Gives m P)
    (hf : ∀ a, P a → Fails (f a) E) : Fails (m >>= f) E := by
  intro n e he
  have hrun : (m >>= f).run n = (m.run n).bind fun x => (f x.1).run x.2 := rfl
  rw [hrun] at he
  cases hmn : m.run n with
  | error e' =>
    rw [hmn] at he
    obtain rfl : e' = e := Except.error.inj he
    exact hm n e' hmn
  | ok x =>
    obtain ⟨a, n'⟩ := x
    rw [hmn] at he
    exact hf a (hp n a n' hmn) n' e he

theorem Fails.andThen {m : Coercion α} {f : α → Coercion β} (hm : Fails m E)
    (hf : ∀ a, Fails (f a) E) : Fails (m >>= f) E :=
  hm.bind (gives_true m) fun a _ => hf a

theorem fails_mapItems {f : Value → Coercion Value} (hf : ∀ v, Fails (f v) E) (vs : List Value) :
    Fails (mapItems f vs) E := by
  induction vs with
  | nil => exact fails_pure _
  | cons v vs ih => exact (hf v).andThen fun w => ih.andThen fun ws => fails_pure _

/-- What an attribute does not take is reported for this attribute. -/
def Site.Refuses (s : Site) (e : SchemaError) : Prop :=
  ∃ expected found, e = .invalidValue s.docType s.field expected found

section
variable {s : Site} {v : Value} {e : SchemaError}

theorem Site.Refuses.known (h : s.Refuses e) : e.isUnknownType = false := by
  obtain ⟨expected, found, rfl⟩ := h
  rfl

theorem refuses_invalid {expected : String}
    (h : (s.invalid expected v : Except SchemaError α) = .error e) : s.Refuses e :=
  ⟨expected, v.kindLabel, (Except.error.inj h).symm⟩

theorem refuses_scalar {kind : ScalarKind} (h : scalar s kind v = .error e) : s.Refuses e := by
  cases kind with
  | datetime =>
    cases v with
    | text t =>
      simp only [scalar] at h
      split at h
      · exact absurd h (by simp)
      · exact refuses_invalid h
    | _ => exact refuses_invalid h
  | _ => cases v <;> first | exact refuses_invalid h | exact absurd h (by simp [scalar])

theorem refuses_reference (h : reference s v = .error e) : s.Refuses e := by
  unfold reference at h
  split at h
  · exact absurd h (by simp)
  · exact refuses_invalid h

theorem refuses_checkTag {tags : Names} {tag : String} (h : checkTag s tags tag = .error e) :
    s.Refuses e := by
  unfold checkTag at h
  split at h
  · exact absurd h (by simp)
  · exact refuses_invalid h

theorem refuses_morph {tags : Names} (h : morph s tags v = .error e) : s.Refuses e := by
  unfold morph at h
  split at h
  · exact refuses_invalid h
  · exact refuses_checkTag (Except.map_eq_error_iff.1 h)

theorem refuses_component (h : component s v = .error e) : s.Refuses e := by
  unfold component at h
  split at h
  · exact absurd h (by simp)
  · exact refuses_invalid h
  · split at h
    · exact absurd h (by simp)
    · exact refuses_invalid h
  · exact refuses_invalid h

theorem refuses_items {expected : String} (h : items s expected v = .error e) : s.Refuses e := by
  unfold items at h
  split at h
  · exact absurd h (by simp)
  · exact refuses_invalid h

end

/-- Apart from its components, a value is only ever refused. -/
theorem fails_value {s : Site} {embed : Names → Value → Coercion Value} {kind : AttributeKind}
    (hrefuses : ∀ e, s.Refuses e → E e)
    (hembed : ∀ tags, kind = .dynamicZone tags → ∀ v, Fails (embed tags v) E) (v : Value) :
    Fails (value s embed kind v) E := by
  unfold value
  by_cases hnull : v.isNull
  · rw [if_pos hnull]
    exact fails_pure _
  · rw [if_neg hnull]
    have hitems : Fails (liftM (items s "list" v) : Coercion (List Value)) E :=
      fails_liftM fun e he => hrefuses e (refuses_items he)
    cases kind with
    | scalar kind => exact fails_liftM fun e he => hrefuses e (refuses_scalar he)
    | relationOne target => exact fails_liftM fun e he => hrefuses e (refuses_reference he)
    | relationMany target =>
      refine (fails_liftM fun e he => hrefuses e (refuses_items he)).andThen fun vs => ?_
      exact (fails_mapItems (fun v => fails_liftM fun e he => hrefuses e (refuses_reference he))
        vs).andThen fun ws => fails_pure _
    | polymorphic tags =>
      refine hitems.andThen fun vs => ?_
      exact (fails_mapItems (fun v => fails_liftM fun e he => hrefuses e (refuses_morph he))
        vs).andThen fun ws => fails_pure _
    | dynamicZone tags =>
      refine hitems.andThen fun vs => ?_
      exact (fails_mapItems (hembed tags rfl) vs).andThen fun ws => fails_pure _

/-- No unknown type comes up. -/
abbrev Known (m : Coercion α) : Prop := Fails m fun e => e.isUnknownType = false

variable {r : Registry} {t : DocumentType}

theorem known_fields {embed : Site → Names → Value → Coercion Value}
    (hembed : ∀ a ∈ t.attributes, ∀ tags, a.kind = .dynamicZone tags → ∀ site v,
      Known (embed site tags v))
    (data : List (String × Value)) : Known (fields embed t data) := by
  induction data with
  | nil => exact fails_pure _
  | cons e data ih =>
    obtain ⟨name, v⟩ := e
    unfold fields
    by_cases hsystem : name ∈ systemNames
    · rw [if_pos hsystem]
      exact ih
    · rw [if_neg hsystem]
      refine (fails_liftM fun e => DocumentType.getAttr_known).bind
        (gives_liftM fun a => DocumentType.mem_of_getAttr) fun a ha => ?_
      refine (fails_value (fun _ => Site.Refuses.known)
        (fun tags hkind v => hembed a ha tags hkind _ v) v).andThen fun w => ?_
      exact ih.andThen fun out => fails_pure _

theorem known_checkRequired (data : Entries Value) :
    Known (liftM (checkRequired t data) : Coercion (Entries Value)) := by
  refine fails_liftM fun e he => ?_
  unfold checkRequired at he
  split at he
  · obtain rfl := Except.error.inj he
    rfl
  · exact absurd he (by simp)

/-- The tag of a component is checked before its type is looked up. -/
theorem known_embed (hr : r.Closed) (depth : Nat) (s : Site) (tags : Names)
    (htags : ∀ tag ∈ tags, ∃ u, r.get? tag = some u) (v : Value) :
    Known (embed r depth s tags v) := by
  induction depth generalizing s tags v with
  | zero => exact fails_liftM fun e he => (refuses_invalid he).known
  | succ depth ih =>
    unfold embed
    refine (fails_liftM fun e he => (refuses_component he).known).andThen fun shape => ?_
    obtain ⟨tag, data⟩ := shape
    refine (fails_liftM fun e he => (refuses_checkTag he).known).bind
      (gives_liftM (P := fun _ => tag ∈ tags) fun _ => checkTag_eq_ok) fun _ htag => ?_
    obtain ⟨u, hu⟩ := htags tag htag
    rw [Registry.get_eq_ok_iff.2 hu]
    refine (fails_liftM fun e he => absurd he (by simp)).bind
      (gives_liftM (P := fun t => t = u) fun t ht => (Except.ok.inj ht).symm) fun t ht => ?_
    subst ht
    have hnested : ∀ a ∈ t.attributes, ∀ tags', a.kind = .dynamicZone tags' → ∀ site v,
        Known (embed r depth site tags' v) := by
      intro a ha tags' hzone site v
      refine ih site tags' (fun tag' htag' => ?_) v
      obtain ⟨w, hw, -⟩ := hr.zoneTag hu ha hzone htag'
      exact ⟨w, hw⟩
    refine (known_fields hnested data).andThen fun coerced => ?_
    refine (known_checkRequired coerced).andThen fun out => ?_
    exact fails_get.andThen fun n => (fails_set _).andThen fun _ => fails_pure _

theorem known_document (hr : r.Closed) {name : String} (ht : r.get? name = some t)
    (data : Entries Value) (creating : Bool) : Known (document r t data creating) := by
  have hembed : ∀ a ∈ t.attributes, ∀ tags, a.kind = .dynamicZone tags → ∀ site v,
      Known (embed r (Value.depthFields data) site tags v) := by
    intro a ha tags hzone site v
    refine known_embed hr _ site tags (fun tag htag => ?_) v
    obtain ⟨u, hu, -⟩ := hr.zoneTag ht ha hzone htag
    exact ⟨u, hu⟩
  refine (known_fields hembed data).andThen fun out => ?_
  cases creating with
  | false => exact fails_pure _
  | true => exact known_checkRequired out

end Coercion
end ContentEngine
