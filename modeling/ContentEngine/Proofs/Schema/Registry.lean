import ContentEngine.Proofs.Entries
import ContentEngine.Schema.Registry

/-!
# Built registries

A registry that was built is closed: every type lies under its name, and every type that an attribute
names is registered with the kind that the attribute asks for.
-/

namespace ContentEngine

namespace Schema

/-- A type that is registered was registered before, or is one of those given. -/
theorem get?_collect {types collected : Entries DocumentType} {ts : List DocumentType}
    (h : collect types ts = .ok collected) {name : String} {t : DocumentType}
    (ht : Entries.get? collected name = some t) :
    Entries.get? types name = some t ∨ ∃ u ∈ ts, u.name = name ∧ t = u.withSystemAttributes := by
  induction ts generalizing types with
  | nil =>
    obtain rfl := Except.ok.inj h
    exact .inl ht
  | cons u ts ih =>
    unfold collect at h
    by_cases hu : Entries.contains types u.name
    · rw [if_pos hu] at h
      exact absurd h (by simp)
    · rw [if_neg hu] at h
      rcases ih h with hold | ⟨u', hu', hgiven⟩
      · by_cases hname : u.name = name
        · subst hname
          rw [Entries.get?_insert_self] at hold
          exact .inr ⟨u, List.mem_cons_self .., rfl, (Option.some.inj hold).symm⟩
        · rw [Entries.get?_insert_ne types _ hname] at hold
          exact .inl hold
      · exact .inr ⟨u', List.mem_cons_of_mem _ hu', hgiven⟩

/-- Collecting keeps what is registered, and registers all that is given. -/
theorem collected_of_collect {types collected : Entries DocumentType} {ts : List DocumentType}
    (h : collect types ts = .ok collected) :
    (∀ name t, Entries.get? types name = some t → Entries.get? collected name = some t) ∧
      ∀ u ∈ ts, Entries.get? collected u.name = some u.withSystemAttributes := by
  induction ts generalizing types with
  | nil =>
    obtain rfl := Except.ok.inj h
    exact ⟨fun _ _ ht => ht, fun _ hu => absurd hu List.not_mem_nil⟩
  | cons first ts ih =>
    unfold collect at h
    by_cases hfirst : Entries.contains types first.name
    · rw [if_pos hfirst] at h
      exact absurd h (by simp)
    · rw [if_neg hfirst] at h
      obtain ⟨hkept, hgiven⟩ := ih h
      refine ⟨fun name t ht => hkept name t ?_, List.forall_mem_cons.2
        ⟨hkept _ _ (Entries.get?_insert_self ..), hgiven⟩⟩
      rw [Entries.get?_insert_ne _ _ ?_, ht]
      rintro rfl
      simp [Entries.contains, ht] at hfirst

variable {types : Entries DocumentType}

theorem mem_of_checkTargets {docType field : String} {expected : TypeKind} {targets : List String}
    (h : checkTargets types docType field expected targets = .ok ()) {target : String}
    (htarget : target ∈ targets) : (Entries.get? types target).map (·.kind) = some expected := by
  induction targets with
  | nil => exact absurd htarget List.not_mem_nil
  | cons first targets ih =>
    unfold checkTargets at h
    by_cases hfirst : (Entries.get? types first).map (·.kind) = some expected
    · rw [if_pos hfirst] at h
      rcases List.mem_cons.1 htarget with rfl | htarget
      · exact hfirst
      · exact ih h htarget
    · rw [if_neg hfirst] at h
      exact absurd h (by simp)

theorem checkTargets_of_checkAttributes {docType : String} {seen : List String}
    {attributes : List AttributeDefinition}
    (h : checkAttributes types docType seen attributes = .ok ()) {a : AttributeDefinition}
    (ha : a ∈ attributes) :
    checkTargets types docType a.name a.kind.targets.2 a.kind.targets.1 = .ok () := by
  induction attributes generalizing seen with
  | nil => exact absurd ha List.not_mem_nil
  | cons first attributes ih =>
    unfold checkAttributes at h
    by_cases hseen : first.name ∈ seen
    · rw [if_pos hseen] at h
      exact absurd h (by simp)
    · rw [if_neg hseen] at h
      cases hcheck : checkTargets types docType first.name first.kind.targets.2
          first.kind.targets.1 with
      | error e =>
        rw [hcheck] at h
        exact absurd h (by simp)
      | ok u =>
        rw [hcheck] at h
        rcases List.mem_cons.1 ha with rfl | ha
        · exact hcheck
        · exact ih h ha

/-- No attribute is declared twice. -/
theorem names_of_checkAttributes {docType : String} {seen : List String}
    {attributes : List AttributeDefinition}
    (h : checkAttributes types docType seen attributes = .ok ()) :
    (∀ a ∈ attributes, a.name ∉ seen) ∧ attributes.Pairwise (·.name ≠ ·.name) := by
  induction attributes generalizing seen with
  | nil => exact ⟨fun _ ha => absurd ha List.not_mem_nil, .nil⟩
  | cons first attributes ih =>
    unfold checkAttributes at h
    by_cases hseen : first.name ∈ seen
    · rw [if_pos hseen] at h
      exact absurd h (by simp)
    · rw [if_neg hseen] at h
      cases hcheck : checkTargets types docType first.name first.kind.targets.2
          first.kind.targets.1 with
      | error e =>
        rw [hcheck] at h
        exact absurd h (by simp)
      | ok u =>
        rw [hcheck] at h
        obtain ⟨hrest, honce⟩ := ih h
        refine ⟨List.forall_mem_cons.2 ⟨hseen, fun a ha hmem =>
          hrest a ha (List.mem_cons_of_mem _ hmem)⟩, List.pairwise_cons.2 ⟨fun a ha heq => ?_, honce⟩⟩
        exact hrest a ha (heq ▸ List.mem_cons_self)

/-- What is populated by default is the name of a populatable attribute. -/
theorem populatable_of_checkDefaults {t : DocumentType} {names : List String}
    (h : checkDefaults t names = .ok ()) {name : String} (hname : name ∈ names) :
    ∃ a, t.getAttr name = .ok a ∧ a.kind.isPopulatable = true := by
  induction names with
  | nil => exact absurd hname List.not_mem_nil
  | cons first names ih =>
    unfold checkDefaults at h
    cases hattr : t.getAttr first with
    | error e =>
      rw [hattr] at h
      exact absurd h (by simp)
    | ok a =>
      cases hpopulatable : a.kind.isPopulatable with
      | false => simp [hattr, hpopulatable] at h
      | true =>
        simp only [hattr, hpopulatable, if_true] at h
        rcases List.mem_cons.1 hname with rfl | hname
        · exact ⟨a, hattr, hpopulatable⟩
        · exact ih h hname

theorem checkType_of_checkTypes {ts : List DocumentType} (h : checkTypes types ts = .ok ())
    {t : DocumentType} (ht : t ∈ ts) : checkType types t = .ok () := by
  induction ts with
  | nil => exact absurd ht List.not_mem_nil
  | cons first ts ih =>
    unfold checkTypes at h
    cases hcheck : checkType types first with
    | error e =>
      rw [hcheck] at h
      exact absurd h (by simp)
    | ok u =>
      rw [hcheck] at h
      rcases List.mem_cons.1 ht with rfl | ht
      · exact hcheck
      · exact ih h ht

end Schema

theorem DocumentType.attr?_name {t : DocumentType} {name : String} {a : AttributeDefinition}
    (h : t.attr? name = some a) : a.name = name := by
  have := List.find?_some h
  exact of_decide_eq_true this

theorem DocumentType.getAttr_eq_ok_iff {t : DocumentType} {name : String}
    {a : AttributeDefinition} : t.getAttr name = .ok a ↔ t.attr? name = some a := by
  unfold DocumentType.getAttr
  cases t.attr? name <;> simp

theorem DocumentType.mem_of_getAttr {t : DocumentType} {name : String} {a : AttributeDefinition}
    (h : t.getAttr name = .ok a) : a ∈ t.attributes :=
  List.mem_of_find?_eq_some (getAttr_eq_ok_iff.1 h)

namespace Registry
variable {types : List DocumentType} {r : Registry} {name : String} {t : DocumentType}

theorem get_eq_ok_iff : r.get name = .ok t ↔ r.get? name = some t := by
  unfold Registry.get
  cases r.get? name <;> simp

theorem get?_of_collection (h : r.collection name = .ok t) :
    r.get? name = some t ∧ t.kind = .collection := by
  unfold collection at h
  cases hget : r.get? name with
  | none =>
    rw [hget] at h
    exact absurd h (by simp)
  | some u =>
    simp only [hget] at h
    by_cases hkind : u.kind = .collection
    · rw [if_pos hkind] at h
      obtain rfl := Except.ok.inj h
      exact ⟨rfl, hkind⟩
    · rw [if_neg hkind] at h
      exact absurd h (by simp)

theorem collection_of_get? (h : r.get? name = some t) (hkind : t.kind = .collection) :
    r.collection name = .ok t := by
  simp only [collection, h, hkind, if_true]

theorem hasDrafts_of_get? (h : r.get? name = some t) : r.hasDrafts name = t.draftAndPublish := by
  unfold hasDrafts
  rw [h]
  rfl

theorem build_eq_ok (h : build types = .ok r) :
    Schema.collect [] types = .ok r.types ∧
      Schema.checkTypes r.types (Entries.values r.types) = .ok () := by
  unfold build at h
  cases hcollect : Schema.collect [] types with
  | error e =>
    rw [hcollect] at h
    exact absurd h (by simp)
  | ok collected =>
    rw [hcollect] at h
    cases hcheck : Schema.checkTypes collected (Entries.values collected) with
    | error e =>
      simp only [hcheck] at h
      exact absurd h (by simp)
    | ok u =>
      simp only [hcheck] at h
      obtain rfl := Except.ok.inj h
      exact ⟨rfl, hcheck⟩

/-- A type of the registry is one of those that it was built from, with the system attributes. -/
theorem given_of_build (h : build types = .ok r) (ht : r.get? name = some t) :
    ∃ u ∈ types, u.name = name ∧ t = u.withSystemAttributes :=
  (Schema.get?_collect (build_eq_ok h).1 ht).resolve_left (by simp)

/-- Every type that a registry was built from is in it. -/
theorem registered_of_build (h : build types = .ok r) {u : DocumentType} (hu : u ∈ types) :
    r.get? u.name = some u.withSystemAttributes :=
  (Schema.collected_of_collect (build_eq_ok h).1).2 u hu

theorem name_of_build (h : build types = .ok r) (ht : r.get? name = some t) : t.name = name := by
  obtain ⟨u, -, hname, rfl⟩ := given_of_build h ht
  exact hname

/-- The attributes and the defaults of a type of the registry were checked. -/
theorem checked_of_build (h : build types = .ok r) (ht : r.get? name = some t) :
    Schema.checkAttributes r.types t.name [] t.attributes = .ok () ∧
      Schema.checkDefaults t t.defaultPopulate = .ok () := by
  have hmem : t ∈ Entries.values r.types := List.mem_map.2 ⟨_, Entries.mem_of_get? ht, rfl⟩
  have hcheck := Schema.checkType_of_checkTypes (build_eq_ok h).2 hmem
  unfold Schema.checkType at hcheck
  cases hattributes : Schema.checkAttributes r.types t.name [] t.attributes with
  | error e =>
    rw [hattributes] at hcheck
    exact absurd hcheck (by simp)
  | ok u =>
    rw [hattributes] at hcheck
    exact ⟨rfl, hcheck⟩

theorem checkAttributes_of_build (h : build types = .ok r) (ht : r.get? name = some t) :
    Schema.checkAttributes r.types t.name [] t.attributes = .ok () :=
  (checked_of_build h ht).1

/-- What a type of the registry populates by default is populatable. -/
theorem default_of_build (h : build types = .ok r) (ht : r.get? name = some t) {attr : String}
    (hattr : attr ∈ t.defaultPopulate) :
    ∃ a, t.attr? attr = some a ∧ a.kind.isPopulatable = true := by
  obtain ⟨a, ha, hpopulatable⟩ :=
    Schema.populatable_of_checkDefaults (checked_of_build h ht).2 hattr
  exact ⟨a, DocumentType.getAttr_eq_ok_iff.1 ha, hpopulatable⟩

/-- A type of the registry has at most one attribute of a name. -/
theorem attr?_of_build (h : build types = .ok r) (ht : r.get? name = some t)
    {a : AttributeDefinition} (ha : a ∈ t.attributes) : t.attr? a.name = some a := by
  obtain ⟨-, honce⟩ := Schema.names_of_checkAttributes (checkAttributes_of_build h ht)
  unfold DocumentType.attr?
  generalize t.attributes = attributes at ha honce
  induction attributes with
  | nil => exact absurd ha List.not_mem_nil
  | cons first attributes ih =>
    obtain ⟨hfirst, honce⟩ := List.pairwise_cons.1 honce
    rcases List.mem_cons.1 ha with rfl | ha
    · simp
    · rw [List.find?_cons_of_neg (by simpa using hfirst a ha)]
      exact ih ha honce

/-- A type that an attribute names is registered, as a collection or a component. -/
theorem target_of_build (h : build types = .ok r) (ht : r.get? name = some t)
    {a : AttributeDefinition} (ha : a ∈ t.attributes) {target : String}
    (htarget : target ∈ a.kind.targets.1) :
    ∃ u, r.get? target = some u ∧ u.kind = a.kind.targets.2 := by
  have htargets := Schema.checkTargets_of_checkAttributes (checkAttributes_of_build h ht) ha
  exact Option.map_eq_some_iff.1 (Schema.mem_of_checkTargets htargets htarget)

/-! ## Closed registries -/

/-- Every type lies under its name, and what an attribute names is registered, with the kind that the
attribute asks for. -/
structure Closed (r : Registry) : Prop where
  named : ∀ name t, r.get? name = some t → t.name = name
  target : ∀ name t a target, r.get? name = some t → a ∈ t.attributes → target ∈ a.kind.targets.1 →
    ∃ u, r.get? target = some u ∧ u.kind = a.kind.targets.2

theorem closed_of_build {types : List DocumentType} (h : build types = .ok r) : r.Closed where
  named _ _ ht := name_of_build h ht
  target _ _ _ _ ht ha htarget := target_of_build h ht ha htarget

theorem Closed.registered (hr : r.Closed) (ht : r.get? name = some t) {a : AttributeDefinition}
    (ha : a ∈ t.attributes) {targets : List String} {kind : TypeKind}
    (htargets : a.kind.targets = (targets, kind)) {target : String} (htarget : target ∈ targets) :
    ∃ u, r.get? target = some u ∧ u.kind = kind := by
  obtain ⟨u, hu, hkind⟩ := hr.target name t a target ht ha (by rwa [htargets])
  exact ⟨u, hu, by rw [hkind, htargets]⟩

theorem Closed.relationTarget (hr : r.Closed) (ht : r.get? name = some t) {a : AttributeDefinition}
    (ha : a ∈ t.attributes) {target : String} (htarget : a.kind.relationTarget? = some target) :
    ∃ u, r.get? target = some u ∧ u.kind = .collection := by
  have htargets : a.kind.targets = ([target], .collection) := by
    revert htarget
    cases a.kind <;> simp [AttributeKind.relationTarget?, AttributeKind.targets]
  exact hr.registered ht ha htargets (List.mem_singleton_self _)

theorem Closed.polymorphicTag (hr : r.Closed) (ht : r.get? name = some t) {a : AttributeDefinition}
    (ha : a ∈ t.attributes) {tags : Names} (hkind : a.kind = .polymorphic tags) {tag : String}
    (htag : tag ∈ tags) : ∃ u, r.get? tag = some u ∧ u.kind = .collection :=
  hr.registered ht ha (by rw [hkind]; rfl) htag

theorem Closed.zoneTag (hr : r.Closed) (ht : r.get? name = some t) {a : AttributeDefinition}
    (ha : a ∈ t.attributes) {tags : Names} (hkind : a.kind = .dynamicZone tags) {tag : String}
    (htag : tag ∈ tags) : ∃ u, r.get? tag = some u ∧ u.kind = .component :=
  hr.registered ht ha (by rw [hkind]; rfl) htag

end Registry
end ContentEngine
