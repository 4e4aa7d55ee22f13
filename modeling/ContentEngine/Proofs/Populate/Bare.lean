import ContentEngine.Proofs.Populate.Paths
import ContentEngine.Proofs.Populate.Within
import ContentEngine.Sample.Blog

/-!
# Bare attributes

A default of a type is declared as the name of an attribute and planned as a dotted path. For a name
without a dot this is the same. Another name leads somewhere else: `Registry.HasPath` says which paths
can be followed. If all defaults of the types that are selected by tag can, the wildcard and bare
attributes always plan; if one of them cannot, there is a type on which the wildcard does not.
-/

namespace ContentEngine

/-! ## Paths that can be followed -/

/-- The path can be followed from documents of the type: it names a populatable attribute or is the
wildcard, or it names a relation and goes on from the type that this leads to. -/
inductive Registry.HasPath (r : Registry) : DocumentType → String → Prop
  | wildcard (t : DocumentType) : HasPath r t PopulateSpec.wildcardName
  | alone {t : DocumentType} {name : String} {a : AttributeDefinition}
      (hdot : '.' ∉ name.toList) (ha : t.attr? name = some a)
      (hpopulatable : a.kind.isPopulatable = true) : HasPath r t name
  | onward {t u : DocumentType} {path name rest target : String} {a : AttributeDefinition}
      (hsplit : Text.splitOnce '.' path = some (name, rest)) (ha : t.attr? name = some a)
      (htarget : a.kind.relationTarget? = some target) (hu : r.get? target = some u)
      (h : HasPath r u rest) : HasPath r t path

/-- The type is selected by tag in some attribute: it is then populated as it says by default. -/
def Registry.Tagged (r : Registry) (u : DocumentType) : Prop :=
  ∃ name t, r.get? name = some t ∧ ∃ a ∈ t.attributes, ∃ tags, a.kind.tags? = some tags ∧
    ∃ tag ∈ tags, r.get? tag = some u

/-- The defaults of all types that are selected by tag can be followed. -/
def Registry.DefaultsLead (r : Registry) : Prop :=
  ∀ u, r.Tagged u → ∀ path ∈ u.defaultPopulate, r.HasPath u path

theorem AttributeKind.populatable_of_relationTarget {kind : AttributeKind} {target : String}
    (h : kind.relationTarget? = some target) : kind.isPopulatable = true := by
  cases kind <;> first | rfl | exact absurd h (by simp [relationTarget?])

theorem AttributeKind.populatable_of_tags {kind : AttributeKind} {tags : Names}
    (h : kind.tags? = some tags) : kind.isPopulatable = true := by
  cases kind <;> first | rfl | exact absurd h (by simp [tags?])

namespace Registry
variable {r : Registry} {name rest : String} {t : DocumentType}

/-- The first segment of a path that can be followed names a populatable attribute. -/
theorem HasPath.populatable {path : String} (h : r.HasPath t path)
    (hwild : path ≠ PopulateSpec.wildcardName) :
    ∃ a, t.attr? (PopulateSpec.firstSegment path) = some a ∧ a.kind.isPopulatable = true := by
  cases h with
  | wildcard => exact absurd rfl hwild
  | alone hdot ha hpopulatable =>
    exact ⟨_, by rwa [PopulateSpec.firstSegment_of_notMem hdot], hpopulatable⟩
  | onward hsplit ha htarget =>
    exact ⟨_, by rwa [PopulateSpec.firstSegment_dotted hsplit],
      AttributeKind.populatable_of_relationTarget htarget⟩

/-- A path with several segments goes on from the type that the first one leads to. -/
theorem HasPath.of_splitOnce {path : String} (h : r.HasPath t path)
    (hsplit : Text.splitOnce '.' path = some (name, rest)) :
    ∃ a target u, t.attr? name = some a ∧ a.kind.relationTarget? = some target ∧
      r.get? target = some u ∧ r.HasPath u rest := by
  cases h with
  | wildcard => exact absurd rfl (PopulateSpec.ne_wildcardName_of_splitOnce hsplit)
  | alone hdot =>
    rw [Text.splitOnce_eq_none_iff.2 hdot] at hsplit
    exact absurd hsplit (by simp)
  | onward hsplit' ha htarget hu hrest =>
    obtain ⟨rfl, rfl⟩ := Prod.mk.inj (Option.some.inj (hsplit'.symm.trans hsplit))
    exact ⟨_, _, _, ha, htarget, hu, hrest⟩

end Registry

/-! ## Planning that succeeds -/

namespace Planning

/-- Planning succeeds, whatever the cache holds, with a result of a property. -/
abbrev Succeeds {α : Type} (m : Planning α) (P : α → Prop) : Prop := Ends m P fun _ => False

theorem Succeeds.exists_ok {α : Type} {m : Planning α} {P : α → Prop} (h : Succeeds m P)
    (cache : PredicateCache) : ∃ a, (m.run.run cache).1 = .ok a ∧ P a := by
  cases hrun : (m.run.run cache).1 with
  | error e => exact (h.fails cache e hrun).elim
  | ok a => exact ⟨a, rfl, h.ensures cache a hrun⟩

variable {r : Registry} {expand : DocumentType → Planning PopulatePlan} {name attr : String}
  {t : DocumentType} {a : AttributeDefinition}

theorem succeeds_populatable (ha : t.attr? attr = some a) (hpopulatable : a.kind.isPopulatable = true) :
    Succeeds (populatable t attr) (· = a) := by
  rw [populatable, ha]
  simp only [hpopulatable, if_true]
  exact ends_pure rfl

/-- Every type that is selected by tag can be expanded. -/
def Expandable (r : Registry) (expand : DocumentType → Planning PopulatePlan) : Prop :=
  ∀ u, r.Tagged u → Succeeds (expand u) fun _ => True

theorem succeeds_defaultBranch (hr : r.Closed) (hexpand : Expandable r expand)
    (ht : r.get? name = some t) (ha : t.attr? attr = some a)
    (hpopulatable : a.kind.isPopulatable = true) :
    Succeeds (defaultBranch r expand t attr) fun b => b.attr = attr := by
  have hmem : a ∈ t.attributes := List.mem_of_find?_eq_some ha
  refine (succeeds_populatable ha hpopulatable).bind fun a' ha' => ?_
  subst ha'
  have hname := DocumentType.attr?_name ha
  cases hkind : a'.kind with
  | scalar kind =>
    rw [hkind] at hpopulatable
    exact absurd hpopulatable (by simp [AttributeKind.isPopulatable, AttributeKind.scalar?])
  | relationOne target =>
    obtain ⟨u, hu, -⟩ := hr.relationTarget ht hmem (by rw [hkind]; rfl)
    exact (ends_lookup hu).andThen fun _ => ends_pure hname
  | relationMany target =>
    obtain ⟨u, hu, -⟩ := hr.relationTarget ht hmem (by rw [hkind]; rfl)
    exact (ends_lookup hu).andThen fun _ => ends_pure hname
  | polymorphic tags =>
    refine (ends_runAll (R := fun _ _ => True) fun tag htag => ?_).andThen fun _ => ends_pure hname
    obtain ⟨u, hu, -⟩ := hr.polymorphicTag ht hmem hkind htag
    have htagged : r.Tagged u :=
      ⟨name, t, ht, a', hmem, tags, by rw [hkind]; rfl, tag, htag, hu⟩
    refine (ends_lookup hu).bind fun v hv => ?_
    subst hv
    exact (hexpand _ htagged).andThen fun _ => ends_pure trivial
  | dynamicZone tags =>
    refine (ends_runAll (R := fun _ _ => True) fun tag htag => ?_).andThen fun _ => ends_pure hname
    obtain ⟨u, hu, -⟩ := hr.zoneTag ht hmem hkind htag
    have htagged : r.Tagged u :=
      ⟨name, t, ht, a', hmem, tags, by rw [hkind]; rfl, tag, htag, hu⟩
    refine (ends_lookup hu).bind fun v hv => ?_
    subst hv
    exact (hexpand _ htagged).andThen fun _ => ends_pure trivial

/-! ### The entries of a specification -/

theorem mem_relationAttributes : a ∈ t.relationAttributes ↔
    a ∈ t.attributes ∧ a.kind.isPopulatable = true := by
  simp [DocumentType.relationAttributes]

/-- The entries of a specification and, with the wildcard, those it stands for. -/
def wholeEntries (r : Registry) (expand : DocumentType → Planning PopulatePlan) (t : DocumentType)
    (wildcard : Bool) (entries : Entries (Planning Branch)) : Entries (Planning Branch) :=
  let missing := t.relationAttributes.filter fun a => !Entries.contains entries a.name
  if wildcard then
    Entries.insertAll entries (missing.map fun a => (a.name, defaultBranch r expand t a.name))
  else entries

theorem withWildcard_eq (wildcard : Bool) (entries : Entries (Planning Branch)) :
    withWildcard r expand t wildcard entries =
      runAll ((wholeEntries r expand t wildcard entries).map (·.2)) := rfl

variable {wildcard : Bool} {entries : Entries (Planning Branch)}

/-- An entry is given, or the wildcard stands for it. -/
theorem of_mem_wholeEntries {e : String × Planning Branch}
    (h : e ∈ wholeEntries r expand t wildcard entries) :
    e ∈ entries ∨ (wildcard = true ∧ e.1 ∉ entries.map (·.1) ∧
      e.2 = defaultBranch r expand t e.1 ∧ ∃ a ∈ t.relationAttributes, a.name = e.1) := by
  unfold wholeEntries at h
  cases wildcard with
  | false => exact .inl h
  | true =>
    simp only [if_true] at h
    refine (Entries.mem_insertAll h).imp_right fun hnew => ?_
    obtain ⟨a, ha, rfl⟩ := List.mem_map.1 hnew
    obtain ⟨hrelation, hmissing⟩ := List.mem_filter.1 ha
    refine ⟨rfl, ?_, rfl, a, hrelation, rfl⟩
    rw [← Entries.get?_eq_none_iff]
    simpa [Entries.contains] using hmissing

theorem sorted_wholeEntries (h : Entries.Sorted entries) :
    Entries.Sorted (wholeEntries r expand t wildcard entries) := by
  unfold wholeEntries
  cases wildcard with
  | false => exact h
  | true => exact h.insertAll _

theorem mem_keys_wholeEntries :
    attr ∈ (wholeEntries r expand t wildcard entries).map (·.1) ↔
      attr ∈ entries.map (·.1) ∨
        (wildcard = true ∧ ∃ a ∈ t.relationAttributes, a.name = attr) := by
  constructor
  · intro h
    obtain ⟨e, he, rfl⟩ := List.mem_map.1 h
    rcases of_mem_wholeEntries he with hgiven | ⟨hwild, -, -, hattr⟩
    · exact .inl (List.mem_map_of_mem hgiven)
    · exact .inr ⟨hwild, hattr⟩
  · unfold wholeEntries
    rintro (h | ⟨rfl, a, ha, rfl⟩)
    · cases wildcard with
      | false => exact h
      | true => exact Entries.mem_keys_insertAll _ h
    · simp only [if_true]
      by_cases hgiven : a.name ∈ entries.map (·.1)
      · exact Entries.mem_keys_insertAll _ hgiven
      · refine Entries.mem_keys_insertAll_of_mem _ (List.mem_map.2 ⟨_, List.mem_map.2
          ⟨a, List.mem_filter.2 ⟨ha, ?_⟩, rfl⟩, rfl⟩)
        rw [← Entries.get?_eq_none_iff] at hgiven
        simp [Entries.contains, hgiven]

theorem attributes_of_forall₂ {plan : PopulatePlan}
    (h : List.Forall₂ (fun e (b : Branch) => b.attr = e.1) entries plan) :
    plan.attributes = entries.map (·.1) := by
  induction h with
  | nil => rfl
  | cons hb _ ih => exact congrArg₂ List.cons hb ih

/-- If the entries of a specification succeed, it does, with a branch for each of them and, with the
wildcard, for all populatable attributes. -/
theorem succeeds_withWildcard (hr : r.Accepted) (hexpand : Expandable r expand)
    (ht : r.get? name = some t) (hentries : ∀ e ∈ entries, Succeeds e.2 fun b => b.attr = e.1) :
    Succeeds (withWildcard r expand t wildcard entries) fun plan =>
      plan.attributes = (wholeEntries r expand t wildcard entries).map (·.1) := by
  have hall : ∀ e ∈ wholeEntries r expand t wildcard entries,
      Succeeds e.2 fun b => b.attr = e.1 := by
    intro e he
    rcases of_mem_wholeEntries he with hgiven | ⟨-, -, hdefault, a, ha, hname⟩
    · exact hentries e hgiven
    · obtain ⟨hmem, hpopulatable⟩ := mem_relationAttributes.1 ha
      rw [hdefault, ← hname]
      exact succeeds_defaultBranch hr.closed hexpand ht (hr.attr? ht hmem) hpopulatable
  rw [withWildcard_eq]
  exact (ends_runAll hall).imp (fun _ => attributes_of_forall₂) fun _ => id

/-! ### Paths -/

theorem of_mem_planEntries {nodes : List (String × PopulateNode)} {e : String × Planning Branch}
    (h : e ∈ planEntries r expand t nodes) :
    ∃ node, (e.1, node) ∈ nodes ∧ e.2 = planBranch r expand t e.1 node := by
  induction nodes with
  | nil => exact absurd h (by simp [planEntries])
  | cons first nodes ih =>
    rw [planEntries] at h
    rcases List.mem_cons.1 h with rfl | h
    · exact ⟨first.2, List.mem_cons_self .., rfl⟩
    · obtain ⟨node, hnode, hplan⟩ := ih h
      exact ⟨node, List.mem_cons_of_mem _ hnode, hplan⟩

theorem succeeds_target (u : DocumentType) (populate : PopulatePlan) :
    Succeeds (Planning.target r u none none populate) fun _ => True :=
  ends_pure trivial

/-- Paths that can be followed can be planned. -/
theorem succeeds_ofPaths (hr : r.Accepted) (hexpand : Expandable r expand) (paths : List String) :
    ∀ name t, r.get? name = some t → (∀ path ∈ paths, r.HasPath t path) →
      Succeeds (planSpec r expand t (PopulateSpec.ofPaths paths)) fun _ => True := by
  induction paths using PopulateSpec.induction_remainders with
  | step paths ih =>
    intro name t ht hpaths
    have hentries : ∀ e ∈ planEntries r expand t (PopulateSpec.ofPaths paths).entries,
        Succeeds e.2 fun b => b.attr = e.1 := by
      intro e he
      obtain ⟨node, hnode, hplan⟩ := of_mem_planEntries he
      obtain rfl : node = PopulateSpec.nodeOf e.1 paths := PopulateSpec.mem_entries_ofPaths hnode
      rw [hplan]
      by_cases halone : PopulateSpec.EndsAll e.1 paths
      · obtain ⟨path, hpath, hwild, hfirst⟩ :=
          PopulateSpec.mem_keys_ofPaths.1 (List.mem_map_of_mem hnode)
        obtain ⟨a, ha, hpopulatable⟩ := (hpaths path hpath).populatable hwild
        rw [PopulateSpec.nodeOf_of_endsAll halone, planBranch]
        exact succeeds_defaultBranch hr.closed hexpand ht (hfirst ▸ ha) hpopulatable
      · have hne := mt PopulateSpec.remainders_eq_nil_iff.1 halone
        obtain ⟨rest, hrest⟩ := List.exists_mem_of_ne_nil _ hne
        obtain ⟨path, hpath, hsplit⟩ := PopulateSpec.mem_remainders.1 hrest
        obtain ⟨a, target, u, ha, htarget, hu, -⟩ := (hpaths path hpath).of_splitOnce hsplit
        have hbelow : ∀ rest ∈ PopulateSpec.remainders e.1 paths, r.HasPath u rest := by
          intro rest hrest
          obtain ⟨path, hpath, hsplit⟩ := PopulateSpec.mem_remainders.1 hrest
          obtain ⟨a', target', u', ha', htarget', hu', h⟩ := (hpaths path hpath).of_splitOnce hsplit
          obtain rfl := Option.some.inj (ha.symm.trans ha')
          obtain rfl := Option.some.inj (htarget.symm.trans htarget')
          obtain rfl := Option.some.inj (hu.symm.trans hu')
          exact h
        rw [PopulateSpec.nodeOf_of_not_endsAll halone, PopulateNode.nested, planBranch]
        refine (succeeds_populatable ha
          (AttributeKind.populatable_of_relationTarget htarget)).bind fun a' ha' => ?_
        subst ha'
        simp only [htarget]
        refine (ends_lookup hu).bind fun v hv => ?_
        subst hv
        refine (ih e.1 halone target v hu hbelow).andThen fun populate => ?_
        exact (succeeds_target v populate).andThen fun _ => ends_pure (DocumentType.attr?_name ha)
    generalize PopulateSpec.ofPaths paths = spec at hentries ⊢
    rw [planSpec]
    exact (succeeds_withWildcard hr hexpand ht hentries).imp (fun _ _ => trivial) fun _ => id

theorem expandable_planDefaults (hr : r.Accepted) (h : r.DefaultsLead) (depth : Nat)
    (opened : List String) : Expandable r (planDefaults r depth opened) := by
  induction depth generalizing opened with
  | zero => exact fun u _ => ends_pure trivial
  | succ depth ih =>
    intro u hu
    rw [planDefaults]
    split
    · exact ends_pure trivial
    · have htagged := hu
      obtain ⟨-, -, -, -, -, -, -, tag, -, hget⟩ := hu
      exact succeeds_ofPaths hr (ih _) _ tag u hget (h u htagged)

/-! ### What follows from success -/

/-- If planning succeeds at all, something holds. -/
abbrev Shows {α : Type} (m : Planning α) (p : Prop) : Prop := Ensures m fun _ => p

theorem shows_runAll {α γ : Type} {f : γ → Planning α} {l : List γ} {p : γ → Prop}
    (h : ∀ c ∈ l, Shows (f c) (p c)) : Shows (runAll (l.map f)) (∀ c ∈ l, p c) := by
  intro cache results hresults c hc
  obtain ⟨_, -, hp⟩ := exists_of_forall₂ (ensures_runAll h cache results hresults) hc
  exact hp

theorem shows_of {α : Type} {p : Prop} (h : p) (m : Planning α) : Shows m p := fun _ _ _ => h

theorem ensures_lookup (name : String) :
    Ensures (ofSchema (r.get name)) fun u => r.get? name = some u :=
  fun cache u hu => Registry.get_eq_ok_iff.1 (ensures_ofSchema (r.get name) cache u hu)

/-- A node that stands for paths can be planned, so the paths can be followed. -/
theorem shows_planBranch {paths : List String}
    (below : ¬ PopulateSpec.EndsAll attr paths → ∀ target u, r.get? target = some u →
      Shows (planSpec r expand u (PopulateSpec.ofPaths (PopulateSpec.remainders attr paths)))
        (∀ rest ∈ PopulateSpec.remainders attr paths, r.HasPath u rest)) :
    Shows (planBranch r expand t attr (PopulateSpec.nodeOf attr paths))
      (∀ path ∈ paths, PopulateSpec.firstSegment path = attr → r.HasPath t path) := by
  have halone : ∀ a path, t.attr? attr = some a → a.kind.isPopulatable = true →
      Text.splitOnce '.' path = none → PopulateSpec.firstSegment path = attr →
      r.HasPath t path := by
    intro a path ha hpopulatable hsplit hfirst
    have hdot := Text.splitOnce_eq_none_iff.1 hsplit
    obtain rfl := PopulateSpec.firstSegment_of_notMem hdot ▸ hfirst
    exact .alone hdot ha hpopulatable
  have hrest : ∀ path ∈ paths, ∀ p, Text.splitOnce '.' path = some p →
      PopulateSpec.firstSegment path = attr →
      Text.splitOnce '.' path = some (attr, p.2) ∧ p.2 ∈ PopulateSpec.remainders attr paths := by
    intro path hpath p hsplit hfirst
    obtain rfl : p.1 = attr := PopulateSpec.firstSegment_dotted hsplit ▸ hfirst
    exact ⟨hsplit, PopulateSpec.mem_remainders.2 ⟨path, hpath, hsplit⟩⟩
  by_cases hends : PopulateSpec.EndsAll attr paths
  · rw [PopulateSpec.nodeOf_of_endsAll hends, planBranch]
    refine (known_populatable t attr).ensures.bind fun a ⟨ha, hpopulatable⟩ => ?_
    refine shows_of (fun path hpath hfirst => ?_) _
    cases hsplit : Text.splitOnce '.' path with
    | none => exact halone a path ha hpopulatable hsplit hfirst
    | some p =>
      have hmem := (hrest path hpath p hsplit hfirst).2
      rw [PopulateSpec.remainders_eq_nil_iff.2 hends] at hmem
      exact absurd hmem List.not_mem_nil
  · rw [PopulateSpec.nodeOf_of_not_endsAll hends, PopulateNode.nested, planBranch]
    refine (known_populatable t attr).ensures.bind fun a ⟨ha, hpopulatable⟩ => ?_
    cases htarget : a.kind.relationTarget? with
    | none => exact ensures_throw _
    | some target =>
      refine (ensures_lookup target).bind fun u hu => ?_
      refine (below hends target u hu).bind fun _ hpaths => shows_of (fun path hpath hfirst => ?_) _
      cases hsplit : Text.splitOnce '.' path with
      | none => exact halone a path ha hpopulatable hsplit hfirst
      | some p =>
        obtain ⟨hsplit, hmem⟩ := hrest path hpath p hsplit hfirst
        exact .onward hsplit ha htarget hu (hpaths _ hmem)

/-- If paths can be planned, they can be followed. -/
theorem shows_hasPath (paths : List String) :
    ∀ t, Shows (planSpec r expand t (PopulateSpec.ofPaths paths))
      (∀ path ∈ paths, r.HasPath t path) := by
  induction paths using PopulateSpec.induction_remainders with
  | step paths ih =>
    intro t
    let spec := PopulateSpec.ofPaths paths
    let all := wholeEntries r expand t spec.wildcard (planEntries r expand t spec.entries)
    have hentries : ∀ e ∈ all, Shows e.2 (e.1 ∈ spec.entries.map (·.1) →
        ∀ path ∈ paths, PopulateSpec.firstSegment path = e.1 → r.HasPath t path) := by
      intro e he
      rcases of_mem_wholeEntries he with hgiven | ⟨-, hnone, -, -⟩
      · obtain ⟨node, hnode, hplan⟩ := of_mem_planEntries hgiven
        obtain rfl : node = PopulateSpec.nodeOf e.1 paths := PopulateSpec.mem_entries_ofPaths hnode
        rw [hplan]
        exact fun cache b hb _ => shows_planBranch (fun hlonger _ u _ => ih e.1 hlonger u) cache b hb
      · rw [keys_planEntries] at hnone
        exact shows_of (fun hmem => absurd hmem hnone) _
    intro cache plan hplan path hpath
    by_cases hwild : path = PopulateSpec.wildcardName
    · subst hwild
      exact .wildcard t
    · have hkey : PopulateSpec.firstSegment path ∈ spec.entries.map (·.1) :=
        PopulateSpec.mem_keys_ofPaths.2 ⟨path, hpath, hwild, rfl⟩
      have hmem : PopulateSpec.firstSegment path ∈ all.map (·.1) :=
        mem_keys_wholeEntries.2 (.inl (by rwa [keys_planEntries]))
      obtain ⟨e, he, hfirst⟩ := List.mem_map.1 hmem
      rw [planSpec, withWildcard_eq] at hplan
      exact shows_runAll hentries cache plan hplan e he (hfirst ▸ hkey) path hpath hfirst.symm

/-- An attribute with tags can be planned, so its tags can be expanded. -/
theorem shows_defaultBranch {p : DocumentType → Prop}
    (hexpand : ∀ tag u, r.get? tag = some u → Shows (expand u) (p u)) (ha : t.attr? attr = some a)
    {tags : Names} (htags : a.kind.tags? = some tags) :
    Shows (defaultBranch r expand t attr) (∀ tag ∈ tags, ∀ u, r.get? tag = some u → p u) := by
  refine (known_populatable t attr).ensures.bind fun a' ⟨ha', _⟩ => ?_
  obtain rfl := Option.some.inj (ha.symm.trans ha')
  have htag : ∀ (α : Type) tag (f : DocumentType → PopulatePlan → α),
      Shows (do
        let target ← ofSchema (r.get tag)
        return f target (← expand target)) (∀ u, r.get? tag = some u → p u) := by
    intro α tag f
    refine (ensures_lookup tag).bind fun u hu => (hexpand tag u hu).bind fun _ hp => ?_
    refine shows_of (fun v hv => ?_) _
    obtain rfl := Option.some.inj (hu.symm.trans hv)
    exact hp
  cases hkind : a.kind with
  | polymorphic tags' =>
    obtain rfl : tags' = tags := by
      rw [hkind] at htags
      exact Option.some.inj htags
    exact (shows_runAll fun tag _ => htag _ tag defaultTarget).bind fun _ h => ensures_pure h
  | dynamicZone tags' =>
    obtain rfl : tags' = tags := by
      rw [hkind] at htags
      exact Option.some.inj htags
    exact (shows_runAll fun tag _ => htag ComponentPlan tag fun component populate =>
      ⟨component.name, .all, populate⟩).bind fun _ h => ensures_pure h
  | _ =>
    rw [hkind] at htags
    exact absurd htags (by simp [AttributeKind.tags?])

theorem shows_planDefaults (depth : Nat) :
    Shows (planDefaults r (depth + 1) [] t) (∀ path ∈ t.defaultPopulate, r.HasPath t path) := by
  rw [planDefaults, if_neg List.not_mem_nil]
  exact shows_hasPath t.defaultPopulate t

end Planning

/-! ## The wildcard and bare attributes -/

/-- A specification that maps populatable attributes of a type to the default shape. -/
structure PopulateSpec.Bare (t : DocumentType) (spec : PopulateSpec) : Prop where
  sorted : Entries.Sorted spec.entries
  bare : ∀ e ∈ spec.entries, e.2 = .all
  populatable : ∀ e ∈ spec.entries, ∃ a, t.attr? e.1 = some a ∧ a.kind.isPopulatable = true

/-- The attributes that a bare specification stands for. -/
def PopulateSpec.StandsFor (t : DocumentType) (spec : PopulateSpec) (attr : String) : Prop :=
  attr ∈ Entries.keys spec.entries ∨
    (spec.wildcard = true ∧ ∃ a, t.attr? attr = some a ∧ a.kind.isPopulatable = true)

theorem PopulateSpec.bare_every (t : DocumentType) : PopulateSpec.every.Bare t where
  sorted := .nil
  bare := List.forall_mem_nil _
  populatable := List.forall_mem_nil _

namespace PopulatePlan
variable {r : Registry} {name : String} {t : DocumentType} {spec : PopulateSpec}

theorem build_of_defaultsLead (hr : r.Accepted) (h : r.DefaultsLead) (ht : r.get? name = some t)
    (hspec : spec.Bare t) (cache : PredicateCache) :
    ∃ plan, (PopulatePlan.build r t spec cache).1 = .ok plan ∧
      plan.attributes.Pairwise (· < ·) ∧ ∀ attr, attr ∈ plan.attributes ↔ spec.StandsFor t attr := by
  let expand := Planning.planDefaults r (r.types.length + 1) []
  have hexpand : Planning.Expandable r expand := Planning.expandable_planDefaults hr h _ []
  have hentries : ∀ e ∈ Planning.planEntries r expand t spec.entries,
      Planning.Succeeds e.2 fun b => b.attr = e.1 := by
    intro e he
    obtain ⟨node, hnode, hplan⟩ := Planning.of_mem_planEntries he
    obtain rfl : node = .all := hspec.bare _ hnode
    obtain ⟨a, ha, hpopulatable⟩ := hspec.populatable _ hnode
    rw [hplan, Planning.planBranch]
    exact Planning.succeeds_defaultBranch hr.closed hexpand ht ha hpopulatable
  have hkeys : (Planning.planEntries r expand t spec.entries).map (·.1) = spec.entries.map (·.1) :=
    Planning.keys_planEntries t spec.entries
  have hsucceeds : Planning.Succeeds (Planning.planSpec r expand t spec) fun plan =>
      plan.attributes = (Planning.wholeEntries r expand t spec.wildcard
        (Planning.planEntries r expand t spec.entries)).map (·.1) := by
    rw [Planning.planSpec]
    exact Planning.succeeds_withWildcard hr hexpand ht hentries
  obtain ⟨plan, hplan, hnames⟩ := hsucceeds.exists_ok cache
  refine ⟨plan, hplan, ?_, fun attr => ?_⟩
  · rw [hnames]
    exact List.pairwise_map.2 (Planning.sorted_wholeEntries (hspec.sorted.of_keys hkeys))
  · rw [hnames, Planning.mem_keys_wholeEntries, hkeys]
    refine or_congr_right (and_congr_right fun _ => ⟨?_, ?_⟩)
    · rintro ⟨a, ha, rfl⟩
      obtain ⟨hmem, hpopulatable⟩ := Planning.mem_relationAttributes.1 ha
      exact ⟨a, hr.attr? ht hmem, hpopulatable⟩
    · rintro ⟨a, ha, hpopulatable⟩
      exact ⟨a, Planning.mem_relationAttributes.2 ⟨List.mem_of_find?_eq_some ha, hpopulatable⟩,
        DocumentType.attr?_name ha⟩

/-- If the wildcard plans on a type, the defaults of what its attributes select by tag lead somewhere. -/
theorem hasPath_of_build {cache : PredicateCache} {plan : PopulatePlan}
    (h : (PopulatePlan.build r t .every cache).1 = .ok plan) {a : AttributeDefinition}
    (ha : t.attr? a.name = some a) {tags : Names} (htags : a.kind.tags? = some tags) {tag : String}
    (htag : tag ∈ tags) {u : DocumentType} (hu : r.get? tag = some u) :
    ∀ path ∈ u.defaultPopulate, r.HasPath u path := by
  let expand := Planning.planDefaults r (r.types.length + 1) []
  let all := Planning.wholeEntries r expand t true []
  have hall : ∀ e ∈ all, Planning.Shows e.2 (e.1 = a.name →
      ∀ tag ∈ tags, ∀ u, r.get? tag = some u → ∀ path ∈ u.defaultPopulate, r.HasPath u path) := by
    intro e he
    rcases Planning.of_mem_wholeEntries he with hnil | ⟨-, -, hdefault, -⟩
    · exact absurd hnil List.not_mem_nil
    · rw [hdefault]
      intro cache b hb hname
      exact Planning.shows_defaultBranch (fun _ _ _ => Planning.shows_planDefaults _) (hname ▸ ha)
        htags cache b hb
  have hmem : a.name ∈ all.map (·.1) := Planning.mem_keys_wholeEntries.2 (.inr ⟨rfl, a,
    Planning.mem_relationAttributes.2 ⟨List.mem_of_find?_eq_some ha,
      AttributeKind.populatable_of_tags htags⟩, rfl⟩)
  obtain ⟨e, he, hname⟩ := List.mem_map.1 hmem
  rw [PopulatePlan.build, PopulateSpec.every, Planning.planSpec, Planning.planEntries,
    Planning.withWildcard_eq] at h
  exact Planning.shows_runAll hall cache plan h e he hname tag htag u hu

/-- The defaults of what is selected by tag can be followed if and only if planning succeeds, whatever
the cache holds, on every type of the registry for the wildcard and for bare populatable attributes;
there is then a branch for each attribute that the specification stands for, in the order of their
names. A default without a dot can always be followed. -/
theorem bare_plans_iff_defaultsLead (hr : r.Accepted) :
    (r.DefaultsLead ↔ ∀ name t, r.get? name = some t → ∀ spec : PopulateSpec, spec.Bare t →
      ∀ cache, ∃ plan, (PopulatePlan.build r t spec cache).1 = .ok plan ∧
        plan.attributes.Pairwise (· < ·) ∧
        ∀ attr, attr ∈ plan.attributes ↔ spec.StandsFor t attr) ∧
    ∀ name t, r.get? name = some t → ∀ path ∈ t.defaultPopulate, '.' ∉ path.toList →
      r.HasPath t path := by
  refine ⟨⟨fun h name t ht spec hspec cache => build_of_defaultsLead hr h ht hspec cache,
    fun h u hu => ?_⟩, fun name t ht path hpath hdot => ?_⟩
  · obtain ⟨name, t, ht, a, ha, tags, htags, tag, htag, hu⟩ := hu
    obtain ⟨plan, hplan, -⟩ := h name t ht .every (PopulateSpec.bare_every t) (.empty 0)
    exact hasPath_of_build hplan (hr.attr? ht ha) htags htag hu
  · obtain ⟨a, ha, hpopulatable⟩ := hr.default ht hpath
    exact .alone hdot ha hpopulatable

end PopulatePlan

/-- No default of the blog has a dot. So on its articles the wildcard plans, and it populates all
attributes that are no scalars. -/
theorem PopulatePlan.bare_plans_iff_defaultsLead_blog :
    Blog.registry.Accepted ∧ ∃ plan,
      (PopulatePlan.build Blog.registry Blog.article.withSystemAttributes .every (.empty 0)).1 =
        .ok plan ∧
      plan.attributes.Pairwise (· < ·) ∧
      ∀ attr ∈ ["author", "blocks", "mentions", "related", "tags"], attr ∈ plan.attributes := by
  have hr : Blog.registry.Accepted := .built Blog.types _ Blog.build_types
  obtain ⟨hiff, hdotless⟩ := bare_plans_iff_defaultsLead hr
  have hdefaults : ∀ t ∈ Blog.types, ∀ path ∈ t.defaultPopulate, '.' ∉ path.toList := by decide
  have hlead : Blog.registry.DefaultsLead := by
    rintro u ⟨-, -, -, -, -, -, -, tag, -, hu⟩ path hpath
    refine hdotless tag u hu path hpath ?_
    obtain ⟨t, ht, -, rfl⟩ := Registry.given_of_build Blog.build_types hu
    exact hdefaults t ht path hpath
  have harticle : Blog.registry.get? "article" = some Blog.article.withSystemAttributes := rfl
  obtain ⟨plan, hplan, hsorted, hattrs⟩ :=
    hiff.1 hlead "article" _ harticle .every (PopulateSpec.bare_every _) (.empty 0)
  refine ⟨hr, plan, hplan, hsorted, fun attr hattr => (hattrs attr).2 (.inr ⟨rfl, ?_⟩)⟩
  have hfound : ∀ name ∈ ["author", "blocks", "mentions", "related", "tags"],
      (Blog.article.withSystemAttributes.attr? name).any (·.kind.isPopulatable) = true := by decide
  exact (Option.any_eq_true _ _).1 (hfound attr hattr)

/-! ## A default that leads nowhere -/

namespace Dotted

def card : DocumentType where
  name := "card"
  attributes := [⟨"next.page", .relationOne "page", false⟩]
  defaultPopulate := ["next.page"]

def page : DocumentType where
  name := "page"
  attributes := [⟨"part", .polymorphic ["card"], false⟩]

def types : List DocumentType := [page, card]

def registry : Registry := ⟨Entries.ofList (types.map fun t => (t.name, t.withSystemAttributes))⟩

theorem not_hasPath : ¬ registry.HasPath card.withSystemAttributes "next.page" := by
  intro h
  obtain ⟨a, -, -, ha, -⟩ :=
    h.of_splitOnce (show Text.splitOnce '.' "next.page" = some ("next", "page") by decide)
  have hnone : card.withSystemAttributes.attr? "next" = none := by decide
  exact absurd (ha.symm.trans hnone) (by simp)

end Dotted

/-- The default of cards is the name of a relation, with a dot in it. The registry is accepted, but on
pages, which select cards by tag, the wildcard never plans: a path would have to go on from an attribute
that is called as the part before the dot. -/
theorem PopulatePlan.dotted_default_unplanned :
    Dotted.registry.Accepted ∧
      Dotted.registry.get? "page" = some Dotted.page.withSystemAttributes ∧
      PopulateSpec.every.Bare Dotted.page.withSystemAttributes ∧
      ∀ cache plan, (PopulatePlan.build Dotted.registry Dotted.page.withSystemAttributes .every
        cache).1 ≠ .ok plan := by
  refine ⟨.built Dotted.types _ rfl, rfl, PopulateSpec.bare_every _, fun cache plan hplan => ?_⟩
  have hcard : Dotted.registry.get? "card" = some Dotted.card.withSystemAttributes := rfl
  exact Dotted.not_hasPath (hasPath_of_build (a := ⟨"part", .polymorphic ["card"], false⟩) hplan
    (by decide) rfl (List.mem_singleton_self _) hcard _ (List.mem_singleton_self _))

end ContentEngine
