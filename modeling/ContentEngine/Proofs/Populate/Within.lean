import ContentEngine.Proofs.Populate.Levels
import ContentEngine.Proofs.Schema.Closed

/-!
# Plans within the schema

`Branch.Planned` is the planner over a closed registry as a relation: which branch it makes for the
documents of a type from a specification, while the defaults of some types are being expanded. One pass
over the planner establishes it, and shows that planning cannot come to an unknown type.

So a plan stays within the schema, whatever its specification asks for: its branches are for
populatable attributes of their owner, and lead to types that are registered.
-/

namespace ContentEngine

/-! ## Branches and attributes -/

/-- The kind of attribute that a branch is for. -/
def Branch.Suits : Branch → AttributeKind → Prop
  | .relation _ _ one target, kind =>
    kind = if one then .relationOne target.docType else .relationMany target.docType
  | .polymorphic _ _ targets, kind =>
    ∃ tags, kind = .polymorphic tags ∧ ∀ t ∈ targets, t.docType ∈ tags
  | .dynamicZone _ _ components, kind =>
    ∃ tags, kind = .dynamicZone tags ∧ ∀ c ∈ components, c.docType ∈ tags

theorem Branch.suits_of_relationTarget {kind : AttributeKind} {target : TargetPlan}
    {owner attr : String} (h : kind.relationTarget? = some target.docType) :
    (Branch.relation owner attr (decide (kind.cardinality? = some .one)) target).Suits kind := by
  change kind = if _ = true then AttributeKind.relationOne target.docType
    else .relationMany target.docType
  cases kind <;> simp_all [AttributeKind.relationTarget?, AttributeKind.cardinality?]

/-- The branch is for a populatable attribute of the type. -/
structure Branch.DeclaredIn (t : DocumentType) (b : Branch) : Prop where
  owner : b.owner = t.name
  found : ∃ a, t.attr? b.attr = some a ∧ a.kind.isPopulatable = true ∧ b.Suits a.kind

/-- The branch stays within the schema, at every depth: it is for an attribute of its owner, and what
it fetches or embeds is of registered types. -/
inductive Branch.Closed (r : Registry) : DocumentType → Branch → Prop
  | relation {t : DocumentType} {owner attr : String} {one : Bool} {target : TargetPlan}
      (declared : (Branch.relation owner attr one target).DeclaredIn t)
      (fetched : ∃ u, r.collection target.docType = .ok u)
      (below : ∀ u, r.get? target.docType = some u → ∀ b ∈ target.populate, Branch.Closed r u b) :
      Branch.Closed r t (.relation owner attr one target)
  | polymorphic {t : DocumentType} {owner attr : String} {targets : List TargetPlan}
      (declared : (Branch.polymorphic owner attr targets).DeclaredIn t)
      (fetched : ∀ target ∈ targets, ∃ u, r.collection target.docType = .ok u)
      (below : ∀ target ∈ targets, ∀ u, r.get? target.docType = some u →
        ∀ b ∈ target.populate, Branch.Closed r u b) :
      Branch.Closed r t (.polymorphic owner attr targets)
  | dynamicZone {t : DocumentType} {owner attr : String} {components : List ComponentPlan}
      (declared : (Branch.dynamicZone owner attr components).DeclaredIn t)
      (embedded : ∀ c ∈ components, ∃ u, r.get? c.docType = some u ∧ u.kind = .component)
      (below : ∀ c ∈ components, ∀ u, r.get? c.docType = some u →
        ∀ b ∈ c.populate, Branch.Closed r u b) :
      Branch.Closed r t (.dynamicZone owner attr components)

/-! ## The planner as a relation -/

/-- The specification has the node for the attribute, or it has none and the node is the default. -/
def PopulateSpec.Selects (spec : PopulateSpec) (attr : String) (node : PopulateNode) : Prop :=
  (attr, node) ∈ spec.entries ∨ (attr ∉ spec.entries.map (·.1) ∧ node = .all)

/-- The node for the documents of a tag. -/
def PopulateNode.Selects : PopulateNode → String → PopulateNode → Prop
  | .tags nodes, tag, node => (tag, node) ∈ nodes
  | _, _, node => node = .all

theorem PopulateSpec.node_of_selects {spec : PopulateSpec} (hspec : spec.Keyed) {attr : String}
    {node : PopulateNode} (h : spec.Selects attr node) : spec.node attr = node := by
  unfold PopulateSpec.node
  rcases h with h | ⟨h, rfl⟩
  · rw [hspec.1.get?_of_mem h]
    rfl
  · rw [Entries.get?_eq_none_iff.2 h]
    rfl

theorem PopulateNode.behind_of_selects {node below : PopulateNode} (hnode : node.Keyed)
    {tag : String} (h : node.Selects tag below) : node.behind tag = below := by
  cases hnode with
  | tags nodes sorted entries =>
    have hmem : (tag, below) ∈ nodes := h
    rw [PopulateNode.behind, sorted.get?_of_mem hmem]
    rfl
  | _ => exact Eq.symm h

mutual
/-- A branch that the planner makes for the documents of a type from a specification, while the
defaults of some types are being expanded. -/
inductive Branch.Planned (r : Registry) :
    List String → DocumentType → PopulateSpec → Branch → Prop
  | relationDefault {opened : List String} {t : DocumentType} {spec : PopulateSpec}
      {owner attr : String} {one : Bool} {target : TargetPlan}
      (declared : (Branch.relation owner attr one target).DeclaredIn t)
      (selects : spec.Selects attr .all) (plain : target.populate = []) :
      Branch.Planned r opened t spec (.relation owner attr one target)
  | relation {opened : List String} {t : DocumentType} {spec : PopulateSpec}
      {owner attr : String} {one : Bool} {target : TargetPlan} (shape : PopulateShape)
      (declared : (Branch.relation owner attr one target).DeclaredIn t)
      (selects : spec.Selects attr (.shape shape))
      (below : PopulateNode.Planned r opened target.docType (.shape shape) target.populate) :
      Branch.Planned r opened t spec (.relation owner attr one target)
  | polymorphic {opened : List String} {t : DocumentType} {spec : PopulateSpec}
      {owner attr : String} {targets : List TargetPlan} (node : PopulateNode)
      (declared : (Branch.polymorphic owner attr targets).DeclaredIn t)
      (selects : spec.Selects attr node)
      (below : ∀ target ∈ targets,
        PopulateNode.PlannedTag r opened node target.docType target.populate) :
      Branch.Planned r opened t spec (.polymorphic owner attr targets)
  | dynamicZone {opened : List String} {t : DocumentType} {spec : PopulateSpec}
      {owner attr : String} {components : List ComponentPlan} (node : PopulateNode)
      (declared : (Branch.dynamicZone owner attr components).DeclaredIn t)
      (selects : spec.Selects attr node)
      (below : ∀ c ∈ components, PopulateNode.PlannedTag r opened node c.docType c.populate) :
      Branch.Planned r opened t spec (.dynamicZone owner attr components)

/-- The plan of the documents of one tag of a node. -/
inductive PopulateNode.PlannedTag (r : Registry) :
    List String → PopulateNode → String → PopulatePlan → Prop
  | tag {opened : List String} {node : PopulateNode} {docType : String} {plan : PopulatePlan}
      (below : PopulateNode) (selects : node.Selects docType below)
      (planned : PopulateNode.Planned r opened docType below plan) :
      PopulateNode.PlannedTag r opened node docType plan

/-- The plan of the documents of a type below a node. The default shape stands for the defaults of
the type, unless they are being expanded. -/
inductive PopulateNode.Planned (r : Registry) :
    List String → String → PopulateNode → PopulatePlan → Prop
  | shape {opened : List String} {docType : String} {plan : PopulatePlan} (shape : PopulateShape)
      (branches : ∀ t, r.get? docType = some t →
        ∀ b ∈ plan, Branch.Planned r opened t shape.populate b) :
      PopulateNode.Planned r opened docType (.shape shape) plan
  | first {opened : List String} {docType : String} {plan : PopulatePlan} (new : docType ∉ opened)
      (branches : ∀ t, r.get? docType = some t →
        ∀ b ∈ plan, Branch.Planned r (docType :: opened) t (.ofPaths t.defaultPopulate) b)
      (whole : ∀ t, r.get? docType = some t →
        ∀ e ∈ (PopulateSpec.ofPaths t.defaultPopulate).entries, e.1 ∈ plan.attributes) :
      PopulateNode.Planned r opened docType .all plan
  | again {opened : List String} {docType : String} (old : docType ∈ opened) :
      PopulateNode.Planned r opened docType .all []
end

/-! ### The schema -/

section
variable {r : Registry} {name : String} {t : DocumentType} {owner attr : String}

theorem Branch.DeclaredIn.fetched {one : Bool} {target : TargetPlan} (hr : r.Closed)
    (ht : r.get? name = some t) (h : (Branch.relation owner attr one target).DeclaredIn t) :
    ∃ u, r.collection target.docType = .ok u := by
  obtain ⟨a, ha, -, hsuits⟩ := h.found
  have htarget : a.kind.relationTarget? = some target.docType := by
    rw [show a.kind = _ from hsuits]
    cases one <;> rfl
  obtain ⟨u, hu, hkind⟩ := hr.relationTarget ht (List.mem_of_find?_eq_some ha) htarget
  exact ⟨u, Registry.collection_of_get? hu hkind⟩

theorem Branch.DeclaredIn.fetchedTag {targets : List TargetPlan} (hr : r.Closed)
    (ht : r.get? name = some t) (h : (Branch.polymorphic owner attr targets).DeclaredIn t)
    {target : TargetPlan} (htarget : target ∈ targets) :
    ∃ u, r.collection target.docType = .ok u := by
  obtain ⟨a, ha, -, tags, hkind, htags⟩ := h.found
  obtain ⟨u, hu, hcollection⟩ :=
    hr.polymorphicTag ht (List.mem_of_find?_eq_some ha) hkind (htags target htarget)
  exact ⟨u, Registry.collection_of_get? hu hcollection⟩

theorem Branch.DeclaredIn.embeddedTag {components : List ComponentPlan} (hr : r.Closed)
    (ht : r.get? name = some t) (h : (Branch.dynamicZone owner attr components).DeclaredIn t)
    {component : ComponentPlan} (hc : component ∈ components) :
    ∃ u, r.get? component.docType = some u ∧ u.kind = .component := by
  obtain ⟨a, ha, -, tags, hkind, htags⟩ := h.found
  exact hr.zoneTag ht (List.mem_of_find?_eq_some ha) hkind (htags component hc)

end

mutual
theorem Branch.Planned.closed {r : Registry} (hr : r.Closed) :
    {opened : List String} → {t : DocumentType} → {spec : PopulateSpec} → {b : Branch} →
      {name : String} → r.get? name = some t → b.Planned r opened t spec → b.Closed r t
  | _, _, _, _, _, ht, .relationDefault declared _ plain =>
    .relation declared (declared.fetched hr ht) fun _ _ b hb => by simp [plain] at hb
  | _, _, _, _, _, ht, .relation _ declared _ below =>
    .relation declared (declared.fetched hr ht) fun _ hu => below.closed hr hu
  | _, _, _, _, _, ht, .polymorphic _ declared _ below =>
    .polymorphic declared (fun _ htarget => declared.fetchedTag hr ht htarget)
      fun target htarget _ hu => (below target htarget).closed hr hu
  | _, _, _, _, _, ht, .dynamicZone _ declared _ below =>
    .dynamicZone declared (fun _ hc => declared.embeddedTag hr ht hc)
      fun c hc _ hu => (below c hc).closed hr hu

theorem PopulateNode.PlannedTag.closed {r : Registry} (hr : r.Closed) :
    {opened : List String} → {node : PopulateNode} → {docType : String} → {plan : PopulatePlan} →
      {t : DocumentType} → r.get? docType = some t →
      PopulateNode.PlannedTag r opened node docType plan → ∀ b ∈ plan, b.Closed r t
  | _, _, _, _, _, ht, .tag _ _ planned => planned.closed hr ht

theorem PopulateNode.Planned.closed {r : Registry} (hr : r.Closed) :
    {opened : List String} → {docType : String} → {node : PopulateNode} → {plan : PopulatePlan} →
      {t : DocumentType} → r.get? docType = some t →
      PopulateNode.Planned r opened docType node plan → ∀ b ∈ plan, b.Closed r t
  | _, _, _, _, _, ht, .shape _ branches => fun b hb => (branches _ ht b hb).closed hr ht
  | _, _, _, _, _, ht, .first _ branches _ => fun b hb => (branches _ ht b hb).closed hr ht
  | _, _, _, _, _, _, .again _ => fun _ hb => absurd hb List.not_mem_nil
end

/-! ### One pass over the planner -/

namespace Planning
variable {α : Type} {P : α → Prop}

/-- Planning gives a result with a property, or fails for another reason than an unknown type. -/
abbrev Known (m : Planning α) (P : α → Prop) : Prop := Ends m P fun e => e.isUnknownType = false

theorem known_ofSchema {x : Except SchemaError α} (h : ∀ e, x = .error e → e.isUnknownType = false) :
    Known (ofSchema x) fun a => x = .ok a := by
  cases x with
  | ok a => exact ends_pure rfl
  | error e => exact ends_throw (h e rfl)

theorem ends_runAll {γ : Type} {R : γ → α → Prop} {E : PopulateError → Prop} {f : γ → Planning α}
    {l : List γ} (h : ∀ c ∈ l, Ends (f c) (R c) E) :
    Ends (runAll (l.map f)) (List.Forall₂ R l) E := by
  induction l with
  | nil => exact ends_pure .nil
  | cons c l ih =>
    refine (h c (List.mem_cons_self ..)).bind fun a ha => ?_
    refine Ends.bind (ih fun d hd => h d (List.mem_cons_of_mem _ hd)) fun as has => ?_
    exact ends_pure (.cons ha has)

theorem known_populatable (t : DocumentType) (name : String) :
    Known (populatable t name) fun a => t.attr? name = some a ∧ a.kind.isPopulatable = true := by
  unfold populatable
  cases ha : t.attr? name with
  | none => exact ends_throw rfl
  | some a =>
    cases hkind : a.kind.isPopulatable with
    | false =>
      simp only [hkind]
      exact ends_throw rfl
    | true =>
      simp only [hkind, if_true]
      exact ends_pure ⟨rfl, hkind⟩

theorem known_checkTags (t : DocumentType) (attr : String) (allowed : Names)
    (selected : List String) :
    Known (checkTags t attr allowed selected) fun _ => ∀ tag ∈ selected, tag ∈ allowed := by
  unfold checkTags
  cases hfind : selected.find? (· ∉ allowed) with
  | some tag => exact ends_throw rfl
  | none =>
    refine ends_pure fun tag htag => ?_
    simpa using List.find?_eq_none.1 hfind tag htag

theorem known_project (t : DocumentType) (fields : Option Names) (populate : PopulatePlan) :
    Known (project t fields populate) fun _ => True := by
  cases fields with
  | none => exact ends_pure trivial
  | some names =>
    have hnames : Known (names.forM fun name => ofSchema ((t.getAttr name).map fun _ => ()))
        fun _ => True := by
      induction names with
      | nil => exact ends_pure trivial
      | cons name names ih =>
        refine (known_ofSchema fun e he => ?_).andThen fun _ => ih
        exact DocumentType.getAttr_known (Except.map_eq_error_iff.1 he)
    exact hnames.andThen fun _ => ends_pure trivial

section
variable {r : Registry} {name : String} {t : DocumentType}

theorem ends_lookup {u : DocumentType} (hu : r.get? name = some u) {E : PopulateError → Prop} :
    Ends (ofSchema (r.get name)) (· = u) E := by
  rw [Registry.get_eq_ok_iff.2 hu]
  exact ends_pure rfl

theorem known_compileFilter (hr : r.Closed) (ht : r.get? name = some t) (f : Filter) :
    Known (compileFilter r t f) fun _ => True := by
  refine ⟨ensures_true _, fun cache e he => ?_⟩
  have hrun : (compileFilter r t f).run.run cache =
      (((cache.getOrCompile r t f).1.map (·.1)).mapError PopulateError.filter,
        (cache.getOrCompile r t f).2) := by
    have hget : ∀ k : PredicateCache → Planning Predicate,
        (get >>= k).run.run cache = (k cache).run.run cache := fun _ => rfl
    unfold compileFilter
    rw [hget]
    rcases cache.getOrCompile r t f with ⟨e | ⟨p, hit⟩, c⟩ <;> rfl
  rw [hrun] at he
  cases hcompiled : (cache.getOrCompile r t f).1 with
  | ok x =>
    rw [hcompiled] at he
    exact absurd he (by rintro ⟨⟩)
  | error e' =>
    rw [hcompiled] at he
    obtain rfl := Except.error.inj he
    exact PredicateCache.getOrCompile_known hr ht hcompiled

theorem known_target (hr : r.Closed) (ht : r.get? name = some t) (fields : Option Names)
    (filters : Option Filter) (populate : PopulatePlan) :
    Known (Planning.target r t fields filters populate) fun target =>
      target.docType = t.name ∧ target.populate = populate := by
  refine (known_project t fields populate).andThen fun projection => ?_
  have hfilter : Known (filters.mapM (compileFilter r t)) fun _ => True := by
    cases filters with
    | none => exact ends_pure trivial
    | some f => exact (known_compileFilter hr ht f).andThen fun p => ends_pure trivial
  exact hfilter.andThen fun filter => ends_pure ⟨rfl, rfl⟩

/-- The plan of the documents of a type: a branch for every entry, and others with the wildcard. -/
structure PlannedFor (r : Registry) (opened : List String) (t : DocumentType) (spec : PopulateSpec)
    (plan : PopulatePlan) : Prop where
  branches : ∀ b ∈ plan, b.Planned r opened t spec
  whole : ∀ e ∈ spec.entries, e.1 ∈ plan.attributes

theorem PlannedFor.shape {opened : List String} {shape : PopulateShape} {plan : PopulatePlan}
    (h : PlannedFor r opened t shape.populate plan) (ht : r.get? name = some t) :
    PopulateNode.Planned r opened name (.shape shape) plan := by
  refine .shape shape fun u hu => ?_
  obtain rfl : t = u := Option.some.inj (ht.symm.trans hu)
  exact h.branches

/-- What the planner makes of a node under a name. -/
def PlannedUnder (r : Registry) (opened : List String) (t : DocumentType) (name : String)
    (node : PopulateNode) (b : Branch) : Prop :=
  b.attr = name ∧ ∀ spec : PopulateSpec, spec.Selects name node → b.Planned r opened t spec

/-- Defaults of registered types are expanded while those of some types are. -/
def Expands (r : Registry) (opened : List String) (expand : DocumentType → Planning PopulatePlan) :
    Prop :=
  ∀ u, r.get? u.name = some u → Known (expand u) (PopulateNode.Planned r opened u.name .all)

theorem declaredIn_of_populatable {a : AttributeDefinition} (ha : t.attr? a.name = some a)
    (hpopulatable : a.kind.isPopulatable = true) {b : Branch} (howner : b.owner = t.name)
    (hname : b.attr = a.name) (hsuits : b.Suits a.kind) : b.DeclaredIn t :=
  ⟨howner, a, by rw [hname, ha], hpopulatable, hsuits⟩

section
variable {β : Type} {docType : β → String} {populate : β → PopulatePlan} {opened : List String}

/-- Every one of several tags in the default shape. -/
theorem plannedTag_all {tags : Names} {targets : List β}
    (h : List.Forall₂ (fun tag target => docType target = tag ∧
      PopulateNode.Planned r opened tag .all (populate target)) tags targets) :
    ∀ target ∈ targets, docType target ∈ tags ∧
      PopulateNode.PlannedTag r opened .all (docType target) (populate target) := by
  intro target htarget
  obtain ⟨tag, htag, rfl, hplanned⟩ := exists_of_forall₂ h.flip htarget
  exact ⟨htag, .tag .all rfl hplanned⟩

/-- Every one of several tags with a node of its own. -/
theorem plannedTag_tags {nodes : List (String × PopulateNode)} {targets : List β}
    (h : List.Forall₂ (fun e target => docType target = e.1 ∧
      PopulateNode.Planned r opened e.1 e.2 (populate target)) nodes targets) :
    ∀ target ∈ targets, docType target ∈ nodes.map (·.1) ∧
      PopulateNode.PlannedTag r opened (.tags nodes) (docType target) (populate target) := by
  intro target htarget
  obtain ⟨⟨tag, node⟩, he, htag, hplanned⟩ := exists_of_forall₂ h.flip htarget
  rw [htag]
  exact ⟨List.mem_map_of_mem he, .tag node he hplanned⟩

end

section
variable {expand : DocumentType → Planning PopulatePlan} {opened : List String}

theorem known_expand (hr : r.Closed) (hexpand : Expands r opened expand) {tag : String}
    {u : DocumentType} (hu : r.get? tag = some u) :
    u.name = tag ∧ Known (expand u) (PopulateNode.Planned r opened tag .all) := by
  obtain rfl := hr.named _ _ hu
  exact ⟨rfl, hexpand u hu⟩

theorem known_defaultBranch (hr : r.Closed) (hexpand : Expands r opened expand)
    (ht : r.get? name = some t) (attr : String) :
    Known (defaultBranch r expand t attr) (PlannedUnder r opened t attr .all) := by
  refine (known_populatable t attr).bind fun a ⟨ha, hpopulatable⟩ => ?_
  obtain rfl := DocumentType.attr?_name ha
  have hmem : a ∈ t.attributes := List.mem_of_find?_eq_some ha
  cases hkind : a.kind with
  | scalar kind => exact ends_throw rfl
  | relationOne target =>
    obtain ⟨u, hu, -⟩ := hr.relationTarget ht hmem (by rw [hkind]; rfl)
    obtain rfl := hr.named _ _ hu
    refine (ends_lookup hu).bind fun v hv => ends_pure ⟨rfl, fun spec hspec => ?_⟩
    subst hv
    exact .relationDefault (declaredIn_of_populatable ha hpopulatable rfl rfl hkind) hspec rfl
  | relationMany target =>
    obtain ⟨u, hu, -⟩ := hr.relationTarget ht hmem (by rw [hkind]; rfl)
    obtain rfl := hr.named _ _ hu
    refine (ends_lookup hu).bind fun v hv => ends_pure ⟨rfl, fun spec hspec => ?_⟩
    subst hv
    exact .relationDefault (declaredIn_of_populatable ha hpopulatable rfl rfl hkind) hspec rfl
  | polymorphic tags =>
    refine (ends_runAll (R := fun tag target => target.docType = tag ∧
      PopulateNode.Planned r opened tag .all target.populate) fun tag htag => ?_).bind
      fun targets htargets => ends_pure ⟨rfl, fun spec hspec => ?_⟩
    · obtain ⟨u, hu, -⟩ := hr.polymorphicTag ht hmem hkind htag
      obtain ⟨hname, hplan⟩ := known_expand hr hexpand hu
      refine (ends_lookup hu).bind fun v hv => ?_
      subst hv
      exact hplan.bind fun plan hplanned => ends_pure ⟨hname, hplanned⟩
    · have hall := plannedTag_all htargets
      refine .polymorphic .all (declaredIn_of_populatable ha hpopulatable rfl rfl ?_) hspec
        fun target htarget => (hall target htarget).2
      exact ⟨tags, hkind, fun target htarget => (hall target htarget).1⟩
  | dynamicZone tags =>
    refine (ends_runAll (R := fun tag component => component.docType = tag ∧
      PopulateNode.Planned r opened tag .all component.populate) fun tag htag => ?_).bind
      fun components hcomponents => ends_pure ⟨rfl, fun spec hspec => ?_⟩
    · obtain ⟨u, hu, -⟩ := hr.zoneTag ht hmem hkind htag
      obtain ⟨hname, hplan⟩ := known_expand hr hexpand hu
      refine (ends_lookup hu).bind fun v hv => ?_
      subst hv
      exact hplan.bind fun plan hplanned => ends_pure ⟨hname, hplanned⟩
    · have hall := plannedTag_all hcomponents
      refine .dynamicZone .all (declaredIn_of_populatable ha hpopulatable rfl rfl ?_) hspec
        fun c hc => (hall c hc).2
      exact ⟨tags, hkind, fun c hc => (hall c hc).1⟩

theorem known_withWildcard (hr : r.Closed) (hexpand : Expands r opened expand)
    (ht : r.get? name = some t) (spec : PopulateSpec) {entries : Entries (Planning Branch)}
    (hkeys : entries.map (·.1) = spec.entries.map (·.1))
    (hentries : ∀ e ∈ entries, ∃ node, (e.1, node) ∈ spec.entries ∧
      Known e.2 (PlannedUnder r opened t e.1 node)) :
    Known (withWildcard r expand t spec.wildcard entries) (PlannedFor r opened t spec) := by
  let missing := t.relationAttributes.filter fun a => !Entries.contains entries a.name
  let defaults := missing.map fun a => (a.name, defaultBranch r expand t a.name)
  let all := if spec.wildcard then Entries.insertAll entries defaults else entries
  have hgiven : ∀ e ∈ entries,
      Known e.2 fun b => b.attr = e.1 ∧ b.Planned r opened t spec := by
    intro e he
    obtain ⟨node, hnode, hplanned⟩ := hentries e he
    exact hplanned.imp (fun b hb => ⟨hb.1, hb.2 spec (.inl hnode)⟩) fun _ => id
  have hdefaults : ∀ e ∈ defaults,
      Known e.2 fun b => b.attr = e.1 ∧ b.Planned r opened t spec := by
    intro e he
    obtain ⟨a, ha, rfl⟩ := List.mem_map.1 he
    have hnone : a.name ∉ spec.entries.map (·.1) := by
      rw [← hkeys, ← Entries.get?_eq_none_iff]
      simpa [Entries.contains] using (List.mem_filter.1 ha).2
    exact (known_defaultBranch hr hexpand ht a.name).imp
      (fun b hb => ⟨hb.1, hb.2 spec (.inr ⟨hnone, rfl⟩)⟩) fun _ => id
  have hall : (∀ e ∈ spec.entries, e.1 ∈ all.map (·.1)) ∧
      ∀ e ∈ all, Known e.2 fun b => b.attr = e.1 ∧ b.Planned r opened t spec := by
    cases hwildcard : spec.wildcard with
    | false =>
      simp only [all, hwildcard]
      exact ⟨fun e he => hkeys ▸ List.mem_map_of_mem he, hgiven⟩
    | true =>
      simp only [all, hwildcard, if_true]
      exact ⟨fun e he => Entries.mem_keys_insertAll _ (hkeys ▸ List.mem_map_of_mem he),
        fun e he => (Entries.mem_insertAll he).elim (hgiven e) (hdefaults e)⟩
  refine (ends_runAll (f := fun e : String × Planning Branch => e.2) hall.2).imp
    (fun plan hplan => ⟨fun b hb => ?_, fun e he => ?_⟩) fun _ => id
  · obtain ⟨e, -, -, hplanned⟩ := exists_of_forall₂ hplan.flip hb
    exact hplanned
  · obtain ⟨e', he', hname⟩ := List.mem_map.1 (hall.1 e he)
    obtain ⟨b, hb, hattr, -⟩ := exists_of_forall₂ hplan he'
    exact List.mem_map.2 ⟨b, hb, hattr.trans hname⟩

mutual
theorem known_planSpec (hr : r.Closed) (hexpand : Expands r opened expand) {name : String}
    {t : DocumentType} (ht : r.get? name = some t) : (spec : SpecOf PopulateNode) →
      Known (planSpec r expand t spec) (PlannedFor r opened t spec)
  | ⟨wildcard, entries⟩ => by
    rw [planSpec]
    exact known_withWildcard hr hexpand ht ⟨wildcard, entries⟩ (keys_planEntries t entries)
      (known_planEntries hr hexpand ht entries)

theorem known_planEntries (hr : r.Closed) (hexpand : Expands r opened expand) {name : String}
    {t : DocumentType} (ht : r.get? name = some t) : (entries : List (String × PopulateNode)) →
      ∀ e ∈ planEntries r expand t entries, ∃ node, (e.1, node) ∈ entries ∧
        Known e.2 (PlannedUnder r opened t e.1 node)
  | [] => by simp [planEntries]
  | (attr, node) :: rest => by
    simp only [planEntries]
    refine List.forall_mem_cons.2 ⟨⟨node, List.mem_cons_self .., ?_⟩, fun e he => ?_⟩
    · exact known_planBranch hr hexpand ht attr node
    · obtain ⟨node', hnode, hplanned⟩ := known_planEntries hr hexpand ht rest e he
      exact ⟨node', List.mem_cons_of_mem _ hnode, hplanned⟩

theorem known_planBranch (hr : r.Closed) (hexpand : Expands r opened expand) {name : String}
    {t : DocumentType} (ht : r.get? name = some t) (attr : String) : (node : PopulateNode) →
      Known (planBranch r expand t attr node) (PlannedUnder r opened t attr node)
  | .all => by
    rw [planBranch]
    exact known_defaultBranch hr hexpand ht attr
  | .shape ⟨fields, filters, populate⟩ => by
    rw [planBranch]
    refine (known_populatable t attr).bind fun a ⟨ha, hpopulatable⟩ => ?_
    obtain rfl := DocumentType.attr?_name ha
    cases htarget : a.kind.relationTarget? with
    | none => exact ends_throw rfl
    | some target =>
      obtain ⟨u, hu, -⟩ := hr.relationTarget ht (List.mem_of_find?_eq_some ha) htarget
      obtain rfl := hr.named _ _ hu
      refine (ends_lookup hu).bind fun v hv => ?_
      subst hv
      refine (known_planSpec hr hexpand hu populate).bind fun plan hplan => ?_
      refine (known_target hr hu fields filters plan).bind fun target ⟨hname, hpopulate⟩ => ?_
      refine ends_pure ⟨rfl, fun spec hspec => .relation ⟨fields, filters, populate⟩
        (declaredIn_of_populatable ha hpopulatable rfl rfl ?_) hspec ?_⟩
      · exact Branch.suits_of_relationTarget (hname ▸ htarget)
      · rw [hname, hpopulate]
        exact hplan.shape hu
  | .tags nodes => by
    rw [planBranch]
    refine (known_populatable t attr).bind fun a ⟨ha, hpopulatable⟩ => ?_
    obtain rfl := DocumentType.attr?_name ha
    have hmem : a ∈ t.attributes := List.mem_of_find?_eq_some ha
    cases hkind : a.kind with
    | polymorphic tags =>
      refine (known_checkTags t a.name tags (nodes.map (·.1))).bind fun _ htags => ?_
      have hregistered : ∀ e ∈ nodes, ∃ u, r.get? e.1 = some u := by
        intro e he
        obtain ⟨u, hu, -⟩ := hr.polymorphicTag ht hmem hkind (htags _ (List.mem_map_of_mem he))
        exact ⟨u, hu⟩
      refine (known_planTargets hr hexpand nodes hregistered).bind fun targets htargets => ?_
      have hall := plannedTag_tags htargets
      refine ends_pure ⟨rfl, fun spec hspec => .polymorphic (.tags nodes)
        (declaredIn_of_populatable ha hpopulatable rfl rfl ?_) hspec
        fun target htarget => (hall target htarget).2⟩
      exact ⟨tags, hkind, fun target htarget => htags _ (hall target htarget).1⟩
    | dynamicZone tags =>
      refine (known_checkTags t a.name tags (nodes.map (·.1))).bind fun _ htags => ?_
      have hregistered : ∀ e ∈ nodes, ∃ u, r.get? e.1 = some u := by
        intro e he
        obtain ⟨u, hu, -⟩ := hr.zoneTag ht hmem hkind (htags _ (List.mem_map_of_mem he))
        exact ⟨u, hu⟩
      refine (known_planComponents hr hexpand nodes hregistered).bind fun components hcomponents => ?_
      have hall := plannedTag_tags hcomponents
      refine ends_pure ⟨rfl, fun spec hspec => .dynamicZone (.tags nodes)
        (declaredIn_of_populatable ha hpopulatable rfl rfl ?_) hspec fun c hc => (hall c hc).2⟩
      exact ⟨tags, hkind, fun c hc => htags _ (hall c hc).1⟩
    | _ => exact ends_throw rfl

theorem known_planTargets (hr : r.Closed) (hexpand : Expands r opened expand) :
    (nodes : List (String × PopulateNode)) → (∀ e ∈ nodes, ∃ u, r.get? e.1 = some u) →
      Known (planTargets r expand nodes) (List.Forall₂ (fun e target => target.docType = e.1 ∧
        PopulateNode.Planned r opened e.1 e.2 target.populate) nodes)
  | [], _ => by
    rw [planTargets]
    exact ends_pure .nil
  | (tag, .all) :: rest, h => by
    have hrest := known_planTargets hr hexpand rest fun e he => h e (List.mem_cons_of_mem _ he)
    obtain ⟨u, hu⟩ := h _ (List.mem_cons_self ..)
    obtain ⟨hname, hexpanded⟩ := known_expand hr hexpand hu
    rw [planTargets]
    refine (ends_lookup hu).bind fun v hv => ?_
    subst hv
    refine hexpanded.bind fun plan hplan => ?_
    exact hrest.bind fun targets htargets => ends_pure (.cons ⟨hname, hplan⟩ htargets)
  | (tag, .shape ⟨fields, filters, populate⟩) :: rest, h => by
    have hrest := known_planTargets hr hexpand rest fun e he => h e (List.mem_cons_of_mem _ he)
    obtain ⟨u, hu⟩ := h _ (List.mem_cons_self ..)
    rw [planTargets]
    refine (ends_lookup hu).bind fun v hv => ?_
    subst hv
    refine (known_planSpec hr hexpand hu populate).bind fun plan hplan => ?_
    refine (known_target hr hu fields filters plan).bind fun target ⟨hname, hpopulate⟩ => ?_
    have hplanned : PopulateNode.Planned r opened tag (.shape ⟨fields, filters, populate⟩)
        target.populate := hpopulate ▸ hplan.shape hu
    exact hrest.bind fun targets htargets =>
      ends_pure (.cons ⟨hname.trans (hr.named _ _ hu), hplanned⟩ htargets)
  | (tag, .tags _) :: _, h => by
    obtain ⟨u, hu⟩ := h _ (List.mem_cons_self ..)
    rw [planTargets]
    exact (ends_lookup hu).andThen fun _ => ends_throw rfl

theorem known_planComponents (hr : r.Closed) (hexpand : Expands r opened expand) :
    (nodes : List (String × PopulateNode)) → (∀ e ∈ nodes, ∃ u, r.get? e.1 = some u) →
      Known (planComponents r expand nodes) (List.Forall₂ (fun e c => c.docType = e.1 ∧
        PopulateNode.Planned r opened e.1 e.2 c.populate) nodes)
  | [], _ => by
    rw [planComponents]
    exact ends_pure .nil
  | (tag, .all) :: rest, h => by
    have hrest := known_planComponents hr hexpand rest fun e he => h e (List.mem_cons_of_mem _ he)
    obtain ⟨u, hu⟩ := h _ (List.mem_cons_self ..)
    obtain ⟨hname, hexpanded⟩ := known_expand hr hexpand hu
    rw [planComponents]
    refine (ends_lookup hu).bind fun v hv => ?_
    subst hv
    refine hexpanded.bind fun plan hplan => ?_
    exact hrest.bind fun components hcomponents => ends_pure (.cons ⟨hname, hplan⟩ hcomponents)
  | (tag, .shape ⟨fields, filters, populate⟩) :: rest, h => by
    have hrest := known_planComponents hr hexpand rest fun e he => h e (List.mem_cons_of_mem _ he)
    obtain ⟨u, hu⟩ := h _ (List.mem_cons_self ..)
    rw [planComponents]
    refine (ends_lookup hu).bind fun v hv => ?_
    subst hv
    split
    · exact ends_throw rfl
    · refine (known_planSpec hr hexpand hu populate).bind fun plan hplan => ?_
      refine (known_project v fields plan).andThen fun projection => ?_
      exact hrest.bind fun components hcomponents =>
        ends_pure (.cons ⟨hr.named _ _ hu, hplan.shape hu⟩ hcomponents)
  | (tag, .tags _) :: _, h => by
    obtain ⟨u, hu⟩ := h _ (List.mem_cons_self ..)
    rw [planComponents]
    exact (ends_lookup hu).andThen fun _ => ends_throw rfl
end

end

/-- Types that are being expanded are registered and different, so there are at most as many of them
as there are types, and the bound on the depth is never met. -/
theorem known_planDefaults (hr : r.Closed) (depth : Nat) (opened : List String) (t : DocumentType)
    (ht : r.get? t.name = some t) (honce : opened.Nodup)
    (hopened : ∀ name ∈ opened, name ∈ r.types.map (·.1))
    (hdepth : opened.length + depth = r.types.length + 1) :
    Known (planDefaults r depth opened t) (PopulateNode.Planned r opened t.name .all) := by
  induction depth generalizing opened t with
  | zero =>
    have hle : opened.length ≤ (r.types.map (·.1)).length := honce.length_le_of_subset hopened
    rw [List.length_map] at hle
    omega
  | succ depth ih =>
    rw [planDefaults]
    by_cases hold : t.name ∈ opened
    · rw [if_pos hold]
      exact ends_pure (.again hold)
    · rw [if_neg hold]
      have hregistered : t.name ∈ r.types.map (·.1) :=
        List.mem_map_of_mem (Entries.mem_of_get? ht)
      have hexpand : Expands r (t.name :: opened) (planDefaults r depth (t.name :: opened)) :=
        fun u hu => ih (t.name :: opened) u hu (List.nodup_cons.2 ⟨hold, honce⟩)
          (List.forall_mem_cons.2 ⟨hregistered, hopened⟩) (by rw [List.length_cons]; omega)
      refine (known_planSpec hr hexpand ht _).imp (fun plan hplan => .first hold ?_ ?_) fun _ => id
      · intro u hu
        obtain rfl : t = u := Option.some.inj (ht.symm.trans hu)
        exact hplan.branches
      · intro u hu
        obtain rfl : t = u := Option.some.inj (ht.symm.trans hu)
        exact hplan.whole

end

end Planning

theorem PopulatePlan.known_build {r : Registry} (hr : r.Closed) {name : String} {t : DocumentType}
    (ht : r.get? name = some t) (spec : PopulateSpec) :
    Planning.Known (Planning.planSpec r (Planning.planDefaults r (r.types.length + 1) []) t spec)
      (Planning.PlannedFor r [] t spec) := by
  refine Planning.known_planSpec hr (fun u hu => ?_) ht spec
  exact Planning.known_planDefaults hr _ [] u hu .nil (List.forall_mem_nil _) (Nat.zero_add _)

end ContentEngine
