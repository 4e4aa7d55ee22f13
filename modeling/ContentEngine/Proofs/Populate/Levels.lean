import ContentEngine.Proofs.Filter.Compilation
import ContentEngine.Proofs.Populate.Planned

/-!
# The levels of a plan

A plan is what its specification asks for: at every level it has a branch for each attribute that
the specification has an entry for, and it shows of the documents of that level the fields that their
shape names, and what is populated behind them. So the branches of a level are for different
attributes, and the projection of its documents keeps these.
-/

namespace ContentEngine

/-- A level of a plan fits the projection of the documents that it expands. -/
structure PopulatePlan.Fits (plan : PopulatePlan) (projection : Projection) : Prop where
  once : plan.attributes.Nodup
  kept : ∀ b ∈ plan, projection.includes b.attr

inductive Branch.Levelled : Branch → Prop
  | relation (owner attr : String) (one : Bool) (target : TargetOf Branch)
      (fits : PopulatePlan.Fits target.populate target.projection)
      (below : ∀ b ∈ target.populate, Levelled b) : Levelled (.relation owner attr one target)
  | polymorphic (owner attr : String) (targets : List (TargetOf Branch))
      (fits : ∀ t ∈ targets, PopulatePlan.Fits t.populate t.projection)
      (below : ∀ t ∈ targets, ∀ b ∈ t.populate, Levelled b) :
      Levelled (.polymorphic owner attr targets)
  | dynamicZone (owner attr : String) (components : List (ComponentOf Branch))
      (fits : ∀ c ∈ components, PopulatePlan.Fits c.populate c.projection)
      (below : ∀ c ∈ components, ∀ b ∈ c.populate, Levelled b) :
      Levelled (.dynamicZone owner attr components)

def PopulatePlan.Levelled (plan : PopulatePlan) : Prop :=
  plan.attributes.Nodup ∧ ∀ b ∈ plan, b.Levelled

namespace Branch.Levelled
variable {owner attr : String}

theorem below_relation {one : Bool} {target : TargetPlan}
    (h : Levelled (.relation owner attr one target)) : PopulatePlan.Levelled target.populate := by
  cases h with
  | relation _ _ _ _ fits below => exact ⟨fits.once, below⟩

theorem below_polymorphic {targets : List TargetPlan}
    (h : Levelled (.polymorphic owner attr targets)) {target : TargetPlan}
    (ht : target ∈ targets) : PopulatePlan.Levelled target.populate := by
  cases h with
  | polymorphic _ _ _ fits below => exact ⟨(fits target ht).once, below target ht⟩

theorem below_dynamicZone {components : List ComponentPlan}
    (h : Levelled (.dynamicZone owner attr components)) {component : ComponentPlan}
    (hc : component ∈ components) : PopulatePlan.Levelled component.populate := by
  cases h with
  | dynamicZone _ _ _ fits below => exact ⟨(fits component hc).once, below component hc⟩

end Branch.Levelled

/-- Entries and tags are maps in the order of their keys, at every depth. -/
inductive PopulateNode.Keyed : PopulateNode → Prop
  | all : Keyed .all
  | shape (shape : ShapeOf (SpecOf PopulateNode)) (sorted : Entries.Sorted shape.populate.entries)
      (entries : ∀ e ∈ shape.populate.entries, Keyed e.2) : Keyed (.shape shape)
  | tags (nodes : List (String × PopulateNode)) (sorted : Entries.Sorted nodes)
      (entries : ∀ e ∈ nodes, Keyed e.2) : Keyed (.tags nodes)

def PopulateSpec.Keyed (spec : PopulateSpec) : Prop :=
  Entries.Sorted spec.entries ∧ ∀ e ∈ spec.entries, e.2.Keyed

theorem Entries.Sorted.nodup_keys {α : Type} {m : Entries α} (h : Sorted m) :
    (m.map (·.1)).Nodup := by
  rw [List.nodup_iff_pairwise_ne, List.pairwise_map]
  refine h.imp fun {e f} hlt heq => ?_
  rw [heq] at hlt
  exact String.lt_irrefl _ hlt

theorem PopulateNode.Keyed.tagsOnce {node : PopulateNode} (h : node.Keyed) : node.TagsOnce := by
  induction h with
  | all => exact .all
  | shape shape _ _ ih => exact .shape shape ih
  | tags nodes sorted _ ih => exact .tags nodes sorted.nodup_keys ih

theorem PopulateSpec.Keyed.tagsOnce {spec : PopulateSpec} (h : spec.Keyed) : spec.TagsOnce :=
  fun e he => (h.2 e he).tagsOnce

theorem PopulateSpec.keyed_single (name : String) {node : PopulateNode} (h : node.Keyed) :
    PopulateSpec.Keyed ⟨false, [(name, node)]⟩ :=
  ⟨List.pairwise_singleton .., List.forall_mem_singleton.2 h⟩

theorem PopulateSpec.Keyed.nested {spec : PopulateSpec} (h : spec.Keyed) :
    (PopulateNode.nested spec).Keyed := .shape _ h.1 h.2

/-! ## Default paths -/

namespace PopulateSpec

theorem Keyed.insert {spec : PopulateSpec} (h : spec.Keyed) (name : String) {node : PopulateNode}
    (hnode : node.Keyed) :
    Keyed { spec with entries := Entries.insert spec.entries name node } := by
  refine ⟨h.1.insert name node, fun e he => ?_⟩
  rcases Entries.mem_insert he with rfl | he
  · exact hnode
  · exact h.2 e he

theorem keyed_shapeBelow {node : PopulateNode} (h : node.Keyed) :
    Keyed node.shapeBelow.populate := by
  cases h with
  | shape shape sorted entries => exact ⟨sorted, entries⟩
  | _ => exact ⟨.nil, List.forall_mem_nil _⟩

theorem keyed_insertSegments {spec : PopulateSpec} (h : spec.Keyed) (path : List String) :
    (spec.insertSegments path).Keyed := by
  induction path generalizing spec with
  | nil => exact h
  | cons name rest ih =>
    cases rest with
    | nil =>
      unfold insertSegments
      split
      · exact h
      · split
        · exact h
        · exact h.insert name .all
    | cons next rest =>
      have hnode : PopulateNode.Keyed ((Entries.get? spec.entries name).getD .all) := by
        cases hget : Entries.get? spec.entries name with
        | none => exact .all
        | some node => exact h.2 _ (Entries.mem_of_get? hget)
      have hbelow := ih (keyed_shapeBelow hnode)
      exact h.insert name (.shape _ hbelow.1 hbelow.2)

theorem keyed_ofPaths (paths : List String) : (ofPaths paths).Keyed := by
  have hfold : ∀ spec : PopulateSpec, spec.Keyed → (paths.foldl insertPath spec).Keyed := by
    induction paths with
    | nil => exact fun _ h => h
    | cons path paths ih => exact fun spec h => ih _ (keyed_insertSegments h _)
  exact hfold .empty ⟨.nil, List.forall_mem_nil _⟩

end PopulateSpec

/-! ## Planned as asked for -/

/-- What is shown of documents when some fields are named and a plan is populated. -/
def PopulatePlan.shown (plan : PopulatePlan) (fields : Option Names) : Projection :=
  fields.elim .all fun names => (Projection.only names).extend plan.attributes

/-- The attributes that a specification populates: those that it has entries for and, with the
wildcard, others. -/
structure PopulateSpec.Populates (spec : PopulateSpec) (attributes : List String) : Prop where
  sorted : attributes.Pairwise (· < ·)
  entries : ∀ e ∈ spec.entries, e.1 ∈ attributes
  others : spec.wildcard = false → ∀ name ∈ attributes, name ∈ spec.entries.map (·.1)

/-- The node for an attribute; the wildcard stands for the default shape. -/
def PopulateSpec.node (spec : PopulateSpec) (attr : String) : PopulateNode :=
  (Entries.get? spec.entries attr).getD .all

/-- The node for the documents of one tag; the default shape is the same for all tags. -/
def PopulateNode.behind (tag : String) : PopulateNode → PopulateNode
  | .tags nodes => (Entries.get? nodes tag).getD .all
  | _ => .all

/-- No shape names fields, at any depth. -/
inductive PopulateNode.Plain : PopulateNode → Prop
  | all : Plain .all
  | shape (shape : ShapeOf (SpecOf PopulateNode)) (fields : shape.fields = none)
      (entries : ∀ e ∈ shape.populate.entries, Plain e.2) : Plain (.shape shape)
  | tags (nodes : List (String × PopulateNode)) (entries : ∀ e ∈ nodes, Plain e.2) :
      Plain (.tags nodes)

mutual
/-- The branch is what a node asks for. -/
inductive Branch.Implements : PopulateNode → Branch → Prop
  | relation (owner attr : String) (one : Bool) {node : PopulateNode} {target : TargetPlan}
      (level : PopulateNode.Level node target.projection target.populate) :
      Branch.Implements node (.relation owner attr one target)
  | polymorphic (owner attr : String) {node : PopulateNode} {targets : List TargetPlan}
      (levels : ∀ t ∈ targets,
        PopulateNode.Level (node.behind t.docType) t.projection t.populate) :
      Branch.Implements node (.polymorphic owner attr targets)
  | dynamicZone (owner attr : String) {node : PopulateNode} {components : List ComponentPlan}
      (levels : ∀ c ∈ components,
        PopulateNode.Level (node.behind c.docType) c.projection c.populate) :
      Branch.Implements node (.dynamicZone owner attr components)

/-- The projection and the plan of documents are what a node asks for. With the default shape
everything is shown, and what is populated is up to a specification that names no fields. -/
inductive PopulateNode.Level : PopulateNode → Projection → PopulatePlan → Prop
  | shape (shape : PopulateShape) {plan : PopulatePlan}
      (names : shape.populate.Populates plan.attributes)
      (branches : ∀ b ∈ plan, Branch.Implements (shape.populate.node b.attr) b) :
      PopulateNode.Level (.shape shape) (plan.shown shape.fields) plan
  | all {spec : PopulateSpec} {plan : PopulatePlan} (plain : ∀ e ∈ spec.entries, e.2.Plain)
      (h : PopulateNode.Level (.nested spec) .all plan) : PopulateNode.Level .all .all plan
end

structure PopulatePlan.Implements (plan : PopulatePlan) (spec : PopulateSpec) : Prop where
  names : spec.Populates plan.attributes
  branches : ∀ b ∈ plan, b.Implements (spec.node b.attr)

theorem PopulatePlan.implements_nil : PopulatePlan.Implements [] .empty where
  names := ⟨.nil, List.forall_mem_nil _, fun _ => List.forall_mem_nil _⟩
  branches := List.forall_mem_nil _

theorem PopulatePlan.fits_shown {plan : PopulatePlan} (once : plan.attributes.Nodup)
    (fields : Option Names) : plan.Fits (plan.shown fields) := by
  refine ⟨once, fun b hb => ?_⟩
  have hattr : b.attr ∈ plan.attributes := List.mem_map_of_mem hb
  cases fields with
  | none => rfl
  | some names => simp [shown, Projection.includes_extend, hattr]

theorem PopulateSpec.Populates.nodup {spec : PopulateSpec} {attributes : List String}
    (h : spec.Populates attributes) : attributes.Nodup := by
  rw [List.nodup_iff_pairwise_ne]
  refine h.sorted.imp fun {a b} hlt heq => ?_
  rw [heq] at hlt
  exact String.lt_irrefl _ hlt

mutual
theorem Branch.Implements.levelled : {node : PopulateNode} → {b : Branch} → b.Implements node →
    b.Levelled
  | _, _, .relation _ _ _ level => .relation _ _ _ _ level.fits.1 level.fits.2
  | _, _, .polymorphic _ _ levels =>
    .polymorphic _ _ _ (fun t ht => (levels t ht).fits.1) fun t ht => (levels t ht).fits.2
  | _, _, .dynamicZone _ _ levels =>
    .dynamicZone _ _ _ (fun c hc => (levels c hc).fits.1) fun c hc => (levels c hc).fits.2

theorem PopulateNode.Level.fits : {node : PopulateNode} → {projection : Projection} →
    {plan : PopulatePlan} → node.Level projection plan →
      plan.Fits projection ∧ ∀ b ∈ plan, b.Levelled
  | _, _, _, .shape shape names branches =>
    ⟨PopulatePlan.fits_shown names.nodup _, fun b hb => (branches b hb).levelled⟩
  | _, _, _, .all _ h => h.fits
end

theorem PopulatePlan.Implements.levelled {plan : PopulatePlan} {spec : PopulateSpec}
    (h : plan.Implements spec) : plan.Levelled :=
  ⟨h.names.nodup, fun b hb => (h.branches b hb).levelled⟩

theorem PopulateNode.plain_keptByPaths : PopulateNode.KeptByPaths PopulateNode.Plain where
  all := .all
  below node h := by
    cases h with
    | shape shape _ entries => exact entries
    | _ => exact List.forall_mem_nil _
  shape node spec h hspec := by
    refine .shape _ ?_ hspec
    cases h with
    | shape shape fields _ => exact fields
    | _ => rfl

/-! ## The planner -/

namespace Planning

theorem ensures_named (t : DocumentType) (name : String) :
    Ensures (populatable t name) fun a => a.name = name := by
  unfold populatable
  cases ha : t.attr? name with
  | none => exact ensures_throw _
  | some a =>
    cases hkind : a.kind.isPopulatable with
    | false =>
      simp only [hkind]
      exact ensures_throw _
    | true =>
      simp only [hkind, if_true]
      exact ensures_pure (DocumentType.attr?_name ha)

theorem ensures_project (t : DocumentType) (fields : Option Names) (populate : PopulatePlan) :
    Ensures (project t fields populate) (· = populate.shown fields) := by
  cases fields with
  | none => exact ensures_pure rfl
  | some names => exact (ensures_true _).bind fun _ _ => ensures_pure rfl

section
variable {β : Type} (docType : β → String) (projection : β → Projection)
  (populate : β → PopulatePlan)

/-- What the planner makes of the node for a tag. -/
def TagFor (e : String × PopulateNode) (t : β) : Prop :=
  docType t = e.1 ∧ e.2.Level (projection t) (populate t)

/-- Among nodes by tag, the node for a tag is found under it. -/
theorem level_behind {nodes : List (String × PopulateNode)} (hsorted : Entries.Sorted nodes)
    {targets : List β} (h : List.Forall₂ (TagFor docType projection populate) nodes targets) :
    ∀ t ∈ targets,
      ((PopulateNode.tags nodes).behind (docType t)).Level (projection t) (populate t) := by
  intro t ht
  obtain ⟨e, he, htag, hlevel⟩ := exists_of_forall₂ h.flip ht
  rwa [PopulateNode.behind, htag, hsorted.get?_of_mem he]

end

abbrev TargetFor := TagFor (fun t : TargetPlan => t.docType) (·.projection) (·.populate)

abbrev ComponentFor := TagFor (fun c : ComponentPlan => c.docType) (·.projection) (·.populate)

theorem ensures_targetFor {r : Registry} {tag : String} {t : DocumentType} (ht : t.name = tag)
    (shape : PopulateShape) {plan : PopulatePlan} (h : plan.Implements shape.populate) :
    Ensures (Planning.target r t shape.fields shape.filters plan)
      (TargetFor (tag, .shape shape)) := by
  refine (ensures_project t shape.fields plan).bind fun projection hshown => ?_
  subst hshown
  exact (ensures_true _).bind fun _ _ => ensures_pure ⟨ht, .shape shape h.names h.branches⟩

section
variable {r : Registry} {expand : DocumentType → Planning PopulatePlan}

/-- What is populated by default. -/
def Default (plan : PopulatePlan) : Prop := PopulateNode.all.Level .all plan

theorem default_of_implements {plan : PopulatePlan} {spec : PopulateSpec}
    (hspec : ∀ e ∈ spec.entries, e.2.Plain) (h : plan.Implements spec) : Default plan :=
  .all hspec (.shape _ h.names h.branches)

theorem default_nil : Default [] :=
  default_of_implements (List.forall_mem_nil _) PopulatePlan.implements_nil

/-- What the planner makes of a node under a name. -/
def BranchFor (name : String) (node : PopulateNode) (b : Branch) : Prop :=
  b.attr = name ∧ b.Implements node

theorem ensures_branchFor_all (hexpand : ∀ t, Ensures (expand t) Default)
    (t : DocumentType) (name : String) :
    Ensures (defaultBranch r expand t name) (BranchFor name .all) := by
  refine (ensures_named t name).bind fun a ha => ?_
  cases a.kind with
  | scalar kind => exact ensures_throw _
  | relationOne target =>
    exact (ensures_true _).bind fun target _ => ensures_pure ⟨ha, .relation _ _ _ default_nil⟩
  | relationMany target =>
    exact (ensures_true _).bind fun target _ => ensures_pure ⟨ha, .relation _ _ _ default_nil⟩
  | polymorphic tags =>
    refine (ensures_runAll (R := fun _ t => PopulateNode.all.Level t.projection t.populate)
      fun tag _ => ?_).bind fun targets htargets => ?_
    · refine (ensures_true _).bind fun target _ => ?_
      exact (hexpand target).bind fun plan hplan => ensures_pure hplan
    · exact ensures_pure ⟨ha, .polymorphic _ _ (forall_right htargets)⟩
  | dynamicZone tags =>
    refine (ensures_runAll (R := fun _ c => PopulateNode.all.Level c.projection c.populate)
      fun tag _ => ?_).bind fun components hcomponents => ?_
    · refine (ensures_true _).bind fun component _ => ?_
      exact (hexpand component).bind fun plan hplan => ensures_pure hplan
    · exact ensures_pure ⟨ha, .dynamicZone _ _ (forall_right hcomponents)⟩

theorem attributes_of_branchFor {entries : Entries (Planning Branch)}
    {node : String → PopulateNode} {plan : PopulatePlan}
    (h : List.Forall₂ (fun e b => BranchFor e.1 (node e.1) b) entries plan) :
    plan.attributes = entries.map (·.1) ∧ ∀ b ∈ plan, b.Implements (node b.attr) := by
  induction h with
  | nil => exact ⟨rfl, List.forall_mem_nil _⟩
  | cons hb _ ih =>
    obtain ⟨hnames, hall⟩ := ih
    refine ⟨?_, List.forall_mem_cons.2 ⟨hb.1 ▸ hb.2, hall⟩⟩
    rw [PopulatePlan.attributes, List.map_cons, List.map_cons, hb.1]
    exact congrArg _ hnames

theorem ensures_implements_withWildcard (spec : PopulateSpec)
    (hexpand : ∀ t, Ensures (expand t) Default) (t : DocumentType)
    (hspec : Entries.Sorted spec.entries)
    {entries : Entries (Planning Branch)} (hkeys : entries.map (·.1) = spec.entries.map (·.1))
    (hentries : ∀ e ∈ entries, Ensures e.2 (BranchFor e.1 (spec.node e.1))) :
    Ensures (withWildcard r expand t spec.wildcard entries) (·.Implements spec) := by
  let missing := t.relationAttributes.filter fun a => !Entries.contains entries a.name
  let defaults := missing.map fun a => (a.name, defaultBranch r expand t a.name)
  let all := if spec.wildcard then Entries.insertAll entries defaults else entries
  have hsorted : Entries.Sorted entries := hspec.of_keys hkeys
  have hdefaults : ∀ e ∈ defaults, Ensures e.2 (BranchFor e.1 (spec.node e.1)) := by
    intro e he
    obtain ⟨a, ha, rfl⟩ := List.mem_map.1 he
    have hnone : Entries.get? spec.entries a.name = none := by
      rw [Entries.get?_eq_none_iff, ← hkeys, ← Entries.get?_eq_none_iff]
      simpa [Entries.contains] using (List.mem_filter.1 ha).2
    rw [PopulateSpec.node, hnone]
    exact ensures_branchFor_all hexpand t a.name
  have hall : spec.Populates (all.map (·.1)) ∧
      ∀ e ∈ all, Ensures e.2 (BranchFor e.1 (spec.node e.1)) := by
    cases hwildcard : spec.wildcard with
    | false =>
      simp only [all, hwildcard]
      refine ⟨⟨List.pairwise_map.2 hsorted, fun e he => ?_, fun _ name hname => hkeys ▸ hname⟩,
        hentries⟩
      exact hkeys ▸ List.mem_map_of_mem he
    | true =>
      simp only [all, hwildcard, if_true]
      refine ⟨⟨List.pairwise_map.2 (hsorted.insertAll _), fun e he => ?_, by simp [hwildcard]⟩,
        fun e he => (Entries.mem_insertAll he).elim (hentries e) (hdefaults e)⟩
      exact Entries.mem_keys_insertAll _ (hkeys ▸ List.mem_map_of_mem he)
  intro cache plan hplan
  obtain ⟨hnames, hbranches⟩ := attributes_of_branchFor (ensures_runAll hall.2 cache plan hplan)
  exact ⟨hnames ▸ hall.1, hbranches⟩

theorem keys_planEntries (t : DocumentType) (entries : List (String × PopulateNode)) :
    (planEntries r expand t entries).map (·.1) = entries.map (·.1) := by
  induction entries with
  | nil => rfl
  | cons e rest ih => rw [planEntries, List.map_cons, List.map_cons, ih]

mutual
theorem ensures_implements_planSpec (hr : r.WellFormed)
    (hexpand : ∀ t, Ensures (expand t) Default) (t : DocumentType) :
    (spec : SpecOf PopulateNode) → PopulateSpec.Keyed spec →
      Ensures (planSpec r expand t spec) (PopulatePlan.Implements · spec)
  | ⟨wildcard, entries⟩, hspec => by
    rw [planSpec]
    refine ensures_implements_withWildcard ⟨wildcard, entries⟩ hexpand t hspec.1
      (keys_planEntries t entries) fun e he => ?_
    obtain ⟨node, hnode, hplanned⟩ :=
      ensures_branchFor_planEntries hr hexpand t entries hspec.2 e he
    rwa [PopulateSpec.node, hspec.1.get?_of_mem hnode]

theorem ensures_branchFor_planEntries (hr : r.WellFormed)
    (hexpand : ∀ t, Ensures (expand t) Default) (t : DocumentType) :
    (entries : List (String × PopulateNode)) → (∀ e ∈ entries, e.2.Keyed) →
      ∀ e ∈ planEntries r expand t entries, ∃ node, (e.1, node) ∈ entries ∧
        Ensures e.2 (BranchFor e.1 node)
  | [], _ => by simp [planEntries]
  | (name, node) :: rest, h => by
    simp only [planEntries]
    refine List.forall_mem_cons.2 ⟨⟨node, List.mem_cons_self .., ?_⟩, fun e he => ?_⟩
    · exact ensures_branchFor_planBranch hr hexpand t name node (h _ (List.mem_cons_self ..))
    · obtain ⟨node', hnode, hplanned⟩ := ensures_branchFor_planEntries hr hexpand t rest
        (fun e he => h e (List.mem_cons_of_mem _ he)) e he
      exact ⟨node', List.mem_cons_of_mem _ hnode, hplanned⟩

theorem ensures_branchFor_planBranch (hr : r.WellFormed)
    (hexpand : ∀ t, Ensures (expand t) Default) (t : DocumentType) (name : String) :
    (node : PopulateNode) → node.Keyed →
      Ensures (planBranch r expand t name node) (BranchFor name node)
  | .all, _ => by
    rw [planBranch]
    exact ensures_branchFor_all hexpand t name
  | .shape ⟨fields, filters, populate⟩, h => by
    have hpopulate : PopulateSpec.Keyed populate := PopulateSpec.keyed_shapeBelow h
    rw [planBranch]
    refine (ensures_named t name).bind fun a ha => ?_
    cases a.kind.relationTarget? with
    | none => exact ensures_throw _
    | some target =>
      refine (ensures_get hr target).bind fun target htarget => ?_
      refine (ensures_implements_planSpec hr hexpand target populate hpopulate).bind
        fun plan hplan => ?_
      refine (ensures_targetFor htarget.1 ⟨fields, filters, populate⟩ hplan).bind
        fun targetPlan hlevel => ?_
      exact ensures_pure ⟨ha, .relation _ _ _ hlevel.2⟩
  | .tags nodes, h => by
    obtain ⟨hsorted, hnodes⟩ : Entries.Sorted nodes ∧ ∀ e ∈ nodes, e.2.Keyed := by
      cases h
      exact ⟨by assumption, by assumption⟩
    rw [planBranch]
    refine (ensures_named t name).bind fun a ha => ?_
    cases a.kind with
    | polymorphic tags =>
      refine (ensures_true _).bind fun _ _ => ?_
      refine (ensures_planTargets_for hr hexpand nodes hnodes).bind fun targets htargets => ?_
      exact ensures_pure ⟨ha, .polymorphic _ _ (level_behind _ _ _ hsorted htargets)⟩
    | dynamicZone tags =>
      refine (ensures_true _).bind fun _ _ => ?_
      refine (ensures_planComponents_for hr hexpand nodes hnodes).bind
        fun components hcomponents => ?_
      exact ensures_pure ⟨ha, .dynamicZone _ _ (level_behind _ _ _ hsorted hcomponents)⟩
    | _ => exact ensures_throw _

theorem ensures_planTargets_for (hr : r.WellFormed) (hexpand : ∀ t, Ensures (expand t) Default) :
    (nodes : List (String × PopulateNode)) → (∀ e ∈ nodes, e.2.Keyed) →
      Ensures (planTargets r expand nodes) (List.Forall₂ TargetFor nodes)
  | [], _ => by
    rw [planTargets]
    exact ensures_pure .nil
  | (tag, .all) :: rest, h => by
    have hrest := ensures_planTargets_for hr hexpand rest fun e he => h e (List.mem_cons_of_mem _ he)
    rw [planTargets]
    refine (ensures_get hr tag).bind fun target htarget => ?_
    refine (hexpand target).bind fun plan hplan => ?_
    exact hrest.bind fun targets htargets => ensures_pure (.cons ⟨htarget.1, hplan⟩ htargets)
  | (tag, .shape ⟨fields, filters, populate⟩) :: rest, h => by
    have hrest := ensures_planTargets_for hr hexpand rest fun e he => h e (List.mem_cons_of_mem _ he)
    have hpopulate : PopulateSpec.Keyed populate :=
      PopulateSpec.keyed_shapeBelow (h _ (List.mem_cons_self ..))
    rw [planTargets]
    refine (ensures_get hr tag).bind fun target htarget => ?_
    refine (ensures_implements_planSpec hr hexpand target populate hpopulate).bind
      fun plan hplan => ?_
    refine (ensures_targetFor htarget.1 ⟨fields, filters, populate⟩ hplan).bind
      fun targetPlan hlevel => ?_
    exact hrest.bind fun targets htargets => ensures_pure (.cons hlevel htargets)
  | (tag, .tags _) :: _, _ => by
    rw [planTargets]
    exact (ensures_true _).bind fun _ _ => ensures_throw _

theorem ensures_planComponents_for (hr : r.WellFormed)
    (hexpand : ∀ t, Ensures (expand t) Default) :
    (nodes : List (String × PopulateNode)) → (∀ e ∈ nodes, e.2.Keyed) →
      Ensures (planComponents r expand nodes) (List.Forall₂ ComponentFor nodes)
  | [], _ => by
    rw [planComponents]
    exact ensures_pure .nil
  | (tag, .all) :: rest, h => by
    have hrest := ensures_planComponents_for hr hexpand rest fun e he =>
      h e (List.mem_cons_of_mem _ he)
    rw [planComponents]
    refine (ensures_get hr tag).bind fun component hcomponent => ?_
    refine (hexpand component).bind fun plan hplan => ?_
    exact hrest.bind fun components hcomponents =>
      ensures_pure (.cons ⟨hcomponent.1, hplan⟩ hcomponents)
  | (tag, .shape ⟨fields, filters, populate⟩) :: rest, h => by
    have hrest := ensures_planComponents_for hr hexpand rest fun e he =>
      h e (List.mem_cons_of_mem _ he)
    have hpopulate : PopulateSpec.Keyed populate :=
      PopulateSpec.keyed_shapeBelow (h _ (List.mem_cons_self ..))
    rw [planComponents]
    refine (ensures_get hr tag).bind fun component hcomponent => ?_
    split
    · exact ensures_throw _
    · refine (ensures_implements_planSpec hr hexpand component populate hpopulate).bind
        fun plan hplan => ?_
      refine (ensures_project component fields plan).bind fun projection hshown => ?_
      subst hshown
      exact hrest.bind fun components hcomponents => ensures_pure (.cons
        ⟨hcomponent.1, .shape ⟨fields, filters, populate⟩ hplan.names hplan.branches⟩ hcomponents)
  | (tag, .tags _) :: _, _ => by
    rw [planComponents]
    exact (ensures_true _).bind fun _ _ => ensures_throw _
end

end

theorem ensures_default_planDefaults {r : Registry} (hr : r.WellFormed) (depth : Nat)
    (opened : List String) (t : DocumentType) :
    Ensures (planDefaults r depth opened t) Default := by
  induction depth generalizing opened t with
  | zero => exact ensures_pure default_nil
  | succ depth ih =>
    rw [planDefaults]
    split
    · exact ensures_pure default_nil
    · intro cache plan hplan
      exact default_of_implements
        (PopulateSpec.every_ofPaths PopulateNode.plain_keptByPaths t.defaultPopulate)
        (ensures_implements_planSpec hr (fun t => ih _ t) t _ (PopulateSpec.keyed_ofPaths _) cache
          plan hplan)

end Planning

theorem PopulatePlan.implements_of_build {r : Registry} (hr : r.WellFormed) {t : DocumentType}
    {spec : PopulateSpec} (hspec : spec.Keyed) {cache : PredicateCache} {plan : PopulatePlan}
    (h : (PopulatePlan.build r t spec cache).1 = .ok plan) : plan.Implements spec :=
  Planning.ensures_implements_planSpec hr (Planning.ensures_default_planDefaults hr _ []) t spec
    hspec cache plan h

end ContentEngine
