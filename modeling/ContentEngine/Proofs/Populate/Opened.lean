import ContentEngine.Proofs.Populate.Levels
import ContentEngine.Query

/-!
# Opening a request

A request opens another one if it selects and populates the same, and leaves out `fields` in some
places, at the root or in any shape below it. If a request is planned, a request that opens it is
planned as well: its plan has the same branches, and shows all fields in some of the places.
-/

namespace ContentEngine

section
variable {α β γ : Type} {R : β → γ → Prop} {l : List α}

theorem forall₂_filterMap {f : α → Option β} {g : α → Option γ}
    (h : ∀ a ∈ l, Option.Rel R (f a) (g a)) : List.Forall₂ R (l.filterMap f) (l.filterMap g) := by
  have hsame : List.Forall₂ (fun a b => a = b ∧ a ∈ l) l l :=
    List.forall₂_same.2 fun a ha => ⟨rfl, ha⟩
  refine List.rel_filterMap (fun a b hab => ?_) hsame
  obtain ⟨rfl, ha⟩ := hab
  exact h a ha

theorem forall₂_flatMap {f : α → List β} {g : α → List γ}
    (h : ∀ a ∈ l, List.Forall₂ R (f a) (g a)) : List.Forall₂ R (l.flatMap f) (l.flatMap g) := by
  have hsame : List.Forall₂ (fun a b => a = b ∧ a ∈ l) l l :=
    List.forall₂_same.2 fun a ha => ⟨rfl, ha⟩
  refine List.rel_flatMap hsame (fun a b hab => ?_)
  obtain ⟨rfl, ha⟩ := hab
  exact h a ha

end

/-- The second projection is the same, or shows everything. -/
def Projection.Opens (p p' : Projection) : Prop := p' = p ∨ p' = .all

/-- The second ones are the same fields, or are left out. -/
def Names.Opens (fields fields' : Option Names) : Prop := fields' = fields ∨ fields' = none

section
variable {α : Type} (R : α → α → Prop)

inductive TargetOf.Opens : TargetOf α → TargetOf α → Prop
  | intro (docType : String) (filter : Option Predicate) (versioned : Bool)
      {projection projection' : Projection} {populate populate' : List α}
      (shown : projection.Opens projection') (below : List.Forall₂ R populate populate') :
      Opens ⟨docType, filter, projection, versioned, populate⟩
        ⟨docType, filter, projection', versioned, populate'⟩

inductive ComponentOf.Opens : ComponentOf α → ComponentOf α → Prop
  | intro (docType : String) {projection projection' : Projection} {populate populate' : List α}
      (shown : projection.Opens projection') (below : List.Forall₂ R populate populate') :
      Opens ⟨docType, projection, populate⟩ ⟨docType, projection', populate'⟩

inductive SpecOf.Opens : SpecOf α → SpecOf α → Prop
  | intro (wildcard : Bool) {entries entries' : List (String × α)}
      (below : List.Forall₂ (Entries.Relates R) entries entries') :
      Opens ⟨wildcard, entries⟩ ⟨wildcard, entries'⟩

inductive ShapeOf.Opens : ShapeOf α → ShapeOf α → Prop
  | intro (filters : Option Filter) {fields fields' : Option Names} {populate populate' : α}
      (shown : Names.Opens fields fields') (below : R populate populate') :
      Opens ⟨fields, filters, populate⟩ ⟨fields', filters, populate'⟩

end

inductive PopulateNode.Opens : PopulateNode → PopulateNode → Prop
  | all : Opens .all .all
  | shape {shape shape' : ShapeOf (SpecOf PopulateNode)}
      (h : ShapeOf.Opens (SpecOf.Opens Opens) shape shape') : Opens (.shape shape) (.shape shape')
  | tags {nodes nodes' : List (String × PopulateNode)}
      (h : List.Forall₂ (Entries.Relates Opens) nodes nodes') : Opens (.tags nodes) (.tags nodes')

abbrev PopulateSpec.Opens : PopulateSpec → PopulateSpec → Prop := SpecOf.Opens PopulateNode.Opens

structure QueryRequest.Opens (q q' : QueryRequest) : Prop where
  filters : q'.filters = q.filters
  populate : q.populate.Opens q'.populate
  sort : q'.sort = q.sort
  fields : Names.Opens q.fields q'.fields
  page : q'.page = q.page
  status : q'.status = q.status

/-- The same branches, which show all fields in some of the places. -/
inductive Branch.Opens : Branch → Branch → Prop
  | relation (owner attr : String) (one : Bool) {target target' : TargetOf Branch}
      (h : TargetOf.Opens Opens target target') :
      Opens (.relation owner attr one target) (.relation owner attr one target')
  | polymorphic (owner attr : String) {targets targets' : List (TargetOf Branch)}
      (h : List.Forall₂ (TargetOf.Opens Opens) targets targets') :
      Opens (.polymorphic owner attr targets) (.polymorphic owner attr targets')
  | dynamicZone (owner attr : String) {components components' : List (ComponentOf Branch)}
      (h : List.Forall₂ (ComponentOf.Opens Opens) components components') :
      Opens (.dynamicZone owner attr components) (.dynamicZone owner attr components')

def PopulatePlan.Opens : PopulatePlan → PopulatePlan → Prop := List.Forall₂ Branch.Opens

/-! ## Unchanged parts -/

theorem Projection.opens_refl (p : Projection) : p.Opens p := .inl rfl

theorem Projection.Opens.includes {p p' : Projection} (h : p.Opens p') {name : String}
    (hname : p.includes name) : p'.includes name := by
  rcases h with rfl | rfl
  · exact hname
  · rfl

theorem Names.opens_refl (fields : Option Names) : Names.Opens fields fields := .inl rfl

theorem PopulateNode.Keyed.opens {node : PopulateNode} (h : node.Keyed) : node.Opens node := by
  have hentries : ∀ l : List (String × PopulateNode), (∀ e ∈ l, e.2.Opens e.2) →
      List.Forall₂ (Entries.Relates Opens) l l :=
    fun l hl => List.forall₂_same.2 fun e he => .intro e.1 (hl e he)
  induction h with
  | all => exact .all
  | shape shape _ _ ih => exact .shape (.intro _ (Names.opens_refl _) (.intro _ (hentries _ ih)))
  | tags nodes _ _ ih => exact .tags (hentries nodes ih)

theorem PopulateSpec.Keyed.opens {spec : PopulateSpec} (h : spec.Keyed) : spec.Opens spec :=
  .intro _ (List.forall₂_same.2 fun e he => .intro e.1 (h.2 e he).opens)

/-- Opening keeps the keys. -/
theorem PopulateNode.Keyed.of_opens {node node' : PopulateNode} (h : node.Keyed)
    (hopens : node.Opens node') : node'.Keyed := by
  have hentries : ∀ {l l' : List (String × PopulateNode)},
      List.Forall₂ (Entries.Relates PopulateNode.Opens) l l' →
      (∀ e ∈ l, ∀ node', e.2.Opens node' → node'.Keyed) → ∀ e ∈ l', e.2.Keyed := by
    intro l l' hl hkeyed e' he'
    obtain ⟨e, he, heq⟩ := exists_of_forall₂ hl.flip he'
    obtain ⟨k, hnode⟩ := heq
    exact hkeyed _ he _ hnode
  induction h generalizing node' with
  | all =>
    cases hopens
    exact .all
  | shape shape sorted _ ih =>
    obtain _ | ⟨⟨_, _, ⟨_, hbelow⟩⟩⟩ := hopens
    exact .shape _ (Entries.sorted_of_relates hbelow sorted)
      (hentries hbelow fun e he node' h => ih e he h)
  | tags nodes sorted _ ih =>
    obtain _ | _ | hbelow := hopens
    exact .tags _ (Entries.sorted_of_relates hbelow sorted)
      (hentries hbelow fun e he node' h => ih e he h)

theorem PopulateSpec.Keyed.of_opens {spec spec' : PopulateSpec} (h : spec.Keyed)
    (hopens : spec.Opens spec') : spec'.Keyed :=
  keyed_shapeBelow (h.nested.of_opens (.shape (.intro none (Names.opens_refl none) hopens)))

theorem QueryRequest.opens_fields {q : QueryRequest} (h : q.populate.Keyed) :
    q.Opens { q with fields := none } := ⟨rfl, h.opens, rfl, .inr rfl, rfl, rfl⟩

theorem Branch.Opens.attr {b b' : Branch} (h : b.Opens b') : b'.attr = b.attr := by
  cases h with
  | relation => rfl
  | polymorphic => rfl
  | dynamicZone => rfl

theorem PopulatePlan.Opens.attributes {plan plan' : PopulatePlan}
    (h : PopulatePlan.Opens plan plan') : plan'.attributes = plan.attributes := by
  induction h with
  | nil => rfl
  | cons hb _ ih => exact congrArg₂ List.cons hb.attr ih

/-! ## The planner -/

namespace Planning
variable {α : Type} {R : α → α → Prop}

/-- Checks leave nothing behind. -/
theorem follows_checks (check : String → Except SchemaError Unit) (names : List String) :
    Follows (fun _ _ => True) (names.forM fun name => ofSchema (check name))
      (pure () : Planning Unit) := by
  have hone : ∀ name, Follows (fun _ _ => True) (ofSchema (check name)) (pure () : Planning Unit) := by
    intro name
    cases check name with
    | ok u => exact follows_pure trivial
    | error e => exact follows_throw _ _
  induction names with
  | nil => exact follows_pure trivial
  | cons name names ih => exact (hone name).bind fun _ _ _ => ih

theorem follows_project (t : DocumentType) {fields fields' : Option Names}
    (hfields : Names.Opens fields fields') {plan plan' : PopulatePlan}
    (hplan : plan'.attributes = plan.attributes) :
    Follows Projection.Opens (project t fields plan) (project t fields' plan') := by
  rcases hfields with rfl | rfl
  · cases fields' with
    | none => exact follows_pure (Projection.opens_refl _)
    | some names =>
      refine (ensures_true _).followed fun _ _ => follows_pure ?_
      rw [hplan]
      exact Projection.opens_refl _
  · cases fields with
    | none => exact follows_pure (Projection.opens_refl _)
    | some names =>
      exact (follows_checks _ names).bind fun _ _ _ => follows_pure (.inr rfl)

theorem follows_target (r : Registry) (t : DocumentType) {fields fields' : Option Names}
    (hfields : Names.Opens fields fields') (filters : Option Filter) {plan plan' : PopulatePlan}
    (hplan : plan.Opens plan') :
    Follows (TargetOf.Opens Branch.Opens) (Planning.target r t fields filters plan)
      (Planning.target r t fields' filters plan') := by
  refine (follows_project t hfields hplan.attributes).bind fun projection projection' hshown => ?_
  refine (ensures_true _).followed fun filter _ => ?_
  exact follows_pure (.intro _ _ _ hshown hplan)

theorem follows_runAll {ms ms' : List (Planning α)} (h : List.Forall₂ (Follows R) ms ms') :
    Follows (List.Forall₂ R) (runAll ms) (runAll ms') := by
  induction h with
  | nil => exact follows_pure .nil
  | cons hm _ ih =>
    exact hm.bind fun a a' ha => ih.bind fun as as' has => follows_pure (.cons ha has)

theorem follows_runAll_same {γ : Type} {f : γ → Planning α} {l : List γ}
    (h : ∀ c ∈ l, Follows R (f c) (f c)) :
    Follows (List.Forall₂ R) (runAll (l.map f)) (runAll (l.map f)) := by
  refine follows_runAll ?_
  rw [List.forall₂_map_left_iff, List.forall₂_map_right_iff]
  exact List.forall₂_same.2 h

section
variable {r : Registry} {expand : DocumentType → Planning PopulatePlan}

theorem follows_defaultBranch (hexpand : ∀ t, Follows PopulatePlan.Opens (expand t) (expand t))
    (t : DocumentType) (name : String) :
    Follows Branch.Opens (defaultBranch r expand t name) (defaultBranch r expand t name) := by
  refine (ensures_true _).followed fun a _ => ?_
  cases a.kind with
  | scalar kind => exact follows_throw _ _
  | relationOne target =>
    refine (ensures_true _).followed fun target _ => follows_pure ?_
    exact .relation _ _ _ (.intro _ _ _ (Projection.opens_refl _) .nil)
  | relationMany target =>
    refine (ensures_true _).followed fun target _ => follows_pure ?_
    exact .relation _ _ _ (.intro _ _ _ (Projection.opens_refl _) .nil)
  | polymorphic tags =>
    refine (follows_runAll_same (R := TargetOf.Opens Branch.Opens) fun tag _ => ?_).bind
      fun _ _ h => follows_pure (.polymorphic _ _ h)
    refine (ensures_true _).followed fun target _ => ?_
    exact (hexpand target).bind fun _ _ hplan =>
      follows_pure (.intro _ _ _ (Projection.opens_refl _) hplan)
  | dynamicZone tags =>
    refine (follows_runAll_same (R := ComponentOf.Opens Branch.Opens) fun tag _ => ?_).bind
      fun _ _ h => follows_pure (.dynamicZone _ _ h)
    refine (ensures_true _).followed fun component _ => ?_
    exact (hexpand component).bind fun _ _ hplan =>
      follows_pure (.intro _ (Projection.opens_refl _) hplan)

theorem follows_withWildcard (hexpand : ∀ t, Follows PopulatePlan.Opens (expand t) (expand t))
    (t : DocumentType) (wildcard : Bool) {entries entries' : Entries (Planning Branch)}
    (h : List.Forall₂ (Entries.Relates (Follows Branch.Opens)) entries entries') :
    Follows PopulatePlan.Opens (withWildcard r expand t wildcard entries)
      (withWildcard r expand t wildcard entries') := by
  refine follows_runAll (Entries.values_of_relates ?_)
  cases wildcard with
  | false => exact h
  | true =>
    simp only [Entries.contains_of_relates h, if_true]
    refine Entries.relates_insertAll ?_ h
    rw [List.forall₂_map_left_iff, List.forall₂_map_right_iff]
    exact List.forall₂_same.2 fun a _ => .intro a.name (follows_defaultBranch hexpand t a.name)

mutual
theorem follows_planSpec (hexpand : ∀ t, Follows PopulatePlan.Opens (expand t) (expand t))
    (t : DocumentType) : (spec spec' : SpecOf PopulateNode) → PopulateSpec.Opens spec spec' →
      Follows PopulatePlan.Opens (planSpec r expand t spec) (planSpec r expand t spec')
  | ⟨wildcard, entries⟩, ⟨_, entries'⟩, h => by
    cases h with
    | intro _ below =>
      rw [planSpec, planSpec]
      exact follows_withWildcard hexpand t wildcard
        (follows_planEntries hexpand t entries entries' below)
termination_by structural spec => spec

theorem follows_planEntries (hexpand : ∀ t, Follows PopulatePlan.Opens (expand t) (expand t))
    (t : DocumentType) : (entries entries' : List (String × PopulateNode)) →
      List.Forall₂ (Entries.Relates PopulateNode.Opens) entries entries' →
      List.Forall₂ (Entries.Relates (Follows Branch.Opens)) (planEntries r expand t entries)
        (planEntries r expand t entries')
  | [], _, h => by
    cases h
    rw [planEntries]
    exact .nil
  | (name, node) :: rest, _, h => by
    obtain ⟨_, rest', ⟨_, hnode⟩, hrest, rfl⟩ := List.forall₂_cons_left_iff.1 h
    rw [planEntries, planEntries]
    exact .cons (.intro name (follows_planBranch hexpand t name node _ hnode))
      (follows_planEntries hexpand t rest rest' hrest)
termination_by structural entries => entries

theorem follows_planBranch (hexpand : ∀ t, Follows PopulatePlan.Opens (expand t) (expand t))
    (t : DocumentType) (name : String) : (node node' : PopulateNode) → node.Opens node' →
      Follows Branch.Opens (planBranch r expand t name node) (planBranch r expand t name node')
  | .all, _, h => by
    cases h
    rw [planBranch]
    exact follows_defaultBranch hexpand t name
  | .shape ⟨fields, filters, populate⟩, _, h => by
    obtain _ | ⟨⟨_, hfields, hbelow⟩⟩ := h
    rw [planBranch, planBranch]
    refine (ensures_true _).followed fun a _ => ?_
    cases a.kind.relationTarget? with
    | none => exact follows_throw _ _
    | some target =>
      refine (ensures_true _).followed fun target _ => ?_
      refine (follows_planSpec hexpand target populate _ hbelow).bind fun plan plan' hplan => ?_
      exact (follows_target r target hfields filters hplan).bind fun _ _ hopens =>
        follows_pure (.relation _ _ _ hopens)
  | .tags nodes, _, h => by
    cases h with
    | @tags _ nodes' h =>
      rw [planBranch, planBranch, Entries.keys_of_relates h]
      refine (ensures_true _).followed fun a _ => ?_
      cases a.kind with
      | polymorphic tags =>
        refine (ensures_true _).followed fun _ _ => ?_
        exact (follows_planTargets hexpand nodes nodes' h).bind fun _ _ htargets =>
          follows_pure (.polymorphic _ _ htargets)
      | dynamicZone tags =>
        refine (ensures_true _).followed fun _ _ => ?_
        exact (follows_planComponents hexpand nodes nodes' h).bind fun _ _ hcomponents =>
          follows_pure (.dynamicZone _ _ hcomponents)
      | _ => exact follows_throw _ _
termination_by structural node => node

theorem follows_planTargets (hexpand : ∀ t, Follows PopulatePlan.Opens (expand t) (expand t)) :
    (nodes nodes' : List (String × PopulateNode)) →
      List.Forall₂ (Entries.Relates PopulateNode.Opens) nodes nodes' →
      Follows (List.Forall₂ (TargetOf.Opens Branch.Opens)) (planTargets r expand nodes)
        (planTargets r expand nodes')
  | [], _, h => by
    cases h
    rw [planTargets]
    exact follows_pure .nil
  | (tag, .all) :: rest, _, h => by
    obtain ⟨_, rest', ⟨_, hnode⟩, hrest, rfl⟩ := List.forall₂_cons_left_iff.1 h
    cases hnode
    have hrest := follows_planTargets hexpand rest rest' hrest
    rw [planTargets, planTargets]
    refine (ensures_true _).followed fun target _ => ?_
    refine (hexpand target).bind fun plan plan' hplan => ?_
    exact hrest.bind fun _ _ htargets =>
      follows_pure (.cons (.intro _ _ _ (Projection.opens_refl _) hplan) htargets)
  | (tag, .shape ⟨fields, filters, populate⟩) :: rest, _, h => by
    obtain ⟨_, rest', ⟨_, hnode⟩, hrest, rfl⟩ := List.forall₂_cons_left_iff.1 h
    obtain _ | ⟨⟨_, hfields, hbelow⟩⟩ := hnode
    have hrest := follows_planTargets hexpand rest rest' hrest
    rw [planTargets, planTargets]
    refine (ensures_true _).followed fun target _ => ?_
    refine (follows_planSpec hexpand target populate _ hbelow).bind fun plan plan' hplan => ?_
    refine (follows_target r target hfields filters hplan).bind fun _ _ hopens => ?_
    exact hrest.bind fun _ _ htargets => follows_pure (.cons hopens htargets)
  | (tag, .tags _) :: _, _, _ => by
    rw [planTargets]
    exact Ensures.vacuous ((ensures_true _).bind fun _ _ => ensures_throw _) _
termination_by structural nodes => nodes

theorem follows_planComponents (hexpand : ∀ t, Follows PopulatePlan.Opens (expand t) (expand t)) :
    (nodes nodes' : List (String × PopulateNode)) →
      List.Forall₂ (Entries.Relates PopulateNode.Opens) nodes nodes' →
      Follows (List.Forall₂ (ComponentOf.Opens Branch.Opens)) (planComponents r expand nodes)
        (planComponents r expand nodes')
  | [], _, h => by
    cases h
    rw [planComponents]
    exact follows_pure .nil
  | (tag, .all) :: rest, _, h => by
    obtain ⟨_, rest', ⟨_, hnode⟩, hrest, rfl⟩ := List.forall₂_cons_left_iff.1 h
    cases hnode
    have hrest := follows_planComponents hexpand rest rest' hrest
    rw [planComponents, planComponents]
    refine (ensures_true _).followed fun component _ => ?_
    refine (hexpand component).bind fun plan plan' hplan => ?_
    exact hrest.bind fun _ _ hcomponents =>
      follows_pure (.cons (.intro _ (Projection.opens_refl _) hplan) hcomponents)
  | (tag, .shape ⟨fields, filters, populate⟩) :: rest, _, h => by
    obtain ⟨_, rest', ⟨_, hnode⟩, hrest, rfl⟩ := List.forall₂_cons_left_iff.1 h
    obtain _ | ⟨⟨_, hfields, hbelow⟩⟩ := hnode
    have hrest := follows_planComponents hexpand rest rest' hrest
    rw [planComponents, planComponents]
    refine (ensures_true _).followed fun component _ => ?_
    split
    · exact follows_throw _ _
    · refine (follows_planSpec hexpand component populate _ hbelow).bind fun plan plan' hplan => ?_
      refine (follows_project component hfields hplan.attributes).bind fun _ _ hshown => ?_
      exact hrest.bind fun _ _ hcomponents => follows_pure (.cons (.intro _ hshown hplan) hcomponents)
  | (tag, .tags _) :: _, _, _ => by
    rw [planComponents]
    exact Ensures.vacuous ((ensures_true _).bind fun _ _ => ensures_throw _) _
termination_by structural nodes => nodes
end

end

theorem follows_planDefaults (r : Registry) (depth : Nat) (opened : List String)
    (t : DocumentType) :
    Follows PopulatePlan.Opens (planDefaults r depth opened t) (planDefaults r depth opened t) := by
  induction depth generalizing opened t with
  | zero => exact follows_pure .nil
  | succ depth ih =>
    rw [planDefaults]
    split
    · exact follows_pure .nil
    · exact follows_planSpec (fun t => ih _ t) t _ _ (PopulateSpec.keyed_ofPaths _).opens

end Planning

theorem PopulatePlan.opens_of_build {r : Registry} {t : DocumentType} {spec spec' : PopulateSpec}
    (hspec : spec.Opens spec') {cache cache' : PredicateCache} {plan : PopulatePlan}
    (h : PopulatePlan.build r t spec cache = (.ok plan, cache')) :
    ∃ plan', PopulatePlan.build r t spec' cache = (.ok plan', cache') ∧ plan.Opens plan' :=
  Planning.follows_planSpec (Planning.follows_planDefaults r _ []) t spec spec' hspec cache plan
    cache' h

end ContentEngine
