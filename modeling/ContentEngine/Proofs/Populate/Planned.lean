import ContentEngine.Populate.Plan
import ContentEngine.Proofs.Entries
import ContentEngine.Proofs.Outcome
import ContentEngine.Proofs.Schema.Registry
import Mathlib.Data.List.Forall2

/-!
# Plans in which no tag comes twice

The tags of an attribute are a set, and a specification maps tags to nodes. A plan that is built
from them has at most one target and one component for every tag, at every depth. Every step of the
planner ensures this if the steps below it do.
-/

namespace ContentEngine

inductive Branch.TagsOnce : Branch → Prop
  | relation (owner attr : String) (one : Bool) (target : TargetOf Branch)
      (populate : ∀ b ∈ target.populate, TagsOnce b) : TagsOnce (.relation owner attr one target)
  | polymorphic (owner attr : String) (targets : List (TargetOf Branch))
      (once : (targets.map (·.docType)).Nodup)
      (populate : ∀ t ∈ targets, ∀ b ∈ t.populate, TagsOnce b) :
      TagsOnce (.polymorphic owner attr targets)
  | dynamicZone (owner attr : String) (components : List (ComponentOf Branch))
      (once : (components.map (·.docType)).Nodup)
      (populate : ∀ c ∈ components, ∀ b ∈ c.populate, TagsOnce b) :
      TagsOnce (.dynamicZone owner attr components)

def PopulatePlan.TagsOnce (plan : PopulatePlan) : Prop := ∀ b ∈ plan, b.TagsOnce

/-- The nodes by tag are a map, at every depth. -/
inductive PopulateNode.TagsOnce : PopulateNode → Prop
  | all : TagsOnce .all
  | shape (shape : ShapeOf (SpecOf PopulateNode))
      (entries : ∀ e ∈ shape.populate.entries, TagsOnce e.2) : TagsOnce (.shape shape)
  | tags (nodes : List (String × PopulateNode)) (once : (nodes.map (·.1)).Nodup)
      (entries : ∀ e ∈ nodes, TagsOnce e.2) : TagsOnce (.tags nodes)

def PopulateSpec.TagsOnce (spec : PopulateSpec) : Prop := ∀ e ∈ spec.entries, e.2.TagsOnce

/-- The tags of every attribute are a set. -/
def DocumentType.TagsOnce (t : DocumentType) : Prop :=
  ∀ a ∈ t.attributes, ∀ tags, a.kind.tags? = some tags → tags.Nodup

/-- Types lie under their names. -/
structure Registry.WellFormed (r : Registry) : Prop where
  named : ∀ name t, r.get? name = some t → t.name = name
  tagsOnce : ∀ name t, r.get? name = some t → t.TagsOnce

/-! ## Built registries -/

theorem DocumentType.tagsOnce_withSystemAttributes {t : DocumentType} (h : t.TagsOnce) :
    t.withSystemAttributes.TagsOnce := by
  intro a ha tags htags
  rcases List.mem_append.1 ha with ha | ha
  · exact h a ha tags htags
  · have hscalar : a.kind.tags? = none := by
      have ha := (List.mem_filter.1 ha).1
      obtain ⟨_, _ | _, hdrafts, _, _⟩ := t
      · by_cases hd : hdrafts <;> simp [systemAttributes, hd] at ha <;>
          rcases ha with rfl | rfl | rfl | rfl <;> rfl
      · simp [systemAttributes] at ha
    rw [hscalar] at htags
    exact absurd htags (by simp)

theorem Registry.wellFormed_build {types : List DocumentType} {r : Registry}
    (h : Registry.build types = .ok r) (htypes : ∀ t ∈ types, t.TagsOnce) : r.WellFormed where
  named _ _ ht := name_of_build h ht
  tagsOnce _ _ ht := by
    obtain ⟨u, hu, -, rfl⟩ := given_of_build h ht
    exact DocumentType.tagsOnce_withSystemAttributes (htypes u hu)

/-! ## Default paths -/

/-- A property of nodes that stays when a path goes on below one of them. -/
structure PopulateNode.KeptByPaths (R : PopulateNode → Prop) : Prop where
  all : R .all
  below : ∀ node, R node → ∀ e ∈ node.shapeBelow.populate.entries, R e.2
  shape : ∀ node (spec : PopulateSpec), R node → (∀ e ∈ spec.entries, R e.2) →
    R (.shape { node.shapeBelow with populate := spec })

namespace PopulateSpec
variable {R : PopulateNode → Prop}

theorem every_insertSegments (hR : PopulateNode.KeptByPaths R) {spec : PopulateSpec}
    (h : ∀ e ∈ spec.entries, R e.2) (path : List String) :
    ∀ e ∈ (spec.insertSegments path).entries, R e.2 := by
  have hinsert : ∀ {spec : PopulateSpec} {name : String} {node : PopulateNode},
      (∀ e ∈ spec.entries, R e.2) → R node → ∀ e ∈ Entries.insert spec.entries name node, R e.2 := by
    intro spec name node hspec hnode e he
    rcases Entries.mem_insert he with rfl | he
    · exact hnode
    · exact hspec e he
  induction path generalizing spec with
  | nil => exact h
  | cons name rest ih =>
    cases rest with
    | nil =>
      unfold PopulateSpec.insertSegments
      split
      · exact h
      · split
        · exact h
        · exact hinsert h hR.all
    | cons next rest =>
      have hnode : R ((Entries.get? spec.entries name).getD .all) := by
        cases hget : Entries.get? spec.entries name with
        | none => exact hR.all
        | some node => exact h _ (Entries.mem_of_get? hget)
      exact hinsert h (hR.shape _ _ hnode (ih (hR.below _ hnode)))

theorem every_ofPaths (hR : PopulateNode.KeptByPaths R) (paths : List String) :
    ∀ e ∈ (ofPaths paths).entries, R e.2 := by
  have hfold : ∀ spec : PopulateSpec, (∀ e ∈ spec.entries, R e.2) →
      ∀ e ∈ (paths.foldl insertPath spec).entries, R e.2 := by
    induction paths with
    | nil => exact fun _ h => h
    | cons path paths ih => exact fun spec h => ih _ (every_insertSegments hR h _)
  exact hfold .empty (by simp [empty])

end PopulateSpec

theorem PopulateNode.tagsOnce_keptByPaths : PopulateNode.KeptByPaths PopulateNode.TagsOnce where
  all := .all
  below node h := by
    cases h with
    | all => simp [shapeBelow, PopulateSpec.empty]
    | shape shape entries => exact entries
    | tags nodes once entries => simp [shapeBelow, PopulateSpec.empty]
  shape _ _ _ hspec := .shape _ hspec

/-! ## The planner -/

/-- Of two lists that are related item by item, every item of the first has one in the second. -/
theorem exists_of_forall₂ {β γ : Type} {R : β → γ → Prop} {m : List γ} {n : List β}
    (h : List.Forall₂ R n m) {b : β} (hb : b ∈ n) : ∃ c ∈ m, R b c := by
  induction h with
  | nil => exact absurd hb List.not_mem_nil
  | @cons b' c' n m hbc _ ih =>
    rcases List.mem_cons.1 hb with rfl | hb
    · exact ⟨c', List.mem_cons_self .., hbc⟩
    · obtain ⟨c, hc, hR⟩ := ih hb
      exact ⟨c, List.mem_cons_of_mem _ hc, hR⟩

namespace Planning
variable {α : Type} {P : α → Prop}

theorem ensures_ofSchema (x : Except SchemaError α) : Ensures (ofSchema x) fun a => x = .ok a := by
  cases x with
  | ok a => exact ensures_pure rfl
  | error e => exact ensures_throw _

theorem ensures_runAll {γ : Type} {R : γ → α → Prop} {f : γ → Planning α} {l : List γ}
    (h : ∀ c ∈ l, Ensures (f c) (R c)) : Ensures (runAll (l.map f)) (List.Forall₂ R l) := by
  induction l with
  | nil => exact ensures_pure .nil
  | cons c l ih =>
    refine (h c (List.mem_cons_self ..)).bind fun a ha => ?_
    refine Ensures.bind (ih fun d hd => h d (List.mem_cons_of_mem _ hd)) fun as has => ?_
    exact ensures_pure (.cons ha has)

theorem ensures_populatable {t : DocumentType} (name : String) :
    Ensures (populatable t name) (· ∈ t.attributes) := by
  unfold populatable
  cases ha : t.attr? name with
  | none => exact ensures_throw _
  | some a =>
    cases hkind : a.kind.isPopulatable with
    | false =>
      simp only [hkind]
      exact ensures_throw _
    | true =>
      simp only [hkind, if_true]
      exact ensures_pure (List.mem_of_find?_eq_some ha)

section
variable {r : Registry} {expand : DocumentType → Planning PopulatePlan}

theorem ensures_get (hr : r.WellFormed) (name : String) :
    Ensures (ofSchema (r.get name)) fun t => t.name = name ∧ t.TagsOnce := by
  intro cache t ht
  have hget := ensures_ofSchema (r.get name) cache t ht
  unfold Registry.get at hget
  cases hname : r.get? name with
  | none => simp [hname] at hget
  | some t' =>
    simp only [hname, Except.ok.injEq] at hget
    subst hget
    exact ⟨hr.named name t' hname, hr.tagsOnce name t' hname⟩

theorem ensures_target (t : DocumentType) (fields : Option Names) (filters : Option Filter)
    (populate : PopulatePlan) :
    Ensures (Planning.target r t fields filters populate) fun target =>
      target.docType = t.name ∧ target.populate = populate :=
  (ensures_true _).bind fun _ _ => (ensures_true _).bind fun _ _ => ensures_pure ⟨rfl, rfl⟩

theorem forall_right {γ : Type} {l : List γ} {as : List α}
    (h : List.Forall₂ (fun _ => P) l as) : ∀ a ∈ as, P a := by
  induction h with
  | nil => simp
  | cons ha _ ih => exact List.forall_mem_cons.2 ⟨ha, ih⟩

section
variable {β : Type} {docType : β → String} {R : β → Prop} {tags : List String} {targets : List β}

theorem docTypes_cons {tag : String} {target : β} (htarget : docType target = tag ∧ R target)
    (h : targets.map docType = tags ∧ ∀ t ∈ targets, R t) :
    (target :: targets).map docType = tag :: tags ∧ ∀ t ∈ target :: targets, R t := by
  refine ⟨?_, List.forall_mem_cons.2 ⟨htarget.2, h.2⟩⟩
  rw [List.map_cons, htarget.1, h.1]

theorem docTypes_eq (h : List.Forall₂ (fun tag t => docType t = tag ∧ R t) tags targets) :
    targets.map docType = tags ∧ ∀ t ∈ targets, R t := by
  induction h with
  | nil => simp
  | cons ht _ ih => exact docTypes_cons ht ih

end

theorem ensures_defaultBranch (hr : r.WellFormed)
    (hexpand : ∀ t, t.TagsOnce → Ensures (expand t) PopulatePlan.TagsOnce) {t : DocumentType}
    (ht : t.TagsOnce) (name : String) : Ensures (defaultBranch r expand t name) Branch.TagsOnce := by
  refine (ensures_populatable name).bind fun a ha => ?_
  cases hkind : a.kind with
  | scalar kind => exact ensures_throw _
  | relationOne target =>
    refine (ensures_true _).bind fun target _ => ensures_pure (.relation _ _ _ _ ?_)
    simp [defaultTarget]
  | relationMany target =>
    refine (ensures_true _).bind fun target _ => ensures_pure (.relation _ _ _ _ ?_)
    simp [defaultTarget]
  | polymorphic tags =>
    have htags : tags.Nodup := ht a ha tags (by rw [hkind]; rfl)
    refine (ensures_runAll (R := fun tag target => target.docType = tag ∧
      PopulatePlan.TagsOnce target.populate) fun tag _ => ?_).bind fun targets htargets => ?_
    · refine (ensures_get hr tag).bind fun target htarget => ?_
      exact (hexpand target htarget.2).bind fun plan hplan => ensures_pure ⟨htarget.1, hplan⟩
    · obtain ⟨hnames, hplans⟩ := docTypes_eq htargets
      exact ensures_pure (.polymorphic _ _ _ (hnames ▸ htags) hplans)
  | dynamicZone tags =>
    have htags : tags.Nodup := ht a ha tags (by rw [hkind]; rfl)
    refine (ensures_runAll (R := fun tag component => component.docType = tag ∧
      PopulatePlan.TagsOnce component.populate) fun tag _ => ?_).bind fun components hcomponents => ?_
    · refine (ensures_get hr tag).bind fun component hcomponent => ?_
      exact (hexpand component hcomponent.2).bind fun plan hplan =>
        ensures_pure ⟨hcomponent.1, hplan⟩
    · obtain ⟨hnames, hplans⟩ := docTypes_eq hcomponents
      exact ensures_pure (.dynamicZone _ _ _ (hnames ▸ htags) hplans)

theorem ensures_withWildcard (hr : r.WellFormed)
    (hexpand : ∀ t, t.TagsOnce → Ensures (expand t) PopulatePlan.TagsOnce) {t : DocumentType}
    (ht : t.TagsOnce) (wildcard : Bool) {entries : Entries (Planning Branch)}
    (hentries : ∀ e ∈ entries, Ensures e.2 Branch.TagsOnce) :
    Ensures (withWildcard r expand t wildcard entries) PopulatePlan.TagsOnce := by
  let missing := t.relationAttributes.filter fun a => !Entries.contains entries a.name
  let defaults := missing.map fun a => (a.name, defaultBranch r expand t a.name)
  have hdefaults : ∀ e ∈ defaults, Ensures e.2 Branch.TagsOnce := by
    intro e he
    obtain ⟨a, -, rfl⟩ := List.mem_map.1 he
    exact ensures_defaultBranch hr hexpand ht a.name
  have hall : ∀ m ∈ Entries.values
      (if wildcard then Entries.insertAll entries defaults else entries),
      Ensures m Branch.TagsOnce := by
    intro m hm
    obtain ⟨e, he, rfl⟩ := List.mem_map.1 hm
    cases wildcard with
    | false => exact hentries e he
    | true =>
      rcases Entries.mem_insertAll he with he | he
      · exact hentries e he
      · exact hdefaults e he
  have hrun := ensures_runAll (f := id) (R := fun _ => Branch.TagsOnce) hall
  rw [List.map_id] at hrun
  exact fun cache plan hplan => forall_right (hrun cache plan hplan)

mutual
theorem ensures_planSpec (hr : r.WellFormed)
    (hexpand : ∀ t, t.TagsOnce → Ensures (expand t) PopulatePlan.TagsOnce) {t : DocumentType}
    (ht : t.TagsOnce) : (spec : SpecOf PopulateNode) → PopulateSpec.TagsOnce spec →
      Ensures (planSpec r expand t spec) PopulatePlan.TagsOnce
  | ⟨wildcard, entries⟩, hspec => by
    rw [planSpec]
    exact ensures_withWildcard hr hexpand ht wildcard (ensures_planEntries hr hexpand ht entries hspec)

theorem ensures_planEntries (hr : r.WellFormed)
    (hexpand : ∀ t, t.TagsOnce → Ensures (expand t) PopulatePlan.TagsOnce) {t : DocumentType}
    (ht : t.TagsOnce) : (entries : List (String × PopulateNode)) →
      (∀ e ∈ entries, e.2.TagsOnce) →
      ∀ e ∈ planEntries r expand t entries, Ensures e.2 Branch.TagsOnce
  | [], _ => by simp [planEntries]
  | (name, node) :: rest, h => by
    simp only [planEntries, List.mem_cons, forall_eq_or_imp]
    exact ⟨ensures_planBranch hr hexpand ht name node (h _ (List.mem_cons_self ..)),
      ensures_planEntries hr hexpand ht rest fun e he => h e (List.mem_cons_of_mem _ he)⟩

theorem ensures_planBranch (hr : r.WellFormed)
    (hexpand : ∀ t, t.TagsOnce → Ensures (expand t) PopulatePlan.TagsOnce) {t : DocumentType}
    (ht : t.TagsOnce) (name : String) : (node : PopulateNode) → node.TagsOnce →
      Ensures (planBranch r expand t name node) Branch.TagsOnce
  | .all, _ => by
    rw [planBranch]
    exact ensures_defaultBranch hr hexpand ht name
  | .shape ⟨fields, filters, populate⟩, h => by
    have hpopulate : PopulateSpec.TagsOnce populate := by cases h; assumption
    rw [planBranch]
    refine (ensures_populatable name).bind fun a _ => ?_
    cases a.kind.relationTarget? with
    | none => exact ensures_throw _
    | some target =>
      refine (ensures_get hr target).bind fun target htarget => ?_
      refine (ensures_planSpec hr hexpand htarget.2 populate hpopulate).bind fun plan hplan => ?_
      refine (ensures_target target fields filters plan).bind fun targetPlan htargetPlan => ?_
      exact ensures_pure (.relation _ _ _ _ (htargetPlan.2 ▸ hplan))
  | .tags nodes, h => by
    obtain ⟨once, hnodes⟩ : (nodes.map (·.1)).Nodup ∧ ∀ e ∈ nodes, e.2.TagsOnce := by
      cases h; exact ⟨by assumption, by assumption⟩
    rw [planBranch]
    refine (ensures_populatable name).bind fun a _ => ?_
    cases a.kind with
    | polymorphic tags =>
      refine (ensures_true _).bind fun _ _ => ?_
      refine (ensures_planTargets hr hexpand nodes hnodes).bind fun targets htargets => ?_
      exact ensures_pure (.polymorphic _ _ _ (htargets.1 ▸ once) htargets.2)
    | dynamicZone tags =>
      refine (ensures_true _).bind fun _ _ => ?_
      refine (ensures_planComponents hr hexpand nodes hnodes).bind fun components hcomponents => ?_
      exact ensures_pure (.dynamicZone _ _ _ (hcomponents.1 ▸ once) hcomponents.2)
    | _ => exact ensures_throw _

theorem ensures_planTargets (hr : r.WellFormed)
    (hexpand : ∀ t, t.TagsOnce → Ensures (expand t) PopulatePlan.TagsOnce) :
    (nodes : List (String × PopulateNode)) → (∀ e ∈ nodes, e.2.TagsOnce) →
      Ensures (planTargets r expand nodes) fun targets =>
        targets.map (·.docType) = nodes.map (·.1) ∧
          ∀ t ∈ targets, PopulatePlan.TagsOnce t.populate
  | [], _ => by
    rw [planTargets]
    exact ensures_pure (by simp)
  | (tag, .all) :: rest, h => by
    have hrest := ensures_planTargets hr hexpand rest fun e he => h e (List.mem_cons_of_mem _ he)
    rw [planTargets]
    refine (ensures_get hr tag).bind fun target htarget => ?_
    refine (hexpand target htarget.2).bind fun plan hplan => ?_
    exact hrest.bind fun targets htargets =>
      ensures_pure (docTypes_cons ⟨htarget.1, hplan⟩ htargets)
  | (tag, .shape ⟨fields, filters, populate⟩) :: rest, h => by
    have hrest := ensures_planTargets hr hexpand rest fun e he => h e (List.mem_cons_of_mem _ he)
    have hpopulate : PopulateSpec.TagsOnce populate := by
      cases h _ (List.mem_cons_self ..); assumption
    rw [planTargets]
    refine (ensures_get hr tag).bind fun target htarget => ?_
    refine (ensures_planSpec hr hexpand htarget.2 populate hpopulate).bind fun plan hplan => ?_
    refine (ensures_target target fields filters plan).bind fun targetPlan htargetPlan => ?_
    have hkept : targetPlan.docType = tag ∧ PopulatePlan.TagsOnce targetPlan.populate :=
      ⟨htargetPlan.1.trans htarget.1, htargetPlan.2 ▸ hplan⟩
    exact hrest.bind fun targets htargets => ensures_pure (docTypes_cons hkept htargets)
  | (tag, .tags _) :: _, _ => by
    rw [planTargets]
    exact (ensures_true _).bind fun _ _ => ensures_throw _

theorem ensures_planComponents (hr : r.WellFormed)
    (hexpand : ∀ t, t.TagsOnce → Ensures (expand t) PopulatePlan.TagsOnce) :
    (nodes : List (String × PopulateNode)) → (∀ e ∈ nodes, e.2.TagsOnce) →
      Ensures (planComponents r expand nodes) fun components =>
        components.map (·.docType) = nodes.map (·.1) ∧
          ∀ c ∈ components, PopulatePlan.TagsOnce c.populate
  | [], _ => by
    rw [planComponents]
    exact ensures_pure (by simp)
  | (tag, .all) :: rest, h => by
    have hrest := ensures_planComponents hr hexpand rest fun e he => h e (List.mem_cons_of_mem _ he)
    rw [planComponents]
    refine (ensures_get hr tag).bind fun component hcomponent => ?_
    refine (hexpand component hcomponent.2).bind fun plan hplan => ?_
    exact hrest.bind fun components hcomponents =>
      ensures_pure (docTypes_cons ⟨hcomponent.1, hplan⟩ hcomponents)
  | (tag, .shape ⟨fields, filters, populate⟩) :: rest, h => by
    have hrest := ensures_planComponents hr hexpand rest fun e he => h e (List.mem_cons_of_mem _ he)
    have hpopulate : PopulateSpec.TagsOnce populate := by
      cases h _ (List.mem_cons_self ..); assumption
    rw [planComponents]
    refine (ensures_get hr tag).bind fun component hcomponent => ?_
    split
    · exact ensures_throw _
    · refine (ensures_planSpec hr hexpand hcomponent.2 populate hpopulate).bind fun plan hplan => ?_
      refine (ensures_true _).bind fun projection _ => ?_
      exact hrest.bind fun components hcomponents =>
        ensures_pure (docTypes_cons ⟨hcomponent.1, hplan⟩ hcomponents)
  | (tag, .tags _) :: _, _ => by
    rw [planComponents]
    exact (ensures_true _).bind fun _ _ => ensures_throw _
end

end

theorem ensures_planDefaults {r : Registry} (hr : r.WellFormed) (depth : Nat)
    (opened : List String) (t : DocumentType) (ht : t.TagsOnce) :
    Ensures (planDefaults r depth opened t) PopulatePlan.TagsOnce := by
  induction depth generalizing opened t with
  | zero => exact ensures_pure (by simp [PopulatePlan.TagsOnce])
  | succ depth ih =>
    rw [planDefaults]
    split
    · exact ensures_pure (by simp [PopulatePlan.TagsOnce])
    · have hspec := PopulateSpec.every_ofPaths PopulateNode.tagsOnce_keptByPaths t.defaultPopulate
      exact ensures_planSpec hr (fun t ht => ih _ t ht) ht _ hspec

end Planning

theorem PopulatePlan.tagsOnce_of_build {r : Registry} (hr : r.WellFormed) {name : String}
    {t : DocumentType} (ht : r.get? name = some t) {spec : PopulateSpec} (hspec : spec.TagsOnce)
    {cache : PredicateCache} {plan : PopulatePlan}
    (h : (PopulatePlan.build r t spec cache).1 = .ok plan) : plan.TagsOnce :=
  have htags := hr.tagsOnce name t ht
  Planning.ensures_planSpec hr (Planning.ensures_planDefaults hr _ []) htags spec hspec cache plan h

end ContentEngine
