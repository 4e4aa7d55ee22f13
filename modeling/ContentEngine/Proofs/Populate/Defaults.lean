import ContentEngine.Proofs.Populate.Within

/-!
# Defaults are expanded once

`PopulatePlan.Walk` goes down a plan along its specification, and notes the types whose defaults were
expanded on the way. No type is noted twice, also where default populations refer to each other in a
cycle; and defaults are left out only where they are noted already.
-/

namespace ContentEngine

/-- What a branch leads to when a node asks for it: a type, the node for its documents, and their
plan. -/
inductive Branch.Leads (node : PopulateNode) : Branch → String → PopulateNode → PopulatePlan → Prop
  | relation (owner attr : String) (one : Bool) (target : TargetPlan) :
      Branch.Leads node (.relation owner attr one target) target.docType node target.populate
  | polymorphic (owner attr : String) {targets : List TargetPlan} {target : TargetPlan}
      (htarget : target ∈ targets) :
      Branch.Leads node (.polymorphic owner attr targets) target.docType
        (node.behind target.docType) target.populate
  | dynamicZone (owner attr : String) {components : List ComponentPlan} {component : ComponentPlan}
      (hc : component ∈ components) :
      Branch.Leads node (.dynamicZone owner attr components) component.docType
        (node.behind component.docType) component.populate

/-- `plan.Walk r t spec opened u below level`: a path down the plan of a specification leads to
documents of the type `u`, which are populated by `level` as `below` asks for. A shape asks for what
it says. The default shape of a type asks for its defaults, and where these were expanded to
something, the type is noted in `opened`. -/
inductive PopulatePlan.Walk (r : Registry) (t : DocumentType) (spec : PopulateSpec)
    (plan : PopulatePlan) : List String → DocumentType → PopulateSpec → PopulatePlan → Prop
  | root : Walk r t spec plan [] t spec plan
  | shape {opened : List String} {u v : DocumentType} {below : PopulateSpec}
      {level populate : PopulatePlan} {b : Branch} {docType : String} {shape : PopulateShape}
      (h : Walk r t spec plan opened u below level) (hb : b ∈ level)
      (hleads : b.Leads (below.node b.attr) docType (.shape shape) populate)
      (hv : r.get? docType = some v) :
      Walk r t spec plan opened v shape.populate populate
  | defaults {opened : List String} {u v : DocumentType} {below : PopulateSpec}
      {level populate : PopulatePlan} {b : Branch} {docType : String}
      (h : Walk r t spec plan opened u below level) (hb : b ∈ level)
      (hleads : b.Leads (below.node b.attr) docType .all populate)
      (hv : r.get? docType = some v) (hexpanded : populate ≠ []) :
      Walk r t spec plan (docType :: opened) v (.ofPaths v.defaultPopulate) populate

theorem PopulateSpec.Keyed.node {spec : PopulateSpec} (h : spec.Keyed) (attr : String) :
    (spec.node attr).Keyed := by
  unfold PopulateSpec.node
  cases hget : Entries.get? spec.entries attr with
  | none => exact .all
  | some node => exact h.2 _ (Entries.mem_of_get? hget)

theorem PopulateNode.Keyed.behind {node : PopulateNode} (h : node.Keyed) (tag : String) :
    (node.behind tag).Keyed := by
  cases h with
  | tags nodes sorted entries =>
    change PopulateNode.Keyed ((Entries.get? nodes tag).getD .all)
    cases hget : Entries.get? nodes tag with
    | none => exact .all
    | some node => exact entries _ (Entries.mem_of_get? hget)
  | _ => exact .all

section
variable {r : Registry} {opened : List String} {t : DocumentType} {spec : PopulateSpec} {b : Branch}
  {docType : String} {node : PopulateNode} {populate : PopulatePlan}

theorem Branch.Leads.keyed (hspec : spec.Keyed)
    (h : b.Leads (spec.node b.attr) docType node populate) : node.Keyed := by
  have hnode := hspec.node b.attr
  generalize spec.node b.attr = n at h hnode
  cases h with
  | relation owner attr one target => exact hnode
  | polymorphic owner attr htarget => exact hnode.behind _
  | dynamicZone owner attr hc => exact hnode.behind _

/-- One step down: the plan that a branch leads to was planned from the node, or it is what the default
shape leaves of a relation. -/
theorem Branch.Planned.leads (hspec : spec.Keyed) (hb : b.Planned r opened t spec)
    (h : b.Leads (spec.node b.attr) docType node populate) :
    PopulateNode.Planned r opened docType node populate ∨
      ((∃ owner attr one target, b = .relation owner attr one target) ∧ node = .all ∧
        populate = []) := by
  have htag : ∀ {n : PopulateNode} {tag : String} {plan : PopulatePlan}, n.Keyed →
      PopulateNode.PlannedTag r opened n tag plan →
      PopulateNode.Planned r opened tag (n.behind tag) plan := by
    rintro n tag plan hn ⟨below, hselects, hplanned⟩
    rwa [PopulateNode.behind_of_selects hn hselects]
  have hkeyed := hspec.node b.attr
  cases hb with
  | relationDefault declared hselects plain =>
    have hnode : spec.node _ = .all := PopulateSpec.node_of_selects hspec hselects
    cases h with
    | relation => exact .inr ⟨⟨_, _, _, _, rfl⟩, hnode, plain⟩
  | relation shape declared hselects planned =>
    have hnode : spec.node _ = .shape shape := PopulateSpec.node_of_selects hspec hselects
    cases h with
    | relation => exact .inl (hnode ▸ planned)
  | polymorphic n declared hselects planned =>
    have hnode : spec.node _ = n := PopulateSpec.node_of_selects hspec hselects
    cases h with
    | polymorphic _ _ htarget => exact .inl (htag hkeyed (hnode ▸ planned _ htarget))
  | dynamicZone n declared hselects planned =>
    have hnode : spec.node _ = n := PopulateSpec.node_of_selects hspec hselects
    cases h with
    | dynamicZone _ _ hc => exact .inl (htag hkeyed (hnode ▸ planned _ hc))

end

/-- Where a walk has come to. -/
structure PopulatePlan.Reached (r : Registry) (opened : List String) (u : DocumentType)
    (below : PopulateSpec) (level : PopulatePlan) : Prop where
  keyed : below.Keyed
  planned : ∀ b ∈ level, b.Planned r opened u below
  once : opened.Nodup

namespace PopulatePlan
variable {r : Registry} {t u v : DocumentType} {spec below : PopulateSpec}
  {plan level populate : PopulatePlan} {opened : List String} {b : Branch} {docType : String}

theorem Reached.shape (h : Reached r opened u below level) (hb : b ∈ level) {shape : PopulateShape}
    (hleads : b.Leads (below.node b.attr) docType (.shape shape) populate)
    (hv : r.get? docType = some v) : Reached r opened v shape.populate populate := by
  rcases (h.planned b hb).leads h.keyed hleads with hplanned | ⟨-, hall, -⟩
  · refine ⟨PopulateSpec.keyed_shapeBelow (hleads.keyed h.keyed), ?_, h.once⟩
    cases hplanned with
    | shape _ branches => exact branches v hv
  · exact absurd hall (by simp)

/-- Defaults that were expanded belong to a type that was not noted yet. -/
theorem Reached.defaults (h : Reached r opened u below level) (hb : b ∈ level)
    (hleads : b.Leads (below.node b.attr) docType .all populate) (hv : r.get? docType = some v)
    (hexpanded : populate ≠ []) :
    Reached r (docType :: opened) v (.ofPaths v.defaultPopulate) populate := by
  rcases (h.planned b hb).leads h.keyed hleads with hplanned | ⟨-, -, hnil⟩
  · cases hplanned with
    | first new branches whole =>
      exact ⟨PopulateSpec.keyed_ofPaths _, branches v hv, List.nodup_cons.2 ⟨new, h.once⟩⟩
    | again old => exact absurd rfl hexpanded
  · exact absurd hnil hexpanded

theorem Walk.reached (hspec : spec.Keyed) (hplan : ∀ b ∈ plan, b.Planned r [] t spec)
    (h : plan.Walk r t spec opened u below level) : Reached r opened u below level := by
  induction h with
  | root => exact ⟨hspec, hplan, .nil⟩
  | shape _ hb hleads hv ih => exact ih.shape hb hleads hv
  | defaults _ hb hleads hv hexpanded ih => exact ih.defaults hb hleads hv hexpanded

end PopulatePlan

/-- Defaults are left out only where they are being expanded: a tag in the default shape whose type was
not noted yet has a branch for each attribute that the defaults of the type name. -/
theorem PopulatePlan.defaults_left_out_only_again {r : Registry} (hr : r.Accepted) {name : String}
    {t u v : DocumentType} (ht : r.get? name = some t) {spec below : PopulateSpec}
    (hspec : spec.Keyed) {cache : PredicateCache} {plan level populate : PopulatePlan}
    (hplan : (PopulatePlan.build r t spec cache).1 = .ok plan) {opened : List String}
    (hwalk : plan.Walk r t spec opened u below level) {b : Branch} (hb : b ∈ level)
    (htagged : ∀ owner attr one target, b ≠ .relation owner attr one target) {docType : String}
    (hleads : b.Leads (below.node b.attr) docType .all populate) (hnew : docType ∉ opened)
    (hv : r.get? docType = some v) :
    ∀ e ∈ (PopulateSpec.ofPaths v.defaultPopulate).entries, e.1 ∈ populate.attributes := by
  have hplanned := (known_build hr.closed ht spec).ensures cache plan hplan
  have hreached := hwalk.reached hspec hplanned.branches
  rcases (hreached.planned b hb).leads hreached.keyed hleads with
    hdefaults | ⟨⟨owner, attr, one, target, hrelation⟩, -⟩
  · cases hdefaults with
    | first _ _ whole => exact whole v hv
    | again old => exact absurd old hnew
  · exact absurd hrelation (htagged owner attr one target)

/-- A registry that was built is closed. On any of its types, neither compiling a filter nor coercing
data nor planning what to populate can come to an unknown type. All that a plan names is declared and
registered; and on every path down a plan, the defaults of each type are expanded at most once. -/
theorem accepted_registry_closed {r : Registry} (hr : r.Accepted) {name : String} {t : DocumentType}
    (ht : r.get? name = some t) :
    (∀ f e, Filter.compile r t f = .error e → e.isUnknownType = false) ∧
      (∀ data creating n e, (Coercion.document r t data creating).run n = .error e →
        e.isUnknownType = false) ∧
      ∀ spec cache,
        (∀ e, (PopulatePlan.build r t spec cache).1 = .error e → e.isUnknownType = false) ∧
        ∀ plan, (PopulatePlan.build r t spec cache).1 = .ok plan →
          (∀ b ∈ plan, b.Closed r t) ∧
          (spec.Keyed → ∀ opened u below level, plan.Walk r t spec opened u below level →
            opened.Nodup) := by
  have hclosed := hr.closed
  refine ⟨fun f => Filter.compile_known hclosed ht f,
    fun data creating => Coercion.known_document hclosed ht data creating, fun spec cache => ?_⟩
  have hends := PopulatePlan.known_build hclosed ht spec
  refine ⟨fun e he => hends.fails cache e he, fun plan hplan => ?_⟩
  have hplanned := hends.ensures cache plan hplan
  exact ⟨fun b hb => (hplanned.branches b hb).closed hclosed ht,
    fun hspec opened u below level hwalk => (hwalk.reached hspec hplanned.branches).once⟩

/-! ## Defaults in a cycle -/

namespace Ring

def wheel : DocumentType where
  name := "wheel"
  attributes := [⟨"next", .polymorphic ["spoke"], false⟩]
  defaultPopulate := ["next"]

def spoke : DocumentType where
  name := "spoke"
  attributes := [⟨"hub", .polymorphic ["wheel"], false⟩]
  defaultPopulate := ["hub"]

def types : List DocumentType := [wheel, spoke]

def registry : Registry := ⟨Entries.ofList (types.map fun t => (t.name, t.withSystemAttributes))⟩

def spec : PopulateSpec := ⟨false, [("next", .all)]⟩

def next (populate : PopulatePlan) : PopulatePlan :=
  [.polymorphic "wheel" "next" [⟨"spoke", none, .all, false, populate⟩]]

def hub (populate : PopulatePlan) : PopulatePlan :=
  [.polymorphic "spoke" "hub" [⟨"wheel", none, .all, false, populate⟩]]

end Ring

/-- From a wheel to its next spoke, on to the hub of that, and to its next spoke: there the defaults of
spokes are not expanded again. -/
theorem accepted_registry_closed_ring :
    let t := Ring.wheel.withSystemAttributes
    let plan := Ring.next (Ring.hub (Ring.next []))
    (PopulatePlan.build Ring.registry t Ring.spec (.empty 0)).1 = .ok plan ∧
      (∀ b ∈ plan, b.Closed Ring.registry t) ∧
      plan.Walk Ring.registry t Ring.spec ["wheel", "spoke"] t (.ofPaths ["next"]) (Ring.next []) ∧
      ["wheel", "spoke"].Nodup := by
  intro t plan
  have hr : Ring.registry.Accepted := .built Ring.types _ rfl
  have ht : Ring.registry.get? "wheel" = some t := rfl
  have hspec : Ring.spec.Keyed := PopulateSpec.keyed_single "next" .all
  have hplan : (PopulatePlan.build Ring.registry t Ring.spec (.empty 0)).1 = .ok plan := rfl
  have hspoke : plan.Walk Ring.registry t Ring.spec ["spoke"] Ring.spoke.withSystemAttributes
      (.ofPaths ["hub"]) (Ring.hub (Ring.next [])) :=
    .defaults .root (List.mem_singleton_self _)
      (.polymorphic "wheel" "next" (List.mem_singleton_self _)) rfl (by simp [Ring.hub])
  have hwheel : plan.Walk Ring.registry t Ring.spec ["wheel", "spoke"] t (.ofPaths ["next"])
      (Ring.next []) :=
    .defaults hspoke (List.mem_singleton_self _)
      (.polymorphic "spoke" "hub" (List.mem_singleton_self _)) rfl (by simp [Ring.next])
  obtain ⟨-, -, hplans⟩ := accepted_registry_closed hr ht
  obtain ⟨hclosed, honce⟩ := (hplans Ring.spec (.empty 0)).2 plan hplan
  exact ⟨hplan, hclosed, hwheel, honce hspec _ _ _ _ hwheel⟩

end ContentEngine
