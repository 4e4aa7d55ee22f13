import ContentEngine.Proofs.Populate.Planned
import ContentEngine.Proofs.Predicate.Sharing

/-!
# Planning through a cache

The filters of a specification are compiled through a cache. As long as the cache is faithful, the
plan does not depend on what it holds, and it stays faithful. Every step of the planner is steady if
the steps below it are.
-/

namespace ContentEngine

/-- Filters whose digests tell them apart. -/
structure Filter.Apart (filters : List Filter) : Prop where
  sized : ∀ f ∈ filters, f.encode.length < 2 ^ 64
  digests : ∀ f ∈ filters, ∀ g ∈ filters,
    Sha256.digest f.encode = Sha256.digest g.encode → f.encode = g.encode

/-- The filters are asked for on types of the registry. -/
def Registry.Asks (r : Registry) (filters : List Filter) (a : Asked) : Prop :=
  (∃ name, r.get? name = some a.docType) ∧ a.filter ∈ filters

theorem Filter.Apart.distinguished {filters : List Filter} (h : Filter.Apart filters)
    {types : List DocumentType} {r : Registry} (hbuild : Registry.build types = .ok r) :
    Distinguished r (r.Asks filters) where
  registered := by
    rintro a ⟨⟨name, hname⟩, -⟩
    rw [Registry.name_of_build hbuild hname, hname]
  sized := fun a ha => h.sized a.filter ha.2
  digests := fun a b ha hb => h.digests a.filter ha.2 b.filter hb.2

/-- All filters of a node are among the given ones. -/
inductive PopulateNode.Uses (filters : List Filter) : PopulateNode → Prop
  | all : Uses filters .all
  | shape (shape : ShapeOf (SpecOf PopulateNode)) (own : ∀ f ∈ shape.filters, f ∈ filters)
      (entries : ∀ e ∈ shape.populate.entries, Uses filters e.2) : Uses filters (.shape shape)
  | tags (nodes : List (String × PopulateNode)) (entries : ∀ e ∈ nodes, Uses filters e.2) :
      Uses filters (.tags nodes)

def PopulateSpec.Uses (filters : List Filter) (spec : PopulateSpec) : Prop :=
  ∀ e ∈ spec.entries, e.2.Uses filters

theorem PopulateNode.uses_keptByPaths (filters : List Filter) :
    PopulateNode.KeptByPaths (PopulateNode.Uses filters) where
  all := .all
  below node h := by
    cases h with
    | all => simp [shapeBelow, PopulateSpec.empty]
    | shape shape own entries => exact entries
    | tags nodes entries => simp [shapeBelow, PopulateSpec.empty]
  shape node spec h hspec := by
    refine .shape _ ?_ hspec
    cases h with
    | all => simp [shapeBelow]
    | shape shape own entries => exact own
    | tags nodes entries => simp [shapeBelow]

namespace Planning
variable {α : Type} {S : PredicateCache → Prop}

theorem steady_ofSchema (x : Except SchemaError α) : Steady S (ofSchema x) := by
  cases x with
  | ok a => exact steady_pure a
  | error e => exact steady_throw _

theorem steady_runAll {l : List (Planning α)} (h : ∀ m ∈ l, Steady S m) : Steady S (runAll l) := by
  induction l with
  | nil => exact steady_pure []
  | cons m l ih =>
    refine (h m (List.mem_cons_self ..)).andThen fun a => ?_
    exact (ih fun m hm => h m (List.mem_cons_of_mem _ hm)).andThen fun as => steady_pure _

theorem steady_populatable (t : DocumentType) (name : String) : Steady S (populatable t name) := by
  unfold populatable
  split
  · split
    · exact steady_pure _
    · exact steady_throw _
  · exact steady_throw _

theorem steady_checkTags (t : DocumentType) (attr : String) (allowed : Names)
    (selected : List String) : Steady S (checkTags t attr allowed selected) := by
  unfold checkTags
  split
  · exact steady_throw _
  · exact steady_pure ()

theorem steady_project (t : DocumentType) (fields : Option Names) (populate : PopulatePlan) :
    Steady S (project t fields populate) := by
  cases fields with
  | none => exact steady_pure _
  | some names =>
    have hnames : Steady S (names.forM fun name => ofSchema ((t.getAttr name).map fun _ => ())) := by
      induction names with
      | nil => exact steady_pure ()
      | cons name names ih => exact (steady_ofSchema _).andThen fun _ => ih
    exact hnames.andThen fun _ => steady_pure _

section
variable {r : Registry} {filters : List Filter}

/-- The one step that reads the cache. -/
theorem steady_compileFilter (hd : Distinguished r (r.Asks filters)) {name : String}
    {t : DocumentType} (ht : r.get? name = some t) {f : Filter} (hf : f ∈ filters) :
    Steady (PredicateCache.Faithful r (r.Asks filters)) (compileFilter r t f) := by
  have hrun : ∀ c : PredicateCache, (compileFilter r t f).run.run c =
      (((c.getOrCompile r t f).1.map (·.1)).mapError PopulateError.filter,
        (c.getOrCompile r t f).2) := by
    intro c
    have hget : ∀ k : PredicateCache → Planning Predicate,
        (get >>= k).run.run c = (k c).run.run c := fun _ => rfl
    unfold compileFilter
    rw [hget]
    rcases c.getOrCompile r t f with ⟨e | ⟨p, hit⟩, c'⟩ <;> rfl
  intro c c' hc hc'
  have hasked : r.Asks filters ⟨t, f⟩ := ⟨⟨name, ht⟩, hf⟩
  obtain ⟨hanswer, hkept⟩ := hc.getOrCompile hd hasked
  obtain ⟨hanswer', -⟩ := hc'.getOrCompile hd hasked
  rw [hrun, hrun]
  refine ⟨?_, hkept⟩
  change ((c.getOrCompile r t f).1.map (·.1)).mapError PopulateError.filter = _
  rw [hanswer, ← hanswer']

variable {expand : DocumentType → Planning PopulatePlan}

theorem steady_target (hd : Distinguished r (r.Asks filters)) {name : String} {t : DocumentType}
    (ht : r.get? name = some t) (fields : Option Names) {filter : Option Filter}
    (hfilter : ∀ f ∈ filter, f ∈ filters) (populate : PopulatePlan) :
    Steady (PredicateCache.Faithful r (r.Asks filters))
      (Planning.target r t fields filter populate) := by
  refine (steady_project t fields populate).andThen fun projection => ?_
  refine Steady.andThen ?_ fun _ => steady_pure _
  cases filter with
  | none => exact steady_pure none
  | some f => exact (steady_compileFilter hd ht (hfilter f rfl)).andThen fun p => steady_pure (some p)

theorem ensures_registered (name : String) :
    Ensures (ofSchema (r.get name)) fun t => r.get? name = some t := by
  intro cache t ht
  exact Registry.get_eq_ok_iff.1 (ensures_ofSchema (r.get name) cache t ht)

theorem steady_defaultBranch (hexpand : ∀ t, Steady S (expand t)) (t : DocumentType)
    (name : String) : Steady S (defaultBranch r expand t name) := by
  refine (steady_populatable t name).andThen fun a => ?_
  cases a.kind with
  | scalar kind => exact steady_throw _
  | relationOne target => exact (steady_ofSchema _).andThen fun _ => steady_pure _
  | relationMany target => exact (steady_ofSchema _).andThen fun _ => steady_pure _
  | polymorphic tags =>
    refine (steady_runAll fun m hm => ?_).andThen fun _ => steady_pure _
    obtain ⟨tag, -, rfl⟩ := List.mem_map.1 hm
    exact (steady_ofSchema _).andThen fun t => (hexpand t).andThen fun _ => steady_pure _
  | dynamicZone tags =>
    refine (steady_runAll fun m hm => ?_).andThen fun _ => steady_pure _
    obtain ⟨tag, -, rfl⟩ := List.mem_map.1 hm
    exact (steady_ofSchema _).andThen fun t => (hexpand t).andThen fun _ => steady_pure _

theorem steady_withWildcard (hexpand : ∀ t, Steady S (expand t)) (t : DocumentType)
    (wildcard : Bool) {entries : Entries (Planning Branch)} (hentries : ∀ e ∈ entries, Steady S e.2) :
    Steady S (withWildcard r expand t wildcard entries) := by
  refine steady_runAll fun m hm => ?_
  obtain ⟨e, he, rfl⟩ := List.mem_map.1 hm
  cases wildcard with
  | false => exact hentries e he
  | true =>
    rcases Entries.mem_insertAll he with he | he
    · exact hentries e he
    · obtain ⟨a, -, rfl⟩ := List.mem_map.1 he
      exact steady_defaultBranch hexpand t a.name

mutual
theorem steady_planSpec (hd : Distinguished r (r.Asks filters))
    (hexpand : ∀ t, Steady (PredicateCache.Faithful r (r.Asks filters)) (expand t))
    (t : DocumentType) : (spec : SpecOf PopulateNode) → PopulateSpec.Uses filters spec →
      Steady (PredicateCache.Faithful r (r.Asks filters)) (planSpec r expand t spec)
  | ⟨wildcard, entries⟩, h => by
    rw [planSpec]
    exact steady_withWildcard hexpand t wildcard (steady_planEntries hd hexpand t entries h)

theorem steady_planEntries (hd : Distinguished r (r.Asks filters))
    (hexpand : ∀ t, Steady (PredicateCache.Faithful r (r.Asks filters)) (expand t))
    (t : DocumentType) : (entries : List (String × PopulateNode)) →
      (∀ e ∈ entries, e.2.Uses filters) → ∀ e ∈ planEntries r expand t entries,
        Steady (PredicateCache.Faithful r (r.Asks filters)) e.2
  | [], _ => by simp [planEntries]
  | (name, node) :: rest, h => by
    simp only [planEntries, List.mem_cons, forall_eq_or_imp]
    exact ⟨steady_planBranch hd hexpand t name node (h _ (List.mem_cons_self ..)),
      steady_planEntries hd hexpand t rest fun e he => h e (List.mem_cons_of_mem _ he)⟩

theorem steady_planBranch (hd : Distinguished r (r.Asks filters))
    (hexpand : ∀ t, Steady (PredicateCache.Faithful r (r.Asks filters)) (expand t))
    (t : DocumentType) (name : String) : (node : PopulateNode) → node.Uses filters →
      Steady (PredicateCache.Faithful r (r.Asks filters)) (planBranch r expand t name node)
  | .all, _ => by
    rw [planBranch]
    exact steady_defaultBranch hexpand t name
  | .shape ⟨fields, filter, populate⟩, h => by
    obtain ⟨hown, hbelow⟩ : (∀ f ∈ filter, f ∈ filters) ∧ PopulateSpec.Uses filters populate := by
      cases h; exact ⟨by assumption, by assumption⟩
    rw [planBranch]
    refine (steady_populatable t name).andThen fun a => ?_
    cases a.kind.relationTarget? with
    | none => exact steady_throw _
    | some target =>
      refine (steady_ofSchema _).bind (ensures_registered target) fun target htarget => ?_
      refine (steady_planSpec hd hexpand target populate hbelow).andThen fun plan => ?_
      exact (steady_target hd htarget fields hown plan).andThen fun _ => steady_pure _
  | .tags nodes, h => by
    have hnodes : ∀ e ∈ nodes, e.2.Uses filters := by cases h; assumption
    rw [planBranch]
    refine (steady_populatable t name).andThen fun a => ?_
    cases a.kind with
    | polymorphic tags =>
      refine (steady_checkTags t name _ _).andThen fun _ => ?_
      exact (steady_planTargets hd hexpand nodes hnodes).andThen fun _ => steady_pure _
    | dynamicZone tags =>
      refine (steady_checkTags t name _ _).andThen fun _ => ?_
      exact (steady_planComponents hd hexpand nodes hnodes).andThen fun _ => steady_pure _
    | _ => exact steady_throw _

theorem steady_planTargets (hd : Distinguished r (r.Asks filters))
    (hexpand : ∀ t, Steady (PredicateCache.Faithful r (r.Asks filters)) (expand t)) :
    (nodes : List (String × PopulateNode)) → (∀ e ∈ nodes, e.2.Uses filters) →
      Steady (PredicateCache.Faithful r (r.Asks filters)) (planTargets r expand nodes)
  | [], _ => by
    rw [planTargets]
    exact steady_pure []
  | (tag, .all) :: rest, h => by
    have hrest := steady_planTargets hd hexpand rest fun e he => h e (List.mem_cons_of_mem _ he)
    rw [planTargets]
    refine (steady_ofSchema _).andThen fun target => (hexpand target).andThen fun plan => ?_
    exact hrest.andThen fun _ => steady_pure _
  | (tag, .shape ⟨fields, filter, populate⟩) :: rest, h => by
    have hrest := steady_planTargets hd hexpand rest fun e he => h e (List.mem_cons_of_mem _ he)
    obtain ⟨hown, hbelow⟩ : (∀ f ∈ filter, f ∈ filters) ∧ PopulateSpec.Uses filters populate := by
      cases h _ (List.mem_cons_self ..); exact ⟨by assumption, by assumption⟩
    rw [planTargets]
    refine (steady_ofSchema _).bind (ensures_registered tag) fun target htarget => ?_
    refine (steady_planSpec hd hexpand target populate hbelow).andThen fun plan => ?_
    refine (steady_target hd htarget fields hown plan).andThen fun _ => ?_
    exact hrest.andThen fun _ => steady_pure _
  | (tag, .tags _) :: _, _ => by
    rw [planTargets]
    exact (steady_ofSchema _).andThen fun _ => steady_throw _

theorem steady_planComponents (hd : Distinguished r (r.Asks filters))
    (hexpand : ∀ t, Steady (PredicateCache.Faithful r (r.Asks filters)) (expand t)) :
    (nodes : List (String × PopulateNode)) → (∀ e ∈ nodes, e.2.Uses filters) →
      Steady (PredicateCache.Faithful r (r.Asks filters)) (planComponents r expand nodes)
  | [], _ => by
    rw [planComponents]
    exact steady_pure []
  | (tag, .all) :: rest, h => by
    have hrest := steady_planComponents hd hexpand rest fun e he => h e (List.mem_cons_of_mem _ he)
    rw [planComponents]
    refine (steady_ofSchema _).andThen fun component => (hexpand component).andThen fun plan => ?_
    exact hrest.andThen fun _ => steady_pure _
  | (tag, .shape ⟨fields, filter, populate⟩) :: rest, h => by
    have hrest := steady_planComponents hd hexpand rest fun e he => h e (List.mem_cons_of_mem _ he)
    have hbelow : PopulateSpec.Uses filters populate := by
      cases h _ (List.mem_cons_self ..); assumption
    rw [planComponents]
    refine (steady_ofSchema _).andThen fun component => ?_
    split
    · exact steady_throw _
    · refine (steady_planSpec hd hexpand component populate hbelow).andThen fun plan => ?_
      refine (steady_project component fields plan).andThen fun _ => ?_
      exact hrest.andThen fun _ => steady_pure _
  | (tag, .tags _) :: _, _ => by
    rw [planComponents]
    exact (steady_ofSchema _).andThen fun _ => steady_throw _
end

/-- What a type populates by default has no filters. -/
theorem steady_planDefaults (hd : Distinguished r (r.Asks filters)) (depth : Nat)
    (opened : List String) (t : DocumentType) :
    Steady (PredicateCache.Faithful r (r.Asks filters)) (planDefaults r depth opened t) := by
  induction depth generalizing opened t with
  | zero => exact steady_pure []
  | succ depth ih =>
    rw [planDefaults]
    split
    · exact steady_pure []
    · exact steady_planSpec hd (fun t => ih _ t) t _
        (PopulateSpec.every_ofPaths (PopulateNode.uses_keptByPaths filters) _)

end

end Planning

/-- The plan of a specification is the same for all faithful caches. -/
theorem PopulatePlan.build_eq {r : Registry} {filters : List Filter}
    (hd : Distinguished r (r.Asks filters)) {spec : PopulateSpec} (hspec : spec.Uses filters)
    {cache cache' : PredicateCache} (hcache : cache.Faithful r (r.Asks filters))
    (hcache' : cache'.Faithful r (r.Asks filters)) (t : DocumentType) :
    (PopulatePlan.build r t spec cache).1 = (PopulatePlan.build r t spec cache').1 ∧
      (PopulatePlan.build r t spec cache).2.Faithful r (r.Asks filters) :=
  Planning.steady_planSpec hd (Planning.steady_planDefaults hd _ []) t spec hspec cache cache' hcache
    hcache'

end ContentEngine
