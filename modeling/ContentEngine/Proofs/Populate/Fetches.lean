import ContentEngine.Populate.Resolve
import ContentEngine.Proofs.Clock.Budget
import ContentEngine.Sample.Blog

/-!
# How often the store is asked

Populating asks the store at most once for every target of a plan: for the target of a relation, and
for every selected tag of a polymorphic relation. How many documents, references and components
there are makes no difference, as all documents of a level are populated at once. Each time the
store is asked for some documents, and for none of them twice.
-/

namespace ContentEngine

/-! ## The targets of a plan -/

mutual
/-- The number of targets of a branch, at all depths. A component is not fetched, but what it holds
may be. -/
def Branch.targetCount : Branch → Nat
  | .relation _ _ _ ⟨_, _, _, _, populate⟩ => 1 + branchTargets populate
  | .polymorphic _ _ targets => tagTargets targets
  | .dynamicZone _ _ components => componentTargets components

def branchTargets : List Branch → Nat
  | [] => 0
  | b :: bs => b.targetCount + branchTargets bs

def tagTargets : List (TargetOf Branch) → Nat
  | [] => 0
  | ⟨_, _, _, _, populate⟩ :: rest => 1 + branchTargets populate + tagTargets rest

def componentTargets : List (ComponentOf Branch) → Nat
  | [] => 0
  | ⟨_, _, populate⟩ :: rest => branchTargets populate + componentTargets rest
end

def PopulatePlan.targetCount (plan : PopulatePlan) : Nat := branchTargets plan

/-! ## What populating leaves in the log -/

/-- Populating calls the store for documents by reference only, each time for some and for none of
them twice; it reports these batches, and the cycles that it meets. -/
inductive Entry.OfPopulation : Entry → Prop
  | started (docType : String) (ids : List DocumentId) (hsome : ids ≠ []) (honce : ids.Nodup) :
      OfPopulation (.started (.references docType ids))
  | served (docType : String) (ids : List DocumentId) (hsome : ids ≠ []) (honce : ids.Nodup) :
      OfPopulation (.served (.references docType ids))
  | batch (docType attr : String) (requested fetched : UInt64) :
      OfPopulation (.metric (.populateBatch docType attr requested fetched))
  | cycle (docType : String) : OfPopulation (.metric (.cycleSkip docType))

def Entry.isStarted (e : Entry) : Bool := e.started?.isSome

namespace Resolver
variable {σ β : Type} (r : Resolver σ)

/-- In its log populating leaves what it may, and it asks the store at most `n` times. -/
abbrev Asks {α : Type} (n : Nat) (c : StoreCall α) : Prop :=
  c.Bounded Entry.OfPopulation Entry.isStarted n

abbrev AsksAll {α : Type} (n : Nat) (cs : List (StoreCall α)) : Prop :=
  Call.BoundedAll Entry.OfPopulation Entry.isStarted n cs

theorem asks_fetch (attr : String) (target : TargetOf β) {ids : List DocumentId}
    (honce : ids.Nodup) : Asks 1 (r.fetch attr target ids) := by
  unfold fetch
  cases hempty : ids.isEmpty with
  | true => exact (Call.bounded_succeed []).mono (fun _ h => h) (Nat.zero_le 1)
  | false =>
    have hsome : ids ≠ [] := fun hnil => by simp [hnil] at hempty
    have hcall : Asks 1 (StoreCall.ofStore (r.store.delay r.state) (.references target.docType ids)
        (r.store.references r.state target.docType ids target.filter target.projection
          (r.statusFor target))) :=
      StoreCall.bounded_ofStore _ _ (.started _ _ hsome honce) (.served _ _ hsome honce) rfl
    have hbatch : ∀ rows : List Document, Asks 0 (do
        Call.record (.metric (.populateBatch target.docType attr (UInt64.ofNat ids.length)
          (UInt64.ofNat rows.length)))
        return Entries.ofList (rows.map fun d => (d.id, d))) := fun rows =>
      (Call.bounded_record (.batch ..) rfl).map _
    exact (r.token.bounded_run Interruption.cancelled hcall).bind hbatch

theorem asks_fetchTags (attr : String) (targets : List (TargetOf β)) (items : List Item) :
    Asks targets.length (r.fetchTags attr targets items) := by
  have hfetch : ∀ target ∈ targets, Asks 1 (do
      let refs := items.flatMap fun i => (i.value.tagged target.docType).flatMap Value.refs
      return (target.docType, ← r.fetch attr target (Names.distinct refs))) := fun target _ =>
    (r.asks_fetch attr target (Names.nodup_distinct _)).map _
  have hfetches := Call.boundedAll_map targets hfetch
  rw [Nat.mul_one] at hfetches
  exact Call.bounded_all hfetches

theorem asks_expand {n : Nat} {columns : List Slot → List (StoreCall (String × List Value))}
    (h : ∀ slots, AsksAll n (columns slots)) (slots : List Slot) :
    Asks n (expand columns slots) := by
  unfold expand
  split
  · exact (Call.bounded_succeed []).mono (fun _ h => h) (Nat.zero_le n)
  · exact (Call.bounded_all (h slots)).map _

theorem asks_acyclic {n : Nat} {owner attr : String} {resolve : List Item → StoreCall (List Value)}
    (h : ∀ items, Asks n (resolve items)) (items : List Item) :
    Asks n (acyclic owner attr items resolve) := by
  have hskips : Asks 0 (Call.recordAll
      ((items.filter (Item.isCycle attr)).map fun _ => Entry.metric (.cycleSkip owner))) := by
    refine Call.bounded_recordAll fun e he => ?_
    obtain ⟨_, -, rfl⟩ := List.mem_map.1 he
    exact ⟨.cycle owner, rfl⟩
  rw [← Nat.zero_add n]
  exact hskips.bind fun _ => (h _).map _

/-- The documents of a tag, if there are any, are populated together with those of other tags. -/
theorem asksAll_group {m n : Nat} (docType : String)
    {columns : List Slot → List (StoreCall (String × List Value))}
    (h : ∀ slots, AsksAll m (columns slots)) (slots : List Slot)
    {others : List (StoreCall (String × List Document))} (hothers : AsksAll n others) :
    AsksAll (m + n) (if slots.isEmpty then others
      else (do return (docType, ← expand columns slots)) :: others) := by
  split
  · exact hothers.mono (Nat.le_add_left n m)
  · exact .cons m n _ _ ((asks_expand h slots).map _) hothers

/- The recursion is that of the resolver: a level asks for its own targets, and populates all
documents that it has found as one next level. -/
mutual
theorem asksAll_columns : ∀ (plan : List Branch) (slots : List Slot),
    AsksAll (branchTargets plan) (columns r plan slots)
  | [], _ => .nil _
  | b :: plan, slots =>
    .cons _ _ _ _ ((asks_branch b (slots.filterMap (Slot.item? b.attr))).map fun values =>
      (b.attr, values)) (asksAll_columns plan slots)

theorem asks_branch : ∀ (b : Branch) (items : List Item), Asks b.targetCount (branch r b items)
  | .relation owner attr one ⟨docType, filter, projection, versioned, populate⟩, items => by
    refine asks_acyclic (fun items => ?_) items
    let target : TargetPlan := ⟨docType, filter, projection, versioned, populate⟩
    have hfetch := r.asks_fetch attr target (Names.nodup_distinct (items.flatMap (·.value.refs)))
    exact hfetch.bind fun rows => (asks_expand (asksAll_columns populate) _).map _
  | .polymorphic owner attr targets, items => by
    refine asks_acyclic (fun items => ?_) items
    obtain ⟨n, hcount, hgroups⟩ := asksAll_targetGroups attr targets
    have hasks : Asks (targets.length + n) (do
        let fetched ← r.fetchTags attr targets items
        let items := items.map fun i => i.withValue (i.value.attach fetched)
        let groups ← Call.all (targetGroups r attr targets items)
        return (Item.refillTags items groups).map (·.value)) :=
      (r.asks_fetchTags attr targets items).bind fun fetched =>
        (Call.bounded_all (hgroups _)).map _
    rw [hcount] at hasks
    exact hasks
  | .dynamicZone owner attr components, items =>
    (Call.bounded_all (asksAll_componentGroups components items)).map _

/-- Each target is fetched once, and the rest is for the documents that are found. -/
theorem asksAll_targetGroups (attr : String) : ∀ targets : List (TargetOf Branch),
    ∃ n, targets.length + n = tagTargets targets ∧
      ∀ items, AsksAll n (targetGroups r attr targets items)
  | [] => ⟨0, rfl, fun _ => .nil 0⟩
  | ⟨docType, filter, projection, versioned, populate⟩ :: rest => by
    obtain ⟨n, hcount, hrest⟩ := asksAll_targetGroups attr rest
    refine ⟨branchTargets populate + n, ?_, fun items => ?_⟩
    · simp only [tagTargets, List.length_cons]
      omega
    · exact asksAll_group docType (asksAll_columns populate) _ (hrest items)

theorem asksAll_componentGroups : ∀ (components : List (ComponentOf Branch)) (items : List Item),
    AsksAll (componentTargets components) (componentGroups r components items)
  | [], _ => .nil _
  | ⟨docType, _, populate⟩ :: rest, items =>
    asksAll_group docType (asksAll_columns populate) _ (asksAll_componentGroups rest items)
end

theorem asks_resolve (plan : PopulatePlan) (roots : List Document) :
    Asks plan.targetCount (r.resolve plan roots) :=
  asks_expand (r.asksAll_columns plan) _

/-- Whatever the plan, the documents, the store and the token: populating starts at most as many
calls of the store as the plan has targets, and each of them asks for some documents by reference,
for none of them twice. -/
theorem fetches_le_targets (r : Resolver σ) (plan : PopulatePlan) (roots : List Document)
    (start : Nat) :
    (Log.started (r.resolve plan roots start).log).length ≤ plan.targetCount ∧
      ∀ call ∈ Log.started (r.resolve plan roots start).log,
        ∃ docType ids, call = .references docType ids ∧ ids ≠ [] ∧ ids.Nodup := by
  have hasks := r.asks_resolve plan roots start
  refine ⟨?_, fun call hcall => ?_⟩
  · unfold Log.started
    rw [List.length_filterMap_eq_countP]
    exact hasks.count
  · obtain ⟨s, hs, hstarted⟩ := List.mem_filterMap.1 hcall
    have hkind := hasks.kind s hs
    generalize s.entry = entry at hkind hstarted
    cases hkind with
    | started docType ids hsome honce =>
      exact ⟨docType, ids, (Option.some.inj hstarted).symm, hsome, honce⟩
    | served docType ids hsome honce => cases hstarted
    | batch docType attr requested fetched => cases hstarted
    | cycle docType => cases hstarted

/-- Two articles with three references between them, two levels deep: the bound is met. -/
example :
    let articles (populate : PopulatePlan) : PopulatePlan :=
      [.relation "article" "related" false ⟨"article", none, .all, true, populate⟩]
    let r : Resolver MemoryStore := ⟨MemoryStore.adapter, Blog.store, none, .never⟩
    let p := r.resolve (articles (articles [])) [Blog.first, Blog.second] 0
    (Log.started p.log).length = 2 ∧ PopulatePlan.targetCount (articles (articles [])) = 2 :=
  ⟨rfl, rfl⟩

end Resolver
end ContentEngine
