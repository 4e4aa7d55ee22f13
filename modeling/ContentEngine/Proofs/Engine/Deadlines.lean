import ContentEngine.Proofs.Clock.Punctual
import ContentEngine.Proofs.Engine.Cancellations

/-!
# Deadlines of the engine

Every call of an engine is over when the token fires that it was given, however slow the store is:
each call of the store races against the token, and nothing else takes time. The configured time
limit is one more step in the life of that token, so it can end a call earlier and never later.
-/

namespace ContentEngine

/-! ## Populating -/

namespace Resolver
variable {σ β : Type} (r : Resolver σ)

abbrev Punctual {α : Type} (c : StoreCall α) : Prop := Call.Punctual r.token c

theorem punctual_fetch (attr : String) (target : TargetOf β) (ids : List DocumentId) :
    r.Punctual (r.fetch attr target ids) := by
  unfold fetch
  split
  · exact Call.punctual_succeed []
  · refine (r.token.punctual_run _ _).bind fun rows => ?_
    exact (Call.punctual_record _).bind fun _ => Call.punctual_succeed _

theorem punctual_fetchTags (attr : String) (targets : List (TargetOf β)) (items : List Item) :
    r.Punctual (r.fetchTags attr targets items) := by
  apply Call.punctual_all
  intro c hc
  obtain ⟨target, -, rfl⟩ := List.mem_map.1 hc
  exact (r.punctual_fetch attr target _).map _

variable {r}

theorem punctual_expand {columns : List Slot → List (StoreCall (String × List Value))}
    (h : ∀ slots, ∀ c ∈ columns slots, r.Punctual c) (slots : List Slot) :
    r.Punctual (expand columns slots) := by
  unfold expand
  split
  · exact Call.punctual_succeed []
  · exact (Call.punctual_all (h slots)).map _

theorem punctual_acyclic {owner attr : String} {resolve : List Item → StoreCall (List Value)}
    (h : ∀ items, r.Punctual (resolve items)) (items : List Item) :
    r.Punctual (acyclic owner attr items resolve) :=
  (Call.punctual_recordAll _).bind fun _ => (h _).map _

theorem punctual_group (docType : String)
    {columns : List Slot → List (StoreCall (String × List Value))}
    (h : ∀ slots, ∀ c ∈ columns slots, r.Punctual c) (slots : List Slot)
    {others : List (StoreCall (String × List Document))} (hothers : ∀ c ∈ others, r.Punctual c) :
    ∀ c ∈ (if slots.isEmpty then others
      else (do return (docType, ← expand columns slots)) :: others), r.Punctual c := by
  split
  · exact hothers
  · exact List.forall_mem_cons.2 ⟨(punctual_expand h slots).map _, hothers⟩

variable (r)

/- The recursion is that of the resolver: the documents of a level are found by calls that race
against the token, and the next level starts when they have ended. -/
mutual
theorem punctual_columns : ∀ (plan : List Branch) (slots : List Slot),
    ∀ c ∈ columns r plan slots, r.Punctual c
  | [], _ => fun _ hc => absurd hc List.not_mem_nil
  | b :: plan, slots =>
    List.forall_mem_cons.2 ⟨(punctual_branch b (slots.filterMap (Slot.item? b.attr))).map _,
      punctual_columns plan slots⟩

theorem punctual_branch : ∀ (b : Branch) (items : List Item), r.Punctual (branch r b items)
  | .relation owner attr one ⟨docType, filter, projection, versioned, populate⟩, items => by
    refine punctual_acyclic (fun items => ?_) items
    refine (r.punctual_fetch attr _ _).bind fun rows => ?_
    exact (punctual_expand (punctual_columns populate) _).map _
  | .polymorphic owner attr targets, items => by
    refine punctual_acyclic (fun items => ?_) items
    refine (r.punctual_fetchTags attr targets items).bind fun fetched => ?_
    exact (Call.punctual_all (punctual_targetGroups attr targets _)).map _
  | .dynamicZone owner attr components, items =>
    (Call.punctual_all (punctual_componentGroups components items)).map _

theorem punctual_targetGroups (attr : String) : ∀ (targets : List (TargetOf Branch))
    (items : List Item), ∀ c ∈ targetGroups r attr targets items, r.Punctual c
  | [], _ => fun _ hc => absurd hc List.not_mem_nil
  | ⟨docType, _, _, _, populate⟩ :: rest, items =>
    punctual_group docType (punctual_columns populate) _ (punctual_targetGroups attr rest items)

theorem punctual_componentGroups : ∀ (components : List (ComponentOf Branch)) (items : List Item),
    ∀ c ∈ componentGroups r components items, r.Punctual c
  | [], _ => fun _ hc => absurd hc List.not_mem_nil
  | ⟨docType, _, populate⟩ :: rest, items =>
    punctual_group docType (punctual_columns populate) _ (punctual_componentGroups rest items)
end

theorem punctual_resolve (plan : PopulatePlan) (roots : List Document) :
    r.Punctual (r.resolve plan roots) :=
  punctual_expand (r.punctual_columns plan) _

end Resolver

/-! ## Mutations -/

namespace MutationEvent
variable {α : Type} {token : CancelToken}

theorem punctual_enter (event : MutationEvent) (next : MutationState) :
    (event.enter next).Punctual token :=
  (Call.punctual_record _).bind fun _ => Call.punctual_succeed _

theorem punctual_abort (event : MutationEvent) (reports : List Entry) (cause : Error) :
    (event.abort reports cause : EngineCall α).Punctual token :=
  (punctual_enter event .aborted).bind fun _ =>
    (Call.punctual_recordAll _).bind fun _ => Call.punctual_fail cause

theorem punctual_runBefore (docType : String) (hooks : List BeforeHook) (event : MutationEvent) :
    (runBefore docType hooks event).Punctual token := by
  induction hooks generalizing event with
  | nil => exact Call.punctual_succeed event
  | cons h hs ih =>
    refine (Call.punctual_record _).bind fun _ => ?_
    rcases h.run event with ⟨_ | _, left⟩
    · exact punctual_abort left _ _
    · exact ih left

theorem punctual_runAfter (hooks : List AfterHook) (event : MutationEvent) :
    (runAfter hooks event).Punctual token := by
  induction hooks with
  | nil => exact Call.punctual_succeed []
  | cons h hs ih =>
    refine (Call.punctual_record _).bind fun _ => ih.bind fun failures => ?_
    cases h.run event <;> exact Call.punctual_succeed _

end MutationEvent

namespace Mutator
variable {σ : Type} (m : Mutator σ) (docType : String) (action : Action)

theorem punctual_checkToken : m.checkToken.Punctual m.token := by
  intro t time hle hfired
  exact Call.punctual_ofExcept _ t time hle hfired

theorem punctual_write (op : WriteOp) : (m.write docType op).Punctual m.token :=
  StoreCall.punctual_observed (m.token.punctual_run _ _)

theorem punctual_commit (t : DocumentType) (left : MutationEvent) :
    (m.commit docType action t left).Punctual m.token := by
  unfold commit
  cases left.prepare m.registry docType t action m.components with
  | error x => exact left.punctual_abort _ _
  | ok ready =>
    refine (MutationEvent.punctual_enter _ .writing).bind fun event => ?_
    refine ((m.punctual_write docType ready.2.1).mapError _).bind fun written => ?_
    refine (MutationEvent.punctual_enter _ .afterHooksRunning).bind fun event => ?_
    refine (MutationEvent.punctual_runAfter _ event).bind fun failures => ?_
    refine (MutationEvent.punctual_enter _ .done).bind fun event => ?_
    exact (Call.punctual_recordAll _).bind fun _ => Call.punctual_succeed _

theorem punctual_run (params : MutationParams) :
    (m.run docType action params).Punctual m.token := by
  refine (Call.punctual_ofExcept _).bind fun t => ?_
  refine m.punctual_checkToken.bind fun _ => ?_
  refine (Call.punctual_record _).bind fun _ => ?_
  refine (MutationEvent.punctual_enter _ _).bind fun event => ?_
  refine (MutationEvent.punctual_runBefore _ _ event).bind fun left => ?_
  exact m.punctual_commit docType action t left

end Mutator

/-! ## Calls of the engine -/

namespace Engine
variable {σ α β : Type} (e : Engine σ) (s : EngineState σ) {token : CancelToken} {now time : Nat}

theorem finish_reading (prepare : Preparing α) {run : α → StoreCall β}
    (hrun : ∀ a, (run a).Punctual token) (hnow : now ≤ time) (hfired : token.check time ≠ .ok ()) :
    (e.reading s now prepare run).finish ≤ time := by
  change (e.reading s now prepare run).progress.finish ≤ time
  rw [progress_eq_call]
  refine (Call.punctual_recordAll _).bind (fun _ => ?_) now time hnow hfired
  exact (Call.punctual_ofExcept _).bind fun a => (hrun a).mapError _

theorem punctual_runQuery (store : σ) (p : PreparedQuery) :
    (e.runQuery store token p).Punctual token := by
  have hpopulate : ∀ rows, (e.populate store token p rows).Punctual token := by
    intro rows
    unfold populate
    split
    · exact Call.punctual_succeed rows
    · exact StoreCall.punctual_observed
        (Resolver.punctual_resolve ⟨e.store, store, p.status, token⟩ p.plan rows)
  refine (StoreCall.punctual_observed (token.punctual_run _ _)).bind fun _ => ?_
  refine (hpopulate _).bind fun rows => ?_
  exact (Call.punctual_record _).bind fun _ => Call.punctual_succeed _

/-- Every read and every mutation that is asked for at `now` is over at `time`. -/
structure Over (e : Engine σ) (s : EngineState σ) (token : CancelToken) (now time : Nat) : Prop where
  query : ∀ docType q, (e.query s docType q token now).finish ≤ time
  findFirst : ∀ docType q, (e.findFirst s docType q token now).finish ≤ time
  findOne : ∀ docType id q, (e.findOne s docType id q token now).finish ≤ time
  count : ∀ docType filters status, (e.count s docType filters status token now).finish ≤ time
  mutate : ∀ docType action params, (e.mutate s docType action params token now).finish ≤ time

theorem over_of_fired (hnow : now ≤ time) (hfired : (e.tokenOf token now).check time ≠ .ok ()) :
    e.Over s token now time := by
  have hquery : ∀ docType q, (e.query s docType q token now).finish ≤ time := fun docType q =>
    finish_reading e s _ (e.punctual_runQuery s.store) hnow hfired
  constructor
  case query => exact hquery
  case findFirst => exact fun docType q => hquery docType _
  case findOne => exact fun docType id q => hquery docType _
  case count =>
    intro docType filters status
    exact finish_reading e s _ (fun p =>
      StoreCall.punctual_observed ((e.tokenOf token now).punctual_run _ _)) hnow hfired
  case mutate =>
    intro docType action params
    have hfinish : (e.mutate s docType action params token now).finish =
        ((e.mutator s token now).run docType action params now).finish := by
      rw [Answer.finish, progress_mutate]
    rw [hfinish]
    exact (e.mutator s token now).punctual_run docType action params now time hnow hfired

/-- The step that the configuration adds to the life of a token. -/
def limit (e : Engine σ) : List TokenStep :=
  (e.config.timeoutMs.map fun ms => .timeout (Clock.ofMillis ms.toNat)).toList

theorem tokenOf_eq (t : Timeline) : e.tokenOf t.token t.now = (t.after e.limit).token := by
  unfold tokenOf limit
  cases e.config.timeoutMs <;> rfl

/-- The token of a call has fired once its caller's has, and once the time limit is over. -/
theorem check_tokenOf (h : token.check time ≠ .ok () ∨
    ∃ ms, e.config.timeoutMs = some ms ∧ now + Clock.ofMillis ms.toNat ≤ time) :
    (e.tokenOf token now).check time ≠ .ok () := by
  let t : Timeline := ⟨token, now⟩
  rw [e.tokenOf_eq t]
  rcases h with hfired | ⟨ms, hms, hover⟩
  · cases hcheck : t.token.check time with
    | ok u => exact absurd hcheck hfired
    | error r =>
      obtain ⟨r', hr, -⟩ := Timeline.check_after_mono e.limit hcheck (Nat.le_refl time)
      rw [hr]
      simp
  · rw [CancelToken.check_ne_ok_iff,
      Timeline.reached_after CancelToken.deadline TokenStep.attached? Timeline.deadline_apply]
    refine .inr (.inr ⟨_, ?_, hover⟩)
    rw [limit, hms]
    exact List.mem_singleton_self _

/-- Whatever happens to a token, in whatever order: its deadline is the least of those that were
attached, it refuses exactly if a withdrawal or a deadline has come and does so for ever, and a call
that races against it ends as it would alone exactly if neither comes by its end. The calls of an
engine are over when the token fires, and when the configured time limit is. -/
theorem deadlines_only_tighten (start : Nat) (steps : List TokenStep) :
    let s := (Timeline.start start).after steps
    s.token.deadline = (Timeline.attached start steps).min? ∧
      (s.token.check s.now = .error .signal ↔
        Timeline.Comes (Timeline.withdrawn start steps) s.now) ∧
      (s.token.check s.now = .error .deadline ↔
        ¬ Timeline.Comes (Timeline.withdrawn start steps) s.now ∧
          Timeline.Comes (Timeline.attached start steps) s.now) ∧
      (∀ r more, s.token.check s.now = .error r → let later := s.after more
        ∃ r', later.token.check later.now = .error r' ∧ (r = .signal → r' = .signal)) ∧
      (∀ {ι ε α : Type} (cancelled : Cancelled → ε) (c : Call ι ε α),
        (∀ r, s.token.check s.now = .error r →
          s.token.run cancelled c s.now = ⟨[], s.now, .error (cancelled r)⟩) ∧
        (s.token.check s.now = .ok () →
          (Timeline.Spared start steps (c s.now).finish → s.token.run cancelled c s.now = c s.now) ∧
          (¬ Timeline.Spared start steps (c s.now).finish →
            ∃ r, (s.token.run cancelled c s.now).outcome = .error (cancelled r)))) ∧
      ∀ {σ : Type} (e : Engine σ) (state : EngineState σ) time, s.now ≤ time →
        (¬ Timeline.Spared start steps time ∨
          ∃ ms, e.config.timeoutMs = some ms ∧ s.now + Clock.ofMillis ms.toNat ≤ time) →
        e.Over state s.token s.now time := by
  intro s
  have hcheck : ∀ time, s.token.check time = .ok () ↔ Timeline.Spared start steps time :=
    Timeline.check_after steps
  refine ⟨Timeline.eq_min?_of_reached (Timeline.deadline_after steps), ?_, ?_, ?_, ?_, ?_⟩
  · rw [CancelToken.check_eq_signal_iff, Timeline.signalAt_after]
  · rw [CancelToken.check_eq_deadline_iff, Timeline.signalAt_after, Timeline.deadline_after]
  · intro r more hr
    exact Timeline.check_after_mono more hr (Timeline.now_le_after more)
  · intro ι ε α cancelled c
    refine ⟨fun r hr => s.token.run_of_error hr c, fun hlive => ⟨fun hspared => ?_, fun hover => ?_⟩⟩
    · exact CancelToken.run_of_ok hlive ((hcheck _).2 hspared)
    · exact CancelToken.run_of_fired hlive fun hend => hover ((hcheck _).1 hend)
  · intro σ e state time hnow hends
    apply e.over_of_fired state hnow
    exact e.check_tokenOf (hends.imp_left fun hover hend => hover ((hcheck time).1 hend))

/-- An engine with a time limit of 50 milliseconds reads from a store that takes 100. -/
def readSlowly (token : CancelToken) (now : Nat) : Answer MemoryStore (PageResult Document) :=
  query ⟨Blog.registry, MemoryStore.adapter, .empty, { timeoutMs := some 50 }⟩
    ⟨{ Blog.store with latency := some 100 }, .empty 0, 0⟩ "article" {} token now

theorem deadlines_only_tighten_blog :
    let s := (Timeline.start 0).after [.timeout 20, .advance 4, .deadline 10, .cancel 30]
    s.token.deadline = some 10 ∧ (readSlowly s.token s.now).finish ≤ 10 ∧
      (readSlowly s.token s.now).outcome = .error (.cancelled .deadline) := by
  intro s
  obtain ⟨hdeadline, -, -, -, -, hover⟩ :=
    deadlines_only_tighten 0 [.timeout 20, .advance 4, .deadline 10, .cancel 30]
  have hends : ¬ Timeline.Spared 0 [.timeout 20, .advance 4, .deadline 10, .cancel 30] 10 := by
    intro hspared
    exact hspared.2 ⟨10, by decide, Nat.le_refl 10⟩
  exact ⟨hdeadline, (hover _ _ 10 (by decide) (.inl hends)).query "article" {}, rfl⟩

end Engine
end ContentEngine
