import ContentEngine.Engine.Write
import ContentEngine.Proofs.Lifecycle.Trace
import ContentEngine.Sample.Blog

/-!
# Mutations are all or nothing

A mutation that fails before its write, or in it, leaves the tables of the store as they were. Once
the write is served, the mutation is committed: all hooks after it run, and their failures are only
reported. The hooks are those that were registered for the type and the action, in that order.

None of this depends on what the hooks before the write do. That the write is the one that was checked,
and that the event goes through its states in order, takes lawful hooks.
-/

namespace ContentEngine

/-! ## Registered hooks -/

namespace HookRegistry

/-- The hook of a registration, if it is one before the write for the type and the action. -/
def Registration.before? (g : Registration) (docType : String) (action : Action) :
    Option BeforeHook :=
  match g.hook with
  | .before h => if g.docType = docType ∧ g.phase.action = action then some h else none
  | .after _ => none

/-- The hook of a registration, if it is one after the write for the type and the action. -/
def Registration.after? (g : Registration) (docType : String) (action : Action) :
    Option AfterHook :=
  match g.hook with
  | .before _ => none
  | .after h => if g.docType = docType ∧ g.phase.action = action then some h else none

theorem select_append {α : Type} (l : List (Bound α)) (b : Bound α) (docType : String)
    (action : Action) :
    Bound.select (l ++ [b]) docType action = Bound.select l docType action ++
      (if b.docType = docType ∧ b.action = action then [b.hook] else []) := by
  unfold Bound.select
  rw [List.filter_append, List.map_append]
  by_cases hb : b.docType = docType ∧ b.action = action
  · rw [if_pos hb]
    simp [hb]
  · rw [if_neg hb]
    simp [hb]

theorem add_eq_ok {r r' : HookRegistry} {g : Registration} (h : r.add g = .ok r')
    (docType : String) (action : Action) :
    r'.beforeHooks docType action =
        r.beforeHooks docType action ++ (g.before? docType action).toList ∧
      r'.afterHooks docType action =
        r.afterHooks docType action ++ (g.after? docType action).toList := by
  obtain ⟨gType, ⟨isBefore, gAction⟩, hook⟩ := g
  cases isBefore <;> cases hook <;> simp only [add, reduceCtorEq] at h
  · obtain rfl := Except.ok.inj h
    simp only [beforeHooks, afterHooks, select_append, Registration.before?, Registration.after?]
    split <;> simp
  · obtain rfl := Except.ok.inj h
    simp only [beforeHooks, afterHooks, select_append, Registration.before?, Registration.after?]
    split <;> simp

theorem hooks_build {regs : List Registration} {hooks : HookRegistry}
    (h : build regs = .ok hooks) (docType : String) (action : Action) :
    hooks.beforeHooks docType action = regs.filterMap (·.before? docType action) ∧
      hooks.afterHooks docType action = regs.filterMap (·.after? docType action) := by
  have hfold : ∀ r : HookRegistry, regs.foldlM add r = .ok hooks →
      hooks.beforeHooks docType action =
          r.beforeHooks docType action ++ regs.filterMap (·.before? docType action) ∧
        hooks.afterHooks docType action =
          r.afterHooks docType action ++ regs.filterMap (·.after? docType action) := by
    clear h
    induction regs with
    | nil =>
      intro r hr
      obtain rfl := Except.ok.inj hr
      simp
    | cons g regs ih =>
      intro r hr
      obtain ⟨r', hadd, hrest⟩ := Except.bind_eq_ok_iff.1 hr
      obtain ⟨hbefore, hafter⟩ := add_eq_ok hadd docType action
      obtain ⟨hbefore', hafter'⟩ := ih r' hrest
      rw [hbefore', hafter', hbefore, hafter]
      constructor
      · cases hg : g.before? docType action <;> simp [hg]
      · cases hg : g.after? docType action <;> simp [hg]
  simpa [empty, beforeHooks, afterHooks, Bound.select] using hfold empty h

end HookRegistry

/-! ## What is written -/

/-- The data and the status that the hooks left pass the checks of the action, and `op` is what the event
then asks for. -/
inductive Ready (r : Registry) (t : DocumentType) (action : Action) (components : Nat)
    (left : MutationEvent) : MutationEvent → WriteOp → Prop
  | data (hdata : action.carriesData) (status : Option Status)
      (hstatus : t.resolveStatus left.params.status = .ok status) (data : Entries Value)
      (components' : Nat)
      (hcoerced : (Coercion.document r t left.params.data (action == .create)).run components =
        .ok (data, components')) (op : WriteOp)
      (hop : MutationEvent.writeOp? { left with params := { left.params with data := data } } =
        some op) :
      Ready r t action components left { left with params := { left.params with data := data } } op
  | plain (hdata : action.carriesData = false) (op : WriteOp)
      (hop : left.writeOp? = some op) : Ready r t action components left left op

/-- The write is that of the action, with the identifier and the status that the hooks left and with
their data as it was checked and coerced. -/
inductive WriteOp.Checked (r : Registry) (t : DocumentType) (components : Nat)
    (left : MutationEvent) : Action → WriteOp → Prop
  | create (status : Option Status) (hstatus : t.resolveStatus left.params.status = .ok status)
      (data : Entries Value) (components' : Nat)
      (hdata : (Coercion.document r t left.params.data true).run components =
        .ok (data, components')) :
      Checked r t components left .create (.create data left.params.status)
  | update (id : DocumentId) (hid : left.params.documentId = some id) (status : Option Status)
      (hstatus : t.resolveStatus left.params.status = .ok status) (data : Entries Value)
      (components' : Nat)
      (hdata : (Coercion.document r t left.params.data false).run components =
        .ok (data, components')) :
      Checked r t components left .update (.update id data left.params.status)
  | delete (id : DocumentId) (hid : left.params.documentId = some id) :
      Checked r t components left .delete (.delete id)
  | publish (id : DocumentId) (hid : left.params.documentId = some id) :
      Checked r t components left .publish (.publish id)
  | unpublish (id : DocumentId) (hid : left.params.documentId = some id) :
      Checked r t components left .unpublish (.unpublish id)

theorem ready_iff {r : Registry} {docType : String} {t : DocumentType} {action : Action}
    {components : Nat} {left event : MutationEvent} {op : WriteOp} :
    Ready r t action components left event op ↔
      ∃ components', left.prepare r docType t action components = .ok (event, op, components') := by
  simp only [Mutator.prepare_eq_ok_iff]
  constructor
  · intro h
    cases h with
    | data hdata status hstatus data components' hcoerced op hop =>
      refine ⟨components', ?_, hop⟩
      unfold MutationEvent.coerce
      rw [if_pos hdata, hstatus, hcoerced]
      rfl
    | plain hdata op hop =>
      refine ⟨components, ?_, hop⟩
      unfold MutationEvent.coerce
      rw [hdata]
      rfl
  · rintro ⟨components', hcoerce, hop⟩
    unfold MutationEvent.coerce at hcoerce
    by_cases hdata : action.carriesData
    · rw [if_pos hdata] at hcoerce
      obtain ⟨status, hstatus, hcoerce⟩ := Except.bind_eq_ok_iff.1 hcoerce
      obtain ⟨⟨data, components''⟩, hcoerced, hcoerce⟩ := Except.bind_eq_ok_iff.1 hcoerce
      obtain ⟨rfl, rfl⟩ := Prod.mk.inj (Except.ok.inj hcoerce)
      exact .data hdata status hstatus data _ hcoerced op hop
    · rw [if_neg hdata] at hcoerce
      obtain ⟨rfl, rfl⟩ := Prod.mk.inj (Except.ok.inj hcoerce)
      exact .plain (Bool.not_eq_true _ ▸ hdata) op hop

/-- If the hooks left the action as it was, then what is written is what was checked. -/
theorem Ready.checked {r : Registry} {t : DocumentType} {action : Action} {components : Nat}
    {left event : MutationEvent} {op : WriteOp} (h : Ready r t action components left event op)
    (haction : left.action = action) : op.Checked r t components left action := by
  subst haction
  cases h with
  | data hdata status hstatus data components' hcoerced _ hop =>
    unfold MutationEvent.writeOp? at hop
    cases haction : left.action <;> rw [haction] at hdata hcoerced
    case create =>
      obtain rfl : WriteOp.create data left.params.status = op := by simpa [haction] using hop
      exact .create status hstatus data components' hcoerced
    case update =>
      obtain ⟨id, hid, rfl⟩ : ∃ id, left.params.documentId = some id ∧
        WriteOp.update id data left.params.status = op := by simpa [haction] using hop
      exact .update id hid status hstatus data components' hcoerced
    all_goals exact absurd hdata (by simp [Action.carriesData])
  | plain hdata _ hop =>
    unfold MutationEvent.writeOp? at hop
    cases haction : left.action <;> simp only [haction, Option.map_eq_some_iff] at hop hdata
    case create => exact absurd hdata (by simp [Action.carriesData])
    case update => exact absurd hdata (by simp [Action.carriesData])
    all_goals obtain ⟨id, hid, rfl⟩ := hop
    case delete => exact .delete id hid
    case publish => exact .publish id hid
    case unpublish => exact .unpublish id hid

namespace MemoryStore
variable {s s' : MemoryStore} {docType : String} {op : WriteOp}

theorem write_error {e : AdapterError} (h : s.write docType op = (.error e, s')) : s' = s := by
  unfold write at h
  cases henter : s.enter docType with
  | error e' =>
    rw [henter] at h
    exact (Prod.mk.inj h).2.symm
  | ok u =>
    rw [henter] at h
    exact absurd (Prod.mk.inj h).1 (by simp)

theorem write_ok {result : Option Document} (h : s.write docType op = (.ok result, s')) :
    s.apply docType op = (result, s') := by
  unfold write at h
  cases henter : s.enter docType with
  | error e =>
    rw [henter] at h
    exact absurd (Prod.mk.inj h).1 (by simp)
  | ok u =>
    rw [henter] at h
    obtain ⟨hresult, hstate⟩ := Prod.mk.inj h
    exact Prod.ext (Except.ok.inj hresult) hstate

/-- What no call changes is the same after all calls. -/
theorem noteAll_of_note {β : Type} {f : MemoryStore → β} (hf : ∀ s call, f (adapter.note s call) = f s)
    (s : MemoryStore) (log : Log) : f (adapter.noteAll s log) = f s := by
  have hfold : ∀ (calls : List AdapterCall) (s : MemoryStore), f (calls.foldl adapter.note s) = f s := by
    intro calls
    induction calls with
    | nil => exact fun _ => rfl
    | cons call calls ih => exact fun s => (ih _).trans (hf s call)
  exact hfold log.served s

theorem tables_noteAll (s : MemoryStore) (log : Log) : (adapter.noteAll s log).tables = s.tables :=
  noteAll_of_note (fun _ call => by cases call <;> rfl) s log

theorem registry_noteAll (s : MemoryStore) (log : Log) :
    (adapter.noteAll s log).registry = s.registry :=
  noteAll_of_note (fun _ call => by cases call <;> rfl) s log

end MemoryStore

namespace Engine
variable {e : Engine MemoryStore} {st : EngineState MemoryStore} {docType : String}
  {action : Action} {params : MutationParams} {token : CancelToken} {now : Nat}

/-- A write that fails has changed nothing. -/
theorem stateAfterError_eq (he : e.store = MemoryStore.adapter) {entries : List Entry}
    {err : Error}
    (h : Mutator.Course (e.mutator st token now) docType action params now entries (.error err))
    {log : Log} (hlog : log.map (·.entry) = entries) : e.stateAfterError st.store log err = st.store := by
  have hserved : log.served = [] := by rw [Log.served_eq, hlog, h.served_of_error]
  cases err with
  | adapter x =>
    unfold stateAfterError
    rw [Log.started_eq, hlog, he]
    rcases h.started_of_error with hnone | ⟨op, entries', i, hone, hi, hwritten⟩
    · rw [hnone]
      rfl
    · rw [hone]
      cases hwritten with
      | cutOff c => exact absurd hi (by simp [Interruption.error])
      | refused x' state hwrite =>
        have hwrite' : e.store.write st.store docType op = (.error x', state) := hwrite
        rw [he] at hwrite'
        change (MemoryStore.adapter.write st.store docType op).2 = st.store
        rw [hwrite']
        exact MemoryStore.write_error hwrite'
  | _ =>
    unfold stateAfterError
    rw [hserved]
    rfl

/-- The store that a run has come to. -/
def storeAfter (s : MemoryStore) : Except Error (Commit MemoryStore) → MemoryStore
  | .error _ => s
  | .ok c => c.state

/-- A mutation as the course of its run: the entries of its log, its outcome, and the store that it
leaves, which has taken note of the calls that were served. -/
theorem mutate_store (he : e.store = MemoryStore.adapter) (st : EngineState MemoryStore)
    (docType : String) (action : Action) (params : MutationParams) (token : CancelToken)
    (now : Nat) :
    let a := e.mutate st docType action params token now
    ∃ entries x, Mutator.Course (e.mutator st token now) docType action params now entries x ∧
      a.log.map (·.entry) = entries ∧ a.outcome = x.bind Commit.outcome ∧
      a.state.store = MemoryStore.adapter.noteAll (storeAfter st.store x) a.log := by
  intro a
  obtain ⟨entries, finish, x, hcourse, hdoes⟩ :=
    (e.mutator st token now).course_run docType action params now
  refine ⟨entries, x, hcourse, ?_⟩
  let p := (e.mutator st token now).run docType action params now
  have hlog : p.log.map (·.entry) = entries := hdoes.entries
  cases x with
  | ok c =>
    have ha : a = { progress := ⟨p.log, p.finish, c.outcome⟩, state := { st with
        store := e.store.noteAll c.state p.log
        components := c.components } } := by
      simp only [a, mutate, p, hdoes.outcome]
    rw [ha]
    refine ⟨hlog, rfl, ?_⟩
    simp only [he]
    rfl
  | error err =>
    have ha : a = { progress := ⟨p.log, p.finish, .error err⟩, state := { st with
        store := e.store.noteAll (e.stateAfterError st.store p.log err) p.log } } := by
      simp only [a, mutate, p, hdoes.outcome]
    rw [ha]
    refine ⟨hlog, rfl, ?_⟩
    simp only [stateAfterError_eq he hcourse hlog, he]
    rfl

theorem mutate_course (he : e.store = MemoryStore.adapter) (st : EngineState MemoryStore)
    (docType : String) (action : Action) (params : MutationParams) (token : CancelToken)
    (now : Nat) :
    let a := e.mutate st docType action params token now
    ∃ entries x, Mutator.Course (e.mutator st token now) docType action params now entries x ∧
      a.log.map (·.entry) = entries ∧ a.outcome = x.bind Commit.outcome ∧
      a.state.store.tables =
        match x with
        | .error _ => st.store.tables
        | .ok c => c.state.tables := by
  intro a
  obtain ⟨entries, x, hcourse, hlog, houtcome, hstore⟩ := mutate_store he st docType action params
    token now
  refine ⟨entries, x, hcourse, hlog, houtcome, ?_⟩
  have htables := congrArg MemoryStore.tables hstore
  rw [MemoryStore.tables_noteAll] at htables
  cases x <;> exact htables

/-- Only hooks after the write fail once something was written, and none of them runs before. -/
theorem unchanged_of_error (he : e.store = MemoryStore.adapter) {err : Error}
    (herr : (e.mutate st docType action params token now).outcome = .error err)
    (hother : ∀ f, err ≠ .afterHook f) :
    let a := e.mutate st docType action params token now
    a.state.store.tables = st.store.tables ∧
      (a.log.hooks = [] ∨ ∃ calls verdict left,
        BeforeHooks (e.hooks.beforeHooks docType action) (Mutator.opened docType action params) calls
            verdict left ∧
          a.log.hooks = calls) := by
  intro a
  obtain ⟨entries, x, hcourse, hlog, houtcome, htables⟩ := mutate_course he st docType
    action params token now
  cases x with
  | error err' =>
    obtain rfl : err' = err := by
      rw [houtcome] at herr
      exact Except.error.inj herr
    refine ⟨htables, ?_⟩
    rw [Log.hooks_eq, hlog]
    exact hcourse.hooks_of_error
  | ok c =>
    have hc : c.outcome = .error err := houtcome.symm.trans herr
    unfold Commit.outcome at hc
    split at hc
    · exact absurd hc (by simp)
    · exact absurd (Except.error.inj hc).symm (hother _)

/-- The write was served, and every hook after it was called on its result, in order. The answer is
the result, with all failures of these hooks if there are any. -/
structure Committed (a : Answer MemoryStore (Option Document)) (store : MemoryStore)
    (docType : String) (action : Action) (calls : List (String × MutationEvent))
    (hooks : List AfterHook) (event : MutationEvent) (op : WriteOp) : Prop where
  steps : a.log.steps =
    calls.map hookEntry ++ [.started (.write docType op), .served (.write docType op)] ++
      (afterCalls hooks (Mutator.written event (store.apply docType op).1)).map hookEntry
  tables : a.state.store.tables = (store.apply docType op).2.tables
  outcome : a.outcome =
    match hookFailures hooks (Mutator.written event (store.apply docType op).1) with
    | [] => .ok (store.apply docType op).1
    | failures => .error (.afterHook ⟨docType, action, (store.apply docType op).1, failures⟩)

theorem committed_of_written {m : Mutator MemoryStore} (hm : m.store = MemoryStore.adapter)
    {a : Answer MemoryStore (Option Document)} {calls : List (String × MutationEvent)}
    {hooks : List AfterHook} {event : MutationEvent} {op : WriteOp} {entries : List Entry}
    {before : MutationState} {result : Option Document} {state : MemoryStore} {n : Nat}
    (hw : Mutator.Written m docType op entries (.ok (result, state)))
    (hlog : a.log.map (·.entry) = Mutator.opening docType ++ calls.map hookEntry ++
      (.advanced before .writing :: entries ++
        Mutator.committing docType action hooks (Mutator.written event result)))
    (houtcome : a.outcome =
      Commit.outcome ⟨docType, action, (Mutator.written event result).advance .done,
        hookFailures hooks (Mutator.written event result), state, n⟩)
    (htables : a.state.store.tables = state.tables) :
    Committed a m.state docType action calls hooks event op := by
  have hwrite : m.store.write m.state docType op = (.ok result, state) := by
    cases hw with
    | served result state h => exact h
  rw [hm] at hwrite
  have happly : m.state.apply docType op = (result, state) := MemoryStore.write_ok hwrite
  refine ⟨?_, ?_, ?_⟩
  · unfold Log.steps
    rw [hlog, Mutator.steps_opening, happly, List.append_assoc]
    have hsteps : (Entry.advanced before .writing :: entries).filter Entry.isStep =
        [.started (.write docType op), .served (.write docType op)] := hw.steps
    rw [List.filter_append, hsteps, Mutator.steps_committing]
  · rw [htables, happly]
  · rw [houtcome, happly]
    unfold Commit.outcome
    cases hookFailures hooks (Mutator.written event result) with
    | nil => rfl
    | cons failure failures => rfl

/-- A mutation on a store in memory, with any hooks and under any token. If it fails with another
error than that of hooks after the write, nothing has changed. Once its preconditions are met, the
hooks before the write run in order, each on what the one before left, until one rejects the mutation.
What they left is checked, and written at most once. If these hooks are lawful, the write is the one
that was checked, and every state of the event follows from the one before. -/
theorem mutate_all_or_nothing {regs : List HookRegistry.Registration} {hooks : HookRegistry}
    (hhooks : HookRegistry.build regs = .ok hooks) (registry : Registry) (config : EngineConfig)
    (st : EngineState MemoryStore) (docType : String) (action : Action) (params : MutationParams)
    (token : CancelToken) (now : Nat) :
    let e : Engine MemoryStore := ⟨registry, MemoryStore.adapter, hooks, config⟩
    let m := e.mutator st token now
    let a := e.mutate st docType action params token now
    let before := regs.filterMap (·.before? docType action)
    (∀ err, a.outcome = .error err → (∀ f, err ≠ .afterHook f) →
        a.state.store.tables = st.store.tables ∧
          (a.log.hooks = [] ∨ ∃ calls verdict left,
            BeforeHooks before (Mutator.opened docType action params) calls verdict left ∧
              a.log.hooks = calls)) ∧
      (∀ t, m.precheck docType action params = .ok t → m.token.check now = .ok () →
        ∃ calls verdict left,
          BeforeHooks before (Mutator.opened docType action params) calls verdict left ∧
          match verdict with
          | .error abort =>
            a.outcome = .error (.hookAbort abort) ∧ a.log.steps = calls.map hookEntry
          | .ok () =>
            (¬ (∃ event op, Ready registry t action st.components left event op) ∧
                (∃ x, a.outcome = .error (.schema x)) ∧ a.log.steps = calls.map hookEntry) ∨
              ∃ event op, Ready registry t action st.components left event op ∧
                ((∀ hook ∈ before, hook.Lawful) →
                  op.Checked registry t st.components left action) ∧
                (((∃ i : Interruption, a.outcome = .error i.error) ∧
                    a.log.steps = calls.map hookEntry ++ [.started (.write docType op)]) ∨
                  Committed a st.store docType action calls
                    (regs.filterMap (·.after? docType action)) event op)) ∧
      ((∀ hook ∈ before, hook.Lawful) → MutationState.Path .pending a.log.changes) := by
  intro e m a before
  obtain ⟨entries, x, hcourse, hlog, houtcome, htables⟩ :
      ∃ entries x, Mutator.Course m docType action params now entries x ∧
        a.log.map (·.entry) = entries ∧ a.outcome = x.bind Commit.outcome ∧
        a.state.store.tables =
          match x with
          | .error _ => st.store.tables
          | .ok c => c.state.tables := mutate_course rfl st docType action params token now
  obtain ⟨hbefore, hafter⟩ : hooks.beforeHooks docType action = before ∧
      hooks.afterHooks docType action = regs.filterMap (·.after? docType action) :=
    HookRegistry.hooks_build hhooks docType action
  refine ⟨?_, ?_, ?_⟩
  · intro err herr hother
    rw [← hbefore]
    exact unchanged_of_error (e := e) rfl herr hother
  · intro t hpre hcheck
    have hsteps : a.log.steps = entries.filter Entry.isStep := by rw [Log.steps, hlog]
    cases hcourse with
    | refused x h => exact absurd (hpre.symm.trans h) (by simp)
    | late t' c h hc => exact absurd (hcheck.symm.trans hc) (by simp)
    | aborted t' calls reject left h hc hb =>
      refine ⟨calls, .error reject, left, hbefore ▸ hb, houtcome, ?_⟩
      rw [hsteps, Mutator.steps_opening]
      exact List.append_nil _
    | invalid t' calls left x h hc hb hx =>
      obtain rfl : t' = t := Except.ok.inj (h.symm.trans hpre)
      refine ⟨calls, .ok (), left, hbefore ▸ hb, .inl ⟨?_, ⟨x, houtcome⟩, ?_⟩⟩
      · rintro ⟨event, op, hready⟩
        obtain ⟨n, hp⟩ := ready_iff.1 hready
        exact absurd (hx.symm.trans hp) (by simp)
      · rw [hsteps, Mutator.steps_opening]
        exact List.append_nil _
    | unwritten t' calls left event op n entries i h hc hb hp hw =>
      obtain rfl : t' = t := Except.ok.inj (h.symm.trans hpre)
      have hready := ready_iff.2 ⟨n, hp⟩
      refine ⟨calls, .ok (), left, hbefore ▸ hb, .inr ⟨event, op, hready, fun hlawful =>
        hready.checked (hb.kept (hbefore ▸ hlawful)).1, .inl ⟨⟨i, houtcome⟩, ?_⟩⟩⟩
      rw [hsteps, Mutator.steps_opening]
      exact congrArg (calls.map hookEntry ++ ·) hw.steps
    | committed t' calls left event op n entries result state h hc hb hp hw =>
      obtain rfl : t' = t := Except.ok.inj (h.symm.trans hpre)
      have hready := ready_iff.2 ⟨n, hp⟩
      refine ⟨calls, .ok (), left, hbefore ▸ hb, .inr ⟨event, op, hready, fun hlawful =>
        hready.checked (hb.kept (hbefore ▸ hlawful)).1, .inr ?_⟩⟩
      rw [← hafter]
      exact committed_of_written rfl hw hlog houtcome htables
  · intro hlawful
    rw [Log.changes_eq, hlog]
    exact hcourse.path (hbefore ▸ hlawful)

/-- A hook that lets no article be deleted. -/
def keep : BeforeHook := ⟨"keep", fun e => (.error ⟨"articles are kept"⟩, e)⟩

def keeping : HookRegistry := ⟨[⟨"article", .delete, keep⟩], []⟩

/-- An attempt to delete an article of the blog. -/
def attempt : Answer MemoryStore (Option Document) :=
  mutate ⟨Blog.registry, MemoryStore.adapter, keeping, {}⟩ ⟨Blog.store, .empty 0, 0⟩ "article"
    .delete { documentId := some "a" } .never 0

theorem mutate_all_or_nothing_blog :
    let regs : List HookRegistry.Registration := [⟨"article", ⟨true, .delete⟩, .before keep⟩]
    HookRegistry.build regs = .ok keeping ∧
      (∀ hook ∈ regs.filterMap (·.before? "article" .delete), hook.Lawful) ∧
      attempt.outcome = .error (.hookAbort ⟨"articles are kept"⟩) ∧
      attempt.state.store.tables = Blog.store.tables ∧
      MutationState.Path .pending attempt.log.changes := by
  intro regs
  have hhooks : HookRegistry.build regs = .ok keeping := rfl
  have hlawful : ∀ hook ∈ regs.filterMap (·.before? "article" .delete), hook.Lawful := by
    intro hook hmem e
    obtain rfl : hook = keep := List.mem_singleton.1 hmem
    exact ⟨e.params, e.context, rfl⟩
  have houtcome : attempt.outcome = .error (.hookAbort ⟨"articles are kept"⟩) := rfl
  obtain ⟨hnothing, -, hpath⟩ := mutate_all_or_nothing hhooks Blog.registry {}
    ⟨Blog.store, .empty 0, 0⟩ "article" .delete { documentId := some "a" } .never 0
  exact ⟨hhooks, hlawful, houtcome, (hnothing _ houtcome (by simp)).1, hpath hlawful⟩

end Engine
end ContentEngine
