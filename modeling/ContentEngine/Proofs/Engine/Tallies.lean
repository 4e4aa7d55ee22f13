import ContentEngine.Proofs.Engine.Cancellations
import ContentEngine.Proofs.Lifecycle.Atomicity
import ContentEngine.Proofs.Metrics
import ContentEngine.Proofs.Store.Effect

/-!
# The tallies of mutations

How many mutations there were, and what became of them, is counted in three places: by the counters
of all mutations, by those of the single types, and by the store, which counts the writes that it
has served. In a session, that is a sequence of reads and mutations, these tallies agree with what
the mutations have answered.
-/

namespace ContentEngine

def AdapterCall.isWrite : AdapterCall → Bool
  | .write _ _ => true
  | _ => false

/-- What becomes of a mutation once its hooks have been called. -/
inductive Fate where
  /-- It was served its write. -/
  | committed
  /-- It was rejected before its write. -/
  | rejected
  /-- It came to a write that failed. -/
  | unwritten
deriving DecidableEq

theorem length_fates (fates : List Fate) :
    fates.length = fates.count .committed + fates.count .rejected + fates.count .unwritten := by
  induction fates with
  | nil => rfl
  | cons fate fates ih =>
    cases fate <;> simp only [List.length_cons, List.count_cons, ih] <;> simp <;> omega

/-- Events and served calls tell of mutations with these fates. -/
structure Tally (events : List MetricsEvent) (calls : List AdapterCall) (fates : List Fate) :
    Prop where
  starts : events.countP MetricsEvent.isMutationStart = fates.length
  commits : events.countP (MetricsEvent.isMutationFinish true) = fates.count .committed
  aborts : events.countP (MetricsEvent.isMutationFinish false) = fates.count .rejected
  writes : calls.countP AdapterCall.isWrite = fates.count .committed

/-- The event tells of no mutation. -/
structure MetricsEvent.Idle (event : MetricsEvent) : Prop where
  start : event.isMutationStart = false
  finish : ∀ committed, event.isMutationFinish committed = false

theorem tally_of_idle {events : List MetricsEvent} {calls : List AdapterCall}
    (hevents : ∀ event ∈ events, event.Idle) (hcalls : ∀ call ∈ calls, call.isWrite = false) :
    Tally events calls [] := by
  refine ⟨List.countP_eq_zero.2 ?_, List.countP_eq_zero.2 ?_, List.countP_eq_zero.2 ?_,
    List.countP_eq_zero.2 ?_⟩
  · exact fun event hevent => by simp [(hevents event hevent).start]
  · exact fun event hevent => by simp [(hevents event hevent).finish]
  · exact fun event hevent => by simp [(hevents event hevent).finish]
  · exact fun call hcall => by simp [hcalls call hcall]

theorem Tally.append {events events' : List MetricsEvent} {calls calls' : List AdapterCall}
    {fates fates' : List Fate} (h : Tally events calls fates) (h' : Tally events' calls' fates') :
    Tally (events ++ events') (calls ++ calls') (fates ++ fates') := by
  refine ⟨?_, ?_, ?_, ?_⟩
  · rw [List.countP_append, List.length_append, h.starts, h'.starts]
  · rw [List.countP_append, List.count_append, h.commits, h'.commits]
  · rw [List.countP_append, List.count_append, h.aborts, h'.aborts]
  · rw [List.countP_append, List.count_append, h.writes, h'.writes]

theorem Log.served_append (l l' : Log) : served (l ++ l') = l.served ++ l'.served :=
  List.filterMap_append

theorem MemoryStore.writes_noteAll (s : MemoryStore) (log : Log) :
    (adapter.noteAll s log).writes = s.writes + log.served.countP AdapterCall.isWrite := by
  have hfold : ∀ (calls : List AdapterCall) (s : MemoryStore),
      (calls.foldl adapter.note s).writes = s.writes + calls.countP AdapterCall.isWrite := by
    intro calls
    induction calls with
    | nil => exact fun _ => rfl
    | cons call calls ih =>
      intro s
      rw [List.foldl_cons, ih, List.countP_cons]
      cases call with
      | write docType op =>
        change s.writes + 1 + _ = s.writes + (_ + 1)
        omega
      | _ => rfl
  exact hfold log.served s

/-! ## Reads -/

/-- A read reports of no mutation, and no write is served to it. -/
inductive Entry.OfReading : Entry → Prop
  | metric (event : MetricsEvent) (h : event.Idle) : OfReading (.metric event)
  | started (call : AdapterCall) : OfReading (.started call)
  | served (call : AdapterCall) (h : call.isWrite = false) : OfReading (.served call)

theorem MetricsEvent.OfPreparing.ofReading {event : MetricsEvent} (h : event.OfPreparing) :
    Entry.OfReading (.metric event) := by
  cases h <;> exact .metric _ ⟨rfl, fun _ => rfl⟩

theorem Entry.OfPopulation.ofReading {entry : Entry} (h : entry.OfPopulation) :
    entry.OfReading := by
  cases h with
  | started docType ids hsome honce => exact .started _
  | served docType ids hsome honce => exact .served _ rfl
  | batch docType attr requested fetched => exact .metric _ ⟨rfl, fun _ => rfl⟩
  | cycle docType => exact .metric _ ⟨rfl, fun _ => rfl⟩

/-- In its log a call leaves what a read may leave. -/
abbrev Call.Reads {ε α : Type} (c : Call Entry ε α) : Prop :=
  c.Bounded Entry.OfReading (fun _ => false) 0

theorem Log.tally_of_reading {l : Log} (h : ∀ s ∈ l, s.entry.OfReading) :
    Tally l.metrics l.served [] := by
  refine tally_of_idle (fun event hevent => ?_) fun call hcall => ?_
  · obtain ⟨s, hs, hsome⟩ := List.mem_filterMap.1 hevent
    have hentry := h s hs
    generalize s.entry = entry at hsome hentry
    cases hentry with
    | metric event hidle => exact Option.some.inj hsome ▸ hidle
    | started call => cases hsome
    | served call hwrite => cases hsome
  · obtain ⟨s, hs, hsome⟩ := List.mem_filterMap.1 hcall
    have hentry := h s hs
    generalize s.entry = entry at hsome hentry
    cases hentry with
    | metric event hidle => cases hsome
    | started call => cases hsome
    | served call hwrite => exact Option.some.inj hsome ▸ hwrite

namespace Engine
variable {σ α β : Type} {e : Engine σ} {s : EngineState σ}

theorem reads_reading {prepare : Preparing α} {run : α → StoreCall β}
    (hrecords : prepare.Records MetricsEvent.OfPreparing) (hrun : ∀ a, (run a).Reads) (now : Nat) :
    ∀ x ∈ (e.reading s now prepare run).log, x.entry.OfReading := by
  have hmetrics := hrecords { cache := s.cache } (by simp)
  change ∀ x ∈ (e.reading s now prepare run).progress.log, x.entry.OfReading
  unfold reading
  generalize prepare.run.run { cache := s.cache } = ran at hmetrics ⊢
  obtain ⟨x, desk⟩ := ran
  have hreads : Call.Reads (do
      Call.recordAll (desk.metrics.map Entry.metric)
      let a ← Call.ofExcept x
      (run a).mapError Interruption.error) := by
    refine (Call.bounded_recordAll fun entry hentry => ?_).bind (n := 0) fun _ => ?_
    · obtain ⟨event, hevent, rfl⟩ := List.mem_map.1 hentry
      exact ⟨(hmetrics event hevent).ofReading, rfl⟩
    · exact (Call.bounded_ofExcept x).bind (n := 0) fun a => hrun a
  exact (hreads now).kind

theorem reads_countCall (store : σ) (p : PreparedCount) : (e.countCall store p).Reads := by
  have hcall : (e.countCall store p).Bounded Entry.OfReading (fun _ => false) 1 :=
    StoreCall.bounded_ofStore _ _ (.started _) (.served _ rfl) rfl
  exact hcall.uncounted

theorem reads_pageCall (store : σ) (p : PreparedQuery) : (e.pageCall store p).Reads := by
  have hcall : (e.pageCall store p).Bounded Entry.OfReading (fun _ => false) 1 :=
    StoreCall.bounded_ofStore _ _ (.started _) (.served _ rfl) rfl
  exact hcall.uncounted

theorem reads_observed {c : StoreCall α} (hc : c.Reads) : c.observed.Reads :=
  StoreCall.bounded_observed hc (.metric _ ⟨rfl, fun _ => rfl⟩) rfl

theorem reads_populate (store : σ) (token : CancelToken) (p : PreparedQuery)
    (rows : List Document) : (e.populate store token p rows).Reads := by
  unfold populate
  split
  · exact Call.bounded_succeed rows
  · have hasks := Resolver.asks_resolve ⟨e.store, store, p.status, token⟩ p.plan rows
    exact reads_observed (hasks.mono (fun _ h => h.ofReading) (Nat.le_refl _)).uncounted

theorem reads_runQuery (store : σ) (token : CancelToken) (p : PreparedQuery) :
    (e.runQuery store token p).Reads := by
  have hfetching := (e.reads_countCall store ⟨p.docType, p.status, p.predicate⟩).both
    (e.reads_pageCall store p)
  refine (reads_observed (token.bounded_run _ hfetching)).bind (n := 0) fun _ => ?_
  refine (reads_populate _ _ _ _).bind (n := 0) fun rows => ?_
  exact (Call.bounded_record (.metric _ ⟨rfl, fun _ => rfl⟩) rfl).map _

end Engine

/-! ## Calls of a session -/

/-- An engine that calls the store of a session, with the cache and the number of the next component
that it has come to, and the token of the call. Only the store is the same for all calls. -/
structure Caller where
  registry : Registry
  hooks : HookRegistry
  config : EngineConfig
  cache : PredicateCache
  components : Nat
  docType : String
  token : CancelToken
  now : Nat

inductive ReadRequest where
  | query (q : QueryRequest)
  | findFirst (q : QueryRequest)
  | findOne (id : DocumentId) (q : QueryRequest)
  | count (filters : Option Filter) (status : Option Status)

namespace Caller

def engine (c : Caller) : Engine MemoryStore :=
  ⟨c.registry, MemoryStore.adapter, c.hooks, c.config⟩

def state (c : Caller) (store : MemoryStore) : EngineState MemoryStore :=
  ⟨store, c.cache, c.components⟩

/-- The log of a read, and the store that it leaves. -/
def read (c : Caller) (store : MemoryStore) : ReadRequest → Log × MemoryStore
  | .query q =>
    let a := c.engine.query (c.state store) c.docType q c.token c.now
    (a.log, a.state.store)
  | .findFirst q =>
    let a := c.engine.findFirst (c.state store) c.docType q c.token c.now
    (a.log, a.state.store)
  | .findOne id q =>
    let a := c.engine.findOne (c.state store) c.docType id q c.token c.now
    (a.log, a.state.store)
  | .count filters status =>
    let a := c.engine.count (c.state store) c.docType filters status c.token c.now
    (a.log, a.state.store)

theorem reads_read (c : Caller) (store : MemoryStore) (request : ReadRequest) :
    (∀ x ∈ (c.read store request).1, x.entry.OfReading) ∧
      (c.read store request).2 = MemoryStore.adapter.noteAll store (c.read store request).1 := by
  have hquery : ∀ q, ∀ x ∈ (c.engine.query (c.state store) c.docType q c.token c.now).log,
      x.entry.OfReading := fun q =>
    Engine.reads_reading (c.engine.records_prepareQuery c.docType q)
      (fun p => Engine.reads_runQuery _ _ p) c.now
  cases request with
  | query q => exact ⟨hquery q, rfl⟩
  | findFirst q => exact ⟨hquery _, rfl⟩
  | findOne id q => exact ⟨hquery _, rfl⟩
  | count filters status =>
    have hcount : ∀ x ∈ (c.engine.count (c.state store) c.docType filters status c.token c.now).log,
        x.entry.OfReading :=
      Engine.reads_reading (c.engine.records_prepareCount c.docType filters status)
        (fun p => Engine.reads_observed
          (CancelToken.bounded_run _ _ (Engine.reads_countCall store p))) c.now
    exact ⟨hcount, rfl⟩

end Caller

/-- A mutation of a session, with the store that it has met. -/
structure SessionMutation where
  caller : Caller
  action : Action
  params : MutationParams
  store : MemoryStore

namespace SessionMutation

def answer (m : SessionMutation) : Answer MemoryStore (Option Document) :=
  m.caller.engine.mutate (m.caller.state m.store) m.caller.docType m.action m.params m.caller.token
    m.caller.now

def mutator (m : SessionMutation) : Mutator MemoryStore :=
  m.caller.engine.mutator (m.caller.state m.store) m.caller.token m.caller.now

/-- It is committed if it answers with its result or with failures of hooks after the write, and
rejected if a hook aborts it or a check of what the hooks have left. An answer of another kind, or a
schema error of the caller's input, comes from a mutation that was never begun. -/
def fate (m : SessionMutation) : Option Fate :=
  match m.answer.outcome with
  | .ok _ | .error (.afterHook _) => some .committed
  | .error (.hookAbort _) => some .rejected
  | .error (.schema _) =>
    if (m.mutator.precheck m.caller.docType m.action m.params).toBool then some .rejected
    else none
  | .error (.adapter _) | .error (.cancelled _) =>
    if m.answer.log.started.isEmpty then none else some .unwritten
  | .error _ => none

end SessionMutation

theorem Log.metrics_eq (l : Log) : l.metrics = (l.map (·.entry)).filterMap Entry.metric? := by
  rw [List.filterMap_map]
  rfl

namespace Mutator

theorem metrics_opening (docType : String) (calls : List (String × MutationEvent))
    (rest : List Entry) :
    (opening docType ++ calls.map hookEntry ++ rest).filterMap Entry.metric? =
      .execStart .mutation docType :: rest.filterMap Entry.metric? :=
  filterMap_opening (fun _ _ => rfl) calls rest

/-- Failures of hooks are reported after the mutation, and tell of no other one. -/
theorem metrics_committing (docType : String) (action : Action) (hooks : List AfterHook)
    (event : MutationEvent) :
    ∃ failures : List MetricsEvent,
      (committing docType action hooks event).filterMap Entry.metric? =
        .mutationFinish docType action.label true :: failures ∧ ∀ x ∈ failures, x.Idle := by
  refine ⟨(afterFailures docType (hookFailures hooks event)).filterMap Entry.metric?, ?_, ?_⟩
  · have hcalls := filterMap_calls (f := Entry.metric?) (fun _ _ => rfl) (afterCalls hooks event)
    unfold committing
    rw [List.filterMap_append, List.filterMap_cons, hcalls]
    rfl
  · unfold afterFailures
    split
    · exact fun x hx => absurd hx List.not_mem_nil
    · exact List.forall_mem_singleton.2 ⟨rfl, fun _ => rfl⟩

theorem served_committing (docType : String) (action : Action) (hooks : List AfterHook)
    (event : MutationEvent) :
    (committing docType action hooks event).filterMap Entry.served? = [] :=
  filterMap_committing docType action (fun _ _ => rfl) (fun _ => rfl) hooks event

end Mutator

namespace SessionMutation

theorem course (m : SessionMutation) :
    ∃ entries x,
      Mutator.Course m.mutator m.caller.docType m.action m.params m.caller.now entries x ∧
      m.answer.log.map (·.entry) = entries ∧ m.answer.outcome = x.bind Commit.outcome ∧
      m.answer.state.store =
        MemoryStore.adapter.noteAll (Engine.storeAfter m.store x) m.answer.log :=
  Engine.mutate_store rfl (m.caller.state m.store) m.caller.docType m.action m.params m.caller.token
    m.caller.now

theorem writes_answer (m : SessionMutation) :
    m.answer.state.store.writes =
      m.store.writes + m.answer.log.served.countP AdapterCall.isWrite := by
  obtain ⟨entries, x, hcourse, hlog, houtcome, hstore⟩ := m.course
  rw [hstore, MemoryStore.writes_noteAll]
  cases x with
  | error err => rfl
  | ok c =>
    cases hcourse with
    | committed t calls left event op n entries result state h hc hb hp hw =>
      cases hw with
      | served result state hwrite =>
        have happly : m.store.apply m.caller.docType op = (result, state) :=
          MemoryStore.write_ok hwrite
        have hwrites := MemoryStore.writes_apply m.store m.caller.docType op
        rw [happly] at hwrites
        rw [Engine.storeAfter, hwrites]

section Fates
variable {m : SessionMutation}

/-- A run that comes to its end is committed, whether hooks after the write fail or not. -/
theorem fate_of_ok {c : Commit MemoryStore}
    (h : m.answer.outcome = (Except.ok c).bind Commit.outcome) : m.fate = some .committed := by
  change m.answer.outcome = c.outcome at h
  unfold Commit.outcome at h
  split at h
  · simp only [fate, h]
  · simp only [fate, h]

theorem fate_of_refused {x : SchemaError}
    (h : m.mutator.precheck m.caller.docType m.action m.params = .error x)
    (houtcome : m.answer.outcome = .error (.schema x)) : m.fate = none := by
  simp [fate, houtcome, h, Except.toBool]

theorem fate_of_late {c : Cancelled} (hstarted : m.answer.log.started = [])
    (houtcome : m.answer.outcome = .error (.cancelled c)) : m.fate = none := by
  simp [fate, houtcome, hstarted]

theorem fate_of_abort {a : HookAbort} (houtcome : m.answer.outcome = .error (.hookAbort a)) :
    m.fate = some .rejected := by
  simp only [fate, houtcome]

theorem fate_of_invalid {t : DocumentType} {x : SchemaError}
    (h : m.mutator.precheck m.caller.docType m.action m.params = .ok t)
    (houtcome : m.answer.outcome = .error (.schema x)) : m.fate = some .rejected := by
  simp [fate, houtcome, h, Except.toBool]

theorem fate_of_unwritten {i : Interruption} {call : AdapterCall}
    (hstarted : m.answer.log.started = [call])
    (houtcome : m.answer.outcome = .error i.error) : m.fate = some .unwritten := by
  cases i <;> simp [fate, houtcome, Interruption.error, hstarted]

end Fates

/-- What a mutation leaves for the tallies is told by its answer. -/
theorem tally (m : SessionMutation) :
    Tally m.answer.log.metrics m.answer.log.served m.fate.toList := by
  obtain ⟨entries, x, hcourse, hlog, houtcome, -⟩ := m.course
  have hmetrics : m.answer.log.metrics = entries.filterMap Entry.metric? := by
    rw [Log.metrics_eq, hlog]
  have hserved : m.answer.log.served = entries.filterMap Entry.served? := by
    rw [Log.served_eq, hlog]
  have hstarted : m.answer.log.started = entries.filterMap Entry.started? := by
    rw [Log.started_eq, hlog]
  cases hcourse with
  | refused x h =>
    rw [hmetrics, hserved, fate_of_refused h houtcome]
    exact ⟨rfl, rfl, rfl, rfl⟩
  | late t c h hc =>
    rw [hmetrics, hserved, fate_of_late hstarted houtcome]
    exact ⟨rfl, rfl, rfl, rfl⟩
  | aborted t calls a left h hc hb =>
    rw [hmetrics, hserved, fate_of_abort houtcome, Mutator.metrics_opening,
      Mutator.served_opening]
    exact ⟨rfl, rfl, rfl, rfl⟩
  | invalid t calls left x h hc hb hx =>
    rw [hmetrics, hserved, fate_of_invalid h houtcome, Mutator.metrics_opening,
      Mutator.served_opening]
    exact ⟨rfl, rfl, rfl, rfl⟩
  | unwritten t calls left event op n entries i h hc hb hp hw =>
    rw [Mutator.started_opening, List.filterMap_cons_none rfl, hw.started] at hstarted
    rw [hmetrics, hserved, fate_of_unwritten hstarted houtcome, Mutator.metrics_opening,
      Mutator.served_opening]
    cases hw with
    | cutOff c => exact ⟨rfl, rfl, rfl, rfl⟩
    | refused err state hwrite => exact ⟨rfl, rfl, rfl, rfl⟩
  | committed t calls left event op n entries result state h hc hb hp hw =>
    let hooks := m.mutator.hooks.afterHooks m.caller.docType m.action
    obtain ⟨failures, hfinish, hidle⟩ :=
      Mutator.metrics_committing m.caller.docType m.action hooks (Mutator.written event result)
    have hnothing := Mutator.served_committing m.caller.docType m.action hooks
      (Mutator.written event result)
    rw [hmetrics, hserved, fate_of_ok houtcome, Mutator.metrics_opening, Mutator.served_opening,
      List.filterMap_append, List.filterMap_append, hfinish, hnothing]
    cases hw with
    | served result state hwrite =>
      have hdone : Tally [.execStart .mutation m.caller.docType,
          .mutationFinish m.caller.docType m.action.label true] [.write m.caller.docType op]
          [.committed] := ⟨rfl, rfl, rfl, rfl⟩
      exact hdone.append (tally_of_idle hidle fun _ h => absurd h List.not_mem_nil)

/-- The mutations that count as rejected are those that end in a hook abort or in a failed check of
what the hooks before the write have left. -/
theorem fate_eq_rejected_iff (m : SessionMutation) :
    m.fate = some .rejected ↔
      (∃ a, m.answer.outcome = .error (.hookAbort a)) ∨
        ∃ t left x, m.mutator.precheck m.caller.docType m.action m.params = .ok t ∧
          (∃ calls, BeforeHooks (m.caller.hooks.beforeHooks m.caller.docType m.action)
            (Mutator.opened m.caller.docType m.action m.params) calls (.ok ()) left) ∧
          left.prepare m.caller.registry m.caller.docType t m.action m.caller.components =
            .error x ∧
          m.answer.outcome = .error (.schema x) := by
  constructor
  · intro hfate
    obtain ⟨entries, x, hcourse, hlog, houtcome, -⟩ := m.course
    have hstarted : m.answer.log.started = entries.filterMap Entry.started? := by
      rw [Log.started_eq, hlog]
    cases hcourse with
    | refused x h => cases hfate.symm.trans (fate_of_refused h houtcome)
    | late t c h hc => cases hfate.symm.trans (fate_of_late hstarted houtcome)
    | aborted t calls a left h hc hb => exact .inl ⟨a, houtcome⟩
    | invalid t calls left x h hc hb hx => exact .inr ⟨t, left, x, h, ⟨calls, hb⟩, hx, houtcome⟩
    | unwritten t calls left event op n entries i h hc hb hp hw =>
      rw [Mutator.started_opening, List.filterMap_cons_none rfl, hw.started] at hstarted
      cases hfate.symm.trans (fate_of_unwritten hstarted houtcome)
    | committed t calls left event op n entries result state h hc hb hp hw =>
      cases hfate.symm.trans (fate_of_ok houtcome)
  · rintro (⟨a, ha⟩ | ⟨t, left, x, h, -, -, hx⟩)
    · exact fate_of_abort ha
    · exact fate_of_invalid h hx

/-- The mutations that count as unwritten are those whose write was refused or cut off. -/
theorem fate_eq_unwritten_iff (m : SessionMutation) :
    m.fate = some .unwritten ↔
      ∃ op entries i, m.mutator.Written m.caller.docType op entries (.error i) ∧
        m.answer.log.started = [.write m.caller.docType op] ∧
        m.answer.outcome = .error i.error := by
  constructor
  · intro hfate
    obtain ⟨entries, x, hcourse, hlog, houtcome, -⟩ := m.course
    have hstarted : m.answer.log.started = entries.filterMap Entry.started? := by
      rw [Log.started_eq, hlog]
    cases hcourse with
    | refused x h => cases hfate.symm.trans (fate_of_refused h houtcome)
    | late t c h hc => cases hfate.symm.trans (fate_of_late hstarted houtcome)
    | aborted t calls a left h hc hb => cases hfate.symm.trans (fate_of_abort houtcome)
    | invalid t calls left x h hc hb hx => cases hfate.symm.trans (fate_of_invalid h houtcome)
    | unwritten t calls left event op n entries i h hc hb hp hw =>
      rw [Mutator.started_opening, List.filterMap_cons_none rfl, hw.started] at hstarted
      exact ⟨op, entries, i, hw, hstarted, houtcome⟩
    | committed t calls left event op n entries result state h hc hb hp hw =>
      cases hfate.symm.trans (fate_of_ok houtcome)
  · rintro ⟨op, entries, i, -, hstarted, houtcome⟩
    exact fate_of_unwritten hstarted houtcome

end SessionMutation

/-! ## Sessions -/

/-- What can happen in a session: a read, a mutation, or something that happens to the store. -/
inductive SessionStep where
  | read (c : Caller) (request : ReadRequest)
  | mutate (c : Caller) (action : Action) (params : MutationParams)
  | insert (d : Document)
  /-- The clock that stamps the writes shows another time. -/
  | tick (now : String)
  | fail (docType : String)

/-- A session, with what all its calls have left in their logs, and all its mutations. -/
structure Session where
  store : MemoryStore
  log : Log := []
  mutations : List SessionMutation := []

namespace Session

/-- A session on a new store. -/
def start (registry : Registry) (now : String) (latency : Option Nat) : Session :=
  { store := { registry, now, latency } }

def step (s : Session) : SessionStep → Session
  | .read c request =>
    { s with
      store := (c.read s.store request).2
      log := s.log ++ (c.read s.store request).1 }
  | .mutate c action params =>
    let m : SessionMutation := ⟨c, action, params, s.store⟩
    { store := m.answer.state.store
      log := s.log ++ m.answer.log
      mutations := s.mutations ++ [m] }
  | .insert d => { s with store := s.store.insert d }
  | .tick now => { s with store := { s.store with now := now } }
  | .fail docType => { s with store := s.store.fail docType }

def run (s : Session) (steps : List SessionStep) : Session := steps.foldl step s

/-- The counters, which are reset when the session starts. -/
def metrics (s : Session) : Metrics := Metrics.recordAll {} s.log.metrics

def fates (s : Session) : List Fate := s.mutations.filterMap SessionMutation.fate

/-- The log and the store tell of the fates of all mutations so far. -/
structure Tallied (s : Session) : Prop where
  tally : Tally s.log.metrics s.log.served s.fates
  writes : s.store.writes = s.log.served.countP AdapterCall.isWrite

variable {s : Session}

theorem Tallied.read (h : s.Tallied) (c : Caller) (request : ReadRequest) :
    (s.step (.read c request)).Tallied := by
  obtain ⟨hreading, hstore⟩ := c.reads_read s.store request
  have htally := h.tally.append (Log.tally_of_reading hreading)
  refine ⟨?_, ?_⟩
  · change Tally (Log.metrics (s.log ++ _)) (Log.served (s.log ++ _)) s.fates
    rw [Log.metrics_append, Log.served_append]
    rwa [List.append_nil] at htally
  · change (c.read s.store request).2.writes = List.countP _ (Log.served (s.log ++ _))
    rw [hstore, MemoryStore.writes_noteAll, h.writes, Log.served_append, List.countP_append]

theorem Tallied.mutate (h : s.Tallied) (c : Caller) (action : Action) (params : MutationParams) :
    (s.step (.mutate c action params)).Tallied := by
  let m : SessionMutation := ⟨c, action, params, s.store⟩
  have htally := h.tally.append m.tally
  refine ⟨?_, ?_⟩
  · change Tally (Log.metrics (s.log ++ m.answer.log)) (Log.served (s.log ++ m.answer.log))
      ((s.mutations ++ [m]).filterMap SessionMutation.fate)
    have hfates : (s.mutations ++ [m]).filterMap SessionMutation.fate =
        s.fates ++ m.fate.toList := by
      rw [List.filterMap_append]
      unfold fates
      cases hfate : m.fate <;> simp [hfate]
    rwa [Log.metrics_append, Log.served_append, hfates]
  · change m.answer.state.store.writes = List.countP _ (Log.served (s.log ++ m.answer.log))
    rw [m.writes_answer, h.writes, Log.served_append, List.countP_append]

theorem Tallied.step (h : s.Tallied) (x : SessionStep) : (s.step x).Tallied := by
  cases x with
  | read c request => exact h.read c request
  | mutate c action params => exact h.mutate c action params
  | insert d => exact ⟨h.tally, h.writes⟩
  | tick now => exact ⟨h.tally, h.writes⟩
  | fail docType => exact ⟨h.tally, h.writes⟩

theorem Tallied.run (h : s.Tallied) (steps : List SessionStep) : (s.run steps).Tallied := by
  induction steps generalizing s with
  | nil => exact h
  | cons x steps ih => exact ih (h.step x)

theorem tallied_start (registry : Registry) (now : String) (latency : Option Nat) :
    (start registry now latency).Tallied :=
  ⟨⟨rfl, rfl, rfl, rfl⟩, rfl⟩

/-- After any session on a new store, as long as the counter of mutations is not at its greatest
value: as many mutations count as committed as the store has served writes and as have answered with
their result or failures of hooks after the write; as many count as aborted as were rejected; and
all mutations that have begun are these and those whose write has failed, also type by type. -/
theorem mutation_counters_add_up (registry : Registry) (now : String) (latency : Option Nat)
    (steps : List SessionStep)
    (hbelow : ((start registry now latency).run steps).metrics.ops.mutationCalls.toNat <
      UInt64.size - 1) :
    let s := (start registry now latency).run steps
    s.metrics.mutations.committed.toNat = s.store.writes ∧
      s.metrics.mutations.committed.toNat = s.fates.count .committed ∧
      s.metrics.mutations.aborted.toNat = s.fates.count .rejected ∧
      s.metrics.ops.mutationCalls.toNat =
        s.metrics.mutations.committed.toNat + s.metrics.mutations.aborted.toNat +
          s.fates.count .unwritten ∧
      s.metrics.ops.mutationCalls.toNat = s.metrics.typeCalls := by
  intro s
  have htallied : s.Tallied := (tallied_start registry now latency).run steps
  obtain ⟨hstarts, hcommits, haborts, hserved⟩ := htallied.tally
  have hwrites := htallied.writes
  have hfates := length_fates s.fates
  have hcalls : s.metrics.ops.mutationCalls.toNat =
      min (s.log.metrics.countP MetricsEvent.isMutationStart) (UInt64.size - 1) :=
    Metrics.counts_mutationCalls.reset rfl s.log.metrics
  have hcommitted : s.metrics.mutations.committed.toNat =
      min (s.log.metrics.countP (MetricsEvent.isMutationFinish true)) (UInt64.size - 1) :=
    Metrics.counts_committed.reset rfl s.log.metrics
  have haborted : s.metrics.mutations.aborted.toNat =
      min (s.log.metrics.countP (MetricsEvent.isMutationFinish false)) (UInt64.size - 1) :=
    Metrics.counts_aborted.reset rfl s.log.metrics
  -- The counter is not at its greatest value, so it has counted every mutation.
  have hexact : s.log.metrics.countP MetricsEvent.isMutationStart < UInt64.size - 1 := by
    change s.metrics.ops.mutationCalls.toNat < UInt64.size - 1 at hbelow
    omega
  have htypes : s.metrics.typeCalls = 0 + s.log.metrics.countP MetricsEvent.isMutationStart := by
    refine Metrics.typeCalls_recordAll (m := {}) List.Pairwise.nil s.log.metrics ?_
    change 0 + s.log.metrics.countP MetricsEvent.isMutationStart < UInt64.size
    omega
  refine ⟨?_, ?_, ?_, ?_, ?_⟩ <;> omega

/-- A tag is created, another one has no label, and the store fails for a third one. -/
def threeTags : List SessionStep :=
  let c : Caller := ⟨Blog.registry, .empty, {}, .empty 0, 0, "tag", .never, 0⟩
  [.mutate c .create { data := [("label", .text "x")] }, .mutate c .create {},
    .read c (.count none none), .fail "tag", .mutate c .create { data := [("label", .text "y")] }]

theorem mutation_counters_add_up_blog :
    let s := (start Blog.registry "now" none).run threeTags
    s.metrics.ops.mutationCalls.toNat = 3 ∧ s.fates = [.committed, .rejected, .unwritten] ∧
      s.metrics.typeCalls = 3 ∧ s.store.writes = 1 := by
  intro s
  have hcalls : s.metrics.ops.mutationCalls.toNat = 3 := rfl
  have hfates : s.fates = [.committed, .rejected, .unwritten] := rfl
  have hone : s.fates.count .committed = 1 := by rw [hfates]; rfl
  obtain ⟨hwrites, hcommitted, -, -, htypes⟩ :=
    mutation_counters_add_up Blog.registry "now" none threeTags (by decide +kernel)
  exact ⟨hcalls, hfates, htypes.symm.trans hcalls, hwrites.symm.trans (hcommitted.trans hone)⟩

end Session
end ContentEngine
