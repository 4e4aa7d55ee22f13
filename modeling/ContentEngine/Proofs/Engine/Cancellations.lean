import ContentEngine.Proofs.Engine.Refusals
import ContentEngine.Proofs.Populate.Fetches

/-!
# Reported cancellations

A call that ends in a cancellation reports it once, wherever in the call it comes from, and all
other calls report none. There is one exception: a mutation that is asked for under a token that has
fired already ends without any report, as `cancelled_unreported` shows. From then on, whatever time
the hooks take and whoever signals the token, it reports like all other calls.
-/

namespace ContentEngine

def Interruption.isCancelled : Interruption → Bool
  | .cancelled _ => true
  | .adapter _ => false

def Error.isCancelled : Error → Bool
  | .cancelled _ => true
  | _ => false

theorem Error.isCancelled_of_kind {err : Error} (h : err.kind ≠ .cancelled) :
    err.isCancelled = false := by
  cases err <;> first | rfl | exact absurd rfl h

theorem Interruption.isCancelled_error (i : Interruption) :
    i.error.isCancelled = i.isCancelled := by
  cases i <;> rfl

namespace Log

/-- How many cancellations a log reports. -/
def cancellations (l : Log) : Nat := l.metrics.count .cancelled

theorem metrics_append (l l' : Log) : metrics (l ++ l') = l.metrics ++ l'.metrics :=
  List.filterMap_append

theorem cancellations_append (l l' : Log) :
    cancellations (l ++ l') = l.cancellations + l'.cancellations := by
  unfold cancellations
  rw [metrics_append, List.count_append]

theorem cancellations_eq_zero {l : Log} (h : ∀ s ∈ l, s.entry ≠ .metric .cancelled) :
    l.cancellations = 0 := by
  unfold cancellations metrics
  rw [List.count_eq_zero, List.mem_filterMap]
  rintro ⟨s, hs, hcancelled⟩
  have hne := h s hs
  generalize s.entry = entry at hne hcancelled
  cases entry with
  | metric event => exact hne (congrArg Entry.metric (Option.some.inj hcancelled))
  | _ => cases hcancelled

end Log

/-! ## Calls that report how they end -/

section
variable {ε ε' α β : Type}

/-- The log reports a cancellation once if the call has ended in one, and otherwise never. -/
structure Progress.Reports (cancelled : ε → Bool) (p : Progress Entry ε α) : Prop where
  once : ∀ err, p.outcome = .error err → cancelled err = true → Log.cancellations p.log = 1
  never : (∀ err, p.outcome = .error err → cancelled err = false) → Log.cancellations p.log = 0

namespace Progress
variable {cancelled : ε → Bool} {p : Progress Entry ε α}

theorem reports_of_ok {a : α} (ha : p.outcome = .ok a) (hlog : Log.cancellations p.log = 0) :
    p.Reports cancelled :=
  ⟨fun err herr => absurd (ha.symm.trans herr) (by simp), fun _ => hlog⟩

theorem reports_of_error {err : ε} (herr : p.outcome = .error err)
    (hlog : Log.cancellations p.log = if cancelled err then 1 else 0) : p.Reports cancelled := by
  refine ⟨fun err' herr' hcancelled => ?_, fun hnone => ?_⟩
  · obtain rfl : err = err' := Except.error.inj (herr.symm.trans herr')
    rw [hlog, if_pos hcancelled]
  · rw [hlog, hnone err herr]
    rfl

theorem Reports.of_ok {a : α} (h : p.Reports cancelled) (ha : p.outcome = .ok a) :
    Log.cancellations p.log = 0 :=
  h.never fun err herr => absurd (ha.symm.trans herr) (by simp)

theorem Reports.of_error {err : ε} (h : p.Reports cancelled) (herr : p.outcome = .error err) :
    Log.cancellations p.log = if cancelled err then 1 else 0 := by
  cases hcancelled : cancelled err with
  | true => exact h.once err herr hcancelled
  | false =>
    refine h.never fun err' herr' => ?_
    rwa [← Except.error.inj (herr.symm.trans herr')]

end Progress

namespace Call
variable {cancelled : ε → Bool} {c : Call Entry ε α} {f : α → Call Entry ε β}

def Reports (cancelled : ε → Bool) (c : Call Entry ε α) : Prop := ∀ t, (c t).Reports cancelled

theorem reports_succeed (a : α) : Reports cancelled (succeed a) :=
  fun _ => Progress.reports_of_ok rfl rfl

theorem reports_fail {err : ε} (h : cancelled err = false) :
    Reports cancelled (fail err : Call Entry ε α) :=
  fun _ => Progress.reports_of_error rfl (by rw [h]; rfl)

theorem reports_ofExcept {x : Except ε α} (h : ∀ err, x = .error err → cancelled err = false) :
    Reports cancelled (ofExcept x) := by
  cases x with
  | ok a => exact reports_succeed a
  | error err => exact reports_fail (h err rfl)

theorem reports_recordAll {entries : List Entry} (h : ∀ e ∈ entries, e ≠ .metric .cancelled) :
    Reports cancelled (recordAll entries) := by
  refine fun t => Progress.reports_of_ok rfl (Log.cancellations_eq_zero fun s hs => ?_)
  obtain ⟨e, he, rfl⟩ := List.mem_map.1 hs
  exact h e he

theorem reports_record {entry : Entry} (h : entry ≠ .metric .cancelled) :
    Reports cancelled (record entry) :=
  reports_recordAll (List.forall_mem_singleton.2 h)

/-- Only the last call of a sequence ends in an error. -/
theorem Reports.bind (hc : c.Reports cancelled) (hf : ∀ a, (f a).Reports cancelled) :
    (c >>= f).Reports cancelled := by
  intro t
  change (c.andThen f t).Reports cancelled
  cases ha : (c t).outcome with
  | error err =>
    simp only [andThen, ha]
    exact Progress.reports_of_error rfl ((hc t).of_error ha)
  | ok a =>
    simp only [andThen, ha]
    have hfirst := (hc t).of_ok ha
    have hrest := hf a (c t).finish
    cases hb : (f a (c t).finish).outcome with
    | error err =>
      refine Progress.reports_of_error rfl ?_
      rw [Log.cancellations_append, hfirst, hrest.of_error hb, Nat.zero_add]
    | ok b =>
      refine Progress.reports_of_ok rfl ?_
      rw [Log.cancellations_append, hfirst, hrest.of_ok hb]

theorem Reports.mapError {cancelled' : ε' → Bool} (hc : c.Reports cancelled) {g : ε → ε'}
    (hg : ∀ err, cancelled' (g err) = cancelled err) : (c.mapError g).Reports cancelled' := by
  intro t
  cases ha : (c t).outcome with
  | ok a => exact Progress.reports_of_ok (congrArg (Except.mapError g) ha) ((hc t).of_ok ha)
  | error err =>
    refine Progress.reports_of_error (congrArg (Except.mapError g) ha) ?_
    rw [hg]
    exact (hc t).of_error ha

end Call

/-- A call that reports no cancellation by itself is observed. -/
theorem StoreCall.reports_observed {c : StoreCall α} {counted : Entry → Bool} {n : Nat}
    (hc : c.Bounded (· ≠ .metric .cancelled) counted n) :
    c.observed.Reports Interruption.isCancelled := by
  intro t
  have hsilent := Log.cancellations_eq_zero (hc t).kind
  cases ha : (c t).outcome with
  | ok a =>
    refine Progress.reports_of_ok ha ?_
    simp only [observed, Call.afterwards, ha]
    rw [Log.cancellations_append, hsilent]
    rfl
  | error i =>
    refine Progress.reports_of_error ha ?_
    simp only [observed, Call.afterwards, ha]
    rw [Log.cancellations_append, hsilent]
    cases i <;> rfl

end

theorem Entry.OfPopulation.silent {entry : Entry} (h : entry.OfPopulation) :
    entry ≠ .metric .cancelled := by
  cases h <;> simp

/-! ## Preparing -/

/-- What is reported while a request is prepared: that a query starts, and what the cache had. -/
inductive MetricsEvent.OfPreparing : MetricsEvent → Prop
  | start (docType : String) : OfPreparing (.execStart .query docType)
  | cache (hit : Bool) : OfPreparing (.predicateCache hit)

namespace Preparing
variable {α β ε : Type} {P : MetricsEvent → Prop}

/-- Whatever else is on the desk, a preparation only adds metrics of a kind. -/
def Records (P : MetricsEvent → Prop) (m : Preparing α) : Prop :=
  ∀ d : Desk, (∀ x ∈ d.metrics, P x) → ∀ x ∈ (m.run.run d).2.metrics, P x

theorem records_pure (a : α) : Records P (pure a : Preparing α) := fun _ hd => hd

theorem records_ofExcept (wrap : ε → Error) (x : Except ε α) : Records P (ofExcept wrap x) := by
  cases x <;> exact fun _ hd => hd

theorem records_record {m : MetricsEvent} (h : P m) : Records P (record m) :=
  fun _ hd => List.forall_mem_append.2 ⟨hd, List.forall_mem_singleton.2 h⟩

theorem Records.bind {m : Preparing α} {f : α → Preparing β} (hm : Records P m)
    (hf : ∀ a, Records P (f a)) : Records P (m >>= f) := by
  intro d hd
  have hafter := hm d hd
  simp only [ExceptT.run_bind, StateT.run_bind]
  generalize m.run.run d = ran at hafter ⊢
  obtain ⟨x, d'⟩ := ran
  cases x with
  | error err => exact hafter
  | ok a => exact hf a d' hafter

theorem records_predicate (r : Registry) (t : DocumentType) (filters : Option Filter) :
    Records MetricsEvent.OfPreparing (predicate r t filters) := by
  cases filters with
  | none => exact records_pure _
  | some f =>
    intro d hd
    have hget : ∀ k : Desk → Preparing Predicate, (get >>= k).run.run d = (k d).run.run d :=
      fun _ => rfl
    unfold predicate
    simp only [hget]
    rcases d.cache.getOrCompile r t f with ⟨err | ⟨p, hit⟩, c⟩
    · exact hd
    · exact List.forall_mem_append.2 ⟨hd, List.forall_mem_singleton.2 (.cache hit)⟩

theorem records_plan (r : Registry) (t : DocumentType) (spec : PopulateSpec) :
    Records P (plan r t spec) := by
  intro d hd
  have hrun : (plan r t spec).run.run d =
      (ofExcept Error.populate (PopulatePlan.build r t spec d.cache).1).run.run
        { d with cache := (PopulatePlan.build r t spec d.cache).2 } := rfl
  rw [hrun]
  exact records_ofExcept _ _ _ hd

end Preparing

namespace Engine
variable {σ α β : Type} (e : Engine σ)

open Preparing in
theorem records_prepareQuery (docType : String) (q : QueryRequest) :
    Records MetricsEvent.OfPreparing (e.prepareQuery docType q) := by
  refine (records_ofExcept _ _).bind fun t => ?_
  refine (records_record (.start docType)).bind fun _ => ?_
  refine (records_ofExcept _ _).bind fun status => ?_
  refine (records_predicate _ _ _).bind fun p => ?_
  refine (records_plan _ _ _).bind fun plan => ?_
  refine (records_ofExcept _ _).bind fun window => ?_
  refine (records_ofExcept _ _).bind fun _ => ?_
  exact (records_ofExcept _ _).bind fun projection => records_pure _

open Preparing in
theorem records_prepareCount (docType : String) (filters : Option Filter)
    (status : Option Status) :
    Records MetricsEvent.OfPreparing (e.prepareCount docType filters status) := by
  refine (records_ofExcept _ _).bind fun t => ?_
  refine (records_ofExcept _ _).bind fun status => ?_
  exact (records_predicate _ _ _).bind fun p => records_pure _

/-! ## Reads -/

variable {e} {s : EngineState σ}

theorem reports_reading {prepare : Preparing α} {run : α → StoreCall β}
    (hrefuses : prepare.Refuses) (hrecords : prepare.Records MetricsEvent.OfPreparing)
    (hrun : ∀ a, (run a).Reports Interruption.isCancelled) (now : Nat) :
    (e.reading s now prepare run).progress.Reports Error.isCancelled := by
  have hmetrics := hrecords { cache := s.cache } (by simp)
  have hfails := hrefuses.fails { cache := s.cache }
  unfold reading
  generalize prepare.run.run { cache := s.cache } = ran at hmetrics hfails ⊢
  obtain ⟨x, desk⟩ := ran
  have hreports : Call.Reports Error.isCancelled (do
      Call.recordAll (desk.metrics.map Entry.metric)
      let a ← Call.ofExcept x
      (run a).mapError Interruption.error) := by
    refine (Call.reports_recordAll fun entry hentry => ?_).bind fun _ => ?_
    · obtain ⟨event, hevent, rfl⟩ := List.mem_map.1 hentry
      cases hmetrics event hevent <;> simp
    refine (Call.reports_ofExcept fun err herr => ?_).bind fun a => ?_
    · have hkind := hfails err herr
      refine Error.isCancelled_of_kind fun hcancelled => ?_
      simp [hcancelled, ErrorKind.ofReading] at hkind
    · exact (hrun a).mapError Interruption.isCancelled_error
  exact hreports now

theorem reports_map {a : Answer σ α} (h : a.progress.Reports Error.isCancelled) (f : α → β) :
    (a.map f).progress.Reports Error.isCancelled := by
  cases ha : a.progress.outcome with
  | ok x =>
    have houtcome : (a.map f).progress.outcome = .ok (f x) := by
      simp only [Answer.map, Answer.andThen, ha]
      rfl
    exact Progress.reports_of_ok houtcome (h.of_ok ha)
  | error err =>
    have houtcome : (a.map f).progress.outcome = .error err := by
      simp only [Answer.map, Answer.andThen, ha]
      rfl
    exact Progress.reports_of_error houtcome (h.of_error ha)

theorem silent_countCall (store : σ) (p : PreparedCount) :
    (e.countCall store p).Bounded (· ≠ .metric .cancelled) (fun _ => false) 1 :=
  StoreCall.bounded_ofStore _ _ (by simp) (by simp) rfl

theorem silent_pageCall (store : σ) (p : PreparedQuery) :
    (e.pageCall store p).Bounded (· ≠ .metric .cancelled) (fun _ => false) 1 :=
  StoreCall.bounded_ofStore _ _ (by simp) (by simp) rfl

theorem reports_populate (store : σ) (token : CancelToken) (p : PreparedQuery)
    (rows : List Document) :
    (e.populate store token p rows).Reports Interruption.isCancelled := by
  unfold populate
  split
  · exact Call.reports_succeed rows
  · have hasks := Resolver.asks_resolve ⟨e.store, store, p.status, token⟩ p.plan rows
    exact StoreCall.reports_observed (hasks.mono (fun _ h => h.silent) (Nat.le_refl _))

theorem reports_runQuery (store : σ) (token : CancelToken) (p : PreparedQuery) :
    (e.runQuery store token p).Reports Interruption.isCancelled := by
  have hfetching := (e.silent_countCall store ⟨p.docType, p.status, p.predicate⟩).both
    (e.silent_pageCall store p)
  refine (StoreCall.reports_observed (token.bounded_run _ hfetching)).bind fun _ => ?_
  refine (reports_populate _ _ _ _).bind fun rows => ?_
  exact (Call.reports_record (by simp)).bind fun _ => Call.reports_succeed _

end Engine

/-! ## Mutations -/

namespace MutationEvent
variable {α : Type} {cancelled : Error → Bool}

theorem reports_enter (event : MutationEvent) (next : MutationState) :
    (event.enter next).Reports Error.isCancelled :=
  (Call.reports_record (by simp)).bind fun _ => Call.reports_succeed _

theorem reports_abort (event : MutationEvent) {reports : List Entry} {cause : Error}
    (hreports : ∀ e ∈ reports, e ≠ .metric .cancelled) (hcause : cause.isCancelled = false) :
    (event.abort reports cause : EngineCall α).Reports Error.isCancelled := by
  refine (reports_enter event .aborted).bind fun e => ?_
  refine (Call.reports_recordAll (List.forall_mem_cons.2 ⟨?_, hreports⟩)).bind fun _ => ?_
  · simp [finishEntry]
  · exact Call.reports_fail hcause

theorem reports_runBefore (docType : String) (hooks : List BeforeHook) (event : MutationEvent) :
    (runBefore docType hooks event).Reports Error.isCancelled := by
  induction hooks generalizing event with
  | nil => exact Call.reports_succeed event
  | cons h hs ih =>
    refine (Call.reports_record (by simp)).bind fun _ => ?_
    rcases h.run event with ⟨_ | _, left⟩
    · exact reports_abort left (by simp) rfl
    · exact ih left

theorem reports_runAfter (hooks : List AfterHook) (event : MutationEvent) :
    (runAfter hooks event).Reports Error.isCancelled := by
  induction hooks with
  | nil => exact Call.reports_succeed []
  | cons h hs ih =>
    refine (Call.reports_record (by simp)).bind fun _ => ih.bind fun failures => ?_
    cases h.run event <;> exact Call.reports_succeed _

end MutationEvent

namespace Mutator
variable {σ : Type} {m : Mutator σ} {docType : String} {action : Action}

theorem reports_write (m : Mutator σ) (docType : String) (op : WriteOp) :
    (m.write docType op).Reports Interruption.isCancelled := by
  have hcall : ∀ result : Except AdapterError (Option Document × σ),
      (StoreCall.ofStore (m.store.delay m.state) (.write docType op) result).Bounded
        (· ≠ .metric .cancelled) (fun _ => false) 1 :=
    fun result => StoreCall.bounded_ofStore _ _ (by simp) (by simp) rfl
  exact StoreCall.reports_observed (m.token.bounded_run _ (hcall _))

theorem afterFailures_silent (docType : String) (failures : List HookFailure) :
    ∀ e ∈ afterFailures docType failures, e ≠ .metric .cancelled := by
  unfold afterFailures
  split <;> simp

/-- What follows once the hooks before the write are through, whenever that is. -/
theorem reports_commit (m : Mutator σ) (docType : String) (action : Action) (t : DocumentType)
    (left : MutationEvent) : (m.commit docType action t left).Reports Error.isCancelled := by
  unfold commit
  cases left.prepare m.registry docType t action m.components with
  | error x => exact left.reports_abort (by simp) rfl
  | ok ready =>
    refine (MutationEvent.reports_enter _ .writing).bind fun event => ?_
    have hwrite := (m.reports_write docType ready.2.1).mapError Interruption.isCancelled_error
    refine hwrite.bind fun written => ?_
    refine (MutationEvent.reports_enter _ .afterHooksRunning).bind fun event => ?_
    refine (MutationEvent.reports_runAfter _ event).bind fun failures => ?_
    refine (MutationEvent.reports_enter _ .done).bind fun event => ?_
    refine (Call.reports_recordAll (List.forall_mem_cons.2
      ⟨by simp [MutationEvent.finishEntry], afterFailures_silent _ _⟩)).bind fun _ => ?_
    exact Call.reports_succeed _

variable {params : MutationParams} {now : Nat}

/-- A mutation that is asked for under a token that has not fired. -/
theorem reports_run (h : m.token.check now = .ok ()) :
    (m.run docType action params now).Reports Error.isCancelled := by
  unfold run
  cases m.precheck docType action params with
  | error x => exact Progress.reports_of_error rfl rfl
  | ok t =>
    have htoken := m.does_checkToken now
    rw [h] at htoken
    change Progress.Reports _ ((Call.succeed t >>= fun t => m.checkToken >>= fun _ => _) now)
    rw [(Call.does_succeed t now).bind_eq, htoken.bind_eq]
    refine Call.Reports.bind (Call.reports_record (by simp)) (fun _ => ?_) now
    refine (MutationEvent.reports_enter _ _).bind fun event => ?_
    refine (MutationEvent.reports_runBefore _ _ event).bind fun left => ?_
    exact m.reports_commit docType action t left

/-- Under a token that has fired a mutation does nothing, and leaves nothing in its log. -/
theorem run_late {c : Cancelled} (h : m.token.check now = .error c) :
    (m.run docType action params now).log = [] ∧
      ∀ t, m.precheck docType action params = .ok t →
        (m.run docType action params now).outcome = .error (.cancelled c) := by
  obtain ⟨entries, finish, x, hcourse, hdoes⟩ := m.course_run docType action params now
  cases hcourse with
  | refused x hpre =>
    exact ⟨List.map_eq_nil_iff.1 hdoes.entries, fun t ht => absurd (hpre.symm.trans ht) (by simp)⟩
  | late t c' hpre hc =>
    obtain rfl := Except.error.inj (hc.symm.trans h)
    exact ⟨List.map_eq_nil_iff.1 hdoes.entries, fun _ _ => hdoes.outcome⟩
  | aborted t calls a left hpre hc => exact absurd (hc.symm.trans h) (by simp)
  | invalid t calls left x hpre hc => exact absurd (hc.symm.trans h) (by simp)
  | unwritten t calls left event op n entries i hpre hc => exact absurd (hc.symm.trans h) (by simp)
  | committed t calls left event op n entries result state hpre hc =>
    exact absurd (hc.symm.trans h) (by simp)

end Mutator

namespace Engine
variable {σ : Type}

/-- What a mutation answers is its run, with the failures of hooks after the write as an error. -/
theorem progress_mutate (e : Engine σ) (s : EngineState σ) (docType : String) (action : Action)
    (params : MutationParams) (token : CancelToken) (now : Nat) :
    let p := (e.mutator s token now).run docType action params now
    (e.mutate s docType action params token now).progress =
      ⟨p.log, p.finish, p.outcome.bind Commit.outcome⟩ := by
  intro p
  cases hp : p.outcome with
  | error err => simp only [mutate, p, hp, Except.bind]
  | ok c => simp only [mutate, p, hp, Except.bind]

/-- Failures of hooks after the write are no cancellation. -/
theorem reports_mutate (e : Engine σ) (s : EngineState σ) (docType : String) (action : Action)
    (params : MutationParams) {token : CancelToken} {now : Nat}
    (h : (e.tokenOf token now).check now = .ok ()) :
    (e.mutate s docType action params token now).progress.Reports Error.isCancelled := by
  have hrun : ((e.mutator s token now).run docType action params now).Reports Error.isCancelled :=
    Mutator.reports_run h
  rw [progress_mutate]
  cases hx : ((e.mutator s token now).run docType action params now).outcome with
  | error err => exact Progress.reports_of_error rfl (hrun.of_error hx)
  | ok c =>
    by_cases hfailures : c.failures.isEmpty = true
    · exact Progress.reports_of_ok (if_pos hfailures) (hrun.of_ok hx)
    · exact Progress.reports_of_error (if_neg hfailures) (hrun.of_ok hx)

/-- Every read reports its cancellation once, and so does a mutation, unless its token has fired
before the mutation is asked for: then it leaves nothing in the log. Once the hooks before the write
are through, at whatever time, what is left of a mutation reports its cancellation once. -/
theorem cancellations_reported (e : Engine σ) (s : EngineState σ) (docType : String)
    (token : CancelToken) (now : Nat) :
    (∀ q, (e.query s docType q token now).progress.Reports Error.isCancelled) ∧
      (∀ q, (e.findFirst s docType q token now).progress.Reports Error.isCancelled) ∧
      (∀ id q, (e.findOne s docType id q token now).progress.Reports Error.isCancelled) ∧
      (∀ filters status,
        (e.count s docType filters status token now).progress.Reports Error.isCancelled) ∧
      ∀ action params,
        ((e.tokenOf token now).check now = .ok () →
          (e.mutate s docType action params token now).progress.Reports Error.isCancelled) ∧
        (∀ c, (e.tokenOf token now).check now = .error c →
          (e.mutate s docType action params token now).log = [] ∧
            ∀ t, (e.mutator s token now).precheck docType action params = .ok t →
              (e.mutate s docType action params token now).outcome = .error (.cancelled c)) ∧
        ∀ t left later, Progress.Reports Error.isCancelled
          ((e.mutator s token now).commit docType action t left later) := by
  have hquery : ∀ q, (e.query s docType q token now).progress.Reports Error.isCancelled := fun q =>
    reports_reading (e.refuses_prepareQuery docType q) (e.records_prepareQuery docType q)
      (reports_runQuery s.store (e.tokenOf token now)) now
  have hfirst : ∀ q, (e.findFirst s docType q token now).progress.Reports Error.isCancelled :=
    fun q => reports_map (hquery _) _
  refine ⟨hquery, hfirst, fun id q => hfirst _, fun filters status => ?_, fun action params => ?_⟩
  · refine reports_reading (e.refuses_prepareCount docType filters status)
      (e.records_prepareCount docType filters status) (fun p => ?_) now
    exact StoreCall.reports_observed ((e.tokenOf token now).bounded_run _ (e.silent_countCall _ p))
  · refine ⟨e.reports_mutate s docType action params, fun c hc => ?_, fun t left later => ?_⟩
    · have hlate : (e.mutator s token now).token.check now = .error c := hc
      obtain ⟨hlog, houtcome⟩ := Mutator.run_late hlate
      rw [Answer.log, Answer.outcome, progress_mutate]
      refine ⟨hlog, fun t ht => ?_⟩
      simp only [houtcome t ht]
      rfl
    · exact (e.mutator s token now).reports_commit docType action t left later

/-- A tag that is created in a store which takes a millisecond for each call. -/
def tagging (token : CancelToken) : Answer MemoryStore (Option Document) :=
  mutate ⟨Blog.registry, MemoryStore.adapter, .empty, {}⟩
    ⟨{ Blog.store with latency := some 1 }, .empty 0, 0⟩ "tag" .create
    { data := [("label", .text "x")] } token 0

/-- A signal during the write is reported. -/
theorem cancellations_reported_blog :
    (tagging ⟨some 1, none⟩).outcome = .error (.cancelled .signal) ∧
      (tagging ⟨some 1, none⟩).log.cancellations = 1 := by
  have houtcome : (tagging ⟨some 1, none⟩).outcome = .error (.cancelled .signal) := rfl
  obtain ⟨-, -, -, -, hmutate⟩ :=
    cancellations_reported ⟨Blog.registry, MemoryStore.adapter, .empty, {}⟩
      ⟨{ Blog.store with latency := some 1 }, .empty 0, 0⟩ "tag" ⟨some 1, none⟩ 0
  obtain ⟨hlive, -, -⟩ := hmutate .create { data := [("label", .text "x")] }
  exact ⟨houtcome, (hlive rfl).once _ houtcome rfl⟩

/-- A signal before the mutation is not. -/
theorem cancelled_unreported :
    (tagging ⟨some 0, none⟩).outcome = .error (.cancelled .signal) ∧
      ¬ (tagging ⟨some 0, none⟩).progress.Reports Error.isCancelled := by
  have houtcome : (tagging ⟨some 0, none⟩).outcome = .error (.cancelled .signal) := rfl
  have hnone : (tagging ⟨some 0, none⟩).log.cancellations = 0 := rfl
  refine ⟨houtcome, fun hreports => ?_⟩
  have hone : (tagging ⟨some 0, none⟩).log.cancellations = 1 := hreports.once _ houtcome rfl
  rw [hnone] at hone
  cases hone

end Engine
end ContentEngine
