import ContentEngine.Engine.Read
import ContentEngine.Engine.Write
import ContentEngine.Proofs.Lifecycle.Trace
import ContentEngine.Proofs.Outcome
import ContentEngine.Sample.Blog

/-!
# Faulty requests do not reach the store

All that can be wrong with a request is found before the store is called. `Answer.RefusesFirst` says
so of one call of an engine: an error of a kind that the caller can mend comes with no call of the
store started, and once one was started the call can only fail for a reason outside the request. It
holds over any store, also over one that never answers as it should.
-/

namespace ContentEngine

namespace ErrorKind

/-- The faults of a request that reads. -/
def ofReading : List ErrorKind := [.schema, .operator, .unknownAttribute, .range]

/-- The faults of a request that writes. -/
def ofWriting : List ErrorKind := [.schema, .hookAbort]

end ErrorKind

theorem FilterError.kind_mem_ofReading (e : FilterError) : e.kind ∈ ErrorKind.ofReading := by
  cases e <;> simp [FilterError.kind, ErrorKind.ofReading]

theorem PopulateError.kind_mem_ofReading (e : PopulateError) : e.kind ∈ ErrorKind.ofReading := by
  cases e with
  | filter e => exact e.kind_mem_ofReading
  | _ => simp [PopulateError.kind, ErrorKind.ofReading]

/-- An error that tells of the store or of the token, and not of the request. -/
def Error.IsInterruption (err : Error) : Prop := err.kind = .adapter ∨ err.kind = .cancelled

theorem Interruption.isInterruption (i : Interruption) : i.error.IsInterruption := by
  cases i with
  | adapter e => exact .inl rfl
  | cancelled c => exact .inr rfl

namespace Answer
variable {σ α β : Type} {s : EngineState σ} {a : Answer σ α} {refusals : List ErrorKind}
  {late : Log → Error → Prop}

/-- No call of the store was so much as started, and the store is as it was. -/
structure Untouched (s : EngineState σ) (a : Answer σ α) : Prop where
  started : a.log.started = []
  store : a.state.store = s.store

/-- How a call can fail: with one of its refusals before the store is called, with an interruption at
any time, and with a late failure after a call of the store. -/
structure RefusesFirst (s : EngineState σ) (a : Answer σ α) (refusals : List ErrorKind)
    (late : Log → Error → Prop) : Prop where
  refused : ∀ err, a.outcome = .error err → err.kind ∈ refusals → a.Untouched s
  started : ∀ err, a.outcome = .error err → a.log.started ≠ [] →
    err.IsInterruption ∨ late a.log err
  sorted : ∀ err, a.outcome = .error err →
    err.kind ∈ refusals ∨ err.IsInterruption ∨ late a.log err

/-- A call refuses first if each of its errors is either a refusal that leaves the store untouched, or
is no refusal. -/
theorem refusesFirst_of_error
    (h : ∀ err, a.outcome = .error err → (err.kind ∈ refusals ∧ a.Untouched s) ∨
      (err.kind ∉ refusals ∧ (err.IsInterruption ∨ late a.log err))) :
    a.RefusesFirst s refusals late where
  refused err herr hkind := by
    rcases h err herr with ⟨-, huntouched⟩ | ⟨hother, -⟩
    · exact huntouched
    · exact absurd hkind hother
  started err herr hstarted := by
    rcases h err herr with ⟨-, huntouched⟩ | ⟨-, hlate⟩
    · exact absurd huntouched.started hstarted
    · exact hlate
  sorted err herr := (h err herr).imp And.left And.right

/-- What is made of a result does not change how the call fails. -/
theorem RefusesFirst.map (h : a.RefusesFirst s refusals late) (f : α → β) :
    (a.map f).RefusesFirst s refusals late := by
  have herror : ∀ err, (a.map f).outcome = .error err → a.outcome = .error err := by
    intro err herr
    have hbind : a.outcome.bind (fun x => .ok (f x)) = .error err := herr
    cases houtcome : a.outcome with
    | error err' =>
      rw [houtcome] at hbind
      exact congrArg Except.error (Except.error.inj hbind)
    | ok x =>
      rw [houtcome] at hbind
      exact absurd hbind (by rintro ⟨⟩)
  refine ⟨fun err herr hkind => ?_, fun err herr => h.started err (herror err herr),
    fun err herr => h.sorted err (herror err herr)⟩
  obtain ⟨hstarted, hstore⟩ := h.refused err (herror err herr) hkind
  exact ⟨hstarted, hstore⟩

end Answer

/-! ## Checking a request -/

namespace Preparing
variable {α ε : Type}

/-- Preparing fails with the faults of a request only. -/
def Refuses (m : Preparing α) : Prop :=
  Ends m (fun _ => True) fun err => err.kind ∈ ErrorKind.ofReading

theorem refuses_ofExcept {wrap : ε → Error} (hwrap : ∀ e, (wrap e).kind ∈ ErrorKind.ofReading)
    (x : Except ε α) : Refuses (ofExcept wrap x) := by
  cases x with
  | ok a => exact ends_pure trivial
  | error e => exact ends_throw (hwrap e)

theorem refuses_ofSchema (x : Except SchemaError α) : Refuses (ofExcept .schema x) :=
  refuses_ofExcept (fun _ => by simp [Error.kind, ErrorKind.ofReading]) x

theorem refuses_record (m : MetricsEvent) : Refuses (record m) :=
  ⟨ensures_true _, fun _ _ he => absurd he (by rintro ⟨⟩)⟩

theorem refuses_predicate (r : Registry) (t : DocumentType) (filters : Option Filter) :
    Refuses (predicate r t filters) := by
  cases filters with
  | none => exact ends_pure trivial
  | some f =>
    refine ends_get.andThen fun desk => ?_
    refine (ends_set _).andThen fun _ => ?_
    refine (refuses_ofExcept (fun e => e.kind_mem_ofReading) _).andThen fun _ => ?_
    exact (refuses_record _).andThen fun _ => ends_pure trivial

theorem refuses_plan (r : Registry) (t : DocumentType) (spec : PopulateSpec) :
    Refuses (plan r t spec) := by
  refine ends_get.andThen fun desk => ?_
  refine (ends_set _).andThen fun _ => ?_
  exact refuses_ofExcept (fun e => e.kind_mem_ofReading) _

end Preparing

namespace Engine
variable {σ α β : Type} (e : Engine σ) (s : EngineState σ)

open Preparing in
theorem refuses_prepareQuery (docType : String) (q : QueryRequest) :
    Refuses (e.prepareQuery docType q) := by
  refine (refuses_ofSchema _).andThen fun t => ?_
  refine (refuses_record _).andThen fun _ => ?_
  refine (refuses_ofSchema _).andThen fun status => ?_
  refine (refuses_predicate _ _ _).andThen fun predicate => ?_
  refine (refuses_plan _ _ _).andThen fun plan => ?_
  refine (refuses_ofExcept (fun _ => ?_) _).andThen fun window => ?_
  · simp [Error.kind, ErrorKind.ofReading]
  refine (refuses_ofSchema _).andThen fun _ => ?_
  exact (refuses_ofSchema _).andThen fun projection => ends_pure trivial

open Preparing in
theorem refuses_prepareCount (docType : String) (filters : Option Filter)
    (status : Option Status) : Refuses (e.prepareCount docType filters status) := by
  refine (refuses_ofSchema _).andThen fun t => ?_
  refine (refuses_ofSchema _).andThen fun status => ?_
  exact (refuses_predicate _ _ _).andThen fun predicate => ends_pure trivial

/-! ## Reading -/

/-- A call that is refused while it is prepared has only metrics in its log. -/
theorem untouched_reading {prepare : Preparing α} {run : α → StoreCall β} {err : Error} {desk : Desk}
    (h : prepare.run.run { cache := s.cache } = (.error err, desk)) (now : Nat) :
    (e.reading s now prepare run).Untouched s := by
  have hlog : (e.reading s now prepare run).log =
      desk.metrics.map (fun m => ⟨now, .metric m⟩) := by
    change (e.reading s now prepare run).progress.log = _
    unfold reading
    rw [h]
    change (desk.metrics.map Entry.metric).map (Stamped.mk now) ++ [] = _
    rw [List.append_nil, List.map_map]
    rfl
  refine ⟨?_, ?_⟩
  · rw [hlog, Log.started, List.filterMap_map, List.filterMap_eq_nil_iff]
    exact fun _ _ => rfl
  · have hserved : (e.reading s now prepare run).log.served = [] := by
      rw [hlog, Log.served, List.filterMap_map, List.filterMap_eq_nil_iff]
      exact fun _ _ => rfl
    change (e.reading s now prepare run).log.served.foldl e.store.note s.store = s.store
    rw [hserved]
    rfl

/-- After the preparation, a read has nothing left that it could refuse. -/
theorem refusesFirst_reading {prepare : Preparing α} (hprepare : prepare.Refuses)
    (run : α → StoreCall β) (now : Nat) :
    (e.reading s now prepare run).RefusesFirst s ErrorKind.ofReading fun _ _ => False := by
  refine Answer.refusesFirst_of_error fun err herr => ?_
  rcases hrun : prepare.run.run { cache := s.cache } with ⟨err' | a, desk⟩
  · have herr' : (e.reading s now prepare run).outcome = .error err' := by
      change (e.reading s now prepare run).progress.outcome = _
      unfold reading
      rw [hrun]
      rfl
    obtain rfl : err' = err := Except.error.inj (herr'.symm.trans herr)
    exact .inl ⟨hprepare.fails _ err' (by rw [hrun]), e.untouched_reading s hrun now⟩
  · have houtcome : (e.reading s now prepare run).outcome =
        (run a now).outcome.mapError Interruption.error := by
      change (e.reading s now prepare run).progress.outcome = _
      unfold reading
      rw [hrun]
      rfl
    rw [houtcome] at herr
    cases hlate : (run a now).outcome with
    | ok b =>
      rw [hlate] at herr
      exact absurd herr (by rintro ⟨⟩)
    | error i =>
      rw [hlate] at herr
      obtain rfl : i.error = err := Except.error.inj herr
      refine .inr ⟨?_, .inl i.isInterruption⟩
      cases i <;> exact of_decide_eq_false rfl

theorem refusesFirst_query (docType : String) (q : QueryRequest) (token : CancelToken) (now : Nat) :
    (e.query s docType q token now).RefusesFirst s ErrorKind.ofReading fun _ _ => False :=
  e.refusesFirst_reading s (e.refuses_prepareQuery docType q) _ now

theorem refusesFirst_findFirst (docType : String) (q : QueryRequest) (token : CancelToken)
    (now : Nat) : (e.findFirst s docType q token now).RefusesFirst s ErrorKind.ofReading fun _ _ => False :=
  (e.refusesFirst_query s docType _ token now).map _

theorem refusesFirst_count (docType : String) (filters : Option Filter) (status : Option Status)
    (token : CancelToken) (now : Nat) :
    (e.count s docType filters status token now).RefusesFirst s ErrorKind.ofReading fun _ _ => False :=
  e.refusesFirst_reading s (e.refuses_prepareCount docType filters status) _ now

/-! ## Writing -/

/-- Hooks failed after a write that the store carried out. -/
def FailsAfterWrite (docType : String) (log : Log) (err : Error) : Prop :=
  ∃ (f : AfterHookError) (op : WriteOp) (state : σ),
    err = .afterHook f ∧ log.served = [.write docType op] ∧
      e.store.write s.store docType op = (.ok f.result, state)

end Engine

namespace Mutator
variable {σ : Type} {m : Mutator σ} {docType : String} {action : Action} {params : MutationParams}
  {now : Nat} {entries : List Entry}

/-- A run that fails was refused before its write was started, or was interrupted. -/
theorem Course.refused_or_interrupted {err : Error}
    (h : Course m docType action params now entries (.error err)) :
    (err.kind ∈ ErrorKind.ofWriting ∧ entries.filterMap Entry.started? = []) ∨
      ∃ i : Interruption, err = i.error := by
  cases h with
  | refused x h => exact .inl ⟨by simp [Error.kind, ErrorKind.ofWriting], rfl⟩
  | late t c h hc => exact .inr ⟨.cancelled c, rfl⟩
  | aborted t calls a left h hc hb =>
    refine .inl ⟨by simp [Error.kind, ErrorKind.ofWriting], ?_⟩
    rw [started_opening]
    rfl
  | invalid t calls left x h hc hb hx =>
    refine .inl ⟨by simp [Error.kind, ErrorKind.ofWriting], ?_⟩
    rw [started_opening]
    rfl
  | unwritten t calls left event op n entries i h hc hb hp hw => exact .inr ⟨i, rfl⟩

/-- A run that succeeds has carried out its write, and its result is that of the write. -/
theorem Course.served_of_ok {c : Commit σ}
    (h : Course m docType action params now entries (.ok c)) :
    ∃ op, entries.filterMap Entry.served? = [.write docType op] ∧
      m.store.write m.state docType op = (.ok c.event.result, c.state) := by
  cases h with
  | committed t calls left event op n written result state h hc hb hp hw =>
    refine ⟨op, ?_, ?_⟩
    · have hafter := filterMap_committing (f := Entry.served?) docType action (fun _ _ => rfl)
        (fun _ => rfl) (m.hooks.afterHooks docType action) (Mutator.written event result)
      rw [served_opening, List.filterMap_append, hafter]
      cases hw with
      | served result state hwrite => rfl
    · cases hw with
      | served result state hwrite => exact hwrite

end Mutator

namespace Engine
variable {σ : Type} (e : Engine σ) (s : EngineState σ)

theorem refusesFirst_mutate (docType : String) (action : Action) (params : MutationParams)
    (token : CancelToken) (now : Nat) :
    (e.mutate s docType action params token now).RefusesFirst s ErrorKind.ofWriting
      (e.FailsAfterWrite s docType) := by
  obtain ⟨entries, finish, x, hcourse, hdoes⟩ :=
    (e.mutator s token now).course_run docType action params now
  let p := (e.mutator s token now).run docType action params now
  have hentries : p.log.map (·.entry) = entries := hdoes.entries
  refine Answer.refusesFirst_of_error fun err herr => ?_
  cases x with
  | error err' =>
    have ha : e.mutate s docType action params token now =
        { progress := ⟨p.log, p.finish, .error err'⟩, state := { s with
          store := e.store.noteAll (e.stateAfterError s.store p.log err') p.log } } := by
      simp only [mutate, p, hdoes.outcome]
    rw [ha] at herr ⊢
    obtain rfl : err' = err := Except.error.inj herr
    rcases hcourse.refused_or_interrupted with ⟨hkind, hstarted⟩ | ⟨i, rfl⟩
    · have hlog : Log.started p.log = [] := by rw [Log.started_eq, hentries, hstarted]
      have hserved : Log.served p.log = [] := by
        rw [Log.served_eq, hentries, hcourse.served_of_error]
      have hstate : e.stateAfterError s.store p.log err' = s.store := by
        unfold stateAfterError
        rw [hlog, hserved]
        cases err' <;> rfl
      refine .inl ⟨hkind, hlog, ?_⟩
      change (Log.served p.log).foldl e.store.note (e.stateAfterError s.store p.log err') = s.store
      rw [hserved, hstate]
      rfl
    · refine .inr ⟨?_, .inl i.isInterruption⟩
      cases i <;> exact of_decide_eq_false rfl
  | ok c =>
    have ha : e.mutate s docType action params token now =
        { progress := ⟨p.log, p.finish, c.outcome⟩, state := { s with
          store := e.store.noteAll c.state p.log
          components := c.components } } := by
      simp only [mutate, p, hdoes.outcome]
    rw [ha] at herr ⊢
    have hlate : c.outcome = .error err := herr
    unfold Commit.outcome at hlate
    by_cases hfailures : c.failures.isEmpty
    · rw [if_pos hfailures] at hlate
      exact absurd hlate (by rintro ⟨⟩)
    · rw [if_neg hfailures] at hlate
      obtain rfl := Except.error.inj hlate
      obtain ⟨op, hserved, hwrite⟩ := hcourse.served_of_ok
      refine .inr ⟨of_decide_eq_false rfl, .inr ⟨_, op, c.state, rfl, ?_, hwrite⟩⟩
      rw [← hentries, ← Log.served_eq] at hserved
      exact hserved

/-! ## All calls -/

/-- Whatever the registry, the configuration, the hooks, the token and the store: a request that is at
fault fails before the store is called, and once the store is called, only the store, the token and,
after a write was carried out, the hooks after it can make the call fail. -/
theorem faults_precede_store (e : Engine σ) (s : EngineState σ) (docType : String)
    (token : CancelToken) (now : Nat) :
    (∀ q, (e.query s docType q token now).RefusesFirst s ErrorKind.ofReading fun _ _ => False) ∧
      (∀ q, (e.findFirst s docType q token now).RefusesFirst s ErrorKind.ofReading fun _ _ => False) ∧
      (∀ id q, (e.findOne s docType id q token now).RefusesFirst s ErrorKind.ofReading fun _ _ => False) ∧
      (∀ filters status, (e.count s docType filters status token now).RefusesFirst s ErrorKind.ofReading
        fun _ _ => False) ∧
      ∀ action params, (e.mutate s docType action params token now).RefusesFirst s ErrorKind.ofWriting
        (e.FailsAfterWrite s docType) :=
  ⟨fun q => e.refusesFirst_query s docType q token now,
    fun q => e.refusesFirst_findFirst s docType q token now,
    fun _ _ => e.refusesFirst_findFirst s docType _ token now,
    fun filters status => e.refusesFirst_count s docType filters status token now,
    fun action params => e.refusesFirst_mutate s docType action params token now⟩

/-- A request for a field that articles do not have; that is the last thing to be checked. -/
def unknownFieldRequest : Answer MemoryStore (PageResult Document) :=
  query ⟨Blog.registry, MemoryStore.adapter, .empty, {}⟩ ⟨Blog.store, .empty 0, 0⟩ "article"
    { populate := .every, fields := some ["headline"] } .never 0

theorem faults_precede_store_blog :
    unknownFieldRequest.outcome = .error (.schema (.unknownField "article" "headline")) ∧
      unknownFieldRequest.Untouched ⟨Blog.store, .empty 0, 0⟩ := by
  have houtcome :
      unknownFieldRequest.outcome = .error (.schema (.unknownField "article" "headline")) := rfl
  obtain ⟨hquery, -⟩ := faults_precede_store
    (⟨Blog.registry, MemoryStore.adapter, .empty, {}⟩ : Engine MemoryStore)
    ⟨Blog.store, .empty 0, 0⟩ "article" .never 0
  exact ⟨houtcome, (hquery _).refused _ houtcome (by simp [Error.kind, ErrorKind.ofReading])⟩

end Engine
end ContentEngine
