import ContentEngine.Lifecycle.Mutation
import ContentEngine.Proofs.Clock.Does
import ContentEngine.Proofs.Clock.Token
import ContentEngine.Proofs.Outcome

/-!
# The course of a mutation

`Course` lists the ways in which a mutation can go, each with all that it leaves in the log and with
how it ends. `Mutator.course_run` states that there are no others. What is proved of mutations is
proved of their courses, case by case.
-/

namespace ContentEngine

/-- `BeforeHooks hooks event calls verdict left`: the hooks are called one after the other, each on the
event that the one before it left, up to the first that rejects the mutation, and the last one leaves
`left`. -/
inductive BeforeHooks : List BeforeHook → MutationEvent → List (String × MutationEvent) →
    Except HookAbort Unit → MutationEvent → Prop
  | none (event : MutationEvent) : BeforeHooks [] event [] (.ok ()) event
  | abort (h : BeforeHook) (hs : List BeforeHook) (event : MutationEvent) (a : HookAbort)
      (left : MutationEvent) (ha : h.run event = (.error a, left)) :
      BeforeHooks (h :: hs) event [(h.name, event)] (.error a) left
  | next (h : BeforeHook) (hs : List BeforeHook) (event between : MutationEvent)
      (calls : List (String × MutationEvent)) (verdict : Except HookAbort Unit)
      (left : MutationEvent) (hok : h.run event = (.ok (), between))
      (hrest : BeforeHooks hs between calls verdict left) :
      BeforeHooks (h :: hs) event ((h.name, event) :: calls) verdict left

/-- The failures of the hooks after the write, in order. -/
def hookFailures (hooks : List AfterHook) (event : MutationEvent) : List HookFailure :=
  hooks.filterMap fun h =>
    match h.run event with
    | .error f => some f
    | .ok () => none

/-- The hooks after the write are all called on the same event. -/
def afterCalls (hooks : List AfterHook) (event : MutationEvent) : List (String × MutationEvent) :=
  hooks.map fun h => (h.name, event)

def hookEntry (call : String × MutationEvent) : Entry := .hook call.1 call.2

namespace BeforeHooks
variable {hooks : List BeforeHook} {event left : MutationEvent}
  {calls : List (String × MutationEvent)} {verdict : Except HookAbort Unit}

theorem total (hooks : List BeforeHook) (event : MutationEvent) :
    ∃ calls verdict left, BeforeHooks hooks event calls verdict left := by
  induction hooks generalizing event with
  | nil => exact ⟨[], _, _, .none event⟩
  | cons h hs ih =>
    rcases hrun : h.run event with ⟨⟨a⟩ | ⟨⟩, between⟩
    · exact ⟨_, _, _, .abort h hs event a between hrun⟩
    · obtain ⟨calls, verdict, left, hrest⟩ := ih between
      exact ⟨_, _, _, .next h hs event between calls verdict left hrun hrest⟩

/-- Lawful hooks change neither the action nor the type nor the state of an event. -/
theorem kept (h : BeforeHooks hooks event calls verdict left)
    (hlawful : ∀ hook ∈ hooks, hook.Lawful) :
    left.action = event.action ∧ left.docType = event.docType ∧ left.state = event.state := by
  have hone : ∀ {hook : BeforeHook} {before after : MutationEvent} {verdict : Except HookAbort Unit},
      hook.Lawful → hook.run before = (verdict, after) →
      after.action = before.action ∧ after.docType = before.docType ∧
        after.state = before.state := by
    intro hook before after verdict hhook hrun
    obtain ⟨params, context, hafter⟩ := hhook before
    rw [hrun] at hafter
    obtain rfl : after = { before with params := params, context := context } := hafter
    exact ⟨rfl, rfl, rfl⟩
  induction h with
  | none event => exact ⟨rfl, rfl, rfl⟩
  | abort hook hs event a left ha => exact hone (hlawful hook (List.mem_cons_self ..)) ha
  | next hook hs event between calls verdict left hok _ ih =>
    obtain ⟨haction, htype, hstate⟩ := hone (hlawful hook (List.mem_cons_self ..)) hok
    have hrest := ih fun hook' hmem => hlawful hook' (List.mem_cons_of_mem _ hmem)
    exact ⟨hrest.1.trans haction, hrest.2.1.trans htype, hrest.2.2.trans hstate⟩

end BeforeHooks

namespace Mutator
variable {σ : Type}

/-- How a write can end that starts under a token that has not fired. -/
inductive Written (m : Mutator σ) (docType : String) (op : WriteOp) :
    List Entry → Except Interruption (Option Document × σ) → Prop
  | cutOff (c : Cancelled) : Written m docType op
      [.started (.write docType op), .metric .cancelled] (.error (.cancelled c))
  | refused (e : AdapterError) (state : σ)
      (h : m.store.write m.state docType op = (.error e, state)) :
      Written m docType op [.started (.write docType op)] (.error (.adapter e))
  | served (result : Option Document) (state : σ)
      (h : m.store.write m.state docType op = (.ok result, state)) :
      Written m docType op [.started (.write docType op), .served (.write docType op)]
        (.ok (result, state))

/-- The event as the first hook gets it. -/
def opened (docType : String) (action : Action) (params : MutationParams) : MutationEvent :=
  (MutationEvent.new action docType params).advance .beforeHooksRunning

def opening (docType : String) : List Entry :=
  [.metric (.execStart .mutation docType), .advanced .pending .beforeHooksRunning]

/-- The entries of a mutation that ends before its write, with the event as the hooks have left it. -/
def closing (left : MutationEvent) (reports : List Entry) : List Entry :=
  .advanced left.state .aborted ::
    .metric (.mutationFinish left.docType left.action.label false) :: reports

/-- The event as the hooks after the write get it. -/
def written (event : MutationEvent) (result : Option Document) : MutationEvent :=
  { event with result := result, state := .afterHooksRunning }

def committing (docType : String) (action : Action) (hooks : List AfterHook)
    (event : MutationEvent) : List Entry :=
  .advanced .writing .afterHooksRunning :: (afterCalls hooks event).map hookEntry ++
    (.advanced .afterHooksRunning .done :: .metric (.mutationFinish docType action.label true) ::
      afterFailures docType (hookFailures hooks event))

/-- `Course m docType action params now entries x`: a mutation that is started can leave the entries
in its log and end with `x`. -/
inductive Course (m : Mutator σ) (docType : String) (action : Action) (params : MutationParams)
    (now : Nat) : List Entry → Except Error (Commit σ) → Prop
  | refused (x : SchemaError) (h : m.precheck docType action params = .error x) :
      Course m docType action params now [] (.error (.schema x))
  | late (t : DocumentType) (c : Cancelled) (h : m.precheck docType action params = .ok t)
      (hc : m.token.check now = .error c) :
      Course m docType action params now [] (.error (.cancelled c))
  | aborted (t : DocumentType) (calls : List (String × MutationEvent)) (a : HookAbort)
      (left : MutationEvent) (h : m.precheck docType action params = .ok t)
      (hc : m.token.check now = .ok ())
      (hb : BeforeHooks (m.hooks.beforeHooks docType action) (opened docType action params) calls
        (.error a) left) :
      Course m docType action params now
        (opening docType ++ calls.map hookEntry ++ closing left [.metric (.hookAbort docType)])
        (.error (.hookAbort a))
  | invalid (t : DocumentType) (calls : List (String × MutationEvent)) (left : MutationEvent)
      (x : SchemaError) (h : m.precheck docType action params = .ok t)
      (hc : m.token.check now = .ok ())
      (hb : BeforeHooks (m.hooks.beforeHooks docType action) (opened docType action params) calls
        (.ok ()) left)
      (hx : left.prepare m.registry docType t action m.components = .error x) :
      Course m docType action params now
        (opening docType ++ calls.map hookEntry ++ closing left []) (.error (.schema x))
  | unwritten (t : DocumentType) (calls : List (String × MutationEvent))
      (left event : MutationEvent) (op : WriteOp) (n : Nat) (entries : List Entry)
      (i : Interruption) (h : m.precheck docType action params = .ok t)
      (hc : m.token.check now = .ok ())
      (hb : BeforeHooks (m.hooks.beforeHooks docType action) (opened docType action params) calls
        (.ok ()) left)
      (hp : left.prepare m.registry docType t action m.components = .ok (event, op, n))
      (hw : Written m docType op entries (.error i)) :
      Course m docType action params now
        (opening docType ++ calls.map hookEntry ++ (.advanced left.state .writing :: entries))
        (.error i.error)
  | committed (t : DocumentType) (calls : List (String × MutationEvent))
      (left event : MutationEvent) (op : WriteOp) (n : Nat) (entries : List Entry)
      (result : Option Document) (state : σ) (h : m.precheck docType action params = .ok t)
      (hc : m.token.check now = .ok ())
      (hb : BeforeHooks (m.hooks.beforeHooks docType action) (opened docType action params) calls
        (.ok ()) left)
      (hp : left.prepare m.registry docType t action m.components = .ok (event, op, n))
      (hw : Written m docType op entries (.ok (result, state))) :
      Course m docType action params now
        (opening docType ++ calls.map hookEntry ++
          (.advanced left.state .writing :: entries ++
            committing docType action (m.hooks.afterHooks docType action) (written event result)))
        (.ok ⟨docType, action, (written event result).advance .done,
          hookFailures (m.hooks.afterHooks docType action) (written event result), state, n⟩)

end Mutator

/-! ## The parts of a run -/

namespace MutationEvent
open Call

theorem does_enter (e : MutationEvent) (next : MutationState) (t : Nat) :
    (e.enter next).Does t [.advanced e.state next] t (.ok (e.advance next)) :=
  (does_record _ t).bind (does_succeed _ t)

theorem does_abort {α : Type} (e : MutationEvent) (reports : List Entry) (cause : Error)
    (t : Nat) :
    (e.abort reports cause : EngineCall α).Does t
      (Mutator.closing e reports) t (.error cause) :=
  ((does_enter e .aborted t).bind ((does_recordAll _ t).bind (does_fail cause t))).cast
    (by rw [List.append_nil]; rfl)

variable {hooks : List BeforeHook} {e left : MutationEvent}
  {calls : List (String × MutationEvent)} {verdict : Except HookAbort Unit}

/-- What is left in the log when a hook before the write rejects the mutation. -/
def rejection (docType : String) (left : MutationEvent) : Except HookAbort Unit → List Entry
  | .ok () => []
  | .error _ => Mutator.closing left [.metric (.hookAbort docType)]

theorem does_runBefore (docType : String) (h : BeforeHooks hooks e calls verdict left) (t : Nat) :
    (runBefore docType hooks e).Does t (calls.map hookEntry ++ rejection docType left verdict) t
      ((verdict.map fun _ => left).mapError Error.hookAbort) := by
  induction h with
  | none event => exact does_succeed event t
  | abort h hs event a left ha =>
    refine (does_record _ t).bind ?_
    simp only [ha]
    exact does_abort left _ _ t
  | next h hs event between calls verdict left hok _ ih =>
    refine (does_record _ t).bind ?_
    simp only [hok]
    exact ih

theorem does_runAfter (hooks : List AfterHook) (e : MutationEvent) (t : Nat) :
    (runAfter hooks e).Does t ((afterCalls hooks e).map hookEntry) t
      (.ok (hookFailures hooks e)) := by
  induction hooks with
  | nil => exact does_succeed _ t
  | cons h hs ih =>
    refine (does_record _ t).bind ((ih.bind ?_).cast (List.append_nil _))
    have hfailures : hookFailures (h :: hs) e =
        (match h.run e with | .error f => [f] | .ok () => []) ++ hookFailures hs e := by
      unfold hookFailures
      rw [List.filterMap_cons]
      cases h.run e <;> rfl
    rw [hfailures]
    cases h.run e with
    | error f => exact does_succeed _ t
    | ok u => exact does_succeed _ t

end MutationEvent

namespace Mutator
open Call
variable {σ : Type} {m : Mutator σ} {docType : String} {op : WriteOp} {now : Nat}

theorem does_write (m : Mutator σ) (docType : String) (op : WriteOp) {now : Nat}
    (hc : m.token.check now = .ok ()) :
    ∃ entries finish x, Written m docType op entries x ∧
      (m.write docType op).Does now entries finish x := by
  obtain ⟨result, state, hwrite⟩ : ∃ result state, m.store.write m.state docType op = (result, state) :=
    ⟨_, _, rfl⟩
  let call := StoreCall.ofStore (m.store.delay m.state) (.write docType op) (result.map (·, state))
  have hrun : m.write docType op =
      StoreCall.observed (m.token.run Interruption.cancelled call) := by
    unfold write
    rw [hwrite]
  rw [hrun]
  cases hfire : m.token.firesBy (call now).finish with
  | some fired =>
    obtain ⟨time, c⟩ := fired
    obtain ⟨hlt, hle⟩ := CancelToken.firesBy_bounds hc hfire
    have hcut : m.token.run Interruption.cancelled call now =
        ⟨[⟨now, .started (.write docType op)⟩], time, .error (.cancelled c)⟩ := by
      simp only [CancelToken.run, hc, hfire]
      cases result with
      | error e => simp [call, StoreCall.ofStore, Except.map, Progress.logUntil, hlt]
      | ok result =>
        have hend : ¬ now + Clock.ofMillis (m.store.delay m.state) < time := Nat.not_lt.2 hle
        simp [call, StoreCall.ofStore, Except.map, Progress.logUntil, hlt, hend]
    have hdoes : (m.token.run Interruption.cancelled call).Does now
        [.started (.write docType op)] time (.error (.cancelled c)) :=
      ⟨by rw [hcut]; rfl, by rw [hcut], by rw [hcut]⟩
    exact ⟨_, time, _, .cutOff c, StoreCall.does_observed hdoes⟩
  | none =>
    cases result with
    | error e =>
      have hdoes : call.Does now _ _ _ := StoreCall.does_ofStore_error _ _ e now
      exact ⟨_, _, _, .refused e state hwrite,
        (StoreCall.does_observed (CancelToken.does_run hc hfire hdoes)).cast rfl⟩
    | ok result =>
      have hdoes := StoreCall.does_ofStore (m.store.delay m.state) (.write docType op)
        (result, state) now
      exact ⟨_, _, _, .served result state hwrite,
        (StoreCall.does_observed (CancelToken.does_run hc hfire hdoes)).cast rfl⟩

theorem does_checkToken (m : Mutator σ) (now : Nat) :
    m.checkToken.Does now [] now ((m.token.check now).mapError .cancelled) := by
  have h : (ofExcept ((m.token.check now).mapError Error.cancelled) : EngineCall Unit).Does now []
      now _ := does_ofExcept _ now
  exact ⟨h.entries, h.finish, h.outcome⟩

theorem kept_coerce {r : Registry} {t : DocumentType} {action : Action} {n n' : Nat}
    {left event : MutationEvent} (h : left.coerce r t action n = .ok (event, n')) :
    event.state = left.state := by
  unfold MutationEvent.coerce at h
  by_cases hdata : action.carriesData
  · rw [if_pos hdata] at h
    obtain ⟨_, -, h⟩ := Except.bind_eq_ok_iff.1 h
    obtain ⟨_, -, h⟩ := Except.bind_eq_ok_iff.1 h
    obtain ⟨rfl, -⟩ := Prod.mk.inj (Except.ok.inj h)
    rfl
  · rw [if_neg hdata] at h
    obtain ⟨rfl, -⟩ := Prod.mk.inj (Except.ok.inj h)
    rfl

theorem prepare_eq_ok_iff {r : Registry} {docType : String} {t : DocumentType} {action : Action}
    {n n' : Nat} {left event : MutationEvent} :
    left.prepare r docType t action n = .ok (event, op, n') ↔
      left.coerce r t action n = .ok (event, n') ∧ event.writeOp? = some op := by
  unfold MutationEvent.prepare
  rw [Except.bind_eq_ok_iff]
  constructor
  · rintro ⟨⟨event', n''⟩, hcoerce, h⟩
    simp only at h
    cases hop : event'.writeOp? with
    | none => simp [hop] at h
    | some op' =>
      simp only [hop] at h
      obtain ⟨rfl, rfl, rfl⟩ : event' = event ∧ op' = op ∧ n'' = n' := by
        simpa [Prod.ext_iff] using Except.ok.inj h
      exact ⟨hcoerce, hop⟩
  · rintro ⟨hcoerce, hop⟩
    refine ⟨(event, n'), hcoerce, ?_⟩
    simp only [hop]
    rfl

theorem does_commit_invalid {action : Action} {t : DocumentType} {left : MutationEvent}
    {x : SchemaError} (hx : left.prepare m.registry docType t action m.components = .error x) :
    (m.commit docType action t left).Does now (closing left []) now (.error (.schema x)) := by
  unfold commit
  rw [hx]
  exact MutationEvent.does_abort left [] (.schema x) now

theorem does_commit_unwritten {action : Action} {t : DocumentType} {left event : MutationEvent}
    {n finish : Nat} {entries : List Entry} {i : Interruption}
    (hp : left.prepare m.registry docType t action m.components = .ok (event, op, n))
    (hwrite : (m.write docType op).Does now entries finish (.error i)) :
    (m.commit docType action t left).Does now (.advanced left.state .writing :: entries)
      finish (.error i.error) := by
  have hstate : event.state = left.state := kept_coerce (prepare_eq_ok_iff.1 hp).1
  unfold commit
  rw [hp]
  refine Does.cast ((MutationEvent.does_enter event .writing now).bind
    (hwrite.mapError _).bind_error) ?_
  rw [hstate]
  rfl

theorem does_commit {action : Action} {t : DocumentType} {left event : MutationEvent}
    {n finish : Nat} {entries : List Entry} {result : Option Document} {state : σ}
    (hp : left.prepare m.registry docType t action m.components = .ok (event, op, n))
    (hwrite : (m.write docType op).Does now entries finish (.ok (result, state))) :
    let after := m.hooks.afterHooks docType action
    (m.commit docType action t left).Does now
      (.advanced left.state .writing :: entries ++
        committing docType action after (written event result))
      finish
      (.ok ⟨docType, action, (written event result).advance .done,
        hookFailures after (written event result), state, n⟩) := by
  intro after
  have hstate : event.state = left.state := kept_coerce (prepare_eq_ok_iff.1 hp).1
  unfold commit
  rw [hp]
  refine Does.cast ((MutationEvent.does_enter event .writing now).bind
    ((hwrite.mapError _).bind ((MutationEvent.does_enter _ _ finish).bind
      ((MutationEvent.does_runAfter _ _ finish).bind
        ((MutationEvent.does_enter _ _ finish).bind
          ((does_recordAll _ finish).bind (does_succeed _ finish))))))) ?_
  simp only [hstate, List.append_nil, List.cons_append, List.nil_append]
  rfl

/-- A run up to the end of the hooks before the write. -/
theorem does_run {action : Action} {params : MutationParams} {t : DocumentType}
    {calls : List (String × MutationEvent)} {left : MutationEvent} {entries : List Entry}
    {finish : Nat} {x : Except Error (Commit σ)}
    (hpre : m.precheck docType action params = .ok t) (hcheck : m.token.check now = .ok ())
    (hbefore : BeforeHooks (m.hooks.beforeHooks docType action) (opened docType action params)
      calls (.ok ()) left)
    (hcommit : (m.commit docType action t left).Does now entries finish x) :
    (m.run docType action params).Does now (opening docType ++ calls.map hookEntry ++ entries)
      finish x := by
  have htoken := m.does_checkToken now
  rw [hcheck] at htoken
  have hhooks := MutationEvent.does_runBefore docType hbefore now
  unfold run
  rw [hpre]
  refine Does.cast ((does_ofExcept _ now).bind (htoken.bind ((does_record _ now).bind
    ((MutationEvent.does_enter _ _ now).bind (hhooks.bind hcommit))))) ?_
  simp only [opening, List.nil_append, List.cons_append, MutationEvent.rejection, List.append_nil]
  rfl

theorem course_run (m : Mutator σ) (docType : String) (action : Action) (params : MutationParams)
    (now : Nat) :
    ∃ entries finish x, Course m docType action params now entries x ∧
      (m.run docType action params).Does now entries finish x := by
  cases hpre : m.precheck docType action params with
  | error x =>
    refine ⟨_, now, _, .refused x hpre, ?_⟩
    unfold run
    rw [hpre]
    exact (does_ofExcept _ now).bind_error
  | ok t =>
    have htoken := m.does_checkToken now
    cases hcheck : m.token.check now with
    | error c =>
      rw [hcheck] at htoken
      refine ⟨_, now, _, .late t c hpre hcheck, ?_⟩
      unfold run
      rw [hpre]
      exact (does_ofExcept _ now).bind htoken.bind_error
    | ok u =>
      rw [hcheck] at htoken
      obtain ⟨calls, verdict, left, hbefore⟩ := BeforeHooks.total
        (m.hooks.beforeHooks docType action) (opened docType action params)
      cases verdict with
      | error a =>
        have hhooks := MutationEvent.does_runBefore docType hbefore now
        refine ⟨_, now, _, .aborted t calls a left hpre hcheck hbefore, ?_⟩
        unfold run
        rw [hpre]
        refine Does.cast ((does_ofExcept _ now).bind (htoken.bind ((does_record _ now).bind
          ((MutationEvent.does_enter _ _ now).bind hhooks.bind_error)))) ?_
        simp only [opening, List.nil_append, List.cons_append]
        rfl
      | ok u =>
        cases hprepare : left.prepare m.registry docType t action m.components with
        | error x =>
          exact ⟨_, now, _, .invalid t calls left x hpre hcheck hbefore hprepare,
            does_run hpre hcheck hbefore (does_commit_invalid hprepare)⟩
        | ok ready =>
          obtain ⟨event, op, n⟩ := ready
          obtain ⟨entries, finish, x, hwritten, hwrite⟩ := m.does_write docType op hcheck
          cases x with
          | error i =>
            exact ⟨_, finish, _, .unwritten t calls left event op n entries i hpre hcheck hbefore
              hprepare hwritten, does_run hpre hcheck hbefore
              (does_commit_unwritten hprepare hwrite)⟩
          | ok out =>
            obtain ⟨result, state⟩ := out
            exact ⟨_, finish, _, .committed t calls left event op n entries result state hpre hcheck
              hbefore hprepare hwritten, does_run hpre hcheck hbefore
              (does_commit hprepare hwrite)⟩

end Mutator
end ContentEngine
