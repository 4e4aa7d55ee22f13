import ContentEngine.Clock.Log
import ContentEngine.Lifecycle.Coercion

/-!
# Running a mutation

A mutation passes its preconditions, the hooks before the write, the coercion of what those left, the
write, and the hooks after it. `Mutator.run` fails if nothing was written. Otherwise it gives a
`Commit`: the event with the result of the write, the new state of the store, and what the later hooks
complained about, which all run and undo nothing.

The type and the action are those that the caller asks for, also for what is checked, even if a hook
leaves an event of another action. What is written is up to the event.
-/

namespace ContentEngine

structure Commit (σ : Type) where
  docType : String
  action : Action
  event : MutationEvent
  failures : List HookFailure
  state : σ
  /-- The number for the next component. -/
  components : Nat

/-- What the caller gets to see of a write. -/
def Commit.outcome {σ : Type} (c : Commit σ) : Except Error (Option Document) :=
  if c.failures.isEmpty then .ok c.event.result
  else .error (.afterHook ⟨c.docType, c.action, c.event.result, c.failures⟩)

abbrev EngineCall := Call Entry Error

namespace MutationEvent
variable {α : Type}

def enter (e : MutationEvent) (next : MutationState) : EngineCall MutationEvent := do
  Call.record (.advanced e.state next)
  return e.advance next

def finishEntry (docType : String) (action : Action) (committed : Bool) : Entry :=
  .metric (.mutationFinish docType action.label committed)

/-- Ends a mutation before its write. -/
def abort (e : MutationEvent) (reports : List Entry) (cause : Error) : EngineCall α := do
  let e ← e.enter .aborted
  Call.recordAll (finishEntry e.docType e.action false :: reports)
  Call.fail cause

/-- Runs the hooks before the write, each on the event that the one before it left, until one of them
rejects the mutation. -/
def runBefore (docType : String) : List BeforeHook → MutationEvent → EngineCall MutationEvent
  | [], e => Call.succeed e
  | h :: hs, e => do
    Call.record (.hook h.name e)
    match h.run e with
    | (.error a, left) => left.abort [.metric (.hookAbort docType)] (.hookAbort a)
    | (.ok (), left) => runBefore docType hs left

/-- Runs all hooks after the write on the same event, and collects their failures. -/
def runAfter : List AfterHook → MutationEvent → EngineCall (List HookFailure)
  | [], _ => Call.succeed []
  | h :: hs, e => do
    Call.record (.hook h.name e)
    let failures ← runAfter hs e
    match h.run e with
    | .error f => return f :: failures
    | .ok () => return failures

def missingId (docType : String) : SchemaError := .missingField docType documentIdName

/-- The event with its data coerced for an action, and the next component's number. -/
def coerce (r : Registry) (t : DocumentType) (action : Action) (components : Nat)
    (e : MutationEvent) : Except SchemaError (MutationEvent × Nat) :=
  if action.carriesData then do
    let _ ← t.resolveStatus e.params.status
    let (data, components) ←
      (Coercion.document r t e.params.data (action == .create)).run components
    return ({ e with params := { e.params with data := data } }, components)
  else .ok (e, components)

/-- What the hooks left, ready to be written. -/
def prepare (r : Registry) (docType : String) (t : DocumentType) (action : Action)
    (components : Nat) (e : MutationEvent) : Except SchemaError (MutationEvent × WriteOp × Nat) := do
  let (e, components) ← e.coerce r t action components
  match e.writeOp? with
  | some op => return (e, op, components)
  | none => .error (missingId docType)

end MutationEvent

/-- What a mutation runs against. -/
structure Mutator (σ : Type) where
  registry : Registry
  hooks : HookRegistry
  store : DocumentStore σ
  state : σ
  token : CancelToken
  components : Nat

namespace Mutator
variable {σ : Type}

/-- The preconditions on the caller's input. -/
def precheck (m : Mutator σ) (docType : String) (action : Action) (params : MutationParams) :
    Except SchemaError DocumentType := do
  let t ← m.registry.collection docType
  if action.requiresDrafts && !t.draftAndPublish then .error (.draftPublishDisabled docType)
  else
    if action.carriesData then
      let _ ← t.resolveStatus params.status
    if action != .create && params.documentId.isNone then
      .error (MutationEvent.missingId docType)
    else .ok t

/-- Refuses to start under a token that has fired. -/
def checkToken (m : Mutator σ) : EngineCall Unit := fun now =>
  Call.ofExcept ((m.token.check now).mapError .cancelled) now

/-- The write, with the state of the store after it. -/
def write (m : Mutator σ) (docType : String) (op : WriteOp) : StoreCall (Option Document × σ) :=
  let (result, state) := m.store.write m.state docType op
  StoreCall.observed (m.token.run Interruption.cancelled
    (StoreCall.ofStore (m.store.delay m.state) (.write docType op) (result.map (·, state))))

def afterFailures (docType : String) (failures : List HookFailure) : List Entry :=
  if failures.isEmpty then []
  else [.metric (.afterHookFailure docType (UInt64.ofNat failures.length))]

/-- What follows once the hooks before the write are through. -/
def commit (m : Mutator σ) (docType : String) (action : Action) (t : DocumentType)
    (left : MutationEvent) : EngineCall (Commit σ) :=
  match left.prepare m.registry docType t action m.components with
  | .error e => left.abort [] (.schema e)
  | .ok (event, op, components) => do
    let event ← event.enter .writing
    let (result, state) ← (m.write docType op).mapError Interruption.error
    let event ← { event with result := result }.enter .afterHooksRunning
    let failures ← event.runAfter (m.hooks.afterHooks docType action)
    let event ← event.enter .done
    Call.recordAll (MutationEvent.finishEntry docType action true :: afterFailures docType failures)
    return ⟨docType, action, event, failures, state, components⟩

def run (m : Mutator σ) (docType : String) (action : Action) (params : MutationParams) :
    EngineCall (Commit σ) := do
  let t ← Call.ofExcept ((m.precheck docType action params).mapError .schema)
  m.checkToken
  Call.record (.metric (.execStart .mutation docType))
  let event ← (MutationEvent.new action docType params).enter .beforeHooksRunning
  let left ← event.runBefore docType (m.hooks.beforeHooks docType action)
  m.commit docType action t left

end Mutator
end ContentEngine
