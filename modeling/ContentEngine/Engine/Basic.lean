import ContentEngine.Lifecycle.Mutation
import ContentEngine.Populate.Resolve

/-!
# The engine

An engine joins a schema, a store, hooks and a configuration. What changes from call to call is its
state: the store's, the cache of predicates, and the number of the next component. Every call takes
the time at which it starts and answers with its log, the time at which it ends, its outcome, and the
state it leaves.
-/

namespace ContentEngine

structure Engine (σ : Type) where
  registry : Registry
  store : DocumentStore σ
  hooks : HookRegistry
  config : EngineConfig

structure EngineState (σ : Type) where
  store : σ
  cache : PredicateCache
  components : Nat := 0

structure Answer (σ α : Type) where
  progress : Progress Entry Error α
  state : EngineState σ

namespace Answer
variable {σ α β : Type}

def outcome (a : Answer σ α) : Except Error α := a.progress.outcome

def log (a : Answer σ α) : Log := a.progress.log

def finish (a : Answer σ α) : Nat := a.progress.finish

/-- Turns the outcome of a call into another one. -/
def andThen (a : Answer σ α) (f : α → Except Error β) : Answer σ β :=
  { progress := ⟨a.progress.log, a.progress.finish, a.progress.outcome.bind f⟩, state := a.state }

def map (f : α → β) (a : Answer σ α) : Answer σ β := a.andThen fun x => .ok (f x)

end Answer

/-- The state of a store after the calls that a log shows as served. -/
def DocumentStore.noteAll {σ : Type} (store : DocumentStore σ) (state : σ) (log : Log) : σ :=
  log.served.foldl store.note state

/-- The state of a store after the writes among some calls. -/
def DocumentStore.replay {σ : Type} (store : DocumentStore σ) (state : σ)
    (calls : List AdapterCall) : σ :=
  calls.foldl
    (fun state call =>
      match call with
      | .write docType op => (store.write state docType op).2
      | _ => state) state

namespace Engine
variable {σ : Type}

/-- Hooks are for collections that there are. -/
def checkHooks (r : Registry) (hooks : HookRegistry) : Except ConfigError Unit :=
  match hooks.docTypes.find? fun docType => (r.collection docType).toOption.isNone with
  | some docType =>
    .error (.invalid s!"lifecycle hooks registered for unknown collection type '{docType}'")
  | none => .ok ()

def build (registry : Registry) (store : DocumentStore σ) (hooks : HookRegistry)
    (config : EngineConfig) : Except ConfigError (Engine σ) := do
  config.validate
  checkHooks registry hooks
  return ⟨registry, store, hooks, config⟩

/-- The state of a new engine over a store. -/
def start (e : Engine σ) (store : σ) : EngineState σ :=
  { store := store, cache := .empty e.config.predicateCacheCapacity.toNat }

/-- The token of a call: the configured time limit can bring its deadline forward. -/
def tokenOf (e : Engine σ) (token : CancelToken) (now : Nat) : CancelToken :=
  match e.config.timeoutMs with
  | some ms => token.withTimeout now (Clock.ofMillis ms.toNat)
  | none => token

/-- A call of the store past the engine, with its result and the state of the store after it. -/
def callStore {α : Type} (e : Engine σ) (s : EngineState σ) (call : AdapterCall)
    (result : Except AdapterError α) (after : σ) (now : Nat) : Answer σ α :=
  let p := (StoreCall.ofStore (e.store.delay s.store) call result now).mapError Interruption.error
  { progress := p, state := { s with store := e.store.noteAll after p.log } }

def describe (e : Engine σ) : String :=
  "Engine \x7b types: " ++ toString e.registry.types.length ++ ", hooks: " ++ e.hooks.describe ++
    ", config: " ++ e.config.describe ++ ", .. \x7d"

end Engine
end ContentEngine
