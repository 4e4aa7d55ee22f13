import ContentEngine.Clock.Call
import ContentEngine.Error
import ContentEngine.Metrics

/-!
# The log of an engine

What the calls of an engine leave in their log: metrics, the calls of the store that were started
and those that were served, the hooks with the event that each of them saw, and the state changes of
mutations.
-/

namespace ContentEngine

inductive Entry where
  | metric (event : MetricsEvent)
  | started (call : AdapterCall)
  | served (call : AdapterCall)
  | hook (name : String) (event : MutationEvent)
  | advanced (state next : MutationState)

namespace Entry

def metric? : Entry → Option MetricsEvent
  | .metric e => some e
  | _ => none

def served? : Entry → Option AdapterCall
  | .served c => some c
  | _ => none

def started? : Entry → Option AdapterCall
  | .started c => some c
  | _ => none

def hook? : Entry → Option (String × MutationEvent)
  | .hook name e => some (name, e)
  | _ => none

end Entry

abbrev Log := List (Stamped Entry)

namespace Log

def metrics (l : Log) : List MetricsEvent := l.filterMap (·.entry.metric?)

def served (l : Log) : List AdapterCall := l.filterMap (·.entry.served?)

def started (l : Log) : List AdapterCall := l.filterMap (·.entry.started?)

def hooks (l : Log) : List (String × MutationEvent) := l.filterMap (·.entry.hook?)

end Log

/-- Why reading or writing stops once the request itself is known to be good. -/
inductive Interruption where
  | adapter (e : AdapterError)
  | cancelled (e : Cancelled)
deriving DecidableEq, Repr

def Interruption.error : Interruption → Error
  | .adapter e => .adapter e
  | .cancelled e => .cancelled e

/-- The event that reports a cancellation. -/
def Interruption.report : Interruption → List Entry
  | .cancelled _ => [.metric .cancelled]
  | .adapter _ => []

abbrev StoreCall := Call Entry Interruption

namespace StoreCall
variable {α : Type}

/-- A call of a store: it starts, takes the store's delay in milliseconds, and is served unless it
fails. -/
def ofStore (delay : Nat) (call : AdapterCall) (result : Except AdapterError α) : StoreCall α :=
  fun t =>
    let finish := t + Clock.ofMillis delay
    match result with
    | .ok a => ⟨[⟨t, .started call⟩, ⟨finish, .served call⟩], finish, .ok a⟩
    | .error e => ⟨[⟨t, .started call⟩], finish, .error (.adapter e)⟩

/-- Reports a cancellation of the call. -/
def observed (c : StoreCall α) : StoreCall α :=
  c.afterwards fun
    | .error i => i.report
    | .ok _ => []

end StoreCall
end ContentEngine
