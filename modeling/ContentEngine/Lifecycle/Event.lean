import ContentEngine.Store.Basic

/-!
# Mutation events

A mutation is an action with the caller's input. The event carries both through the hooks: those
before the write may change the input and the context, those after it see the result.
-/

namespace ContentEngine

inductive Action where
  | create
  | update
  | delete
  | publish
  | unpublish
deriving DecidableEq, Repr

namespace Action

def all : List Action := [.create, .update, .delete, .publish, .unpublish]

def label : Action → String
  | .create => "create"
  | .update => "update"
  | .delete => "delete"
  | .publish => "publish"
  | .unpublish => "unpublish"

def ofLabel? (label : String) : Option Action := all.find? (·.label = label)

def requiresDrafts : Action → Bool
  | .publish | .unpublish => true
  | _ => false

/-- Whether the action writes the input's data. -/
def carriesData : Action → Bool
  | .create | .update => true
  | _ => false

end Action

inductive MutationState where
  | pending
  | beforeHooksRunning
  | writing
  | afterHooksRunning
  | done
  | aborted
deriving DecidableEq, Repr

namespace MutationState

def all : List MutationState :=
  [.pending, .beforeHooksRunning, .writing, .afterHooksRunning, .done, .aborted]

def label : MutationState → String
  | .pending => "Pending"
  | .beforeHooksRunning => "BeforeHooksRunning"
  | .writing => "Writing"
  | .afterHooksRunning => "AfterHooksRunning"
  | .done => "Done"
  | .aborted => "Aborted"

def canBecome : MutationState → MutationState → Bool
  | .pending, .beforeHooksRunning => true
  | .beforeHooksRunning, .writing => true
  | .beforeHooksRunning, .aborted => true
  | .writing, .afterHooksRunning => true
  | .afterHooksRunning, .done => true
  | _, _ => false

def isTerminal : MutationState → Bool
  | .done | .aborted => true
  | _ => false

end MutationState

/-- The caller's input. -/
structure MutationParams where
  data : Entries Value := []
  documentId : Option DocumentId := none
  status : Option Status := none
deriving Repr

abbrev HookContext := Entries Json

structure MutationEvent where
  action : Action
  docType : String
  state : MutationState
  params : MutationParams
  result : Option Document
  /-- Notes that hooks before the write leave for those after it. -/
  context : HookContext
deriving Repr

namespace MutationEvent

def new (action : Action) (docType : String) (params : MutationParams) : MutationEvent :=
  ⟨action, docType, .pending, params, none, []⟩

def advance (e : MutationEvent) (next : MutationState) : MutationEvent := { e with state := next }

/-- The write that the input asks for, unless it lacks an identifier. -/
def writeOp? (e : MutationEvent) : Option WriteOp :=
  let p := e.params
  match e.action with
  | .create => some (.create p.data p.status)
  | .update => p.documentId.map fun id => .update id p.data p.status
  | .delete => p.documentId.map .delete
  | .publish => p.documentId.map .publish
  | .unpublish => p.documentId.map .unpublish

end MutationEvent
end ContentEngine
