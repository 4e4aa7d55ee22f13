import ContentEngine.Clock.Token
import ContentEngine.Lifecycle.Hooks
import ContentEngine.Query

/-!
# Errors

Every error of the engine, by cause. `Error.kind` sorts them by who can do something about them.
-/

namespace ContentEngine

/-- One or more hooks failed after the write; the result stands. -/
structure AfterHookError where
  docType : String
  action : Action
  result : Option Document
  failures : List HookFailure

def AfterHookError.message (e : AfterHookError) : String :=
  s!"{e.failures.length} after-hook(s) failed for {e.action.label} on '{e.docType}' " ++
    "(write committed)"

inductive Error where
  | schema (e : SchemaError)
  | filter (e : FilterError)
  | populate (e : PopulateError)
  | page (e : PageError)
  | query (e : QueryError)
  | hookAbort (e : HookAbort)
  | afterHook (e : AfterHookError)
  | cancelled (e : Cancelled)
  | adapter (e : AdapterError)
  | config (e : ConfigError)

inductive ErrorKind where
  | schema
  | operator
  | unknownAttribute
  | range
  | hookAbort
  | afterHook
  | cancelled
  | adapter
  | config
deriving DecidableEq, Repr

namespace ErrorKind

def all : List ErrorKind :=
  [.schema, .operator, .unknownAttribute, .range, .hookAbort, .afterHook, .cancelled, .adapter,
   .config]

def label : ErrorKind → String
  | .schema => "schema"
  | .operator => "operator"
  | .unknownAttribute => "unknown_attribute"
  | .range => "range"
  | .hookAbort => "hook_abort"
  | .afterHook => "after_hook"
  | .cancelled => "cancelled"
  | .adapter => "adapter"
  | .config => "config"

/-- Whether the caller can mend the request. -/
def isCallerError : ErrorKind → Bool
  | .schema | .operator | .unknownAttribute | .range | .hookAbort => true
  | _ => false

end ErrorKind

def FilterError.kind : FilterError → ErrorKind
  | .schema _ => .schema
  | .operator _ => .operator

def PopulateError.kind : PopulateError → ErrorKind
  | .schema _ => .schema
  | .filter e => e.kind
  | _ => .unknownAttribute

def QueryError.kind : QueryError → ErrorKind
  | .malformed _ => .schema
  | .filter e => e.kind
  | .populate e => e.kind

namespace Error

def kind : Error → ErrorKind
  | .schema _ => .schema
  | .filter e => e.kind
  | .populate e => e.kind
  | .page _ => .range
  | .query e => e.kind
  | .hookAbort _ => .hookAbort
  | .afterHook _ => .afterHook
  | .cancelled _ => .cancelled
  | .adapter _ => .adapter
  | .config _ => .config

def message : Error → String
  | .schema e => e.message
  | .filter e => e.message
  | .populate e => e.message
  | .page e => e.message
  | .query e => e.message
  | .hookAbort e => e.message
  | .afterHook e => e.message
  | .cancelled e => e.message
  | .adapter e => e.message
  | .config e => e.message

def describe (e : Error) : String := e.kind.label ++ ": " ++ e.message

end Error
end ContentEngine
