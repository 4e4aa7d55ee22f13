import ContentEngine.Config
import ContentEngine.Lifecycle.Event

/-!
# Hooks

A hook runs before or after the write of every mutation of one type and action. A hook before the
write may change the input and the context of the event or reject the mutation; one after it only
sees the event, and its failure does not undo the write. Hooks of one phase keep the order in which
they were registered.

A hook before the write has the whole event in its hands, and nothing stops it from leaving another
one. `BeforeHook.Lawful` is what it owes.
-/

namespace ContentEngine

/-- A hook's reason to reject a mutation. -/
structure HookAbort where
  reason : String
deriving DecidableEq, Repr

def HookAbort.message (a : HookAbort) : String := s!"mutation rejected: {a.reason}"

/-- A hook's failure after the write. -/
structure HookFailure where
  reason : String
deriving DecidableEq, Repr

/-- A hook before the write: its answer, and the event as it leaves it. -/
structure BeforeHook where
  name : String
  run : MutationEvent → Except HookAbort Unit × MutationEvent

/-- Whatever it answers, the hook changes no more of an event than the input and the context. -/
def BeforeHook.Lawful (h : BeforeHook) : Prop :=
  ∀ e, ∃ params context, (h.run e).2 = { e with params := params, context := context }

structure AfterHook where
  name : String
  run : MutationEvent → Except HookFailure Unit

inductive Hook where
  | before (h : BeforeHook)
  | after (h : AfterHook)

def Hook.isBefore : Hook → Bool
  | .before _ => true
  | .after _ => false

def Hook.label : Hook → String
  | .before _ => "Hook::Before(..)"
  | .after _ => "Hook::After(..)"

structure HookPhase where
  isBefore : Bool
  action : Action
deriving DecidableEq, Repr

namespace HookPhase

def all : List HookPhase := Action.all.flatMap fun a => [⟨true, a⟩, ⟨false, a⟩]

def name (p : HookPhase) : String :=
  let action :=
    match p.action with
    | .create => "Create"
    | .update => "Update"
    | .delete => "Delete"
    | .publish => "Publish"
    | .unpublish => "Unpublish"
  (if p.isBefore then "before" else "after") ++ action

def ofName? (name : String) : Option HookPhase := all.find? (·.name = name)

end HookPhase

/-- A hook with the type and action it is for. -/
structure Bound (α : Type) where
  docType : String
  action : Action
  hook : α

namespace Bound
variable {α : Type}

/-- The hooks for a type and action, in order. -/
def select (hooks : List (Bound α)) (docType : String) (action : Action) : List α :=
  (hooks.filter fun h => h.docType = docType ∧ h.action = action).map (·.hook)

/-- How many hooks there are for each type and action that has some, in the order of both. -/
def describe (isBefore : Bool) (hooks : List (Bound α)) : List String :=
  (Names.ofList (hooks.map (·.docType))).flatMap fun docType =>
    Action.all.filterMap fun action =>
      match (select hooks docType action).length with
      | 0 => none
      | n => some (docType ++ "." ++ (HookPhase.mk isBefore action).name ++ ": " ++ toString n)

end Bound

structure HookRegistry where
  before : List (Bound BeforeHook)
  after : List (Bound AfterHook)

namespace HookRegistry

def empty : HookRegistry := ⟨[], []⟩

def beforeHooks (r : HookRegistry) (docType : String) (action : Action) : List BeforeHook :=
  Bound.select r.before docType action

def afterHooks (r : HookRegistry) (docType : String) (action : Action) : List AfterHook :=
  Bound.select r.after docType action

/-- The types with a hook. -/
def docTypes (r : HookRegistry) : Names :=
  Names.ofList (r.before.map (·.docType) ++ r.after.map (·.docType))

def size (r : HookRegistry) : Nat := r.before.length + r.after.length

/-- A hook to be registered. -/
structure Registration where
  docType : String
  phase : HookPhase
  hook : Hook

def add (r : HookRegistry) (g : Registration) : Except ConfigError HookRegistry :=
  match g.phase.isBefore, g.hook with
  | true, .before h => .ok { r with before := r.before ++ [⟨g.docType, g.phase.action, h⟩] }
  | false, .after h => .ok { r with after := r.after ++ [⟨g.docType, g.phase.action, h⟩] }
  | _, hook =>
    .error (.invalid s!"{hook.label} registered for '{g.docType}' under {g.phase.name}")

/-- The registry of some hooks; the kind of a hook has to fit its phase. -/
def build (hooks : List Registration) : Except ConfigError HookRegistry := hooks.foldlM add empty

def describe (r : HookRegistry) : String :=
  "\x7b" ++ ", ".intercalate (Bound.describe true r.before ++ Bound.describe false r.after) ++
    "\x7d"

end HookRegistry
end ContentEngine
