import ContentEngine.Lifecycle.Hooks

/-!
# Edits

A hook before the write can be given as a list of edits of the caller's input, applied in order; one
of them may reject the mutation.
-/

namespace ContentEngine

inductive Edit where
  | set (field : String) (value : Value)
  /-- Writes the value of one field to another; null if there is none. -/
  | copy (source target : String)
  | remove (field : String)
  | setStatus (status : Option Status)
  | setId (id : Option DocumentId)
  /-- Leaves a note for the hooks after it. -/
  | remember (key : String) (value : Json)
  /-- Rejects input without a field. -/
  | require (field : String)
  | reject (reason : String)

namespace Edit

def editData (p : MutationParams) (f : Entries Value → Entries Value) : MutationParams :=
  { p with data := f p.data }

def apply (p : MutationParams) (context : HookContext) :
    Edit → Except HookAbort (MutationParams × HookContext)
  | .set field value => .ok (editData p (Entries.insert · field value), context)
  | .copy source target =>
    .ok (editData p fun data =>
      Entries.insert data target ((Entries.get? data source).getD .null), context)
  | .remove field => .ok (editData p (Entries.erase · field), context)
  | .setStatus status => .ok ({ p with status := status }, context)
  | .setId id => .ok ({ p with documentId := id }, context)
  | .remember key value => .ok (p, Entries.insert context key value)
  | .require field =>
    if Entries.contains p.data field then .ok (p, context)
    else .error ⟨field ++ " is missing"⟩
  | .reject reason => .error ⟨reason⟩

def applyAll (edits : List Edit) (p : MutationParams) (context : HookContext) :
    Except HookAbort (MutationParams × HookContext) :=
  edits.foldlM (fun state edit => edit.apply state.1 state.2) (p, context)

end Edit

namespace BeforeHook

def ofEdits (name : String) (edits : List Edit) : BeforeHook where
  name := name
  run e :=
    match Edit.applyAll edits e.params e.context with
    | .error a => (.error a, e)
    | .ok (params, context) => (.ok (), { e with params := params, context := context })

/-- Edits are about the caller's input and the notes. -/
theorem lawful_ofEdits (name : String) (edits : List Edit) : (ofEdits name edits).Lawful := by
  intro e
  cases h : Edit.applyAll edits e.params e.context with
  | error a => exact ⟨e.params, e.context, by simp [ofEdits, h]⟩
  | ok out => exact ⟨out.1, out.2, by simp [ofEdits, h]⟩

end BeforeHook

namespace AfterHook

/-- A hook that fails with the given reason, if there is one. -/
def ofFailure (name : String) (reason : Option String) : AfterHook :=
  ⟨name, fun _ => reason.elim (.ok ()) fun r => .error ⟨r⟩⟩

end AfterHook
end ContentEngine
