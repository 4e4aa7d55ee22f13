import ContentEngine.Engine.Basic

/-!
# Writing

`Engine.mutate` runs one action on documents of a type with all its hooks; `create`, `update`,
`delete`, `publish` and `unpublish` name the actions.
-/

namespace ContentEngine.Engine
variable {σ : Type}

def mutator (e : Engine σ) (s : EngineState σ) (token : CancelToken) (now : Nat) : Mutator σ :=
  ⟨e.registry, e.hooks, e.store, s.store, e.tokenOf token now, s.components⟩

/-- The state of the store after a mutation that failed. A write that the store refused has left its
state; one that was cut off has not come to anything. -/
def stateAfterError (e : Engine σ) (store : σ) (log : Log) : Error → σ
  | .adapter _ => e.store.replay store log.started
  | _ => e.store.replay store log.served

def mutate (e : Engine σ) (s : EngineState σ) (docType : String) (action : Action)
    (params : MutationParams) (token : CancelToken) (now : Nat) : Answer σ (Option Document) :=
  let p := (e.mutator s token now).run docType action params now
  match p.outcome with
  | .error err =>
    { progress := ⟨p.log, p.finish, .error err⟩
      state := { s with store := e.store.noteAll (e.stateAfterError s.store p.log err) p.log } }
  | .ok c =>
    { progress := ⟨p.log, p.finish, c.outcome⟩
      state := { s with
        store := e.store.noteAll c.state p.log
        components := c.components } }

/-- Creates a document; the answer is the version that was asked for. -/
def create (e : Engine σ) (s : EngineState σ) (docType : String) (data : Entries Value)
    (status : Option Status) (token : CancelToken) (now : Nat) : Answer σ Document :=
  (e.mutate s docType .create { data := data, status := status } token now).andThen fun
    | some d => .ok d
    | none => .error (.adapter { reason := s!"create on '{docType}' returned no document" })

def update (e : Engine σ) (s : EngineState σ) (docType : String) (id : DocumentId)
    (data : Entries Value) (status : Option Status) (token : CancelToken) (now : Nat) :
    Answer σ (Option Document) :=
  e.mutate s docType .update { data := data, documentId := some id, status := status } token now

def delete (e : Engine σ) (s : EngineState σ) (docType : String) (id : DocumentId)
    (token : CancelToken) (now : Nat) : Answer σ (Option Document) :=
  e.mutate s docType .delete { documentId := some id } token now

def publish (e : Engine σ) (s : EngineState σ) (docType : String) (id : DocumentId)
    (token : CancelToken) (now : Nat) : Answer σ (Option Document) :=
  e.mutate s docType .publish { documentId := some id } token now

def unpublish (e : Engine σ) (s : EngineState σ) (docType : String) (id : DocumentId)
    (token : CancelToken) (now : Nat) : Answer σ (Option Document) :=
  e.mutate s docType .unpublish { documentId := some id } token now

end ContentEngine.Engine
