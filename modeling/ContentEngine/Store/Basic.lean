import ContentEngine.Predicate.Eval
import ContentEngine.Projection
import ContentEngine.Sort

/-!
# The contract of a document store

A store answers counts, pages and fetches by reference from its state, and a write gives a new
state. Every call takes the store's delay, in milliseconds. `note` is the bookkeeping of a store
about a call that it has served.
-/

namespace ContentEngine

/-- A failure inside a store, with the text of what caused it, if anything did. -/
structure AdapterError where
  reason : String
  cause : Option String := none
deriving DecidableEq, Repr

def AdapterError.message (e : AdapterError) : String := s!"storage adapter failure: {e.reason}"

structure FetchWindow where
  start : UInt64
  limit : UInt32
  sort : List SortKey
  projection : Projection
deriving Repr

inductive WriteOp where
  /-- A new document; with draft and publish a draft, published at once if the status says so. -/
  | create (data : Entries Value) (status : Option Status)
  /-- Writes the given fields over those of a document. -/
  | update (id : DocumentId) (data : Entries Value) (status : Option Status)
  /-- Removes a document with all its versions. -/
  | delete (id : DocumentId)
  | publish (id : DocumentId)
  | unpublish (id : DocumentId)
deriving Repr

def WriteOp.label : WriteOp → String
  | .create _ _ => "create"
  | .update _ _ _ => "update"
  | .delete _ => "delete"
  | .publish _ => "publish"
  | .unpublish _ => "unpublish"

/-- A call of a store, as far as its log shows it. -/
inductive AdapterCall where
  | count (docType : String)
  | page (docType : String)
  | references (docType : String) (ids : List DocumentId)
  | write (docType : String) (op : WriteOp)
deriving Repr

structure DocumentStore (σ : Type) where
  delay : σ → Nat
  count : σ → String → Predicate → Option Status → Except AdapterError UInt64
  page : σ → String → Predicate → Option Status → FetchWindow →
    Except AdapterError (List Document)
  references : σ → String → List DocumentId → Option Predicate → Projection → Option Status →
    Except AdapterError (List Document)
  write : σ → String → WriteOp → Except AdapterError (Option Document) × σ
  note : σ → AdapterCall → σ

end ContentEngine
