import ContentEngine.Compare
import ContentEngine.Schema.Registry
import ContentEngine.Store.Basic

/-!
# The order of rows

Rows are compared by one sort key after the other. A field is compared in the family of its
attribute, so datetimes go by instant, and a value outside of it as it is stored. Rows that no key
tells apart keep their order.
-/

namespace ContentEngine

/-- A sort key with the kind of its field. -/
structure RowKey where
  key : SortKey
  kind : Option ScalarKind

namespace RowKey

def ofSortKey (r : Registry) (docType : String) (key : SortKey) : RowKey :=
  ⟨key, (r.get? docType).bind fun t => (t.attr? key.field).bind (·.kind.scalar?)⟩

def valueOf (k : RowKey) (d : Document) : Option Value :=
  (d.value? k.key.field).map fun v =>
    match k.kind with
    | some kind => (v.normalize? kind).getD v
    | none => v

def compare (k : RowKey) (a b : Document) : Ordering :=
  k.key.direction.apply (Value.canonicalCompare (k.valueOf a) (k.valueOf b))

end RowKey

namespace Rows

/-- The order by all keys, the first one that tells the rows apart deciding. -/
def compare : List RowKey → Document → Document → Ordering
  | [], _, _ => .eq
  | k :: ks, a, b => (k.compare a b).then (compare ks a b)

/-- Puts a row behind all rows that it is not less than, from the end of the list. The list is given
with its last row first. -/
def insertBack (ks : List RowKey) (d : Document) : List Document → List Document
  | [] => [d]
  | e :: rows => if compare ks d e = .lt then e :: insertBack ks d rows else d :: e :: rows

/-- The stable order by the keys. -/
def sort (ks : List RowKey) (rows : List Document) : List Document :=
  (rows.foldl (fun sorted d => insertBack ks d sorted) []).reverse

end Rows
end ContentEngine
