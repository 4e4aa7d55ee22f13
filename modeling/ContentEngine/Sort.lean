import ContentEngine.Text.Split

/-!
# Sort keys

A sort key is a field and a direction, written `field`, `field:asc` or `field:desc`.
-/

namespace ContentEngine

inductive SortDirection where
  | ascending
  | descending
deriving DecidableEq, Repr

def SortDirection.label : SortDirection → String
  | .ascending => "asc"
  | .descending => "desc"

def SortDirection.apply : SortDirection → Ordering → Ordering
  | .ascending, o => o
  | .descending, o => o.swap

structure SortKey where
  field : String
  direction : SortDirection
deriving DecidableEq, Repr

namespace SortKey

def asciiLower (s : String) : String := String.ofList (s.toList.map Char.toLower)

/-- A direction, in upper or lower case. -/
def direction? (s : String) : Option SortDirection :=
  if asciiLower s = "asc" then some .ascending
  else if asciiLower s = "desc" then some .descending
  else none

def ofField? (field : String) (direction : SortDirection) : Option SortKey :=
  if field = "" then none else some ⟨field, direction⟩

def parse? (s : String) : Option SortKey :=
  match Text.splitOnce ':' s with
  | none => ofField? s .ascending
  | some (field, d) => (direction? d).bind (ofField? field)

def render (k : SortKey) : String := k.field ++ ":" ++ k.direction.label

end SortKey
end ContentEngine
