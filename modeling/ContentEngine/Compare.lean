import ContentEngine.Instant
import ContentEngine.Schema.Basic

/-!
# Comparing values

Filters and sorting compare values within a family: texts, numbers, booleans, and datetimes by their
milliseconds. Values of different families have no answer. `canonicalCompare` extends this to all
values for sorting: absent ones come first, and what has no answer goes by the name of its kind.
-/

namespace ContentEngine.Value

/-- A value in the family of its attribute, or nothing if it is outside of it. -/
def normalize? : ScalarKind → Value → Option Value
  | .text, .text s => some (.text s)
  | .integer, .int i => some (.int i)
  | .integer, .float x => some (.float x)
  | .float, .int i => some (.int i)
  | .float, .float x => some (.float x)
  | .boolean, .bool b => some (.bool b)
  | .datetime, .text s => (Instant.millis? s).map fun n => .int (Int64.ofInt n)
  | _, _ => none

def compareEq? (mode : TextMode) : Value → Value → Option Bool
  | .text a, .text b => textTest? .equals mode (.text a) (.text b)
  | .bool a, .bool b => some (a = b)
  | a, b => (compareNumeric? a b).map (· = .eq)

def compareOrder? : Value → Value → Option Ordering
  | .text a, .text b => some (compare a b)
  | a, b => compareNumeric? a b

/-- The order of booleans, false first. -/
def compareBool? : Value → Value → Option Ordering
  | .bool a, .bool b => some (compare a.toNat b.toNat)
  | _, _ => none

def present? (v : Option Value) : Option Value := v.filter fun v => !v.isNull

def canonicalCompare (a b : Option Value) : Ordering :=
  match present? a, present? b with
  | none, none => .eq
  | none, some _ => .lt
  | some _, none => .gt
  | some a, some b =>
    match compareOrder? a b <|> compareBool? a b with
    | some o => o
    | none => compare a.kindLabel b.kindLabel

end ContentEngine.Value
