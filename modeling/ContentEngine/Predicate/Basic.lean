import ContentEngine.Filter.Basic

/-!
# Predicates

A predicate is a filter after it was checked against the schema: every path is a list of hops along
relations and a last field of known kind, and every operand is in the family of that kind.
-/

namespace ContentEngine

structure Hop where
  attr : String
  target : String
deriving DecidableEq, Repr

/-- The kind of the last field; relations and dynamic zones only have presence. -/
inductive FieldKind where
  | scalar (kind : ScalarKind)
  | relation
deriving DecidableEq, Repr

def FieldKind.label : FieldKind → String
  | .scalar kind => kind.label
  | .relation => "relation"

structure FieldPath where
  hops : List Hop
  field : String
  kind : FieldKind
deriving DecidableEq, Repr

/-- The path as it is written in a filter. -/
def FieldPath.dotted (p : FieldPath) : String :=
  ".".intercalate (p.hops.map (·.attr) ++ [p.field])

inductive Operand where
  | none
  | one (v : Value)
  | many (vs : List Value)
  | range (low high : Value)
deriving Repr, Inhabited

structure Comparison where
  path : FieldPath
  op : FilterOp
  operand : Operand
deriving Repr

inductive Predicate where
  | always
  | and (children : List Predicate)
  | or (children : List Predicate)
  | not (child : Predicate)
  | compare (c : Comparison)
deriving Repr, Inhabited

end ContentEngine
