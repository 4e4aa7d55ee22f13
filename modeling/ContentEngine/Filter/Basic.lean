import ContentEngine.Schema.Basic

/-!
# Filters

A filter is a tree of conditions joined by `and`, `or` and `not`. A condition compares the field at
the end of a dotted path with an operand.
-/

namespace ContentEngine

inductive FilterOp where
  | eq
  | eqi
  | ne
  | nei
  | lt
  | lte
  | gt
  | gte
  | isIn
  | notIn
  | contains
  | containsi
  | notContains
  | notContainsi
  | startsWith
  | startsWithi
  | endsWith
  | endsWithi
  | null
  | notNull
  | between
deriving DecidableEq, Repr

namespace FilterOp

def all : List FilterOp :=
  [.eq, .eqi, .ne, .nei, .lt, .lte, .gt, .gte, .isIn, .notIn, .contains, .containsi, .notContains,
   .notContainsi, .startsWith, .startsWithi, .endsWith, .endsWithi, .null, .notNull, .between]

/-- The key by which filters in JSON name the operator. -/
def key : FilterOp → String
  | .eq => "$eq"
  | .eqi => "$eqi"
  | .ne => "$ne"
  | .nei => "$nei"
  | .lt => "$lt"
  | .lte => "$lte"
  | .gt => "$gt"
  | .gte => "$gte"
  | .isIn => "$in"
  | .notIn => "$notIn"
  | .contains => "$contains"
  | .containsi => "$containsi"
  | .notContains => "$notContains"
  | .notContainsi => "$notContainsi"
  | .startsWith => "$startsWith"
  | .startsWithi => "$startsWithi"
  | .endsWith => "$endsWith"
  | .endsWithi => "$endsWithi"
  | .null => "$null"
  | .notNull => "$notNull"
  | .between => "$between"

def ofKey? (key : String) : Option FilterOp := all.find? (·.key = key)

/-- The byte that stands for the operator in the encoding of a filter. -/
def byte : FilterOp → UInt8
  | .eq => 0x01
  | .eqi => 0x02
  | .ne => 0x03
  | .nei => 0x04
  | .lt => 0x05
  | .lte => 0x06
  | .gt => 0x07
  | .gte => 0x08
  | .isIn => 0x09
  | .notIn => 0x0a
  | .contains => 0x0b
  | .containsi => 0x0c
  | .notContains => 0x0d
  | .notContainsi => 0x0e
  | .startsWith => 0x0f
  | .startsWithi => 0x10
  | .endsWith => 0x11
  | .endsWithi => 0x12
  | .null => 0x13
  | .notNull => 0x14
  | .between => 0x15

def isTextOnly : FilterOp → Bool
  | .eqi | .nei | .contains | .containsi | .notContains | .notContainsi => true
  | .startsWith | .startsWithi | .endsWith | .endsWithi => true
  | _ => false

def isOrdering : FilterOp → Bool
  | .lt | .lte | .gt | .gte | .between => true
  | _ => false

def isPresence : FilterOp → Bool
  | .null | .notNull => true
  | _ => false

theorem byte_injective {a b : FilterOp} (h : a.byte = b.byte) : a = b := by
  cases a <;> cases b <;> first | rfl | simp [byte] at h

end FilterOp

inductive Filter where
  | leaf (path : String) (op : FilterOp) (operand : Value)
  | and (children : List Filter)
  | or (children : List Filter)
  | not (child : Filter)
deriving Repr, Inhabited

/-- What is wrong with an operator, its operand, or the JSON that they are read from. -/
inductive OperatorError where
  | unknownOperator (key : String)
  | notSupported (op : FilterOp) (field kind : String)
  | operandKind (op : FilterOp) (field expected found : String)
  | invalidRange (field : String)
  | emptyCombinator (key : String)
  | malformed (reason : String)
deriving DecidableEq, Repr

def OperatorError.message : OperatorError → String
  | .unknownOperator key => s!"unknown operator '{key}'"
  | .notSupported op field kind =>
    s!"operator '{op.key}' is not supported on '{field}' ({kind})"
  | .operandKind op field expected found =>
    s!"operator '{op.key}' on '{field}' expects {expected}, found {found}"
  | .invalidRange field => s!"'$between' on '{field}' has low > high"
  | .emptyCombinator key => s!"'{key}' requires at least one condition"
  | .malformed reason => s!"malformed filter: {reason}"

inductive FilterError where
  | schema (e : SchemaError)
  | operator (e : OperatorError)
deriving DecidableEq, Repr

def FilterError.message : FilterError → String
  | .schema e => e.message
  | .operator e => e.message

end ContentEngine
