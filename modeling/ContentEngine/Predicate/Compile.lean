import ContentEngine.Compare
import ContentEngine.Predicate.Basic
import ContentEngine.Schema.Registry

/-!
# Compiling filters

`Filter.compile` checks a filter against a document type. A path may only pass through relations
with one target type; the operator has to suit the kind of its last field and the operand the family
of that kind. A conjunction or disjunction needs a child.
-/

namespace ContentEngine

/-- Follows the segments of a path; the last one is the field. -/
def resolvePath (r : Registry) (t : DocumentType) :
    List String → Except SchemaError FieldPath
  | [] => .error (.unknownField t.name "")
  | [field] =>
    match t.getAttr field with
    | .error e => .error e
    | .ok a =>
      .ok ⟨[], a.name, match a.kind.scalar? with
        | some kind => .scalar kind
        | none => .relation⟩
  | segment :: segments =>
    match t.getAttr segment with
    | .error e => .error e
    | .ok a =>
      match a.kind.relationTarget? with
      | none => .error (.notTraversable t.name segment a.kind.label)
      | some target =>
        match r.get target with
        | .error e => .error e
        | .ok next =>
          match resolvePath r next segments with
          | .error e => .error e
          | .ok p => .ok { p with hops := ⟨a.name, target⟩ :: p.hops }

/-- What an operand is expected to be, in messages. -/
def ScalarKind.operandLabel : ScalarKind → String
  | .text => "text"
  | .integer => "a number"
  | .float => "a number"
  | .boolean => "a boolean"
  | .datetime => "an RFC 3339 or YYYY-MM-DD date"
  | .json => "json"

def compileOperand (kind : ScalarKind) (op : FilterOp) (field : String) (v : Value) :
    Except OperatorError Value :=
  match v.normalize? kind with
  | some w => .ok w
  | none => .error (.operandKind op field kind.operandLabel v.kindLabel)

def compileOperands (kind : ScalarKind) (op : FilterOp) (field : String) :
    List Value → Except OperatorError (List Value)
  | [] => .ok []
  | v :: vs =>
    match compileOperand kind op field v with
    | .error e => .error e
    | .ok w =>
      match compileOperands kind op field vs with
      | .error e => .error e
      | .ok ws => .ok (w :: ws)

/-- The kind by which an operator compares a field. -/
def comparisonKind (op : FilterOp) (field : String) (kind : FieldKind) :
    Except OperatorError ScalarKind :=
  match kind with
  | .relation => .error (.notSupported op field kind.label)
  | .scalar .json => .error (.notSupported op field kind.label)
  | .scalar s =>
    if op.isTextOnly ∧ s ≠ .text then .error (.notSupported op field kind.label)
    else if op.isOrdering ∧ !s.isOrderable then .error (.notSupported op field kind.label)
    else .ok s

def compileRange (kind : ScalarKind) (op : FilterOp) (field : String) (low high : Value) :
    Except OperatorError Operand :=
  match compileOperand kind op field low with
  | .error e => .error e
  | .ok low =>
    match compileOperand kind op field high with
    | .error e => .error e
    | .ok high =>
      if low.compareOrder? high = some .gt then .error (.invalidRange field)
      else .ok (.range low high)

/-- The operand in the shape that its operator asks for. -/
def compileShape (kind : ScalarKind) (op : FilterOp) (field : String) (operand : Value) :
    Except OperatorError Operand :=
  match op with
  | .isIn | .notIn =>
    let items :=
      match operand with
      | .list items => items
      | single => [single]
    (compileOperands kind op field items).map .many
  | .between =>
    match operand with
    | .list [low, high] => compileRange kind op field low high
    | other => .error (.operandKind op field "a [low, high] pair" other.kindLabel)
  | _ => (compileOperand kind op field operand).map .one

def compileLeaf (path : FieldPath) (op : FilterOp) (operand : Value) :
    Except OperatorError Comparison :=
  if op.isPresence then .ok ⟨path, op, .none⟩
  else
    match comparisonKind op path.dotted path.kind with
    | .error e => .error e
    | .ok kind => (compileShape kind op path.dotted operand).map fun o => ⟨path, op, o⟩

namespace Filter

mutual
def compile (r : Registry) (t : DocumentType) : Filter → Except FilterError Predicate
  | .and children =>
    if children.isEmpty then .error (.operator (.emptyCombinator "$and"))
    else (compileAll r t children).map .and
  | .or children =>
    if children.isEmpty then .error (.operator (.emptyCombinator "$or"))
    else (compileAll r t children).map .or
  | .not child => (compile r t child).map .not
  | .leaf path op operand =>
    match resolvePath r t (Text.split '.' path) with
    | .error e => .error (.schema e)
    | .ok p =>
      match compileLeaf p op operand with
      | .error e => .error (.operator e)
      | .ok c => .ok (.compare c)

def compileAll (r : Registry) (t : DocumentType) :
    List Filter → Except FilterError (List Predicate)
  | [] => .ok []
  | f :: fs =>
    match compile r t f with
    | .error e => .error e
    | .ok p =>
      match compileAll r t fs with
      | .error e => .error e
      | .ok ps => .ok (p :: ps)
end

end Filter
end ContentEngine
