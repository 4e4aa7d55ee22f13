import ContentEngine.Compare
import ContentEngine.Predicate.Basic

/-!
# Evaluating predicates

A comparison holds of a document if it holds of one of the documents that its hops reach. A
populated document is used as it stands, a bare reference goes through the look-up. A field that is
missing, null or an empty list is absent; an absent field satisfies only `$null`, and a field outside
the family of its kind satisfies no comparison, a negative one neither.
-/

namespace ContentEngine

/-- What finds the document behind a reference, by type and identifier. -/
abbrev Lookup := String → DocumentId → Option Document

/-- The look-up that finds nothing. -/
def Lookup.empty : Lookup := fun _ _ => none

namespace Value

def isAbsent : Value → Bool
  | .null => true
  | .list [] => true
  | _ => false

mutual
/-- The documents that a relation field leads to, in order. -/
def related (lookup : Lookup) (target : String) : Value → List Document
  | .ref id => (lookup target id).toList
  | .doc d => [d]
  | .list items => relatedItems lookup target items
  | .null => []
  | .bool _ => []
  | .int _ => []
  | .float _ => []
  | .text _ => []
  | .json _ => []
  | .variant _ _ => []

def relatedItems (lookup : Lookup) (target : String) : List Value → List Document
  | [] => []
  | v :: vs => related lookup target v ++ relatedItems lookup target vs
end

/-- Whether a value equals one of a list; no answer if it is comparable with none. -/
def inList? (v : Value) : List Value → Option Bool
  | [] => none
  | w :: ws =>
    match v.compareEq? .caseSensitive w with
    | some true => some true
    | some false => some ((inList? v ws).getD false)
    | none => inList? v ws

end Value

namespace Comparison

/-- The comparison of a present value in the family of the field with the operand. -/
def holdsOf (op : FilterOp) (operand : Operand) (v : Value) : Bool :=
  let order (test : Ordering → Bool) (w : Value) : Bool := (v.compareOrder? w).any test
  let text (test : Value.TextTest) (mode : Value.TextMode) (expected : Bool) (w : Value) : Bool :=
    Value.textTest? test mode v w = some expected
  match op, operand with
  | .eq, .one w => v.compareEq? .caseSensitive w = some true
  | .eqi, .one w => v.compareEq? .caseInsensitive w = some true
  | .ne, .one w => v.compareEq? .caseSensitive w = some false
  | .nei, .one w => v.compareEq? .caseInsensitive w = some false
  | .lt, .one w => order Ordering.isLT w
  | .lte, .one w => order Ordering.isLE w
  | .gt, .one w => order Ordering.isGT w
  | .gte, .one w => order Ordering.isGE w
  | .between, .range low high => order Ordering.isGE low && order Ordering.isLE high
  | .isIn, .many ws => v.inList? ws = some true
  | .notIn, .many ws => v.inList? ws = some false
  | .contains, .one w => text .contains .caseSensitive true w
  | .containsi, .one w => text .contains .caseInsensitive true w
  | .notContains, .one w => text .contains .caseSensitive false w
  | .notContainsi, .one w => text .contains .caseInsensitive false w
  | .startsWith, .one w => text .startsWith .caseSensitive true w
  | .startsWithi, .one w => text .startsWith .caseInsensitive true w
  | .endsWith, .one w => text .endsWith .caseSensitive true w
  | .endsWithi, .one w => text .endsWith .caseInsensitive true w
  | _, _ => false

/-- The comparison of a field that may be missing. -/
def holdsOfField (c : Comparison) (field : Option Value) : Bool :=
  let present := field.filter fun v => !v.isAbsent
  match c.op, c.path.kind with
  | .null, _ => present.isNone
  | .notNull, _ => present.isSome
  | _, .relation => false
  | op, .scalar kind =>
    match present.bind (·.normalize? kind) with
    | some v => holdsOf op c.operand v
    | none => false

/-- The documents at the end of the hops. -/
def reach (lookup : Lookup) : List Hop → List Document → List Document
  | [], docs => docs
  | hop :: hops, docs =>
    reach lookup hops
      (docs.flatMap fun d =>
        match d.get? hop.attr with
        | some v => v.related lookup hop.target
        | none => [])

/-- Membership in an empty list does not depend on the document. -/
def emptyMembership? (c : Comparison) : Option Bool :=
  match c.op, c.operand with
  | .isIn, .many [] => some false
  | .notIn, .many [] => some true
  | _, _ => none

def matches? (c : Comparison) (lookup : Lookup) (d : Document) : Bool :=
  match c.emptyMembership? with
  | some b => b
  | none =>
    (reach lookup c.path.hops [d]).any fun e => c.holdsOfField (e.value? c.path.field)

end Comparison

namespace Predicate

mutual
def holds (lookup : Lookup) (d : Document) : Predicate → Bool
  | .always => true
  | .and children => holdsAll lookup d children
  | .or children => holdsAny lookup d children
  | .not child => !holds lookup d child
  | .compare c => c.matches? lookup d

def holdsAll (lookup : Lookup) (d : Document) : List Predicate → Bool
  | [] => true
  | p :: ps => holds lookup d p && holdsAll lookup d ps

def holdsAny (lookup : Lookup) (d : Document) : List Predicate → Bool
  | [] => false
  | p :: ps => holds lookup d p || holdsAny lookup d ps
end

end Predicate
end ContentEngine
