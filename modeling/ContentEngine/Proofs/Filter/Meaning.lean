import ContentEngine.Predicate.Compile
import ContentEngine.Predicate.Eval

/-!
# The direct reading of a filter

`Filter.Selects` reads a filter tree on a document as it is written, without compiling it. A leaf
holds if a chain of documents leads along its path to one whose field satisfies the operator. The
field and the operand are read as data of the family that the schema declares: texts, numbers,
booleans, and datetimes as milliseconds.

The only leaf that does not ask for a chain is `$notIn` with an empty list, which always holds.
-/

namespace ContentEngine

inductive Number where
  | int (i : Int64)
  | float (x : Double)

namespace Number

def toDouble : Number → Double
  | .int i => Double.ofInt i.toInt
  | .float x => x

/-- Two integers are compared exactly, all other numbers as doubles. -/
def compare? : Number → Number → Option Ordering
  | .int a, .int b => some (compare a.toInt b.toInt)
  | a, b => a.toDouble.compare? b.toDouble

end Number

/-- What a value of a comparison family says. -/
inductive Datum where
  | text (s : String)
  | number (n : Number)
  | flag (b : Bool)
  | instant (millis : Int)

namespace Datum

/-- `Of kind v x`: in the family of the kind, the value says `x`. -/
inductive Of : ScalarKind → Value → Datum → Prop
  | text (s : String) : Of .text (.text s) (.text s)
  | int (kind : ScalarKind) (h : kind.isNumeric) (i : Int64) :
      Of kind (.int i) (.number (.int i))
  | float (kind : ScalarKind) (h : kind.isNumeric) (x : Double) :
      Of kind (.float x) (.number (.float x))
  | flag (b : Bool) : Of .boolean (.bool b) (.flag b)
  | instant (s : String) (millis : Int) (h : Instant.millis? s = some millis) :
      Of .datetime (.text s) (.instant millis)

/-- Booleans have no order, and a NaN has none with any number. -/
inductive Ordered : Datum → Datum → Ordering → Prop
  | text (a b : String) : Ordered (.text a) (.text b) (compare a b)
  | number (a b : Number) (o : Ordering) (h : a.compare? b = some o) :
      Ordered (.number a) (.number b) o
  | instant (a b : Int) : Ordered (.instant a) (.instant b) (compare a b)

inductive Equal (mode : Value.TextMode) : Datum → Datum → Prop
  | text (a b : String) (h : mode.apply a = mode.apply b) : Equal mode (.text a) (.text b)
  | number (a b : Number) (h : a.compare? b = some .eq) : Equal mode (.number a) (.number b)
  | flag (b : Bool) : Equal mode (.flag b) (.flag b)
  | instant (a : Int) : Equal mode (.instant a) (.instant a)

/-- Data that can be compared and are not equal. -/
inductive Differ (mode : Value.TextMode) : Datum → Datum → Prop
  | text (a b : String) (h : mode.apply a ≠ mode.apply b) : Differ mode (.text a) (.text b)
  | number (a b : Number) (o : Ordering) (h : a.compare? b = some o) (ho : o ≠ .eq) :
      Differ mode (.number a) (.number b)
  | flag (a b : Bool) (h : a ≠ b) : Differ mode (.flag a) (.flag b)
  | instant (a b : Int) (h : a ≠ b) : Differ mode (.instant a) (.instant b)

/-- `rel` holds of the characters of two texts, the operand's first. -/
inductive Texts (mode : Value.TextMode) (rel : List Char → List Char → Prop) :
    Datum → Datum → Prop
  | intro (a b : String) (h : rel (mode.apply b).toList (mode.apply a).toList) :
      Texts mode rel (.text a) (.text b)

end Datum

/-- What an operator with a single operand says about two data. -/
def FilterOp.Compares (x w : Datum) : FilterOp → Prop
  | .eq => x.Equal .caseSensitive w
  | .eqi => x.Equal .caseInsensitive w
  | .ne => x.Differ .caseSensitive w
  | .nei => x.Differ .caseInsensitive w
  | .lt => x.Ordered w .lt
  | .lte => x.Ordered w .lt ∨ x.Ordered w .eq
  | .gt => x.Ordered w .gt
  | .gte => x.Ordered w .gt ∨ x.Ordered w .eq
  | .contains => x.Texts .caseSensitive (· <:+: ·) w
  | .containsi => x.Texts .caseInsensitive (· <:+: ·) w
  | .notContains => x.Texts .caseSensitive (¬ · <:+: ·) w
  | .notContainsi => x.Texts .caseInsensitive (¬ · <:+: ·) w
  | .startsWith => x.Texts .caseSensitive (· <+: ·) w
  | .startsWithi => x.Texts .caseInsensitive (· <+: ·) w
  | .endsWith => x.Texts .caseSensitive (· <:+ ·) w
  | .endsWithi => x.Texts .caseInsensitive (· <:+ ·) w
  | _ => False

/-- The members of a membership operand; a single value stands for the list of it. -/
def Value.members : Value → List Value
  | .list items => items
  | single => [single]

/-- What an operator says about a datum and the operand as it is written. -/
def FilterOp.Satisfied (kind : ScalarKind) (x : Datum) (operand : Value) : FilterOp → Prop
  | .isIn => ∃ o ∈ operand.members, ∃ w, Datum.Of kind o w ∧ x.Equal .caseSensitive w
  | .notIn =>
    (∃ o ∈ operand.members, ∃ w, Datum.Of kind o w ∧ x.Differ .caseSensitive w) ∧
      ∀ o ∈ operand.members, ∀ w, Datum.Of kind o w → ¬ x.Equal .caseSensitive w
  | .between =>
    ∃ low high l h, operand = .list [low, high] ∧ Datum.Of kind low l ∧ Datum.Of kind high h ∧
      FilterOp.gte.Compares x l ∧ FilterOp.lte.Compares x h
  | op => ∃ w, Datum.Of kind operand w ∧ op.Compares x w

inductive Value.Absent : Option Value → Prop
  | missing : Absent none
  | null : Absent (some .null)
  | empty : Absent (some (.list []))

/-- What an operator says about a field of a declared kind. Only presence can be asked of a field
without a scalar kind. -/
def FilterOp.SatisfiedByField (kind : AttributeKind) (field : Option Value) (operand : Value) :
    FilterOp → Prop
  | .null => Value.Absent field
  | .notNull => ¬ Value.Absent field
  | op => ∃ s v x, kind = .scalar s ∧ field = some v ∧ Datum.Of s v x ∧ op.Satisfied s x operand

/-- `Leads lookup target v d`: somewhere in the lists of `v` is the document, or a reference that
the look-up answers with it. -/
inductive Value.Leads (lookup : Lookup) (target : String) : Value → Document → Prop
  | ref (id : DocumentId) (d : Document) (h : lookup target id = some d) :
      Leads lookup target (.ref id) d
  | doc (d : Document) : Leads lookup target (.doc d) d
  | item (items : List Value) (v : Value) (d : Document) (hv : v ∈ items)
      (h : Leads lookup target v d) : Leads lookup target (.list items) d

/-- A chain of documents along relations, with the declared type at both of its ends. -/
inductive Chained (r : Registry) (lookup : Lookup) :
    DocumentType → Document → List String → DocumentType → Document → Prop
  | here (t : DocumentType) (d : Document) : Chained r lookup t d [] t d
  | hop (t next u : DocumentType) (d c e : Document) (segment target : String)
      (segments : List String) (a : AttributeDefinition) (v : Value)
      (ha : t.attr? segment = some a) (htarget : a.kind.relationTarget? = some target)
      (hnext : r.get? target = some next) (hv : d.get? segment = some v)
      (hc : v.Leads lookup target c) (h : Chained r lookup next c segments u e) :
      Chained r lookup t d (segment :: segments) u e

namespace Filter
variable (r : Registry) (lookup : Lookup) (t : DocumentType) (d : Document)

def LeafSelects (path : String) (op : FilterOp) (operand : Value) : Prop :=
  (op = .notIn ∧ operand = .list []) ∨
    ∃ segments field u e a, Text.split '.' path = segments ++ [field] ∧
      Chained r lookup t d segments u e ∧ u.attr? field = some a ∧
      op.SatisfiedByField a.kind
        (if field = documentIdName then some (.text e.id) else e.get? field) operand

theorem not_leafSelects_isIn_nil (path : String) :
    ¬ LeafSelects r lookup t d path .isIn (.list []) := by
  rintro (⟨hop, -⟩ | ⟨ss, field, u, e, a, -, -, -, s, v, x, -, -, -, o, ho, -⟩)
  · cases hop
  · cases ho

theorem leafSelects_notIn_nil (path : String) :
    LeafSelects r lookup t d path .notIn (.list []) := .inl ⟨rfl, rfl⟩

mutual
def Selects : Filter → Prop
  | .leaf path op operand => LeafSelects r lookup t d path op operand
  | .and children => SelectsAll children
  | .or children => SelectsAny children
  | .not child => ¬ Selects child

def SelectsAll : List Filter → Prop
  | [] => True
  | f :: fs => Selects f ∧ SelectsAll fs

def SelectsAny : List Filter → Prop
  | [] => False
  | f :: fs => Selects f ∨ SelectsAny fs
end

theorem selectsAll_iff (fs : List Filter) :
    SelectsAll r lookup t d fs ↔ ∀ f ∈ fs, Selects r lookup t d f := by
  induction fs with
  | nil => simp [SelectsAll]
  | cons f fs ih => simp [SelectsAll, ih]

theorem selectsAny_iff (fs : List Filter) :
    SelectsAny r lookup t d fs ↔ ∃ f ∈ fs, Selects r lookup t d f := by
  induction fs with
  | nil => simp [SelectsAny]
  | cons f fs ih => simp [SelectsAny, ih]

end Filter
end ContentEngine
