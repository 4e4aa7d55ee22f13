import ContentEngine.Json.Basic
import ContentEngine.Text.CaseFold
import ContentEngine.Text.Split

/-!
# Values and documents

A document has a type, an identifier, possibly a status, and fields by name. A field holds a value;
relations are held as references to documents elsewhere, and whole documents only where a relation
was populated or where a component is embedded.

`DocumentOf` is the shape of a document over any kind of value, so that values can contain
documents.
-/

namespace ContentEngine

inductive Status where
  | draft
  | published
deriving DecidableEq, Repr

def Status.label : Status → String
  | .draft => "draft"
  | .published => "published"

def Status.ofLabel? : String → Option Status
  | "draft" => some .draft
  | "published" => some .published
  | _ => none

abbrev DocumentId := String

structure DocumentOf (α : Type) where
  docType : String
  id : DocumentId
  status : Option Status
  fields : List (String × α)
deriving Repr, Inhabited

/-- A `variant` is an instance of a polymorphic relation or of a dynamic zone: its tag names the
shape, and its value is a reference, or the document that was populated or embedded. -/
inductive Value where
  | null
  | bool (b : Bool)
  | int (i : Int64)
  | float (x : Double)
  | text (s : String)
  | json (j : Json)
  | list (items : List Value)
  | ref (id : DocumentId)
  | doc (d : DocumentOf Value)
  | variant (tag : String) (value : Value)
deriving Repr, Inhabited

abbrev Document := DocumentOf Value

/-- The attribute that carries the identifier of a document. -/
def documentIdName : String := "documentId"

namespace Document

def new (docType : String) (id : DocumentId) : Document := ⟨docType, id, none, []⟩

def get? (d : Document) (name : String) : Option Value := Entries.get? d.fields name

/-- A field by name; the identifier counts as a field, and hides one that is stored under its
name. -/
def value? (d : Document) (name : String) : Option Value :=
  if name = documentIdName then some (.text d.id) else d.get? name

def set (d : Document) (name : String) (v : Value) : Document :=
  { d with fields := Entries.insert d.fields name v }

def withStatus (d : Document) (status : Option Status) : Document := { d with status := status }

theorem get?_set_self (d : Document) (name : String) (v : Value) :
    (d.set name v).get? name = some v := Entries.get?_insert_self ..

theorem get?_set_ne (d : Document) {m n : String} (v : Value) (h : n ≠ m) :
    (d.set n v).get? m = d.get? m := Entries.get?_insert_ne _ _ h

end Document

namespace Value

def isNull : Value → Bool
  | .null => true
  | _ => false

def asText? : Value → Option String
  | .text s => some s
  | _ => none

def asDoc? : Value → Option Document
  | .doc d => some d
  | _ => none

/-- The name of the kind in messages. -/
def kindLabel : Value → String
  | .null => "null"
  | .bool _ => "bool"
  | .int _ => "int"
  | .float _ => "float"
  | .text _ => "text"
  | .json _ => "json"
  | .list _ => "list"
  | .ref _ => "ref"
  | .doc _ => "doc"
  | .variant _ _ => "variant"

def isNumeric : Value → Bool
  | .int _ => true
  | .float _ => true
  | _ => false

/-- The order of numbers; an integer is rounded to a double before it meets one. -/
def compareNumeric? : Value → Value → Option Ordering
  | .int a, .int b => some (compare a.toInt b.toInt)
  | .int a, .float b => (Double.ofInt a.toInt).compare? b
  | .float a, .int b => a.compare? (Double.ofInt b.toInt)
  | .float a, .float b => a.compare? b
  | _, _ => none

inductive TextMode where
  | caseSensitive
  | caseInsensitive
deriving DecidableEq, Repr

def TextMode.apply : TextMode → String → String
  | .caseSensitive, s => s
  | .caseInsensitive, s => Text.lower s

inductive TextTest where
  | equals
  | contains
  | startsWith
  | endsWith
deriving DecidableEq, Repr

def TextTest.holds : TextTest → String → String → Bool
  | .equals, a, b => a = b
  | .contains, a, b => Text.contains a b
  | .startsWith, a, b => Text.startsWith a b
  | .endsWith, a, b => Text.endsWith a b

/-- A test of two texts; no answer for other values. -/
def textTest? (test : TextTest) (mode : TextMode) : Value → Value → Option Bool
  | .text a, .text b => some (test.holds (mode.apply a) (mode.apply b))
  | _, _ => none

mutual
/-- The identifiers that a value refers to, in order and with repetitions: those of references and
of populated documents, in lists of any depth. -/
def refs : Value → List DocumentId
  | .ref id => [id]
  | .doc d => [d.id]
  | .list items => refsOfItems items
  | .null => []
  | .bool _ => []
  | .int _ => []
  | .float _ => []
  | .text _ => []
  | .json _ => []
  | .variant _ _ => []

def refsOfItems : List Value → List DocumentId
  | [] => []
  | v :: vs => refs v ++ refsOfItems vs
end

theorem refsOfItems_eq_flatMap (vs : List Value) : refsOfItems vs = vs.flatMap refs := by
  induction vs with
  | nil => rfl
  | cons v vs ih => simp [refsOfItems, ih]

end Value
end ContentEngine
