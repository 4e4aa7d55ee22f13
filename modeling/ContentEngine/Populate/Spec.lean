import ContentEngine.Filter.Basic
import ContentEngine.Names

/-!
# What to populate

A populate specification maps attributes to nodes: the default shape, a shape of its own, or a node
for each tag of an attribute with several shapes. The wildcard stands for every populatable
attribute. A dotted path is the specification that reaches one attribute through others.
-/

namespace ContentEngine

/-- Fields, filter and nested population of a branch. -/
structure ShapeOf (σ : Type) where
  fields : Option Names
  filters : Option Filter
  populate : σ
deriving Repr

/-- A specification over any kind of node. -/
structure SpecOf (ν : Type) where
  wildcard : Bool
  entries : List (String × ν)
deriving Repr

inductive PopulateNode where
  | all
  | shape (shape : ShapeOf (SpecOf PopulateNode))
  | tags (nodes : List (String × PopulateNode))
deriving Repr, Inhabited

abbrev PopulateSpec := SpecOf PopulateNode

abbrev PopulateShape := ShapeOf PopulateSpec

namespace PopulateSpec

def empty : PopulateSpec := ⟨false, []⟩

def every : PopulateSpec := ⟨true, []⟩

def isEmpty (s : PopulateSpec) : Bool := !s.wildcard && s.entries.isEmpty

end PopulateSpec

namespace PopulateNode

/-- The shape with nothing but a nested population. -/
def nested (s : PopulateSpec) : PopulateNode := .shape ⟨none, none, s⟩

/-- The shape that a path goes on from; only a shape of its own is extended. -/
def shapeBelow : PopulateNode → PopulateShape
  | .shape s => s
  | _ => ⟨none, none, .empty⟩

end PopulateNode

namespace PopulateSpec

def wildcardName : String := "*"

/-- Adds the attribute at the end of a path. A last segment `*` is the wildcard. -/
def insertSegments (s : PopulateSpec) : List String → PopulateSpec
  | [] => s
  | [name] =>
    if name = wildcardName then { s with wildcard := true }
    else if Entries.contains s.entries name then s
    else { s with entries := Entries.insert s.entries name .all }
  | name :: rest =>
    let shape := ((Entries.get? s.entries name).getD .all).shapeBelow
    let node := .shape { shape with populate := insertSegments shape.populate rest }
    { s with entries := Entries.insert s.entries name node }

def insertPath (s : PopulateSpec) (path : String) : PopulateSpec :=
  s.insertSegments (Text.split '.' path)

def ofPaths (paths : List String) : PopulateSpec := paths.foldl insertPath .empty

end PopulateSpec

/-! ## Joining -/

mutual
/-- A later node over an earlier one: the default shape changes nothing, shapes are joined, and
nodes by tag replace what was there. -/
def PopulateNode.merge (earlier : PopulateNode) : PopulateNode → PopulateNode
  | .all => earlier
  | .tags nodes => .tags nodes
  | .shape ⟨fields, filters, populate⟩ =>
    match earlier with
    | .shape old =>
      .shape ⟨fields <|> old.fields, filters <|> old.filters, mergeSpec old.populate populate⟩
    | _ => .shape ⟨fields, filters, populate⟩

def PopulateNode.mergeSpec (earlier : PopulateSpec) : SpecOf PopulateNode → PopulateSpec
  | ⟨wildcard, entries⟩ => ⟨earlier.wildcard || wildcard, mergeEntries earlier.entries entries⟩

def PopulateNode.mergeEntries (earlier : List (String × PopulateNode)) :
    List (String × PopulateNode) → List (String × PopulateNode)
  | [] => earlier
  | (name, node) :: rest =>
    let here :=
      match Entries.get? earlier name with
      | some old => old.merge node
      | none => node
    mergeEntries (Entries.insert earlier name here) rest
end

def PopulateSpec.merge (earlier later : PopulateSpec) : PopulateSpec :=
  PopulateNode.mergeSpec earlier later

end ContentEngine
