import ContentEngine.Json.Basic

/-!
# The structure of JSON text

A tree has the structure of a text, and at its leaves the values that are written there. A leaf
without a value is written correctly, but no value is that large, or half of a surrogate pair is
missing. `value?` wants a value at every leaf and bounds the depth of the tree.
-/

namespace ContentEngine

inductive JsonTree where
  | leaf (value : Option Json)
  | arr (items : List JsonTree)
  | obj (members : List (Option String × JsonTree))

namespace JsonTree

mutual
/-- The value of a tree, with its members as they are written. -/
def value? (depth : Nat) : JsonTree → Option Json
  | .leaf v => v
  | .arr items =>
    match depth with
    | 0 => none
    | depth + 1 => (itemValues? depth items).map .arr
  | .obj members =>
    match depth with
    | 0 => none
    | depth + 1 => (memberValues? depth members).map .obj

def itemValues? (depth : Nat) : List JsonTree → Option (List Json)
  | [] => some []
  | t :: ts => do
    let j ← value? depth t
    return j :: (← itemValues? depth ts)

def memberValues? (depth : Nat) : List (Option String × JsonTree) → Option (List (String × Json))
  | [] => some []
  | (name, t) :: ts => do
    let k ← name
    let j ← value? depth t
    return (k, j) :: (← memberValues? depth ts)
end

/-- How deep a value may nest. -/
def maxDepth : Nat := 127

end JsonTree
end ContentEngine
