import ContentEngine.Double.Basic
import ContentEngine.Entries

/-!
# JSON values

An object is the list of its members. In a canonical value the members stand in key order and no key
is repeated; `canonical` sorts a value read from text, the last of several members of one key wins.
Numbers written without fraction and exponent are integers, all others are doubles.
-/

namespace ContentEngine

inductive Json where
  | null
  | bool (b : Bool)
  | int (n : Int)
  | double (x : Double)
  | str (s : String)
  | arr (items : List Json)
  | obj (members : List (String × Json))
deriving Repr, Inhabited

namespace Json

mutual
def canonical : Json → Json
  | .arr items => .arr (canonicalItems items)
  | .obj members => .obj (Entries.ofList (canonicalMembers members))
  | .null => .null
  | .bool b => .bool b
  | .int n => .int n
  | .double x => .double x
  | .str s => .str s

def canonicalItems : List Json → List Json
  | [] => []
  | j :: js => canonical j :: canonicalItems js

def canonicalMembers : List (String × Json) → List (String × Json)
  | [] => []
  | (k, j) :: ms => (k, canonical j) :: canonicalMembers ms
end

def ofMembers (l : List (String × Json)) : Json := .obj (Entries.ofList l)

def get? : Json → String → Option Json
  | .obj members, k => Entries.get? members k
  | _, _ => none

def asStr? : Json → Option String
  | .str s => some s
  | _ => none

def asBool? : Json → Option Bool
  | .bool b => some b
  | _ => none

def asInt? : Json → Option Int
  | .int n => some n
  | _ => none

def asArr? : Json → Option (List Json)
  | .arr items => some items
  | _ => none

def asObj? : Json → Option (Entries Json)
  | .obj members => some members
  | _ => none

end Json
end ContentEngine
