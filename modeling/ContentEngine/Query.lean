import ContentEngine.Page
import ContentEngine.Populate.Parser
import ContentEngine.Sort

/-!
# Query requests

A request selects documents by filter and status, orders and pages them, and says which fields they
show and what is populated. All of it is optional. `QueryRequest.ofJson` reads the members of a query
object in key order.
-/

namespace ContentEngine

inductive QueryError where
  | malformed (reason : String)
  | filter (e : FilterError)
  | populate (e : PopulateError)
deriving DecidableEq, Repr

def QueryError.message : QueryError → String
  | .malformed reason => s!"malformed query: {reason}"
  | .filter e => e.message
  | .populate e => e.message

structure QueryRequest where
  filters : Option Filter := none
  populate : PopulateSpec := .empty
  sort : List SortKey := []
  fields : Option Names := none
  page : PageRequest := .page none none
  status : Option Status := none

namespace QueryRequest

def new : QueryRequest := {}

/-- Adds a filter to those there are. -/
def filter (q : QueryRequest) (f : Filter) : QueryRequest :=
  match q.filters with
  | some g => { q with filters := some (.and [g, f]) }
  | none => { q with filters := some f }

def orderBy (q : QueryRequest) (key : SortKey) : QueryRequest :=
  { q with sort := q.sort ++ [key] }

def select (q : QueryRequest) (names : List String) : QueryRequest :=
  { q with fields := some (Names.ofList names) }

/-! ## Reading -/

def malformed {α : Type} (reason : String) : Except QueryError α := .error (.malformed reason)

def sortKeyOfText (text : String) : Except QueryError SortKey :=
  match SortKey.parse? (Text.trim text) with
  | some key => .ok key
  | none => malformed s!"invalid sort '{text}'"

mutual
def sortOfJson : Json → Except QueryError (List SortKey)
  | .str text => (Text.split ',' text).mapM sortKeyOfText
  | .arr items => sortOfItems items
  | .obj members => sortOfMembers members
  | _ => malformed "sort must be a string, array, or object"

def sortOfItems : List Json → Except QueryError (List SortKey)
  | [] => .ok []
  | item :: items =>
    match sortOfJson item with
    | .error e => .error e
    | .ok keys => (sortOfItems items).map (keys ++ ·)

def sortOfMembers : List (String × Json) → Except QueryError (List SortKey)
  | [] => .ok []
  | (field, .str direction) :: rest =>
    match sortKeyOfText (field ++ ":" ++ direction) with
    | .error e => .error e
    | .ok key => (sortOfMembers rest).map (key :: ·)
  | (field, _) :: _ => malformed s!"sort direction for '{field}' must be a string"
end

def fieldsOfJson : Json → Except QueryError Names
  | .str text => .ok (Names.ofList (Text.listPieces text))
  | .arr items =>
    match items.mapM Json.asStr? with
    | some names => .ok (Names.ofList names)
    | none => malformed "fields must be strings"
  | _ => malformed "fields must be a string or an array"

/-- A whole number below `2 ^ 32`; a plus sign may stand before it. -/
def boundOfText? (text : String) : Option UInt32 :=
  let ds :=
    match text.toList with
    | '+' :: ds => ds
    | ds => ds
  if ds ≠ [] ∧ ds.all Text.isDigit ∧ Text.digitsValue ds < UInt32.size then
    some (UInt32.ofNat (Text.digitsValue ds))
  else none

def boundOfJson? : Json → Option UInt32
  | .int n => if 0 ≤ n ∧ n < UInt32.size then some (UInt32.ofNat n.toNat) else none
  | .str text => boundOfText? (Text.trim text)
  | _ => none

def bound (members : Entries Json) (key : String) : Except QueryError (Option UInt32) :=
  match Entries.get? members key with
  | none => .ok none
  | some j =>
    match boundOfJson? j with
    | some n => .ok (some n)
    | none => malformed s!"pagination '{key}' must be a non-negative integer"

def pageOfJson : Json → Except QueryError PageRequest
  | .obj members =>
    match (Entries.keys members).find? (· ∉ ["page", "pageSize", "start", "limit"]) with
    | some key => malformed s!"unknown pagination key '{key}'"
    | none =>
      let byPage := Entries.contains members "page" || Entries.contains members "pageSize"
      let byOffset := Entries.contains members "start" || Entries.contains members "limit"
      if byPage && byOffset then malformed "pagination mixes page/pageSize with start/limit"
      else if byOffset then do
        return .offset (← bound members "start") (← bound members "limit")
      else do
        return .page (← bound members "page") (← bound members "pageSize")
  | _ => malformed "pagination must be an object"

def statusOfJson (j : Json) : Except QueryError Status :=
  match j.asStr?.bind Status.ofLabel? with
  | some s => .ok s
  | none => malformed "status must be 'draft' or 'published'"

/-- Takes in one member of a query object. -/
def setMember (q : QueryRequest) (key : String) (value : Json) :
    Except QueryError QueryRequest :=
  if key = "filters" then
    ((Filter.ofJson value).mapError .filter).map fun f => { q with filters := f }
  else if key = "populate" then
    ((PopulateSpec.ofJson value).mapError .populate).map fun p => { q with populate := p }
  else if key = "sort" then (sortOfJson value).map fun s => { q with sort := s }
  else if key = "fields" then (fieldsOfJson value).map fun f => { q with fields := some f }
  else if key = "pagination" then (pageOfJson value).map fun p => { q with page := p }
  else if key = "status" then (statusOfJson value).map fun s => { q with status := some s }
  else malformed s!"unknown query key '{key}'"

def ofJson : Json → Except QueryError QueryRequest
  | .obj members => members.foldlM (fun q m => q.setMember m.1 m.2) new
  | _ => malformed "query must be an object"

end QueryRequest
end ContentEngine
