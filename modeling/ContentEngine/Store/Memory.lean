import ContentEngine.Store.Rows

/-!
# The store in memory

Documents by type and identifier, each with a draft and a published version. A type without drafts
keeps its one version as the published one. Reads scan a table in the order of identifiers.

The store makes identifiers from a counter, in ascending order, and takes the time of its writes from
`now`. It counts the fetches by reference and the writes that it has served.
-/

namespace ContentEngine

/-- Digit `i` of a number in base 32, in an alphabet that keeps the order of numbers. -/
def base32Digit (n i : Nat) : Char :=
  "0123456789abcdefghjkmnpqrstvwxyz".toList.getD (n >>> (5 * i) % 32) '0'

/-- An identifier of 26 characters; the identifiers of greater numbers are greater. -/
def DocumentId.generated (n : Nat) : DocumentId :=
  "01" ++ String.ofList ((List.range 24).reverse.map (base32Digit n))

/-- Whether an identifier has the form of the generated ones. -/
def DocumentId.isGenerated (id : DocumentId) : Bool :=
  let l := id.toList
  l.length = 26 && l.take 2 = ['0', '1'] && l.all fun c => c.isDigit || c.isLower

structure Versions where
  draft : Option Document := none
  published : Option Document := none
deriving Repr, Inhabited

namespace Versions

def get (v : Versions) : Option Status → Option Document
  | some .draft => v.draft
  | _ => v.published

def set (v : Versions) (status : Option Status) (d : Document) : Versions :=
  match status with
  | some .draft => { v with draft := some d }
  | _ => { v with published := some d }

theorem get_set_self (v : Versions) (s : Option Status) (d : Document) :
    (v.set s d).get s = some d := by
  rcases s with _ | _ | _ <;> rfl

end Versions

abbrev Tables := Entries (Entries Versions)

namespace Tables

def get? (t : Tables) (docType : String) (id : DocumentId) : Option Versions :=
  (Entries.get? t docType).bind (Entries.get? · id)

def put (t : Tables) (docType : String) (id : DocumentId) (v : Versions) : Tables :=
  Entries.insert t docType (Entries.insert ((Entries.get? t docType).getD []) id v)

/-- Removes an entry from a table that exists. -/
def remove (t : Tables) (docType : String) (id : DocumentId) : Tables :=
  match Entries.get? t docType with
  | some table => Entries.insert t docType (Entries.erase table id)
  | none => t

end Tables

structure MemoryStore where
  registry : Registry
  now : String
  latency : Option Nat := none
  tables : Tables := []
  failing : Names := []
  nextId : Nat := 0
  referenceFetches : Nat := 0
  writes : Nat := 0

namespace MemoryStore

/-- Stores a document as it stands. The first published version of a document also seeds its
draft. -/
def insert (s : MemoryStore) (d : Document) : MemoryStore :=
  let v := (s.tables.get? d.docType d.id).getD {}
  let v :=
    if s.registry.hasDrafts d.docType ∧ d.status = some .published ∧ v.draft.isNone then
      { v with draft := some (d.withStatus (some .draft)) }
    else v
  { s with tables := s.tables.put d.docType d.id (v.set d.status d) }

def get? (s : MemoryStore) (docType : String) (id : DocumentId) (status : Option Status) :
    Option Document :=
  (s.tables.get? docType id).bind (·.get status)

/-- Makes every later call about a type fail. -/
def fail (s : MemoryStore) (docType : String) : MemoryStore :=
  { s with failing := Names.insert s.failing docType }

/-! ## Reads -/

/-- The version at which a request of some status reads documents of a type. -/
def readStatus (r : Registry) (docType : String) (status : Option Status) : Option Status :=
  if r.hasDrafts docType then some (status.getD .published) else none

def lookup (s : MemoryStore) (status : Option Status) : Lookup := fun docType id =>
  s.get? docType id (readStatus s.registry docType status)

def matching (s : MemoryStore) (docType : String) (p : Predicate) (status : Option Status) :
    List Document :=
  let versions := Entries.values ((Entries.get? s.tables docType).getD [])
  (versions.filterMap (·.get status)).filter fun d => p.holds (s.lookup status) d

/-- Refuses a call about a failing type. -/
def enter (s : MemoryStore) (docType : String) : Except AdapterError Unit :=
  if s.failing.contains docType then .error { reason := s!"injected failure for '{docType}'" }
  else .ok ()

def count (s : MemoryStore) (docType : String) (p : Predicate) (status : Option Status) :
    Except AdapterError UInt64 := do
  s.enter docType
  return UInt64.ofNat (s.matching docType p status).length

def page (s : MemoryStore) (docType : String) (p : Predicate) (status : Option Status)
    (w : FetchWindow) : Except AdapterError (List Document) := do
  s.enter docType
  let keys := w.sort.map (RowKey.ofSortKey s.registry docType)
  let rows := Rows.sort keys (s.matching docType p status)
  return ((rows.drop w.start.toNat).take w.limit.toNat).map w.projection.apply

def references (s : MemoryStore) (docType : String) (ids : List DocumentId)
    (filter : Option Predicate) (projection : Projection) (status : Option Status) :
    Except AdapterError (List Document) := do
  s.enter docType
  let found := (Names.distinct ids).filterMap fun id => s.get? docType id status
  let kept := found.filter fun d => filter.all fun p => p.holds (s.lookup status) d
  return kept.map projection.apply

/-! ## Writes -/

def publishedCopy (now : String) (draft : Document) : Document :=
  (draft.withStatus (some .published)).set publishedAtName (.text now)

def merge (d : Document) (data : Entries Value) : Document :=
  { d with fields := Entries.insertAll d.fields data }

def create (s : MemoryStore) (docType : String) (data : Entries Value) (status : Option Status) :
    Option Document × MemoryStore :=
  let id := DocumentId.generated (2 * s.nextId)
  let d : Document := ⟨docType, id, none, data⟩
  let d := (d.set createdAtName (.text s.now)).set updatedAtName (.text s.now)
  let v : Versions :=
    if s.registry.hasDrafts docType then
      let d := (d.withStatus (some .draft)).set publishedAtName .null
      { draft := some d
        published := if status = some .published then some (publishedCopy s.now d) else none }
    else { published := some d }
  (v.get status <|> v.draft,
    { s with tables := s.tables.put docType id v, nextId := s.nextId + 1 })

def update (s : MemoryStore) (docType : String) (id : DocumentId) (data : Entries Value)
    (status : Option Status) : Option Document × MemoryStore :=
  let drafts := s.registry.hasDrafts docType
  let editable : Option Status := if drafts then some .draft else none
  match s.tables.get? docType id with
  | none => (none, s)
  | some v =>
    match v.get editable with
    | none => (none, s)
    | some d =>
      let d := (merge d data).set updatedAtName (.text s.now)
      let v := v.set editable d
      if drafts ∧ status = some .published then
        let p := publishedCopy s.now d
        (some p, { s with tables := s.tables.put docType id (v.set (some .published) p) })
      else (some d, { s with tables := s.tables.put docType id v })

def delete (s : MemoryStore) (docType : String) (id : DocumentId) :
    Option Document × MemoryStore :=
  let removed := (s.tables.get? docType id).bind fun v => v.published <|> v.draft
  (removed, { s with tables := s.tables.remove docType id })

def publish (s : MemoryStore) (docType : String) (id : DocumentId) :
    Option Document × MemoryStore :=
  match s.tables.get? docType id with
  | none => (none, s)
  | some v =>
    match v.draft with
    | none => (none, s)
    | some d =>
      let p := publishedCopy s.now d
      (some p, { s with tables := s.tables.put docType id { v with published := some p } })

def unpublish (s : MemoryStore) (docType : String) (id : DocumentId) :
    Option Document × MemoryStore :=
  match s.tables.get? docType id with
  | none => (none, s)
  | some v =>
    (v.draft, { s with tables := s.tables.put docType id { v with published := none } })

def apply (s : MemoryStore) (docType : String) : WriteOp → Option Document × MemoryStore
  | .create data status => s.create docType data status
  | .update id data status => s.update docType id data status
  | .delete id => s.delete docType id
  | .publish id => s.publish docType id
  | .unpublish id => s.unpublish docType id

def write (s : MemoryStore) (docType : String) (op : WriteOp) :
    Except AdapterError (Option Document) × MemoryStore :=
  match s.enter docType with
  | .error e => (.error e, s)
  | .ok () => ((.ok (s.apply docType op).1), (s.apply docType op).2)

def note (s : MemoryStore) : AdapterCall → MemoryStore
  | .references _ _ => { s with referenceFetches := s.referenceFetches + 1 }
  | .write _ _ => { s with writes := s.writes + 1 }
  | _ => s

/-- The store as an adapter of the engine. -/
def adapter : DocumentStore MemoryStore where
  delay s := s.latency.getD 0
  count := count
  page := page
  references := references
  write := write
  note := note

/-- A duration in the unit that suits it. -/
def durationText (ms : Nat) : String :=
  if ms = 0 then "0ns"
  else if ms < 1000 then s!"{ms}ms"
  else
    let rest := (toString (1000 + ms % 1000)).toList.drop 1
    let fraction := (rest.reverse.dropWhile (· = '0')).reverse
    let point := if fraction = [] then "" else "." ++ String.ofList fraction
    toString (ms / 1000) ++ point ++ "s"

def describe (s : MemoryStore) : String :=
  let latency := s.latency.elim "None" fun ms => "Some(" ++ durationText ms ++ ")"
  "MemoryStore \x7b types: " ++ toString s.tables.length ++ ", latency: " ++ latency ++
    ", reference_fetches: " ++ toString s.referenceFetches ++ ", writes: " ++
    toString s.writes ++ ", .. \x7d"

end MemoryStore
end ContentEngine
