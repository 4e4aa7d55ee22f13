import ContentEngine.Engine.Read
import ContentEngine.Proofs.Engine.Conformity
import ContentEngine.Proofs.Lifecycle.Naming
import ContentEngine.Proofs.Populate.Delivered
import ContentEngine.Proofs.Store.Scan

/-!
# What responses show

Every document of a response, at its root or populated anywhere in it, has fields that its type
declares and none with the name of the identifier. So a response always shows the identifier. It hides
the status of a document only behind a field that the type calls the same, and a field only behind the
tag of the instance in which the document stands.
-/

namespace ContentEngine
variable {r : Registry} {P : Document → Prop}

/-! ## What is stored -/

/-- The document is of the type under which it is stored, which names its fields; documents in them
have fields that are named by their types. -/
structure Document.Belongs (r : Registry) (docType : String) (d : Document) : Prop where
  under : d.docType = docType
  fields : ∀ f ∈ d.fields, FieldNamed r docType f ∧ f.2.Every (Document.Named r)

theorem Document.Belongs.named {docType : String} {d : Document} (h : d.Belongs r docType) :
    d.Every (Document.Named r) := by
  obtain ⟨rfl, hfields⟩ := h
  exact every_named_iff.2 hfields

theorem unstamped_belongs (r : Registry) (docType : String) :
    MemoryStore.Unstamped (Document.Belongs r docType) where
  withStatus _ _ h := ⟨h.under, h.fields⟩
  stamp := by
    rintro d name v hname hv ⟨hunder, hfields⟩
    refine ⟨hunder, fun f hf => ?_⟩
    rcases Entries.mem_insert hf with rfl | hf
    · refine ⟨⟨?_, .inl hname⟩, ?_⟩
      · rintro rfl
        exact absurd hname (by decide)
      · cases hv with
        | never => exact Value.every_null
        | time s => exact Value.every_text s
    · exact hfields f hf

theorem brings_belongs (r : Registry) : r.Brings (Document.Belongs r) := by
  intro docType t components left action op ht hchecked
  have hdata : ∀ f ∈ op.data, FieldNamed r docType f ∧ f.2.Every (Document.Named r) := by
    intro f hf
    have hdeclared := hchecked.data_of_gives (Coercion.gives_declared_document r t) f hf
    exact ⟨hdeclared.named (Registry.get?_of_collection ht).1, hdeclared.inside⟩
  constructor
  case create =>
    rintro id data status rfl
    exact ⟨rfl, hdata⟩
  case update =>
    rintro id data status d rfl ⟨hunder, hfields⟩
    refine ⟨hunder, fun f hf => ?_⟩
    rcases Entries.mem_insertAll hf with hf | hf
    · exact hfields f hf
    · exact hdata f hf

theorem keptByReading_named (r : Registry) : KeptByReading (Document.Named r) where
  project p d h f hf := h f (List.mem_of_mem_filter hf)
  refill d name v hname h f hf := by
    rcases Entries.mem_insert hf with rfl | hf
    · obtain ⟨w, hw⟩ := Option.isSome_iff_exists.1 hname
      obtain ⟨hid, hknown⟩ := h (name, w) (Entries.mem_of_get? hw)
      exact ⟨hid, hknown⟩
    · exact h f hf

/-! ## What is read -/

namespace MemoryStore
variable {s : MemoryStore} {docType : String} {status : Option Status} {rows : List Document}

/-- All versions have the property, and so have all documents in them. -/
abbrev Throughout (P : Document → Prop) (s : MemoryStore) : Prop := s.Holds fun _ => Document.Every P

theorem Throughout.page (hP : KeptByReading P) (h : s.Throughout P) (hvalid : s.tables.Valid)
    {p : Predicate} {w : FetchWindow} (hrows : s.page docType p status w = .ok rows) :
    ∀ d ∈ rows, d.Every P := by
  rw [page_eq] at hrows
  obtain ⟨u, -, rfl⟩ := Except.map_eq_ok_iff.1 hrows
  intro d hd
  obtain ⟨found, hfound, rfl⟩ := List.mem_map.1 hd
  have hrow := List.mem_of_mem_drop (List.mem_of_mem_take hfound)
  have hmatching := (s.perm_rows docType p status w.sort).mem_iff.1 hrow
  obtain ⟨⟨id, hget⟩, -⟩ := (mem_matching hvalid).1 hmatching
  exact (h docType id status found hget).project hP w.projection

theorem Throughout.references (hP : KeptByReading P) (h : s.Throughout P) {ids : List DocumentId}
    {filter : Option Predicate} {projection : Projection}
    (hrows : s.references docType ids filter projection status = .ok rows) :
    ∀ d ∈ rows, d.Every P := by
  unfold MemoryStore.references at hrows
  obtain ⟨u, -, hrows⟩ := Except.bind_eq_ok_iff.1 hrows
  obtain rfl := Except.ok.inj hrows
  intro d hd
  obtain ⟨found, hfound, rfl⟩ := List.mem_map.1 hd
  obtain ⟨id, -, hget⟩ := List.mem_filterMap.1 (List.mem_of_mem_filter hfound)
  exact (h docType id status found hget).project hP projection

end MemoryStore

namespace Engine

/-- A call that reads delivers what its run does. -/
theorem of_reading {σ α β : Type} {Q : β → Prop} (e : Engine σ) (s : EngineState σ) (now : Nat)
    (prepare : Preparing α) {run : α → StoreCall β} (hrun : ∀ a, (run a).Delivers Q) {b : β}
    (hb : (e.reading s now prepare run).outcome = .ok b) : Q b := by
  change (e.reading s now prepare run).progress.outcome = .ok b at hb
  rw [progress_eq_call] at hb
  refine (Call.delivers_true _).bind (fun _ _ => ?_) now b hb
  exact (Call.delivers_true _).bind fun a _ => (hrun a).mapError _

variable {e : Engine MemoryStore} {s : EngineState MemoryStore} {docType : String} {q : QueryRequest}
  {token : CancelToken} {now : Nat}

theorem delivers_runQuery (he : e.store = MemoryStore.adapter) (hP : KeptByReading P)
    (h : s.store.Throughout P) (hvalid : s.store.tables.Valid) (token : CancelToken)
    (p : PreparedQuery) :
    (e.runQuery s.store token p).Delivers fun page => ∀ d ∈ page.data, d.Every P := by
  have hpage : (e.pageCall s.store p).Delivers fun rows => ∀ d ∈ rows, d.Every P := by
    unfold pageCall
    rw [he]
    exact StoreCall.delivers_ofStore _ _ fun rows hrows => h.page hP hvalid hrows
  have hpopulate : ∀ rows, (∀ d ∈ rows, d.Every P) →
      (e.populate s.store token p rows).Delivers fun rows => ∀ d ∈ rows, d.Every P := by
    intro rows hrows
    unfold populate
    split
    · exact Call.delivers_succeed hrows
    · rw [he]
      exact StoreCall.delivers_observed (Resolver.delivers_resolve hP
        (fun _ _ _ _ _ _ hfound => h.references hP hfound) p.plan hrows)
  have hfetching := StoreCall.delivers_observed
    (token.delivers_run Interruption.cancelled
      ((Call.delivers_true (e.countCall s.store ⟨p.docType, p.status, p.predicate⟩)).both hpage))
  refine hfetching.bind fun fetched hfetched => ?_
  refine (hpopulate fetched.2 hfetched.2).bind fun rows hrows => ?_
  exact (Call.delivers_true _).map fun _ _ => hrows

theorem every_query (he : e.store = MemoryStore.adapter) (hP : KeptByReading P)
    (h : s.store.Throughout P) (hvalid : s.store.tables.Valid) {page : PageResult Document}
    (hpage : (e.query s docType q token now).outcome = .ok page) : ∀ d ∈ page.data, d.Every P :=
  e.of_reading s now _ (delivers_runQuery he hP h hvalid (e.tokenOf token now)) hpage

theorem every_findFirst (he : e.store = MemoryStore.adapter) (hP : KeptByReading P)
    (h : s.store.Throughout P) (hvalid : s.store.tables.Valid) {d : Document}
    (hd : (e.findFirst s docType q token now).outcome = .ok (some d)) : d.Every P := by
  obtain ⟨page, hpage, hhead⟩ := Except.bind_eq_ok_iff.1 hd
  have hfirst : page.data.head? = some d := Except.ok.inj hhead
  exact every_query he hP h hvalid hpage d (List.mem_of_head? hfirst)

end Engine

/-! ## Responses -/

namespace EngineState
variable {s : EngineState MemoryStore}

/-- The documents that a store gives away: its versions, those that a read of any engine over it
finds, and those that a mutation with lawful hooks answers with. -/
inductive Shows (s : EngineState MemoryStore) : Document → Prop
  | stored (docType : String) (id : DocumentId) (status : Option Status) (d : Document)
      (h : s.store.get? docType id status = some d) : Shows s d
  | query (e : Engine MemoryStore) (he : e.store = MemoryStore.adapter) (docType : String)
      (q : QueryRequest) (token : CancelToken) (now : Nat) (page : PageResult Document)
      (h : (e.query s docType q token now).outcome = .ok page) (d : Document) (hd : d ∈ page.data) :
      Shows s d
  | findFirst (e : Engine MemoryStore) (he : e.store = MemoryStore.adapter) (docType : String)
      (q : QueryRequest) (token : CancelToken) (now : Nat) (d : Document)
      (h : (e.findFirst s docType q token now).outcome = .ok (some d)) : Shows s d
  | findOne (e : Engine MemoryStore) (he : e.store = MemoryStore.adapter) (docType : String)
      (id : DocumentId) (q : QueryRequest) (token : CancelToken) (now : Nat) (d : Document)
      (h : (e.findOne s docType id q token now).outcome = .ok (some d)) : Shows s d
  | mutation (c : MutationCall) (hc : c.Lawful) (d : Document)
      (h : (c.answer s).outcome = .ok (some d)) : Shows s d

theorem Shows.every_named (hs : s.store.Holds (Document.Belongs s.store.registry))
    (hvalid : s.store.tables.Valid) {d : Document} (h : s.Shows d) :
    d.Every (Document.Named s.store.registry) := by
  have hP := keptByReading_named s.store.registry
  have hthroughout : s.store.Throughout (Document.Named s.store.registry) :=
    fun docType id status d hd => (hs docType id status d hd).named
  cases h with
  | stored docType id status _ h => exact hthroughout docType id status d h
  | query e he docType q token now page h _ hd =>
    exact Engine.every_query he hP hthroughout hvalid h d hd
  | findFirst e he docType q token now _ h => exact Engine.every_findFirst he hP hthroughout hvalid h
  | findOne e he docType id q token now _ h => exact Engine.every_findFirst he hP hthroughout hvalid h
  | mutation c hc _ h =>
    exact (holds_outcome (unstamped_belongs s.store.registry) (brings_belongs _) hs hc h).named

/-- After any run of mutations on a store that was empty, with any input and any lawful hooks, every
document that it gives away renders with its identifier, and so do all documents that are populated in it or
stand in its components. The status is shown unless a field of the document that is called `status`
renders to something else, and a field unless the tag of an instance stands in its place. So all is
shown of a document whose type declares neither of the two names. -/
theorem shown_unless_covered {s : EngineState MemoryStore} (hempty : s.store.tables = [])
    {happenings : List Happening} (hlawful : ∀ h ∈ happenings, h.Lawful)
    (hinserted : ∀ d, .insert d ∈ happenings → d.Every (Document.Named s.store.registry))
    {root : Document} (hroot : (s.after happenings).Shows root) {d : Document} {tag : Option String}
    {o : Json} (hd : root.Renders d tag o) :
    let declared := fun name => (s.store.registry.get? d.docType).bind (·.attr? name)
    d.ShownAs tag o ∧
      (declared "status" = none → ∀ status, d.status = some status →
        o.get? "status" = some (.str status.label)) ∧
      (declared componentKey = none → ∀ name v, d.field? name = some v →
        o.get? name = some v.toJson) := by
  intro declared
  have hregistry : (s.after happenings).store.registry = s.store.registry := registry_after s happenings
  have hstored : (s.after happenings).store.Holds (Document.Belongs s.store.registry) := by
    refine holds_after (unstamped_belongs s.store.registry) (brings_belongs _)
      (MemoryStore.holds_of_empty hempty) hlawful fun d hd => ?_
    exact ⟨rfl, Document.every_named_iff.1 (hinserted d hd)⟩
  have hnamed : d.Named s.store.registry := by
    have hvalid := valid_after (hempty ▸ Tables.valid_empty) happenings
    rw [← hregistry] at hstored ⊢
    exact hroot.every_named hstored hvalid d hd.within
  have hshown : d.ShownAs tag o := hd.shownAs fun f hf => (hnamed f hf).ne_documentId
  refine ⟨hshown, fun hundeclared status hstatus => ?_, fun hundeclared name v hv => ?_⟩
  · have hnone := hnamed.field?_eq_none (by decide) hundeclared
    refine (hshown.status status hstatus).2 fun v hv => ?_
    rw [hnone] at hv
    cases hv
  · have hnone := hnamed.field?_eq_none (by decide) hundeclared
    refine (hshown.field name v hv).2 fun t _ hname => ?_
    rw [hname, hnone] at hv
    cases hv

/-- The component in the first block of a document. -/
def firstBlock (d : Document) : Option Document :=
  match d.get? "blocks" with
  | some (.list (.variant "blocks.hero" (.doc c) :: _)) => some c
  | _ => none

theorem renders_firstBlock {d c : Document} (h : firstBlock d = some c) :
    d.Renders c (some "blocks.hero") (Value.variant "blocks.hero" (.doc c)).toJson := by
  unfold firstBlock at h
  split at h
  · next c' blocks hblocks =>
    obtain rfl := Option.some.inj h
    apply Document.Renders.tagged
    exact .field d _ (Entries.mem_of_get? hblocks) (.item _ _ List.mem_cons_self .self)
  · cases h

/-- The component that a hook gives to a new article. -/
def opening : Document := ⟨"blocks.hero", .generated 1, none, [("heading", .text "Hello")]⟩

def emptyStore (r : Registry) : EngineState MemoryStore := ⟨{ registry := r, now := "" }, .empty 0, 0⟩

/-- What an engine without hooks finds under the first identifier. -/
def findFirstId (s : EngineState MemoryStore) (docType : String) (q : QueryRequest) : Option Document :=
  (Engine.findOne ⟨s.store.registry, MemoryStore.adapter, .empty, {}⟩ s docType (.generated 0) q
    .never 0).outcome.toOption.join

theorem shows_findFirstId {s : EngineState MemoryStore} {docType : String} {q : QueryRequest}
    {d : Document} (h : s.findFirstId docType q = some d) : s.Shows d := by
  let found := Engine.findOne ⟨s.store.registry, MemoryStore.adapter, .empty, {}⟩ s docType
    (.generated 0) q .never 0
  change found.outcome.toOption.join = some d at h
  cases hfound : found.outcome with
  | error err =>
    rw [hfound] at h
    cases h
  | ok result =>
    rw [hfound] at h
    obtain rfl : result = some d := h
    exact .findOne _ rfl docType _ q .never 0 d hfound

theorem every_named_first : Blog.first.Every (Document.Named Blog.registry) := by
  rw [Document.every_named_iff]
  intro f hf
  obtain rfl := List.mem_singleton.1 hf
  refine ⟨⟨by decide, .inr (by decide)⟩, Value.every_list.2 fun v hv => ?_⟩
  obtain rfl : v = .ref "b" := by simpa using hv
  exact Value.every_ref "b"

theorem shown_unless_covered_blog :
    let s := (emptyStore Blog.registry).after [.insert Blog.first, .mutate opened]
    ∃ root o, s.Shows root ∧ root.Renders opening (some "blocks.hero") o ∧
      o.get? documentIdName = some (.str opening.id) ∧ o.get? "heading" = some (.str "Hello") := by
  intro s
  have hfound : (s.findFirstId "article" {}).bind firstBlock = some opening := rfl
  obtain ⟨root, hroot, hblock⟩ := Option.bind_eq_some_iff.1 hfound
  have hrenders := renders_firstBlock hblock
  have hinserted : ∀ d, Happening.insert d ∈ [.insert Blog.first, .mutate opened] →
      d.Every (Document.Named Blog.registry) := by
    intro d hd
    obtain rfl : d = Blog.first := by simpa using hd
    exact every_named_first
  have hlawful : ∀ h ∈ [Happening.insert Blog.first, .mutate opened], h.Lawful :=
    List.forall_mem_cons.2 ⟨trivial, List.forall_mem_singleton.2 lawful_opened⟩
  obtain ⟨hshown, -, hfields⟩ := shown_unless_covered (s := emptyStore Blog.registry) rfl hlawful
    hinserted (shows_findFirstId hroot) hrenders
  exact ⟨root, _, shows_findFirstId hroot, hrenders, hshown.identity,
    hfields rfl "heading" (.text "Hello") rfl⟩

/-- Notes whose status is up to their authors. -/
def note : DocumentType where
  name := "note"
  draftAndPublish := true
  attributes := [Blog.field "status" .text]

def notes : Registry := ⟨[("note", note.withSystemAttributes)]⟩

/-- A new note with `x` in its own field. -/
def noting : MutationCall where
  hooks := .empty
  config := {}
  docType := "note"
  action := .create
  params := { data := [("status", .text "x")] }
  token := .never
  now := 0

theorem status_covered_by_field :
    Registry.build [note] = .ok notes ∧
      ∃ d, ((emptyStore notes).after [.mutate noting]).Shows d ∧ d.status = some .draft ∧
        (Value.doc d).toJson.get? "status" = some (.str "x") := by
  refine ⟨rfl, ?_⟩
  let s := (emptyStore notes).after [.mutate noting]
  let found := s.findFirstId "note" { status := some .draft }
  have hfound : found.bind (·.status) = some .draft := rfl
  have hshown : found.bind (fun d => (Value.doc d).toJson.get? "status") = some (.str "x") := rfl
  obtain ⟨d, hd, hstatus⟩ := Option.bind_eq_some_iff.1 hfound
  rw [hd] at hshown
  exact ⟨d, shows_findFirstId hd, hstatus, hshown⟩

end EngineState
end ContentEngine
