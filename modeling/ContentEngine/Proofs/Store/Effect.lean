import ContentEngine.Store.Memory

/-!
# What a write does to the tables

`Effect` lists the ways in which a write can change the tables of a store, each with the versions
that it leaves, and `effect_apply` states that there are no others. What is proved of writes is
proved of their effects, case by case.
-/

namespace ContentEngine

namespace WriteOp

/-- The document that a write is about; a new one has no identifier yet. -/
def id? : WriteOp → Option DocumentId
  | .create _ _ => none
  | .update id _ _ => some id
  | .delete id => some id
  | .publish id => some id
  | .unpublish id => some id

/-- The writes that change only what is published. -/
def requiresDrafts : WriteOp → Bool
  | .publish _ => true
  | .unpublish _ => true
  | _ => false

end WriteOp

namespace MemoryStore

/-- The identifier that the next document gets. -/
def newId (s : MemoryStore) : DocumentId := DocumentId.generated (2 * s.nextId)

def newDocument (s : MemoryStore) (docType : String) (data : Entries Value) : Document :=
  (Document.set ⟨docType, s.newId, none, data⟩ createdAtName (.text s.now)).set updatedAtName
    (.text s.now)

def newDraft (s : MemoryStore) (docType : String) (data : Entries Value) : Document :=
  ((s.newDocument docType data).withStatus (some .draft)).set publishedAtName .null

def edited (s : MemoryStore) (d : Document) (data : Entries Value) : Document :=
  (merge d data).set updatedAtName (.text s.now)

/-- The version that an update writes over. -/
def editable (s : MemoryStore) (docType : String) : Option Status :=
  if s.registry.hasDrafts docType then some .draft else none

/-- `s.Effect docType op tables`: the write can leave the tables. -/
inductive Effect (s : MemoryStore) (docType : String) : WriteOp → Tables → Prop
  | createDraft (data : Entries Value) (status : Option Status)
      (hdrafts : s.registry.hasDrafts docType = true) :
      Effect s docType (.create data status) (s.tables.put docType s.newId
        { draft := some (s.newDraft docType data)
          published :=
            if status = some .published then some (publishedCopy s.now (s.newDraft docType data))
            else none })
  | createPlain (data : Entries Value) (status : Option Status)
      (hdrafts : s.registry.hasDrafts docType = false) :
      Effect s docType (.create data status) (s.tables.put docType s.newId
        { published := some (s.newDocument docType data) })
  | edit (id : DocumentId) (data : Entries Value) (status : Option Status) (v : Versions)
      (d : Document) (hv : s.tables.get? docType id = some v)
      (hd : v.get (s.editable docType) = some d)
      (hstatus : ¬ (s.registry.hasDrafts docType = true ∧ status = some .published)) :
      Effect s docType (.update id data status) (s.tables.put docType id
        (v.set (s.editable docType) (s.edited d data)))
  | editAndPublish (id : DocumentId) (data : Entries Value) (v : Versions) (d : Document)
      (hdrafts : s.registry.hasDrafts docType = true) (hv : s.tables.get? docType id = some v)
      (hd : v.draft = some d) :
      Effect s docType (.update id data (some .published)) (s.tables.put docType id
        { draft := some (s.edited d data)
          published := some (publishedCopy s.now (s.edited d data)) })
  | nothingToEdit (id : DocumentId) (data : Entries Value) (status : Option Status)
      (h : ∀ v, s.tables.get? docType id = some v → v.get (s.editable docType) = none) :
      Effect s docType (.update id data status) s.tables
  | delete (id : DocumentId) : Effect s docType (.delete id) (s.tables.remove docType id)
  | publish (id : DocumentId) (v : Versions) (d : Document)
      (hv : s.tables.get? docType id = some v) (hd : v.draft = some d) :
      Effect s docType (.publish id) (s.tables.put docType id
        { v with published := some (publishedCopy s.now d) })
  | nothingToPublish (id : DocumentId)
      (h : ∀ v, s.tables.get? docType id = some v → v.draft = none) :
      Effect s docType (.publish id) s.tables
  | unpublish (id : DocumentId) (v : Versions) (hv : s.tables.get? docType id = some v) :
      Effect s docType (.unpublish id) (s.tables.put docType id { v with published := none })
  | nothingToUnpublish (id : DocumentId) (h : s.tables.get? docType id = none) :
      Effect s docType (.unpublish id) s.tables

variable {s : MemoryStore} {docType : String}

theorem effect_create (data : Entries Value) (status : Option Status) :
    s.Effect docType (.create data status) (s.create docType data status).2.tables := by
  unfold create
  cases hdrafts : s.registry.hasDrafts docType with
  | true =>
    simp only [if_true]
    exact .createDraft data status hdrafts
  | false =>
    simp only [Bool.false_eq_true, if_false]
    exact .createPlain data status hdrafts

theorem effect_update (id : DocumentId) (data : Entries Value) (status : Option Status) :
    s.Effect docType (.update id data status) (s.update docType id data status).2.tables := by
  unfold update
  cases hv : s.tables.get? docType id with
  | none => exact .nothingToEdit id data status (by simp [hv])
  | some v =>
    simp only
    cases hd : v.get (if s.registry.hasDrafts docType then some .draft else none) with
    | none =>
      refine .nothingToEdit id data status fun w hw => ?_
      obtain rfl : v = w := Option.some.inj (hv.symm.trans hw)
      exact hd
    | some d =>
      by_cases hpub : s.registry.hasDrafts docType = true ∧ status = some .published
      · obtain ⟨hdrafts, rfl⟩ := hpub
        simp only [hdrafts, if_true] at hd
        simp only [hdrafts, if_true, and_self]
        exact .editAndPublish id data v d hdrafts hv hd
      · simp only [if_neg hpub]
        exact .edit id data status v d hv hd hpub

theorem effect_publish (id : DocumentId) :
    s.Effect docType (.publish id) (s.publish docType id).2.tables := by
  unfold publish
  cases hv : s.tables.get? docType id with
  | none => exact .nothingToPublish id (by simp [hv])
  | some v =>
    simp only
    obtain ⟨_ | d, published⟩ := v
    · refine .nothingToPublish id fun w hw => ?_
      obtain rfl : _ = w := Option.some.inj (hv.symm.trans hw)
      rfl
    · exact .publish id ⟨some d, published⟩ d hv rfl

theorem effect_unpublish (id : DocumentId) :
    s.Effect docType (.unpublish id) (s.unpublish docType id).2.tables := by
  unfold unpublish
  cases hv : s.tables.get? docType id with
  | none => exact .nothingToUnpublish id hv
  | some v => exact .unpublish id v hv

theorem effect_apply (s : MemoryStore) (docType : String) (op : WriteOp) :
    s.Effect docType op (s.apply docType op).2.tables := by
  cases op with
  | create data status => exact effect_create data status
  | update id data status => exact effect_update id data status
  | delete id => exact .delete id
  | publish id => exact effect_publish id
  | unpublish id => exact effect_unpublish id

/-- A write changes nothing of a store but its tables and the number of the next document. -/
theorem apply_eq (s : MemoryStore) (docType : String) (op : WriteOp) :
    ∃ tables nextId, (s.apply docType op).2 = { s with tables := tables, nextId := nextId } := by
  cases op with
  | create data status => exact ⟨_, _, rfl⟩
  | update id data status =>
    simp only [apply, update]
    split
    · exact ⟨_, _, rfl⟩
    · split
      · exact ⟨_, _, rfl⟩
      · split <;> exact ⟨_, _, rfl⟩
  | delete id => exact ⟨_, _, rfl⟩
  | publish id =>
    simp only [apply, publish]
    split
    · exact ⟨_, _, rfl⟩
    · split <;> exact ⟨_, _, rfl⟩
  | unpublish id =>
    simp only [apply, unpublish]
    split <;> exact ⟨_, _, rfl⟩

theorem registry_apply (s : MemoryStore) (docType : String) (op : WriteOp) :
    (s.apply docType op).2.registry = s.registry := by
  obtain ⟨tables, nextId, h⟩ := s.apply_eq docType op
  rw [h]

theorem writes_apply (s : MemoryStore) (docType : String) (op : WriteOp) :
    (s.apply docType op).2.writes = s.writes := by
  obtain ⟨tables, nextId, h⟩ := s.apply_eq docType op
  rw [h]

end MemoryStore
end ContentEngine
