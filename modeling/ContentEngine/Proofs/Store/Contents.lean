import ContentEngine.Proofs.Entries
import ContentEngine.Proofs.Store.Effect

/-!
# What a store in memory can hold

A store starts empty and is changed by `insert` and `write` only; its clock, its latency, its
counters and what it fails for are no contents. In all that it can come to hold, tables and rows are
in order, and every version lies under its own type and identifier.
-/

namespace ContentEngine

/-- The fields in which the store notes when a document was written. -/
def stampNames : List String := [createdAtName, updatedAtName, publishedAtName]

/-- What the store notes in a stamp: a time, or that there is none. -/
inductive Value.IsStamp : Value → Prop
  | never : IsStamp .null
  | time (s : String) : IsStamp (.text s)

def Document.Under (docType : String) (id : DocumentId) (d : Document) : Prop :=
  d.docType = docType ∧ d.id = id

/-- The versions are those of one document. -/
def Versions.Of (docType : String) (id : DocumentId) (v : Versions) : Prop :=
  ∀ status d, v.get status = some d → d.Under docType id

/-- The property holds of all versions. -/
def Versions.All (P : Document → Prop) (v : Versions) : Prop :=
  ∀ status d, v.get status = some d → P d

namespace Versions
variable {P : Document → Prop} {v : Versions} {d : Document}

theorem all_iff : v.All P ↔ (∀ d ∈ v.draft, P d) ∧ ∀ d ∈ v.published, P d := by
  constructor
  · intro h
    exact ⟨fun d hd => h (some .draft) d hd, fun d hd => h none d hd⟩
  · rintro ⟨hdraft, hpub⟩ (_ | _ | _) d hd
    · exact hpub d hd
    · exact hdraft d hd
    · exact hpub d hd

theorem all_empty : ({} : Versions).All P := by
  simp [all_iff]

theorem All.withPublished (h : v.All P) (hd : P d) : All P { v with published := some d } := by
  rw [all_iff] at h ⊢
  exact ⟨h.1, by rintro _ ⟨⟩; exact hd⟩

theorem All.withDraft (h : v.All P) (hd : P d) : All P { v with draft := some d } := by
  rw [all_iff] at h ⊢
  exact ⟨by rintro _ ⟨⟩; exact hd, h.2⟩

theorem All.unpublished (h : v.All P) : All P { v with published := none } := by
  rw [all_iff] at h ⊢
  exact ⟨h.1, by simp⟩

theorem All.set (h : v.All P) (hd : P d) (status : Option Status) : (v.set status d).All P := by
  rcases status with _ | _ | _
  · exact h.withPublished hd
  · exact h.withDraft hd
  · exact h.withPublished hd

end Versions

namespace Tables
variable {t : Tables} {docType : String} {id : DocumentId} {v : Versions}
  {Q : String → DocumentId → Versions → Prop}

/-- The property holds of all entries. -/
def Every (Q : String → DocumentId → Versions → Prop) (t : Tables) : Prop :=
  ∀ docType id v, t.get? docType id = some v → Q docType id v

structure Valid (t : Tables) : Prop where
  sorted : Entries.Sorted t
  rowsSorted : ∀ docType rows, Entries.get? t docType = some rows → Entries.Sorted rows
  keyed : ∀ docType id v, t.get? docType id = some v → v.Of docType id

theorem valid_empty : Valid [] :=
  ⟨List.Pairwise.nil, by simp, by simp [get?]⟩

/-- A type without a table has no entries. -/
theorem get?_getD (t : Tables) (docType : String) (id : DocumentId) :
    Entries.get? ((Entries.get? t docType).getD []) id = t.get? docType id := by
  unfold get?
  cases Entries.get? t docType <;> rfl

theorem get?_put_self : (t.put docType id v).get? docType id = some v := by
  simp [put, get?]

theorem get?_put_ne {docType' : String} {id' : DocumentId}
    (h : ¬ (docType = docType' ∧ id = id')) :
    (t.put docType id v).get? docType' id' = t.get? docType' id' := by
  by_cases hType : docType = docType'
  · subst hType
    have hid : id ≠ id' := fun hid => h ⟨rfl, hid⟩
    rw [← get?_getD t docType id', ← get?_getD _ docType id', put, Entries.get?_insert_self,
      Option.getD_some, Entries.get?_insert_ne _ _ hid]
  · simp only [put, get?, Entries.get?_insert_ne t _ hType]

theorem Every.put (h : t.Every Q) (hv : Q docType id v) : (t.put docType id v).Every Q := by
  intro docType' id' v' hv'
  by_cases hkey : docType = docType' ∧ id = id'
  · obtain ⟨rfl, rfl⟩ := hkey
    rw [get?_put_self, Option.some.injEq] at hv'
    exact hv' ▸ hv
  · rw [get?_put_ne hkey] at hv'
    exact h docType' id' v' hv'

theorem Valid.getD_rowsSorted (h : t.Valid) (docType : String) :
    Entries.Sorted ((Entries.get? t docType).getD []) := by
  cases hrows : Entries.get? t docType with
  | none => exact List.Pairwise.nil
  | some rows => exact h.rowsSorted docType rows hrows

theorem Valid.put (h : t.Valid) (hv : v.Of docType id) : (t.put docType id v).Valid where
  sorted := h.sorted.insert _ _
  rowsSorted := by
    intro docType' rows hrows
    by_cases hType : docType = docType'
    · subst hType
      simp only [Tables.put, Entries.get?_insert_self, Option.some.injEq] at hrows
      subst hrows
      exact (h.getD_rowsSorted docType).insert _ _
    · simp only [Tables.put, Entries.get?_insert_ne t _ hType] at hrows
      exact h.rowsSorted docType' rows hrows
  keyed := Every.put h.keyed hv

theorem get?_remove_self : (t.remove docType id).get? docType id = none := by
  unfold remove
  cases hrows : Entries.get? t docType with
  | none => simp [get?, hrows]
  | some rows => simp [get?]

theorem get?_remove_ne {docType' : String} {id' : DocumentId}
    (h : ¬ (docType = docType' ∧ id = id')) :
    (t.remove docType id).get? docType' id' = t.get? docType' id' := by
  unfold remove
  cases hrows : Entries.get? t docType with
  | none => rfl
  | some rows =>
    by_cases hType : docType = docType'
    · subst hType
      have hid : id ≠ id' := fun hid => h ⟨rfl, hid⟩
      simp [get?, hrows, Entries.get?_erase_ne rows hid]
    · simp only [get?, Entries.get?_insert_ne t _ hType]

/-- Removing takes versions away and changes none. -/
theorem get?_remove {docType' : String} {id' : DocumentId} {v' : Versions}
    (h : (t.remove docType id).get? docType' id' = some v') : t.get? docType' id' = some v' := by
  by_cases hkey : docType = docType' ∧ id = id'
  · obtain ⟨rfl, rfl⟩ := hkey
    rw [get?_remove_self] at h
    exact absurd h (by simp)
  · rwa [get?_remove_ne hkey] at h

theorem Every.remove (h : t.Every Q) (docType : String) (id : DocumentId) :
    (t.remove docType id).Every Q :=
  fun docType' id' v' hv' => h docType' id' v' (get?_remove hv')

theorem Valid.remove (h : t.Valid) (docType : String) (id : DocumentId) :
    (t.remove docType id).Valid where
  sorted := by
    unfold Tables.remove
    cases Entries.get? t docType with
    | none => exact h.sorted
    | some rows => exact h.sorted.insert _ _
  rowsSorted := by
    intro docType' rows' hrows'
    unfold Tables.remove at hrows'
    cases hrows : Entries.get? t docType with
    | none => exact h.rowsSorted docType' rows' (by simpa [hrows] using hrows')
    | some rows =>
      simp only [hrows] at hrows'
      by_cases hType : docType = docType'
      · subst hType
        rw [Entries.get?_insert_self, Option.some.injEq] at hrows'
        exact hrows' ▸ (h.rowsSorted docType rows hrows).erase id
      · rw [Entries.get?_insert_ne t _ hType] at hrows'
        exact h.rowsSorted docType' rows' hrows'
  keyed := Every.remove h.keyed docType id

end Tables

namespace MemoryStore

/-- The stores that filling and writing lead to. -/
inductive Reachable : MemoryStore → Prop
  | empty (s : MemoryStore) (h : s.tables = []) : Reachable s
  | insert (s : MemoryStore) (d : Document) (h : Reachable s) : Reachable (s.insert d)
  | write (s : MemoryStore) (docType : String) (op : WriteOp) (h : Reachable s) :
      Reachable (s.write docType op).2
  | sameContents (s s' : MemoryStore) (h : Reachable s) (hs : s'.tables = s.tables) : Reachable s'

variable {s : MemoryStore} {docType : String} {id : DocumentId} {d : Document}

theorem get?_table (s : MemoryStore) (docType : String) (id : DocumentId) (status : Option Status) :
    (Entries.get? ((Entries.get? s.tables docType).getD []) id).bind (·.get status) =
      s.get? docType id status := by
  rw [Tables.get?_getD]
  rfl

/-- A property of documents to which neither their status nor their stamps matter. -/
structure Unstamped (P : Document → Prop) : Prop where
  withStatus : ∀ d status, P d → P (d.withStatus status)
  stamp : ∀ d name v, name ∈ stampNames → v.IsStamp → P d → P (d.set name v)

namespace Unstamped
variable {P : Document → Prop}

theorem edited (hP : Unstamped P) {data : Entries Value} (h : P (merge d data)) :
    P (s.edited d data) :=
  hP.stamp _ _ _ (by simp [stampNames]) (.time _) h

theorem publishedCopy (hP : Unstamped P) (now : String) (h : P d) : P (publishedCopy now d) :=
  hP.stamp _ _ _ (by simp [stampNames]) (.time now) (hP.withStatus d _ h)

theorem newDocument (hP : Unstamped P) {data : Entries Value}
    (h : P ⟨docType, s.newId, none, data⟩) : P (s.newDocument docType data) :=
  hP.stamp _ _ _ (by simp [stampNames]) (.time _) (hP.stamp _ _ _ (by simp [stampNames]) (.time _) h)

theorem newDraft (hP : Unstamped P) {data : Entries Value}
    (h : P ⟨docType, s.newId, none, data⟩) : P (s.newDraft docType data) :=
  hP.stamp _ _ _ (by simp [stampNames]) .never (hP.withStatus _ _ (hP.newDocument h))

end Unstamped

theorem unstamped_under (docType : String) (id : DocumentId) :
    Unstamped (Document.Under docType id) :=
  ⟨fun _ _ h => h, fun _ _ _ _ _ h => h⟩

/-- A write leaves the tables alone, puts versions with a property into them that the written ones
have, or removes an entry. -/
theorem Effect.put_or_remove {op : WriteOp} {t : Tables} (he : s.Effect docType op t)
    {P : DocumentId → Document → Prop} (hP : ∀ id, Unstamped (P id))
    (hold : ∀ id v, s.tables.get? docType id = some v → v.All (P id))
    (hcreate : ∀ data status, op = .create data status →
      P s.newId ⟨docType, s.newId, none, data⟩)
    (hupdate : ∀ id data status d, op = .update id data status → P id d → P id (merge d data)) :
    t = s.tables ∨ (∃ id v, v.All (P id) ∧ t = s.tables.put docType id v) ∨
      ∃ id, t = s.tables.remove docType id := by
  cases he with
  | createDraft data status hdrafts =>
    have hdraft := (hP s.newId).newDraft (hcreate data status rfl)
    refine .inr (.inl ⟨_, _, Versions.all_iff.2 ⟨by rintro _ ⟨⟩; exact hdraft, fun p hp => ?_⟩, rfl⟩)
    obtain ⟨-, hp⟩ := Option.ite_none_right_eq_some.1 hp
    obtain rfl := Option.some.inj hp
    exact (hP s.newId).publishedCopy s.now hdraft
  | createPlain data status hdrafts =>
    have hdocument := (hP s.newId).newDocument (hcreate data status rfl)
    exact .inr (.inl ⟨_, _, Versions.all_empty.withPublished hdocument, rfl⟩)
  | edit id data status v d hv hd hstatus =>
    have hedited := (hP id).edited (s := s) (hupdate id data status d rfl (hold id v hv _ d hd))
    exact .inr (.inl ⟨_, _, (hold id v hv).set hedited _, rfl⟩)
  | editAndPublish id data v d hdrafts hv hd =>
    have hdraft : P id d := hold id v hv (some .draft) d hd
    have hedited := (hP id).edited (s := s) (hupdate id data _ d rfl hdraft)
    have hpublished := (hP id).publishedCopy s.now hedited
    exact .inr (.inl ⟨_, _, ((hold id v hv).withDraft hedited).withPublished hpublished, rfl⟩)
  | delete id => exact .inr (.inr ⟨id, rfl⟩)
  | publish id v d hv hd =>
    have hpublished := (hP id).publishedCopy s.now (hold id v hv (some .draft) d hd)
    exact .inr (.inl ⟨_, _, (hold id v hv).withPublished hpublished, rfl⟩)
  | unpublish id v hv => exact .inr (.inl ⟨_, _, (hold id v hv).unpublished, rfl⟩)
  | nothingToEdit | nothingToPublish | nothingToUnpublish => exact .inl rfl

/-- An insertion puts versions with a property into the tables that the stored ones have, and the
inserted one. -/
theorem insert_put {P : Document → Prop} (hP : ∀ d status, P d → P (d.withStatus status))
    (hold : ∀ v, s.tables.get? d.docType d.id = some v → v.All P) (hd : P d) :
    ∃ v, v.All P ∧ (s.insert d).tables = s.tables.put d.docType d.id v := by
  have hfound : ((s.tables.get? d.docType d.id).getD {}).All P := by
    cases hv : s.tables.get? d.docType d.id with
    | none => exact Versions.all_empty
    | some v => exact hold v hv
  refine ⟨_, Versions.All.set ?_ hd d.status, rfl⟩
  split
  · exact hfound.withDraft (hP d _ hd)
  · exact hfound

theorem valid_insert (h : s.tables.Valid) (d : Document) : (s.insert d).tables.Valid := by
  obtain ⟨v, hv, htables⟩ := insert_put (unstamped_under d.docType d.id).withStatus
    (h.keyed d.docType d.id) ⟨rfl, rfl⟩
  rw [htables]
  exact h.put hv

theorem valid_effect (h : s.tables.Valid) {op : WriteOp} {t : Tables}
    (he : s.Effect docType op t) : t.Valid := by
  obtain rfl | ⟨id, v, hv, rfl⟩ | ⟨id, rfl⟩ := he.put_or_remove (unstamped_under docType)
    (h.keyed docType) (fun _ _ _ => ⟨rfl, rfl⟩) (fun _ _ _ _ _ hd => hd)
  · exact h
  · exact h.put hv
  · exact h.remove docType id

theorem valid_write (h : s.tables.Valid) (docType : String) (op : WriteOp) :
    (s.write docType op).2.tables.Valid := by
  unfold write
  cases s.enter docType with
  | error e => exact h
  | ok u => exact valid_effect h (effect_apply s docType op)

theorem Reachable.valid (h : Reachable s) : s.tables.Valid := by
  induction h with
  | empty s hs => exact hs ▸ Tables.valid_empty
  | insert s d _ ih => exact valid_insert ih d
  | write s docType op _ ih => exact valid_write ih docType op
  | sameContents s s' _ hs ih => exact hs ▸ ih

/-- What is found under an identifier is a document of that identifier. -/
theorem Reachable.id_of_get? (h : Reachable s) {docType : String} {id : DocumentId}
    {status : Option Status} {d : Document} (hd : s.get? docType id status = some d) :
    d.id = id := by
  obtain ⟨v, hv, hvd⟩ := Option.bind_eq_some_iff.1 hd
  exact (h.valid.keyed docType id v hv status d hvd).2

end MemoryStore
end ContentEngine
