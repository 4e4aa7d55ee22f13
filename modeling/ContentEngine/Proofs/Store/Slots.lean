import ContentEngine.Proofs.Store.Contents

/-!
# The slots of drafts and published versions

A document of a type with drafts always has a draft, and what is published of it is marked as such. A
document of another type has one version without a status. Filling and writing keep this. A write
touches one entry, and what it publishes is a copy of the draft that it leaves.
-/

namespace ContentEngine

/-- The versions are in the slots that are for them, in a type with or without drafts. -/
def Versions.Slotted : Bool → Versions → Prop
  | true, v => (∃ d, v.draft = some d ∧ d.status = some .draft) ∧
      ∀ p, v.published = some p → p.status = some .published
  | false, v => v.draft = none ∧ ∃ d, v.published = some d ∧ d.status = none

/-- The status of a document is one that its type has. -/
def Document.FitsStatus (r : Registry) (d : Document) : Prop :=
  if r.hasDrafts d.docType then d.status ≠ none else d.status = none

/-- Equal but for the status and the time of publication. -/
structure Document.CopyOf (p d : Document) : Prop where
  docType : p.docType = d.docType
  id : p.id = d.id
  fields : Entries.erase p.fields publishedAtName = Entries.erase d.fields publishedAtName

namespace WriteOp

/-- The writes that publish the draft which they leave. -/
def publishes : WriteOp → Bool
  | .create _ status => status = some .published
  | .update _ _ status => status = some .published
  | .publish _ => true
  | .delete _ => false
  | .unpublish _ => false

/-- The writes that decide what is published of a document. -/
def setsPublished : WriteOp → Bool
  | .update _ _ status => status = some .published
  | _ => true

end WriteOp

namespace Tables
variable {t : Tables} {r : Registry} {docType : String} {id : DocumentId} {v : Versions}

def draft? (t : Tables) (docType : String) (id : DocumentId) : Option Document :=
  (t.get? docType id).bind (·.draft)

def published? (t : Tables) (docType : String) (id : DocumentId) : Option Document :=
  (t.get? docType id).bind (·.published)

def Slotted (r : Registry) (t : Tables) : Prop :=
  ∀ docType id v, t.get? docType id = some v → v.Slotted (r.hasDrafts docType)

theorem Slotted.put (h : t.Slotted r) (hv : v.Slotted (r.hasDrafts docType)) :
    (t.put docType id v).Slotted r := Every.put h hv

/-- Where there are drafts, nothing is stored without one. -/
theorem Slotted.draft_ne_none (h : t.Slotted r) (hdrafts : r.hasDrafts docType = true)
    (hv : t.get? docType id = some v) : v.draft ≠ none := by
  have hslots := h docType id v hv
  rw [hdrafts] at hslots
  obtain ⟨⟨d, hd, -⟩, -⟩ := hslots
  simp [hd]

end Tables

namespace MemoryStore
variable {s : MemoryStore} {docType : String} {op : WriteOp} {t : Tables}

/-- The document that a write is about. -/
def target (s : MemoryStore) (op : WriteOp) : DocumentId := op.id?.getD s.newId

theorem copyOf_publishedCopy (now : String) (d : Document) : (publishedCopy now d).CopyOf d :=
  ⟨rfl, rfl, Entries.erase_insert_self _ _ _⟩

/-! ## Slots are kept -/

theorem slotted_insert (h : s.tables.Slotted s.registry) {d : Document}
    (hd : d.FitsStatus s.registry) : (s.insert d).tables.Slotted s.registry := by
  refine h.put ?_
  unfold Document.FitsStatus at hd
  cases hdrafts : s.registry.hasDrafts d.docType with
  | false =>
    simp only [hdrafts, Bool.false_eq_true, if_false, false_and] at hd ⊢
    rw [hd]
    refine ⟨?_, d, rfl, hd⟩
    cases hv : s.tables.get? d.docType d.id with
    | none => rfl
    | some v =>
      have hslots := h d.docType d.id v hv
      rw [hdrafts] at hslots
      exact hslots.1
  | true =>
    have hold : ((s.tables.get? d.docType d.id).getD {}).draft = none ∨
        ((s.tables.get? d.docType d.id).getD {}).Slotted true := by
      cases hv : s.tables.get? d.docType d.id with
      | none => exact .inl rfl
      | some v => exact .inr (hdrafts ▸ h d.docType d.id v hv)
    have hpub : ∀ p, ((s.tables.get? d.docType d.id).getD {}).published = some p →
        p.status = some .published := by
      cases hv : s.tables.get? d.docType d.id with
      | none => simp
      | some v =>
        have hslots := h d.docType d.id v hv
        rw [hdrafts] at hslots
        exact hslots.2
    rcases hstatus : d.status with _ | _ | _
    · simp [hdrafts, hstatus] at hd
    · simp only [reduceCtorEq, Option.some.injEq, false_and, and_false, if_false]
      exact ⟨⟨d, rfl, hstatus⟩, hpub⟩
    · rcases hold with hnone | ⟨⟨d', hd', hstatus'⟩, -⟩
      · simp only [hnone, Option.isNone_none, and_self, if_true]
        exact ⟨⟨d.withStatus (some .draft), rfl, rfl⟩, by rintro p ⟨⟩; exact hstatus⟩
      · simp only [hd', Option.isNone_some, Bool.false_eq_true, and_false, if_false]
        exact ⟨⟨d', hd', hstatus'⟩, by rintro p ⟨⟩; exact hstatus⟩

theorem slotted_effect (h : s.tables.Slotted s.registry) (he : s.Effect docType op t)
    (hop : op.requiresDrafts = true → s.registry.hasDrafts docType = true) :
    t.Slotted s.registry := by
  cases he with
  | createDraft data status hdrafts =>
    refine h.put ?_
    rw [hdrafts]
    refine ⟨⟨_, rfl, rfl⟩, fun p hp => ?_⟩
    obtain ⟨-, hp⟩ := Option.ite_none_right_eq_some.1 hp
    obtain rfl := Option.some.inj hp
    rfl
  | createPlain data status hdrafts =>
    refine h.put ?_
    rw [hdrafts]
    exact ⟨rfl, _, rfl, rfl⟩
  | edit id data status v d hv hd hstatus =>
    refine h.put ?_
    have hslots := h docType id v hv
    cases hdrafts : s.registry.hasDrafts docType with
    | true =>
      rw [hdrafts] at hslots
      obtain ⟨⟨d', hd', hstatus'⟩, hpub⟩ := hslots
      have heditable : s.editable docType = some .draft := by simp [editable, hdrafts]
      rw [heditable] at hd ⊢
      obtain rfl : d' = d := Option.some.inj (hd'.symm.trans hd)
      exact ⟨⟨_, rfl, hstatus'⟩, hpub⟩
    | false =>
      rw [hdrafts] at hslots
      obtain ⟨hnone, d', hd', hstatus'⟩ := hslots
      have heditable : s.editable docType = none := by simp [editable, hdrafts]
      rw [heditable] at hd ⊢
      obtain rfl : d' = d := Option.some.inj (hd'.symm.trans hd)
      exact ⟨hnone, _, rfl, hstatus'⟩
  | editAndPublish id data v d hdrafts hv hd =>
    refine h.put ?_
    have hslots := h docType id v hv
    rw [hdrafts] at hslots ⊢
    obtain ⟨⟨d', hd', hstatus'⟩, -⟩ := hslots
    obtain rfl : d' = d := Option.some.inj (hd'.symm.trans hd)
    exact ⟨⟨_, rfl, hstatus'⟩, by rintro p ⟨⟩; rfl⟩
  | delete id => exact Tables.Every.remove h docType id
  | publish id v d hv hd =>
    refine h.put ?_
    have hslots := h docType id v hv
    rw [hop rfl] at hslots ⊢
    exact ⟨hslots.1, by rintro p ⟨⟩; rfl⟩
  | unpublish id v hv =>
    refine h.put ?_
    have hslots := h docType id v hv
    rw [hop rfl] at hslots ⊢
    exact ⟨hslots.1, by simp⟩
  | nothingToEdit | nothingToPublish | nothingToUnpublish => exact h

/-! ## What a write touches -/

theorem get?_effect_ne (he : s.Effect docType op t) {docType' : String} {id' : DocumentId}
    (hkey : ¬ (docType = docType' ∧ s.target op = id')) :
    t.get? docType' id' = s.tables.get? docType' id' := by
  cases he with
  | delete id => exact Tables.get?_remove_ne hkey
  | nothingToEdit | nothingToPublish | nothingToUnpublish => rfl
  | createDraft | createPlain | edit | editAndPublish | publish | unpublish =>
    exact Tables.get?_put_ne hkey

theorem published?_effect (he : s.Effect docType op t)
    (hdrafts : s.registry.hasDrafts docType = true) (hop : op.setsPublished = false)
    (id' : DocumentId) : t.published? docType id' = s.tables.published? docType id' := by
  cases he with
  | edit id data status v d hv hd hstatus =>
    have heditable : s.editable docType = some .draft := by simp [editable, hdrafts]
    unfold Tables.published?
    by_cases hid : id = id'
    · subst hid
      rw [Tables.get?_put_self, heditable, hv]
      rfl
    · rw [Tables.get?_put_ne fun hkey => hid hkey.2]
  | nothingToEdit => rfl
  | editAndPublish | createDraft | createPlain | delete | publish | nothingToPublish | unpublish
  | nothingToUnpublish => simp [WriteOp.setsPublished] at hop

theorem unpublished_of_effect (he : s.Effect docType op t)
    (hdrafts : s.registry.hasDrafts docType = true) (hsets : op.setsPublished = true)
    (hop : op.publishes = false) : t.published? docType (s.target op) = none := by
  unfold Tables.published?
  cases he with
  | createDraft data status hdrafts' =>
    have hstatus : status ≠ some .published := by simpa [WriteOp.publishes] using hop
    simp only [target, WriteOp.id?, Option.getD_none, if_neg hstatus]
    rw [Tables.get?_put_self]
    rfl
  | createPlain data status hplain => exact absurd (hdrafts.symm.trans hplain) (by simp)
  | edit id data status v d hv hd hstatus =>
    exact absurd (hsets.symm.trans hop) (by simp)
  | nothingToEdit id data status h => exact absurd (hsets.symm.trans hop) (by simp)
  | delete id =>
    rw [show s.target (.delete id) = id from rfl, Tables.get?_remove_self]
    rfl
  | unpublish id v hv =>
    rw [show s.target (.unpublish id) = id from rfl, Tables.get?_put_self]
    rfl
  | nothingToUnpublish id h =>
    rw [show s.target (.unpublish id) = id from rfl, h]
    rfl
  | editAndPublish | publish | nothingToPublish => simp [WriteOp.publishes] at hop

theorem copyOf_of_effect (h : s.tables.Slotted s.registry) (he : s.Effect docType op t)
    (hdrafts : s.registry.hasDrafts docType = true) (hop : op.publishes = true) {p : Document}
    (hp : t.published? docType (s.target op) = some p) :
    ∃ d, t.draft? docType (s.target op) = some d ∧ p.CopyOf d := by
  obtain ⟨v, hv, hvp⟩ := Option.bind_eq_some_iff.1 hp
  unfold Tables.draft?
  rw [hv, Option.bind_some]
  cases he with
  | createDraft data status hdrafts' =>
    have hstatus : status = some .published := by simpa [WriteOp.publishes] using hop
    simp only [target, WriteOp.id?, Option.getD_none, Tables.get?_put_self, Option.some.injEq] at hv
    subst hv hstatus
    obtain rfl := Option.some.inj hvp
    exact ⟨_, rfl, copyOf_publishedCopy _ _⟩
  | createPlain data status hplain => exact absurd (hdrafts.symm.trans hplain) (by simp)
  | edit id data status v d hv hd hstatus =>
    exact absurd ⟨hdrafts, by simpa [WriteOp.publishes] using hop⟩ hstatus
  | editAndPublish id data v' d hdrafts' hv' hd =>
    simp only [target, WriteOp.id?, Option.getD_some, Tables.get?_put_self, Option.some.injEq] at hv
    subst hv
    obtain rfl := Option.some.inj hvp
    exact ⟨_, rfl, copyOf_publishedCopy _ _⟩
  | publish id v' d hv' hd =>
    simp only [target, WriteOp.id?, Option.getD_some, Tables.get?_put_self, Option.some.injEq] at hv
    subst hv
    obtain rfl := Option.some.inj hvp
    exact ⟨d, hd, copyOf_publishedCopy _ _⟩
  | nothingToEdit id data status hnone =>
    have heditable : s.editable docType = some .draft := by simp [editable, hdrafts]
    have hdraft : v.draft = none := by
      have hget := hnone v hv
      rwa [heditable] at hget
    exact absurd hdraft (h.draft_ne_none hdrafts hv)
  | nothingToPublish id hnone => exact absurd (hnone v hv) (h.draft_ne_none hdrafts hv)
  | delete | unpublish | nothingToUnpublish => simp [WriteOp.publishes] at hop

end MemoryStore
end ContentEngine
