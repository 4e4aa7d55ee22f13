import ContentEngine.Proofs.Store.Contents

/-!
# Reading published versions

Two stores agree on what is published if every identifier has the same published version in both,
whatever drafts they hold. Reads at any other status than draft cannot tell them apart.
-/

namespace ContentEngine

theorem Versions.get_of_ne_draft {status : Option Status} (h : status ≠ some .draft)
    (v : Versions) : v.get status = v.published := by
  rcases status with _ | _ | _
  · rfl
  · exact absurd rfl h
  · rfl

namespace MemoryStore

/-- The drafts, the clock and the counters may differ. -/
structure AgreeOnPublished (s s' : MemoryStore) : Prop where
  registry : s.registry = s'.registry
  latency : s.latency = s'.latency
  failing : s.failing = s'.failing
  published : ∀ docType id, s.get? docType id (some .published) = s'.get? docType id (some .published)

variable {s s' : MemoryStore} {status : Option Status}

theorem get?_of_ne_draft (hstatus : status ≠ some .draft) (docType : String) (id : DocumentId) :
    s.get? docType id status = s.get? docType id (some .published) := by
  simp only [get?, Versions.get_of_ne_draft hstatus]
  rfl

theorem readStatus_ne_draft (hstatus : status ≠ some .draft) (r : Registry) (docType : String) :
    readStatus r docType status ≠ some .draft := by
  unfold readStatus
  by_cases hdrafts : r.hasDrafts docType
  · rw [if_pos hdrafts]
    rcases status with _ | _ | _
    · simp
    · exact absurd rfl hstatus
    · simp
  · rw [if_neg hdrafts]
    simp

namespace AgreeOnPublished

theorem get?_eq (h : s.AgreeOnPublished s') (hstatus : status ≠ some .draft) (docType : String)
    (id : DocumentId) : s.get? docType id status = s'.get? docType id status := by
  rw [get?_of_ne_draft hstatus, get?_of_ne_draft hstatus, h.published]

theorem lookup_eq (h : s.AgreeOnPublished s') (hstatus : status ≠ some .draft) :
    s.lookup status = s'.lookup status := by
  funext docType id
  unfold lookup
  rw [h.registry]
  exact h.get?_eq (readStatus_ne_draft hstatus _ docType) docType id

/-- The rows of a table are scanned in the order of identifiers, so the order is the same as well. -/
theorem visible_eq (h : s.AgreeOnPublished s') (hs : s.Reachable) (hs' : s'.Reachable)
    (hstatus : status ≠ some .draft) (docType : String) :
    (Entries.values ((Entries.get? s.tables docType).getD [])).filterMap (·.get status) =
      (Entries.values ((Entries.get? s'.tables docType).getD [])).filterMap (·.get status) := by
  have hsorted := hs.valid.getD_rowsSorted docType
  have hsorted' := hs'.valid.getD_rowsSorted docType
  have hrows := (hsorted.filterValues (·.get status)).ext (hsorted'.filterValues (·.get status))
    fun id => by
      rw [hsorted.get?_filterValues, hsorted'.get?_filterValues, get?_table, get?_table,
        h.get?_eq hstatus docType id]
  rw [← Entries.values_filterValues, ← Entries.values_filterValues, hrows]

theorem matching_eq (h : s.AgreeOnPublished s') (hs : s.Reachable) (hs' : s'.Reachable)
    (hstatus : status ≠ some .draft) (docType : String) (p : Predicate) :
    s.matching docType p status = s'.matching docType p status := by
  unfold matching
  simp only [h.visible_eq hs hs' hstatus docType, h.lookup_eq hstatus]

theorem enter_eq (h : s.AgreeOnPublished s') (docType : String) :
    s.enter docType = s'.enter docType := by
  unfold enter
  rw [h.failing]

theorem count_eq (h : s.AgreeOnPublished s') (hs : s.Reachable) (hs' : s'.Reachable)
    (hstatus : status ≠ some .draft) (docType : String) (p : Predicate) :
    s.count docType p status = s'.count docType p status := by
  unfold count
  rw [h.enter_eq, h.matching_eq hs hs' hstatus]

theorem page_eq (h : s.AgreeOnPublished s') (hs : s.Reachable) (hs' : s'.Reachable)
    (hstatus : status ≠ some .draft) (docType : String) (p : Predicate) (w : FetchWindow) :
    s.page docType p status w = s'.page docType p status w := by
  unfold page
  rw [h.enter_eq, h.registry, h.matching_eq hs hs' hstatus]

theorem references_eq (h : s.AgreeOnPublished s') (hstatus : status ≠ some .draft)
    (docType : String) (ids : List DocumentId) (filter : Option Predicate)
    (projection : Projection) :
    s.references docType ids filter projection status =
      s'.references docType ids filter projection status := by
  unfold references
  simp only [h.enter_eq, h.lookup_eq hstatus, h.get?_eq hstatus]

end AgreeOnPublished

/-- A draft that is stored changes nothing that is published. -/
theorem agreeOnPublished_insert (s : MemoryStore) {d : Document} (hd : d.status = some .draft) :
    s.AgreeOnPublished (s.insert d) where
  registry := rfl
  latency := rfl
  failing := rfl
  published := by
    intro docType id
    have htables : (s.insert d).tables = s.tables.put d.docType d.id
        { (s.tables.get? d.docType d.id).getD {} with draft := some d } := by
      simp [insert, hd, Versions.set]
    simp only [get?, htables]
    by_cases hkey : d.docType = docType ∧ d.id = id
    · obtain ⟨rfl, rfl⟩ := hkey
      rw [Tables.get?_put_self]
      cases s.tables.get? d.docType d.id <;> rfl
    · rw [Tables.get?_put_ne hkey]

end MemoryStore
end ContentEngine
