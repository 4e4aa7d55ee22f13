import ContentEngine.Proofs.Outcome
import ContentEngine.Proofs.Store.Contents

/-!
# What a scan of a table gives

A scan for a predicate finds every version of some status that the predicate accepts, once, and
sorting keeps what it found. A window that is large enough shows all of it.
-/

namespace ContentEngine

namespace Rows

theorem perm_insertBack (ks : List RowKey) (d : Document) (rows : List Document) :
    (insertBack ks d rows).Perm (d :: rows) := by
  induction rows with
  | nil => exact .refl _
  | cons e rows ih =>
    unfold insertBack
    by_cases hlt : compare ks d e = .lt
    · rw [if_pos hlt]
      exact (ih.cons e).trans (.swap d e rows)
    · rw [if_neg hlt]

theorem perm_sort (ks : List RowKey) (rows : List Document) : (sort ks rows).Perm rows := by
  have hfold : ∀ sorted : List Document,
      (rows.foldl (fun sorted d => insertBack ks d sorted) sorted).Perm (rows ++ sorted) := by
    induction rows with
    | nil => exact fun sorted => .refl _
    | cons d rows ih =>
      intro sorted
      refine (ih (insertBack ks d sorted)).trans ?_
      exact ((perm_insertBack ks d sorted).append_left rows).trans List.perm_middle
  refine (List.reverse_perm _).trans ?_
  have hrows := hfold []
  rwa [List.append_nil] at hrows

end Rows

namespace MemoryStore
variable {s : MemoryStore} {docType : String} {p : Predicate} {status : Option Status}

/-- The versions of some status in a table. -/
def visible (s : MemoryStore) (docType : String) (status : Option Status) : List Document :=
  (Entries.values ((Entries.get? s.tables docType).getD [])).filterMap (·.get status)

theorem mem_visible (hs : s.tables.Valid) {d : Document} :
    d ∈ s.visible docType status ↔ ∃ id, s.get? docType id status = some d := by
  have hsorted := hs.getD_rowsSorted docType
  simp only [← get?_table, visible, Entries.values, List.mem_filterMap, List.mem_map]
  constructor
  · rintro ⟨v, ⟨⟨id, w⟩, hmem, rfl⟩, hd⟩
    exact ⟨id, Option.bind_eq_some_iff.2 ⟨w, hsorted.get?_of_mem hmem, hd⟩⟩
  · rintro ⟨id, hd⟩
    obtain ⟨v, hv, hd⟩ := Option.bind_eq_some_iff.1 hd
    exact ⟨v, ⟨_, Entries.mem_of_get? hv, rfl⟩, hd⟩

/-- The identifiers are the keys of the table, as far as they have a version of the status. -/
theorem ascending_visible (hs : s.tables.Valid) (docType : String) (status : Option Status) :
    (s.visible docType status).Pairwise fun d e => d.id < e.id := by
  have hsorted := hs.getD_rowsSorted docType
  let found := Entries.filterValues (·.get status) ((Entries.get? s.tables docType).getD [])
  have hfound : Entries.Sorted found := hsorted.filterValues (·.get status)
  have hids : ∀ e ∈ found, e.2.id = e.1 := by
    intro e he
    have hget := hfound.get?_of_mem he
    rw [hsorted.get?_filterValues, Tables.get?_getD] at hget
    obtain ⟨v, hv, hd⟩ := Option.bind_eq_some_iff.1 hget
    exact (hs.keyed docType e.1 v hv status e.2 hd).2
  rw [visible, ← Entries.values_filterValues, Entries.values, List.pairwise_map]
  refine List.Pairwise.imp_of_mem (fun {e f} he hf hlt => ?_) hfound
  rwa [hids e he, hids f hf]

theorem nodup_visible (hs : s.tables.Valid) (docType : String) (status : Option Status) :
    ((s.visible docType status).map (·.id)).Nodup :=
  List.Pairwise.map _ (fun _ _ => String.ne_of_lt) (ascending_visible hs docType status)

theorem mem_matching (hs : s.tables.Valid) {d : Document} :
    d ∈ s.matching docType p status ↔
      (∃ id, s.get? docType id status = some d) ∧ p.holds (s.lookup status) d = true := by
  rw [← mem_visible hs]
  exact List.mem_filter

theorem ascending_matching (hs : s.tables.Valid) (docType : String) (p : Predicate)
    (status : Option Status) : (s.matching docType p status).Pairwise fun d e => d.id < e.id :=
  (ascending_visible hs docType status).filter _

theorem nodup_matching (hs : s.tables.Valid) (docType : String) (p : Predicate)
    (status : Option Status) : ((s.matching docType p status).map (·.id)).Nodup :=
  List.Nodup.sublist (List.filter_sublist.map _) (nodup_visible hs docType status)

/-- All rows that match, in the order of the sort keys. -/
def rows (s : MemoryStore) (docType : String) (p : Predicate) (status : Option Status)
    (sort : List SortKey) : List Document :=
  Rows.sort (sort.map (RowKey.ofSortKey s.registry docType)) (s.matching docType p status)

theorem perm_rows (s : MemoryStore) (docType : String) (p : Predicate) (status : Option Status)
    (sort : List SortKey) : (s.rows docType p status sort).Perm (s.matching docType p status) :=
  Rows.perm_sort _ _

theorem page_eq (docType : String) (p : Predicate) (status : Option Status) (w : FetchWindow) :
    s.page docType p status w = (s.enter docType).map fun _ =>
      (((s.rows docType p status w.sort).drop w.start.toNat).take w.limit.toNat).map
        w.projection.apply := by
  unfold page
  cases s.enter docType <;> rfl

theorem count_eq (docType : String) (p : Predicate) (status : Option Status)
    (sort : List SortKey) :
    s.count docType p status = (s.enter docType).map fun _ =>
      UInt64.ofNat (s.rows docType p status sort).length := by
  unfold count
  rw [(s.perm_rows docType p status sort).length_eq]
  cases s.enter docType <;> rfl

/-- A page from the start with room for all rows is all of them. -/
theorem rows_of_page {limit : UInt32} {sort : List SortKey} {all : List Document}
    (hlimit : (s.matching docType p status).length ≤ limit.toNat)
    (h : s.page docType p status ⟨0, limit, sort, .all⟩ = .ok all) :
    all = s.rows docType p status sort := by
  rw [page_eq] at h
  obtain ⟨u, -, rfl⟩ := Except.map_eq_ok_iff.1 h
  have hlength : (s.rows docType p status sort).length ≤ limit.toNat :=
    (s.perm_rows docType p status sort).length_eq ▸ hlimit
  have hall : (Projection.apply .all) = id := funext Projection.apply_all
  rw [hall, List.map_id]
  exact List.take_of_length_le hlength

end MemoryStore
end ContentEngine
