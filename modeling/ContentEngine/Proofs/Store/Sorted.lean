import ContentEngine.Proofs.Store.Scan
import ContentEngine.Proofs.Value.Order
import ContentEngine.Sample.Blog

/-!
# The order of fetched rows

What a sort key sees of a row is a term: nothing, a number, a text, a flag, or the name of the kind
of any other value. Integers are numbers, and so are the milliseconds of an instant in a datetime
field. Terms have a strict order, and rows are in the order of the first key whose terms differ;
rows with the same terms under all keys are in the order of their identifiers. `page_sorted` says
that a page shows the matching rows in this order, if no float is stored under a sorted field.

Comparing values decides the order of terms, floats apart. An insertion compares the new row with
one sorted row after the other and so finds its place; the rows that it meets as equal were inserted
earlier and have smaller identifiers.
-/

namespace ContentEngine

inductive SortTerm where
  | absent
  | number (n : Int)
  | text (s : String)
  | flag (b : Bool)
  | other (kind : String)
deriving DecidableEq, Repr

namespace SortTerm

/-- What is seen of a value in a field of a kind. -/
def of (kind : Option ScalarKind) : Option Value → SortTerm
  | none => .absent
  | some .null => .absent
  | some (.bool b) => .flag b
  | some (.int i) => .number i.toInt
  | some (.text s) =>
    match kind with
    | some .datetime => ((Instant.millis? s).map .number).getD (.text s)
    | _ => .text s
  | some v => .other v.kindLabel

def kind? : SortTerm → Option String
  | .absent => none
  | .number _ => some "int"
  | .text _ => some "text"
  | .flag _ => some "bool"
  | .other kind => some kind

inductive Before : SortTerm → SortTerm → Prop
  | absent {t : SortTerm} (ht : t ≠ .absent) : Before .absent t
  | number {m n : Int} (h : m < n) : Before (.number m) (.number n)
  | text {s t : String} (h : s < t) : Before (.text s) (.text t)
  | flag : Before (.flag false) (.flag true)
  | kinds {s t : SortTerm} {j k : String} (hs : s.kind? = some j) (ht : t.kind? = some k)
      (h : j < k) : Before s t

variable {s t u : SortTerm}

theorem Before.trans (hst : Before s t) (htu : Before t u) : Before s u := by
  cases hst with
  | absent ht =>
    refine .absent ?_
    rintro rfl
    cases htu with
    | absent hu => exact hu rfl
    | kinds _ hu => cases hu
  | number h =>
    cases htu with
    | number h' => exact .number (h.trans h')
    | kinds ht hu hlt => exact .kinds ht hu hlt
  | text h =>
    cases htu with
    | text h' => exact .text (String.lt_trans h h')
    | kinds ht hu hlt => exact .kinds ht hu hlt
  | flag =>
    cases htu with
    | kinds ht hu hlt => exact .kinds ht hu hlt
  | kinds hs ht h =>
    cases htu with
    | absent => cases ht
    | number | text | flag => exact .kinds hs ht h
    | kinds ht' hu h' =>
      obtain rfl := Option.some.inj (ht.symm.trans ht')
      exact .kinds hs hu (String.lt_trans h h')

/-! ## Comparing values -/

/-- Bringing a value into the family of its field leaves it as it is seen there. -/
theorem of_normalize? (kind : ScalarKind) (v : Value) :
    of none (some ((v.normalize? kind).getD v)) = of (some kind) (some v) := by
  cases kind <;> cases v <;> try rfl
  case datetime.text s =>
    cases hmillis : Instant.millis? s with
    | none => simp [Value.normalize?, of, hmillis]
    | some n => simp [Value.normalize?, of, hmillis, Instant.toInt_ofInt_millis hmillis]

theorem kind?_of {v : Value} (hv : v.isNull = false) :
    (of none (some v)).kind? = some v.kindLabel := by
  cases v with
  | null => cases hv
  | _ => rfl

theorem of_eq_absent {v : Option Value} : of none v = .absent ↔ Value.sortRank v = 0 := by
  rcases v with _ | v
  · exact iff_of_true rfl rfl
  · cases v <;> simp [of, Value.sortRank]

theorem before_of_sortRank_lt {a b : Option Value} (h : Value.sortRank a < Value.sortRank b) :
    Before (of none a) (of none b) := by
  by_cases ha : of none a = .absent
  · rw [ha]
    exact .absent (by rw [Ne, of_eq_absent]; omega)
  rw [of_eq_absent] at ha
  obtain ⟨v, rfl, hv⟩ := Value.exists_of_sortRank_ne_zero ha
  obtain ⟨w, rfl, hw⟩ := Value.exists_of_sortRank_ne_zero (v := b) (by omega)
  have hlabels := Value.compare_kindLabel hv hw (by
    rw [Value.isNumber_iff, Value.isNumber_iff]
    omega)
  rw [Nat.compare_eq_lt.2 h] at hlabels
  exact .kinds (kind?_of hv) (kind?_of hw) (compareOfLessAndEq_eq_lt.1 hlabels)

/-- In a class, only texts, booleans and numbers differ for a key. -/
theorem of_sortRank_eq {a b : Option Value} (h : Value.sortRank a = Value.sortRank b) :
    (∃ s t, a = some (.text s) ∧ b = some (.text t)) ∨
      (∃ c d, a = some (.bool c) ∧ b = some (.bool d)) ∨
      (Value.IsNumber a ∧ Value.IsNumber b) ∨
      of none a = of none b ∧ Value.sortText a = "" ∧ Value.sortText b = "" := by
  rw [Value.isNumber_iff, Value.isNumber_iff]
  rcases a with _ | a
  · refine .inr (.inr (.inr ⟨(of_eq_absent.2 h.symm).symm, rfl, ?_⟩))
    rcases b with _ | b
    · rfl
    · cases b <;> first | rfl | cases h
  rcases b with _ | b
  · refine .inr (.inr (.inr ⟨of_eq_absent.2 h, ?_, rfl⟩))
    cases a <;> first | rfl | cases h
  cases a <;> cases b <;> first
    | exact .inl ⟨_, _, rfl, rfl⟩
    | exact .inr (.inl ⟨_, _, rfl, rfl⟩)
    | exact .inr (.inr (.inl ⟨rfl, rfl⟩))
    | exact .inr (.inr (.inr ⟨rfl, rfl, rfl⟩))
    | simp [Value.sortRank] at h

theorem before_of_sortText_lt {a b : Option Value} (hrank : Value.sortRank a = Value.sortRank b)
    (h : Value.sortText a < Value.sortText b) : Before (of none a) (of none b) := by
  rcases of_sortRank_eq hrank with ⟨s, t, rfl, rfl⟩ | ⟨c, d, rfl, rfl⟩ | hnumber | ⟨-, ha, hb⟩
  · exact .text h
  · cases c <;> cases d <;> first | exact .flag | exact absurd h (by decide)
  · obtain ⟨⟨m, rfl⟩, n, rfl⟩ := hnumber
    cases m <;> cases n <;> exact absurd h (String.lt_irrefl _)
  · rw [ha, hb] at h
    exact absurd h (String.lt_irrefl _)

theorem of_congr {a b : Option Value} (hnumber : ¬ (Value.IsNumber a ∧ Value.IsNumber b))
    (hrank : Value.sortRank a = Value.sortRank b) (htext : Value.sortText a = Value.sortText b) :
    of none a = of none b := by
  rcases of_sortRank_eq hrank with ⟨s, t, rfl, rfl⟩ | ⟨c, d, rfl, rfl⟩ | h | ⟨h, -⟩
  · exact congrArg SortTerm.text htext
  · cases c <;> cases d <;> first | rfl | exact absurd htext (by decide)
  · exact absurd h hnumber
  · exact h

section
variable {a b : Option Value} (ha : ∀ x, a ≠ some (.float x)) (hb : ∀ x, b ≠ some (.float x))
include ha hb

theorem exists_int (h : Value.IsNumber a ∧ Value.IsNumber b) :
    ∃ i j, a = some (.int i) ∧ b = some (.int j) := by
  obtain ⟨⟨m, rfl⟩, n, rfl⟩ := h
  cases m with
  | float x => exact absurd rfl (ha x)
  | int i =>
    cases n with
    | float y => exact absurd rfl (hb y)
    | int j => exact ⟨i, j, rfl, rfl⟩

theorem before_of_lt (h : Value.canonicalCompare a b = .lt) : Before (of none a) (of none b) := by
  by_cases hnumber : Value.IsNumber a ∧ Value.IsNumber b
  · obtain ⟨i, j, rfl, rfl⟩ := exists_int ha hb hnumber
    exact .number (Int.compare_eq_lt.1 h)
  · rw [Value.canonicalCompare_eq_keyCompare hnumber, Value.keyCompare, compareLex,
      Ordering.then_eq_lt] at h
    rcases h with hrank | ⟨hrank, htext⟩
    · exact before_of_sortRank_lt (Nat.compare_eq_lt.1 hrank)
    · exact before_of_sortText_lt (Nat.compare_eq_eq.1 hrank) (compareOfLessAndEq_eq_lt.1 htext)

theorem eq_of_eq (h : Value.canonicalCompare a b = .eq) : of none a = of none b := by
  by_cases hnumber : Value.IsNumber a ∧ Value.IsNumber b
  · obtain ⟨i, j, rfl, rfl⟩ := exists_int ha hb hnumber
    exact congrArg SortTerm.number (Int.compare_eq_eq.1 h)
  · rw [Value.canonicalCompare_eq_keyCompare hnumber, Value.keyCompare_eq_eq] at h
    exact of_congr hnumber h.1 h.2

end

end SortTerm

/-! ## Comparing rows -/

namespace RowKey

/-- What the key sees of a row. -/
def term (k : RowKey) (d : Document) : SortTerm := .of k.kind (d.value? k.key.field)

def Before (k : RowKey) (d e : Document) : Prop :=
  match k.key.direction with
  | .ascending => (k.term d).Before (k.term e)
  | .descending => (k.term e).Before (k.term d)

/-- No float is stored in the field. -/
def FloatFree (k : RowKey) (d : Document) : Prop := ∀ x, d.value? k.key.field ≠ some (.float x)

variable {k : RowKey} {d e f : Document}

theorem Before.trans (hde : k.Before d e) (hef : k.Before e f) : k.Before d f := by
  obtain ⟨⟨field, direction⟩, kind⟩ := k
  cases direction with
  | ascending => exact SortTerm.Before.trans hde hef
  | descending => exact SortTerm.Before.trans hef hde

theorem before_congr {d' e' : Document} (hd : k.term d = k.term d') (he : k.term e = k.term e') :
    k.Before d e ↔ k.Before d' e' := by
  unfold Before
  rw [hd, he]

theorem of_valueOf (k : RowKey) (d : Document) : SortTerm.of none (k.valueOf d) = k.term d := by
  obtain ⟨key, kind⟩ := k
  unfold valueOf term
  cases d.value? key.field with
  | none => rfl
  | some v =>
    cases kind with
    | none => rfl
    | some kind => exact SortTerm.of_normalize? kind v

theorem eq_float_of_normalize? {kind : ScalarKind} {v : Value} {x : Double}
    (h : (v.normalize? kind).getD v = .float x) : v = .float x := by
  cases kind <;> cases v <;> first | exact h | cases h | skip
  case datetime.text s =>
    unfold Value.normalize? at h
    cases hmillis : Instant.millis? s with
    | none => simp [hmillis] at h
    | some n => simp [hmillis] at h

theorem FloatFree.valueOf (h : k.FloatFree d) : ∀ x, k.valueOf d ≠ some (.float x) := by
  intro x hx
  obtain ⟨v, hv, hval⟩ := Option.map_eq_some_iff.1 hx
  cases hkind : k.kind with
  | none =>
    rw [hkind] at hval
    exact h x (hv.trans (congrArg some hval))
  | some kind =>
    rw [hkind] at hval
    exact h x (hv.trans (congrArg some (eq_float_of_normalize? hval)))

section
variable (hd : k.FloatFree d) (he : k.FloatFree e)
include hd he

theorem before_of_lt (h : k.compare d e = .lt) : k.Before d e := by
  have hterms := SortTerm.before_of_lt hd.valueOf he.valueOf
  have hswapped := SortTerm.before_of_lt he.valueOf hd.valueOf
  rw [of_valueOf, of_valueOf] at hterms hswapped
  obtain ⟨⟨field, direction⟩, kind⟩ := k
  cases direction with
  | ascending => exact hterms h
  | descending => exact hswapped ((Value.canonicalCompare_swap _ _).trans h)

theorem term_of_eq (h : k.compare d e = .eq) : k.term d = k.term e := by
  have hterms := SortTerm.eq_of_eq hd.valueOf he.valueOf
  rw [of_valueOf, of_valueOf] at hterms
  obtain ⟨⟨field, direction⟩, kind⟩ := k
  cases direction with
  | ascending => exact hterms h
  | descending => exact hterms (Ordering.swap_eq_eq.1 h)

end

theorem compare_swap (k : RowKey) (d e : Document) : k.compare e d = (k.compare d e).swap := by
  unfold compare
  rw [Value.canonicalCompare_swap]
  cases k.key.direction <;> rfl

end RowKey

namespace Rows

/-- The order by one key after the other, by the identifiers at the end. -/
def Before : List RowKey → Document → Document → Prop
  | [], d, e => d.id < e.id
  | k :: ks, d, e => k.Before d e ∨ k.term d = k.term e ∧ Before ks d e

variable {ks : List RowKey} {d e f : Document}

theorem Before.trans (hde : Before ks d e) (hef : Before ks e f) : Before ks d f := by
  induction ks with
  | nil => exact String.lt_trans hde hef
  | cons k ks ih =>
    rcases hde with hde | ⟨hkde, hde⟩
    · rcases hef with hef | ⟨hkef, -⟩
      · exact .inl (hde.trans hef)
      · exact .inl ((RowKey.before_congr rfl hkef).1 hde)
    · rcases hef with hef | ⟨hkef, hef⟩
      · exact .inl ((RowKey.before_congr hkde rfl).2 hef)
      · exact .inr ⟨hkde.trans hkef, ih hde hef⟩

theorem compare_swap (ks : List RowKey) (d e : Document) :
    compare ks e d = (compare ks d e).swap := by
  induction ks with
  | nil => rfl
  | cons k ks ih => rw [compare, compare, RowKey.compare_swap, ih, Ordering.swap_then]

section
variable (hd : ∀ k ∈ ks, k.FloatFree d) (he : ∀ k ∈ ks, k.FloatFree e)
include hd he

theorem before_of_lt (h : compare ks d e = .lt) : Before ks d e := by
  induction ks with
  | nil => cases h
  | cons k ks ih =>
    rw [List.forall_mem_cons] at hd he
    rcases Ordering.then_eq_lt.1 h with h | ⟨hk, h⟩
    · exact .inl (RowKey.before_of_lt hd.1 he.1 h)
    · exact .inr ⟨RowKey.term_of_eq hd.1 he.1 hk, ih hd.2 he.2 h⟩

/-- Rows that no key tells apart are in the order of their identifiers. -/
theorem before_of_eq (h : compare ks d e = .eq) (hid : d.id < e.id) : Before ks d e := by
  induction ks with
  | nil => exact hid
  | cons k ks ih =>
    rw [List.forall_mem_cons] at hd he
    obtain ⟨hk, h⟩ := Ordering.then_eq_eq.1 h
    exact .inr ⟨RowKey.term_of_eq hd.1 he.1 hk, ih hd.2 he.2 h⟩

end

/-! ## Sorting -/

/-- Insertion keeps the order, with the last row first. -/
theorem pairwise_insertBack {rows : List Document}
    (hfree : ∀ e ∈ d :: rows, ∀ k ∈ ks, k.FloatFree e) (hids : ∀ e ∈ rows, e.id < d.id)
    (hrows : rows.Pairwise fun e f => Before ks f e) :
    (insertBack ks d rows).Pairwise fun e f => Before ks f e := by
  rw [List.forall_mem_cons] at hfree
  obtain ⟨hd, hfree⟩ := hfree
  induction rows with
  | nil => exact List.pairwise_singleton _ _
  | cons e rows ih =>
    rw [List.forall_mem_cons] at hfree hids
    obtain ⟨hlast, hrest⟩ := List.pairwise_cons.1 hrows
    unfold insertBack
    by_cases hlt : compare ks d e = .lt
    · rw [if_pos hlt]
      refine List.pairwise_cons.2 ⟨fun f hf => ?_, ih hids.2 hrest hfree.2⟩
      rcases List.mem_cons.1 ((perm_insertBack ks d rows).mem_iff.1 hf) with rfl | hf
      · exact before_of_lt hd hfree.1 hlt
      · exact hlast f hf
    · rw [if_neg hlt]
      have hed : Before ks e d := by
        cases hcompare : compare ks e d with
        | lt => exact before_of_lt hfree.1 hd hcompare
        | eq => exact before_of_eq hfree.1 hd hcompare hids.1
        | gt =>
          rw [compare_swap, hcompare] at hlt
          exact absurd rfl hlt
      refine List.pairwise_cons.2 ⟨fun f hf => ?_, hrows⟩
      rcases List.mem_cons.1 hf with rfl | hf
      · exact hed
      · exact (hlast f hf).trans hed

theorem pairwise_sort {rows : List Document} (hfree : ∀ d ∈ rows, ∀ k ∈ ks, k.FloatFree d)
    (hids : rows.Pairwise fun d e => d.id < e.id) : (sort ks rows).Pairwise (Before ks) := by
  have hfold : ∀ sorted : List Document, (∀ d ∈ sorted, ∀ k ∈ ks, k.FloatFree d) →
      (∀ d ∈ sorted, ∀ e ∈ rows, d.id < e.id) →
      (sorted.Pairwise fun e f => Before ks f e) →
      (rows.foldl (fun sorted d => insertBack ks d sorted) sorted).Pairwise
        fun e f => Before ks f e := by
    induction rows with
    | nil => exact fun _ _ _ h => h
    | cons d rows ih =>
      intro sorted hfreeSorted hbelow hsorted
      rw [List.forall_mem_cons] at hfree
      obtain ⟨hd, hids⟩ := List.pairwise_cons.1 hids
      have hmem : ∀ e, e ∈ insertBack ks d sorted → e = d ∨ e ∈ sorted := fun e he =>
        List.mem_cons.1 ((perm_insertBack ks d sorted).mem_iff.1 he)
      refine ih hfree.2 hids _ ?_ ?_ ?_
      · intro e he
        rcases hmem e he with rfl | he
        · exact hfree.1
        · exact hfreeSorted e he
      · intro e he f hf
        rcases hmem e he with rfl | he
        · exact hd f hf
        · exact hbelow e he f (List.mem_cons_of_mem _ hf)
      · exact pairwise_insertBack (List.forall_mem_cons.2 ⟨hfree.1, hfreeSorted⟩)
          (fun e he => hbelow e he d List.mem_cons_self) hsorted
  exact List.pairwise_reverse.2 (hfold [] (by simp) (by simp) List.Pairwise.nil)

end Rows

namespace MemoryStore
variable {s : MemoryStore} {docType : String} {p : Predicate} {status : Option Status}

/-- A page from the start with room for all rows shows the rows that match, in the order of the sort
keys. -/
theorem page_sorted (hs : s.Reachable) {w : FetchWindow} (hstart : w.start = 0)
    (hlimit : (s.matching docType p status).length ≤ w.limit.toNat)
    (hfloat : ∀ d ∈ s.matching docType p status, ∀ key ∈ w.sort, ∀ x,
      d.value? key.field ≠ some (.float x)) :
    ∃ rows : List Document,
      s.page docType p status w = (s.enter docType).map (fun _ => rows.map w.projection.apply) ∧
      rows.Perm (s.matching docType p status) ∧
      rows.Pairwise (Rows.Before (w.sort.map (RowKey.ofSortKey s.registry docType))) := by
  refine ⟨s.rows docType p status w.sort, ?_, s.perm_rows .., ?_⟩
  · have hlength := (s.perm_rows docType p status w.sort).length_eq
    rw [page_eq, hstart]
    simp only [UInt64.toNat_zero, List.drop_zero]
    rw [List.take_of_length_le (by omega)]
  · refine Rows.pairwise_sort (fun d hd k hk => ?_) (ascending_matching hs.valid ..)
    obtain ⟨key, hkey, rfl⟩ := List.mem_map.1 hk
    exact hfloat d hd key hkey

/-- A published article with what is stored as its date. -/
def released (id : DocumentId) (date : Value) : Document :=
  ⟨"article", id, some .published, [("releasedOn", date)]⟩

/-- Articles with one instant in two notations, next to articles without one. -/
def dated : MemoryStore :=
  ((Blog.store.insert (released "d" (.text "2024-01-01T00:00:00Z"))).insert
    (released "e" (.text "2024-01-01T01:00:00+01:00"))).insert (released "c" .null)

theorem page_sorted_dated :
    let w : FetchWindow := ⟨0, 10, [⟨"releasedOn", .descending⟩], .all⟩
    ∃ rows : List Document,
      dated.page "article" .always (some .published) w = .ok (rows.map w.projection.apply) ∧
      rows.Perm (dated.matching "article" .always (some .published)) ∧
      rows.Pairwise (Rows.Before (w.sort.map (RowKey.ofSortKey dated.registry "article"))) := by
  intro w
  have hs : dated.Reachable := .insert _ _ (.insert _ _ (.insert _ _ (.insert _ _ (.insert _ _
    (.empty _ rfl)))))
  have hrows : dated.matching "article" .always (some .published) =
      [Blog.first, Blog.second, released "c" .null, released "d" (.text "2024-01-01T00:00:00Z"),
        released "e" (.text "2024-01-01T01:00:00+01:00")] := rfl
  refine page_sorted hs rfl (by rw [hrows]; decide) fun d hd key hkey x => ?_
  obtain rfl := List.mem_singleton.1 hkey
  rw [hrows] at hd
  simp only [List.mem_cons, List.not_mem_nil, or_false] at hd
  rcases hd with rfl | rfl | rfl | rfl | rfl <;> exact fun h => nomatch h

end MemoryStore
end ContentEngine
