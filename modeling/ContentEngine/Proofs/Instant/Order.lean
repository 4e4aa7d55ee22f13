import ContentEngine.Proofs.Filter.Families
import ContentEngine.Proofs.Value.Order
import ContentEngine.Store.Rows

/-!
# The order of instants

Filters and sorting compare datetimes by their milliseconds, and these never turn the order of two
instants around. Cutting nanoseconds toward the epoch makes every millisecond one millisecond wide
but one: the millisecond zero has the instants of less than a millisecond before the epoch and those
of less than a millisecond after it. So two instants that are a millisecond or more apart compare as
equal exactly if they are within it.
-/

namespace ContentEngine
namespace Instant

theorem tdiv_mono {x y : Int} (h : x ≤ y) : x.tdiv 1000000 ≤ y.tdiv 1000000 :=
  Int.tdiv_le_tdiv (by omega) h

/-- Cutting toward the epoch goes down after it and up before it. -/
theorem tdiv_eq (x : Int) :
    x.tdiv 1000000 = if 0 ≤ x then x / 1000000 else -(-x / 1000000) := by
  split
  case isTrue h => exact Int.tdiv_eq_ediv_of_nonneg h
  case isFalse h =>
    have hneg : 0 ≤ -x := by omega
    rw [← Int.tdiv_eq_ediv_of_nonneg hneg, Int.neg_tdiv, Int.neg_neg]

/-- A millisecond apart, two instants are told apart unless the epoch is between them and less than
a millisecond from both. -/
theorem tdiv_lt_iff {x y : Int} (h : x + 1000000 ≤ y) :
    x.tdiv 1000000 < y.tdiv 1000000 ↔ ¬ (-1000000 < x ∧ y < 1000000) := by
  rw [tdiv_eq, tdiv_eq]
  split <;> split <;> omega

variable {a b : String} {x y : Int}

theorem millis?_of_nanos? (ha : nanos? a = some x) : millis? a = some (x.tdiv 1000000) := by
  rw [millis?, ha, Option.map_some]

/-- What filters compare when both sides are datetimes. -/
theorem compareOrder?_text {m n : Int} (ha : millis? a = some m) (hb : millis? b = some n)
    {v w : Value} (hv : (Value.text a).normalize? .datetime = some v)
    (hw : (Value.text b).normalize? .datetime = some w) :
    v.compareOrder? w = some (compare m n) := by
  rw [Datum.normalize?_of (.instant a m ha), Option.some.injEq] at hv
  rw [Datum.normalize?_of (.instant b n hb), Option.some.injEq] at hw
  rw [← hv, ← hw]
  exact Datum.compareOrder?_instant (toInt_ofInt_millis ha) (toInt_ofInt_millis hb)

/-- What sorting compares when both rows have a datetime in the field of the key. -/
theorem compare_rows {m n : Int} (ha : millis? a = some m) (hb : millis? b = some n) {k : RowKey}
    {d e : Document} (hk : k.kind = some .datetime) (hd : d.value? k.key.field = some (.text a))
    (he : e.value? k.key.field = some (.text b)) :
    k.compare d e = k.key.direction.apply (compare m n) := by
  have hvalues : k.valueOf d = some (.int (Int64.ofInt m)) ∧
      k.valueOf e = some (.int (Int64.ofInt n)) := by
    simp [RowKey.valueOf, hd, he, hk, Value.normalize?, ha, hb]
  have hcanonical : Value.canonicalCompare (some (.int (Int64.ofInt m)))
      (some (.int (Int64.ofInt n))) = compare m n := by
    apply Value.canonicalCompare_number (m := .int (Int64.ofInt m)) (n := .int (Int64.ofInt n))
    rw [Number.compare?, toInt_ofInt_millis ha, toInt_ofInt_millis hb]
  rw [RowKey.compare, hvalues.1, hvalues.2, hcanonical]

/-- Comparing datetimes never contradicts their instants, and tells apart those that are a
millisecond or more apart unless both are less than a millisecond from the epoch. -/
theorem compares_instants (ha : nanos? a = some x) (hb : nanos? b = some y) :
    ∃ m n, millis? a = some m ∧ millis? b = some n ∧ (x ≤ y → m ≤ n) ∧
      (x + 1000000 ≤ y → (m < n ↔ ¬ (-1000000 < x ∧ y < 1000000))) ∧
      (∀ v w, (Value.text a).normalize? .datetime = some v →
        (Value.text b).normalize? .datetime = some w → v.compareOrder? w = some (compare m n)) ∧
      ∀ (k : RowKey) (d e : Document), k.kind = some .datetime →
        d.value? k.key.field = some (.text a) → e.value? k.key.field = some (.text b) →
        k.compare d e = k.key.direction.apply (compare m n) := by
  have hm := millis?_of_nanos? ha
  have hn := millis?_of_nanos? hb
  refine ⟨_, _, hm, hn, tdiv_mono, tdiv_lt_iff, ?_, ?_⟩
  · intro v w hv hw
    exact compareOrder?_text hm hn hv hw
  · intro k d e hk hd he
    exact compare_rows hm hn hk hd he

/-- An instant before the epoch and one a millisecond later, on the next day. -/
theorem compares_instants_next_day :
    nanos? "1969-12-31T23:59:59.999Z" = some (-1000000) ∧ nanos? "1970-01-01" = some 0 ∧
      ∃ m n, millis? "1969-12-31T23:59:59.999Z" = some m ∧ millis? "1970-01-01" = some n ∧
        m < n := by
  have ha : nanos? "1969-12-31T23:59:59.999Z" = some (-1000000) := by decide +kernel
  have hb : nanos? "1970-01-01" = some 0 := by decide +kernel
  obtain ⟨m, n, hm, hn, -, hlt, -⟩ := compares_instants ha hb
  exact ⟨ha, hb, m, n, hm, hn, (hlt (by omega)).2 (by omega)⟩

/-- Half a millisecond before the epoch and half a millisecond after it compare as equal. -/
theorem epoch_hides_millisecond :
    ∃ a b x y, nanos? a = some x ∧ nanos? b = some y ∧ x + 1000000 ≤ y ∧
      millis? a = millis? b ∧ (millis? a).isSome ∧
      ∀ (k : RowKey) (d e : Document), k.kind = some .datetime →
        d.value? k.key.field = some (.text a) → e.value? k.key.field = some (.text b) →
        k.compare d e = .eq := by
  have ha : nanos? "1969-12-31T23:59:59.9995Z" = some (-500000) := by decide +kernel
  have hb : nanos? "1970-01-01T00:00:00.0005Z" = some 500000 := by decide +kernel
  have hm := millis?_of_nanos? ha
  have hn := millis?_of_nanos? hb
  refine ⟨_, _, _, _, ha, hb, by omega, hm.trans hn.symm, by rw [hm]; rfl, ?_⟩
  intro k d e hk hd he
  rw [compare_rows hm hn hk hd he]
  cases k.key.direction <;> rfl

end Instant
end ContentEngine
