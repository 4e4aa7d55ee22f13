import ContentEngine.Names
import ContentEngine.Value.Basic

/-!
# Projections

A projection says which fields of a document a read returns. The type, identifier and status are
always returned.
-/

namespace ContentEngine

inductive Projection where
  | all
  | only (names : Names)
deriving DecidableEq, Repr, Inhabited

namespace Projection

def includes : Projection → String → Bool
  | .all, _ => true
  | .only names, name => names.contains name

/-- Adds names that have to survive. -/
def extend : Projection → List String → Projection
  | .all, _ => .all
  | .only names, more => .only (Names.insertAll names more)

def apply (p : Projection) (d : Document) : Document :=
  { d with fields := d.fields.filter fun f => p.includes f.1 }

@[simp] theorem apply_all (d : Document) : apply .all d = d := by
  cases d
  simp [apply, includes]

theorem includes_extend (p : Projection) (l : List String) (name : String) :
    (p.extend l).includes name = (p.includes name || decide (name ∈ l)) := by
  cases p with
  | all => simp [extend, includes]
  | only names =>
    by_cases h : name ∈ l <;> simp [extend, includes, h]

theorem get?_apply (p : Projection) (d : Document) (name : String) :
    (p.apply d).get? name = if p.includes name then d.get? name else none := by
  simp only [apply, Document.get?]
  induction d.fields with
  | nil => simp
  | cons f fs ih =>
    obtain ⟨n, v⟩ := f
    by_cases hn : n = name
    · subst hn
      cases h : p.includes n
      · simpa [List.filter_cons, h] using ih
      · simp [h, Entries.get?]
    · cases h : p.includes n
      · simpa [List.filter_cons, h, Entries.get?, hn] using ih
      · simpa [List.filter_cons, h, Entries.get?, hn] using ih

end Projection
end ContentEngine
