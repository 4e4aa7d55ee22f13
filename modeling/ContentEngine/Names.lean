/-!
# Sets of names

A finite set of names is the ascending list of its members, without repetition.
-/

namespace ContentEngine

abbrev Names := List String

namespace Names

def insert : Names → String → Names
  | [], n => [n]
  | m :: s, n => if n < m then n :: m :: s else if m = n then m :: s else m :: insert s n

def insertAll (s : Names) (l : List String) : Names := l.foldl insert s

def ofList (l : List String) : Names := insertAll [] l

/-- The first occurrences of the names of a list. -/
def distinct (l : List String) : List String :=
  l.foldr (fun n rest => n :: rest.filter (· ≠ n)) []

@[simp] theorem mem_insert {s : Names} {n m : String} : m ∈ insert s n ↔ m = n ∨ m ∈ s := by
  induction s with
  | nil => simp [insert]
  | cons j s ih =>
    by_cases h₁ : n < j
    · simp [insert, h₁]
    · by_cases h₂ : j = n
      · subst h₂; simp [insert]
      · simp only [insert, h₁, h₂, if_false, List.mem_cons, ih]
        constructor
        · rintro (h | h | h) <;> simp [h]
        · rintro (h | h | h) <;> simp [h]

@[simp] theorem mem_insertAll {s : Names} {l : List String} {m : String} :
    m ∈ insertAll s l ↔ m ∈ l ∨ m ∈ s := by
  induction l generalizing s with
  | nil => simp [insertAll]
  | cons n l ih =>
    have := ih (s := insert s n)
    simp only [insertAll, List.foldl_cons] at this ⊢
    rw [this, mem_insert, List.mem_cons]
    constructor
    · rintro (h | h | h) <;> simp [h]
    · rintro ((h | h) | h) <;> simp [h]

theorem mem_distinct {l : List String} {n : String} : n ∈ distinct l ↔ n ∈ l := by
  induction l with
  | nil => simp [distinct]
  | cons m l ih =>
    have : distinct (m :: l) = m :: (distinct l).filter (· ≠ m) := rfl
    by_cases h : n = m <;> simp [this, h, ih]

theorem nodup_distinct (l : List String) : (distinct l).Nodup := by
  induction l with
  | nil => simp [distinct]
  | cons m l ih =>
    have : distinct (m :: l) = m :: (distinct l).filter (· ≠ m) := rfl
    rw [this, List.nodup_cons]
    exact ⟨by simp, ih.filter _⟩

end Names
end ContentEngine
