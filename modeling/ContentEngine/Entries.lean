/-!
# Key-sorted entries

A finite map from names to values, held as the list of its entries in ascending key order (by code
points). `insert` replaces the entry of a key it meets, so looking up what was written needs no
hypothesis on the list, and `Sorted` is kept by every operation.

An inductive type that contains such a map writes the list type out.
-/

namespace ContentEngine

abbrev Entries (α : Type) := List (String × α)

namespace Entries
variable {α β : Type}

def get? : Entries α → String → Option α
  | [], _ => none
  | (j, v) :: m, k => if j = k then some v else get? m k

def contains (m : Entries α) (k : String) : Bool := (get? m k).isSome

def insert : Entries α → String → α → Entries α
  | [], k, v => [(k, v)]
  | (j, w) :: m, k, v =>
    if k < j then (k, v) :: (j, w) :: m
    else if j = k then (k, v) :: m
    else (j, w) :: insert m k v

def erase (m : Entries α) (k : String) : Entries α := m.filter (·.1 ≠ k)

/-- Later entries win over earlier ones of the same key. -/
def insertAll (m : Entries α) (l : List (String × α)) : Entries α :=
  l.foldl (fun m e => insert m e.1 e.2) m

def ofList (l : List (String × α)) : Entries α := insertAll [] l

def keys (m : Entries α) : List String := m.map (·.1)

def values (m : Entries α) : List α := m.map (·.2)

def Sorted (m : Entries α) : Prop := m.Pairwise (·.1 < ·.1)

@[simp] theorem get?_nil (k : String) : get? ([] : Entries α) k = none := rfl

@[simp] theorem get?_insert_self (m : Entries α) (k : String) (v : α) :
    get? (insert m k v) k = some v := by
  induction m with
  | nil => simp [insert, get?]
  | cons e m ih =>
    obtain ⟨j, w⟩ := e
    by_cases h₁ : k < j
    · simp [insert, h₁, get?]
    · by_cases h₂ : j = k
      · simp [insert, h₂, get?]
      · simp [insert, h₁, h₂, get?, ih]

theorem get?_insert_ne (m : Entries α) {j k : String} (v : α) (h : k ≠ j) :
    get? (insert m k v) j = get? m j := by
  induction m with
  | nil => simp [insert, get?, h]
  | cons e m ih =>
    obtain ⟨i, w⟩ := e
    by_cases h₁ : k < i
    · simp [insert, h₁, get?, h]
    · by_cases h₂ : i = k
      · subst h₂; simp [insert, get?, h]
      · simp [insert, h₁, h₂, get?, ih]

@[simp] theorem get?_erase_self (m : Entries α) (k : String) : get? (erase m k) k = none := by
  induction m with
  | nil => rfl
  | cons e m ih =>
    obtain ⟨j, w⟩ := e
    by_cases h : j = k
    · simpa [erase, List.filter_cons, h] using ih
    · simpa [erase, List.filter_cons, h, get?] using ih

theorem get?_erase_ne (m : Entries α) {j k : String} (h : k ≠ j) :
    get? (erase m k) j = get? m j := by
  induction m with
  | nil => rfl
  | cons e m ih =>
    obtain ⟨i, w⟩ := e
    by_cases h₁ : i = k
    · subst h₁
      have hij : ¬ i = j := h
      simpa [erase, List.filter_cons, get?, hij] using ih
    · have he : erase ((i, w) :: m) k = (i, w) :: erase m k := by simp [erase, h₁]
      rw [he, get?, get?, ih]

theorem mem_insert {m : Entries α} {k : String} {v : α} {e : String × α} :
    e ∈ insert m k v → e = (k, v) ∨ e ∈ m := by
  induction m with
  | nil => simp [insert]
  | cons d m ih =>
    rw [insert]
    split
    · simp
    · split
      · simp only [List.mem_cons]
        rintro (h | h) <;> simp [h]
      · simp only [List.mem_cons]
        rintro (h | h)
        · simp [h]
        · rcases ih h with h | h <;> simp [h]

theorem lt_of_not_lt_of_ne {j k : String} (h₁ : ¬ k < j) (h₂ : ¬ j = k) : j < k := by
  by_cases h : j < k
  · exact h
  · exact absurd (String.le_antisymm (String.not_lt.1 h₁) (String.not_lt.1 h)) h₂

theorem Sorted.insert {m : Entries α} (h : Sorted m) (k : String) (v : α) :
    Sorted (insert m k v) := by
  induction m with
  | nil => simp [Sorted, Entries.insert]
  | cons e m ih =>
    obtain ⟨j, w⟩ := e
    have hm := List.pairwise_cons.1 h
    by_cases h₁ : k < j
    · simp only [Entries.insert, h₁, if_true]
      refine List.pairwise_cons.2 ⟨?_, h⟩
      intro d hd
      rcases List.mem_cons.1 hd with rfl | hd
      · exact h₁
      · exact String.lt_trans h₁ (hm.1 d hd)
    · by_cases h₂ : j = k
      · subst h₂
        simp only [Entries.insert, h₁, if_true, if_false]
        exact List.pairwise_cons.2 ⟨hm.1, hm.2⟩
      · simp only [Entries.insert, h₁, h₂, if_false]
        refine List.pairwise_cons.2 ⟨?_, ih hm.2⟩
        intro d hd
        rcases mem_insert hd with rfl | hd
        · exact lt_of_not_lt_of_ne h₁ h₂
        · exact hm.1 d hd

theorem Sorted.erase {m : Entries α} (h : Sorted m) (k : String) : Sorted (erase m k) :=
  h.filter _

theorem Sorted.insertAll {m : Entries α} (h : Sorted m) (l : List (String × α)) :
    Sorted (insertAll m l) := by
  induction l generalizing m with
  | nil => exact h
  | cons e l ih => exact ih (h.insert e.1 e.2)

end Entries
end ContentEngine
