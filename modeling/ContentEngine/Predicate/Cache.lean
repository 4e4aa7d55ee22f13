import ContentEngine.Filter.Fingerprint
import ContentEngine.Predicate.Compile

/-!
# The predicate cache

Compiled predicates by type and fingerprint. A full cache is emptied before the next predicate goes
in; a cache of capacity zero keeps nothing.
-/

namespace ContentEngine

structure PredicateCache where
  capacity : Nat
  entries : List ((String × List UInt8) × Predicate)

namespace PredicateCache

def empty (capacity : Nat) : PredicateCache := ⟨capacity, []⟩

def size (c : PredicateCache) : Nat := c.entries.length

def clear (c : PredicateCache) : PredicateCache := { c with entries := [] }

def find? (c : PredicateCache) (key : String × List UInt8) : Option Predicate :=
  (c.entries.find? (·.1 = key)).map (·.2)

/-- Stores a predicate, in place of one under the same key. -/
def store (c : PredicateCache) (key : String × List UInt8) (p : Predicate) : PredicateCache :=
  let kept := if c.capacity ≤ c.size then [] else c.entries
  { c with entries := (key, p) :: kept.filter (·.1 ≠ key) }

/-- The predicate of a filter, with whether it was found in the cache, and the cache after. -/
def getOrCompile (c : PredicateCache) (r : Registry) (t : DocumentType) (f : Filter) :
    Except FilterError (Predicate × Bool) × PredicateCache :=
  if c.capacity = 0 then ((f.compile r t).map (·, false), c)
  else
    let key := (t.name, f.fingerprint)
    match c.find? key with
    | some p => (.ok (p, true), c)
    | none =>
      match f.compile r t with
      | .error e => (.error e, c)
      | .ok p => (.ok (p, false), c.store key p)

theorem size_store_le (c : PredicateCache) (key : String × List UInt8) (p : Predicate)
    (h : 0 < c.capacity) : (c.store key p).size ≤ c.capacity := by
  by_cases hf : c.capacity ≤ c.size
  · simp only [store, if_pos hf]
    simpa [size] using Nat.succ_le_of_lt h
  · simp only [store, if_neg hf]
    have := List.length_filter_le (fun e => decide (e.1 ≠ key)) c.entries
    simp only [size, List.length_cons] at *
    omega

end PredicateCache
end ContentEngine
