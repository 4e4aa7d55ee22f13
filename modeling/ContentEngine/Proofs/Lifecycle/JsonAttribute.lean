import ContentEngine.Proofs.Double.Rounding
import ContentEngine.Proofs.Lifecycle.Rewriting

/-!
# What a JSON attribute stores

JSON that is written for a JSON attribute is read as a value first, and rendered again. A value has
integers of 64 bits with a sign, while JSON also has the greater ones without a sign: outside of
objects they become doubles. Apart from them a JSON attribute stores what it is given.
-/

namespace ContentEngine

namespace Json

mutual
/-- The JSON that is stored for a JSON attribute: objects are kept, and of the rest the integers that
are too large become doubles. -/
def stored : Json → Json
  | .int n => if isInt64 n then .int n else .double (Double.ofInt n)
  | .arr items => .arr (storedItems items)
  | .null => .null
  | .bool b => .bool b
  | .double x => .double x
  | .str s => .str s
  | .obj members => .obj members

def storedItems : List Json → List Json
  | [] => []
  | j :: js => stored j :: storedItems js
end

/-- The numbers outside of objects are of the three kinds that JSON has: integers of 64 bits with a
sign or without one, and finite doubles. -/
inductive Numeric : Json → Prop
  | null : Numeric .null
  | bool (b : Bool) : Numeric (.bool b)
  | int (n : Int) (hlow : Int64.minValue.toInt ≤ n) (hhigh : n < UInt64.size) : Numeric (.int n)
  | double (x : Double) (h : x.isFinite = true) : Numeric (.double x)
  | str (s : String) : Numeric (.str s)
  | arr (items : List Json) (h : ∀ j ∈ items, Numeric j) : Numeric (.arr items)
  | obj (members : List (String × Json)) : Numeric (.obj members)

theorem storedItems_eq_map (items : List Json) : storedItems items = items.map stored := by
  induction items with
  | nil => rfl
  | cons j items ih => simp [storedItems, ih]

/-- Reading JSON as a value and rendering it gives what is stored. -/
theorem Numeric.toJson_ofJson {j : Json} (h : j.Numeric) : (Value.ofJson j).toJson = j.stored := by
  induction h with
  | int n hlow hhigh =>
    by_cases hn : isInt64 n
    · simp [Value.ofJson, Value.toJson, stored, hn, toInt_ofInt_of_isInt64 hn]
    · have hfinite : (Double.ofInt n).isFinite = true := by
        rw [Int64.toInt_minValue] at hlow
        change n < 2 ^ 64 at hhigh
        exact Double.isFinite_ofInt (by omega)
      simp [Value.ofJson, Value.toJson, stored, hn, hfinite]
  | double x h => simp [Value.ofJson, Value.toJson, stored, h]
  | arr items _ ih =>
    have hitems : (items.map Value.ofJson).map Value.toJson = items.map stored := by
      rw [List.map_map]
      exact List.map_congr_left ih
    simp [Value.ofJson, Value.toJson, stored, Value.ofJsonItems_eq_map, Value.toJsonItems_eq_map,
      storedItems_eq_map, hitems]
  | _ => rfl

/-- Exactly the JSON with integers that have 64 bits with a sign is stored unchanged. -/
theorem Numeric.stored_eq_self_iff {j : Json} (h : j.Numeric) : j.stored = j ↔ j.Readable := by
  induction h with
  | int n hlow hhigh =>
    by_cases hn : isInt64 n
    · simpa [stored, hn] using Readable.int n hn
    · refine iff_of_false (by simp [stored, hn]) fun hreadable => ?_
      cases hreadable with
      | int _ hint => exact hn hint
  | double x h => exact iff_of_true rfl (.double x h)
  | arr items _ ih =>
    have hitems : items.map stored = items ↔ ∀ j ∈ items, j.stored = j := by
      conv_lhs => rhs; rw [← List.map_id items]
      rw [List.map_inj_left]
      rfl
    rw [stored, storedItems_eq_map, Json.arr.injEq, hitems, forall₂_congr ih]
    refine ⟨.arr items, fun hreadable => ?_⟩
    cases hreadable with
    | arr _ hreadable => exact hreadable
  | null => exact iff_of_true rfl .null
  | bool b => exact iff_of_true rfl (.bool b)
  | str s => exact iff_of_true rfl (.str s)
  | obj members => exact iff_of_true rfl (.obj members)

end Json

namespace Coercion

/-- JSON other than null that is given for a JSON attribute is stored, with its large integers as
doubles, and what is stored renders as it is; so it renders as the JSON that was given exactly if
that has no such integer. -/
theorem json_attribute_stores {j : Json} (hj : j.Numeric) (hnull : j ≠ .null) :
    (∀ site embed n, (value site embed (.scalar .json) (Value.ofJson j)).run n =
      .ok (.json j.stored, n)) ∧
      ((Value.json j.stored).toJson = j ↔ j.Readable) := by
  constructor
  · intro site embed n
    unfold value
    rw [if_neg (by simp [Value.isNull_ofJson hnull])]
    change (liftM (scalar site .json (Value.ofJson j)) : Coercion Value).run n = _
    rw [scalar_json, hj.toJson_ofJson]
    rfl
  · rw [Value.toJson]
    exact hj.stored_eq_self_iff

/-- A list with the greatest integer without a sign and with an object that has it too. -/
theorem json_attribute_stores_list :
    let large : Json := .int 18446744073709551615
    let j : Json := .arr [.null, .int (-9223372036854775808), large, .double ⟨0x3ff8000000000000⟩,
      .arr [large], .obj [("n", large)]]
    let double : Json := .double ⟨0x43f0000000000000⟩
    let stored : Json := .arr [.null, .int (-9223372036854775808), double,
      .double ⟨0x3ff8000000000000⟩, .arr [double], .obj [("n", large)]]
    (value ⟨"article", "meta"⟩ (fun _ => pure) (.scalar .json) (Value.ofJson j)).run 0 =
      .ok (.json stored, 0) ∧ (Value.json j.stored).toJson ≠ j := by
  intro large j double stored
  have hlarge : large.Numeric := .int _ (by decide) (by decide)
  have hj : j.Numeric := by
    refine .arr _ ?_
    simp only [List.forall_mem_cons]
    exact ⟨.null, .int _ (by decide) (by decide), hlarge, .double _ (by decide),
      .arr _ (List.forall_mem_singleton.2 hlarge), .obj _, List.forall_mem_nil _⟩
  have hrounded : Double.ofInt 18446744073709551615 = ⟨0x43f0000000000000⟩ := by decide +kernel
  have hleast : isInt64 (-9223372036854775808) = true := by decide
  have hgreatest : isInt64 18446744073709551615 = false := by decide
  have hstored : j.stored = stored := by
    simp [j, large, stored, double, Json.stored, Json.storedItems, hleast, hgreatest, hrounded]
  obtain ⟨hvalue, hsame⟩ := json_attribute_stores hj (by simp [j])
  refine ⟨hstored ▸ hvalue _ _ 0, fun h => ?_⟩
  have hitems : ∀ items, Json.Readable (.arr items) → ∀ i ∈ items, i.Readable := by
    rintro _ ⟨⟩
    assumption
  have hints : ∀ n, Json.Readable (.int n) → isInt64 n = true := by
    rintro _ ⟨⟩
    assumption
  exact absurd (hints _ (hitems _ (hsame.1 h) large (by simp))) (by simp [hgreatest])

/-- The least integer without a sign that has none with one is stored as a double, and is no integer
when it is rendered. -/
theorem large_integer_stored_as_double :
    (value ⟨"article", "meta"⟩ (fun _ => pure) (.scalar .json)
        (Value.ofJson (.int 9223372036854775808))).run 0 =
      .ok (.json (.double ⟨0x43e0000000000000⟩), 0) ∧
    (Value.json (.double ⟨0x43e0000000000000⟩)).toJson ≠ .int 9223372036854775808 := by
  have hrounded : Double.ofInt 9223372036854775808 = ⟨0x43e0000000000000⟩ := by decide +kernel
  have hread : Value.ofJson (.int 9223372036854775808) = .float ⟨0x43e0000000000000⟩ := by
    rw [Value.ofJson, if_neg (by decide), hrounded]
  exact ⟨hread ▸ rfl, by simp [Value.toJson]⟩

end Coercion
end ContentEngine
