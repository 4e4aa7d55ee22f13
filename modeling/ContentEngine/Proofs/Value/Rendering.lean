import ContentEngine.Lifecycle.Coercion
import ContentEngine.Proofs.Entries
import ContentEngine.Proofs.Store.Contents

/-!
# Rendered values

A response shows a value as JSON, and a client may send that JSON back. What is read is not the same
value: references, instances and components have become objects. `Renderable` describes the values of
which the JSON keeps everything; what is lost of the others is lost in the rendering. An object that
stands for a component shows the fields of the component between keys of the system, and these keys
alone tell it apart.
-/

namespace ContentEngine

/-! ## JSON that is read as a value -/

/-- Nothing is rounded when the JSON is read as a value: its integers have 64 bits with a sign, and
its doubles are finite. What is in an object is kept, and need not be read. -/
inductive Json.Readable : Json → Prop
  | null : Readable .null
  | bool (b : Bool) : Readable (.bool b)
  | int (n : Int) (h : isInt64 n = true) : Readable (.int n)
  | double (x : Double) (h : x.isFinite = true) : Readable (.double x)
  | str (s : String) : Readable (.str s)
  | arr (items : List Json) (h : ∀ j ∈ items, Readable j) : Readable (.arr items)
  | obj (members : List (String × Json)) : Readable (.obj members)

theorem isInt64_toInt (i : Int64) : isInt64 i.toInt = true := by
  have hmin := Int64.le_toInt i
  have hmax := Int64.toInt_lt i
  simp only [isInt64, Int64.toInt_minValue, Int64.toInt_maxValue, decide_eq_true_eq]
  omega

theorem toInt_ofInt_of_isInt64 {n : Int} (h : isInt64 n = true) : (Int64.ofInt n).toInt = n := by
  simp only [isInt64, Int64.toInt_minValue, Int64.toInt_maxValue, decide_eq_true_eq] at h
  exact Int64.toInt_ofInt_of_le (by omega) (by omega)

theorem Json.depth_le_depthMembers {members : List (String × Json)} {m : String × Json}
    (h : m ∈ members) : m.2.depth ≤ depthMembers members := by
  induction members with
  | nil => exact absurd h List.not_mem_nil
  | cons first members ih =>
    obtain ⟨k, j⟩ := first
    rcases List.mem_cons.1 h with rfl | h
    · exact Nat.le_max_left ..
    · exact Nat.le_trans (ih h) (Nat.le_max_right ..)

theorem Json.depth_le_depthItems {items : List Json} {j : Json} (h : j ∈ items) :
    j.depth ≤ depthItems items := by
  induction items with
  | nil => exact absurd h List.not_mem_nil
  | cons first items ih =>
    rcases List.mem_cons.1 h with rfl | h
    · exact Nat.le_max_left ..
    · exact Nat.le_trans (ih h) (Nat.le_max_right ..)

namespace Value

theorem ofJsonItems_eq_map (items : List Json) : ofJsonItems items = items.map ofJson := by
  induction items with
  | nil => rfl
  | cons j items ih => simp [ofJsonItems, ih]

theorem toJsonItems_eq_map (items : List Value) : toJsonItems items = items.map toJson := by
  induction items with
  | nil => rfl
  | cons v items ih => simp [toJsonItems, ih]

theorem ofJson_toJson_list (vs : List Value) :
    ofJson (Value.list vs).toJson = .list (vs.map fun v => ofJson v.toJson) := by
  simp [toJson, ofJson, toJsonItems_eq_map, ofJsonItems_eq_map, Function.comp_def]

theorem toJsonFields_eq_insertAll (object : Entries Json) (fields : List (String × Value)) :
    toJsonFields object fields = Entries.insertAll object (fields.map fun f => (f.1, f.2.toJson)) := by
  induction fields generalizing object with
  | nil => rfl
  | cons f fields ih => exact ih _

theorem get?_toJson_tag (tag : String) (d : Document) :
    (Value.variant tag (.doc d)).toJson.get? componentKey = some (.str tag) := by
  simp [toJson, variantKey, Json.get?]

/-- The tag apart, an instance shows what its document shows. -/
theorem get?_toJson_document (tag : String) (d : Document) {key : String} (h : componentKey ≠ key) :
    (Value.variant tag (.doc d)).toJson.get? key = (Value.doc d).toJson.get? key := by
  simp [toJson, variantKey, variantMembers, Json.get?, Entries.get?_insert_ne _ _ h]

theorem toJson_ofJson {j : Json} (h : j.Readable) : (ofJson j).toJson = j := by
  induction h with
  | int n h => simp [ofJson, h, toJson, toInt_ofInt_of_isInt64 h]
  | double x h => simp [ofJson, toJson, h]
  | arr items _ ih =>
    have hitems : (items.map ofJson).map toJson = items := by
      rw [List.map_map]
      exact (List.map_congr_left ih).trans (List.map_id _)
    simp [ofJson, toJson, ofJsonItems_eq_map, toJsonItems_eq_map, hitems]
  | _ => rfl

theorem isNull_ofJson {j : Json} (h : j ≠ .null) : (ofJson j).isNull = false := by
  cases j with
  | null => exact absurd rfl h
  | int n => by_cases hn : isInt64 n <;> simp [ofJson, hn, isNull]
  | _ => rfl

mutual
theorem depth_ofJson : ∀ j : Json, (ofJson j).depth = j.depth
  | .arr items => congrArg (· + 1) (depthItems_ofJsonItems items)
  | .int n => by by_cases hn : isInt64 n <;> simp [ofJson, hn, depth, Json.depth]
  | .null => rfl
  | .bool _ => rfl
  | .double _ => rfl
  | .str _ => rfl
  | .obj _ => rfl

theorem depthItems_ofJsonItems : ∀ items : List Json,
    depthItems (ofJsonItems items) = Json.depthItems items
  | [] => rfl
  | j :: items => congrArg₂ max (depth_ofJson j) (depthItems_ofJsonItems items)
end

theorem depth_lt_list {vs : List Value} {v : Value} (h : v ∈ vs) :
    v.toJson.depth < (Value.list vs).toJson.depth := by
  have hitem := Json.depth_le_depthItems (List.mem_map_of_mem (f := toJson) h)
  rw [← toJsonItems_eq_map] at hitem
  exact Nat.lt_succ_of_le hitem

theorem depth_le_depthFields {fields : List (String × Value)} {f : String × Value}
    (h : f ∈ fields) : f.2.depth ≤ depthFields fields := by
  induction fields with
  | nil => exact absurd h List.not_mem_nil
  | cons first fields ih =>
    obtain ⟨name, v⟩ := first
    rcases List.mem_cons.1 h with rfl | h
    · exact Nat.le_max_left ..
    · exact Nat.le_trans (ih h) (Nat.le_max_right ..)

theorem depth_le_depthItems {vs : List Value} {v : Value} (h : v ∈ vs) :
    v.depth ≤ depthItems vs := by
  induction vs with
  | nil => exact absurd h List.not_mem_nil
  | cons first vs ih =>
    rcases List.mem_cons.1 h with rfl | h
    · exact Nat.le_max_left ..
    · exact Nat.le_trans (ih h) (Nat.le_max_right ..)

/-! ## Values that JSON keeps -/

/-- The JSON of the value says all that there is to know of it, except for the identifiers of
components: floats are finite, components have no status, and no JSON in it would be read
differently. -/
inductive Renderable : Value → Prop
  | null : Renderable .null
  | bool (b : Bool) : Renderable (.bool b)
  | int (i : Int64) : Renderable (.int i)
  | float (x : Double) (h : x.isFinite = true) : Renderable (.float x)
  | text (s : String) : Renderable (.text s)
  | json (j : Json) (hnull : j ≠ .null) (h : j.Readable) : Renderable (.json j)
  | list (items : List Value) (h : ∀ v ∈ items, Renderable v) : Renderable (.list items)
  | ref (id : DocumentId) : Renderable (.ref id)
  | doc (docType : String) (id : DocumentId) (fields : List (String × Value))
      (hsorted : Entries.Sorted fields) (h : ∀ f ∈ fields, Renderable f.2) :
      Renderable (.doc ⟨docType, id, none, fields⟩)
  | variant (tag : String) (v : Value) (h : Renderable v) : Renderable (.variant tag v)

mutual
/-- The value with no identifier left in its documents, at any depth. -/
def anonymous : Value → Value
  | .list items => .list (anonymousItems items)
  | .doc ⟨docType, _, status, fields⟩ => .doc ⟨docType, "", status, anonymousFields fields⟩
  | .variant tag value => .variant tag (anonymous value)
  | .null => .null
  | .bool b => .bool b
  | .int i => .int i
  | .float x => .float x
  | .text s => .text s
  | .json j => .json j
  | .ref id => .ref id

def anonymousItems : List Value → List Value
  | [] => []
  | v :: vs => anonymous v :: anonymousItems vs

def anonymousFields : List (String × Value) → List (String × Value)
  | [] => []
  | (name, v) :: fs => (name, anonymous v) :: anonymousFields fs
end

theorem anonymousItems_eq_map (items : List Value) :
    anonymousItems items = items.map anonymous := by
  induction items with
  | nil => rfl
  | cons v items ih => simp [anonymousItems, ih]

theorem anonymousFields_eq_map (fields : List (String × Value)) :
    anonymousFields fields = fields.map fun f => (f.1, f.2.anonymous) := by
  induction fields with
  | nil => rfl
  | cons f fields ih => simp [anonymousFields, ih]

theorem isNull_anonymous (v : Value) : v.anonymous.isNull = v.isNull := by
  cases v <;> rfl

end Value

/-! ## Components -/

/-- The keys that tell about a component, and are none of its fields. -/
def reservedNames : List String := Coercion.systemNames ++ [componentKey, "id"]

/-- The members of the object that stands for a component. -/
def componentMembers (tag : String) (id : DocumentId) (fields : List (String × Value)) :
    Entries Json :=
  Entries.insert (Value.toJsonFields [(documentIdName, .str id)] fields) componentKey (.str tag)

section
variable {tag : String} {id : DocumentId} {fields : List (String × Value)}

theorem toJson_component (docType : String) :
    (Value.variant tag (.doc ⟨docType, id, none, fields⟩)).toJson =
      .obj (componentMembers tag id fields) := rfl

/-- Without the reserved keys, the object has the fields of the component and nothing else. -/
theorem filter_componentMembers (hsorted : Entries.Sorted fields)
    (hnames : ∀ f ∈ fields, f.1 ∉ reservedNames) :
    (componentMembers tag id fields).filter (fun m => decide (m.1 ∉ reservedNames)) =
      fields.map fun f => (f.1, f.2.toJson) := by
  have hrendered : Entries.Sorted (fields.map fun f => (f.1, f.2.toJson)) :=
    hsorted.of_keys (by simp)
  have hmembers : Entries.Sorted (componentMembers tag id fields) := by
    unfold componentMembers
    rw [Value.toJsonFields_eq_insertAll]
    exact (Entries.Sorted.insertAll (List.pairwise_singleton _ _) _).insert componentKey _
  refine Entries.Sorted.ext (hmembers.filter _) hrendered fun k => ?_
  rw [Entries.get?_filter (fun name => decide (name ∉ reservedNames))]
  by_cases hk : k ∈ reservedNames
  · have hnone : Entries.get? (fields.map fun f => (f.1, f.2.toJson)) k = none := by
      rw [Entries.get?_eq_none_iff, List.map_map]
      rintro hfield
      obtain ⟨f, hf, rfl⟩ := List.mem_map.1 hfield
      exact hnames f hf hk
    simp [hk, hnone]
  · have htag : componentKey ≠ k := by
      rintro rfl
      exact hk (by simp [reservedNames])
    have hid : ¬ documentIdName = k := by
      rintro rfl
      exact hk (by simp [reservedNames, Coercion.systemNames])
    rw [if_pos (by simpa using hk), componentMembers, Entries.get?_insert_ne _ _ htag,
      Value.toJsonFields_eq_insertAll, Entries.get?_insertAll_of_sorted hrendered]
    simp [Entries.get?, hid]

theorem depth_lt_component (docType : String) (hsorted : Entries.Sorted fields)
    (hnames : ∀ f ∈ fields, f.1 ∉ reservedNames) {f : String × Value} (hf : f ∈ fields) :
    f.2.toJson.depth < (Value.variant tag (.doc ⟨docType, id, none, fields⟩)).toJson.depth := by
  have hmem : (f.1, f.2.toJson) ∈ (componentMembers tag id fields).filter
      (fun m => decide (m.1 ∉ reservedNames)) := by
    rw [filter_componentMembers hsorted hnames]
    exact List.mem_map_of_mem hf
  exact Nat.lt_succ_of_le (Json.depth_le_depthMembers (List.mem_of_mem_filter hmem))

end

end ContentEngine
