import ContentEngine.Proofs.Filter.Encoding
import ContentEngine.Proofs.Json.Rendering
import Mathlib.Data.List.Forall2

/-!
# The encoding of filters is unambiguous

Filters are indistinct if they are equal up to the contents of documents: a document in an operand
counts by its type and its identifier. Two encodings with any bytes behind them are the same bytes
exactly if the filters are indistinct and the same bytes follow. So no encoding begins with another
one, and nothing but the contents of documents is lost.

JSON is encoded as text, so this is about filters whose JSON values have texts of their own, as all
writable ones have. Such filters have the same fingerprint exactly if they are indistinct, unless
their encodings collide.
-/

namespace ContentEngine

/-- No value of one list has the text of a different value of the other one. -/
def Json.ToldApart (is js : List Json) : Prop :=
  ∀ i ∈ is, ∀ j ∈ js, i.render = j.render → i = j

theorem Json.toldApart_of_writable {is js : List Json} (hi : ∀ i ∈ is, i.Writable)
    (hj : ∀ j ∈ js, j.Writable) : Json.ToldApart is js :=
  fun i his j hjs => (hi i his).render_inj (hj j hjs)

theorem Json.ToldApart.append {is is' js js' : List Json}
    (h : Json.ToldApart (is ++ is') (js ++ js')) :
    Json.ToldApart is js ∧ Json.ToldApart is' js' :=
  ⟨fun i hi j hj => h i (List.mem_append_left _ hi) j (List.mem_append_left _ hj),
    fun i hi j hj => h i (List.mem_append_right _ hi) j (List.mem_append_right _ hj)⟩

/-! ## Values -/

namespace Value

/-- Values that are equal, documents counting by type and identifier. -/
inductive Indistinct : Value → Value → Prop
  | refl (v : Value) : Indistinct v v
  | list {vs ws : List Value} (h : List.Forall₂ Indistinct vs ws) : Indistinct (.list vs) (.list ws)
  | doc {d e : Document} (htype : d.docType = e.docType) (hid : d.id = e.id) :
      Indistinct (.doc d) (.doc e)
  | variant (tag : String) {v w : Value} (h : Indistinct v w) :
      Indistinct (.variant tag v) (.variant tag w)

mutual
/-- The JSON that is encoded with a value. -/
def jsons : Value → List Json
  | .json j => [j]
  | .list items => jsonsOfItems items
  | .variant _ value => jsons value
  | .null => []
  | .bool _ => []
  | .int _ => []
  | .float _ => []
  | .text _ => []
  | .ref _ => []
  | .doc _ => []

def jsonsOfItems : List Value → List Json
  | [] => []
  | v :: vs => jsons v ++ jsonsOfItems vs
end

mutual
theorem Indistinct.encode_eq : {v w : Value} → v.Indistinct w → v.encode = w.encode
  | _, _, .refl _ => rfl
  | .list vs, .list ws, .list h => by
    simp only [encode, h.length_eq, encodeItems_eq h]
  | .doc ⟨_, _, _, _⟩, .doc ⟨_, _, _, _⟩, .doc htype hid => by
    simp only at htype hid
    simp only [encode, htype, hid]
  | _, _, .variant tag h => by simp only [encode, h.encode_eq]

theorem encodeItems_eq : {vs ws : List Value} → List.Forall₂ Indistinct vs ws →
    encodeItems vs = encodeItems ws
  | _, _, .nil => rfl
  | _, _, .cons h hs => by simp only [encodeItems, h.encode_eq, encodeItems_eq hs]
end

mutual
theorem indistinct_of_outline_eq : (v w : Value) → Json.ToldApart v.jsons w.jsons →
    v.outline = w.outline → v.Indistinct w
  | .null, w, _, h => by
    cases w <;> simp only [outline, reduceCtorEq] at h
    exact .refl _
  | .bool b, w, _, h => by
    cases w <;> simp only [outline, reduceCtorEq] at h
    exact h ▸ .refl _
  | .int i, w, _, h => by
    cases w <;> simp only [outline, reduceCtorEq] at h
    exact h ▸ .refl _
  | .float x, w, _, h => by
    cases w <;> simp only [outline, reduceCtorEq] at h
    exact h ▸ .refl _
  | .text s, w, _, h => by
    cases w <;> simp only [outline, reduceCtorEq] at h
    exact h ▸ .refl _
  | .json i, w, hjson, h => by
    cases w <;> simp only [outline, reduceCtorEq, json.injEq, Json.str.injEq] at h
    obtain rfl := hjson i (List.mem_singleton_self i) _ (List.mem_singleton_self _) h
    exact .refl _
  | .list vs, w, hjson, h => by
    cases w <;> simp only [outline, reduceCtorEq, list.injEq] at h
    exact .list (indistinctItems_of_outline_eq vs _ hjson h)
  | .ref id, w, _, h => by
    cases w <;> simp only [outline, reduceCtorEq] at h
    exact h ▸ .refl _
  | .doc d, w, _, h => by
    cases w <;> simp only [outline, reduceCtorEq, doc.injEq, DocumentOf.mk.injEq] at h
    exact .doc h.1 h.2.1
  | .variant tag v, w, hjson, h => by
    cases w <;> simp only [outline, reduceCtorEq, variant.injEq] at h
    obtain ⟨rfl, h⟩ := h
    exact .variant tag (indistinct_of_outline_eq v _ hjson h)

theorem indistinctItems_of_outline_eq : (vs ws : List Value) →
    Json.ToldApart (jsonsOfItems vs) (jsonsOfItems ws) → outlineItems vs = outlineItems ws →
    List.Forall₂ Indistinct vs ws
  | [], [], _, _ => .nil
  | v :: vs, w :: ws, hjson, h => by
    simp only [outlineItems, List.cons.injEq] at h
    obtain ⟨hfirst, hrest⟩ := Json.ToldApart.append hjson
    exact .cons (indistinct_of_outline_eq v w hfirst h.1)
      (indistinctItems_of_outline_eq vs ws hrest h.2)
end

end Value

/-! ## Filters -/

namespace Filter

/-- Filters that are equal up to indistinct operands. -/
inductive Indistinct : Filter → Filter → Prop
  | leaf (path : String) (op : FilterOp) {v w : Value} (h : v.Indistinct w) :
      Indistinct (.leaf path op v) (.leaf path op w)
  | and {fs gs : List Filter} (h : List.Forall₂ Indistinct fs gs) : Indistinct (.and fs) (.and gs)
  | or {fs gs : List Filter} (h : List.Forall₂ Indistinct fs gs) : Indistinct (.or fs) (.or gs)
  | not {f g : Filter} (h : Indistinct f g) : Indistinct (.not f) (.not g)

mutual
/-- The JSON that is encoded with a filter. -/
def jsons : Filter → List Json
  | .and children => jsonsOfAll children
  | .or children => jsonsOfAll children
  | .not child => jsons child
  | .leaf _ _ operand => operand.jsons

def jsonsOfAll : List Filter → List Json
  | [] => []
  | f :: fs => jsons f ++ jsonsOfAll fs
end

mutual
theorem Indistinct.encode_eq : {f g : Filter} → f.Indistinct g → f.encode = g.encode
  | _, _, .leaf path op h => by simp only [encode, h.encode_eq]
  | _, _, .and h => by simp only [encode, h.length_eq, encodeChildren_eq h]
  | _, _, .or h => by simp only [encode, h.length_eq, encodeChildren_eq h]
  | _, _, .not h => by simp only [encode, h.encode_eq]

theorem encodeChildren_eq : {fs gs : List Filter} → List.Forall₂ Indistinct fs gs →
    encodeChildren fs = encodeChildren gs
  | _, _, .nil => rfl
  | _, _, .cons h hs => by simp only [encodeChildren, h.encode_eq, encodeChildren_eq hs]
end

mutual
theorem indistinct_of_outline_eq : (f g : Filter) → Json.ToldApart f.jsons g.jsons →
    f.outline = g.outline → f.Indistinct g
  | .and fs, g, hjson, h => by
    cases g <;> simp only [outline, reduceCtorEq, and.injEq] at h
    exact .and (indistinctAll_of_outline_eq fs _ hjson h)
  | .or fs, g, hjson, h => by
    cases g <;> simp only [outline, reduceCtorEq, or.injEq] at h
    exact .or (indistinctAll_of_outline_eq fs _ hjson h)
  | .not f, g, hjson, h => by
    cases g <;> simp only [outline, reduceCtorEq, not.injEq] at h
    exact .not (indistinct_of_outline_eq f _ hjson h)
  | .leaf path op v, g, hjson, h => by
    cases g <;> simp only [outline, reduceCtorEq, leaf.injEq] at h
    obtain ⟨rfl, rfl, h⟩ := h
    exact .leaf path op (v.indistinct_of_outline_eq _ hjson h)

theorem indistinctAll_of_outline_eq : (fs gs : List Filter) →
    Json.ToldApart (jsonsOfAll fs) (jsonsOfAll gs) → outlineAll fs = outlineAll gs →
    List.Forall₂ Indistinct fs gs
  | [], [], _, _ => .nil
  | f :: fs, g :: gs, hjson, h => by
    simp only [outlineAll, List.cons.injEq] at h
    obtain ⟨hfirst, hrest⟩ := Json.ToldApart.append hjson
    exact .cons (indistinct_of_outline_eq f g hfirst h.1)
      (indistinctAll_of_outline_eq fs gs hrest h.2)
end

theorem indistinct_of_encode_append {f g : Filter} {x y : List UInt8} (hf : f.LengthsFit)
    (hg : g.LengthsFit) (hjson : Json.ToldApart f.jsons g.jsons)
    (h : f.encode ++ x = g.encode ++ y) : x = y ∧ f.Indistinct g := by
  obtain ⟨houtline, hrest⟩ := encode_append_inj f g x y hf hg h
  exact ⟨hrest, indistinct_of_outline_eq f g hjson houtline⟩

/-- The encodings of two filters with any bytes behind them are the same bytes exactly if the same
bytes are behind them and the filters are indistinct. -/
theorem encode_append_eq_iff (f g : Filter) (x y : List UInt8) (hf : f.LengthsFit)
    (hg : g.LengthsFit) (hjson : ∀ i ∈ f.jsons, ∀ j ∈ g.jsons, i.render = j.render → i = j) :
    f.encode ++ x = g.encode ++ y ↔ x = y ∧ f.Indistinct g := by
  constructor
  · exact indistinct_of_encode_append hf hg hjson
  · rintro ⟨rfl, h⟩
    rw [h.encode_eq]

/-- A filter by an author, with the author as far as the caller has it, and by a note of two
numbers. -/
def byAuthor (fields : Entries Value) : Filter :=
  .and [.leaf "author" .isIn (.list [.doc ⟨"author", "x", none, fields⟩, .ref "y"]),
    .not (.or [.leaf "note" .eq (.json (.arr [.int 1, .double .negZero]))])]

theorem writable_byAuthor (fields : Entries Value) : ∀ j ∈ (byAuthor fields).jsons, j.Writable := by
  intro j hj
  obtain rfl := List.mem_singleton.1 hj
  refine .arr _ fun k hk => ?_
  rcases List.mem_pair.1 hk with rfl | rfl
  · exact .int 1
  · exact .double _ (by decide)

def named : Entries Value := [("name", .text "N")]

/-- The fields of the author are not encoded. -/
theorem encode_append_eq_iff_author :
    (byAuthor []).LengthsFit ∧ (byAuthor named).LengthsFit ∧
      (∀ i ∈ (byAuthor []).jsons, ∀ j ∈ (byAuthor named).jsons, i.render = j.render → i = j) ∧
      ((byAuthor []).encode ++ [0x40] = (byAuthor named).encode ++ [0x40] ↔
        [0x40] = ([0x40] : List UInt8) ∧ (byAuthor []).Indistinct (byAuthor named)) := by
  have hf : (byAuthor []).LengthsFit := lengthsFit_of_length _ (by decide +kernel)
  have hg : (byAuthor named).LengthsFit := lengthsFit_of_length _ (by decide +kernel)
  have hjson := Json.toldApart_of_writable (writable_byAuthor []) (writable_byAuthor named)
  exact ⟨hf, hg, hjson, encode_append_eq_iff _ _ _ _ hf hg hjson⟩

/-- Filters have the same fingerprint exactly if they are indistinct, unless two different encodings
have the same digest. -/
theorem fingerprint_eq_iff {f g : Filter} (hf : f.LengthsFit) (hg : g.LengthsFit)
    (hfjson : ∀ j ∈ f.jsons, j.Writable) (hgjson : ∀ j ∈ g.jsons, j.Writable)
    (hdigest : Sha256.digest f.encode = Sha256.digest g.encode → f.encode = g.encode) :
    f.fingerprint = g.fingerprint ↔ f.Indistinct g := by
  constructor
  · intro h
    have hjson := Json.toldApart_of_writable hfjson hgjson
    exact (indistinct_of_encode_append (x := []) (y := []) hf hg hjson (by rw [hdigest h])).2
  · intro h
    rw [fingerprint, h.encode_eq, fingerprint]

end Filter
end ContentEngine
