import ContentEngine.Filter.Fingerprint
import ContentEngine.Predicate.Compile
import ContentEngine.Proofs.Filter.Meaning
import Mathlib.Algebra.Group.Nat.Defs

/-!
# What the encoding of a filter shows

The outline of a filter is the filter without what its encoding leaves out: of a document in an
operand the status and the fields, of JSON all but the text. Filters with the same encoding have the
same outline, whatever bytes follow, and filters with the same outline compile to the same predicate.

Lengths are encoded in eight bytes, so the statements are about filters whose lengths fit. All those
fit whose encoding is shorter than `2 ^ 64` bytes.
-/

namespace ContentEngine

/-! ## Numbers and texts -/

theorem bytesOfNat_succ (width n : Nat) :
    Sha256.bytesOfNat (width + 1) n =
      UInt8.ofNat (n >>> (8 * width)) :: Sha256.bytesOfNat width n := by
  simp [Sha256.bytesOfNat, List.range_succ]

theorem mod_eq_of_bytesOfNat_eq {width m n : Nat}
    (h : Sha256.bytesOfNat width m = Sha256.bytesOfNat width n) :
    m % 2 ^ (8 * width) = n % 2 ^ (8 * width) := by
  induction width with
  | zero => simp [Nat.mod_one]
  | succ width ih =>
    rw [bytesOfNat_succ, bytesOfNat_succ, List.cons.injEq] at h
    have hbyte := congrArg UInt8.toNat h.1
    simp only [UInt8.toNat_ofNat', Nat.shiftRight_eq_div_pow] at hbyte
    have hpow : 2 ^ (8 * (width + 1)) = 2 ^ (8 * width) * 2 ^ 8 := by
      rw [← Nat.pow_add, Nat.mul_add, Nat.mul_one]
    rw [hpow, Nat.mod_mul, Nat.mod_mul, ih h.2, hbyte]

theorem length_encodeNat64 (n : Nat) : (encodeNat64 n).length = 8 := by
  simp [encodeNat64, Sha256.bytesOfNat]

theorem encodeNat64_inj {m n : Nat} (hm : m < 2 ^ 64) (hn : n < 2 ^ 64)
    (h : encodeNat64 m = encodeNat64 n) : m = n := by
  have hmod := mod_eq_of_bytesOfNat_eq h
  rwa [Nat.mod_eq_of_lt hm, Nat.mod_eq_of_lt hn] at hmod

theorem encodeNat64_append_inj {m n : Nat} {x y : List UInt8} (hm : m < 2 ^ 64) (hn : n < 2 ^ 64)
    (h : encodeNat64 m ++ x = encodeNat64 n ++ y) : m = n ∧ x = y := by
  obtain ⟨hnat, hrest⟩ := List.append_inj h (by simp only [length_encodeNat64])
  exact ⟨encodeNat64_inj hm hn hnat, hrest⟩

theorem length_encodeText (s : String) : (encodeText s).length = 8 + s.utf8ByteSize := by
  simp [encodeText, length_encodeNat64]

theorem encodeText_append_inj {s t : String} {x y : List UInt8} (hs : s.utf8ByteSize < 2 ^ 64)
    (ht : t.utf8ByteSize < 2 ^ 64) (h : encodeText s ++ x = encodeText t ++ y) : s = t ∧ x = y := by
  simp only [encodeText, List.append_assoc] at h
  obtain ⟨hsize, h⟩ := encodeNat64_append_inj hs ht h
  obtain ⟨hbytes, hrest⟩ := List.append_inj h (by simpa using hsize)
  exact ⟨String.toByteArray_inj.1 (ByteArray.ext (Array.toList_inj.1 hbytes)), hrest⟩

/-! ## Values -/

namespace Value

mutual
/-- Every length that is encoded with a value fits eight bytes. -/
def LengthsFit : Value → Prop
  | .null => True
  | .bool _ => True
  | .int _ => True
  | .float _ => True
  | .text s => s.utf8ByteSize < 2 ^ 64
  | .json j => j.render.utf8ByteSize < 2 ^ 64
  | .list items => items.length < 2 ^ 64 ∧ LengthsFitItems items
  | .ref id => id.utf8ByteSize < 2 ^ 64
  | .doc ⟨docType, id, _, _⟩ => docType.utf8ByteSize < 2 ^ 64 ∧ id.utf8ByteSize < 2 ^ 64
  | .variant tag value => tag.utf8ByteSize < 2 ^ 64 ∧ LengthsFit value

def LengthsFitItems : List Value → Prop
  | [] => True
  | v :: vs => LengthsFit v ∧ LengthsFitItems vs
end

mutual
def outline : Value → Value
  | .null => .null
  | .bool b => .bool b
  | .int i => .int i
  | .float x => .float x
  | .text s => .text s
  | .json j => .json (.str j.render)
  | .list items => .list (outlineItems items)
  | .ref id => .ref id
  | .doc ⟨docType, id, _, _⟩ => .doc ⟨docType, id, none, []⟩
  | .variant tag value => .variant tag (outline value)

def outlineItems : List Value → List Value
  | [] => []
  | v :: vs => outline v :: outlineItems vs
end

theorem length_encode_pos (v : Value) : 0 < v.encode.length := by
  cases v <;> simp [encode]

theorem length_le_encodeItems (vs : List Value) : vs.length ≤ (encodeItems vs).length := by
  induction vs with
  | nil => exact Nat.le_refl 0
  | cons v vs ih =>
    have hv := length_encode_pos v
    simp only [encodeItems, List.length_append, List.length_cons]
    omega

mutual
theorem lengthsFit_of_length : (v : Value) → v.encode.length < 2 ^ 64 → v.LengthsFit
  | .null, _ => trivial
  | .bool _, _ => trivial
  | .int _, _ => trivial
  | .float _, _ => trivial
  | .text s, h => by
    simp only [encode, List.length_cons, length_encodeText] at h
    exact Nat.lt_of_le_of_lt (by omega) h
  | .json j, h => by
    simp only [encode, List.length_cons, length_encodeText] at h
    exact Nat.lt_of_le_of_lt (by omega) h
  | .list vs, h => by
    have hvs := length_le_encodeItems vs
    simp only [encode, List.cons_append, List.length_cons, List.length_append] at h
    exact ⟨by omega, lengthsFitItems_of_length vs (by omega)⟩
  | .ref id, h => by
    simp only [encode, List.length_cons, length_encodeText] at h
    exact Nat.lt_of_le_of_lt (by omega) h
  | .doc ⟨docType, id, _, _⟩, h => by
    simp only [encode, List.cons_append, List.length_cons, List.length_append,
      length_encodeText] at h
    exact ⟨by omega, by omega⟩
  | .variant tag v, h => by
    simp only [encode, List.cons_append, List.length_cons, List.length_append,
      length_encodeText] at h
    exact ⟨by omega, lengthsFit_of_length v (by omega)⟩

theorem lengthsFitItems_of_length : (vs : List Value) → (encodeItems vs).length < 2 ^ 64 →
    LengthsFitItems vs
  | [], _ => trivial
  | v :: vs, h => by
    simp only [encodeItems, List.length_append] at h
    exact ⟨lengthsFit_of_length v (by omega), lengthsFitItems_of_length vs (by omega)⟩
end

mutual
theorem encode_append_inj : (a b : Value) → (x y : List UInt8) → a.LengthsFit → b.LengthsFit →
    a.encode ++ x = b.encode ++ y → a.outline = b.outline ∧ x = y
  | .null, b, x, y, _, _, h => by
    cases b with
    | null => simpa [encode] using h
    | _ => simp [encode] at h
  | .bool v, b, x, y, _, _, h => by
    cases b with
    | bool w =>
      simp only [encode, List.cons_append, List.nil_append, List.cons.injEq, true_and] at h
      cases v <;> cases w <;> simp_all [outline]
    | _ => simp [encode] at h
  | .int i, b, x, y, _, _, h => by
    cases b with
    | int j =>
      simp only [encode, List.cons_append, List.cons.injEq, true_and] at h
      obtain ⟨hij, hrest⟩ := encodeNat64_append_inj (UInt64.toNat_lt _) (UInt64.toNat_lt _) h
      obtain ⟨i⟩ := i
      obtain ⟨j⟩ := j
      obtain rfl : i = j := UInt64.toNat_inj.1 hij
      exact ⟨rfl, hrest⟩
    | _ => simp [encode] at h
  | .float v, b, x, y, _, _, h => by
    cases b with
    | float w =>
      simp only [encode, List.cons_append, List.cons.injEq, true_and] at h
      obtain ⟨hvw, hrest⟩ := encodeNat64_append_inj (UInt64.toNat_lt _) (UInt64.toNat_lt _) h
      obtain ⟨v⟩ := v
      obtain ⟨w⟩ := w
      obtain rfl : v = w := UInt64.toNat_inj.1 hvw
      exact ⟨rfl, hrest⟩
    | _ => simp [encode] at h
  | .text s, b, x, y, ha, hb, h => by
    cases b with
    | text t =>
      simp only [encode, List.cons_append, List.cons.injEq, true_and] at h
      obtain ⟨rfl, hrest⟩ := encodeText_append_inj ha hb h
      exact ⟨rfl, hrest⟩
    | _ => simp [encode] at h
  | .json i, b, x, y, ha, hb, h => by
    cases b with
    | json j =>
      simp only [encode, List.cons_append, List.cons.injEq, true_and] at h
      obtain ⟨hij, hrest⟩ := encodeText_append_inj ha hb h
      exact ⟨by rw [outline, outline, hij], hrest⟩
    | _ => simp [encode] at h
  | .list vs, b, x, y, ha, hb, h => by
    cases b with
    | list ws =>
      simp only [encode, List.cons_append, List.cons.injEq, true_and, List.append_assoc] at h
      obtain ⟨hlen, h⟩ := encodeNat64_append_inj ha.1 hb.1 h
      obtain ⟨hitems, hrest⟩ := encodeItems_append_inj vs ws x y hlen ha.2 hb.2 h
      exact ⟨by rw [outline, outline, hitems], hrest⟩
    | _ => simp [encode] at h
  | .ref id, b, x, y, ha, hb, h => by
    cases b with
    | ref id' =>
      simp only [encode, List.cons_append, List.cons.injEq, true_and] at h
      obtain ⟨rfl, hrest⟩ := encodeText_append_inj ha hb h
      exact ⟨rfl, hrest⟩
    | _ => simp [encode] at h
  | .doc ⟨docType, id, status, fields⟩, b, x, y, ha, hb, h => by
    cases b with
    | doc d =>
      obtain ⟨docType', id', status', fields'⟩ := d
      simp only [encode, List.cons_append, List.cons.injEq, true_and, List.append_assoc] at h
      obtain ⟨rfl, hnext⟩ := encodeText_append_inj ha.1 hb.1 h
      obtain ⟨rfl, hrest⟩ := encodeText_append_inj ha.2 hb.2 hnext
      exact ⟨rfl, hrest⟩
    | _ => simp [encode] at h
  | .variant tag v, b, x, y, ha, hb, h => by
    cases b with
    | variant tag' w =>
      simp only [encode, List.cons_append, List.cons.injEq, true_and, List.append_assoc] at h
      obtain ⟨rfl, hnext⟩ := encodeText_append_inj ha.1 hb.1 h
      obtain ⟨hvw, hrest⟩ := encode_append_inj v w x y ha.2 hb.2 hnext
      exact ⟨by rw [outline, outline, hvw], hrest⟩
    | _ => simp [encode] at h

theorem encodeItems_append_inj : (as bs : List Value) → (x y : List UInt8) →
    as.length = bs.length → LengthsFitItems as → LengthsFitItems bs →
    encodeItems as ++ x = encodeItems bs ++ y → outlineItems as = outlineItems bs ∧ x = y
  | [], [], x, y, _, _, _, h => ⟨rfl, h⟩
  | a :: as, b :: bs, x, y, hlen, ha, hb, h => by
    simp only [encodeItems, List.append_assoc] at h
    obtain ⟨hab, h⟩ := encode_append_inj a b _ _ ha.1 hb.1 h
    obtain ⟨hitems, hrest⟩ := encodeItems_append_inj as bs x y (Nat.succ.inj hlen) ha.2 hb.2 h
    exact ⟨by rw [outlineItems, outlineItems, hab, hitems], hrest⟩
end

end Value

/-! ## Filters -/

namespace Filter

mutual
/-- Every length that is encoded with a filter fits eight bytes. -/
def LengthsFit : Filter → Prop
  | .and children => children.length < 2 ^ 64 ∧ LengthsFitAll children
  | .or children => children.length < 2 ^ 64 ∧ LengthsFitAll children
  | .not child => LengthsFit child
  | .leaf path _ operand => path.utf8ByteSize < 2 ^ 64 ∧ operand.LengthsFit

def LengthsFitAll : List Filter → Prop
  | [] => True
  | f :: fs => LengthsFit f ∧ LengthsFitAll fs
end

mutual
def outline : Filter → Filter
  | .and children => .and (outlineAll children)
  | .or children => .or (outlineAll children)
  | .not child => .not (outline child)
  | .leaf path op operand => .leaf path op operand.outline

def outlineAll : List Filter → List Filter
  | [] => []
  | f :: fs => outline f :: outlineAll fs
end

theorem length_encode_pos (f : Filter) : 0 < f.encode.length := by
  cases f <;> simp [encode]

theorem length_le_encodeChildren (fs : List Filter) : fs.length ≤ (encodeChildren fs).length := by
  induction fs with
  | nil => exact Nat.le_refl 0
  | cons f fs ih =>
    have hf := length_encode_pos f
    simp only [encodeChildren, List.length_append, List.length_cons]
    omega

mutual
theorem lengthsFit_of_length : (f : Filter) → f.encode.length < 2 ^ 64 → f.LengthsFit
  | .and fs, h => by
    have hfs := length_le_encodeChildren fs
    simp only [encode, List.cons_append, List.length_cons, List.length_append] at h
    exact ⟨by omega, lengthsFitAll_of_length fs (by omega)⟩
  | .or fs, h => by
    have hfs := length_le_encodeChildren fs
    simp only [encode, List.cons_append, List.length_cons, List.length_append] at h
    exact ⟨by omega, lengthsFitAll_of_length fs (by omega)⟩
  | .not f, h => by
    simp only [encode, List.length_cons] at h
    exact lengthsFit_of_length f (by omega)
  | .leaf path op v, h => by
    simp only [encode, List.cons_append, List.length_cons, List.length_append,
      length_encodeText] at h
    exact ⟨by omega, v.lengthsFit_of_length (by omega)⟩

theorem lengthsFitAll_of_length : (fs : List Filter) → (encodeChildren fs).length < 2 ^ 64 →
    LengthsFitAll fs
  | [], _ => trivial
  | f :: fs, h => by
    simp only [encodeChildren, List.length_append] at h
    exact ⟨lengthsFit_of_length f (by omega), lengthsFitAll_of_length fs (by omega)⟩
end

mutual
theorem encode_append_inj : (f g : Filter) → (x y : List UInt8) → f.LengthsFit → g.LengthsFit →
    f.encode ++ x = g.encode ++ y → f.outline = g.outline ∧ x = y
  | .and fs, g, x, y, hf, hg, h => by
    cases g with
    | and gs =>
      simp only [encode, List.cons_append, List.cons.injEq, true_and, List.append_assoc] at h
      obtain ⟨hlen, h⟩ := encodeNat64_append_inj hf.1 hg.1 h
      obtain ⟨hall, hrest⟩ := encodeChildren_append_inj fs gs x y hlen hf.2 hg.2 h
      exact ⟨by rw [outline, outline, hall], hrest⟩
    | _ => simp [encode] at h
  | .or fs, g, x, y, hf, hg, h => by
    cases g with
    | or gs =>
      simp only [encode, List.cons_append, List.cons.injEq, true_and, List.append_assoc] at h
      obtain ⟨hlen, h⟩ := encodeNat64_append_inj hf.1 hg.1 h
      obtain ⟨hall, hrest⟩ := encodeChildren_append_inj fs gs x y hlen hf.2 hg.2 h
      exact ⟨by rw [outline, outline, hall], hrest⟩
    | _ => simp [encode] at h
  | .not f, g, x, y, hf, hg, h => by
    cases g with
    | not g =>
      simp only [encode, List.cons_append, List.cons.injEq, true_and] at h
      obtain ⟨hfg, hrest⟩ := encode_append_inj f g x y hf hg h
      exact ⟨by rw [outline, outline, hfg], hrest⟩
    | _ => simp [encode] at h
  | .leaf path op v, g, x, y, hf, hg, h => by
    cases g with
    | leaf path' op' w =>
      simp only [encode, List.cons_append, List.cons.injEq, true_and, List.append_assoc] at h
      obtain ⟨rfl, hnext⟩ := encodeText_append_inj hf.1 hg.1 h
      obtain ⟨hop, hvalue⟩ := List.cons.inj hnext
      obtain rfl := FilterOp.byte_injective hop
      obtain ⟨hvw, hrest⟩ := Value.encode_append_inj v w x y hf.2 hg.2 hvalue
      exact ⟨by rw [outline, outline, hvw], hrest⟩
    | _ => simp [encode] at h

theorem encodeChildren_append_inj : (fs gs : List Filter) → (x y : List UInt8) →
    fs.length = gs.length → LengthsFitAll fs → LengthsFitAll gs →
    encodeChildren fs ++ x = encodeChildren gs ++ y → outlineAll fs = outlineAll gs ∧ x = y
  | [], [], x, y, _, _, _, h => ⟨rfl, h⟩
  | f :: fs, g :: gs, x, y, hlen, hf, hg, h => by
    simp only [encodeChildren, List.append_assoc] at h
    obtain ⟨hfg, h⟩ := encode_append_inj f g _ _ hf.1 hg.1 h
    obtain ⟨hall, hrest⟩ := encodeChildren_append_inj fs gs x y (Nat.succ.inj hlen) hf.2 hg.2 h
    exact ⟨by rw [outlineAll, outlineAll, hfg, hall], hrest⟩
end

theorem outline_eq_of_encode_eq {f g : Filter} (hf : f.encode.length < 2 ^ 64)
    (hg : g.encode.length < 2 ^ 64) (h : f.encode = g.encode) : f.outline = g.outline :=
  (encode_append_inj f g [] [] (lengthsFit_of_length f hf) (lengthsFit_of_length g hg)
    (by rw [h])).1

end Filter

/-! ## Compiling -/

namespace Value

theorem normalize?_outline (kind : ScalarKind) (v : Value) :
    v.outline.normalize? kind = v.normalize? kind := by
  cases v <;> cases kind <;> rfl

theorem members_outline (v : Value) : v.outline.members = outlineItems v.members := by
  cases v <;> rfl

theorem kindLabel_outline (v : Value) : v.outline.kindLabel = v.kindLabel := by
  cases v <;> rfl

end Value

variable (kind : ScalarKind) (op : FilterOp) (field : String)

theorem compileOperand_outline (v : Value) :
    compileOperand kind op field v.outline = compileOperand kind op field v := by
  unfold compileOperand
  rw [Value.normalize?_outline, Value.kindLabel_outline]

theorem compileOperands_outline (vs : List Value) :
    compileOperands kind op field (Value.outlineItems vs) = compileOperands kind op field vs := by
  induction vs with
  | nil => rfl
  | cons v vs ih =>
    simp only [Value.outlineItems, compileOperands, compileOperand_outline, ih]

theorem compileRange_outline (low high : Value) :
    compileRange kind op field low.outline high.outline = compileRange kind op field low high := by
  simp only [compileRange, compileOperand_outline]

theorem compileShape_membership_eq (hop : op = .isIn ∨ op = .notIn) (v : Value) :
    compileShape kind op field v = (compileOperands kind op field v.members).map .many := by
  rcases hop with rfl | rfl <;> cases v <;> rfl

theorem compileShape_between_outline (v : Value) :
    compileShape kind .between field v.outline = compileShape kind .between field v := by
  cases v with
  | list vs =>
    match vs with
    | [] => rfl
    | [_] => rfl
    | [low, high] => exact compileRange_outline kind .between field low high
    | _ :: _ :: _ :: _ => rfl
  | _ => rfl

theorem compileShape_outline (v : Value) :
    compileShape kind op field v.outline = compileShape kind op field v := by
  cases op with
  | isIn | notIn =>
    rw [compileShape_membership_eq kind _ field (by simp), Value.members_outline,
      compileOperands_outline, compileShape_membership_eq kind _ field (by simp)]
  | between => exact compileShape_between_outline kind field v
  | _ => simp only [compileShape, compileOperand_outline]

theorem compileLeaf_outline (path : FieldPath) (v : Value) :
    compileLeaf path op v.outline = compileLeaf path op v := by
  simp only [compileLeaf, compileShape_outline]

namespace Filter
variable (r : Registry) (t : DocumentType)

theorem isEmpty_outlineAll (fs : List Filter) : (outlineAll fs).isEmpty = fs.isEmpty := by
  cases fs <;> rfl

mutual
theorem compile_outline : (f : Filter) → f.outline.compile r t = f.compile r t
  | .and fs => by simp only [outline, compile, isEmpty_outlineAll, compileAll_outline fs]
  | .or fs => by simp only [outline, compile, isEmpty_outlineAll, compileAll_outline fs]
  | .not f => by simp only [outline, compile, compile_outline f]
  | .leaf path op v => by simp only [outline, compile, compileLeaf_outline]

theorem compileAll_outline : (fs : List Filter) → compileAll r t (outlineAll fs) = compileAll r t fs
  | [] => rfl
  | f :: fs => by
    simp only [outlineAll, compileAll, compile_outline f, compileAll_outline fs]
end

/-- Filters with the same encoding compile to the same predicate, or fail with the same error. -/
theorem compile_eq_of_encode_eq {f g : Filter} (hf : f.encode.length < 2 ^ 64)
    (hg : g.encode.length < 2 ^ 64) (h : f.encode = g.encode) : f.compile r t = g.compile r t := by
  rw [← compile_outline r t f, outline_eq_of_encode_eq hf hg h, compile_outline]

end Filter
end ContentEngine
