import ContentEngine.Proofs.Filter.Families
import Mathlib.Data.List.Forall2

/-!
# The lower case of a part

The lower case of a text is not made up of those of its parts: whether a capital sigma becomes a
final one depends on the nearest characters that are not ignorable, and these may lie outside of a
part. `lowerBetween` is the lower case of a part, given whether those characters are cased.

So a test of two texts can fail in lower case although the texts as they are pass it.
`holds_lower_iff` says for which second texts this does not happen: those that have the same lower
case between all characters that the test lets stand around them.
-/

namespace ContentEngine

namespace Text

/-- Whether the first character that is not ignorable is a cased one; `beyond` answers for what
follows the list. -/
def nearestCased (beyond : Bool) (l : List Char) : Bool :=
  match l.dropWhile isCaseIgnorable with
  | [] => beyond
  | c :: _ => isCased c

theorem nearestCased_append (beyond : Bool) (l m : List Char) :
    nearestCased beyond (l ++ m) = nearestCased (nearestCased beyond m) l := by
  induction l with
  | nil => rfl
  | cons c l ih =>
    unfold nearestCased at ih ⊢
    rw [List.cons_append, List.dropWhile_cons, List.dropWhile_cons]
    by_cases hc : isCaseIgnorable c = true
    · rw [if_pos hc, if_pos hc, ih]
    · rw [if_neg hc, if_neg hc]

/-- The small sigma of some place. -/
def sigma (before after : Bool) : Char := if before && !after then 'ς' else 'σ'

/-- `lowerFrom` for a part of a text. The flags say whether the nearest characters outside are
cased. -/
def lowerBetween (left right : Bool) (before : List Char) : List Char → List Char
  | [] => []
  | c :: rest =>
    (if c = 'Σ' then [sigma (nearestCased left before) (nearestCased right rest)]
      else lowerChar c) ++ lowerBetween left right (c :: before) rest

variable {left right : Bool} {before l m : List Char}

theorem lowerFrom_eq (before l : List Char) :
    lowerFrom before l = lowerBetween false false before l := by
  induction l generalizing before with
  | nil => rfl
  | cons c rest ih =>
    rw [lowerFrom, lowerBetween, ih]
    refine congrArg (· ++ _) ?_
    by_cases hc : c = 'Σ'
    · rw [if_pos hc, if_pos hc, sigma]
      exact (apply_ite (fun c => [c]) _ _ _).symm
    · rw [if_neg hc, if_neg hc]

theorem lowerBetween_append (left right : Bool) (before l m : List Char) :
    lowerBetween left right before (l ++ m) =
      lowerBetween left (nearestCased right m) before l ++
        lowerBetween left right (l.reverse ++ before) m := by
  induction l generalizing before with
  | nil => rfl
  | cons c l ih =>
    rw [List.cons_append, lowerBetween, lowerBetween, ih, nearestCased_append, List.append_assoc,
      List.reverse_cons, List.append_assoc, List.singleton_append]

theorem lowerBetween_before (left right : Bool) (before outer l : List Char) :
    lowerBetween left right (before ++ outer) l =
      lowerBetween (nearestCased left outer) right before l := by
  induction l generalizing before with
  | nil => rfl
  | cons c l ih =>
    rw [lowerBetween, lowerBetween, nearestCased_append, ← ih (c :: before), List.cons_append]

/-- The lower case of a text has that of its middle part, as it is in its place. -/
theorem lowerFrom_append_append (pre l post : List Char) :
    ∃ pre' post', (pre = [] → pre' = []) ∧ (post = [] → post' = []) ∧
      lowerFrom [] (pre ++ l ++ post) = pre' ++
        lowerBetween (nearestCased false pre.reverse) (nearestCased false post) [] l ++ post' := by
  refine ⟨lowerBetween false (nearestCased (nearestCased false post) l) [] pre,
    lowerBetween false false ((pre ++ l).reverse ++ []) post, ?_, ?_, ?_⟩
  · rintro rfl
    rfl
  · rintro rfl
    rfl
  · have hbefore := lowerBetween_before false (nearestCased false post) [] pre.reverse l
    rw [List.nil_append] at hbefore
    rw [lowerFrom_eq, lowerBetween_append, lowerBetween_append, List.append_nil, hbefore]

theorem nearestCased_letter : nearestCased false ['a'] = true := by decide +kernel

theorem lowerBetween_letter : lowerBetween left right before ['a'] = ['a'] := by
  rw [lowerBetween, if_neg (by decide)]
  rfl

/-! ## What the neighbours change -/

/-- What is beyond a list matters only if the list has no character that is not ignorable. -/
theorem nearestCased_eq (l : List Char) :
    (∀ beyond, nearestCased beyond l = beyond) ∨ ∃ b, ∀ beyond, nearestCased beyond l = b := by
  unfold nearestCased
  cases l.dropWhile isCaseIgnorable with
  | nil => exact .inl fun _ => rfl
  | cons c m => exact .inr ⟨isCased c, fun _ => rfl⟩

/-- A cased character before a text makes sigmas final. -/
theorem sigma_left (before : List Char) (after : Bool) :
    sigma (nearestCased true before) after = sigma (nearestCased false before) after ∨
      sigma (nearestCased true before) after = 'ς' ∧
        sigma (nearestCased false before) after = 'σ' := by
  obtain h | ⟨b, h⟩ := nearestCased_eq before
  · rw [h, h]
    cases after
    · exact .inr ⟨rfl, rfl⟩
    · exact .inl rfl
  · rw [h, h]
    exact .inl rfl

/-- A cased character behind a text makes final sigmas small ones. -/
theorem sigma_right (before : Bool) (rest : List Char) :
    sigma before (nearestCased true rest) = sigma before (nearestCased false rest) ∨
      sigma before (nearestCased true rest) = 'σ' ∧
        sigma before (nearestCased false rest) = 'ς' := by
  obtain h | ⟨b, h⟩ := nearestCased_eq rest
  · rw [h, h]
    cases before
    · exact .inl rfl
    · exact .inr ⟨rfl, rfl⟩
  · rw [h, h]
    exact .inl rfl

theorem sigma_both {before rest : List Char}
    (hleft : sigma (nearestCased true before) (nearestCased false rest) =
      sigma (nearestCased false before) (nearestCased false rest))
    (hright : sigma (nearestCased false before) (nearestCased true rest) =
      sigma (nearestCased false before) (nearestCased false rest)) :
    sigma (nearestCased true before) (nearestCased true rest) =
      sigma (nearestCased false before) (nearestCased false rest) := by
  obtain hbefore | ⟨b, hbefore⟩ := nearestCased_eq before
  · obtain hrest | ⟨c, hrest⟩ := nearestCased_eq rest
    · -- Both sides decide, so one cased character before the sigma is enough to change it.
      simp only [hbefore, hrest] at hleft
      exact absurd hleft (by decide)
    · rwa [hrest true, ← hrest false]
  · rwa [hbefore true, ← hbefore false]

/-- Lower cases of a text in different places, character by character. -/
theorem forall₂_lowerBetween {R : Char → Char → Prop} (hrefl : ∀ c, R c c) {left' right' : Bool}
    (hsigma : ∀ before rest, R (sigma (nearestCased left before) (nearestCased right rest))
      (sigma (nearestCased left' before) (nearestCased right' rest))) (before l : List Char) :
    List.Forall₂ R (lowerBetween left right before l) (lowerBetween left' right' before l) := by
  induction l generalizing before with
  | nil => exact .nil
  | cons c rest ih =>
    refine List.rel_append ?_ (ih (c :: before))
    by_cases hc : c = 'Σ'
    · rw [if_pos hc, if_pos hc]
      exact .cons (hsigma before rest) .nil
    · rw [if_neg hc, if_neg hc]
      exact List.forall₂_same.2 fun c _ => hrefl c

theorem eq_or_count_lt {a b : Char} (hab : a ≠ b)
    (h : List.Forall₂ (fun c d => c = d ∨ c = a ∧ d = b) l m) : l = m ∨ l.count b < m.count b := by
  induction h with
  | nil => exact .inl rfl
  | cons hcd _ ih =>
    rcases hcd with rfl | ⟨rfl, rfl⟩
    · rcases ih with rfl | hlt
      · exact .inl rfl
      · exact .inr (by simp only [List.count_cons]; omega)
    · refine .inr ?_
      rw [List.count_cons_of_ne hab, List.count_cons_self]
      rcases ih with rfl | hlt <;> omega

theorem lowerBetween_left (right : Bool) (l : List Char) :
    lowerBetween true right [] l = lowerBetween false right [] l ∨
      (lowerBetween true right [] l).count 'σ' < (lowerBetween false right [] l).count 'σ' :=
  eq_or_count_lt (by decide) (forall₂_lowerBetween (fun _ => .inl rfl)
    (fun before _ => sigma_left before _) [] l)

theorem lowerBetween_right (left : Bool) (l : List Char) :
    lowerBetween left true [] l = lowerBetween left false [] l ∨
      (lowerBetween left true [] l).count 'ς' < (lowerBetween left false [] l).count 'ς' :=
  eq_or_count_lt (by decide) (forall₂_lowerBetween (fun _ => .inl rfl)
    (fun _ rest => sigma_right _ rest) [] l)

theorem lowerBetween_of_notMem {left' right' : Bool} (h : 'Σ' ∉ l) :
    lowerBetween left right before l = lowerBetween left' right' before l := by
  induction l generalizing before with
  | nil => rfl
  | cons c rest ih =>
    rw [List.mem_cons, not_or] at h
    rw [lowerBetween, lowerBetween, if_neg (Ne.symm h.1), if_neg (Ne.symm h.1), ih h.2]

/-- What cased characters on both sides change, one of them changes as well. -/
theorem lowerBetween_both
    (hleft : lowerBetween true false before l = lowerBetween false false before l)
    (hright : lowerBetween false true before l = lowerBetween false false before l) :
    lowerBetween true true before l = lowerBetween false false before l := by
  induction l generalizing before with
  | nil => rfl
  | cons c rest ih =>
    unfold lowerBetween at hleft hright ⊢
    by_cases hc : c = 'Σ'
    · simp only [if_pos hc, List.singleton_append, List.cons.injEq] at hleft hright ⊢
      exact ⟨sigma_both hleft.1 hright.1, ih hleft.2 hright.2⟩
    · simp only [if_neg hc, List.append_cancel_left_eq] at hleft hright ⊢
      exact ih hleft hright

end Text

/-! ## Tests -/

namespace Value.TextTest
variable {test : TextTest} {a b : String}

/-- Other characters may stand before the second text. -/
def opensLeft : TextTest → Bool
  | .contains | .endsWith => true
  | .equals | .startsWith => false

/-- Other characters may stand behind the second text. -/
def opensRight : TextTest → Bool
  | .contains | .startsWith => true
  | .equals | .endsWith => false

theorem holds_iff : test.holds a b = true ↔ ∃ pre post : List Char,
    (test.opensLeft = false → pre = []) ∧ (test.opensRight = false → post = []) ∧
      pre ++ b.toList ++ post = a.toList := by
  cases test with
  | equals =>
    simp [opensLeft, opensRight, holds, String.toList_inj, eq_comm]
  | contains =>
    rw [Datum.contains_holds]
    simp [opensLeft, opensRight, List.IsInfix]
  | startsWith =>
    rw [Datum.startsWith_holds]
    simp [opensLeft, opensRight, List.IsPrefix]
  | endsWith =>
    rw [Datum.endsWith_holds]
    simp [opensLeft, opensRight, List.IsSuffix]

/-- The second text has the lower case that it has alone in any place where the test finds it. -/
def Settled (test : TextTest) (b : String) : Prop :=
  ∀ left right : Bool, (left = true → test.opensLeft = true) →
    (right = true → test.opensRight = true) →
    Text.lowerBetween left right [] b.toList = (Text.lower b).toList

theorem toList_lower (s : String) :
    (Text.lower s).toList = Text.lowerBetween false false [] s.toList := by
  rw [Text.lower, String.toList_ofList, Text.lowerFrom_eq]

theorem settled_equals (b : String) : TextTest.equals.Settled b := by
  intro left right hleft hright
  rw [toList_lower]
  cases left with
  | false =>
    cases right with
    | false => rfl
    | true => cases hright rfl
  | true => cases hleft rfl

/-- Only capital sigmas look at their neighbours. -/
theorem settled_of_notMem (test : TextTest) (h : 'Σ' ∉ b.toList) : test.Settled b := by
  intro left right _ _
  rw [toList_lower]
  exact Text.lowerBetween_of_notMem h

theorem holds_lower (hsettled : test.Settled b) (h : test.holds a b = true) :
    test.holds (Text.lower a) (Text.lower b) = true := by
  obtain ⟨pre, post, hpre, hpost, habove⟩ := holds_iff.1 h
  obtain ⟨pre', post', hpre', hpost', hlower⟩ := Text.lowerFrom_append_append pre b.toList post
  have hleft : Text.nearestCased false pre.reverse = true → test.opensLeft = true := by
    intro hcased
    by_contra hclosed
    rw [hpre (Bool.not_eq_true _ ▸ hclosed)] at hcased
    cases hcased
  have hright : Text.nearestCased false post = true → test.opensRight = true := by
    intro hcased
    by_contra hclosed
    rw [hpost (Bool.not_eq_true _ ▸ hclosed)] at hcased
    cases hcased
  refine holds_iff.2 ⟨pre', post', fun h => hpre' (hpre h), fun h => hpost' (hpost h), ?_⟩
  rw [← hsettled _ _ hleft hright, ← hlower, habove, Text.lower, String.toList_ofList]

theorem count_le_of_holds (h : test.holds a b = true) (c : Char) :
    b.toList.count c ≤ a.toList.count c := by
  obtain ⟨pre, post, -, -, habove⟩ := holds_iff.1 h
  rw [← habove, List.count_append, List.count_append]
  omega

/-- A letter before the second text changes no sigma of it. -/
theorem eq_of_holds_left (hopen : test.opensLeft = true)
    (h : ∀ a, test.holds a b = true → test.holds (Text.lower a) (Text.lower b) = true) :
    Text.lowerBetween true false [] b.toList = Text.lowerBetween false false [] b.toList := by
  have hlower : (Text.lower ("a" ++ b)).toList =
      'a' :: Text.lowerBetween true false [] b.toList := by
    have hbefore := Text.lowerBetween_before false false [] ['a'] b.toList
    rw [List.nil_append, Text.nearestCased_letter] at hbefore
    have happend := Text.lowerBetween_append false false [] ['a'] b.toList
    rw [Text.lowerBetween_letter, List.reverse_singleton, List.append_nil, hbefore] at happend
    rw [toList_lower, String.toList_append]
    exact happend
  have hholds := count_le_of_holds (h ("a" ++ b) (holds_iff.2 ⟨['a'], [], by simp [hopen], by simp,
    by simp⟩)) 'σ'
  rw [hlower, toList_lower, List.count_cons_of_ne (by decide)] at hholds
  exact (Text.lowerBetween_left false b.toList).resolve_right (by omega)

/-- A letter behind the second text changes no sigma of it. -/
theorem eq_of_holds_right (hopen : test.opensRight = true)
    (h : ∀ a, test.holds a b = true → test.holds (Text.lower a) (Text.lower b) = true) :
    Text.lowerBetween false true [] b.toList = Text.lowerBetween false false [] b.toList := by
  have hlower : (Text.lower (b ++ "a")).toList =
      Text.lowerBetween false true [] b.toList ++ ['a'] := by
    have happend := Text.lowerBetween_append false false [] b.toList ['a']
    rw [Text.nearestCased_letter, Text.lowerBetween_letter] at happend
    rw [toList_lower, String.toList_append]
    exact happend
  have hholds := count_le_of_holds (h (b ++ "a") (holds_iff.2 ⟨[], ['a'], by simp, by simp [hopen],
    by simp⟩)) 'ς'
  rw [hlower, toList_lower, List.count_append, List.count_singleton] at hholds
  exact (Text.lowerBetween_right false b.toList).resolve_right (by simp at hholds; omega)

theorem holds_lower_iff : (∀ a, test.holds a b = true →
    test.holds (Text.lower a) (Text.lower b) = true) ↔ test.Settled b := by
  refine ⟨fun h left right hleft hright => ?_, fun hsettled a => holds_lower hsettled⟩
  rw [toList_lower]
  cases left with
  | false =>
    cases right with
    | false => rfl
    | true => exact eq_of_holds_right (hright rfl) h
  | true =>
    cases right with
    | false => exact eq_of_holds_left (hleft rfl) h
    | true =>
      exact Text.lowerBetween_both (eq_of_holds_left (hleft rfl) h)
        (eq_of_holds_right (hright rfl) h)

end Value.TextTest
end ContentEngine
