import ContentEngine.Text.Split
import Mathlib.Data.List.Basic

/-!
# Pieces between separators

A text that is joined by separators is cut into the pieces of its parts. Cutting once at the first
separator gives the first piece, and the pieces of what is behind it are the others.
-/

namespace ContentEngine.Text
variable {sep : Char}

theorem splitList_of_notMem {l : List Char} (h : sep ∉ l) : splitList sep l = [l] := by
  induction l with
  | nil => rfl
  | cons c l ih =>
    obtain ⟨hc, hl⟩ := not_or.1 (List.mem_cons.not.1 h)
    rw [splitList, if_neg (Ne.symm hc), ih hl]

theorem splitList_append (l m : List Char) :
    splitList sep (l ++ sep :: m) = splitList sep l ++ splitList sep m := by
  induction l with
  | nil => simp [splitList]
  | cons c l ih =>
    rw [List.cons_append, splitList, splitList, ih]
    by_cases hc : c = sep
    · rw [if_pos hc, if_pos hc, List.cons_append]
    · rw [if_neg hc, if_neg hc]
      cases hl : splitList sep l with
      | nil => exact absurd hl (splitList_ne_nil sep l)
      | cons p ps => rfl

theorem split_of_notMem {s : String} (h : sep ∉ s.toList) : split sep s = [s] := by
  rw [split, splitList_of_notMem h, List.map_singleton, String.ofList_toList]

theorem split_append (s t : String) :
    split sep (s ++ String.singleton sep ++ t) = split sep s ++ split sep t := by
  have hchars : (s ++ String.singleton sep ++ t).toList = s.toList ++ sep :: t.toList := by simp
  rw [split, hchars, splitList_append, List.map_append, split, split]

theorem split_dotted {s : String} (h : '.' ∉ s.toList) (t : String) :
    split '.' (s ++ "." ++ t) = s :: split '.' t := by
  have hdot : s ++ "." ++ t = s ++ String.singleton '.' ++ t := rfl
  rw [hdot, split_append, split_of_notMem h, List.singleton_append]

/-! ## The first separator -/

theorem splitOnceList_eq_none_iff {l : List Char} : splitOnceList sep l = none ↔ sep ∉ l := by
  induction l with
  | nil => simp [splitOnceList]
  | cons c l ih =>
    by_cases hc : c = sep
    · simp [splitOnceList, hc]
    · simp [splitOnceList, hc, ih, Ne.symm hc]

theorem of_splitOnceList {l front back : List Char} (h : splitOnceList sep l = some (front, back)) :
    l = front ++ sep :: back ∧ sep ∉ front := by
  induction l generalizing front with
  | nil => exact absurd h (by simp [splitOnceList])
  | cons c l ih =>
    by_cases hc : c = sep
    · simp only [splitOnceList, hc, if_true, Option.some.injEq, Prod.mk.injEq] at h
      obtain ⟨rfl, rfl⟩ := h
      exact ⟨by rw [hc, List.nil_append], List.not_mem_nil⟩
    · simp only [splitOnceList, hc, if_false, Option.map_eq_some_iff, Prod.mk.injEq] at h
      obtain ⟨⟨front', back'⟩, hrest, rfl, rfl⟩ := h
      obtain ⟨rfl, hfront⟩ := ih hrest
      exact ⟨rfl, List.mem_cons.not.2 (not_or.2 ⟨Ne.symm hc, hfront⟩)⟩

theorem splitOnce_eq_none_iff {s : String} : splitOnce sep s = none ↔ sep ∉ s.toList := by
  rw [splitOnce, Option.map_eq_none_iff, splitOnceList_eq_none_iff]

theorem of_splitOnce {s front back : String} (h : splitOnce sep s = some (front, back)) :
    s = front ++ String.singleton sep ++ back ∧ sep ∉ front.toList := by
  obtain ⟨⟨l, m⟩, hlist, heq⟩ := Option.map_eq_some_iff.1 h
  obtain ⟨rfl, rfl⟩ := Prod.mk.inj heq
  obtain ⟨hchars, hfront⟩ := of_splitOnceList hlist
  refine ⟨String.toList_injective ?_, by simpa using hfront⟩
  simpa using hchars

theorem split_of_splitOnce {s front back : String} (h : splitOnce sep s = some (front, back)) :
    split sep s = front :: split sep back := by
  obtain ⟨rfl, hfront⟩ := of_splitOnce h
  rw [split_append, split_of_notMem hfront, List.singleton_append]

theorem length_of_splitOnce {s front back : String} (h : splitOnce sep s = some (front, back)) :
    back.length < s.length := by
  obtain ⟨rfl, -⟩ := of_splitOnce h
  simp only [String.length_append, String.length_singleton]
  omega

theorem split_ne_nil (s : String) : split sep s ≠ [] := by
  simp [split, splitList_ne_nil]

/-! ## Lists of pieces -/

theorem listPieces_append (s t : String) :
    listPieces (s ++ "," ++ t) = listPieces s ++ listPieces t := by
  have hcomma : s ++ "," ++ t = s ++ String.singleton ',' ++ t := rfl
  rw [listPieces, hcomma, split_append, List.map_append, List.filter_append, listPieces, listPieces]

/-- A text of texts that are joined by commas has the pieces of all of them. -/
theorem listPieces_intercalate (items : List String) :
    listPieces (",".intercalate items) = items.flatMap listPieces := by
  induction items with
  | nil => rfl
  | cons item items ih =>
    cases items with
    | nil => simp [String.intercalate_singleton]
    | cons next rest =>
      rw [String.intercalate_cons_cons, listPieces_append, ih]
      exact List.flatMap_cons.symm

end ContentEngine.Text
