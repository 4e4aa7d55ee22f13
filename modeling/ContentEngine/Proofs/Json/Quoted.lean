import ContentEngine.Json.Parser
import ContentEngine.Json.Printer
import Mathlib.Tactic.SplitIfs

/-!
# Quoted texts

A text that was quoted is read back: every character is written as one part, and this part stands
for the character. So a quoted text shows where it ends, whatever comes behind.
-/

namespace ContentEngine.Json

/-! ## Reading one part -/

variable (s : List Char)

theorem stringParts?_end : stringParts? ('"' :: s) = some ([], s) := by
  rw [stringParts?.eq_def]
  rfl

theorem stringParts?_char {c : Char} (hquote : c ≠ '"') (hslash : c ≠ '\\') (h : ¬ c.toNat < 32) :
    stringParts? (c :: s) = (stringParts? s).map fun e => (.char c :: e.1, e.2) := by
  rw [stringParts?.eq_def]
  simp only [hquote, hslash, h, if_false]

theorem stringParts?_escape {e c : Char} (hunit : e ≠ 'u') (h : shortEscape? e = some c) :
    stringParts? ('\\' :: e :: s) = (stringParts? s).map fun e => (.char c :: e.1, e.2) := by
  rw [stringParts?.eq_def]
  simp only [Char.reduceEq, hunit, h, if_false, if_true]

theorem stringParts?_unit {a b c d : Char} {n : Nat} (h : unit? a b c d = some n) :
    stringParts? ('\\' :: 'u' :: a :: b :: c :: d :: s) =
      (stringParts? s).map fun e => (.unit n :: e.1, e.2) := by
  rw [stringParts?.eq_def]
  simp only [Char.reduceEq, h, if_false, if_true]

theorem unit?_control : ∀ n < 32, unit? '0' '0' (Text.hexDigit (n / 16)) (Text.hexDigit (n % 16)) =
    some n := by
  decide

/-! ## Reading a text -/

/-- A character is written as one part that stands for it. -/
theorem exists_part (c : Char) :
    ∃ p, (∀ s, stringParts? (escapeChar c ++ s) = (stringParts? s).map fun e => (p :: e.1, e.2)) ∧
      ∀ ps, joinParts? none (p :: ps) = (joinParts? none ps).map (c :: ·) := by
  have hchar : ∀ ps, joinParts? none (.char c :: ps) = (joinParts? none ps).map (c :: ·) :=
    fun _ => rfl
  unfold escapeChar
  split_ifs with hquote hslash hnewline hreturn htab hback hform hcontrol
  · exact ⟨.char c, fun s => stringParts?_escape s (by decide) (by rw [hquote]; rfl), hchar⟩
  · exact ⟨.char c, fun s => stringParts?_escape s (by decide) (by rw [hslash]; rfl), hchar⟩
  · exact ⟨.char c, fun s => stringParts?_escape s (by decide) (by rw [hnewline]; rfl), hchar⟩
  · exact ⟨.char c, fun s => stringParts?_escape s (by decide) (by rw [hreturn]; rfl), hchar⟩
  · exact ⟨.char c, fun s => stringParts?_escape s (by decide) (by rw [htab]; rfl), hchar⟩
  · have hc : Char.ofNat 8 = c := by rw [← hback, Char.ofNat_toNat]
    exact ⟨.char c, fun s => stringParts?_escape s (by decide) (by rw [← hc]; rfl), hchar⟩
  · have hc : Char.ofNat 12 = c := by rw [← hform, Char.ofNat_toNat]
    exact ⟨.char c, fun s => stringParts?_escape s (by decide) (by rw [← hc]; rfl), hchar⟩
  · have hhigh : isHighSurrogate c.toNat = false := by
      rw [isHighSurrogate, decide_eq_false (by omega), Bool.false_and]
    have hlow : isLowSurrogate c.toNat = false := by
      rw [isLowSurrogate, decide_eq_false (by omega), Bool.false_and]
    refine ⟨.unit c.toNat, fun s => stringParts?_unit s (unit?_control c.toNat hcontrol), ?_⟩
    intro ps
    simp only [joinParts?, hhigh, hlow, Bool.false_eq_true, if_false, Char.ofNat_toNat]
  · exact ⟨.char c, fun s => stringParts?_char s hquote hslash hcontrol, hchar⟩

/-- A quoted text is read back, and what comes behind it stays. -/
theorem stringBody?_append (l : List Char) :
    stringBody? (l.flatMap escapeChar ++ '"' :: s) = some (some (String.ofList l), s) := by
  have hparts : ∃ ps, stringParts? (l.flatMap escapeChar ++ '"' :: s) = some (ps, s) ∧
      joinParts? none ps = some l := by
    induction l with
    | nil => exact ⟨[], stringParts?_end s, rfl⟩
    | cons c l ih =>
      obtain ⟨p, hwritten, hread⟩ := exists_part c
      obtain ⟨ps, hps, hl⟩ := ih
      refine ⟨p :: ps, ?_, ?_⟩
      · rw [List.flatMap_cons, List.append_assoc, hwritten, hps, Option.map_some]
      · rw [hread, hl, Option.map_some]
  obtain ⟨ps, hps, hl⟩ := hparts
  simp only [stringBody?, hps, hl, Option.map_some]

theorem toList_quote (t : String) :
    (quote t).toList = '"' :: (t.toList.flatMap escapeChar ++ ['"']) := by
  simp [quote]

/-- Quoted texts that are the same with something behind them quote the same text. -/
theorem quote_append_inj {t u : String} {x y : List Char}
    (h : (quote t).toList ++ x = (quote u).toList ++ y) : t = u ∧ x = y := by
  simp only [toList_quote, List.cons_append, List.append_assoc, List.nil_append, List.cons.injEq,
    true_and] at h
  have hread := stringBody?_append x t.toList
  rw [h, stringBody?_append, String.ofList_toList, String.ofList_toList] at hread
  obtain ⟨htext, hrest⟩ := Prod.mk.inj (Option.some.inj hread)
  exact ⟨(Option.some.inj htext).symm, hrest.symm⟩

end ContentEngine.Json
