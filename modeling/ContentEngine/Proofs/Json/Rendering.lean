import ContentEngine.Proofs.Json.Number
import ContentEngine.Proofs.Json.Quoted

/-!
# The text of JSON is unambiguous

A value shows in its text where it ends and what it is: values that have the same text, each with
something behind it that a number could not go on with, are the same value, and the same stands
behind them. A value is writable if its numbers are finite, for JSON has no text for the infinities
and the NaNs.
-/

namespace ContentEngine.Json

/-- Values of which all numbers are finite. -/
inductive Writable : Json → Prop
  | null : Writable .null
  | bool (b : Bool) : Writable (.bool b)
  | int (n : Int) : Writable (.int n)
  | double (x : Double) (h : x.isFinite = true) : Writable (.double x)
  | str (s : String) : Writable (.str s)
  | arr (items : List Json) (h : ∀ j ∈ items, Writable j) : Writable (.arr items)
  | obj (members : List (String × Json)) (h : ∀ m ∈ members, Writable m.2) : Writable (.obj members)

/-- The text of a value as characters. -/
def chars (j : Json) : List Char := j.render.toList

/-! ## Lists -/

section
variable {α : Type} (text : α → List Char) (bracket : Char)

/-- The items of a list behind the first one, with the bracket at the end. -/
def following : List α → List Char
  | [] => [bracket]
  | a :: as => ',' :: (text a ++ following as)

/-- The items of a list and the bracket at the end. -/
def listed : List α → List Char
  | [] => [bracket]
  | a :: as => text a ++ following text bracket as

theorem intercalate_append (as : List α) :
    [','].intercalate (as.map text) ++ [bracket] = listed text bracket as := by
  cases as with
  | nil => rfl
  | cons a as =>
    induction as generalizing a with
    | nil => simp [listed, following]
    | cons b as ih =>
      have hrest := ih b
      rw [List.map_cons] at hrest
      rw [List.map_cons, List.map_cons, List.intercalate_cons_cons, List.append_assoc,
        List.append_assoc, hrest]
      rfl

variable {text bracket}

theorem stops_following (hbracket : Stops [bracket]) (as : List α) (x : List Char) :
    Stops (following text bracket as ++ x) := by
  intro c hc
  cases as with
  | nil => exact hbracket c hc
  | cons a as =>
    obtain rfl := Option.some.inj hc
    decide

/-- If the texts of the items show where they end, then so does the list. -/
theorem following_append_inj (hbracket : Stops [bracket]) (hcomma : bracket ≠ ',') {as bs : List α}
    {x y : List Char}
    (hitem : ∀ a ∈ as, ∀ b ∈ bs, ∀ {x y}, Stops x → Stops y → text a ++ x = text b ++ y →
      a = b ∧ x = y)
    (h : following text bracket as ++ x = following text bracket bs ++ y) : as = bs ∧ x = y := by
  induction as generalizing bs with
  | nil =>
    cases bs with
    | nil => exact ⟨rfl, (List.cons.inj h).2⟩
    | cons b bs => exact absurd (List.cons.inj h).1 hcomma
  | cons a as ih =>
    cases bs with
    | nil => exact absurd (List.cons.inj h).1 hcomma.symm
    | cons b bs =>
      simp only [following, List.cons_append, List.append_assoc, List.cons.injEq, true_and] at h
      obtain ⟨rfl, hrest⟩ := hitem a List.mem_cons_self b List.mem_cons_self
        (stops_following hbracket as x) (stops_following hbracket bs y) h
      obtain ⟨rfl, hxy⟩ := ih (fun a ha b hb => hitem a (List.mem_cons_of_mem _ ha) b
        (List.mem_cons_of_mem _ hb)) hrest
      exact ⟨rfl, hxy⟩

theorem listed_append_inj (hbracket : Stops [bracket]) (hcomma : bracket ≠ ',') {as bs : List α}
    {x y : List Char} (hfirst : ∀ a ∈ as ++ bs, ∃ c l, text a = c :: l ∧ c ≠ bracket)
    (hitem : ∀ a ∈ as, ∀ b ∈ bs, ∀ {x y}, Stops x → Stops y → text a ++ x = text b ++ y →
      a = b ∧ x = y)
    (h : listed text bracket as ++ x = listed text bracket bs ++ y) : as = bs ∧ x = y := by
  cases as with
  | nil =>
    cases bs with
    | nil => exact ⟨rfl, (List.cons.inj h).2⟩
    | cons b bs =>
      obtain ⟨c, l, hc, hne⟩ := hfirst b List.mem_cons_self
      rw [listed, listed, hc] at h
      exact absurd (List.cons.inj h).1.symm hne
  | cons a as =>
    cases bs with
    | nil =>
      obtain ⟨c, l, hc, hne⟩ := hfirst a List.mem_cons_self
      rw [listed, listed, hc] at h
      exact absurd (List.cons.inj h).1 hne
    | cons b bs =>
      simp only [listed, List.append_assoc] at h
      obtain ⟨rfl, hrest⟩ := hitem a List.mem_cons_self b List.mem_cons_self
        (stops_following hbracket as x) (stops_following hbracket bs y) h
      obtain ⟨rfl, hxy⟩ := following_append_inj hbracket hcomma (fun a ha b hb =>
        hitem a (List.mem_cons_of_mem _ ha) b (List.mem_cons_of_mem _ hb)) hrest
      exact ⟨rfl, hxy⟩

end

/-! ## The texts of values -/

def memberChars (m : String × Json) : List Char := (quote m.1).toList ++ ':' :: m.2.chars

theorem renderItems_eq_map (items : List Json) : renderItems items = items.map render := by
  induction items with
  | nil => rfl
  | cons j items ih => rw [renderItems, ih, List.map_cons]

theorem renderMembers_eq_map (members : List (String × Json)) :
    renderMembers members = members.map fun m => quote m.1 ++ ":" ++ m.2.render := by
  induction members with
  | nil => rfl
  | cons m members ih => rw [renderMembers, ih, List.map_cons]

theorem chars_arr (items : List Json) : (arr items).chars = '[' :: listed chars ']' items := by
  have htexts : (items.map render).map String.toList = items.map chars := List.map_map
  rw [chars, render, renderItems_eq_map, String.toList_append, String.toList_append,
    String.toList_intercalate, htexts, ← intercalate_append]
  rfl

theorem chars_obj (members : List (String × Json)) :
    (obj members).chars = '\x7b' :: listed memberChars '\x7d' members := by
  have htexts : (members.map fun m => quote m.1 ++ ":" ++ m.2.render).map String.toList =
      members.map memberChars := by
    simp [memberChars, chars]
  rw [chars, render, renderMembers_eq_map, String.toList_append, String.toList_append,
    String.toList_intercalate, htexts, ← intercalate_append]
  rfl

theorem chars_int (n : Int) : (int n).chars = (NumberText.ofInt n).chars := by
  rw [NumberText.chars_ofInt, chars, render]

theorem chars_double {x : Double} (h : x.isFinite = true) :
    (double x).chars = (NumberText.ofDouble x).chars := by
  rw [NumberText.chars_ofDouble h, chars, render]

/-! ## First characters -/

/-- The kind of value that starts with a character, by one of the characters that do. -/
def lead (c : Char) : Char := if Text.isDigit c ∨ c = '-' then '0' else if c = 'f' then 't' else c

def kindLead : Json → Char
  | .null => 'n'
  | .bool _ => 't'
  | .int _ => '0'
  | .double _ => '0'
  | .str _ => '"'
  | .arr _ => '['
  | .obj _ => '\x7b'

theorem NumberText.Proper.exists_lead {t : NumberText} (h : t.Proper) :
    ∃ c l, t.chars = c :: l ∧ lead c = '0' := by
  obtain ⟨c, l, hwhole, hdigit⟩ := h.whole.exists_cons
  rw [NumberText.chars, hwhole]
  split
  · exact ⟨'-', _, rfl, rfl⟩
  · exact ⟨c, _, rfl, if_pos (.inl hdigit)⟩

theorem Writable.exists_lead {j : Json} (h : Writable j) :
    ∃ c l, j.chars = c :: l ∧ lead c = j.kindLead := by
  cases h with
  | null => exact ⟨'n', _, rfl, rfl⟩
  | bool b => cases b <;> exact ⟨_, _, rfl, rfl⟩
  | int n => exact chars_int n ▸ (NumberText.proper_ofInt n).exists_lead
  | double x hx => exact chars_double hx ▸ (NumberText.proper_ofDouble x).exists_lead
  | str s => exact ⟨'"', _, toList_quote s, rfl⟩
  | arr items => exact ⟨'[', _, chars_arr items, rfl⟩
  | obj members => exact ⟨'\x7b', _, chars_obj members, rfl⟩

theorem Writable.kindLead_eq {i j : Json} (hi : Writable i) (hj : Writable j) {x y : List Char}
    (h : i.chars ++ x = j.chars ++ y) : i.kindLead = j.kindLead := by
  obtain ⟨c, l, hic, hlead⟩ := hi.exists_lead
  obtain ⟨d, m, hjd, hlead'⟩ := hj.exists_lead
  rw [hic, hjd] at h
  rw [← hlead, ← hlead', (List.cons.inj h).1]

/-- No value starts with a bracket that ends a list. -/
theorem Writable.exists_first {j : Json} (h : Writable j) : ∃ c l, j.chars = c :: l ∧ c ≠ ']' := by
  obtain ⟨c, l, hc, hlead⟩ := h.exists_lead
  refine ⟨c, l, hc, ?_⟩
  rintro rfl
  cases j <;> exact absurd hlead (by simp only [kindLead]; decide)

theorem exists_first_member (m : String × Json) :
    ∃ c l, memberChars m = c :: l ∧ c ≠ '\x7d' := by
  rw [memberChars, toList_quote]
  exact ⟨'"', _, rfl, by decide⟩

theorem stops_nil : Stops [] := fun c hc => by cases hc

theorem stops_bracket : Stops [']'] := by
  rintro _ ⟨⟩
  decide

theorem stops_brace : Stops ['\x7d'] := by
  rintro _ ⟨⟩
  decide

/-! ## Numbers -/

/-- The parts of a number as it is written. -/
def parts? : Json → Option NumberText
  | .int n => some (.ofInt n)
  | .double x => some (.ofDouble x)
  | _ => none

theorem Writable.chars_of_parts {j : Json} (h : Writable j) {t : NumberText}
    (ht : j.parts? = some t) : j.chars = t.chars ∧ t.Proper := by
  cases h with
  | int n =>
    obtain rfl := Option.some.inj ht
    exact ⟨chars_int n, NumberText.proper_ofInt n⟩
  | double x hx =>
    obtain rfl := Option.some.inj ht
    exact ⟨chars_double hx, NumberText.proper_ofDouble x⟩
  | _ => simp [parts?] at ht

theorem parts?_inj {i j : Json} {t : NumberText} (hi : i.parts? = some t) (hj : j.parts? = some t) :
    i = j := by
  cases i <;> simp only [parts?, Option.some.injEq, reduceCtorEq] at hi <;>
    cases j <;> simp only [parts?, Option.some.injEq, reduceCtorEq] at hj <;>
    subst hi
  · rw [NumberText.ofInt_inj hj]
  · exact absurd hj.symm (NumberText.ofInt_ne_ofDouble _ _)
  · exact absurd hj (NumberText.ofInt_ne_ofDouble _ _)
  · rw [NumberText.ofDouble_inj hj]

theorem isSome_parts?_iff (j : Json) : j.parts?.isSome ↔ j.kindLead = '0' := by
  cases j <;> simp [parts?, kindLead]

theorem Writable.number_append_inj {i j : Json} (hi : Writable i) (hj : Writable j) {t : NumberText}
    (ht : i.parts? = some t) {x y : List Char} (hx : Stops x) (hy : Stops y)
    (h : i.chars ++ x = j.chars ++ y) : i = j ∧ x = y := by
  have hlead : j.kindLead = '0' := by
    rw [← kindLead_eq hi hj h, ← isSome_parts?_iff, ht, Option.isSome_some]
  obtain ⟨u, hu⟩ := Option.isSome_iff_exists.1 ((isSome_parts?_iff j).2 hlead)
  obtain ⟨hichars, hiproper⟩ := hi.chars_of_parts ht
  obtain ⟨hjchars, hjproper⟩ := hj.chars_of_parts hu
  rw [hichars, hjchars] at h
  obtain ⟨rfl, hrest⟩ := NumberText.chars_append_inj hiproper hjproper hx hy h
  exact ⟨parts?_inj ht hu, hrest⟩

/-! ## Values -/

/-- Values with the same text in front of what no number goes on with are the same. -/
theorem Writable.chars_append_inj {i j : Json} (hi : Writable i) (hj : Writable j) {x y : List Char}
    (hx : Stops x) (hy : Stops y) (h : i.chars ++ x = j.chars ++ y) : i = j ∧ x = y := by
  -- by induction on the first value; the first characters rule out a second one of another kind
  induction hi generalizing j x y with
  | null =>
    have hlead := kindLead_eq .null hj h
    cases hj with
    | null => exact ⟨rfl, List.append_cancel_left h⟩
    | _ => simp [kindLead] at hlead
  | bool b =>
    have hlead := kindLead_eq (.bool b) hj h
    cases hj with
    | bool b' => cases b <;> cases b' <;> simp_all [chars, render]
    | _ => simp [kindLead] at hlead
  | int n => exact number_append_inj (.int n) hj rfl hx hy h
  | double z hz => exact number_append_inj (.double z hz) hj rfl hx hy h
  | str s =>
    have hlead := kindLead_eq (.str s) hj h
    cases hj with
    | str t =>
      obtain ⟨rfl, hrest⟩ := quote_append_inj h
      exact ⟨rfl, hrest⟩
    | _ => simp [kindLead] at hlead
  | arr items hitems ih =>
    have hlead := kindLead_eq (.arr items hitems) hj h
    cases hj with
    | arr items' hitems' =>
      rw [chars_arr, chars_arr] at h
      have hfirst : ∀ k ∈ items ++ items', ∃ c l, k.chars = c :: l ∧ c ≠ ']' := fun k hk =>
        ((List.mem_append.1 hk).elim (hitems k) (hitems' k)).exists_first
      obtain ⟨rfl, hrest⟩ := listed_append_inj stops_bracket (by decide) hfirst
        (fun k hk l hl _ _ hx hy h => ih k hk (hitems' l hl) hx hy h) (List.cons.inj h).2
      exact ⟨rfl, hrest⟩
    | _ => simp [kindLead] at hlead
  | obj members hmembers ih =>
    have hlead := kindLead_eq (.obj members hmembers) hj h
    cases hj with
    | obj members' hmembers' =>
      rw [chars_obj, chars_obj] at h
      have hitem : ∀ m ∈ members, ∀ m' ∈ members', ∀ {x y}, Stops x → Stops y →
          memberChars m ++ x = memberChars m' ++ y → m = m' ∧ x = y := by
        intro m hm m' hm' x y hx hy h
        rw [memberChars, memberChars, List.append_assoc, List.append_assoc] at h
        obtain ⟨hkey, hcolon⟩ := quote_append_inj h
        obtain ⟨hvalue, hrest⟩ := ih m hm (hmembers' m' hm') hx hy (List.cons.inj hcolon).2
        exact ⟨Prod.ext hkey hvalue, hrest⟩
      obtain ⟨rfl, hrest⟩ := listed_append_inj stops_brace (by decide)
        (fun m _ => exists_first_member m) hitem (List.cons.inj h).2
      exact ⟨rfl, hrest⟩
    | _ => simp [kindLead] at hlead

/-- Different writable values have different texts. -/
theorem Writable.render_inj {i j : Json} (hi : Writable i) (hj : Writable j)
    (h : i.render = j.render) : i = j :=
  (hi.chars_append_inj hj stops_nil stops_nil (by rw [chars, chars, h])).1

end ContentEngine.Json
