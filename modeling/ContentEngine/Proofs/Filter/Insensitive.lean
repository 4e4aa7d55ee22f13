import ContentEngine.Proofs.Filter.Agreement
import ContentEngine.Proofs.Text.Lowering

/-!
# Operators that ignore case

The operators that ignore case compare the lower cases of the stored text and the operand. They
match what their counterparts match if the operand is settled for the test of the operator; for
equality every operand is, and for all tests every operand without a capital sigma.
`insensitive_of_sensitive` says this for fields behind any hops.
-/

namespace ContentEngine

namespace FilterOp

/-- Text operators, those that ignore case and their tests. -/
def textTests : List (FilterOp × FilterOp × Value.TextTest) :=
  [(.eq, .eqi, .equals), (.contains, .containsi, .contains),
    (.startsWith, .startsWithi, .startsWith), (.endsWith, .endsWithi, .endsWith)]

variable {op opi : FilterOp} {test : Value.TextTest}

theorem isSingle_of_textTests (h : (op, opi, test) ∈ textTests) : op.IsSingle ∧ opi.IsSingle := by
  have hall : ∀ entry ∈ textTests, entry.1.IsSingle ∧ entry.2.1.IsSingle := by decide
  exact hall _ h

theorem compares_text_iff (op : FilterOp) (a b : String) :
    op.Compares (.text a) (.text b) ↔
      Comparison.holdsOf op (.one (.text b)) (.text a) = true :=
  (Datum.holdsOf_one_iff (.text a) op (.text b)).symm

theorem holdsOf_textTests (h : (op, opi, test) ∈ textTests) (a b : String) :
    Comparison.holdsOf op (.one (.text b)) (.text a) = test.holds a b ∧
      Comparison.holdsOf opi (.one (.text b)) (.text a) =
        test.holds (Text.lower a) (Text.lower b) := by
  simp only [textTests, List.mem_cons, Prod.mk.injEq, List.not_mem_nil, or_false] at h
  rcases h with ⟨rfl, rfl, rfl⟩ | ⟨rfl, rfl, rfl⟩ | ⟨rfl, rfl, rfl⟩ | ⟨rfl, rfl, rfl⟩ <;>
    simp [Comparison.holdsOf, Value.compareEq?, Value.textTest?, Value.TextMode.apply]

/-- A settled operand that is matched in the case as it stands is matched in lower case. -/
theorem compares_insensitive (h : (op, opi, test) ∈ textTests) {a b : String}
    (hsettled : test.Settled b) (hop : op.Compares (.text a) (.text b)) :
    opi.Compares (.text a) (.text b) := by
  obtain ⟨hsensitive, hinsensitive⟩ := holdsOf_textTests h a b
  rw [compares_text_iff, hsensitive] at hop
  rw [compares_text_iff, hinsensitive]
  exact Value.TextTest.holds_lower hsettled hop

theorem compares_notContains {a b : String} (hsettled : Value.TextTest.contains.Settled b)
    (h : FilterOp.notContainsi.Compares (.text a) (.text b)) :
    FilterOp.notContains.Compares (.text a) (.text b) := by
  refine (Datum.texts_not_iff (.text a) (.text b)).2 fun hcontains => ?_
  have hpair : (FilterOp.contains, FilterOp.containsi, Value.TextTest.contains) ∈ textTests := by
    decide
  have hinsensitive := compares_insensitive hpair hsettled hcontains
  exact (Datum.texts_not_iff (.text a) (.text b)).1 h hinsensitive

end FilterOp

namespace Filter

theorem compile_leaf_eq {r : Registry} {t : DocumentType} {path : String} {op : FilterOp}
    {operand : Value} {p : FieldPath} {c : Comparison}
    (hp : resolvePath r t (Text.split '.' path) = .ok p) (hc : compileLeaf p op operand = .ok c) :
    (Filter.leaf path op operand).compile r t = .ok (.compare c) := by
  unfold compile
  simp only [hp, hc]

section
variable {r : Registry} {t : DocumentType} {lookup : Lookup} {d : Document} {path : String}
  {p : FieldPath} {op : FilterOp} {operand : Value}

theorem exists_compileLeaf_text_iff (hkind : p.kind = .ofAttribute (.scalar .text))
    (hop : op.IsSingle) : (∃ c, compileLeaf p op operand = .ok c) ↔ ∃ b, operand = .text b := by
  rw [exists_compileLeaf_iff hkind]
  constructor
  · rintro (hpresence | ⟨s, hs, -, htakes⟩)
    · exact absurd hpresence (by simp [hop.1])
    · obtain rfl := AttributeKind.scalar.inj hs
      obtain ⟨y, hy⟩ := (FilterOp.takes_iff hop).1 htakes
      cases hy with
      | text b => exact ⟨b, rfl⟩
      | int _ hk => cases hk
      | float _ hk => cases hk
  · rintro ⟨b, rfl⟩
    exact .inr ⟨.text, rfl, ⟨by decide, fun _ => rfl, fun _ => .inl rfl⟩,
      (FilterOp.takes_iff hop).2 ⟨_, .text b⟩⟩

variable (hp : resolvePath r t (Text.split '.' path) = .ok p)
  (hkind : p.kind = .ofAttribute (.scalar .text))
include hp hkind

theorem leafCompiles_text_iff (hop : op.IsSingle) :
    LeafCompiles r t path op operand ↔ ∃ b, operand = .text b := by
  rw [← exists_compileLeaf_text_iff hkind hop]
  constructor
  · rintro ⟨q, hq⟩
    obtain ⟨p', c, hp', hc, -⟩ := compile_leaf hq
    obtain rfl := Except.ok.inj (hp.symm.trans hp')
    exact ⟨c, hc⟩
  · rintro ⟨c, hc⟩
    exact ⟨_, compile_leaf_eq hp hc⟩

/-- A leaf on a text behind hops holds if it holds of some document that they reach. -/
theorem leafMatches_text_iff (hop : op.IsSingle) (b : String) :
    LeafMatches r t lookup d path op (.text b) ↔
      ∃ e ∈ Comparison.reach lookup p.hops [d], ∃ a, e.value? p.field = some (.text a) ∧
        op.Compares (.text a) (.text b) := by
  obtain ⟨c, hc⟩ := (exists_compileLeaf_text_iff hkind hop).2 ⟨b, rfl⟩
  have hmatches : LeafMatches r t lookup d path op (.text b) ↔ c.matches? lookup d = true := by
    have hcompile := compile_leaf_eq hp hc
    constructor
    · rintro ⟨q, hq, h⟩
      obtain rfl := Except.ok.inj (hcompile.symm.trans hq)
      exact h
    · exact fun h => ⟨_, hcompile, h⟩
  have hempty : c.emptyMembership? = none := by
    cases hm : c.emptyMembership? with
    | none => rfl
    | some answer => cases ((emptyMembership?_eq_some_iff hc answer).1 hm).1
  obtain ⟨rfl, -⟩ := compileLeaf_path_op hc
  rw [hmatches, Comparison.matches?, hempty]
  simp only [List.any_eq_true]
  refine exists_congr fun e => and_congr_right fun _ => ?_
  rw [Comparison.holdsOfField_compileLeaf_iff hkind hc, FilterOp.satisfiedByField_iff hop.1]
  constructor
  · rintro ⟨s, v, x, hs, hv, hx, h⟩
    obtain rfl := AttributeKind.scalar.inj hs
    obtain ⟨y, hy, h⟩ := (FilterOp.satisfied_iff hop).1 h
    obtain rfl := hy.unique (.text b)
    cases hx with
    | text a => exact ⟨a, hv, h⟩
    | int _ hk => cases hk
    | float _ hk => cases hk
  · rintro ⟨a, hv, h⟩
    exact ⟨.text, _, _, rfl, hv, .text a, (FilterOp.satisfied_iff hop).2 ⟨_, .text b, h⟩⟩

/-- A leaf is matched by what another one matches if texts that satisfy the other operator satisfy
its own. -/
theorem leafMatches_of_compares {op' : FilterOp} (hop : op.IsSingle) (hop' : op'.IsSingle)
    (h : ∀ a b, operand = .text b → op.Compares (.text a) (.text b) →
      op'.Compares (.text a) (.text b))
    (hmatches : LeafMatches r t lookup d path op operand) :
    LeafMatches r t lookup d path op' operand := by
  obtain ⟨b, rfl⟩ := (leafCompiles_text_iff hp hkind hop).1 hmatches.compiles
  rw [leafMatches_text_iff hp hkind hop] at hmatches
  obtain ⟨e, he, a, ha, hcompares⟩ := hmatches
  exact (leafMatches_text_iff hp hkind hop' b).2 ⟨e, he, a, ha, h a b rfl hcompares⟩

end

/-- Exactly for settled second texts a test that ignores case is never stricter. For equality all
texts are settled, and for all tests those without a capital sigma. An operator that ignores case
matches what its counterpart matches with a settled operand, on texts behind any hops; of the
negations, the one that does not ignore case matches what the other one does. -/
theorem insensitive_of_sensitive (test : Value.TextTest) :
    (∀ b : String,
      ((∀ a, Value.textTest? test .caseSensitive (.text a) (.text b) = some true →
        Value.textTest? test .caseInsensitive (.text a) (.text b) = some true) ↔ test.Settled b) ∧
      (test = .equals ∨ 'Σ' ∉ b.toList → test.Settled b)) ∧
    ∀ (r : Registry) (t : DocumentType) (path : String) (p : FieldPath) (lookup : Lookup)
      (d : Document) (operand : Value),
      resolvePath r t (Text.split '.' path) = .ok p → p.kind = .scalar .text →
      (∀ b, operand = .text b → test.Settled b) →
      (∀ op opi, (op, opi, test) ∈ FilterOp.textTests →
        LeafMatches r t lookup d path op operand → LeafMatches r t lookup d path opi operand) ∧
      (test = .contains → LeafMatches r t lookup d path .notContainsi operand →
        LeafMatches r t lookup d path .notContains operand) := by
  refine ⟨fun b => ⟨?_, ?_⟩, fun r t path p lookup d operand hp hkind hsettled => ⟨?_, ?_⟩⟩
  · rw [← Value.TextTest.holds_lower_iff]
    simp [Value.textTest?, Value.TextMode.apply]
  · rintro (rfl | h)
    · exact Value.TextTest.settled_equals b
    · exact Value.TextTest.settled_of_notMem test h
  · intro op opi hpair
    obtain ⟨hop, hopi⟩ := FilterOp.isSingle_of_textTests hpair
    exact leafMatches_of_compares hp hkind hop hopi fun a b hb =>
      FilterOp.compares_insensitive hpair (hsettled b hb)
  · rintro rfl
    exact leafMatches_of_compares hp hkind (by decide) (by decide) fun a b hb =>
      FilterOp.compares_notContains (hsettled b hb)

theorem insensitive_of_sensitive_blog :
    let r : Registry := ⟨[("article", Blog.article), ("author", Blog.author)]⟩
    let d : Document := ⟨"article", "a1", none, [("author", .ref "au1")]⟩
    let lookup : Lookup := fun _ id =>
      if id = "au1" then some ⟨"author", "au1", none, [("name", .text "Ada")]⟩ else none
    LeafMatches r Blog.article lookup d "author.name" .startsWith (.text "Ad") ∧
      LeafMatches r Blog.article lookup d "author.name" .startsWithi (.text "Ad") := by
  intro r d lookup
  have hmatches : LeafMatches r Blog.article lookup d "author.name" .startsWith (.text "Ad") :=
    ⟨.compare ⟨⟨[⟨"author", "author"⟩], "name", .scalar .text⟩, .startsWith, .one (.text "Ad")⟩,
      rfl, by decide +kernel⟩
  have hsettled : ∀ b, Value.text "Ad" = .text b → Value.TextTest.startsWith.Settled b := by
    rintro _ ⟨⟩
    exact ((insensitive_of_sensitive .startsWith).1 "Ad").2 (.inr (by decide))
  have hlaws := (insensitive_of_sensitive .startsWith).2 r Blog.article "author.name"
    ⟨[⟨"author", "author"⟩], "name", .scalar .text⟩ lookup d (.text "Ad") rfl rfl hsettled
  exact ⟨hmatches, hlaws.1 _ _ (by decide) hmatches⟩

/-- The last sigma of a word is a final one in lower case, but not if it is asked for alone; and a
word that goes on has none where its beginning has one. -/
theorem insensitive_stricter :
    (Value.textTest? .contains .caseSensitive (.text "ΑΣ") (.text "Σ") = some true ∧
      Value.textTest? .contains .caseInsensitive (.text "ΑΣ") (.text "Σ") = some false) ∧
    (Value.textTest? .endsWith .caseSensitive (.text "ΑΣ") (.text "Σ") = some true ∧
      Value.textTest? .endsWith .caseInsensitive (.text "ΑΣ") (.text "Σ") = some false) ∧
    (Value.textTest? .startsWith .caseSensitive (.text "ΑΣΑ") (.text "ΑΣ") = some true ∧
      Value.textTest? .startsWith .caseInsensitive (.text "ΑΣΑ") (.text "ΑΣ") = some false) := by
  decide +kernel

end Filter
end ContentEngine
