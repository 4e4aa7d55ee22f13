import ContentEngine.Populate.Parser
import ContentEngine.Proofs.Populate.Levels
import ContentEngine.Proofs.Text.Split
import Mathlib.Algebra.Order.BigOperators.Group.List
import Mathlib.Algebra.Order.Group.Nat

/-!
# Lists of paths

A list of dotted paths stands for a tree: `TreeOf` says which one, by the first segments of the paths
and what remains behind them. The tree depends on the set of the paths only. A list of texts, the text
that joins them by commas and the list of all their pieces give the same tree, although the texts of a
list are read one by one and their trees joined.
-/

namespace ContentEngine
namespace PopulateSpec

/-- The part of a path before its first dot. -/
def firstSegment (path : String) : String := ((Text.splitOnce '.' path).map (·.1)).getD path

/-- What stands behind the first dot of a path that starts with a segment. -/
def remainder? (segment path : String) : Option String :=
  (Text.splitOnce '.' path).bind fun p => if p.1 = segment then some p.2 else none

def remainders (segment : String) (paths : List String) : List String :=
  paths.filterMap (remainder? segment)

/-- All paths that start with the segment are the segment alone. -/
def EndsAll (segment : String) (paths : List String) : Prop :=
  ∀ path ∈ paths, firstSegment path = segment → path = segment

/-- The specification is the tree of some paths. Below a segment, `below` is the tree of what
remains. -/
inductive TreeOf : List String → PopulateSpec → Prop
  | intro (paths : List String) (spec : PopulateSpec) (below : String → PopulateSpec)
      (wildcard : spec.wildcard = true ↔ wildcardName ∈ paths)
      (sorted : Entries.Sorted spec.entries)
      (segments : ∀ name, name ∈ Entries.keys spec.entries ↔
        ∃ path ∈ paths, path ≠ wildcardName ∧ firstSegment path = name)
      (alone : ∀ e ∈ spec.entries, EndsAll e.1 paths → e.2 = .all)
      (longer : ∀ e ∈ spec.entries, ¬ EndsAll e.1 paths → e.2 = .nested (below e.1))
      (nested : ∀ name, ¬ EndsAll name paths → TreeOf (remainders name paths) (below name)) :
      TreeOf paths spec

/-! ## One path after the other -/

section
variable {path segment rest name : String} {paths others : List String}

theorem firstSegment_of_notMem (h : '.' ∉ path.toList) : firstSegment path = path := by
  rw [firstSegment, Text.splitOnce_eq_none_iff.2 h]
  rfl

theorem remainder?_of_notMem (h : '.' ∉ path.toList) : remainder? name path = none := by
  rw [remainder?, Text.splitOnce_eq_none_iff.2 h]
  rfl

theorem firstSegment_dotted (h : Text.splitOnce '.' path = some (segment, rest)) :
    firstSegment path = segment := by
  rw [firstSegment, h]
  rfl

theorem remainder?_dotted (h : Text.splitOnce '.' path = some (segment, rest)) :
    remainder? name path = if segment = name then some rest else none := by
  rw [remainder?, h]
  rfl

theorem remainder?_eq_some_iff :
    remainder? segment path = some rest ↔ Text.splitOnce '.' path = some (segment, rest) := by
  cases h : Text.splitOnce '.' path with
  | none => simp [remainder?, h]
  | some p =>
    obtain ⟨front, back⟩ := p
    by_cases hfront : front = segment <;> simp [remainder?, h, hfront]

theorem mem_remainders :
    rest ∈ remainders segment paths ↔
      ∃ path ∈ paths, Text.splitOnce '.' path = some (segment, rest) := by
  simp only [remainders, List.mem_filterMap, remainder?_eq_some_iff]

theorem remainders_append :
    remainders segment (paths ++ others) = remainders segment paths ++ remainders segment others :=
  List.filterMap_append

theorem remainders_eq_nil_iff : remainders segment paths = [] ↔ EndsAll segment paths := by
  simp only [remainders, List.filterMap_eq_nil_iff]
  refine forall₂_congr fun path _ => ?_
  cases h : Text.splitOnce '.' path with
  | none =>
    have hdot := Text.splitOnce_eq_none_iff.1 h
    simp [remainder?_of_notMem hdot, firstSegment_of_notMem hdot]
  | some p =>
    obtain ⟨front, back⟩ := p
    rw [remainder?_dotted h, firstSegment_dotted h]
    have hne : path ≠ front := by
      rintro rfl
      obtain ⟨heq, hdot⟩ := Text.of_splitOnce h
      have hmem : '.' ∈ path.toList := heq ▸ by simp
      exact hdot hmem
    by_cases hfront : front = segment
    · subst hfront
      simp [hne]
    · simp [hfront]

/-- A path that goes on is no wildcard. -/
theorem ne_wildcardName_of_splitOnce (h : Text.splitOnce '.' path = some (segment, rest)) :
    path ≠ wildcardName := by
  rintro rfl
  have hnone : Text.splitOnce '.' wildcardName = none :=
    Text.splitOnce_eq_none_iff.2 (by decide)
  rw [hnone] at h
  exact absurd h (by simp)

/-- An induction over lists of paths goes on with what remains behind their first dots. -/
theorem induction_remainders {motive : List String → Prop}
    (step : ∀ paths, (∀ name, ¬ EndsAll name paths → motive (remainders name paths)) → motive paths)
    (paths : List String) : motive paths := by
  -- The paths get shorter; without any there is nothing to go on with.
  have hbounded : ∀ n paths, (∀ path ∈ paths, path.length < n) → motive paths := by
    intro n
    induction n with
    | zero =>
      refine fun paths hpaths => step paths fun name hlonger => (hlonger fun path hpath => ?_).elim
      exact absurd (hpaths path hpath) (Nat.not_lt_zero _)
    | succ n ih =>
      refine fun paths hpaths => step paths fun name _ => ih _ fun rest hrest => ?_
      obtain ⟨path, hpath, hsplit⟩ := mem_remainders.1 hrest
      have hshorter := Text.length_of_splitOnce hsplit
      have hlt := hpaths path hpath
      omega
  refine hbounded ((paths.map String.length).sum + 1) paths fun path hpath => ?_
  exact Nat.lt_succ_of_le (List.le_sum_of_mem (List.mem_map_of_mem hpath))

end

/-! ## The tree -/

section
variable {path segment rest name : String} {paths others : List String}

theorem insertPath_of_notMem (h : '.' ∉ path.toList) (spec : PopulateSpec) :
    spec.insertPath path =
      if path = wildcardName then { spec with wildcard := true }
      else if Entries.contains spec.entries path then spec
      else { spec with entries := Entries.insert spec.entries path .all } := by
  rw [insertPath, Text.split_of_notMem h, insertSegments]

theorem insertPath_dotted (h : Text.splitOnce '.' path = some (segment, rest)) (spec : PopulateSpec) :
    let shape := ((Entries.get? spec.entries segment).getD .all).shapeBelow
    let node := .shape { shape with populate := shape.populate.insertPath rest }
    spec.insertPath path = { spec with entries := Entries.insert spec.entries segment node } := by
  have hne : Text.split '.' rest ≠ [] := Text.split_ne_nil rest
  obtain ⟨next, more, hsplit⟩ := List.exists_cons_of_ne_nil hne
  simp only [insertPath]
  rw [Text.split_of_splitOnce h, hsplit, insertSegments]
  exact List.cons_ne_nil next more

theorem ofPaths_concat : ofPaths (paths ++ [path]) = (ofPaths paths).insertPath path := by
  rw [ofPaths, List.foldl_append]
  rfl

theorem wildcard_ofPaths : (ofPaths paths).wildcard = true ↔ wildcardName ∈ paths := by
  induction paths using List.reverseRec with
  | nil => simp [ofPaths, empty]
  | append_singleton paths path ih =>
    rw [ofPaths_concat]
    cases h : Text.splitOnce '.' path with
    | none =>
      rw [insertPath_of_notMem (Text.splitOnce_eq_none_iff.1 h)]
      by_cases hwild : path = wildcardName
      · simp [hwild]
      · have hsame : (if Entries.contains (ofPaths paths).entries path then ofPaths paths
            else { ofPaths paths with
              entries := Entries.insert (ofPaths paths).entries path .all }).wildcard =
            (ofPaths paths).wildcard := by
          split <;> rfl
        rw [if_neg hwild, hsame, ih]
        simp [Ne.symm hwild]
    | some p =>
      rw [insertPath_dotted h]
      simp [ih, Ne.symm (ne_wildcardName_of_splitOnce h)]

/-- The node that stands for the paths that start with a segment. -/
def nodeOf (segment : String) (paths : List String) : PopulateNode :=
  match remainders segment paths with
  | [] => .all
  | rest => .nested (ofPaths rest)

theorem nodeOf_of_endsAll (h : EndsAll name paths) : nodeOf name paths = .all := by
  rw [nodeOf, remainders_eq_nil_iff.2 h]

theorem nodeOf_of_not_endsAll (h : ¬ EndsAll name paths) :
    nodeOf name paths = .nested (ofPaths (remainders name paths)) := by
  rw [← remainders_eq_nil_iff] at h
  unfold nodeOf
  split
  · exact absurd ‹_› h
  · rfl

theorem shapeBelow_nodeOf :
    (nodeOf name paths).shapeBelow = ⟨none, none, ofPaths (remainders name paths)⟩ := by
  by_cases h : EndsAll name paths
  · rw [nodeOf_of_endsAll h, remainders_eq_nil_iff.2 h]
    rfl
  · rw [nodeOf_of_not_endsAll h]
    rfl

/-- Some path other than the wildcard starts with the segment. -/
def Starts (segment : String) (paths : List String) : Prop :=
  ∃ path ∈ paths, path ≠ wildcardName ∧ firstSegment path = segment

instance : Decidable (Starts segment paths) :=
  inferInstanceAs (Decidable (∃ path ∈ paths, path ≠ wildcardName ∧ firstSegment path = segment))

theorem Starts.of_not_endsAll (h : ¬ EndsAll name paths) : Starts name paths := by
  rw [← remainders_eq_nil_iff] at h
  obtain ⟨rest, hrest⟩ := List.exists_mem_of_ne_nil _ h
  obtain ⟨path, hpath, hsplit⟩ := mem_remainders.1 hrest
  exact ⟨path, hpath, ne_wildcardName_of_splitOnce hsplit, firstSegment_dotted hsplit⟩

theorem starts_concat : Starts name (paths ++ [path]) ↔
    Starts name paths ∨ (path ≠ wildcardName ∧ firstSegment path = name) := by
  simp [Starts, or_and_right, exists_or]

theorem nodeOf_eq_all (h : ¬ Starts name paths) : nodeOf name paths = .all :=
  nodeOf_of_endsAll (not_not.1 fun hlonger => h (.of_not_endsAll hlonger))

theorem nodeOf_concat (h : remainder? name path = none) :
    nodeOf name (paths ++ [path]) = nodeOf name paths := by
  simp [nodeOf, remainders, h]

theorem nodeOf_concat_dotted (h : Text.splitOnce '.' path = some (name, rest)) :
    nodeOf name (paths ++ [path]) =
      .nested (ofPaths (remainders name paths ++ [rest])) := by
  have hremainders : remainders name (paths ++ [path]) = remainders name paths ++ [rest] := by
    simp [remainders, remainder?_dotted h]
  rw [nodeOf_of_not_endsAll, hremainders]
  rw [← remainders_eq_nil_iff, hremainders]
  simp

/-- What stands in the tree under a segment. -/
theorem get?_ofPaths (name : String) (paths : List String) :
    Entries.get? (ofPaths paths).entries name =
      if Starts name paths then some (nodeOf name paths) else none := by
  induction paths using List.reverseRec with
  | nil => simp [ofPaths, empty, Starts]
  | append_singleton paths path ih =>
    simp only [ofPaths_concat, starts_concat]
    cases h : Text.splitOnce '.' path with
    | none =>
      have hdot := Text.splitOnce_eq_none_iff.1 h
      rw [insertPath_of_notMem hdot, nodeOf_concat (remainder?_of_notMem hdot),
        firstSegment_of_notMem hdot]
      by_cases hwild : path = wildcardName
      · simp [hwild, ih]
      · rw [if_neg hwild]
        by_cases hname : path = name
        · subst hname
          by_cases hstarts : Starts path paths
          · simp [Entries.contains, ih, hstarts]
          · simp [Entries.contains, ih, hstarts, hwild, nodeOf_eq_all hstarts]
        · split <;> simp [Entries.get?_insert_ne _ _ hname, ih, hname]
    | some p =>
      obtain ⟨front, back⟩ := p
      have hwild := ne_wildcardName_of_splitOnce h
      rw [insertPath_dotted h, firstSegment_dotted h]
      by_cases hname : front = name
      · subst hname
        have hnode : (Entries.get? (ofPaths paths).entries front).getD .all = nodeOf front paths := by
          rw [ih]
          by_cases hstarts : Starts front paths
          · simp [hstarts]
          · simp [hstarts, nodeOf_eq_all hstarts]
        rw [Entries.get?_insert_self, if_pos (.inr ⟨hwild, rfl⟩), nodeOf_concat_dotted h, hnode,
          shapeBelow_nodeOf, ofPaths_concat]
        rfl
      · have hnone : remainder? name path = none := by rw [remainder?_dotted h, if_neg hname]
        simp [Entries.get?_insert_ne _ _ hname, ih, hname, nodeOf_concat hnone]

theorem sorted_ofPaths (paths : List String) : Entries.Sorted (ofPaths paths).entries :=
  (keyed_ofPaths paths).1

theorem mem_keys_ofPaths : name ∈ Entries.keys (ofPaths paths).entries ↔ Starts name paths := by
  rw [Entries.keys, ← not_iff_not, ← Entries.get?_eq_none_iff, get?_ofPaths]
  simp

theorem mem_entries_ofPaths {e : String × PopulateNode} (h : e ∈ (ofPaths paths).entries) :
    e.2 = nodeOf e.1 paths := by
  have hget := (sorted_ofPaths paths).get?_of_mem h
  rw [get?_ofPaths] at hget
  split at hget
  · exact (Option.some.inj hget).symm
  · exact absurd hget (by simp)

theorem treeOf_ofPaths (paths : List String) : TreeOf paths (ofPaths paths) := by
  induction paths using induction_remainders with
  | step paths ih =>
    refine .intro paths _ (fun name => ofPaths (remainders name paths)) wildcard_ofPaths
      (sorted_ofPaths paths) (fun name => mem_keys_ofPaths) (fun e he halone => ?_)
      (fun e he hlonger => ?_) ih
    · rw [mem_entries_ofPaths he, nodeOf_of_endsAll halone]
    · rw [mem_entries_ofPaths he, nodeOf_of_not_endsAll hlonger]

/-! ## Paths as a set -/

/-- The lists have the same paths. -/
def Same (paths others : List String) : Prop := ∀ path, path ∈ paths ↔ path ∈ others

theorem Same.endsAll (h : Same paths others) : EndsAll name paths ↔ EndsAll name others := by
  simp only [EndsAll, h _]

theorem Same.starts (h : Same paths others) : Starts name paths ↔ Starts name others := by
  simp only [Starts, h _]

theorem Same.remainders (h : Same paths others) (name : String) :
    Same (remainders name paths) (remainders name others) := by
  intro rest
  simp only [mem_remainders, h _]

theorem TreeOf.unique {spec spec' : PopulateSpec} (h : TreeOf paths spec)
    (h' : TreeOf others spec') (hsame : Same paths others) : spec = spec' := by
  induction h generalizing others spec' with
  | intro paths spec below wildcard sorted segments alone longer nested ih =>
    obtain ⟨_, _, below', wildcard', sorted', segments', alone', longer', nested'⟩ := h'
    have hnodes : ∀ name v w, (name, v) ∈ spec.entries → (name, w) ∈ spec'.entries → v = w := by
      intro name v w hv hw
      by_cases hends : EndsAll name paths
      · exact (alone _ hv hends).trans (alone' _ hw (hsame.endsAll.1 hends)).symm
      · have hends' := hsame.endsAll.not.1 hends
        have hbelow := ih name hends (nested' name hends') (hsame.remainders name)
        exact (longer _ hv hends).trans (hbelow ▸ (longer' _ hw hends').symm)
    have hkeys : ∀ name, Entries.get? spec.entries name = none ↔
        Entries.get? spec'.entries name = none := by
      intro name
      have hstarts : Starts name paths ↔ Starts name others := hsame.starts
      rw [Entries.get?_eq_none_iff, Entries.get?_eq_none_iff]
      exact not_congr ((segments name).trans (hstarts.trans (segments' name).symm))
    have hentries : spec.entries = spec'.entries := by
      refine sorted.ext sorted' fun name => ?_
      cases hv : Entries.get? spec.entries name with
      | none => exact ((hkeys name).1 hv).symm
      | some v =>
        obtain ⟨w, hw⟩ : ∃ w, Entries.get? spec'.entries name = some w :=
          Option.ne_none_iff_exists'.1 fun hw => by simp [(hkeys name).2 hw] at hv
        rw [hw, hnodes name v w (Entries.mem_of_get? hv) (Entries.mem_of_get? hw)]
    have hwildcard : spec.wildcard = spec'.wildcard :=
      Bool.eq_iff_iff.2 (wildcard.trans ((hsame wildcardName).trans wildcard'.symm))
    obtain ⟨_, _⟩ := spec
    obtain ⟨_, _⟩ := spec'
    exact congrArg₂ SpecOf.mk hwildcard hentries

theorem ofPaths_eq_of_same (h : Same paths others) : ofPaths paths = ofPaths others :=
  (treeOf_ofPaths paths).unique (treeOf_ofPaths others) h

/-! ## Joined trees -/

open PopulateNode in
theorem get?_mergeEntries {later : Entries PopulateNode} (hlater : Entries.Sorted later)
    (earlier : Entries PopulateNode) (name : String) :
    Entries.get? (mergeEntries earlier later) name =
      match Entries.get? later name with
      | none => Entries.get? earlier name
      | some node => some ((Entries.get? earlier name).elim node fun old => old.merge node) := by
  induction later generalizing earlier with
  | nil => rfl
  | cons e later ih =>
    obtain ⟨key, node⟩ := e
    obtain ⟨hfirst, hrest⟩ := List.pairwise_cons.1 hlater
    rw [mergeEntries, ih hrest]
    by_cases hkey : key = name
    · subst hkey
      have hnone : Entries.get? later key = none := Entries.get?_eq_none_of_lt fun e he => hfirst e he
      simp only [hnone, Entries.get?_insert_self, Entries.get?, if_true]
      cases Entries.get? earlier key <;> rfl
    · simp only [Entries.get?_insert_ne _ _ hkey, Entries.get?, hkey, if_false]

theorem sorted_mergeEntries {earlier : Entries PopulateNode} (h : Entries.Sorted earlier)
    (later : Entries PopulateNode) : Entries.Sorted (PopulateNode.mergeEntries earlier later) := by
  induction later generalizing earlier with
  | nil => exact h
  | cons e later ih =>
    rw [PopulateNode.mergeEntries]
    exact ih (h.insert _ _)

theorem merge_eq (earlier later : PopulateSpec) :
    earlier.merge later = ⟨earlier.wildcard || later.wildcard,
      PopulateNode.mergeEntries earlier.entries later.entries⟩ := by
  cases later
  rw [merge, PopulateNode.mergeSpec]

theorem all_merge (node : PopulateNode) : PopulateNode.all.merge node = node := by
  rcases node with _ | ⟨_, _, _⟩ | _ <;> simp [PopulateNode.merge]

theorem merge_nested (earlier later : PopulateSpec) :
    (PopulateNode.nested earlier).merge (.nested later) = .nested (earlier.merge later) := by
  simp [PopulateNode.nested, PopulateNode.merge, merge]

theorem starts_append : Starts name (others ++ paths) ↔ Starts name others ∨ Starts name paths := by
  simp [Starts, or_and_right, exists_or]

theorem merge_nodeOf (below : ¬ EndsAll name paths → ∀ earlier,
      (ofPaths earlier).merge (ofPaths (remainders name paths)) =
        ofPaths (earlier ++ remainders name paths)) :
    (nodeOf name others).merge (nodeOf name paths) = nodeOf name (others ++ paths) := by
  have happend : remainders name (others ++ paths) =
      remainders name others ++ remainders name paths := remainders_append
  by_cases hlater : EndsAll name paths
  · rw [nodeOf_of_endsAll hlater, nodeOf, nodeOf, happend, remainders_eq_nil_iff.2 hlater,
      List.append_nil, PopulateNode.merge]
  · have hboth : ¬ EndsAll name (others ++ paths) := by
      rw [← remainders_eq_nil_iff, happend, List.append_eq_nil_iff, remainders_eq_nil_iff,
        remainders_eq_nil_iff]
      exact fun h => hlater h.2
    rw [nodeOf_of_not_endsAll hlater, nodeOf_of_not_endsAll hboth, happend]
    by_cases hearlier : EndsAll name others
    · rw [nodeOf_of_endsAll hearlier, remainders_eq_nil_iff.2 hearlier, all_merge, List.nil_append]
    · rw [nodeOf_of_not_endsAll hearlier, merge_nested, below hlater]

/-- Joining two trees gives the tree of all their paths. -/
theorem merge_ofPaths (paths : List String) :
    ∀ others, (ofPaths others).merge (ofPaths paths) = ofPaths (others ++ paths) := by
  induction paths using induction_remainders with
  | step paths ih =>
    intro others
    have hentries : PopulateNode.mergeEntries (ofPaths others).entries (ofPaths paths).entries =
        (ofPaths (others ++ paths)).entries := by
      refine (sorted_mergeEntries (sorted_ofPaths others) _).ext (sorted_ofPaths _) fun name => ?_
      simp only [get?_mergeEntries (sorted_ofPaths paths), get?_ofPaths, starts_append]
      by_cases hlater : Starts name paths
      · by_cases hearlier : Starts name others
        · simp [hlater, hearlier, merge_nodeOf (ih name)]
        · simp [hlater, hearlier, ← merge_nodeOf (ih name), nodeOf_eq_all hearlier, all_merge]
      · by_cases hearlier : Starts name others
        · simp [hlater, hearlier, ← merge_nodeOf (ih name), nodeOf_eq_all hlater, PopulateNode.merge]
        · simp [hlater, hearlier]
    have hwildcard : ((ofPaths others).wildcard || (ofPaths paths).wildcard) =
        (ofPaths (others ++ paths)).wildcard := by
      rw [Bool.eq_iff_iff, Bool.or_eq_true, wildcard_ofPaths, wildcard_ofPaths, wildcard_ofPaths,
        List.mem_append]
    rw [merge_eq, hentries, hwildcard]

/-! ## Texts -/

theorem ofItems_texts (items : List String) :
    ofItems (items.map .str) = .ok (ofPaths (items.flatMap Text.listPieces)) := by
  have hfold : ∀ paths, items.foldl (fun spec text => spec.merge (ofText text)) (ofPaths paths) =
      ofPaths (paths ++ items.flatMap Text.listPieces) := by
    induction items with
    | nil => simp
    | cons item items ih =>
      intro paths
      have hjoined : (ofPaths paths).merge (ofText item) =
          ofPaths (paths ++ Text.listPieces item) := merge_ofPaths _ _
      rw [List.foldl_cons, hjoined, ih, List.append_assoc, List.flatMap_cons]
  rw [ofItems, List.foldlM_map]
  exact (List.foldlM_pure ..).trans (congrArg Except.ok (hfold []))

end

/-- A list of texts and the text that joins them by commas are read as the tree of all their pieces.
The order of the pieces and their repetitions change nothing, and that tree is the only one that
follows the pieces segment by segment. -/
theorem path_lists_agree (items : List String) :
    let pieces := items.flatMap Text.listPieces
    ofJson (.arr (items.map .str)) = .ok (ofPaths pieces) ∧
      ofJson (.str (",".intercalate items)) = .ok (ofPaths pieces) ∧
      (∀ others, Same pieces others → ofPaths others = ofPaths pieces) ∧
      ∀ spec, TreeOf pieces spec ↔ spec = ofPaths pieces := by
  intro pieces
  refine ⟨?_, ?_, fun others h => (ofPaths_eq_of_same h).symm, fun spec => ⟨fun h => ?_, ?_⟩⟩
  · rw [ofJson, ofItems_texts]
  · rw [ofJson, ofText, Text.listPieces_intercalate]
    rfl
  · exact h.unique (treeOf_ofPaths pieces) fun _ => Iff.rfl
  · rintro rfl
    exact treeOf_ofPaths pieces

theorem path_lists_agree_author :
    let tree : PopulateSpec :=
      ⟨true, [("author", .nested ⟨false, [("avatar", .all)]⟩), ("tags", .all)]⟩
    Same ["tags", "author.avatar", "*", "author"] ["author", "*", "author", "author.avatar", "tags"] ∧
      ofJson (.arr [.str "tags, author.avatar", .str "*,author"]) = .ok tree ∧
      ofJson (.str "tags, author.avatar,*,author") = .ok tree ∧
      ofPaths ["author", "*", "author", "author.avatar", "tags"] = tree ∧
      TreeOf ["tags", "author.avatar", "*", "author"] tree := by
  intro tree
  have hsame : Same ["tags", "author.avatar", "*", "author"]
      ["author", "*", "author", "author.avatar", "tags"] := by
    intro path
    simp only [List.mem_cons, List.not_mem_nil, or_false]
    grind
  obtain ⟨hlist, htext, hset, htree⟩ := path_lists_agree ["tags, author.avatar", "*,author"]
  exact ⟨hsame, hlist, htext, hset _ hsame, (htree tree).2 rfl⟩

end PopulateSpec
end ContentEngine
