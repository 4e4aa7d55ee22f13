/-!
# Cutting text

Splitting at a separator, trimming blanks, and the tests for a part of a text. All of them work on
the characters of the text. `isBlank` is the Unicode property `White_Space`.
-/

namespace ContentEngine.Text

def isBlank (c : Char) : Bool :=
  let n := c.toNat
  (9 ≤ n && n ≤ 13) || n == 0x20 || n == 0x85 || n == 0xa0 || n == 0x1680 ||
    (0x2000 ≤ n && n ≤ 0x200a) || n == 0x2028 || n == 0x2029 || n == 0x202f || n == 0x205f ||
    n == 0x3000

def trimList (l : List Char) : List Char :=
  ((l.dropWhile isBlank).reverse.dropWhile isBlank).reverse

def trim (s : String) : String := String.ofList (trimList s.toList)

/-- The pieces between the separators: one more than there are separators. -/
def splitList (sep : Char) : List Char → List (List Char)
  | [] => [[]]
  | c :: l =>
    if c = sep then [] :: splitList sep l
    else
      match splitList sep l with
      | [] => [[c]]
      | p :: ps => (c :: p) :: ps

def split (sep : Char) (s : String) : List String := (splitList sep s.toList).map String.ofList

/-- The parts before and behind the first separator. -/
def splitOnceList (sep : Char) : List Char → Option (List Char × List Char)
  | [] => none
  | c :: l =>
    if c = sep then some ([], l) else (splitOnceList sep l).map fun p => (c :: p.1, p.2)

def splitOnce (sep : Char) (s : String) : Option (String × String) :=
  (splitOnceList sep s.toList).map fun p => (String.ofList p.1, String.ofList p.2)

/-- The pieces of a comma-separated list, trimmed, without the empty ones. -/
def listPieces (s : String) : List String :=
  ((split ',' s).map trim).filter (· ≠ "")

def startsWith (hay needle : String) : Bool := needle.toList.isPrefixOf hay.toList

def endsWith (hay needle : String) : Bool := needle.toList.isSuffixOf hay.toList

def infixOf (needle : List Char) : List Char → Bool
  | [] => needle.isEmpty
  | c :: l => needle.isPrefixOf (c :: l) || infixOf needle l

def contains (hay needle : String) : Bool := infixOf needle.toList hay.toList

theorem splitList_ne_nil (sep : Char) (l : List Char) : splitList sep l ≠ [] := by
  cases l with
  | nil => simp [splitList]
  | cons c l =>
    rw [splitList]
    split
    · simp
    · split <;> simp

theorem infixOf_iff {needle hay : List Char} : infixOf needle hay = true ↔ needle <:+: hay := by
  induction hay with
  | nil => simp [infixOf]
  | cons c l ih => simp [infixOf, ih, List.infix_cons_iff]

end ContentEngine.Text
