import ContentEngine.Json.Number
import ContentEngine.Json.Tree

/-!
# Reading JSON text

`tree?` reads the structure of a text, `parse?` its canonical value. `fuel` bounds the recursion:
every step of it consumes a character, so the length of the text is enough.
-/

namespace ContentEngine.Json
open Text (hexValue?)

def isSpace (c : Char) : Bool := c = ' ' || c = '\t' || c = '\n' || c = '\r'

def skipSpace (s : List Char) : List Char := s.dropWhile isSpace

/-! ## Quoted texts -/

/-- A part of a quoted text: a character, or a UTF-16 unit that is written as an escape. -/
inductive StringPart where
  | char (c : Char)
  | unit (n : Nat)

/-- The UTF-16 unit of four hexadecimal digits. -/
def unit? (a b c d : Char) : Option Nat := do
  return (((← hexValue? a) * 16 + (← hexValue? b)) * 16 + (← hexValue? c)) * 16 + (← hexValue? d)

def isHighSurrogate (n : Nat) : Bool := 0xd800 ≤ n && n < 0xdc00

def isLowSurrogate (n : Nat) : Bool := 0xdc00 ≤ n && n < 0xe000

def joinSurrogates (high low : Nat) : Char :=
  Char.ofNat (0x10000 + (high - 0xd800) * 0x400 + (low - 0xdc00))

def shortEscape? (c : Char) : Option Char :=
  match c with
  | '"' => some '"'
  | '\\' => some '\\'
  | '/' => some '/'
  | 'b' => some (Char.ofNat 8)
  | 'f' => some (Char.ofNat 12)
  | 'n' => some '\n'
  | 'r' => some '\r'
  | 't' => some '\t'
  | _ => none

/-- The parts up to the closing quote. -/
def stringParts? : List Char → Option (List StringPart × List Char)
  | [] => none
  | c :: s =>
    if c = '"' then some ([], s)
    else if c = '\\' then
      match s with
      | [] => none
      | e :: s =>
        if e = 'u' then
          match s with
          | h₁ :: h₂ :: h₃ :: h₄ :: s =>
            match unit? h₁ h₂ h₃ h₄ with
            | none => none
            | some n => (stringParts? s).map fun (l, r) => (.unit n :: l, r)
          | _ => none
        else
          match shortEscape? e with
          | none => none
          | some x => (stringParts? s).map fun (l, r) => (.char x :: l, r)
    else if c.toNat < 32 then none
    else (stringParts? s).map fun (l, r) => (.char c :: l, r)

/-- The characters of the parts. A surrogate counts only in a pair; `high` is the first half of a
pair that was just read. -/
def joinParts? (high : Option Nat) : List StringPart → Option (List Char)
  | [] => if high.isNone then some [] else none
  | .char c :: l => if high.isNone then (joinParts? none l).map (c :: ·) else none
  | .unit n :: l =>
    match high with
    | some h => if isLowSurrogate n then (joinParts? none l).map (joinSurrogates h n :: ·) else none
    | none =>
      if isHighSurrogate n then joinParts? (some n) l
      else if isLowSurrogate n then none
      else (joinParts? none l).map (Char.ofNat n :: ·)

/-- A text up to its closing quote; it is missing if a surrogate has no partner. -/
def stringBody? (s : List Char) : Option (Option String × List Char) :=
  (stringParts? s).map fun (l, r) => ((joinParts? none l).map String.ofList, r)

/-! ## Values -/

/-- The text behind a given word. -/
def after? (word : String) (s : List Char) : Option (List Char) :=
  if word.toList.isPrefixOf s then some (s.drop word.length) else none

/-- A leaf that is the given word, behind its first character. -/
def wordLeaf? (word : String) (j : Json) (s : List Char) : Option (JsonTree × List Char) :=
  (after? word s).map fun r => (.leaf (some j), r)

mutual
def value? (fuel : Nat) (s : List Char) : Option (JsonTree × List Char) :=
  match fuel with
  | 0 => none
  | fuel + 1 =>
    match skipSpace s with
    | [] => none
    | c :: s =>
      if c = 'n' then wordLeaf? "ull" .null s
      else if c = 't' then wordLeaf? "rue" (.bool true) s
      else if c = 'f' then wordLeaf? "alse" (.bool false) s
      else if c = '"' then (stringBody? s).map fun (text, r) => (.leaf (text.map .str), r)
      else if c = '[' then
        match skipSpace s with
        | ']' :: r => some (.arr [], r)
        | s => (items? fuel s).map fun (ts, r) => (.arr ts, r)
      else if c = '\x7b' then
        match skipSpace s with
        | '\x7d' :: r => some (.obj [], r)
        | s => (members? fuel s).map fun (ms, r) => (.obj ms, r)
      else (numberText? (c :: s)).map fun (t, r) => (.leaf t.value?, r)

/-- The items of a list up to its closing bracket, at least one. -/
def items? (fuel : Nat) (s : List Char) : Option (List JsonTree × List Char) :=
  match fuel with
  | 0 => none
  | fuel + 1 =>
    match value? fuel s with
    | none => none
    | some (t, s) =>
      match skipSpace s with
      | ',' :: s => (items? fuel s).map fun (ts, r) => (t :: ts, r)
      | ']' :: s => some ([t], s)
      | _ => none

/-- The members of an object up to its closing brace, at least one. -/
def members? (fuel : Nat) (s : List Char) :
    Option (List (Option String × JsonTree) × List Char) :=
  match fuel with
  | 0 => none
  | fuel + 1 =>
    match skipSpace s with
    | '"' :: s =>
      match stringBody? s with
      | none => none
      | some (k, s) =>
        match skipSpace s with
        | ':' :: s =>
          match value? fuel s with
          | none => none
          | some (t, s) =>
            match skipSpace s with
            | ',' :: s => (members? fuel s).map fun (ms, r) => ((k, t) :: ms, r)
            | '\x7d' :: s => some ([(k, t)], s)
            | _ => none
        | _ => none
    | _ => none
end

def tree? (text : String) : Option JsonTree :=
  let s := text.toList
  match value? (2 * s.length + 2) s with
  | some (t, r) => if skipSpace r = [] then some t else none
  | none => none

def parse? (text : String) : Option Json :=
  ((tree? text).bind (·.value? JsonTree.maxDepth)).map canonical

end ContentEngine.Json
