import ContentEngine.Text.Digit

/-!
# TOML text

The parts of a TOML text that need no recursion on values: blanks and line ends, keys, quoted texts,
numbers and points in time. A reader gives what it read and the rest of the text. Numbers with a
fraction and points in time stay as they are written.
-/

namespace ContentEngine

inductive Toml where
  | int (n : Int)
  | float (literal : String)
  | bool (b : Bool)
  | str (s : String)
  | datetime (literal : String)
  | arr (items : List Toml)
  /-- An inline table, by the paths of its keys. -/
  | table (entries : List (List String × Toml))
deriving Repr, Inhabited

namespace Toml
open Text (isDigit digitsValue hexValue?)

def isSpace (c : Char) : Bool := c = ' ' || c = '\t'

def skipSpace (s : List Char) : List Char := s.dropWhile isSpace

/-- What may stand in comments and quoted texts: no control character but the tab. -/
def isPlain (c : Char) : Bool := c = '\t' || (0x20 ≤ c.toNat && c.toNat ≠ 0x7f)

def skipComment : List Char → List Char
  | '#' :: s => s.dropWhile isPlain
  | s => s

def newline? : List Char → Option (List Char)
  | '\n' :: s => some s
  | '\r' :: '\n' :: s => some s
  | _ => none

/-- The end of a line: blanks and a comment may stand before it. -/
def endOfLine? (s : List Char) : Option (List Char) :=
  match skipComment (skipSpace s) with
  | [] => some []
  | s => newline? s

/-- The text behind blanks and line ends. -/
def skipBlankLines : Nat → List Char → List Char
  | 0, s => s
  | fuel + 1, s =>
    match newline? (skipSpace s) with
    | some s => skipBlankLines fuel s
    | none => skipSpace s

/-- The text behind blanks, line ends and comments. -/
def skipLines : Nat → List Char → List Char
  | 0, s => s
  | fuel + 1, s =>
    match skipComment (skipSpace s) with
    | [] => []
    | s =>
      match newline? s with
      | some s => skipLines fuel s
      | none => s

/-! ## Quoted texts -/

def shortEscape? (c : Char) : Option Char :=
  match c with
  | '"' => some '"'
  | '\\' => some '\\'
  | 'b' => some (Char.ofNat 8)
  | 'f' => some (Char.ofNat 12)
  | 'n' => some '\n'
  | 'r' => some '\r'
  | 't' => some '\t'
  | _ => none

/-- The character of a hexadecimal code point of `n` digits. -/
def codePoint? (n : Nat) (s : List Char) : Option (Char × List Char) := do
  let ds ← (s.take n).mapM hexValue?
  let code := ds.foldl (fun v d => v * 16 + d) 0
  if ds.length = n ∧ code.isValidChar then some (Char.ofNat code, s.drop n) else none

/-- The character of an escape, behind its backslash. -/
def escape? : List Char → Option (Char × List Char)
  | 'u' :: s => codePoint? 4 s
  | 'U' :: s => codePoint? 8 s
  | c :: s => (shortEscape? c).map (·, s)
  | [] => none

/-- The characters up to the closing double quote, on one line. -/
def basicBody? : Nat → List Char → Option (List Char × List Char)
  | 0, _ => none
  | _, [] => none
  | fuel + 1, c :: s =>
    if c = '"' then some ([], s)
    else if c = '\\' then do
      let (c, s) ← escape? s
      let (l, r) ← basicBody? fuel s
      return (c :: l, r)
    else if isPlain c then (basicBody? fuel s).map fun (l, r) => (c :: l, r)
    else none

/-- The characters up to the closing apostrophe, on one line and without escapes. -/
def literalBody? : List Char → Option (List Char × List Char)
  | [] => none
  | c :: s =>
    if c = '\x27' then some ([], s)
    else if isPlain c then (literalBody? s).map fun (l, r) => (c :: l, r)
    else none

/-- The end of a text over several lines: three quotes, with up to two more before them. -/
def closing? (quote : Char) (s : List Char) : Option (List Char × List Char) :=
  match (s.takeWhile (· = quote)).length with
  | 3 => some ([], s.drop 3)
  | 4 => some ([quote], s.drop 4)
  | n => if 5 ≤ n then some ([quote, quote], s.drop 5) else none

/-- The characters of a text over several lines. With escapes, a backslash at the end of a line
joins it to the next character that is not blank. -/
def linesBody? (quote : Char) (escapes : Bool) : Nat → List Char → Option (List Char × List Char)
  | 0, _ => none
  | fuel + 1, s =>
    match closing? quote s with
    | some p => some p
    | none =>
      match s with
      | [] => none
      | c :: r =>
        if escapes && c = '\\' then
          match newline? (skipSpace r) with
          | some r => linesBody? quote escapes fuel (skipBlankLines r.length r)
          | none => do
            let (c, r) ← escape? r
            let (l, r) ← linesBody? quote escapes fuel r
            return (c :: l, r)
        else if isPlain c then (linesBody? quote escapes fuel r).map fun (l, r) => (c :: l, r)
        else
          match newline? s with
          | some r => (linesBody? quote escapes fuel r).map fun (l, r) => ('\n' :: l, r)
          | none => none

/-- A quoted text. A line end right behind three opening quotes does not count. -/
def quoted? (s : List Char) : Option (String × List Char) :=
  let fuel := s.length + 1
  let body :=
    match s with
    | '"' :: '"' :: '"' :: r => linesBody? '"' true fuel ((newline? r).getD r)
    | '\x27' :: '\x27' :: '\x27' :: r => linesBody? '\x27' false fuel ((newline? r).getD r)
    | '"' :: r => basicBody? fuel r
    | '\x27' :: r => literalBody? r
    | _ => none
  body.map fun (l, r) => (String.ofList l, r)

/-! ## Keys -/

def isBare (c : Char) : Bool := c.isAlphanum || c = '_' || c = '-'

def keyPart? (s : List Char) : Option (String × List Char) :=
  match s with
  | '"' :: r => (basicBody? (r.length + 1) r).map fun (l, r) => (String.ofList l, r)
  | '\x27' :: r => (literalBody? r).map fun (l, r) => (String.ofList l, r)
  | s =>
    match s.takeWhile isBare with
    | [] => none
    | l => some (String.ofList l, s.dropWhile isBare)

def keyParts? : Nat → List Char → Option (List String × List Char)
  | 0, _ => none
  | fuel + 1, s => do
    let (part, s) ← keyPart? (skipSpace s)
    match skipSpace s with
    | '.' :: s =>
      let (parts, s) ← keyParts? fuel s
      return (part :: parts, s)
    | s => return ([part], s)

/-- How deep values may nest, and how many parts a key may have. -/
def maxDepth : Nat := 79

/-- A key of parts joined by points, with blanks around each of them. -/
def key? (s : List Char) : Option (List String × List Char) := do
  let (parts, r) ← keyParts? (s.length + 1) s
  if parts.length ≤ maxDepth then some (parts, r) else none

/-! ## Numbers -/

/-- A run of digits; an underscore may stand between two of them. -/
def digits? (digit : Char → Bool) : List Char → Option (List Char × List Char)
  | [] => none
  | c :: s =>
    if digit c then
      match s with
      | [] => some ([c], [])
      | d :: r =>
        if d = '_' then (digits? digit r).map fun (l, r) => (c :: l, r)
        else if digit d then (digits? digit (d :: r)).map fun (l, r) => (c :: l, r)
        else some ([c], d :: r)
    else none

/-- The sign before a number, if there is one. -/
def sign? : List Char → Option Char × List Char
  | '+' :: s => (some '+', s)
  | '-' :: s => (some '-', s)
  | s => (none, s)

/-- The digits of a decimal whole number, which does not start with a zero unless it is one. -/
def whole? (s : List Char) : Option (List Char × List Char) :=
  match s with
  | '0' :: r => some (['0'], r)
  | s => digits? isDigit s

def inRange? (n : Int) : Option Toml :=
  if Int64.minValue.toInt ≤ n ∧ n ≤ Int64.maxValue.toInt then some (.int n) else none

def decimal? (s : List Char) : Option (Toml × List Char) := do
  let (sign, s) := sign? s
  let (ds, r) ← whole? s
  let n : Int := digitsValue ds
  return (← inRange? (if sign = some '-' then -n else n), r)

/-- A number in base 16, 8 or 2, behind its first two characters. -/
def based? (base : Nat) (s : List Char) : Option (Toml × List Char) := do
  let (ds, r) ← digits? (fun c => (hexValue? c).any (· < base)) s
  let n := ds.foldl (fun v c => v * base + (hexValue? c).getD 0) 0
  return (← inRange? n, r)

def integer? : List Char → Option (Toml × List Char)
  | '0' :: 'x' :: s => based? 16 s
  | '0' :: 'o' :: s => based? 8 s
  | '0' :: 'b' :: s => based? 2 s
  | s => decimal? s

/-- The text behind a word. -/
def after? (word : String) (s : List Char) : Option (List Char) :=
  if word.toList.isPrefixOf s then some (s.drop word.length) else none

def fraction? : List Char → Option (List Char × List Char)
  | '.' :: s => digits? isDigit s
  | _ => none

/-- An exponent, as it is written and up to its value. -/
def exponent? : List Char → Option (Int × List Char)
  | c :: s => do
    if c = 'e' ∨ c = 'E' then
      let (sign, s) := sign? s
      let (ds, r) ← digits? isDigit s
      let e : Int := digitsValue ds
      return (if sign = some '-' then -e else e, r)
    else none
  | [] => none

/-- Whether `n * 10 ^ e` is rounded to the double-precision infinity, which is so from the middle
between the largest double and the next power of two. A number of other than 309 digits before the
point is decided by their count. -/
def isTooLarge (n : Nat) (e : Int) : Bool :=
  let places : Int := (Nat.toDigits 10 n).length + e
  let limit := 1 <<< 1024 - 1 <<< 970
  if n = 0 ∨ places < 309 then false
  else if 309 < places then true
  else if 0 ≤ e then limit ≤ n * Nat.pow 10 e.toNat
  else limit * Nat.pow 10 (-e).toNat ≤ n

/-- The rest of a text behind a number with a fraction or an exponent, and whether the number is
within the range of doubles. Only positive numbers can leave it. -/
def float? (s : List Char) : Option (Bool × List Char) :=
  let (sign, s) := sign? s
  match after? "inf" s <|> after? "nan" s with
  | some r => some (true, r)
  | none => do
    let (whole, r) ← whole? s
    let (fraction, e, r) ←
      match fraction? r with
      | some (ds, r) =>
        match exponent? r with
        | some (e, r) => some (ds, e, r)
        | none => some (ds, 0, r)
      | none => (exponent? r).map fun (e, r) => ([], e, r)
    let large := isTooLarge (digitsValue (whole ++ fraction)) (e - fraction.length)
    return (sign = some '-' || !large, r)

/-- What was read up to the rest of a text. -/
def literal (s rest : List Char) : String := String.ofList (s.take (s.length - rest.length))

/-! ## Points in time -/

/-- A number of exactly `n` digits within bounds. -/
def field? (n low high : Nat) (s : List Char) : Option (Nat × List Char) :=
  let ds := s.take n
  let v := digitsValue ds
  if ds.length = n ∧ ds.all isDigit ∧ low ≤ v ∧ v ≤ high then some (v, s.drop n) else none

def char? (c : Char) : List Char → Option (List Char)
  | d :: s => if c = d then some s else none
  | [] => none

def daysIn (year month : Nat) : Nat :=
  let leap : Bool := year % 4 = 0 ∧ (year % 100 ≠ 0 ∨ year % 400 = 0)
  if month = 2 then if leap then 29 else 28
  else if month ∈ [4, 6, 9, 11] then 30
  else 31

def dateEnd? (s : List Char) : Option (List Char) := do
  let (year, s) ← field? 4 0 9999 s
  let (month, s) ← field? 2 1 12 (← char? '-' s)
  let (_, s) ← field? 2 1 (daysIn year month) (← char? '-' s)
  return s

def timeEnd? (s : List Char) : Option (List Char) := do
  let (_, s) ← field? 2 0 23 s
  let (_, s) ← field? 2 0 59 (← char? ':' s)
  let (_, s) ← field? 2 0 60 (← char? ':' s)
  match s with
  | '.' :: r =>
    match r.takeWhile isDigit with
    | [] => none
    | _ => return r.dropWhile isDigit
  | s => return s

/-- The rest behind a time zone, which may be left out. -/
def zoneEnd? (s : List Char) : Option (List Char) :=
  match s with
  | c :: r =>
    if c = 'Z' ∨ c = 'z' then some r
    else if c = '+' ∨ c = '-' then do
      let (_, r) ← field? 2 0 23 r
      let (_, r) ← field? 2 0 59 (← char? ':' r)
      return r
    else some s
  | [] => some []

/-- A date, a time, or both with or without a zone. -/
def datetimeEnd? (s : List Char) : Option (List Char) :=
  match dateEnd? s with
  | none => timeEnd? s
  | some (c :: r) =>
    if c = 'T' ∨ c = 't' ∨ c = ' ' then
      match timeEnd? r with
      | some r => zoneEnd? r
      | none => some (c :: r)
    else some (c :: r)
  | some [] => some []

/-- A number or a point in time. -/
def number? (s : List Char) : Option (Toml × List Char) :=
  match datetimeEnd? s with
  | some r => some (.datetime (literal s r), r)
  | none =>
    match float? s with
    | some (inRange, r) => if inRange then some (.float (literal s r), r) else none
    | none => integer? s

end Toml
end ContentEngine
