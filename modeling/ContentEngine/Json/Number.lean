import ContentEngine.Double.Shortest
import ContentEngine.Json.Basic
import ContentEngine.Text.Digit

/-!
# Numbers in JSON text

Reading: the digits of a number are gathered into a significand as long as it fits 64 bits. Further
digits of the whole part count as powers of ten, further digits of the fraction are dropped. The
significand is rounded to a double and then scaled by a power of ten, with one rounding for each
step. A number beyond the doubles is refused.

Writing: the shortest digits that read back, positional for decimal exponents from -5 to 15 and
with an exponent otherwise.
-/

namespace ContentEngine.Json
open Text (isDigit digitValue)

/-- A number as it is written. -/
structure NumberText where
  negative : Bool
  whole : List Char
  fraction : Option (List Char)
  exponent : Option (Bool × List Char)

/-- The digits at the start of a text, at least one. -/
def digits? (s : List Char) : Option (List Char × List Char) :=
  match s.takeWhile isDigit with
  | [] => none
  | ds => some (ds, s.dropWhile isDigit)

def fraction? : List Char → Option (Option (List Char) × List Char)
  | '.' :: s => (digits? s).map fun (ds, r) => (some ds, r)
  | s => some (none, s)

/-- The exponent: whether it is negative, and its digits. -/
def exponent? (s : List Char) : Option (Option (Bool × List Char) × List Char) :=
  match s with
  | c :: s =>
    if c = 'e' ∨ c = 'E' then
      let (negative, s) :=
        match s with
        | '+' :: s => (false, s)
        | '-' :: s => (true, s)
        | s => (false, s)
      (digits? s).map fun (ds, r) => (some (negative, ds), r)
    else some (none, c :: s)
  | [] => some (none, [])

/-- A leading zero stands alone. -/
def numberText? (s : List Char) : Option (NumberText × List Char) := do
  let (negative, s) :=
    match s with
    | '-' :: s => (true, s)
    | s => (false, s)
  let (whole, s) ← digits? s
  if whole.head? = some '0' ∧ whole.length ≠ 1 then none
  let (fraction, s) ← fraction? s
  let (exponent, s) ← exponent? s
  return (⟨negative, whole, fraction, exponent⟩, s)

/-- Appends digits to a significand while it stays below `2 ^ 64`; also the digits left over. -/
def gather (significand : Nat) : List Char → Nat × List Char
  | [] => (significand, [])
  | c :: s =>
    let next := significand * 10 + digitValue c
    if next < UInt64.size then gather next s else (significand, c :: s)

/-- The value of an exponent, if it stays below `2 ^ 31`. -/
def exponentValue (value : Nat) : List Char → Option Nat
  | [] => some value
  | c :: s =>
    let next := value * 10 + digitValue c
    if next < 1 <<< 31 then exponentValue next s else none

/-- The rounded double of `10 ^ n`. -/
def powerOfTen (n : Nat) : Double := .ofNat (Nat.pow 10 n)

/-- Scales a non-negative double by `10 ^ e`; nothing if the result is too large. -/
def scale (x : Double) (e : Int) : Option Double :=
  if h : e < -308 then
    if x = .zero then some x else scale (x.divNonneg (powerOfTen 308)) (e + 308)
  else if e < 0 then some (x.divNonneg (powerOfTen (-e).toNat))
  else if e ≤ 308 then
    let y := x.mulNonneg (powerOfTen e.toNat)
    if y.isFinite then some y else none
  else if x = .zero then some x
  else none
termination_by (-e).toNat
decreasing_by omega

def signed (negative : Bool) (x : Double) : Double := if negative then x.neg else x

/-- The double of a number with a fraction, an exponent or too many digits. -/
def NumberText.double? (t : NumberText) : Option Double := do
  let (significand, excess) := gather 0 t.whole
  let fraction := t.fraction.getD []
  let (significand, dropped) := gather significand fraction
  let start : Int := excess.length - (fraction.length - dropped.length)
  let magnitude ←
    match t.exponent with
    | none => scale (.ofNat significand) start
    | some (negative, ds) =>
      match exponentValue 0 ds with
      | some e => scale (.ofNat significand) (start + if negative then -(e : Int) else e)
      | none => if significand ≠ 0 ∧ !negative then none else some .zero
  return signed t.negative magnitude

def NumberText.value? (t : NumberText) : Option Json :=
  match t.fraction, t.exponent, gather 0 t.whole with
  | none, none, (n, []) =>
    if !t.negative then some (.int n)
    else if n = 0 then some (.double .negZero)
    else if n ≤ 1 <<< 63 then some (.int (-n))
    else some (.double (Double.ofNat n).neg)
  | _, _, _ => t.double?.map .double

/-! ## Writing -/

def exponentText (e : Int) : String := if e < 0 then toString e else "+" ++ toString e

def zeros (n : Nat) : String := String.ofList (List.replicate n '0')

/-- `point` is the place of the decimal point, counted from the start of the digits. -/
def decimalText (ds : String) (point : Int) : String :=
  let n : Int := ds.length
  if n ≤ point ∧ point ≤ 16 then ds ++ zeros (point - n).toNat ++ ".0"
  else if 0 < point ∧ point ≤ 16 then
    String.ofList (ds.toList.take point.toNat) ++ "." ++
      String.ofList (ds.toList.drop point.toNat)
  else if -5 < point ∧ point ≤ 0 then "0." ++ zeros (-point).toNat ++ ds
  else if ds.length = 1 then ds ++ "e" ++ exponentText (point - 1)
  else
    String.ofList (ds.toList.take 1) ++ "." ++ String.ofList (ds.toList.drop 1) ++ "e" ++
      exponentText (point - 1)

/-- JSON has no text for the infinities and the NaNs; they become `null`. -/
def doubleText (x : Double) : String :=
  if !x.isFinite then "null"
  else
    let sign := if x.isNegative then "-" else ""
    if x.magnitude = 0 then sign ++ "0.0"
    else
      let d := x.shortest
      let ds := toString d.digits
      sign ++ decimalText ds (ds.length + d.exponent)

end ContentEngine.Json
