import WorkerBridge.Text
import Mathlib.Data.Int.Notation

namespace Text

/-- What Unicode says of the characters beyond ASCII: the value of a decimal digit, and whether
`str.isdigit` holds. -/
structure Unicode where
  decimal : Char → Option ℕ
  isDigit : Char → Bool

variable (unicode : Unicode)

/-- Digits and spaces of other scripts as those of ASCII.  Any other character beyond ASCII
becomes one that no numeral has. -/
def toAscii (t : Text) : Text :=
  t.map fun c =>
    if c.toNat < 127 then c
    else if isSpace c then ' '
    else
      match unicode.decimal c with
      | some d => Nat.digitChar d
      | none => '?'

def isAsciiSpace (c : Char) : Bool := c == ' ' || (9 ≤ c.toNat && c.toNat ≤ 13)

def stripAscii (t : Text) : Text := (t.dropWhile isAsciiSpace).rdropWhile isAsciiSpace

/-- The text without its underscores, each of which has to be between two digits. -/
def dropUnderscores : Text → Option Text
  | [] => some []
  | c :: '_' :: d :: rest =>
    if c.isDigit && d.isDigit then (dropUnderscores (d :: rest)).map (c :: ·) else none
  | c :: rest => if c == '_' then none else (dropUnderscores rest).map (c :: ·)

/-- Whether a minus is in front, and what comes after the sign. -/
def splitSign : Text → Bool × Text
  | '-' :: rest => (true, rest)
  | '+' :: rest => (false, rest)
  | rest => (false, rest)

def isDigits (t : Text) : Bool := !t.isEmpty && t.all Char.isDigit

def ofDigits (t : Text) : ℕ := t.foldl (fun n c => 10 * n + (c.toNat - '0'.toNat)) 0

def signed (t : Text) : Option ℤ :=
  let (negative, digits) := splitSign t
  if isDigits digits then some (if negative then -(ofDigits digits : ℤ) else ofDigits digits)
  else none

def exponent : Text → Option ℤ
  | [] => some 0
  | c :: rest => if c == 'e' || c == 'E' then signed rest else none

def decimalFloat (t : Text) : Option Float :=
  let (whole, rest) := t.span Char.isDigit
  let (fraction, rest) :=
    match rest with
    | '.' :: rest => rest.span Char.isDigit
    | rest => ([], rest)
  if isDigits (whole ++ fraction) then
    (exponent rest).map fun e =>
      let shift : ℤ := e - fraction.length
      Float.ofScientific (ofDigits (whole ++ fraction)) (decide (shift < 0)) shift.natAbs
  else none

def inf : Float := 1.0 / 0.0

def nan : Float := 0.0 / 0.0

/-- `float(t)`; `none` is the `ValueError`. -/
def float (t : Text) : Option Float :=
  (dropUnderscores (stripAscii (toAscii unicode t))).bind fun t =>
    let (negative, body) := splitSign t
    let value :=
      if lower body = "nan".toList then some nan
      else if lower body = "inf".toList ∨ lower body = "infinity".toList then some inf
      else decimalFloat body
    value.map fun x => if negative then -x else x

/-- `int(t)`, which takes 4300 digits at most. -/
def int (t : Text) : Option ℤ :=
  let (negative, body) := splitSign (stripAscii (toAscii unicode t))
  (dropUnderscores body).bind fun digits =>
    if isDigits digits && digits.length ≤ 4300 then
      some (if negative then -(ofDigits digits : ℤ) else ofDigits digits)
    else none

theorem float_nil : float unicode [] = none := rfl

end Text
