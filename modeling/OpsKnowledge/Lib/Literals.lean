import OpsKnowledge.Lib.Double
import OpsKnowledge.Lib.Text

/-!
# Python's literals

What `int` and `float` read from a string and `repr` writes for one. For characters that are not ASCII
both ask the Unicode database.
-/

namespace OpsKnowledge.Lib

/-- What is asked about characters that are not ASCII. -/
structure Unicode where
  decimal : Char → Option (Fin 10)
  printable : Char → Bool

namespace Unicode

variable (u : Unicode)

def digit (c : Char) : Option Nat :=
  if c.isDigit then some (c.toNat - 48)
  else if c.toNat < 128 then none
  else (u.decimal c).map Fin.val

def isPrintable (c : Char) : Bool :=
  if c.toNat < 128 then 32 ≤ c.toNat && c.toNat ≠ 127 else u.printable c

end Unicode

/-! ## Numerals -/

/-- The space that may stand around a numeral. -/
def isNumeralSpace (c : Char) : Bool := isSpace c && !(28 ≤ c.toNat && c.toNat ≤ 31)

/-- Digits with single underscores between them. -/
def digits (u : Unicode) : List Char → Option (List Nat)
  | [] => none
  | [c] => (u.digit c).map fun d => [d]
  | c :: '_' :: rest => do
    let d ← u.digit c
    let ds ← digits u rest
    return d :: ds
  | c :: c' :: rest => do
    let d ← u.digit c
    let ds ← digits u (c' :: rest)
    return d :: ds

def ofDigits (ds : List Nat) : Nat := ds.foldl (fun n d => 10 * n + d) 0

/-- A sign, and what follows it. -/
def splitSign : List Char → Bool × List Char
  | '-' :: rest => (true, rest)
  | '+' :: rest => (false, rest)
  | s => (false, s)

/-- The most digits of a decimal numeral. -/
def maxStrDigits : Nat := 4300

/-- `int(s)`; `none` for a `ValueError`. -/
def intOfString (u : Unicode) (s : String) : Option Int :=
  let (negative, rest) := splitSign ((s.toList.dropWhile isNumeralSpace).rdropWhile isNumeralSpace)
  (digits u rest).bind fun ds =>
    if maxStrDigits < ds.length then none
    else some (if negative then -(ofDigits ds : Int) else ofDigits ds)

/-- The number with these digits before and after the point. -/
def ofDecimal (whole fraction : List Nat) (exponent : Int) : ℚ :=
  ofDigits (whole ++ fraction) * 10 ^ (exponent - fraction.length)

/-- Digits that may be missing. -/
def digitsOrNone (u : Unicode) (s : List Char) : Option (List Nat) := if s = [] then some [] else digits u s

def isExponentMark (c : Char) : Bool := c = 'e' || c = 'E'

/-- An exponent with its mark, or nothing. -/
def exponentOfChars (u : Unicode) : List Char → Option Int
  | [] => some 0
  | _ :: s =>
    let (negative, rest) := splitSign s
    (digits u rest).map fun ds => if negative then -(ofDigits ds : Int) else ofDigits ds

/-- A decimal without its sign. -/
def decimalOfChars (u : Unicode) (s : List Char) : Option ℚ := do
  let mantissa := s.takeWhile fun c => !isExponentMark c
  let whole ← digitsOrNone u (mantissa.takeWhile (· ≠ '.'))
  let fraction ← digitsOrNone u ((mantissa.dropWhile (· ≠ '.')).drop 1)
  let exponent ← exponentOfChars u (s.dropWhile fun c => !isExponentMark c)
  if whole ++ fraction = [] then none else some (ofDecimal whole fraction exponent)

/-- `float(s)`; `none` for a `ValueError`. -/
def floatOfString (u : Unicode) (s : String) : Option Double :=
  let (negative, rest) := splitSign ((s.toList.dropWhile isNumeralSpace).rdropWhile isNumeralSpace)
  let name := String.ofList (rest.map Char.toLower)
  if name = "inf" ∨ name = "infinity" then some (.infinite negative)
  else if name = "nan" then some .nan
  else (decimalOfChars u rest).map fun q => .ofRat (if negative then -q else q)

/-! ## Representations -/

def apostrophe : Char := Char.ofNat 39

def quotationMark : Char := Char.ofNat 34

def backslash : Char := Char.ofNat 92

/-- `n` in `width` hexadecimal digits. -/
def hexDigits (width n : Nat) : List Char := ((Nat.toDigits 16 n).reverse.takeD width '0').reverse

def escapeChar (u : Unicode) (quote c : Char) : List Char :=
  if c = quote ∨ c = backslash then [backslash, c]
  else if c = '\t' then [backslash, 't']
  else if c = '\n' then [backslash, 'n']
  else if c = '\r' then [backslash, 'r']
  else if u.isPrintable c then [c]
  else if c.toNat < 256 then backslash :: 'x' :: hexDigits 2 c.toNat
  else if c.toNat < 65536 then backslash :: 'u' :: hexDigits 4 c.toNat
  else backslash :: 'U' :: hexDigits 8 c.toNat

/-- The mark around a string: an apostrophe, unless the string has one and no quotation mark. -/
def quoteFor (s : List Char) : Char :=
  if apostrophe ∈ s ∧ quotationMark ∉ s then quotationMark else apostrophe

/-- `repr(s)` -/
def reprString (u : Unicode) (s : String) : String :=
  let quote := quoteFor s.toList
  String.ofList (quote :: (s.toList.flatMap (escapeChar u quote) ++ [quote]))

end OpsKnowledge.Lib
