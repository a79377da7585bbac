import OpsKnowledge.Lib.Literals
import OpsKnowledge.Lib.Scan

/-!
# Python's json decoder

What `json.loads` makes of a text. The decoder accepts `NaN` and the infinities, takes the
last of equal member names, and gives up on a text nested deeper than the interpreter lets it
go. A lone surrogate, which no `Char` is, becomes the replacement character.
-/

namespace OpsKnowledge.Lib

inductive JsonValue where
  | null
  | bool (b : Bool)
  | int (n : Int)
  | float (x : Double)
  | str (s : String)
  | arr (xs : List JsonValue)
  | obj (members : List (String × JsonValue))

/-! ## Representations -/

section Representations

variable (u : Unicode) (reprFloat : Double → String)

mutual

/-- `repr(v)` -/
def JsonValue.repr : JsonValue → String
  | .null => "None"
  | .bool b => if b then "True" else "False"
  | .int n => toString n
  | .float x => reprFloat x
  | .str s => reprString u s
  | .arr xs => "[" ++ ", ".intercalate (JsonValue.reprs xs) ++ "]"
  | .obj members => "\x7b" ++ ", ".intercalate (JsonValue.reprMembers members) ++ "\x7d"

def JsonValue.reprs : List JsonValue → List String
  | [] => []
  | v :: vs => v.repr :: JsonValue.reprs vs

def JsonValue.reprMembers : List (String × JsonValue) → List String
  | [] => []
  | (name, v) :: members => (reprString u name ++ ": " ++ v.repr) :: JsonValue.reprMembers members

end

/-- `str(v)` -/
def JsonValue.text : JsonValue → String
  | .str s => s
  | v => v.repr u reprFloat

end Representations

/-! ## Strings -/

def hexValue (c : Char) : Option Nat :=
  if c.isDigit then some (c.toNat - 48)
  else if 97 ≤ c.toNat ∧ c.toNat ≤ 102 then some (c.toNat - 87)
  else if 65 ≤ c.toNat ∧ c.toNat ≤ 70 then some (c.toNat - 55)
  else none

/-- What stands for itself, or for a control character, after a backslash. -/
def escapedUnit (c : Char) : Option Nat :=
  if c = quotationMark ∨ c = backslash ∨ c = '/' then some c.toNat
  else if c = 'b' then some 8
  else if c = 'f' then some 12
  else if c = 'n' then some 10
  else if c = 'r' then some 13
  else if c = 't' then some 9
  else none

def consUnit (n : Nat) (found : Option (List Nat × List Char)) : Option (List Nat × List Char) :=
  found.map fun (ns, rest) => (n :: ns, rest)

/-- Where a string is read: among its characters, after a backslash, or before so many digits of a code. -/
inductive StringMode where
  | plain
  | escape
  | hex (left value : Nat)

/-- The code units up to the closing mark. -/
def scanUnits : StringMode → Pattern Char (List Nat)
  | _, [] => none
  | .plain, c :: s =>
    if c = quotationMark then some ([], s)
    else if c = backslash then scanUnits .escape s
    else if c.toNat < 32 then none
    else consUnit c.toNat (scanUnits .plain s)
  | .escape, c :: s =>
    if c = 'u' then scanUnits (.hex 4 0) s
    else (escapedUnit c).bind fun n => consUnit n (scanUnits .plain s)
  | .hex left value, c :: s =>
    (hexValue c).bind fun d =>
      if left ≤ 1 then consUnit (16 * value + d) (scanUnits .plain s)
      else scanUnits (.hex (left - 1) (16 * value + d)) s

/-- Surrogates joined in pairs. -/
def ofUnits : List Nat → List Char
  | [] => []
  | [n] => [if n.isValidChar then Char.ofNat n else Char.ofNat 0xFFFD]
  | h :: l :: ns =>
    if 0xD800 ≤ h ∧ h < 0xDC00 ∧ 0xDC00 ≤ l ∧ l < 0xE000 then
      Char.ofNat (0x10000 + 0x400 * (h - 0xD800) + (l - 0xDC00)) :: ofUnits ns
    else (if h.isValidChar then Char.ofNat h else Char.ofNat 0xFFFD) :: ofUnits (l :: ns)

def scanString : Pattern Char String := fun s => do
  let s ← expect [quotationMark] s
  let (ns, s) ← scanUnits .plain s
  return (String.ofList (ofUnits ns), s)

/-! ## Numbers and names -/

def digitValues (s : List Char) : List Nat := s.map fun c => c.toNat - 48

/-- The digits after a point, if there are any. -/
def scanFraction : List Char → List Char × List Char
  | '.' :: s => if s.takeWhile Char.isDigit = [] then ([], '.' :: s) else s.span Char.isDigit
  | s => ([], s)

/-- The exponent after its mark, if there is one. -/
def scanExponent : List Char → Option Int × List Char
  | [] => (none, [])
  | c :: s =>
    let (negative, rest) := splitSign s
    let ds := rest.takeWhile Char.isDigit
    if !isExponentMark c || ds = [] then (none, c :: s)
    else
      let n : Int := ofDigits (digitValues ds)
      (some (if negative then -n else n), rest.dropWhile Char.isDigit)

def splitMinus : List Char → Bool × List Char
  | '-' :: s => (true, s)
  | s => (false, s)

/-- The digits before a point: a zero stands alone. -/
def scanWhole (s : List Char) : List Char := if s.head? = some '0' then ['0'] else s.takeWhile Char.isDigit

def scanUnsigned (negative : Bool) : Pattern Char JsonValue := fun s =>
  let whole := scanWhole s
  let (fraction, rest) := scanFraction (s.drop whole.length)
  let (exponent, rest) := scanExponent rest
  if whole = [] then none
  else if fraction = [] ∧ exponent = none then
    let n : Int := ofDigits (digitValues whole)
    if maxStrDigits < whole.length then none else some (.int (if negative then -n else n), rest)
  else
    let q := ofDecimal (digitValues whole) (digitValues fraction) (exponent.getD 0)
    some (.float (.ofRat (if negative then -q else q)), rest)

def scanNumber : Pattern Char JsonValue := fun s => scanUnsigned (splitMinus s).1 (splitMinus s).2

def jsonNames : List (String × JsonValue) :=
  [("null", .null), ("true", .bool true), ("false", .bool false), ("NaN", .float .nan),
    ("Infinity", .float (.infinite false)), ("-Infinity", .float (.infinite true))]

def scanName : Pattern Char JsonValue := fun s =>
  jsonNames.findSome? fun (name, v) => (expect name.toList s).map fun rest => (v, rest)

/-! ## Containers -/

def skipJsonSpace (s : List Char) : List Char :=
  s.dropWhile fun c => c = ' ' || c = '\t' || c = '\n' || c = '\r'

/-- Items with commas between them, and the closing mark; each round of the loop reads a character or more. -/
def scanItems {α : Type} (item : Pattern Char α) (close : Char) : Nat → Pattern Char (List α)
  | 0, _ => none
  | fuel + 1, s => do
    let (x, s) ← item s
    match skipJsonSpace s with
    | [] => none
    | c :: s =>
      if c = close then some ([x], s)
      else if c = ',' then
        let (xs, s) ← scanItems item close fuel (skipJsonSpace s)
        return (x :: xs, s)
      else none

def scanBody {α : Type} (item : Pattern Char α) (close : Char) : Pattern Char (List α) := fun s =>
  let s := skipJsonSpace s
  if s.head? = some close then some ([], s.drop 1) else scanItems item close (s.length + 1) s

def scanMember (value : Pattern Char JsonValue) : Pattern Char (String × JsonValue) := fun s => do
  let (name, s) ← scanString s
  let s ← expect [':'] (skipJsonSpace s)
  let (v, s) ← value (skipJsonSpace s)
  return ((name, v), s)

/-- A value nested no deeper than `depth`. -/
def scanValue : Nat → Pattern Char JsonValue
  | depth, s =>
    match s, depth with
    | '{' :: s, depth + 1 => (scanBody (scanMember (scanValue depth)) '}' s).map fun (ms, s) => (.obj ms, s)
    | '[' :: s, depth + 1 => (scanBody (scanValue depth) ']' s).map fun (xs, s) => (.arr xs, s)
    | s, _ =>
      match scanString s with
      | some (x, s) => some (.str x, s)
      | none =>
        match scanName s with
        | some found => some found
        | none => scanNumber s

/-- `json.loads`; `none` where it raises. -/
def loads (depth : Nat) (s : String) : Option JsonValue := do
  let (v, rest) ← scanValue depth (skipJsonSpace s.toList)
  if skipJsonSpace rest = [] then some v else none

/-! ## The items of a container -/

section Items

variable {α : Type} {s r : List Char} {item : Pattern Char α} {close : Char}

/-- One round of the loop, the reading of an item apart. -/
theorem scanItems_succ {fuel : Nat} {x : α} (h : item s = some (x, r)) :
    scanItems item close (fuel + 1) s = match skipJsonSpace r with
      | [] => none
      | c :: t =>
        if c = close then some ([x], t)
        else if c = ',' then (scanItems item close fuel (skipJsonSpace t)).map fun (xs, t) => (x :: xs, t)
        else none := by
  rw [scanItems, h]
  dsimp only [Option.bind_eq_bind, Option.bind_some]
  cases skipJsonSpace r with
  | nil => rfl
  | cons c t =>
      dsimp only
      split
      · rfl
      · split
        · cases scanItems item close fuel (skipJsonSpace t) with
          | none => rfl
          | some found => rfl
        · rfl

theorem scanItems_succ_of_none {fuel : Nat} (h : item s = none) :
    scanItems item close (fuel + 1) s = none := by
  rw [scanItems, h]
  rfl

/-- What a run of the loop has read: an item and the closing mark, or an item, a comma and more. -/
theorem scanItems_eq_some {fuel : Nat} {xs : List α} (h : scanItems item close fuel s = some (xs, r)) :
    ∃ fuel' x s', fuel = fuel' + 1 ∧ item s = some (x, s') ∧
      (skipJsonSpace s' = close :: r ∧ xs = [x] ∨
        ∃ t xs', skipJsonSpace s' = ',' :: t ∧
          scanItems item close fuel' (skipJsonSpace t) = some (xs', r) ∧ xs = x :: xs') := by
  cases fuel with
  | zero => cases h
  | succ fuel =>
      cases hfirst : item s with
      | none => cases (scanItems_succ_of_none hfirst).symm.trans h
      | some found =>
          refine ⟨fuel, found.1, found.2, rfl, rfl, ?_⟩
          rw [scanItems_succ hfirst] at h
          cases hspace : skipJsonSpace found.2 with
          | nil =>
              rw [hspace] at h
              cases h
          | cons c t =>
              rw [hspace] at h
              dsimp only at h
              split at h
              · next hc =>
                  cases h
                  exact .inl ⟨by rw [hc], rfl⟩
              · split at h
                · next hc =>
                    obtain ⟨⟨xs', r'⟩, hrest, heq⟩ := Option.map_eq_some_iff.1 h
                    cases heq
                    exact .inr ⟨t, xs', by rw [hc], hrest, rfl⟩
                · cases h

end Items

end OpsKnowledge.Lib
