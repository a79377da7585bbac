import Mathlib.Data.List.DropRight
import Mathlib.Tactic.Common

/-!
# Python's string methods

The methods of `str` that the modelled code uses, on the characters of a string.
-/

namespace OpsKnowledge.Lib

/-- The characters for which `str.isspace` holds. -/
def isSpace (c : Char) : Bool :=
  let n := c.toNat
  9 ≤ n && n ≤ 13 || 28 ≤ n && n ≤ 32 || n = 0x85 || n = 0xA0 || n = 0x1680 ||
    0x2000 ≤ n && n ≤ 0x200A || n = 0x2028 || n = 0x2029 || n = 0x202F || n = 0x205F || n = 0x3000

/-- `s.isascii()` -/
def isAscii (s : String) : Bool := s.toList.all fun c => c.toNat < 128

/-- `s.startswith(p)` -/
def startsWith (p s : String) : Bool := p.toList.isPrefixOf s.toList

/-- `s.removeprefix(p)` -/
def removePrefix (p s : String) : String :=
  if startsWith p s then String.ofList (s.toList.drop p.toList.length) else s

/-- `s.strip()` -/
def strip (s : String) : String :=
  String.ofList ((s.toList.dropWhile isSpace).rdropWhile isSpace)

/-- `s[:n]` -/
def clip (n : Nat) (s : String) : String := String.ofList (s.toList.take n)

/-- `s.lower()`; `special s i` is the case mapping of a character of `s` that is not ASCII. -/
def lower (special : String → Nat → List Char) (s : String) : String :=
  String.ofList (s.toList.mapIdx fun i c => if c.toNat < 128 then [c.toLower] else special s i).flatten

/-- `os.path.splitext(p)[1]`: from the last dot of the base name, leading dots apart. -/
def extension (p : String) : String :=
  let name := (p.toList.rtakeWhile (· ≠ '/')).dropWhile (· = '.')
  if '.' ∈ name then String.ofList ('.' :: name.rtakeWhile (· ≠ '.')) else ""

theorem lower_of_isAscii (special : String → Nat → List Char) {s : String} (h : isAscii s = true) :
    lower special s = String.ofList (s.toList.map Char.toLower) := by
  have hall : ∀ c ∈ s.toList, c.toNat < 128 := by simpa [isAscii] using h
  have hmap : (s.toList.mapIdx fun i c => if c.toNat < 128 then [c.toLower] else special s i) =
      s.toList.map fun c => [c.toLower] := by
    apply List.ext_getElem
    · simp
    · intro i hi hi'
      simp [hall]
  unfold lower
  rw [hmap]
  congr 1
  induction s.toList with
  | nil => rfl
  | cons c cs ih => simp [ih]

theorem startsWith_append (p s : String) : startsWith p (p ++ s) = true := by
  simp [startsWith]

theorem removePrefix_append (p s : String) : removePrefix p (p ++ s) = s := by
  simp [removePrefix, startsWith_append]

/-- A text without white space is left as it is. -/
theorem strip_eq_self {s : String} (h : ∀ c ∈ s.toList, isSpace c = false) : strip s = s := by
  have hleft : s.toList.dropWhile isSpace = s.toList := by
    cases hs : s.toList with
    | nil => rfl
    | cons c cs =>
        have hc : isSpace c = false := h c (by rw [hs]; exact List.mem_cons_self)
        simp [hc]
  have hright : s.toList.rdropWhile isSpace = s.toList := by
    rw [List.rdropWhile_eq_self_iff]
    intro hne
    simp [h _ (List.getLast_mem hne)]
  rw [strip, hleft, hright, String.ofList_toList]

end OpsKnowledge.Lib
