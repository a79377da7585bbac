import OpsKnowledge.Lib.Json

/-!
# Python's json encoder

What `json.dumps` writes, and that `json.loads` reads it back. The text has only printable ASCII
characters: whatever else is in a string is written with the codes of its units.
-/

namespace OpsKnowledge.Lib

/-! ## Characters and their units -/

/-- A character beyond the first 65536 is a pair of surrogates. -/
def unitsOf (c : Char) : List Nat :=
  if c.toNat < 0x10000 then [c.toNat]
  else [0xD800 + (c.toNat - 0x10000) / 0x400, 0xDC00 + (c.toNat - 0x10000) % 0x400]

def unitEscape (n : Nat) : List Char := backslash :: 'u' :: hexDigits 4 n

/-- A character as `ensure_ascii` writes it. -/
def asciiChar (c : Char) : List Char :=
  if c = quotationMark ∨ c = backslash then [backslash, c]
  else if c = '\n' then [backslash, 'n']
  else if c = '\r' then [backslash, 'r']
  else if c = '\t' then [backslash, 't']
  else if c.toNat = 12 then [backslash, 'f']
  else if c.toNat = 8 then [backslash, 'b']
  else if 32 ≤ c.toNat ∧ c.toNat < 127 then [c]
  else (unitsOf c).flatMap unitEscape

def dumpString (s : String) : List Char := quotationMark :: (s.toList.flatMap asciiChar ++ [quotationMark])

/-! ## Values -/

section Dumps

variable (reprFloat : Double → String)

def dumpFloat : Double → List Char
  | .nan => "NaN".toList
  | .infinite negative => (if negative then "-Infinity" else "Infinity").toList
  | .finite q => (reprFloat (.finite q)).toList

mutual

/-- The text of a value that can be written. -/
def JsonValue.chars : JsonValue → List Char
  | .null => "null".toList
  | .bool b => (if b then "true" else "false").toList
  | .int n => (toString n).toList
  | .float x => dumpFloat reprFloat x
  | .str s => dumpString s
  | .arr xs => '[' :: ([',', ' '].intercalate (JsonValue.itemChars xs) ++ [']'])
  | .obj members => '{' :: ([',', ' '].intercalate (JsonValue.memberChars members) ++ ['}'])

def JsonValue.itemChars : List JsonValue → List (List Char)
  | [] => []
  | v :: vs => v.chars :: JsonValue.itemChars vs

def JsonValue.memberChars : List (String × JsonValue) → List (List Char)
  | [] => []
  | (name, v) :: members => (dumpString name ++ ':' :: ' ' :: v.chars) :: JsonValue.memberChars members

end

mutual

/-- Nested no deeper than `depth`, and no integer with more digits than there may be. -/
def JsonValue.writable (depth : Nat) : JsonValue → Bool
  | .int n => (Nat.toDigits 10 n.natAbs).length ≤ maxStrDigits
  | .arr xs => match depth with
    | 0 => false
    | depth + 1 => JsonValue.itemsWritable depth xs
  | .obj members => match depth with
    | 0 => false
    | depth + 1 => JsonValue.membersWritable depth members
  | _ => true

def JsonValue.itemsWritable (depth : Nat) : List JsonValue → Bool
  | [] => true
  | v :: vs => v.writable depth && JsonValue.itemsWritable depth vs

def JsonValue.membersWritable (depth : Nat) : List (String × JsonValue) → Bool
  | [] => true
  | (_, v) :: members => v.writable depth && JsonValue.membersWritable depth members

end

/-- `json.dumps`; `none` where it raises. -/
def dumps (depth : Nat) (v : JsonValue) : Option String :=
  if v.writable depth then some (String.ofList (v.chars reprFloat)) else none

end Dumps

/-! ## Reading strings back -/

theorem hexValue_digitChar : ∀ d, d < 16 → hexValue d.digitChar = some d := by decide

/-- One more digit is one more place. -/
theorem hexDigits_succ (width n : Nat) :
    hexDigits (width + 1) n = hexDigits width (n / 16) ++ [(n % 16).digitChar] := by
  unfold hexDigits
  by_cases hn : n < 16
  · rw [Nat.toDigits_of_lt_base hn, Nat.div_eq_of_lt hn, Nat.mod_eq_of_lt hn, Nat.toDigits_zero]
    cases width with
    | zero => rfl
    | succ width => simp
  · rw [Nat.toDigits_of_base_le (by decide) (Nat.le_of_not_lt hn), List.reverse_append]
    simp

/-- A code of four digits is read as its unit. -/
theorem scanUnits_hexDigits {n : Nat} (hn : n < 0x10000) (s : List Char) :
    scanUnits (.hex 4 0) (hexDigits 4 n ++ s) = consUnit n (scanUnits .plain s) := by
  have hdigit : ∀ m, hexValue (m % 16).digitChar = some (m % 16) := fun m =>
    hexValue_digitChar _ (Nat.mod_lt _ (by decide))
  have hnil : hexDigits 0 (n / 16 / 16 / 16 / 16) = [] := rfl
  rw [hexDigits_succ, hexDigits_succ, hexDigits_succ, hexDigits_succ, hnil]
  simp only [List.nil_append, List.cons_append, scanUnits, hdigit, Option.bind_some]
  have hvalue : 16 * (16 * (16 * (n / 16 / 16 / 16 % 16) + n / 16 / 16 % 16) + n / 16 % 16) + n % 16 = n := by
    omega
  simp [hvalue]

/-- Units before those that are found. -/
def prependUnits (ns : List Nat) (found : Option (List Nat × List Char)) : Option (List Nat × List Char) :=
  found.map fun (ms, rest) => (ns ++ ms, rest)

theorem consUnit_eq (n : Nat) (found : Option (List Nat × List Char)) :
    consUnit n found = prependUnits [n] found := rfl

theorem prependUnits_append (ns ms : List Nat) (found : Option (List Nat × List Char)) :
    prependUnits (ns ++ ms) found = prependUnits ns (prependUnits ms found) := by
  cases found with
  | none => rfl
  | some found => simp [prependUnits]

theorem scanUnits_unitEscape {n : Nat} (hn : n < 0x10000) (s : List Char) :
    scanUnits .plain (unitEscape n ++ s) = prependUnits [n] (scanUnits .plain s) := by
  rw [← consUnit_eq, ← scanUnits_hexDigits hn]
  rfl

theorem scanUnits_flatMap_unitEscape {ns : List Nat} (hns : ∀ n ∈ ns, n < 0x10000) (s : List Char) :
    scanUnits .plain (ns.flatMap unitEscape ++ s) = prependUnits ns (scanUnits .plain s) := by
  induction ns with
  | nil =>
      cases h : scanUnits .plain s with
      | none => simp [prependUnits, h]
      | some found => simp [prependUnits, h]
  | cons n ns ih =>
      rw [List.forall_mem_cons] at hns
      rw [List.flatMap_cons, List.append_assoc, scanUnits_unitEscape hns.1, ih hns.2,
        ← prependUnits_append, List.singleton_append]

theorem toNat_valid (c : Char) : c.toNat < 0xD800 ∨ 0xE000 ≤ c.toNat ∧ c.toNat < 0x110000 := by
  have hvalid : c.toNat < 0xD800 ∨ 0xDFFF < c.toNat ∧ c.toNat < 0x110000 := c.valid
  omega

theorem unitsOf_lt (c : Char) : ∀ n ∈ unitsOf c, n < 0x10000 := by
  have hc := toNat_valid c
  unfold unitsOf
  split
  · intro n hn
    rw [List.mem_singleton.1 hn]
    omega
  · simp only [List.mem_cons, List.not_mem_nil, or_false]
    intro n hn
    omega

/-- Any character is read as its units, whatever is before or behind it. -/
theorem scanUnits_asciiChar (c : Char) (s : List Char) :
    scanUnits .plain (asciiChar c ++ s) = prependUnits (unitsOf c) (scanUnits .plain s) := by
  have hescape : ∀ d : Char, d ≠ 'u' → escapedUnit d = some c.toNat → c.toNat < 0x10000 →
      scanUnits .plain (backslash :: d :: s) = prependUnits (unitsOf c) (scanUnits .plain s) := by
    intro d hu hd hc
    have hq : backslash ≠ quotationMark := by decide
    simp only [scanUnits, if_neg hq, if_pos, if_neg hu, hd, Option.bind_some, unitsOf, if_pos hc]
    rfl
  have hsame : ∀ n, Char.ofNat c.toNat = Char.ofNat n → c = Char.ofNat n := by
    intro n h
    rwa [Char.ofNat_toNat] at h
  unfold asciiChar
  split
  · next h =>
      rcases h with rfl | rfl
      · exact hescape _ (by decide) (by decide) (by decide)
      · exact hescape _ (by decide) (by decide) (by decide)
  split
  · next h => exact hescape 'n' (by decide) (by rw [h]; decide) (by rw [h]; decide)
  split
  · next h => exact hescape 'r' (by decide) (by rw [h]; decide) (by rw [h]; decide)
  split
  · next h => exact hescape 't' (by decide) (by rw [h]; decide) (by rw [h]; decide)
  split
  · next h => exact hescape 'f' (by decide) (by rw [h]; decide) (by omega)
  split
  · next h => exact hescape 'b' (by decide) (by rw [h]; decide) (by omega)
  split
  · next hspecial _ _ _ _ _ h =>
      rw [not_or] at hspecial
      have hunits : unitsOf c = [c.toNat] := if_pos (by omega)
      rw [hunits, List.singleton_append, ← consUnit_eq]
      simp only [scanUnits, if_neg hspecial.1, if_neg hspecial.2, if_neg (Nat.not_lt.2 h.1)]
  · exact scanUnits_flatMap_unitEscape (unitsOf_lt c) s

theorem scanUnits_flatMap_asciiChar (cs : List Char) (s : List Char) :
    scanUnits .plain (cs.flatMap asciiChar ++ quotationMark :: s) = some (cs.flatMap unitsOf, s) := by
  induction cs with
  | nil => rfl
  | cons c cs ih =>
      rw [List.flatMap_cons, List.append_assoc, scanUnits_asciiChar, ih]
      rfl

/-- The units of a character are joined again, and with nothing behind them. -/
theorem ofUnits_unitsOf_append (c : Char) (ns : List Nat) : ofUnits (unitsOf c ++ ns) = c :: ofUnits ns := by
  have hc := toNat_valid c
  unfold unitsOf
  split
  · have hvalid : c.toNat.isValidChar := c.valid
    cases ns with
    | nil => simp [ofUnits, hvalid]
    | cons l ns =>
        have hpair : ¬(0xD800 ≤ c.toNat ∧ c.toNat < 0xDC00 ∧ 0xDC00 ≤ l ∧ l < 0xE000) := by omega
        simp [ofUnits, hpair, hvalid]
  · next h =>
      have hpair : 0xD800 ≤ 0xD800 + (c.toNat - 0x10000) / 0x400 ∧
          0xD800 + (c.toNat - 0x10000) / 0x400 < 0xDC00 ∧
          0xDC00 ≤ 0xDC00 + (c.toNat - 0x10000) % 0x400 ∧
          0xDC00 + (c.toNat - 0x10000) % 0x400 < 0xE000 := by omega
      have hjoined : 0x10000 + 0x400 * (0xD800 + (c.toNat - 0x10000) / 0x400 - 0xD800) +
          (0xDC00 + (c.toNat - 0x10000) % 0x400 - 0xDC00) = c.toNat := by omega
      rw [List.cons_append, List.cons_append, List.nil_append, ofUnits, if_pos hpair, hjoined,
        Char.ofNat_toNat]

theorem ofUnits_flatMap_unitsOf (cs : List Char) : ofUnits (cs.flatMap unitsOf) = cs := by
  induction cs with
  | nil => rfl
  | cons c cs ih => rw [List.flatMap_cons, ofUnits_unitsOf_append, ih]

theorem scanString_dumpString (x : String) (s : List Char) :
    scanString (dumpString x ++ s) = some (x, s) := by
  have hquote : expect [quotationMark] (dumpString x ++ s) =
      some (x.toList.flatMap asciiChar ++ quotationMark :: s) := by
    rw [expect_eq_some]
    simp [dumpString]
  unfold scanString
  rw [hquote]
  dsimp only [Option.bind_eq_bind, Option.bind_some]
  rw [scanUnits_flatMap_asciiChar]
  simp [ofUnits_flatMap_unitsOf]

/-- What is read of a string ends with a mark, and does not depend on what stands behind it. -/
theorem scanUnits_split {mode : StringMode} {s r : List Char} {ns : List Nat}
    (h : scanUnits mode s = some (ns, r)) : ∃ body, s = body ++ quotationMark :: r ∧
      ∀ t, scanUnits mode (body ++ quotationMark :: t) = some (ns, t) := by
  have hcons : ∀ {n : Nat} {found : Option (List Nat × List Char)} {ns : List Nat} {r : List Char},
      consUnit n found = some (ns, r) → ∃ ns', found = some (ns', r) ∧ ns = n :: ns' := by
    intro n found ns r h
    obtain ⟨⟨ns', r'⟩, hfound, heq⟩ := Option.map_eq_some_iff.1 h
    cases heq
    exact ⟨ns', hfound, rfl⟩
  induction s generalizing mode ns with
  | nil => cases mode <;> cases h
  | cons c s ih =>
      cases mode with
      | plain =>
          unfold scanUnits at h
          split at h
          · next hc =>
              cases h
              exact ⟨[], by rw [hc, List.nil_append], fun t => by rw [List.nil_append, scanUnits, if_pos rfl]⟩
          · next hmark =>
              split at h
              · next hslash =>
                  obtain ⟨body, rfl, hbody⟩ := ih h
                  refine ⟨c :: body, rfl, fun t => ?_⟩
                  rw [List.cons_append, scanUnits, if_neg hmark, if_pos hslash, hbody]
              · next hslash =>
                  split at h
                  · cases h
                  · next hcontrol =>
                      obtain ⟨ns', hrest, rfl⟩ := hcons h
                      obtain ⟨body, rfl, hbody⟩ := ih hrest
                      refine ⟨c :: body, rfl, fun t => ?_⟩
                      rw [List.cons_append, scanUnits, if_neg hmark, if_neg hslash, if_neg hcontrol, hbody]
                      rfl
      | escape =>
          unfold scanUnits at h
          split at h
          · next hu =>
              obtain ⟨body, rfl, hbody⟩ := ih h
              refine ⟨c :: body, rfl, fun t => ?_⟩
              rw [List.cons_append, scanUnits, if_pos hu, hbody]
          · next hu =>
              obtain ⟨n, hn, h⟩ := Option.bind_eq_some_iff.1 h
              obtain ⟨ns', hrest, rfl⟩ := hcons h
              obtain ⟨body, rfl, hbody⟩ := ih hrest
              refine ⟨c :: body, rfl, fun t => ?_⟩
              rw [List.cons_append, scanUnits, if_neg hu, hn, Option.bind_some, hbody]
              rfl
      | hex left value =>
          unfold scanUnits at h
          obtain ⟨d, hd, h⟩ := Option.bind_eq_some_iff.1 h
          split at h
          · next hleft =>
              obtain ⟨ns', hrest, rfl⟩ := hcons h
              obtain ⟨body, rfl, hbody⟩ := ih hrest
              refine ⟨c :: body, rfl, fun t => ?_⟩
              rw [List.cons_append, scanUnits, hd, Option.bind_some, if_pos hleft, hbody]
              rfl
          · next hleft =>
              obtain ⟨body, rfl, hbody⟩ := ih h
              refine ⟨c :: body, rfl, fun t => ?_⟩
              rw [List.cons_append, scanUnits, hd, Option.bind_some, if_neg hleft, hbody]

/-- A text that is read as this string, whatever stands behind it. -/
def Spells (text : List Char) (x : String) : Prop := ∀ s, scanString (text ++ s) = some (x, s)

theorem spells_dumpString (x : String) : Spells (dumpString x) x := scanString_dumpString x

theorem scanString_mark (s : List Char) : scanString (quotationMark :: s) =
    (scanUnits .plain s).map fun found => (String.ofList (ofUnits found.1), found.2) := by
  have hmark : expect [quotationMark] (quotationMark :: s) = some s := expect_eq_some.2 rfl
  unfold scanString
  rw [hmark]
  dsimp only [Option.bind_eq_bind, Option.bind_some]
  cases scanUnits .plain s with
  | none => rfl
  | some found => rfl

theorem Spells.begins {text : List Char} {x : String} (h : Spells text x) :
    ∃ body, text = quotationMark :: body := by
  obtain ⟨s, hs, -⟩ := Option.bind_eq_some_iff.1 (h [])
  rw [List.append_nil] at hs
  exact ⟨s, expect_eq_some.1 hs⟩

/-- A string that is cut before its last character is no string any more. -/
theorem Spells.cut {pre rest : List Char} {c : Char} {x : String} (h : Spells (pre ++ c :: rest) x)
    (hpre : pre ≠ []) (hc : c ≠ quotationMark) : scanString (pre ++ [c]) = none := by
  obtain ⟨body, hbody⟩ := h.begins
  obtain ⟨d, pre, rfl⟩ := List.exists_cons_of_ne_nil hpre
  cases (List.cons.inj hbody).1
  have hwhole := h []
  rw [List.append_nil, List.cons_append, scanString_mark] at hwhole
  obtain ⟨⟨ns, r⟩, hunits, heq⟩ := Option.map_eq_some_iff.1 hwhole
  cases heq
  rw [List.cons_append, scanString_mark, Option.map_eq_none_iff]
  by_contra hsome
  obtain ⟨⟨ns', r'⟩, hcut⟩ := Option.ne_none_iff_exists'.1 hsome
  obtain ⟨body', hsplit, hrest⟩ := scanUnits_split hcut
  -- what is read of the cut text ends before its last character
  rcases List.eq_nil_or_concat r' with rfl | ⟨r'', e, rfl⟩
  · have hlast := congrArg List.getLast? hsplit
    simp only [List.getLast?_append, List.getLast?_singleton, Option.some_or, Option.some.injEq] at hlast
    exact hc hlast
  · rw [List.concat_eq_append, ← List.cons_append, ← List.append_assoc] at hsplit
    obtain ⟨rfl, -⟩ := List.append_inj' hsplit rfl
    rw [List.append_assoc, List.cons_append, hrest] at hunits
    simp at hunits

theorem spells_of_scanString {s r : List Char} {x : String} (h : scanString s = some (x, r)) :
    ∃ text, s = text ++ r ∧ Spells text x := by
  obtain ⟨s, rfl⟩ : ∃ t, s = quotationMark :: t := by
    obtain ⟨t, ht, -⟩ := Option.bind_eq_some_iff.1 h
    exact ⟨t, expect_eq_some.1 ht⟩
  rw [scanString_mark] at h
  obtain ⟨⟨ns, r⟩, hunits, heq⟩ := Option.map_eq_some_iff.1 h
  cases heq
  obtain ⟨body, rfl, hbody⟩ := scanUnits_split hunits
  refine ⟨quotationMark :: (body ++ [quotationMark]), by simp, fun t => ?_⟩
  rw [List.cons_append, List.append_assoc, List.singleton_append, scanString_mark, hbody]
  rfl

/-! ## Reading numbers back -/

/-- What stands behind a value inside a text: the end of it, a comma or a closing mark. -/
def Stops (s : List Char) : Prop := ∀ c, s.head? = some c → c = ',' ∨ c = ']' ∨ c = '}'

theorem ofDigits_digitValues (n : Nat) : ofDigits (digitValues (Nat.toDigits 10 n)) = n := by
  have h := Nat.ofDigitChars_ten_toDigits (n := n)
  unfold ofDigits digitValues
  rw [List.foldl_map]
  exact h

/-- Only zero is written with a zero in front. -/
theorem head?_toDigits (n : Nat) (h : (Nat.toDigits 10 n).head? = some '0') : n = 0 := by
  induction n using Nat.strong_induction_on with
  | _ n ih =>
      by_cases hn : n < 10
      · rw [Nat.toDigits_of_lt_base hn] at h
        simpa using h
      · have hpos : n / 10 ≠ 0 := by omega
        rw [Nat.toDigits_of_base_le (by decide) (Nat.le_of_not_lt hn),
          List.head?_append_of_ne_nil _ Nat.toDigits_ne_nil] at h
        exact absurd (ih (n / 10) (by omega) h) hpos

theorem scanWhole_toDigits (n : Nat) {s : List Char} (hs : Stops s) :
    scanWhole (Nat.toDigits 10 n ++ s) = Nat.toDigits 10 n := by
  unfold scanWhole
  by_cases hzero : n = 0
  · rw [hzero, Nat.toDigits_zero]
    rfl
  · have hhead : (Nat.toDigits 10 n ++ s).head? ≠ some '0' := by
      rw [List.head?_append_of_ne_nil _ Nat.toDigits_ne_nil]
      exact fun h => hzero (head?_toDigits n h)
    rw [if_neg hhead]
    refine takeWhile_append_of_boundary (fun c hc => ?_) fun c hc => ?_
    · exact Nat.isDigit_of_mem_toDigits (by decide) (by decide) hc
    · rcases hs c hc with rfl | rfl | rfl
      · rfl
      · rfl
      · rfl

/-- Neither a fraction nor an exponent begins where a value stops. -/
theorem scanFraction_of_stops {s : List Char} (hs : Stops s) : scanFraction s = ([], s) := by
  unfold scanFraction
  split
  · next s =>
      rcases hs '.' rfl with h | h | h
      · cases h
      · cases h
      · cases h
  · rfl

theorem scanExponent_of_stops {s : List Char} (hs : Stops s) : scanExponent s = (none, s) := by
  cases s with
  | nil => rfl
  | cons c s =>
      have hmark : isExponentMark c = false := by
        rcases hs c rfl with rfl | rfl | rfl
        · rfl
        · rfl
        · rfl
      simp [scanExponent, hmark]

theorem scanUnsigned_toDigits (negative : Bool) {n : Nat} {s : List Char} (hs : Stops s)
    (hlength : (Nat.toDigits 10 n).length ≤ maxStrDigits) :
    scanUnsigned negative (Nat.toDigits 10 n ++ s) = some (.int (if negative then -n else n), s) := by
  unfold scanUnsigned
  rw [scanWhole_toDigits n hs]
  dsimp only
  rw [List.drop_left, scanFraction_of_stops hs]
  dsimp only
  rw [scanExponent_of_stops hs]
  dsimp only
  rw [if_neg Nat.toDigits_ne_nil, if_pos ⟨rfl, rfl⟩, if_neg (Nat.not_lt.2 hlength), ofDigits_digitValues]

/-! ## Reading values back -/

theorem scanString_cons_of_ne {c : Char} (hc : c ≠ quotationMark) (s : List Char) :
    scanString (c :: s) = none := by
  have hexpect : expect [quotationMark] (c :: s) = none := by
    rw [Option.eq_none_iff_forall_ne_some]
    intro t ht
    rw [expect_eq_some, List.singleton_append] at ht
    exact hc (List.cons.inj ht).1
  unfold scanString
  rw [hexpect]
  rfl

/-- A value that begins like no container is a string, a name or a number. -/
theorem scanValue_scalar {c : Char} (hobj : c ≠ '{') (harr : c ≠ '[') (depth : Nat) (s : List Char) :
    scanValue depth (c :: s) = match scanString (c :: s) with
      | some (x, s) => some (.str x, s)
      | none =>
        match scanName (c :: s) with
        | some found => some found
        | none => scanNumber (c :: s) := by
  unfold scanValue
  split
  · next heq => exact absurd (List.cons.inj heq).1 hobj
  · next heq => exact absurd (List.cons.inj heq).1 harr
  · rfl

theorem Spells.scanValue {depth : Nat} {text : List Char} {x : String} (h : Spells text x) (s : List Char) :
    scanValue depth (text ++ s) = some (.str x, s) := by
  obtain ⟨body, rfl⟩ := h.begins
  have hscan := h s
  rw [List.cons_append] at hscan ⊢
  rw [scanValue_scalar (by decide) (by decide), hscan]

/-- A string that does not end is no value. -/
theorem scanValue_unfinished {depth : Nat} {s : List Char} (h : scanString (quotationMark :: s) = none) :
    scanValue depth (quotationMark :: s) = none := by
  rw [scanValue_scalar (by decide) (by decide), h]
  rfl

/-- No name and no number is a string. -/
theorem spells_of_scanValue {depth : Nat} {s r : List Char} {x : String}
    (h : scanValue depth s = some (.str x, r)) : ∃ text, s = text ++ r ∧ Spells text x := by
  unfold scanValue at h
  split at h
  · obtain ⟨found, -, heq⟩ := Option.map_eq_some_iff.1 h
    cases heq
  · obtain ⟨found, -, heq⟩ := Option.map_eq_some_iff.1 h
    cases heq
  · split at h
    · next hstring =>
        cases h
        exact spells_of_scanString hstring
    · split at h
      · next found hname =>
          cases h
          obtain ⟨⟨name, v⟩, hmem, hfound⟩ := List.exists_of_findSome?_eq_some hname
          obtain ⟨rest, -, heq⟩ := Option.map_eq_some_iff.1 hfound
          cases heq
          simp [jsonNames] at hmem
      · unfold scanNumber scanUnsigned at h
        dsimp only at h
        split at h
        · cases h
        · split at h
          · split at h
            · cases h
            · cases h
          · cases h

theorem scanValue_dumpString (depth : Nat) (x : String) (s : List Char) :
    scanValue depth (dumpString x ++ s) = some (.str x, s) := (spells_dumpString x).scanValue s

/-- No name begins like a numeral, except the negative infinity. -/
theorem scanName_cons_of_isDigit {c : Char} (hc : c.isDigit = true) (s : List Char) :
    scanName (c :: s) = none := by
  have hexpect : ∀ d p, d.isDigit = false → expect (d :: p) (c :: s) = none := by
    intro d p hd
    rw [Option.eq_none_iff_forall_ne_some]
    intro t ht
    rw [expect_eq_some, List.cons_append] at ht
    rw [(List.cons.inj ht).1, hd] at hc
    cases hc
  simp [scanName, jsonNames, hexpect]

theorem scanName_minus_of_isDigit {c : Char} (hc : c.isDigit = true) (s : List Char) :
    scanName ('-' :: c :: s) = none := by
  have hexpect : ∀ d p, d ≠ '-' → expect (d :: p) ('-' :: c :: s) = none := by
    intro d p hd
    rw [Option.eq_none_iff_forall_ne_some]
    intro t ht
    rw [expect_eq_some, List.cons_append] at ht
    exact hd (List.cons.inj ht).1.symm
  have hinfinity : ∀ p, expect ('-' :: 'I' :: p) ('-' :: c :: s) = none := by
    intro p
    rw [Option.eq_none_iff_forall_ne_some]
    intro t ht
    rw [expect_eq_some, List.cons_append, List.cons_append] at ht
    rw [(List.cons.inj (List.cons.inj ht).2).1] at hc
    cases hc
  simp [scanName, jsonNames, hexpect, hinfinity]

/-- The digits of an integer, and its sign. -/
theorem toList_toString_int (n : Int) : (toString n).toList =
    if n < 0 then '-' :: Nat.toDigits 10 n.natAbs else Nat.toDigits 10 n.natAbs := by
  rw [Int.toString_eq_repr, Int.repr_eq_if]
  by_cases hn : n < 0
  · have habs : (-n).toNat = n.natAbs := by omega
    rw [if_pos hn, if_neg (by omega), habs, String.toList_append, Nat.toList_repr]
    rfl
  · have habs : n.toNat = n.natAbs := by omega
    rw [if_neg hn, if_pos (by omega), habs, Nat.toList_repr]

theorem splitMinus_of_isDigit {c : Char} (hc : c.isDigit = true) (s : List Char) :
    splitMinus (c :: s) = (false, c :: s) := by
  unfold splitMinus
  split
  · next heq =>
      rw [(List.cons.inj heq).1] at hc
      cases hc
  · rfl

/-- An integer is read back, whatever its size, up to the digits there may be. -/
theorem scanValue_int (depth : Nat) {n : Int} {s : List Char} (hs : Stops s)
    (hlength : (Nat.toDigits 10 n.natAbs).length ≤ maxStrDigits) :
    scanValue depth ((toString n).toList ++ s) = some (.int n, s) := by
  obtain ⟨c, ds, hds⟩ := List.exists_cons_of_ne_nil (Nat.toDigits_ne_nil (n := n.natAbs) (b := 10))
  have hc : c.isDigit = true :=
    Nat.isDigit_of_mem_toDigits (b := 10) (n := n.natAbs) (by decide) (by decide) (by simp [hds])
  have hquote : ∀ {d : Char}, d.isDigit = true ∨ d = '-' → d ≠ quotationMark ∧ d ≠ '{' ∧ d ≠ '[' := by
    intro d hd
    refine ⟨?_, ?_, ?_⟩
    · rintro rfl
      revert hd
      decide
    · rintro rfl
      revert hd
      decide
    · rintro rfl
      revert hd
      decide
  have hunsigned := fun negative => scanUnsigned_toDigits negative hs hlength
  rw [hds] at hunsigned
  rw [toList_toString_int]
  split
  · next hneg =>
      obtain ⟨h₁, h₂, h₃⟩ := hquote (d := '-') (.inr rfl)
      have hvalue : -(n.natAbs : Int) = n := by omega
      rw [hds, List.cons_append, List.cons_append, scanValue_scalar h₂ h₃, scanString_cons_of_ne h₁,
        scanName_minus_of_isDigit hc]
      have hminus : splitMinus ('-' :: c :: (ds ++ s)) = (true, c :: ds ++ s) := rfl
      dsimp only
      unfold scanNumber
      rw [hminus, hunsigned, if_pos rfl, hvalue]
  · next hneg =>
      obtain ⟨h₁, h₂, h₃⟩ := hquote (.inl hc)
      have hvalue : (n.natAbs : Int) = n := by omega
      rw [hds, List.cons_append, scanValue_scalar h₂ h₃, scanString_cons_of_ne h₁,
        scanName_cons_of_isDigit hc]
      dsimp only
      unfold scanNumber
      rw [splitMinus_of_isDigit hc, ← List.cons_append, hunsigned, if_neg Bool.false_ne_true, hvalue]

theorem expect_append (p s : List Char) : expect p (p ++ s) = some s := expect_eq_some.2 rfl

/-- The names are read back. -/
theorem scanValue_name (depth : Nat) (s : List Char) {name : String} {v : JsonValue}
    (h : (name, v) ∈ jsonNames) : scanValue depth (name.toList ++ s) = some (v, s) := by
  have hname : ∀ c t, c ≠ quotationMark → c ≠ '{' → c ≠ '[' → scanName (c :: t) = some (v, s) →
      scanValue depth (c :: t) = some (v, s) := by
    intro c t h₁ h₂ h₃ hscan
    rw [scanValue_scalar h₂ h₃, scanString_cons_of_ne h₁, hscan]
  simp only [jsonNames, List.mem_cons, List.not_mem_nil, or_false, Prod.mk.injEq] at h
  rcases h with ⟨rfl, rfl⟩ | ⟨rfl, rfl⟩ | ⟨rfl, rfl⟩ | ⟨rfl, rfl⟩ | ⟨rfl, rfl⟩ | ⟨rfl, rfl⟩
  · exact hname 'n' _ (by decide) (by decide) (by decide) rfl
  · exact hname 't' _ (by decide) (by decide) (by decide) rfl
  · exact hname 'f' _ (by decide) (by decide) (by decide) rfl
  · exact hname 'N' _ (by decide) (by decide) (by decide) rfl
  · exact hname 'I' _ (by decide) (by decide) (by decide) rfl
  · exact hname '-' _ (by decide) (by decide) (by decide) rfl

section Values

variable {reprFloat : Double → String}

def IsPrintable (c : Char) : Prop := 32 ≤ c.toNat ∧ c.toNat < 127

instance (c : Char) : Decidable (IsPrintable c) := inferInstanceAs (Decidable (_ ∧ _))

/-- What `repr` writes for a finite float is read as that float. -/
structure ReadsBack (reprFloat : Double → String) (x : Double) : Prop where
  printable : ∀ c ∈ (reprFloat x).toList, IsPrintable c
  eq : ∀ depth s, Stops s → scanValue depth ((reprFloat x).toList ++ s) = some (.float x, s)

mutual

/-- The finite floats of a value. -/
def JsonValue.floats : JsonValue → List Double
  | .float (.finite q) => [.finite q]
  | .arr xs => JsonValue.itemFloats xs
  | .obj members => JsonValue.memberFloats members
  | _ => []

def JsonValue.itemFloats : List JsonValue → List Double
  | [] => []
  | v :: vs => v.floats ++ JsonValue.itemFloats vs

def JsonValue.memberFloats : List (String × JsonValue) → List Double
  | [] => []
  | (_, v) :: members => v.floats ++ JsonValue.memberFloats members

end

@[simp] theorem itemChars_eq (xs : List JsonValue) :
    JsonValue.itemChars reprFloat xs = xs.map (JsonValue.chars reprFloat) := by
  induction xs with
  | nil => rfl
  | cons v vs ih => rw [JsonValue.itemChars, ih, List.map_cons]

@[simp] theorem memberChars_eq (ms : List (String × JsonValue)) :
    JsonValue.memberChars reprFloat ms =
      ms.map fun (name, v) => dumpString name ++ ':' :: ' ' :: v.chars reprFloat := by
  induction ms with
  | nil => rfl
  | cons m ms ih => rw [JsonValue.memberChars, ih, List.map_cons]

theorem itemsWritable_iff {depth : Nat} {xs : List JsonValue} :
    JsonValue.itemsWritable depth xs = true ↔ ∀ v ∈ xs, v.writable depth = true := by
  induction xs with
  | nil => simp [JsonValue.itemsWritable]
  | cons v vs ih => simp [JsonValue.itemsWritable, ih]

theorem membersWritable_iff {depth : Nat} {ms : List (String × JsonValue)} :
    JsonValue.membersWritable depth ms = true ↔ ∀ m ∈ ms, m.2.writable depth = true := by
  induction ms with
  | nil => simp [JsonValue.membersWritable]
  | cons m ms ih => simp [JsonValue.membersWritable, ih]

theorem mem_itemFloats {x : Double} {xs : List JsonValue} :
    x ∈ JsonValue.itemFloats xs ↔ ∃ v ∈ xs, x ∈ v.floats := by
  induction xs with
  | nil => simp [JsonValue.itemFloats]
  | cons v vs ih => simp [JsonValue.itemFloats, ih]

theorem mem_memberFloats {x : Double} {ms : List (String × JsonValue)} :
    x ∈ JsonValue.memberFloats ms ↔ ∃ m ∈ ms, x ∈ m.2.floats := by
  induction ms with
  | nil => simp [JsonValue.memberFloats]
  | cons m ms ih => simp [JsonValue.memberFloats, ih]

/-! ## Containers -/

/-- Neither space nor a closing mark. -/
def Begins (c : Char) : Prop := (c ≠ ' ' ∧ c ≠ '\t' ∧ c ≠ '\n' ∧ c ≠ '\r') ∧ c ≠ ']' ∧ c ≠ '}'

/-- The text of an item, before anything that may stand behind an item. -/
structure Reads {α : Type} (item : Pattern Char α) (text : List Char) (x : α) : Prop where
  begins : ∃ c rest, text = c :: rest ∧ Begins c
  eq : ∀ s, Stops s → item (text ++ s) = some (x, s)

theorem skipJsonSpace_cons {c : Char} (hc : c ≠ ' ' ∧ c ≠ '\t' ∧ c ≠ '\n' ∧ c ≠ '\r') (s : List Char) :
    skipJsonSpace (c :: s) = c :: s := by
  unfold skipJsonSpace
  rw [List.dropWhile_cons_of_neg]
  simp [hc.1, hc.2.1, hc.2.2.1, hc.2.2.2]

theorem notMem_skipJsonSpace {c : Char} {s : List Char} (h : c ∉ s) : c ∉ skipJsonSpace s :=
  fun hc => h ((List.dropWhile_suffix _).subset hc)

theorem skipJsonSpace_of_reads {α : Type} {item : Pattern Char α} {text : List Char} {x : α}
    (h : Reads item text x) (s : List Char) : skipJsonSpace (text ++ s) = text ++ s := by
  obtain ⟨c, rest, rfl, hc⟩ := h.begins
  exact skipJsonSpace_cons hc.1 _

theorem stops_cons {c : Char} (hc : c = ',' ∨ c = ']' ∨ c = '}') (s : List Char) : Stops (c :: s) := by
  intro d hd
  cases hd
  exact hc

/-- Items with a comma and a space between them are read one after the other. -/
theorem scanItems_intercalate {α : Type} {item : Pattern Char α} {close : Char}
    (hclose : close = ']' ∨ close = '}') {texts : List (List Char)} {xs : List α}
    (h : List.Forall₂ (Reads item) texts xs) (hne : xs ≠ []) {fuel : Nat} (hfuel : xs.length ≤ fuel)
    (s : List Char) :
    scanItems item close fuel ([',', ' '].intercalate texts ++ close :: s) = some (xs, s) := by
  have hspace : close ≠ ' ' ∧ close ≠ '\t' ∧ close ≠ '\n' ∧ close ≠ '\r' ∧ close ≠ ',' := by
    rcases hclose with rfl | rfl
    · decide
    · decide
  induction h generalizing fuel with
  | nil => exact absurd rfl hne
  | @cons text x texts xs hx hxs ih =>
      obtain ⟨fuel, rfl⟩ : ∃ k, fuel = k + 1 := Nat.exists_eq_succ_of_ne_zero (by
        rw [List.length_cons] at hfuel
        omega)
      cases hxs with
      | nil =>
          rw [List.intercalate_singleton, scanItems_succ (hx.eq _ (stops_cons (.inr hclose) s)),
            skipJsonSpace_cons ⟨hspace.1, hspace.2.1, hspace.2.2.1, hspace.2.2.2.1⟩]
          simp
      | @cons text' x' texts xs hx' hxs =>
          have hlater : skipJsonSpace (' ' :: ([',', ' '].intercalate (text' :: texts) ++ close :: s)) =
              [',', ' '].intercalate (text' :: texts) ++ close :: s := by
            have hskip := skipJsonSpace_of_reads hx'
            cases texts with
            | nil => simpa [skipJsonSpace] using hskip (close :: s)
            | cons text'' texts =>
                have h := hskip ([',', ' '] ++ [',', ' '].intercalate (text'' :: texts) ++ close :: s)
                simpa [skipJsonSpace, List.intercalate_cons_cons] using h
          have hshape : [',', ' '].intercalate (text :: text' :: texts) ++ close :: s =
              text ++ ',' :: ' ' :: ([',', ' '].intercalate (text' :: texts) ++ close :: s) := by
            simp [List.intercalate_cons_cons]
          rw [hshape, scanItems_succ (hx.eq _ (stops_cons (.inl rfl) _)), skipJsonSpace_cons (by decide)]
          dsimp only
          rw [if_neg (Ne.symm hspace.2.2.2.2), if_pos rfl, hlater,
            ih (List.cons_ne_nil _ _) (Nat.le_of_succ_le_succ hfuel)]
          rfl

/-- The separators alone are enough for the fuel. -/
theorem length_le_intercalate (texts : List (List Char)) :
    texts.length ≤ ([',', ' '].intercalate texts).length + 1 := by
  induction texts with
  | nil => exact Nat.zero_le _
  | cons text texts ih =>
      cases texts with
      | nil => simp
      | cons text' texts =>
          rw [List.intercalate_cons_cons, List.length_append, List.length_append]
          simp only [List.length_cons, List.length_nil] at ih ⊢
          omega

theorem scanBody_intercalate {α : Type} {item : Pattern Char α} {close : Char}
    (hclose : close = ']' ∨ close = '}') {texts : List (List Char)} {xs : List α}
    (h : List.Forall₂ (Reads item) texts xs) (s : List Char) :
    scanBody item close ([',', ' '].intercalate texts ++ close :: s) = some (xs, s) := by
  unfold scanBody
  cases h with
  | nil =>
      have hspace : close ≠ ' ' ∧ close ≠ '\t' ∧ close ≠ '\n' ∧ close ≠ '\r' := by
        rcases hclose with rfl | rfl
        · decide
        · decide
      rw [List.intercalate_nil, List.nil_append, skipJsonSpace_cons hspace]
      simp
  | @cons text x texts xs hx hxs =>
      obtain ⟨c, rest, rfl, hc⟩ := hx.begins
      obtain ⟨tail, htail⟩ : ∃ tail, [',', ' '].intercalate ((c :: rest) :: texts) = c :: tail := by
        cases texts with
        | nil => exact ⟨rest, by simp⟩
        | cons text' texts => exact ⟨_, by rw [List.intercalate_cons_cons]; rfl⟩
      have hhead : c ≠ close := by
        rcases hclose with rfl | rfl
        · exact hc.2.1
        · exact hc.2.2
      have hlength : (x :: xs).length ≤
          ([',', ' '].intercalate ((c :: rest) :: texts) ++ close :: s).length + 1 := by
        have hcount := (List.Forall₂.cons hx hxs).length_eq
        have hseparators := length_le_intercalate ((c :: rest) :: texts)
        rw [List.length_append]
        omega
      rw [htail, List.cons_append, skipJsonSpace_cons hc.1]
      dsimp only
      rw [List.head?_cons, if_neg (by simpa using hhead), ← List.cons_append, ← htail]
      exact scanItems_intercalate hclose (.cons hx hxs) (List.cons_ne_nil _ _) hlength s

/-- No value begins with space or with a closing mark. -/
theorem begins_of_scanValue {depth : Nat} {c : Char} {s rest : List Char} {v : JsonValue}
    (h : scanValue depth (c :: s) = some (v, rest)) : Begins c := by
  have hnone : ∀ d, d = ' ' ∨ d = '\t' ∨ d = '\n' ∨ d = '\r' ∨ d = ']' ∨ d = '}' →
      scanValue depth (d :: s) = none := by
    rintro d (rfl | rfl | rfl | rfl | rfl | rfl)
    all_goals
      rw [scanValue_scalar (by decide) (by decide), scanString_cons_of_ne (by decide)]
      rfl
  refine ⟨⟨?_, ?_, ?_, ?_⟩, ?_, ?_⟩
  all_goals
    rintro rfl
    rw [hnone _ (by simp)] at h
    cases h

theorem reads_of_scanValue {depth : Nat} {text : List Char} {v : JsonValue}
    (h : ∀ s, Stops s → scanValue depth (text ++ s) = some (v, s)) : Reads (scanValue depth) text v := by
  have hread := h [] fun c hc => by cases hc
  refine ⟨?_, h⟩
  cases text with
  | nil =>
      unfold scanValue at hread
      cases hread
  | cons c rest => exact ⟨c, rest, rfl, begins_of_scanValue hread⟩

theorem reads_scanMember {depth : Nat} {name : String} {text : List Char} {v : JsonValue}
    (h : Reads (scanValue depth) text v) :
    Reads (scanMember (scanValue depth)) (dumpString name ++ ':' :: ' ' :: text) (name, v) := by
  refine ⟨⟨quotationMark, _, rfl, by unfold Begins; decide⟩, fun s hs => ?_⟩
  have hspace : skipJsonSpace (' ' :: (text ++ s)) = text ++ s := skipJsonSpace_of_reads h s
  unfold scanMember
  rw [List.append_assoc, scanString_dumpString]
  dsimp only [Option.bind_eq_bind, Option.bind_some]
  rw [List.cons_append, List.cons_append, skipJsonSpace_cons (by decide)]
  have hcolon : expect [':'] (':' :: ' ' :: (text ++ s)) = some (' ' :: (text ++ s)) := expect_append [':'] _
  rw [hcolon]
  dsimp only [Option.bind_some]
  rw [hspace, h.eq s hs]
  rfl

theorem scanValue_arr {depth : Nat} {texts : List (List Char)} {xs : List JsonValue}
    (h : List.Forall₂ (Reads (scanValue depth)) texts xs) (s : List Char) :
    scanValue (depth + 1) ('[' :: ([',', ' '].intercalate texts ++ [']']) ++ s) = some (.arr xs, s) := by
  have hbody := scanBody_intercalate (.inl rfl) h s
  rw [List.cons_append, List.append_assoc, List.singleton_append]
  change Option.map _ (scanBody (scanValue depth) ']' _) = _
  rw [hbody]
  rfl

theorem scanValue_obj {depth : Nat} {texts : List (List Char)} {ms : List (String × JsonValue)}
    (h : List.Forall₂ (Reads (scanMember (scanValue depth))) texts ms) (s : List Char) :
    scanValue (depth + 1) ('{' :: ([',', ' '].intercalate texts ++ ['}']) ++ s) = some (.obj ms, s) := by
  have hbody := scanBody_intercalate (.inr rfl) h s
  rw [List.cons_append, List.append_assoc, List.singleton_append]
  change Option.map _ (scanBody (scanMember (scanValue depth)) '}' _) = _
  rw [hbody]
  rfl

/-- A value that is no container. -/
theorem scanValue_chars_scalar {depth : Nat} {v : JsonValue} (harr : ∀ xs, v ≠ .arr xs)
    (hobj : ∀ ms, v ≠ .obj ms) (hw : v.writable depth = true)
    (hv : ∀ x ∈ v.floats, ReadsBack reprFloat x) {s : List Char} (hs : Stops s) :
    scanValue depth (v.chars reprFloat ++ s) = some (v, s) := by
  have hnames : ∀ m ∈ jsonNames, (m.1, m.2) ∈ jsonNames := fun m hm => hm
  cases v with
  | null => exact scanValue_name depth s (hnames ("null", .null) (by simp [jsonNames]))
  | bool b =>
      cases b with
      | false => exact scanValue_name depth s (hnames ("false", .bool false) (by simp [jsonNames]))
      | true => exact scanValue_name depth s (hnames ("true", .bool true) (by simp [jsonNames]))
  | int n => exact scanValue_int depth hs (by simpa [JsonValue.writable] using hw)
  | float x =>
      cases x with
      | finite q => exact (hv (.finite q) (by simp [JsonValue.floats])).eq depth s hs
      | infinite negative =>
          cases negative with
          | false =>
              have hname := hnames ("Infinity", .float (.infinite false)) (by simp [jsonNames])
              exact scanValue_name depth s hname
          | true =>
              have hname := hnames ("-Infinity", .float (.infinite true)) (by simp [jsonNames])
              exact scanValue_name depth s hname
      | nan => exact scanValue_name depth s (hnames ("NaN", .float .nan) (by simp [jsonNames]))
  | str x => exact scanValue_dumpString depth x s
  | arr xs => exact absurd rfl (harr xs)
  | obj ms => exact absurd rfl (hobj ms)

/-- What is written of a value that can be written is read as that value. -/
theorem scanValue_chars {depth : Nat} {v : JsonValue} (hw : v.writable depth = true)
    (hv : ∀ x ∈ v.floats, ReadsBack reprFloat x) {s : List Char} (hs : Stops s) :
    scanValue depth (v.chars reprFloat ++ s) = some (v, s) := by
  induction depth generalizing v s with
  | zero =>
      refine scanValue_chars_scalar ?_ ?_ hw hv hs
      · rintro xs rfl
        cases hw
      · rintro ms rfl
        cases hw
  | succ depth ih =>
      cases v with
      | arr xs =>
          have hitems : ∀ v ∈ xs, Reads (scanValue depth) (v.chars reprFloat) v := by
            intro v hmem
            refine reads_of_scanValue fun s hs => ih (itemsWritable_iff.1 hw v hmem) ?_ hs
            exact fun x hx => hv x (mem_itemFloats.2 ⟨v, hmem, hx⟩)
          have hall : List.Forall₂ (Reads (scanValue depth)) (xs.map (JsonValue.chars reprFloat)) xs :=
            List.forall₂_map_left_iff.2 (List.forall₂_same.2 hitems)
          rw [JsonValue.chars, itemChars_eq]
          exact scanValue_arr hall s
      | obj ms =>
          have hmembers : ∀ m ∈ ms, Reads (scanMember (scanValue depth))
              (dumpString m.1 ++ ':' :: ' ' :: m.2.chars reprFloat) m := by
            intro m hmem
            have hm := membersWritable_iff.1 hw m hmem
            refine reads_scanMember (reads_of_scanValue fun s hs => ih hm ?_ hs)
            exact fun x hx => hv x (mem_memberFloats.2 ⟨m, hmem, hx⟩)
          rw [JsonValue.chars, memberChars_eq]
          exact scanValue_obj (List.forall₂_map_left_iff.2 (List.forall₂_same.2 hmembers)) s
      | _ => exact scanValue_chars_scalar (by simp) (by simp) hw hv hs

theorem dumps_eq_some {depth : Nat} {v : JsonValue} {t : String} :
    dumps reprFloat depth v = some t ↔ v.writable depth = true ∧ String.ofList (v.chars reprFloat) = t := by
  unfold dumps
  split
  · next h => simp [h]
  · next h => simp [h]

theorem loads_chars {depth : Nat} {v : JsonValue} (hw : v.writable depth = true)
    (hv : ∀ x ∈ v.floats, ReadsBack reprFloat x) :
    loads depth (String.ofList (v.chars reprFloat)) = some v := by
  have hstops : Stops [] := fun c hc => by cases hc
  have hreads : Reads (scanValue depth) (v.chars reprFloat) v :=
    reads_of_scanValue fun s hs => scanValue_chars hw hv hs
  have hskip := skipJsonSpace_of_reads hreads []
  have hscan := hreads.eq [] hstops
  rw [List.append_nil] at hskip hscan
  unfold loads
  rw [String.toList_ofList, hskip, hscan]
  rfl

/-- `json.loads` reads back what `json.dumps` has written, if the text is not nested too deep for it. -/
theorem loads_of_dumps {depth depth' : Nat} {v : JsonValue} {t : String}
    (h : dumps reprFloat depth v = some t) (hw : v.writable depth' = true)
    (hv : ∀ x ∈ v.floats, ReadsBack reprFloat x) : loads depth' t = some v := by
  obtain ⟨-, rfl⟩ := dumps_eq_some.1 h
  exact loads_chars hw hv

end Values

/-! ## Printable text -/

theorem isPrintable_of_all {cs : List Char} (h : (cs.all fun c => decide (IsPrintable c)) = true) :
    ∀ c ∈ cs, IsPrintable c := by
  simpa using h

theorem isPrintable_hexDigits (width n : Nat) : ∀ c ∈ hexDigits width n, IsPrintable c := by
  have hdigit : ∀ d, d < 16 → IsPrintable d.digitChar := by decide
  induction width generalizing n with
  | zero =>
      intro c hc
      cases hc
  | succ width ih =>
      intro c hc
      rw [hexDigits_succ, List.mem_append, List.mem_singleton] at hc
      rcases hc with hc | rfl
      · exact ih _ c hc
      · exact hdigit _ (Nat.mod_lt _ (by decide))

theorem isPrintable_asciiChar (c : Char) : ∀ d ∈ asciiChar c, IsPrintable d := by
  have hslash : IsPrintable backslash := by decide
  have hpair : ∀ e, IsPrintable e → ∀ d ∈ [backslash, e], IsPrintable d := by
    intro e he d hd
    simp only [List.mem_cons, List.not_mem_nil, or_false] at hd
    rcases hd with rfl | rfl
    · exact hslash
    · exact he
  unfold asciiChar
  split
  · next h =>
      refine hpair c ?_
      rcases h with rfl | rfl
      · decide
      · decide
  split
  · exact hpair 'n' (by decide)
  split
  · exact hpair 'r' (by decide)
  split
  · exact hpair 't' (by decide)
  split
  · exact hpair 'f' (by decide)
  split
  · exact hpair 'b' (by decide)
  split
  · next h => exact List.forall_mem_singleton.2 h
  · intro d hd
    obtain ⟨n, -, hn⟩ := List.mem_flatMap.1 hd
    simp only [unitEscape, List.mem_cons] at hn
    rcases hn with rfl | rfl | hn
    · exact hslash
    · decide
    · exact isPrintable_hexDigits 4 n d hn

theorem isPrintable_dumpString (x : String) : ∀ c ∈ dumpString x, IsPrintable c := by
  intro c hc
  simp only [dumpString, List.mem_cons, List.mem_append, List.not_mem_nil, or_false] at hc
  rcases hc with rfl | hc | rfl
  · decide
  · obtain ⟨d, -, hd⟩ := List.mem_flatMap.1 hc
    exact isPrintable_asciiChar d c hd
  · decide

theorem isPrintable_intercalate {texts : List (List Char)} (h : ∀ t ∈ texts, ∀ c ∈ t, IsPrintable c) :
    ∀ c ∈ [',', ' '].intercalate texts, IsPrintable c := by
  induction texts with
  | nil =>
      intro c hc
      cases hc
  | cons t texts ih =>
      rw [List.forall_mem_cons] at h
      cases texts with
      | nil => simpa using h.1
      | cons t' texts =>
          intro c hc
          simp only [List.intercalate_cons_cons, List.mem_append, List.mem_cons, List.not_mem_nil,
            or_false] at hc
          rcases hc with (hc | rfl | rfl) | hc
          · exact h.1 c hc
          · decide
          · decide
          · exact ih h.2 c hc

variable {reprFloat : Double → String}

theorem isPrintable_chars_scalar {v : JsonValue} (harr : ∀ xs, v ≠ .arr xs) (hobj : ∀ ms, v ≠ .obj ms)
    (hv : ∀ x ∈ v.floats, ReadsBack reprFloat x) :
    ∀ c ∈ v.chars reprFloat, IsPrintable c := by
  have hnames : ∀ name : String, (name.toList.all fun c => decide (IsPrintable c)) = true →
      ∀ c ∈ name.toList, IsPrintable c := fun _ => isPrintable_of_all
  cases v with
  | null => exact hnames "null" (by decide)
  | bool b =>
      cases b with
      | false => exact hnames "false" (by decide)
      | true => exact hnames "true" (by decide)
  | int n =>
      have hdigit : ∀ c ∈ Nat.toDigits 10 n.natAbs, IsPrintable c := by
        intro c hc
        have hrange := Char.isDigit_iff_toNat.1 (Nat.isDigit_of_mem_toDigits (by decide) (by decide) hc)
        exact ⟨Nat.le_trans (by decide) hrange.1, Nat.lt_of_le_of_lt hrange.2 (by decide)⟩
      rw [JsonValue.chars, toList_toString_int]
      split
      · exact List.forall_mem_cons.2 ⟨by decide, hdigit⟩
      · exact hdigit
  | float x =>
      cases x with
      | finite q => exact (hv (.finite q) (by simp [JsonValue.floats])).printable
      | infinite negative =>
          cases negative with
          | false => exact hnames "Infinity" (by decide)
          | true => exact hnames "-Infinity" (by decide)
      | nan => exact hnames "NaN" (by decide)
  | str x => exact isPrintable_dumpString x
  | arr xs => exact absurd rfl (harr xs)
  | obj ms => exact absurd rfl (hobj ms)

/-- What is written of a value is printable. -/
theorem isPrintable_chars {depth : Nat} {v : JsonValue} (hw : v.writable depth = true)
    (hv : ∀ x ∈ v.floats, ReadsBack reprFloat x) :
    ∀ c ∈ v.chars reprFloat, IsPrintable c := by
  have hbraces : ∀ {l r : Char} {texts : List (List Char)}, IsPrintable l → IsPrintable r →
      (∀ t ∈ texts, ∀ c ∈ t, IsPrintable c) →
      ∀ c ∈ l :: ([',', ' '].intercalate texts ++ [r]), IsPrintable c := by
    intro l r texts hl hr h c hc
    simp only [List.mem_cons, List.mem_append, List.not_mem_nil, or_false] at hc
    rcases hc with rfl | hc | rfl
    · exact hl
    · exact isPrintable_intercalate h c hc
    · exact hr
  induction depth generalizing v with
  | zero =>
      refine isPrintable_chars_scalar ?_ ?_ hv
      · rintro xs rfl
        cases hw
      · rintro ms rfl
        cases hw
  | succ depth ih =>
      cases v with
      | arr xs =>
          rw [JsonValue.chars, itemChars_eq]
          refine hbraces (by decide) (by decide) (List.forall_mem_map.2 fun v hmem => ?_)
          exact ih (itemsWritable_iff.1 hw v hmem) fun x hx => hv x (mem_itemFloats.2 ⟨v, hmem, hx⟩)
      | obj ms =>
          rw [JsonValue.chars, memberChars_eq]
          refine hbraces (by decide) (by decide) (List.forall_mem_map.2 fun m hmem c hc => ?_)
          simp only [List.mem_append, List.mem_cons] at hc
          rcases hc with hc | rfl | rfl | hc
          · exact isPrintable_dumpString m.1 c hc
          · decide
          · decide
          · exact ih (membersWritable_iff.1 hw m hmem)
              (fun x hx => hv x (mem_memberFloats.2 ⟨m, hmem, hx⟩)) c hc
      | _ => exact isPrintable_chars_scalar (by simp) (by simp) hv

end OpsKnowledge.Lib
