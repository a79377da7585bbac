import OpsKnowledge.Lib.Json

/-!
# Answers of the model as JSON

The judges, the query rewriter, the planner and the topic labeller read the model's answer in
the same three ways, and then its members with Python's own conversions.
-/

namespace OpsKnowledge.Replies

open OpsKnowledge.Lib

/-- What the conversions raise. -/
inductive PyError where
  | typeError
  | valueError
  | overflowError
  | attributeError
  deriving DecidableEq

/-! ## Three ways to read an answer -/

def fence : List Char := List.replicate 3 (Char.ofNat 96)

/-- The text up to the first closing brace before a closing fence. -/
def fenceBody : List Char → Option (List Char)
  | [] => none
  | c :: s =>
    if c = '}' ∧ fence.isPrefixOf (s.dropWhile isSpace) then some [c] else (fenceBody s).map fun t => c :: t

/-- The object of a fenced block that begins here. -/
def fencedHere (s : List Char) : Option (List Char) := do
  let s ← expect fence s
  let s := ((expect "json".toList s).getD s).dropWhile isSpace
  if s.head? = some '{' then fenceBody s else none

/-- The group of the first match of the pattern of a fenced block. -/
def fenced : List Char → Option (List Char)
  | [] => none
  | c :: s => (fencedHere (c :: s)).or (fenced s)

/-- From the first opening brace to the last closing one. -/
def braced (s : List Char) : Option (List Char) :=
  let t := (s.dropWhile (· ≠ '{')).rdropWhile (· ≠ '}')
  if t = [] then none else some t

/-- `_parse_json` of the judges, `_parse_response` of the rewriter and of the planner. -/
def parseJson (depth : Nat) (text : String) : JsonValue :=
  let body := (strip text).toList
  let read (s : List Char) : Option JsonValue := loads depth (String.ofList s)
  (((read body).or ((fenced body).bind read)).or ((braced body).bind read)).getD (.obj [])

/-! ## Members and conversions -/

/-- The members, where `isinstance(parsed, dict)`. -/
def asDict : JsonValue → Option (List (String × JsonValue))
  | .obj members => some members
  | _ => none

/-- `parsed.get(name)`; the last of equal names counts. -/
def get (members : List (String × JsonValue)) (name : String) : JsonValue :=
  (members.reverse.lookup name).getD .null

/-- `name in parsed` -/
def has (members : List (String × JsonValue)) (name : String) : Bool := members.any fun m => m.1 = name

/-- `bool(v)` -/
def truthy : JsonValue → Bool
  | .null => false
  | .bool b => b
  | .int n => n ≠ 0
  | .float x => x ≠ .finite 0
  | .str s => s ≠ ""
  | .arr xs => !xs.isEmpty
  | .obj members => !members.isEmpty

/-- `v or d` -/
def orElse (v d : JsonValue) : JsonValue := if truthy v then v else d

/-- `v[:n]` -/
def slice (n : Nat) : JsonValue → Except PyError JsonValue
  | .str s => .ok (.str (clip n s))
  | .arr xs => .ok (.arr (xs.take n))
  | _ => .error .typeError

/-- `v.strip()` -/
def stripped : JsonValue → Except PyError String
  | .str s => .ok (strip s)
  | _ => .error .attributeError

variable (u : Unicode)

/-- `float(v)` -/
def toFloat : JsonValue → Except PyError Double
  | .bool b => .ok (.finite (if b then 1 else 0))
  | .int n => if doubleLimit ≤ |n| then .error .overflowError else .ok (.finite (roundDouble n))
  | .float x => .ok x
  | .str s => (floatOfString u s).elim (.error .valueError) .ok
  | _ => .error .typeError

/-- `int(v)` -/
def toInt : JsonValue → Except PyError Int
  | .bool b => .ok (if b then 1 else 0)
  | .int n => .ok n
  | .float (.finite q) => .ok (q.num.tdiv q.den)
  | .float (.infinite _) => .error .overflowError
  | .float .nan => .error .valueError
  | .str s => (intOfString u s).elim (.error .valueError) .ok
  | _ => .error .typeError

/-- `a / b`, where `b` is positive -/
def divide (a b : Int) : Except PyError ℚ :=
  if (doubleLimit : ℚ) ≤ |(a : ℚ) / b| then .error .overflowError else .ok (roundDouble (a / b))

/-- `max(0.0, min(1.0, x))` -/
def clampUnit : Double → ℚ
  | .finite q => max 0 (min 1 q)
  | .infinite negative => if negative then 0 else 1
  | .nan => 1

/-- `_clamp01` -/
def clamp01 (v : JsonValue) : Except PyError ℚ :=
  match toFloat u v with
  | .ok x => .ok (clampUnit x)
  | .error .typeError => .ok 0
  | .error .valueError => .ok 0
  | .error e => .error e

/-! ## Which conversions raise -/

/-- `float` has room for it. -/
def FitsFloat : JsonValue → Prop
  | .int n => |n| < doubleLimit
  | _ => True

/-- Empty, or a string. -/
def IsText (v : JsonValue) : Prop := truthy v → ∃ s, v = .str s

/-- Empty, or a string or a list. -/
def IsSliceable (v : JsonValue) : Prop := truthy v → (∃ s, v = .str s) ∨ ∃ xs, v = .arr xs

variable {u} {v : JsonValue}

theorem clampUnit_mem (x : Double) : 0 ≤ clampUnit x ∧ clampUnit x ≤ 1 := by
  cases x with
  | finite q => exact ⟨le_max_left _ _, max_le zero_le_one (min_le_left _ _)⟩
  | infinite negative => cases negative <;> simp [clampUnit]
  | nan => exact ⟨zero_le_one, le_refl 1⟩

theorem clamp01_mem {q : ℚ} (h : clamp01 u v = .ok q) : 0 ≤ q ∧ q ≤ 1 := by
  unfold clamp01 at h
  split at h
  · cases h
    exact clampUnit_mem _
  · cases h
    exact ⟨le_refl 0, zero_le_one⟩
  · cases h
    exact ⟨le_refl 0, zero_le_one⟩
  · cases h

theorem clamp01_isOk_iff : (∃ q, clamp01 u v = .ok q) ↔ FitsFloat v := by
  cases v with
  | int n =>
      by_cases hn : doubleLimit ≤ |n|
      · have hfloat : toFloat u (.int n) = .error .overflowError := if_pos hn
        unfold clamp01
        rw [hfloat]
        constructor
        · rintro ⟨q, hq⟩
          cases hq
        · intro h
          exact absurd hn (not_le.2 h)
      · have hfloat : toFloat u (.int n) = .ok (.finite (roundDouble n)) := if_neg hn
        unfold clamp01
        rw [hfloat]
        exact ⟨fun _ => not_le.1 hn, fun _ => ⟨_, rfl⟩⟩
  | str s =>
      have hfloat : toFloat u (.str s) = (floatOfString u s).elim (.error .valueError) .ok := rfl
      refine ⟨fun _ => trivial, fun _ => ?_⟩
      unfold clamp01
      rw [hfloat]
      cases floatOfString u s with
      | none => exact ⟨_, rfl⟩
      | some x => exact ⟨_, rfl⟩
  | null => exact ⟨fun _ => trivial, fun _ => ⟨_, rfl⟩⟩
  | bool b => exact ⟨fun _ => trivial, fun _ => ⟨_, rfl⟩⟩
  | float x => exact ⟨fun _ => trivial, fun _ => ⟨_, rfl⟩⟩
  | arr xs => exact ⟨fun _ => trivial, fun _ => ⟨_, rfl⟩⟩
  | obj members => exact ⟨fun _ => trivial, fun _ => ⟨_, rfl⟩⟩

/-- What holds of the default holds of `v or d` where it holds of a truthy `v`. -/
theorem orElse_iff {d : JsonValue} (P : JsonValue → Prop) (hd : P d) : P (orElse v d) ↔ (truthy v → P v) := by
  unfold orElse
  by_cases hv : truthy v = true
  · rw [if_pos hv]
    exact ⟨fun h _ => h, fun h => h hv⟩
  · rw [if_neg hv]
    exact ⟨fun _ h => absurd h hv, fun _ => hd⟩

/-- `(v or "")[:n]` -/
theorem slice_orElse_isOk_iff (n : Nat) : (∃ w, slice n (orElse v (.str "")) = .ok w) ↔ IsSliceable v := by
  refine (orElse_iff (fun v => ∃ w, slice n v = .ok w) ⟨_, rfl⟩).trans (imp_congr_right fun _ => ?_)
  constructor
  · rintro ⟨w, hw⟩
    unfold slice at hw
    split at hw
    · exact .inl ⟨_, rfl⟩
    · exact .inr ⟨_, rfl⟩
    · cases hw
  · rintro (⟨s, rfl⟩ | ⟨xs, rfl⟩)
    · exact ⟨_, rfl⟩
    · exact ⟨_, rfl⟩

/-- `(v or "")[:n]` is a string. -/
theorem slice_orElse_isStr_iff (n : Nat) :
    (∃ s, slice n (orElse v (.str "")) = .ok (.str s)) ↔ IsText v := by
  refine (orElse_iff (fun v => ∃ s, slice n v = .ok (.str s)) ⟨_, rfl⟩).trans (imp_congr_right fun _ => ?_)
  constructor
  · rintro ⟨w, hw⟩
    unfold slice at hw
    split at hw
    · exact ⟨_, rfl⟩
    · cases hw
    · cases hw
  · rintro ⟨s, rfl⟩
    exact ⟨_, rfl⟩

/-- What `(v or "")[:n]` is: the start of a string, or of a list that is not empty. -/
theorem slice_orElse_cases {n : Nat} (hn : 0 < n) {w : JsonValue} (h : slice n (orElse v (.str "")) = .ok w) :
    (∃ s, w = .str s) ∨ ∃ x xs, w = .arr (x :: xs) := by
  unfold slice at h
  split at h
  · cases h
    exact .inl ⟨_, rfl⟩
  · next xs heq =>
      cases h
      obtain ⟨n, rfl⟩ := Nat.exists_eq_succ_of_ne_zero hn.ne'
      cases xs with
      | cons x xs => exact .inr ⟨x, xs.take n, rfl⟩
      | nil =>
          -- an empty list is replaced
          unfold orElse at heq
          split at heq
          · next htruthy =>
              rw [heq] at htruthy
              cases htruthy
          · cases heq
  · cases h

/-- `x or "d"` is a string where `x` is. -/
theorem orElse_isStr_iff {n : Nat} (hn : 0 < n) {w : JsonValue} {d : String}
    (h : slice n (orElse v (.str "")) = .ok w) : (∃ s, orElse w (.str d) = .str s) ↔ ∃ s, w = .str s := by
  rcases slice_orElse_cases hn h with ⟨s, rfl⟩ | ⟨x, xs, rfl⟩
  · refine ⟨fun _ => ⟨s, rfl⟩, fun _ => ?_⟩
    unfold orElse
    split
    · exact ⟨s, rfl⟩
    · exact ⟨d, rfl⟩
  · constructor
    · rintro ⟨s, hs⟩
      cases hs
    · rintro ⟨s, hs⟩
      cases hs

/-- `(v or "").strip()` -/
theorem stripped_orElse_isOk_iff : (∃ s, stripped (orElse v (.str "")) = .ok s) ↔ IsText v := by
  refine (orElse_iff (fun v => ∃ s, stripped v = .ok s) ⟨_, rfl⟩).trans (imp_congr_right fun _ => ?_)
  constructor
  · rintro ⟨w, hw⟩
    unfold stripped at hw
    split at hw
    · exact ⟨_, rfl⟩
    · cases hw
  · rintro ⟨s, rfl⟩
    exact ⟨_, rfl⟩

end OpsKnowledge.Replies
