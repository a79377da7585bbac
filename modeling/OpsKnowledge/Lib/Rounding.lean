import Mathlib.Data.Rat.Floor
import Mathlib.Tactic.Linarith

/-!
# Rounding to the nearest

Rationals are rounded to integers and to decimals; a tie goes to the even neighbour.
-/

namespace OpsKnowledge.Lib

def roundHalfEven (x : ℚ) : ℤ :=
  if x - ⌊x⌋ < 1 / 2 then ⌊x⌋
  else if 1 / 2 < x - ⌊x⌋ then ⌊x⌋ + 1
  else if ⌊x⌋ % 2 = 0 then ⌊x⌋
  else ⌊x⌋ + 1

def roundDecimals (digits : Nat) (x : ℚ) : ℚ :=
  roundHalfEven (x * 10 ^ digits) / 10 ^ digits

/-- The two candidates. -/
theorem roundHalfEven_cases (x : ℚ) : roundHalfEven x = ⌊x⌋ ∨ roundHalfEven x = ⌊x⌋ + 1 := by
  unfold roundHalfEven
  split
  · exact .inl rfl
  · split
    · exact .inr rfl
    · split
      · exact .inl rfl
      · exact .inr rfl

/-- An even number is the rounding of all that is at most a half away. -/
theorem roundHalfEven_eq_iff_of_even {x : ℚ} {n : ℤ} (hn : n % 2 = 0) :
    roundHalfEven x = n ↔ (n : ℚ) - 1 / 2 ≤ x ∧ x ≤ n + 1 / 2 := by
  have hfloor : (⌊x⌋ : ℚ) ≤ x := Int.floor_le x
  have hlt : x < ⌊x⌋ + 1 := Int.lt_floor_add_one x
  constructor
  · intro h
    subst h
    unfold roundHalfEven at hn ⊢
    split
    · constructor <;> linarith
    · split
      · push_cast
        constructor <;> linarith
      · split
        · constructor <;> linarith
        · push_cast
          constructor <;> linarith
  · rintro ⟨hlow, hhigh⟩
    have hle : ⌊x⌋ ≤ n := by
      have hcast : (⌊x⌋ : ℚ) < n + 1 := by linarith
      have : ⌊x⌋ < n + 1 := by exact_mod_cast hcast
      omega
    have hge : n ≤ ⌊x⌋ + 1 := by
      have hcast : (n : ℚ) < ⌊x⌋ + 2 := by linarith
      have : n < ⌊x⌋ + 2 := by exact_mod_cast hcast
      omega
    unfold roundHalfEven
    rcases (by omega : n = ⌊x⌋ ∨ n = ⌊x⌋ + 1) with rfl | hnext
    · split
      · rfl
      · next hhalf =>
          have hle : ¬ 1 / 2 < x - ⌊x⌋ := by linarith
          rw [if_neg hle]
    · have hcast : (n : ℚ) = ⌊x⌋ + 1 := by rw [hnext]; push_cast; rfl
      rw [if_neg (by linarith)]
      split
      · exact hnext.symm
      · rw [if_neg (by omega)]
        exact hnext.symm

theorem roundHalfEven_eq_floor_iff (x : ℚ) :
    roundHalfEven x = ⌊x⌋ ↔ x - ⌊x⌋ ≤ 1 / 2 ∧ (x - ⌊x⌋ = 1 / 2 → ⌊x⌋ % 2 = 0) := by
  unfold roundHalfEven
  split
  · next hlt => exact ⟨fun _ => ⟨hlt.le, fun heq => absurd hlt (by linarith)⟩, fun _ => rfl⟩
  · next hge =>
      split
      · next hgt => exact ⟨fun h => by omega, fun h => absurd h.1 (not_le.2 hgt)⟩
      · next hle =>
          have heq : x - ⌊x⌋ = 1 / 2 := by linarith
          split
          · next heven => exact ⟨fun _ => ⟨heq.le, fun _ => heven⟩, fun _ => rfl⟩
          · next hodd => exact ⟨fun h => by omega, fun h => absurd (h.2 heq) hodd⟩

theorem roundHalfEven_mono {x y : ℚ} (h : x ≤ y) : roundHalfEven x ≤ roundHalfEven y := by
  have hfloor : ⌊x⌋ ≤ ⌊y⌋ := Int.floor_le_floor h
  have hx := roundHalfEven_cases x
  have hy := roundHalfEven_cases y
  by_cases heq : ⌊x⌋ = ⌊y⌋
  · -- between the same two integers
    have hdown : roundHalfEven y = ⌊y⌋ → roundHalfEven x = ⌊x⌋ := by
      intro hround
      have hcond := (roundHalfEven_eq_floor_iff y).1 hround
      rw [roundHalfEven_eq_floor_iff, heq]
      constructor
      · linarith [hcond.1]
      · intro hhalf
        exact hcond.2 (le_antisymm hcond.1 (by linarith))
    omega
  · omega

theorem roundHalfEven_intCast (n : ℤ) : roundHalfEven n = n := by
  unfold roundHalfEven
  rw [Int.floor_intCast, sub_self, if_pos (by norm_num)]

theorem roundHalfEven_neg (x : ℚ) : roundHalfEven (-x) = -roundHalfEven x := by
  by_cases hx : (⌊x⌋ : ℚ) = x
  · rw [← hx, ← Int.cast_neg, roundHalfEven_intCast, roundHalfEven_intCast]
  · have hfloor : ⌊-x⌋ = -⌊x⌋ - 1 := by
      rw [Int.floor_eq_iff]
      push_cast
      have hle : (⌊x⌋ : ℚ) ≤ x := Int.floor_le x
      have hlt : x < ⌊x⌋ + 1 := Int.lt_floor_add_one x
      have hne : (⌊x⌋ : ℚ) < x := lt_of_le_of_ne hle hx
      constructor <;> linarith
    have hup := roundHalfEven_eq_floor_iff x
    have hdown := roundHalfEven_eq_floor_iff (-x)
    have hsub : -x - ⌊-x⌋ = 1 - (x - ⌊x⌋) := by
      rw [hfloor]
      push_cast
      ring
    rw [hsub] at hdown
    have hopposite : roundHalfEven (-x) = ⌊-x⌋ ↔ roundHalfEven x ≠ ⌊x⌋ := by
      rw [Ne, hup, hdown]
      constructor
      · rintro ⟨hle, heven⟩ ⟨hle', heven'⟩
        have hhalf : x - ⌊x⌋ = 1 / 2 := by linarith
        have h₁ := heven (by linarith)
        have h₂ := heven' hhalf
        omega
      · intro h
        constructor
        · by_contra hgt
          exact h ⟨by linarith, fun heq => absurd hgt (by linarith)⟩
        · intro hhalf
          by_contra hodd
          exact h ⟨by linarith, fun _ => by omega⟩
    have hcases := roundHalfEven_cases x
    have hcases' := roundHalfEven_cases (-x)
    omega

/-- Below an even number and its half. -/
theorem roundHalfEven_le_iff_of_even {x : ℚ} {n : ℤ} (hn : n % 2 = 0) :
    roundHalfEven x ≤ n ↔ x ≤ n + 1 / 2 := by
  constructor
  · intro h
    by_contra hx
    have hle : n ≤ roundHalfEven x := by
      have hmono : roundHalfEven n ≤ roundHalfEven x := roundHalfEven_mono (by linarith)
      rwa [roundHalfEven_intCast] at hmono
    exact hx ((roundHalfEven_eq_iff_of_even hn).1 (le_antisymm h hle)).2
  · intro h
    have htie : roundHalfEven ((n : ℚ) + 1 / 2) = n := by
      rw [roundHalfEven_eq_iff_of_even hn]
      constructor <;> linarith
    rw [← htie]
    exact roundHalfEven_mono h

/-- As above, for a decimal whose last digit is even. -/
theorem roundDecimals_eq_iff_of_even (digits : Nat) (x : ℚ) {n : ℤ} (hn : n % 2 = 0) :
    roundDecimals digits x = n / 10 ^ digits ↔
      (n : ℚ) - 1 / 2 ≤ x * 10 ^ digits ∧ x * 10 ^ digits ≤ n + 1 / 2 := by
  unfold roundDecimals
  have hpos : (0 : ℚ) < 10 ^ digits := by positivity
  rw [div_left_inj' hpos.ne', Int.cast_inj]
  exact roundHalfEven_eq_iff_of_even hn

@[simp] theorem roundDecimals_zero (digits : Nat) : roundDecimals digits 0 = 0 := by
  have hround := roundDecimals_eq_iff_of_even digits 0 (show (0 : ℤ) % 2 = 0 from rfl)
  rw [Int.cast_zero, zero_div] at hround
  rw [hround, zero_mul]
  norm_num

end OpsKnowledge.Lib
