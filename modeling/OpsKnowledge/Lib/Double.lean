import Mathlib.Data.Int.Log
import OpsKnowledge.Lib.Rounding

/-!
# Double precision

The double nearest to a rational, the even one at a tie. The doubles have no upper end here:
what is at least `doubleLimit` is for the caller to look after.
-/

namespace OpsKnowledge.Lib

/-- The nearest multiple of `2 ^ k`. -/
def roundAt (k : ℤ) (x : ℚ) : ℚ := roundHalfEven (x / 2 ^ k) * 2 ^ k

/-- The exponent of the last place of the doubles around `x`. -/
def lastPlace (x : ℚ) : ℤ := if x = 0 then -1074 else max (Int.log 2 |x| - 52) (-1074)

def roundDouble (x : ℚ) : ℚ := roundAt (lastPlace x) x

/-- From here on a number is nearer to `2 ^ 1024` than to the greatest double. -/
def doubleLimit : ℤ := 2 ^ 1024 - 2 ^ 970

/-- The values of a float. -/
inductive Double where
  | finite (q : ℚ)
  | infinite (negative : Bool)
  | nan
  deriving DecidableEq

/-- What a decimal is read as. -/
def Double.ofRat (q : ℚ) : Double :=
  if (doubleLimit : ℚ) ≤ |q| then .infinite (q < 0) else .finite (roundDouble q)

/-- A sum of floats, from the left. -/
def floatSum (xs : List ℚ) : ℚ := xs.foldl (fun acc x => roundDouble (acc + x)) 0

/-! ## Multiples of a power of two -/

def OnGrid (k : ℤ) (z : ℚ) : Prop := ∃ n : ℤ, z = n * 2 ^ k

variable {k m : ℤ} {x y z : ℚ}

theorem two_zpow_pos (k : ℤ) : (0 : ℚ) < 2 ^ k := zpow_pos (by norm_num) k

theorem OnGrid.of_le (h : OnGrid m z) (hk : k ≤ m) : OnGrid k z := by
  obtain ⟨n, rfl⟩ := h
  refine ⟨n * 2 ^ (m - k).toNat, ?_⟩
  have hpow : (2 : ℚ) ^ m = 2 ^ (m - k).toNat * 2 ^ k := by
    rw [← zpow_natCast, ← zpow_add₀ (by norm_num), Int.toNat_of_nonneg (by omega), Int.sub_add_cancel]
  push_cast
  rw [hpow, mul_assoc]

theorem OnGrid.neg (h : OnGrid k z) : OnGrid k (-z) := by
  obtain ⟨n, rfl⟩ := h
  exact ⟨-n, by push_cast; ring⟩

theorem onGrid_zpow (m : ℤ) : OnGrid m (2 ^ m) := ⟨1, by simp⟩

theorem onGrid_intCast (n : ℤ) : OnGrid 0 n := ⟨n, by simp⟩

theorem roundAt_mono (k : ℤ) (h : x ≤ y) : roundAt k x ≤ roundAt k y := by
  have hpos : (0 : ℚ) < 2 ^ k := two_zpow_pos k
  have hround : roundHalfEven (x / 2 ^ k) ≤ roundHalfEven (y / 2 ^ k) :=
    roundHalfEven_mono (div_le_div_of_nonneg_right h hpos.le)
  exact mul_le_mul_of_nonneg_right (Int.cast_le.2 hround) hpos.le

theorem roundAt_of_onGrid (h : OnGrid k z) : roundAt k z = z := by
  obtain ⟨n, rfl⟩ := h
  have hpos : (0 : ℚ) < 2 ^ k := two_zpow_pos k
  unfold roundAt
  rw [mul_div_cancel_right₀ _ hpos.ne', roundHalfEven_intCast]

theorem roundAt_le (hz : OnGrid k z) (h : x ≤ z) : roundAt k x ≤ z := by
  rw [← roundAt_of_onGrid hz]
  exact roundAt_mono k h

theorem le_roundAt (hz : OnGrid k z) (h : z ≤ x) : z ≤ roundAt k x := by
  rw [← roundAt_of_onGrid hz]
  exact roundAt_mono k h

/-! ## The last place -/

theorem le_lastPlace (x : ℚ) : -1074 ≤ lastPlace x := by
  unfold lastPlace
  split
  · exact le_refl _
  · exact le_max_right _ _

theorem lastPlace_le_of_lt (hm : -1022 ≤ m) (h : |x| < 2 ^ (m + 1)) : lastPlace x ≤ m - 52 := by
  unfold lastPlace
  split
  · omega
  · next hx =>
      have hlog := (Int.lt_zpow_iff_log_lt Nat.one_lt_two (abs_pos.2 hx)).1 (by exact_mod_cast h)
      omega

theorem lastPlace_of_mem (hm : -1022 ≤ m) (hlow : 2 ^ m ≤ |x|) (hhigh : |x| < 2 ^ (m + 1)) :
    lastPlace x = m - 52 := by
  have hx : x ≠ 0 := by
    rintro rfl
    rw [abs_zero] at hlow
    exact absurd hlow (not_le.2 (two_zpow_pos m))
  have hlog : m ≤ Int.log 2 |x| :=
    (Int.zpow_le_iff_le_log Nat.one_lt_two (abs_pos.2 hx)).1 (by exact_mod_cast hlow)
  have hle := lastPlace_le_of_lt hm hhigh
  have hge : Int.log 2 |x| - 52 ≤ lastPlace x := by
    unfold lastPlace
    rw [if_neg hx]
    exact le_max_left _ _
  omega

/-- A power of two lies between numbers with different last places. -/
theorem exists_between_lastPlace (h : lastPlace x < lastPlace y) :
    ∃ m, lastPlace y ≤ m ∧ |x| < 2 ^ m ∧ 2 ^ m ≤ |y| := by
  have hlow := le_lastPlace x
  have hy : y ≠ 0 := by
    rintro rfl
    have hzero : lastPlace 0 = -1074 := if_pos rfl
    omega
  have hplace : lastPlace y = max (Int.log 2 |y| - 52) (-1074) := if_neg hy
  refine ⟨Int.log 2 |y|, by omega, ?_, ?_⟩
  · by_cases hx : x = 0
    · rw [hx, abs_zero]
      exact two_zpow_pos _
    · have hplacex : lastPlace x = max (Int.log 2 |x| - 52) (-1074) := if_neg hx
      have hlog : Int.log 2 |x| < Int.log 2 |y| := by omega
      exact_mod_cast (Int.lt_zpow_iff_log_lt Nat.one_lt_two (abs_pos.2 hx)).2 hlog
  · exact_mod_cast Int.zpow_log_le_self Nat.one_lt_two (abs_pos.2 hy)

/-! ## Rounding -/

theorem roundDouble_mono (h : x ≤ y) : roundDouble x ≤ roundDouble y := by
  unfold roundDouble
  rcases lt_trichotomy (lastPlace x) (lastPlace y) with hlt | heq | hgt
  · obtain ⟨m, hm, hx, hy⟩ := exists_between_lastPlace hlt
    have hxm : x ≤ 2 ^ m := (le_abs_self x).trans hx.le
    have hmy : 2 ^ m ≤ y := by
      rcases le_abs.1 hy with hy | hy
      · exact hy
      · linarith [neg_abs_le x]
    exact (roundAt_le ((onGrid_zpow m).of_le (by omega)) hxm).trans
      (le_roundAt ((onGrid_zpow m).of_le hm) hmy)
  · rw [heq]
    exact roundAt_mono _ h
  · obtain ⟨m, hm, hy, hx⟩ := exists_between_lastPlace hgt
    have hmy : -2 ^ m ≤ y := by linarith [neg_abs_le y]
    have hxm : x ≤ -2 ^ m := by
      rcases le_abs.1 hx with hx | hx
      · linarith [le_abs_self y]
      · linarith
    exact (roundAt_le ((onGrid_zpow m).of_le hm).neg hxm).trans
      (le_roundAt ((onGrid_zpow m).of_le (by omega)).neg hmy)

theorem roundDouble_zpow (hm : -1022 ≤ m) : roundDouble (2 ^ m) = 2 ^ m := by
  have hpos : (0 : ℚ) < 2 ^ m := two_zpow_pos m
  have hplace : lastPlace (2 ^ m) ≤ m - 52 := by
    apply lastPlace_le_of_lt hm
    rw [abs_of_pos hpos]
    exact zpow_lt_zpow_right₀ (by norm_num) (by omega)
  exact roundAt_of_onGrid ((onGrid_zpow m).of_le (by omega))

@[simp] theorem roundDouble_zero : roundDouble 0 = 0 := roundAt_of_onGrid ⟨0, by simp⟩

@[simp] theorem roundDouble_one : roundDouble 1 = 1 := by
  have hone := roundDouble_zpow (show (-1022 : ℤ) ≤ 0 by omega)
  rwa [zpow_zero] at hone

theorem roundDouble_natCast {n : Nat} (hn : n ≤ 2 ^ 53) : roundDouble n = n := by
  rcases lt_or_eq_of_le hn with hlt | rfl
  · have habs : |(n : ℚ)| < 2 ^ ((52 : ℤ) + 1) := by
      rw [abs_of_nonneg (Nat.cast_nonneg n)]
      exact_mod_cast hlt
    have hplace : lastPlace n ≤ 52 - 52 := lastPlace_le_of_lt (by omega) habs
    exact roundAt_of_onGrid ((onGrid_intCast n).of_le (by omega))
  · have hpow := roundDouble_zpow (show (-1022 : ℤ) ≤ 53 by omega)
    exact_mod_cast hpow

theorem roundDouble_nonneg (h : 0 ≤ x) : 0 ≤ roundDouble x := by
  have hmono := roundDouble_mono h
  rwa [roundDouble_zero] at hmono

theorem one_le_roundDouble (h : 1 ≤ x) : 1 ≤ roundDouble x := by
  have hmono := roundDouble_mono h
  rwa [roundDouble_one] at hmono

theorem roundDouble_le_one (h : x ≤ 1) : roundDouble x ≤ 1 := by
  have hmono := roundDouble_mono h
  rwa [roundDouble_one] at hmono

theorem roundDouble_neg (x : ℚ) : roundDouble (-x) = -roundDouble x := by
  have hplace : lastPlace (-x) = lastPlace x := by
    unfold lastPlace
    rw [abs_neg]
    simp only [neg_eq_zero]
  unfold roundDouble roundAt
  rw [hplace, neg_div, roundHalfEven_neg]
  push_cast
  ring

/-- What rounds to at most a power of two. -/
theorem roundDouble_le_zpow_iff (hm : -1022 ≤ m) : roundDouble x ≤ 2 ^ m ↔ x ≤ 2 ^ m + 2 ^ (m - 53) := by
  have hpos : (0 : ℚ) < 2 ^ m := two_zpow_pos m
  have hunit : (0 : ℚ) < 2 ^ (m - 52) := two_zpow_pos (m - 52)
  have hnext : (2 : ℚ) ^ (m + 1) = 2 * 2 ^ m := by
    rw [zpow_add_one₀ (by norm_num), mul_comm]
  have hwhole : (2 : ℚ) ^ m = 2 ^ 52 * 2 ^ (m - 52) := by
    rw [← zpow_natCast, ← zpow_add₀ (by norm_num)]
    congr 1
    push_cast
    ring
  have hhalf : (2 : ℚ) ^ (m - 53) = 1 / 2 * 2 ^ (m - 52) := by
    rw [show m - 52 = m - 53 + 1 by ring, zpow_add_one₀ (by norm_num)]
    ring
  have hinside : 2 ^ m ≤ x → x < 2 ^ (m + 1) → (roundDouble x ≤ 2 ^ m ↔ x ≤ 2 ^ m + 2 ^ (m - 53)) := by
    intro hlow hhigh
    have hplace : lastPlace x = m - 52 := by
      apply lastPlace_of_mem hm
      · rwa [abs_of_pos (hpos.trans_le hlow)]
      · rwa [abs_of_pos (hpos.trans_le hlow)]
    unfold roundDouble roundAt
    rw [hplace, hwhole, hhalf, mul_le_mul_iff_left₀ hunit, ← add_mul, ← div_le_iff₀ hunit]
    have heven : (2 ^ 52 : ℤ) % 2 = 0 := by norm_num
    exact_mod_cast roundHalfEven_le_iff_of_even (x := x / 2 ^ (m - 52)) heven
  by_cases hlow : 2 ^ m ≤ x
  · by_cases hhigh : x < 2 ^ (m + 1)
    · exact hinside hlow hhigh
    · have hround : 2 ^ (m + 1) ≤ roundDouble x := by
        rw [← roundDouble_zpow (show -1022 ≤ m + 1 by omega)]
        exact roundDouble_mono (not_lt.1 hhigh)
      constructor
      · intro h
        linarith
      · intro h
        linarith
  · constructor
    · intro _
      linarith [hhalf, hunit]
    · intro _
      rw [← roundDouble_zpow hm]
      exact roundDouble_mono (not_le.1 hlow).le

theorem neg_zpow_le_roundDouble_iff (hm : -1022 ≤ m) :
    -2 ^ m ≤ roundDouble x ↔ -(2 ^ m + 2 ^ (m - 53)) ≤ x := by
  have hle := roundDouble_le_zpow_iff (x := -x) hm
  rw [roundDouble_neg] at hle
  constructor
  · intro h
    linarith [hle.1 (by linarith)]
  · intro h
    linarith [hle.2 (by linarith)]

theorem doubleLimit_pos : 0 < doubleLimit := sub_pos.2 (pow_lt_pow_right₀ one_lt_two (by norm_num))

/-! ## Sums -/

variable {xs ys : List ℚ} {acc acc' : ℚ}

theorem foldl_roundDouble_mono (h : List.Forall₂ (· ≤ ·) xs ys) (hacc : acc ≤ acc') :
    xs.foldl (fun a x => roundDouble (a + x)) acc ≤ ys.foldl (fun a x => roundDouble (a + x)) acc' := by
  induction h generalizing acc acc' with
  | nil => exact hacc
  | cons hxy _ ih => exact ih (roundDouble_mono (add_le_add hacc hxy))

theorem floatSum_mono (h : List.Forall₂ (· ≤ ·) xs ys) : floatSum xs ≤ floatSum ys :=
  foldl_roundDouble_mono h (le_refl 0)

/-- A bound that no later term takes away. -/
theorem le_foldl_roundDouble {b : ℚ} (hb : roundDouble b = b) (hacc : b ≤ acc) (hxs : ∀ x ∈ xs, 0 ≤ x) :
    b ≤ xs.foldl (fun a x => roundDouble (a + x)) acc := by
  induction xs generalizing acc with
  | nil => exact hacc
  | cons x xs ih =>
      rw [List.forall_mem_cons] at hxs
      have hstep : b ≤ roundDouble (acc + x) := by
        rw [← hb]
        exact roundDouble_mono (by linarith [hxs.1])
      exact ih hstep hxs.2

theorem floatSum_nonneg (hxs : ∀ x ∈ xs, 0 ≤ x) : 0 ≤ floatSum xs :=
  le_foldl_roundDouble roundDouble_zero (le_refl 0) hxs

theorem foldl_roundDouble_le {k : Nat} (hk : acc ≤ k) (hacc : acc ≤ 2 ^ 53) (hxs : ∀ x ∈ xs, x ≤ 1) :
    xs.foldl (fun a x => roundDouble (a + x)) acc ≤ (k + xs.length : Nat) ∧
      xs.foldl (fun a x => roundDouble (a + x)) acc ≤ 2 ^ 53 := by
  induction xs generalizing acc k with
  | nil => exact ⟨hk, hacc⟩
  | cons x xs ih =>
      rw [List.forall_mem_cons] at hxs
      have hstep : roundDouble (acc + x) ≤ (k + 1 : Nat) ∧ roundDouble (acc + x) ≤ 2 ^ 53 := by
        by_cases hsmall : k + 1 ≤ 2 ^ 53
        · have hcount : roundDouble (acc + x) ≤ (k + 1 : Nat) := by
            rw [← roundDouble_natCast hsmall]
            apply roundDouble_mono
            push_cast
            linarith [hxs.1]
          have hcap : ((k + 1 : Nat) : ℚ) ≤ 2 ^ 53 := by exact_mod_cast hsmall
          exact ⟨hcount, hcount.trans hcap⟩
        · -- the sum stays at the first double whose successor is two further
          have hcap : roundDouble (acc + x) ≤ 2 ^ 53 := by
            have hiff := roundDouble_le_zpow_iff (x := acc + x) (show (-1022 : ℤ) ≤ 53 by omega)
            norm_num at hiff hacc ⊢
            rw [hiff]
            linarith [hxs.1]
          have hcount : ((2 : ℚ) ^ 53) ≤ (k + 1 : Nat) := by
            exact_mod_cast (not_le.1 hsmall).le
          exact ⟨hcap.trans hcount, hcap⟩
      rw [List.length_cons, ← Nat.add_assoc, Nat.add_right_comm]
      exact ih hstep.1 hstep.2 hxs.2

/-- A sum of numbers up to one is at most their count, as a float. -/
theorem floatSum_le_length (hxs : ∀ x ∈ xs, x ≤ 1) : floatSum xs ≤ roundDouble xs.length := by
  have hzero : (0 : ℚ) ≤ (0 : Nat) := by simp
  have hbounds := foldl_roundDouble_le hzero (by positivity) hxs
  rw [Nat.zero_add] at hbounds
  by_cases hsmall : xs.length ≤ 2 ^ 53
  · rw [roundDouble_natCast hsmall]
    exact hbounds.1
  · have hcap : roundDouble ((2 ^ 53 : Nat) : ℚ) ≤ roundDouble xs.length :=
      roundDouble_mono (by exact_mod_cast (not_le.1 hsmall).le)
    rw [roundDouble_natCast (le_refl _)] at hcap
    push_cast at hcap
    exact hbounds.2.trans hcap

end OpsKnowledge.Lib
