import Mathlib.Algebra.GroupWithZero.Nat
import Mathlib.Data.List.DropRight
import Mathlib.Data.List.Nodup
import Mathlib.Tactic.Common

/-!
# Longest suffixes

The longest suffix of a list that satisfies a predicate, and the loop that walks a list
from its end and stops at the first element that no longer fits a budget.
-/

namespace OpsKnowledge.Lib

variable {α : Type*} {P : List α → Prop} {xs s t : List α}

structure IsLongestSuffix (P : List α → Prop) (xs s : List α) : Prop where
  suffix : s <:+ xs
  holds : P s
  longest : ∀ t, t <:+ xs → P t → t.length ≤ s.length

theorem IsLongestSuffix.unique (hs : IsLongestSuffix P xs s) (ht : IsLongestSuffix P xs t) :
    s = t := by
  have hlen : s.length = t.length :=
    Nat.le_antisymm (ht.longest s hs.suffix hs.holds) (hs.longest t ht.suffix ht.holds)
  exact (List.suffix_of_suffix_length_le hs.suffix ht.suffix (by omega)).eq_of_length hlen

theorem suffix_rtake_iff (n : Nat) : t <:+ xs.rtake n ↔ t <:+ xs ∧ t.length ≤ n := by
  have hsub : xs.rtake n <:+ xs := List.drop_suffix _ _
  have hlen : (xs.rtake n).length = min n xs.length := by
    simp only [List.rtake, List.length_drop]
    omega
  constructor
  · intro h
    have hle := h.length_le
    exact ⟨h.trans hsub, by omega⟩
  · intro h
    have hle := h.1.length_le
    exact List.suffix_of_suffix_length_le h.1 hsub (by omega)

theorem getLast?_rtake {n : Nat} (hn : 0 < n) (xs : List α) :
    (xs.rtake n).getLast? = xs.getLast? := by
  rcases List.eq_nil_or_concat xs with rfl | ⟨front, x, rfl⟩
  · simp
  · have hlt : (front.concat x).length - n < (front.concat x).length := by
      simp only [List.length_concat]
      omega
    rw [List.rtake, List.getLast?_drop, if_neg (by omega)]

/-- A bound on the length is met by looking at the end of the list only. -/
theorem isLongestSuffix_rtake_iff (n : Nat) :
    IsLongestSuffix P (xs.rtake n) s ↔ IsLongestSuffix (fun t => t.length ≤ n ∧ P t) xs s := by
  constructor
  · intro h
    have hs := (suffix_rtake_iff n).1 h.suffix
    exact ⟨hs.1, ⟨hs.2, h.holds⟩, fun t ht hp => h.longest t ((suffix_rtake_iff n).2 ⟨ht, hp.1⟩) hp.2⟩
  · intro h
    refine ⟨(suffix_rtake_iff n).2 ⟨h.suffix, h.holds.1⟩, h.holds.2, ?_⟩
    intro t ht hp
    have ht := (suffix_rtake_iff n).1 ht
    exact h.longest t ht.1 ⟨ht.2, hp⟩

/-! ## Trimming to a budget -/

section Trim

variable (cost : α → Nat) (budget : Nat)

/-- The loop over the reversed list; `kept` is what it has taken and `used` what that costs. -/
def trimLoop : List α → Nat → List α → List α
  | [], _, kept => kept
  | x :: rest, used, kept =>
      if budget < used + cost x then kept else trimLoop rest (used + cost x) (x :: kept)

def trimSuffix (xs : List α) : List α := trimLoop cost budget xs.reverse 0 []

def FitsBudget (xs : List α) : Prop := (xs.map cost).sum ≤ budget

/-- The last element alone is over the budget. -/
def LastOverBudget (xs : List α) : Prop := ∀ x, xs.getLast? = some x → budget < cost x

variable {cost budget}

theorem FitsBudget.suffix (h : FitsBudget cost budget xs) (hs : s <:+ xs) :
    FitsBudget cost budget s := by
  obtain ⟨front, rfl⟩ := hs
  simp only [FitsBudget, List.map_append, List.sum_append] at h ⊢
  omega

theorem trimLoop_longest (rev : List α) : ∀ kept : List α, FitsBudget cost budget kept →
    IsLongestSuffix (FitsBudget cost budget) (rev.reverse ++ kept)
      (trimLoop cost budget rev (kept.map cost).sum kept) := by
  induction rev with
  | nil =>
      intro kept hkept
      exact ⟨List.suffix_append _ _, hkept, fun t ht _ => ht.length_le⟩
  | cons x rest ih =>
      intro kept hkept
      unfold trimLoop
      split
      · next hover =>
          refine ⟨List.suffix_append _ _, hkept, ?_⟩
          intro t ht hfits
          -- A longer suffix would contain the element that does not fit.
          by_contra hlong
          have hcons : (x :: kept) <:+ (x :: rest).reverse ++ kept := by simp
          have hsub : (x :: kept) <:+ t :=
            List.suffix_of_suffix_length_le hcons ht (by simp only [List.length_cons]; omega)
          have hcost := hfits.suffix hsub
          simp only [FitsBudget, List.map_cons, List.sum_cons] at hcost
          omega
      · next hroom =>
          have hkept' : FitsBudget cost budget (x :: kept) := by
            simp only [FitsBudget, List.map_cons, List.sum_cons]
            omega
          have hrec := ih (x :: kept) hkept'
          simp only [List.map_cons, List.sum_cons] at hrec
          rw [Nat.add_comm (kept.map cost).sum]
          simpa using hrec

theorem trimSuffix_longest (xs : List α) :
    IsLongestSuffix (FitsBudget cost budget) xs (trimSuffix cost budget xs) := by
  have hnil : FitsBudget cost budget ([] : List α) := by simp [FitsBudget]
  simpa [trimSuffix] using trimLoop_longest xs.reverse [] hnil

theorem eq_trimSuffix_iff : s = trimSuffix cost budget xs ↔
    IsLongestSuffix (FitsBudget cost budget) xs s := by
  constructor
  · intro h
    exact h ▸ trimSuffix_longest xs
  · intro h
    exact h.unique (trimSuffix_longest xs)

theorem trimSuffix_eq_nil_iff : trimSuffix cost budget xs = [] ↔ LastOverBudget cost budget xs := by
  have hspec : IsLongestSuffix (FitsBudget cost budget) xs (trimSuffix cost budget xs) :=
    trimSuffix_longest xs
  constructor
  · intro hnil x hx
    by_contra hroom
    have hone : [x] <:+ xs := by
      obtain ⟨front, rfl⟩ := List.getLast?_eq_some_iff.1 hx
      exact List.suffix_append _ _
    have hfits : FitsBudget cost budget [x] := by
      simp only [FitsBudget, List.map_cons, List.map_nil, List.sum_cons, List.sum_nil]
      omega
    have hle := hspec.longest [x] hone hfits
    simp [hnil] at hle
  · intro hover
    rcases List.eq_nil_or_concat (trimSuffix cost budget xs) with hnil | ⟨front, x, hx⟩
    · exact hnil
    · have hsuffix := hspec.suffix
      have hfits := hspec.holds
      rw [hx] at hsuffix hfits
      have hlast : xs.getLast? = some x := by
        obtain ⟨before, rfl⟩ := hsuffix
        simp
      have hlt := hover x hlast
      simp only [FitsBudget, List.concat_eq_append, List.map_append, List.sum_append, List.map_cons,
        List.map_nil, List.sum_cons, List.sum_nil] at hfits
      omega

theorem getLast?_trimSuffix (h : trimSuffix cost budget xs ≠ []) :
    (trimSuffix cost budget xs).getLast? = xs.getLast? := by
  have hspec : IsLongestSuffix (FitsBudget cost budget) xs (trimSuffix cost budget xs) :=
    trimSuffix_longest xs
  obtain ⟨front, hfront⟩ := hspec.suffix
  conv_rhs => rw [← hfront]
  rw [List.getLast?_append_of_ne_nil _ h]

/-- The loop looks at the costs only. -/
theorem trimSuffix_map {β : Type*} (f : α → β) (cost : β → Nat) (xs : List α) :
    trimSuffix cost budget (xs.map f) = (trimSuffix (cost ∘ f) budget xs).map f := by
  have hloop : ∀ rev used kept, trimLoop cost budget (rev.map f) used (kept.map f) =
      (trimLoop (cost ∘ f) budget rev used kept).map f := by
    intro rev
    induction rev with
    | nil => intro used kept; rfl
    | cons x rest ih =>
        intro used kept
        simp only [List.map_cons, trimLoop, Function.comp_apply]
        split
        · rfl
        · exact ih _ (x :: kept)
  have hrev := hloop xs.reverse 0 []
  simpa [trimSuffix] using hrev

end Trim

/-! ## Two prefixes of one list -/

/-- Of two prefixes of a list without repetitions, what a filter leaves is the same as soon
as the last elements left are. -/
theorem filter_eq_of_getLast?_eq {a b : List α} (p : α → Bool) (ha : a <+: xs) (hb : b <+: xs)
    (hxs : xs.Nodup) (hlast : (a.filter p).getLast? = (b.filter p).getLast?) :
    a.filter p = b.filter p := by
  have key : ∀ {a b : List α}, a <+: b → b.Nodup → (a.filter p).getLast? = (b.filter p).getLast? →
      a.filter p = b.filter p := by
    intro a b hab hb hlast
    obtain ⟨rest, rfl⟩ := hab
    rw [List.filter_append] at hlast ⊢
    rcases List.eq_nil_or_concat (rest.filter p) with hnil | ⟨front, x, hx⟩
    · rw [hnil, List.append_nil]
    · rw [hx, List.concat_eq_append, ← List.append_assoc, List.getLast?_append] at hlast
      have hin : x ∈ a.filter p := List.mem_of_getLast? (by simpa using hlast)
      have hin' : x ∈ rest.filter p := by
        rw [hx]
        simp
      exact absurd (List.mem_of_mem_filter hin') (List.disjoint_of_nodup_append hb
        (List.mem_of_mem_filter hin))
  rcases List.prefix_or_prefix_of_prefix ha hb with hab | hba
  · exact key hab (hxs.sublist hb.sublist) hlast
  · exact (key hba (hxs.sublist ha.sublist) hlast.symm).symm

/-! ## Taking within a budget -/

section Take

variable (cost : α → Nat) (budget : Int)

/-- The loop from the front: it stops at the first element that no longer fits. -/
def takeWithin : Nat → List α → List α
  | _, [] => []
  | used, x :: xs =>
      if budget < (used + cost x : Nat) then [] else x :: takeWithin (used + cost x) xs

variable {cost budget} {used : Nat}

theorem takeWithin_prefix (used : Nat) (xs : List α) : takeWithin cost budget used xs <+: xs := by
  induction xs generalizing used with
  | nil => exact List.prefix_rfl
  | cons x xs ih =>
      unfold takeWithin
      split
      · exact List.nil_prefix
      · exact List.cons_prefix_cons.2 ⟨rfl, ih (used + cost x)⟩

/-- An element is taken exactly when all up to it fit together. -/
theorem lt_length_takeWithin_iff {n : Nat} : n < (takeWithin cost budget used xs).length ↔
    n < xs.length ∧ ((used + ((xs.take (n + 1)).map cost).sum : Nat) : Int) ≤ budget := by
  induction xs generalizing used n with
  | nil => simp [takeWithin]
  | cons x xs ih =>
      rw [List.take_succ_cons, List.map_cons, List.sum_cons]
      unfold takeWithin
      split
      · next hover =>
          refine iff_of_false (Nat.not_lt_zero n) ?_
          rintro ⟨-, hfits⟩
          omega
      · next hroom =>
          cases n with
          | zero => simp; omega
          | succ n =>
              rw [List.length_cons, List.length_cons, Nat.succ_lt_succ_iff, Nat.succ_lt_succ_iff, ih,
                Nat.add_assoc]

end Take

end OpsKnowledge.Lib
