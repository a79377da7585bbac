import Mathlib.Algebra.Order.BigOperators.Group.List
import Mathlib.Algebra.Order.Ring.Nat

/-!
# Rows in buckets

A list of keys cuts rows into buckets, one for each key. Together the buckets hold the rows
whose key is listed, so sums over the buckets are sums over these rows.
-/

namespace OpsKnowledge.Lib

variable {α β M : Type*} [DecidableEq β]

/-- The buckets of distinct keys hold the rows of these keys, each once. -/
theorem flatMap_filter_perm (key : α → β) {keys : List β} (hkeys : keys.Nodup) (rows : List α) :
    (keys.flatMap fun k => rows.filter fun a => key a = k).Perm (rows.filter fun a => key a ∈ keys) := by
  induction keys with
  | nil => simp
  | cons k keys ih =>
      obtain ⟨hk, hkeys⟩ := List.nodup_cons.1 hkeys
      have hhere : (rows.filter fun a => key a ∈ k :: keys).filter (fun a => key a = k) =
          rows.filter fun a => key a = k := by
        rw [List.filter_filter]
        apply List.filter_congr
        intro a _
        by_cases ha : key a = k
        · simp [ha]
        · simp [ha]
      have hrest : (rows.filter fun a => key a ∈ k :: keys).filter (fun a => !decide (key a = k)) =
          rows.filter fun a => key a ∈ keys := by
        rw [List.filter_filter]
        apply List.filter_congr
        intro a _
        by_cases ha : key a = k
        · simp [ha, hk]
        · simp [ha]
      have hsplit := List.filter_append_perm (fun a => decide (key a = k))
        (rows.filter fun a => key a ∈ k :: keys)
      rw [hhere, hrest] at hsplit
      exact ((ih hkeys).append_left _).trans hsplit

theorem sum_buckets [AddCommMonoid M] (key : α → β) (g : α → M) {keys : List β} (hkeys : keys.Nodup)
    (rows : List α) : (keys.map fun k => ((rows.filter fun a => key a = k).map g).sum).sum =
      ((rows.filter fun a => key a ∈ keys).map g).sum := by
  rw [← ((flatMap_filter_perm key hkeys rows).map g).sum_eq, List.map_flatMap, List.flatMap_def,
    List.sum_flatten, List.map_map]
  rfl

theorem length_buckets (key : α → β) {keys : List β} (hkeys : keys.Nodup) (rows : List α) :
    (keys.map fun k => (rows.filter fun a => key a = k).length).sum =
      (rows.filter fun a => key a ∈ keys).length := by
  rw [← (flatMap_filter_perm key hkeys rows).length_eq, List.length_flatMap]

omit [DecidableEq β] in
/-- Summands that are at most others, with a sum that is at least theirs, are equal to them. -/
theorem eq_of_sum_le {keys : List β} {f g : β → Nat} (hle : ∀ k ∈ keys, f k ≤ g k)
    (hsum : (keys.map g).sum ≤ (keys.map f).sum) : ∀ k ∈ keys, f k = g k := by
  induction keys with
  | nil => exact fun k hk => absurd hk List.not_mem_nil
  | cons k keys ih =>
      simp only [List.map_cons, List.sum_cons] at hsum
      have hhead := hle k List.mem_cons_self
      have hrest : ∀ k' ∈ keys, f k' ≤ g k' := fun k' hk' => hle k' (List.mem_cons_of_mem k hk')
      have htail : (keys.map f).sum ≤ (keys.map g).sum := List.sum_le_sum hrest
      intro k' hk'
      rcases List.mem_cons.1 hk' with rfl | hk'
      · omega
      · exact ih hrest (by omega) k' hk'

end OpsKnowledge.Lib
