import Mathlib.Data.Finset.Card
import Mathlib.Tactic.Common

/-!
# The first item of each key

A loop over items that remembers the keys it has seen, takes the first item of each key
and stops when it has taken enough. Items may have no key.
-/

namespace OpsKnowledge.Lib

universe u v

variable {α : Type u} {κ : Type v} [DecidableEq κ]

/-- The items with their keys. The loop looks at its number after it has taken one. -/
def firsts (key : α → Option κ) (n : Nat) : List κ → List α → List (κ × α)
  | _, [] => []
  | seen, x :: xs =>
      match key x with
      | none => firsts key n seen xs
      | some k =>
          if k ∈ seen then firsts key n seen xs
          else (k, x) :: if n ≤ seen.length + 1 then [] else firsts key n (seen ++ [k]) xs

/-- `x` comes with its key before enough other keys have come. -/
def First (key : α → Option κ) (n : Nat) (seen : List κ) (xs : List α) (k : κ) (x : α) : Prop :=
  ∃ pre post, xs = pre ++ x :: post ∧ key x = some k ∧ k ∉ seen ++ pre.filterMap key ∧
    (seen ++ pre.filterMap key).toFinset.card < n

variable {key : α → Option κ} {n : Nat} {seen : List κ} {xs : List α} {x y : α} {k l : κ}

theorem First.cons_iff : First key n seen (y :: xs) l x ↔
    (y = x ∧ key y = some l ∧ l ∉ seen ∧ seen.toFinset.card < n) ∨
      ∃ pre post, xs = pre ++ x :: post ∧ key x = some l ∧
        l ∉ seen ++ (y :: pre).filterMap key ∧ (seen ++ (y :: pre).filterMap key).toFinset.card < n := by
  constructor
  · rintro ⟨pre, post, heq, hkey, hnew, hfew⟩
    cases pre with
    | nil =>
        obtain ⟨rfl, rfl⟩ := List.cons.inj heq
        exact Or.inl ⟨rfl, hkey, by simpa using hnew, by simpa using hfew⟩
    | cons z pre =>
        obtain ⟨rfl, rfl⟩ := List.cons.inj heq
        exact Or.inr ⟨pre, post, rfl, hkey, hnew, hfew⟩
  · rintro (⟨rfl, hkey, hnew, hfew⟩ | ⟨pre, post, rfl, hkey, hnew, hfew⟩)
    · exact ⟨[], xs, rfl, hkey, by simpa using hnew, by simpa using hfew⟩
    · exact ⟨y :: pre, post, rfl, hkey, hnew, hfew⟩

/-- An item without a new key changes nothing. -/
theorem First.cons_of_seen (hy : ∀ k, key y = some k → k ∈ seen) :
    First key n seen (y :: xs) l x ↔ First key n seen xs l x := by
  have hseen : ∀ pre, (seen ++ (y :: pre).filterMap key).toFinset = (seen ++ pre.filterMap key).toFinset := by
    intro pre
    cases hkey : key y with
    | none => rw [List.filterMap_cons_none hkey]
    | some k =>
        rw [List.filterMap_cons_some hkey]
        ext m
        have hk := hy k hkey
        simp only [List.mem_toFinset, List.mem_append, List.mem_cons]
        constructor
        · rintro (hm | rfl | hm)
          · exact Or.inl hm
          · exact Or.inl hk
          · exact Or.inr hm
        · rintro (hm | hm)
          · exact Or.inl hm
          · exact Or.inr (Or.inr hm)
  have hmem : ∀ pre, l ∈ seen ++ (y :: pre).filterMap key ↔ l ∈ seen ++ pre.filterMap key := by
    intro pre
    rw [← List.mem_toFinset, hseen, List.mem_toFinset]
  rw [First.cons_iff]
  simp only [hseen, hmem]
  constructor
  · rintro (⟨rfl, hkey, hnew, -⟩ | h)
    · exact absurd (hy l hkey) hnew
    · exact h
  · exact Or.inr

/-- A new key is seen from then on. -/
theorem First.cons_of_new (hkey : key y = some k) (hnew : k ∉ seen) :
    First key n seen (y :: xs) l x ↔ (y = x ∧ k = l ∧ seen.toFinset.card < n) ∨
      First key n (seen ++ [k]) xs l x := by
  have hcons : ∀ pre, seen ++ (y :: pre).filterMap key = seen ++ [k] ++ pre.filterMap key := by
    intro pre
    rw [List.filterMap_cons_some hkey, List.append_cons]
  rw [First.cons_iff]
  simp only [hcons, hkey, Option.some.injEq]
  constructor
  · rintro (⟨rfl, rfl, -, hfew⟩ | h)
    · exact Or.inl ⟨rfl, rfl, hfew⟩
    · exact Or.inr h
  · rintro (⟨rfl, rfl, hfew⟩ | h)
    · exact Or.inl ⟨rfl, rfl, hnew, hfew⟩
    · exact Or.inr h

theorem First.card_lt (h : First key n seen xs l x) : seen.toFinset.card < n := by
  obtain ⟨pre, post, -, -, -, hfew⟩ := h
  refine lt_of_le_of_lt (Finset.card_le_card ?_) hfew
  intro m hm
  rw [List.mem_toFinset] at hm ⊢
  exact List.mem_append_left _ hm

/-- The key of an item that comes in time has a first item. -/
theorem exists_first {pre post : List α} (hkey : key x = some k) (hnew : k ∉ seen)
    (hfew : (seen ++ pre.filterMap key).toFinset.card < n) :
    ∃ y, First key n seen (pre ++ x :: post) k y := by
  induction pre generalizing seen with
  | nil => exact ⟨x, [], post, rfl, hkey, by simpa using hnew, hfew⟩
  | cons z pre ih =>
      have hless : ∀ start : List κ, start ⊆ seen ++ (z :: pre).filterMap key → start.toFinset.card < n := by
        intro start hstart
        refine lt_of_le_of_lt (Finset.card_le_card ?_) hfew
        intro m hm
        rw [List.mem_toFinset] at hm ⊢
        exact hstart hm
      rw [List.cons_append]
      by_cases hold : ∀ m, key z = some m → m ∈ seen
      · have hrest : seen ++ pre.filterMap key ⊆ seen ++ (z :: pre).filterMap key := by
          rw [List.filterMap_cons]
          split
          · exact List.Subset.refl _
          · exact ((List.sublist_cons_self _ _).append_left seen).subset
        obtain ⟨y, hy⟩ := ih hnew (hless _ hrest)
        exact ⟨y, (First.cons_of_seen hold).2 hy⟩
      · simp only [not_forall] at hold
        obtain ⟨m, hz, hm⟩ := hold
        have hcons : seen ++ (z :: pre).filterMap key = seen ++ [m] ++ pre.filterMap key := by
          rw [List.filterMap_cons_some hz, List.append_cons]
        by_cases hsame : m = k
        · exact ⟨z, (First.cons_of_new hz hm).2 (Or.inl ⟨rfl, hsame, hless _ (List.subset_append_left _ _)⟩)⟩
        · have hnew' : k ∉ seen ++ [m] := by simpa [hnew] using Ne.symm hsame
          obtain ⟨y, hy⟩ := ih hnew' (hcons ▸ hfew)
          exact ⟨y, (First.cons_of_new hz hm).2 (Or.inr hy)⟩

theorem mem_firsts (hseen : seen.Nodup) (hn : seen.length < n) :
    (l, x) ∈ firsts key n seen xs ↔ First key n seen xs l x := by
  induction xs generalizing seen with
  | nil =>
      refine iff_of_false List.not_mem_nil ?_
      rintro ⟨pre, post, heq, -⟩
      cases pre with
      | nil => cases heq
      | cons z pre => cases heq
  | cons y xs ih =>
      unfold firsts
      cases hkey : key y with
      | none =>
          rw [First.cons_of_seen (by simp [hkey])]
          exact ih hseen hn
      | some k =>
          simp only
          split
          · next hold =>
              rw [First.cons_of_seen (by simpa [hkey] using hold)]
              exact ih hseen hn
          · next hnew =>
              have hcard : seen.toFinset.card = seen.length := List.toFinset_card_of_nodup hseen
              have hnodup : (seen ++ [k]).Nodup := List.nodup_append.2
                ⟨hseen, List.nodup_singleton k, by simpa using fun m hm => ne_of_mem_of_not_mem hm hnew⟩
              rw [First.cons_of_new hkey hnew, List.mem_cons, Prod.mk.injEq, hcard]
              have hhead : (l = k ∧ x = y) ↔ (y = x ∧ k = l ∧ seen.length < n) := by
                constructor
                · rintro ⟨rfl, rfl⟩
                  exact ⟨rfl, rfl, hn⟩
                · rintro ⟨rfl, rfl, -⟩
                  exact ⟨rfl, rfl⟩
              apply or_congr hhead
              split
              · next hlast =>
                  refine iff_of_false List.not_mem_nil ?_
                  intro h
                  have hlt := h.card_lt
                  rw [List.toFinset_card_of_nodup hnodup, List.length_append] at hlt
                  exact absurd hlt (Nat.not_lt.2 hlast)
              · next hmore => exact ih hnodup (by simpa using hmore)

theorem length_firsts (hn : seen.length < n) : seen.length + (firsts key n seen xs).length ≤ n := by
  induction xs generalizing seen with
  | nil => exact hn.le
  | cons y xs ih =>
      unfold firsts
      cases hkey : key y with
      | none => exact ih hn
      | some k =>
          simp only
          split
          · exact ih hn
          · rw [List.length_cons]
            split
            · simp only [List.length_nil]
              omega
            · next hmore =>
                have hrest := @ih (seen ++ [k]) (by simpa using hmore)
                simp only [List.length_append, List.length_singleton] at hrest
                omega

/-- One item for each key. -/
theorem nodup_firsts : ((firsts key n seen xs).map Prod.fst).Nodup ∧
    ∀ m ∈ (firsts key n seen xs).map Prod.fst, m ∉ seen := by
  induction xs generalizing seen with
  | nil => exact ⟨List.nodup_nil, fun m hm => nomatch hm⟩
  | cons y xs ih =>
      unfold firsts
      cases hkey : key y with
      | none => exact ih
      | some k =>
          simp only
          split
          · exact ih
          · next hnew =>
              split
              · exact ⟨List.nodup_singleton k, by simpa using hnew⟩
              · obtain ⟨hnodup, hfresh⟩ := @ih (seen ++ [k])
                rw [List.map_cons]
                refine ⟨List.nodup_cons.2 ⟨?_, hnodup⟩, ?_⟩
                · intro hk
                  exact hfresh k hk (List.mem_append_right _ List.mem_cons_self)
                · intro m hm
                  rcases List.mem_cons.1 hm with rfl | hm
                  · exact hnew
                  · exact fun hin => hfresh m hm (List.mem_append_left _ hin)

end OpsKnowledge.Lib
