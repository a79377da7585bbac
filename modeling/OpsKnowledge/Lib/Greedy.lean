import Mathlib.Data.List.Induction
import Mathlib.Data.List.Perm.Basic
import Mathlib.Data.List.Perm.Subperm
import Mathlib.Order.Lattice
import Mathlib.Tactic.Common

/-!
# Greedy selections

A list is thinned from the left: an element stays unless it is related to one that stayed.
What is dropped has a relative before it that stays, also where the relation is not
transitive. And a list is picked from, each time an element of the largest value, where the
value depends on what was picked before.
-/

namespace OpsKnowledge.Lib

variable {α κ : Type*}

/-! ## Thinning -/

section Thin

variable (r : α → α → Bool)

def thin (xs : List α) : List α :=
  xs.foldl (fun kept x => if kept.any (r x) then kept else kept ++ [x]) []

theorem thin_concat (xs : List α) (x : α) :
    thin r (xs ++ [x]) = if (thin r xs).any (r x) then thin r xs else thin r xs ++ [x] := by
  simp [thin]

theorem thin_sublist (xs : List α) : (thin r xs).Sublist xs := by
  induction xs using List.reverseRecOn with
  | nil => exact List.Sublist.refl []
  | append_singleton xs x ih =>
      rw [thin_concat]
      split
      · exact ih.trans (List.sublist_append_left xs [x])
      · exact ih.append (List.Sublist.refl [x])

/-- No element that stays is related to one before it. -/
theorem thin_pairwise (xs : List α) : (thin r xs).Pairwise fun a b => r b a = false := by
  induction xs using List.reverseRecOn with
  | nil => exact .nil
  | append_singleton xs x ih =>
      rw [thin_concat]
      split
      · exact ih
      · next hnone =>
          rw [List.pairwise_append]
          refine ⟨ih, List.pairwise_singleton _ _, ?_⟩
          intro a ha b hb
          rw [List.mem_singleton.1 hb]
          simpa using fun hrel => hnone (List.any_eq_true.2 ⟨a, ha, hrel⟩)

/-- An element that is dropped is related to one before it that stays. -/
theorem exists_of_notMem_thin {xs : List α} {x : α} (hx : x ∈ xs) (hout : x ∉ thin r xs) :
    ∃ y ∈ thin r xs, r x y = true ∧ [y, x].Sublist xs := by
  induction xs using List.reverseRecOn with
  | nil => cases hx
  | append_singleton xs z ih =>
      rw [thin_concat] at hout ⊢
      by_cases hold : x ∈ xs
      · have hout' : x ∉ thin r xs := by
          intro hin
          split at hout
          · exact hout hin
          · exact hout (List.mem_append_left _ hin)
        obtain ⟨y, hy, hrel, hbefore⟩ := ih hold hout'
        refine ⟨y, ?_, hrel, hbefore.trans (List.sublist_append_left xs [z])⟩
        split
        · exact hy
        · exact List.mem_append_left _ hy
      · obtain rfl : x = z := by simpa [hold] using hx
        split at hout
        · next hany =>
            obtain ⟨y, hy, hrel⟩ := List.any_eq_true.1 hany
            rw [if_pos hany]
            refine ⟨y, hy, hrel, ?_⟩
            have hin := (thin_sublist r xs).subset hy
            have hyx := (List.singleton_sublist.2 hin).append (List.Sublist.refl [x])
            exact hyx
        · exact absurd (List.mem_append_right _ List.mem_cons_self) hout

/-- The first element stays. -/
theorem head?_thin (xs : List α) : (thin r xs).head? = xs.head? := by
  induction xs using List.reverseRecOn with
  | nil => rfl
  | append_singleton xs x ih =>
      rw [thin_concat]
      cases xs with
      | nil => rfl
      | cons y ys =>
          have hne : thin r (y :: ys) ≠ [] := by
            intro hnil
            rw [hnil] at ih
            cases ih
          split
          · rw [ih]
            rfl
          · rw [List.head?_append_of_ne_nil _ hne, ih]
            rfl

end Thin

/-! ## The place of the largest value -/

section Argmax

variable [LinearOrder κ] (value : α → κ) (floor : κ)

/-- The place and the value of the first element with the largest value above `floor`. -/
def argmaxFrom (xs : List α) : Nat × κ :=
  xs.zipIdx.foldl (fun best x => if best.2 < value x.1 then (x.2, value x.1) else best) (0, floor)

theorem argmaxFrom_concat (xs : List α) (x : α) :
    argmaxFrom value floor (xs ++ [x]) =
      if (argmaxFrom value floor xs).2 < value x then (xs.length, value x)
      else argmaxFrom value floor xs := by
  unfold argmaxFrom
  rw [List.zipIdx_append, List.foldl_append, Nat.zero_add]
  rfl

theorem argmaxFrom_spec (xs : List α) :
    (∀ x ∈ xs, value x ≤ (argmaxFrom value floor xs).2) ∧
      (argmaxFrom value floor xs = (0, floor) ∨
        ∃ x, xs[(argmaxFrom value floor xs).1]? = some x ∧ value x = (argmaxFrom value floor xs).2) := by
  induction xs using List.reverseRecOn with
  | nil => exact ⟨nofun, .inl rfl⟩
  | append_singleton xs x ih =>
      obtain ⟨hbound, hplace⟩ := ih
      rw [argmaxFrom_concat]
      by_cases hlt : (argmaxFrom value floor xs).2 < value x
      · rw [if_pos hlt]
        refine ⟨?_, .inr ⟨x, List.getElem?_concat_length, rfl⟩⟩
        intro y hy
        rcases List.mem_append.1 hy with hy | hy
        · exact (hbound y hy).trans hlt.le
        · rw [List.mem_singleton.1 hy]
      · rw [if_neg hlt]
        constructor
        · intro y hy
          rcases List.mem_append.1 hy with hy | hy
          · exact hbound y hy
          · rw [List.mem_singleton.1 hy]
            exact not_lt.1 hlt
        · rcases hplace with heq | ⟨y, hy, hvalue⟩
          · exact .inl heq
          · exact .inr ⟨y, by rw [List.getElem?_append_left (List.getElem?_eq_some_iff.1 hy).1, hy], hvalue⟩

/-- Where a value is above the floor, the place is one of the largest value. -/
theorem getElem?_argmaxFrom {xs : List α} (hne : xs ≠ []) (h : ∀ x ∈ xs, floor < value x) :
    ∃ x, xs[(argmaxFrom value floor xs).1]? = some x ∧ ∀ y ∈ xs, value y ≤ value x := by
  obtain ⟨hbound, heq | ⟨x, hx, hvalue⟩⟩ := argmaxFrom_spec value floor xs
  · obtain ⟨y, hy⟩ := List.exists_mem_of_ne_nil xs hne
    have hle := hbound y hy
    rw [heq] at hle
    exact absurd (h y hy) (not_lt.2 hle)
  · exact ⟨x, hx, fun y hy => hvalue ▸ hbound y hy⟩

end Argmax

/-! ## Picking -/

section Pick

variable [LE κ] (value : List α → α → κ)

/-- What is picked one after the other: each has the largest value of what is left, next to what was
picked before. -/
inductive Picks : List α → List α → List α → Prop
  | nil (picked left) : Picks picked left []
  | cons {picked left : List α} {i : Nat} {x : α} {rest : List α} : left[i]? = some x →
      (∀ y ∈ left, value picked y ≤ value picked x) → Picks (picked ++ [x]) (left.eraseIdx i) rest →
      Picks picked left (x :: rest)

variable {value} {picked left out : List α}

theorem Picks.subperm (h : Picks value picked left out) : List.Subperm out left := by
  induction h with
  | nil picked left => exact List.nil_subperm
  | @cons picked left i x rest hx _ _ ih =>
      obtain ⟨hi, rfl⟩ := List.getElem?_eq_some_iff.1 hx
      exact ((List.subperm_cons _).2 ih).trans (List.getElem_cons_eraseIdx_perm hi).subperm

/-- At every point of the picking, nothing that is left has a larger value than what comes next. -/
theorem Picks.largest (h : Picks value picked left out) {front rest : List α} {x y : α}
    (hout : out = front ++ x :: rest) (hy : y ∈ left) (hnew : y ∉ front) :
    value (picked ++ front) y ≤ value (picked ++ front) x := by
  induction h generalizing front with
  | nil picked left => cases front <;> cases hout
  | @cons picked left i z tail hz hbest _ ih =>
      cases front with
      | nil =>
          cases hout
          simpa using hbest y hy
      | cons first front =>
          cases hout
          obtain ⟨hi, rfl⟩ := List.getElem?_eq_some_iff.1 hz
          have hne : y ≠ left[i] := fun heq => hnew (heq ▸ List.mem_cons_self)
          have hleft : y ∈ left.eraseIdx i := by
            have hmem := (List.getElem_cons_eraseIdx_perm hi).mem_iff.2 hy
            exact (List.mem_cons.1 hmem).resolve_left hne
          have hlater := ih rfl hleft fun hmem => hnew (List.mem_cons_of_mem _ hmem)
          simpa using hlater

end Pick

end OpsKnowledge.Lib
