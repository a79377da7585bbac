import Mathlib.Data.List.Forall2
import Mathlib.Tactic.Common

/-!
# Lists in groups

A list read as heads followed by their parts, and what an element-by-element relation with
a second list says about the groups of that list.
-/

namespace OpsKnowledge.Lib

variable {α β : Type*} {R : α → β → Prop}

def flattenGroups (groups : List (α × List α)) : List α := groups.flatMap fun g => g.1 :: g.2

theorem exists_left_of_forall₂ {xs : List α} {ys : List β} (h : List.Forall₂ R xs ys) {y : β}
    (hy : y ∈ ys) : ∃ x ∈ xs, R x y := by
  induction h with
  | nil => cases hy
  | cons hxy _ ih =>
      rcases List.mem_cons.1 hy with rfl | hy
      · exact ⟨_, List.mem_cons_self, hxy⟩
      · obtain ⟨x, hx, hxy⟩ := ih hy
        exact ⟨x, List.mem_cons_of_mem _ hx, hxy⟩

theorem exists_append_of_forall₂ {xs xs' : List α} {ys : List β}
    (h : List.Forall₂ R (xs ++ xs') ys) :
    ∃ as bs, ys = as ++ bs ∧ List.Forall₂ R xs as ∧ List.Forall₂ R xs' bs := by
  induction xs generalizing ys with
  | nil => exact ⟨[], ys, rfl, .nil, h⟩
  | cons x xs ih =>
      cases h with
      | cons hxy hrest =>
          obtain ⟨as, bs, rfl, has, hbs⟩ := ih hrest
          exact ⟨_ :: as, bs, rfl, .cons hxy has, hbs⟩

/-- The second list falls into groups of the same shape. -/
theorem exists_groups_of_forall₂ {groups : List (α × List α)} {ys : List β}
    (h : List.Forall₂ R (flattenGroups groups) ys) :
    ∃ groups' : List (β × List β), ys = flattenGroups groups' ∧
      List.Forall₂ (fun g g' => R g.1 g'.1 ∧ List.Forall₂ R g.2 g'.2) groups groups' := by
  induction groups generalizing ys with
  | nil =>
      cases h
      exact ⟨[], rfl, .nil⟩
  | cons g groups ih =>
      have hsplit : List.Forall₂ R ((g.1 :: g.2) ++ flattenGroups groups) ys := by
        simpa [flattenGroups] using h
      obtain ⟨as, bs, rfl, has, hbs⟩ := exists_append_of_forall₂ hsplit
      obtain ⟨groups', rfl, hall⟩ := ih hbs
      cases has with
      | cons hhead hparts =>
          exact ⟨(_, _) :: groups', by simp [flattenGroups], .cons ⟨hhead, hparts⟩ hall⟩

theorem map_eq_of_forall₂ {γ : Type*} {f : α → γ} {g : β → γ} {xs : List α} {ys : List β}
    (h : List.Forall₂ R xs ys) (hfg : ∀ x y, R x y → f x = g y) : xs.map f = ys.map g := by
  induction h with
  | nil => rfl
  | cons hxy _ ih => rw [List.map_cons, List.map_cons, hfg _ _ hxy, ih]

theorem forall₂_trans_of_imp {γ : Type*} {S : β → γ → Prop} {T : α → γ → Prop}
    (hT : ∀ a b c, R a b → S b c → T a c) {xs : List α} {ys : List β} {zs : List γ}
    (h : List.Forall₂ R xs ys) (h' : List.Forall₂ S ys zs) : List.Forall₂ T xs zs := by
  induction h generalizing zs with
  | nil =>
      cases h'
      exact .nil
  | cons hxy _ ih =>
      cases h' with
      | cons hyz hrest => exact .cons (hT _ _ _ hxy hyz) (ih hrest)

end OpsKnowledge.Lib
