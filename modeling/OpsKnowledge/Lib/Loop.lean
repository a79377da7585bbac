import Mathlib.Data.List.Forall2
import Mathlib.Tactic.Common

/-!
# Loops over code that may raise

First the `for` loop and sequencing in `Except`, each described by when it ends
normally and by where its exception comes from. Then the `while` loop: it is run for at
most `fuel` rounds, and `none` says that the bound was hit while the condition still
held. The total-correctness rule asks for an invariant and a measure and gives a run
that ends inside the bound, so no caller has to reason about fuel again.
-/

namespace OpsKnowledge.Lib

universe u

variable {σ ε : Type*} {α β : Type u}

/-! ## Sequencing and `for` -/

theorem bind_eq_ok {x : Except ε α} {f : α → Except ε β} {b : β} :
    (x >>= f) = .ok b ↔ ∃ a, x = .ok a ∧ f a = .ok b := by
  cases x with
  | error e => simp [bind, Except.bind]
  | ok a => simp [bind, Except.bind]

theorem toOption_eq_some {x : Except ε α} {a : α} : x.toOption = some a ↔ x = .ok a := by
  cases x with
  | error e => simp [Except.toOption]
  | ok b => simp [Except.toOption]

theorem forM_eq_ok {f : α → Except ε Unit} {xs : List α} :
    xs.forM f = .ok () ↔ ∀ x ∈ xs, f x = .ok () := by
  induction xs with
  | nil => simp [pure, Except.pure]
  | cons x xs ih =>
      have hcons : (x :: xs).forM f = f x >>= fun _ => xs.forM f := rfl
      rw [hcons, bind_eq_ok, List.forall_mem_cons, ← ih]
      exact ⟨fun ⟨(), h, h'⟩ => ⟨h, h'⟩, fun ⟨h, h'⟩ => ⟨(), h, h'⟩⟩

theorem mapM_eq_ok {f : α → Except ε β} {xs : List α} {ys : List β} :
    xs.mapM f = .ok ys ↔ List.Forall₂ (fun x y => f x = .ok y) xs ys := by
  induction xs generalizing ys with
  | nil =>
      rw [List.mapM_nil, List.forall₂_nil_left_iff]
      constructor
      · intro h; cases h; rfl
      · intro h; rw [h]; rfl
  | cons x xs ih =>
      rw [List.mapM_cons, bind_eq_ok, List.forall₂_cons_left_iff]
      constructor
      · intro h
        obtain ⟨y, hy, h⟩ := h
        obtain ⟨zs, hzs, h⟩ := bind_eq_ok.1 h
        cases h
        exact ⟨y, zs, hy, ih.1 hzs, rfl⟩
      · intro h
        obtain ⟨y, zs, hy, hzs, rfl⟩ := h
        exact ⟨y, hy, bind_eq_ok.2 ⟨zs, ih.2 hzs, rfl⟩⟩

theorem mem_of_mapM_eq_ok {f : α → Except ε β} {xs : List α} {ys : List β}
    (h : xs.mapM f = .ok ys) {y : β} : y ∈ ys ↔ ∃ x ∈ xs, f x = .ok y := by
  have hall := mapM_eq_ok.1 h
  clear h
  induction hall with
  | nil => simp
  | cons hxy _ ih => simp [ih, hxy, eq_comm]

theorem ok_of_mapM_eq_ok {f : α → Except ε β} {xs : List α} {ys : List β}
    (h : xs.mapM f = .ok ys) {x : α} (hx : x ∈ xs) : ∃ y, f x = .ok y := by
  have hall := mapM_eq_ok.1 h
  clear h
  induction hall with
  | nil => cases hx
  | cons hxy _ ih =>
      rcases List.mem_cons.1 hx with rfl | hx
      · exact ⟨_, hxy⟩
      · exact ih hx

theorem exists_mapM_eq_ok {f : α → Except ε β} {xs : List α} (h : ∀ x ∈ xs, ∃ y, f x = .ok y) :
    ∃ ys, xs.mapM f = .ok ys := by
  induction xs with
  | nil => exact ⟨[], rfl⟩
  | cons x xs ih =>
      obtain ⟨y, hy⟩ := h x List.mem_cons_self
      obtain ⟨ys, hys⟩ := ih fun x' hx' => h x' (List.mem_cons_of_mem _ hx')
      exact ⟨y :: ys, mapM_eq_ok.2 (.cons hy (mapM_eq_ok.1 hys))⟩

theorem mapM_map_eq_ok {encode : β → α} {read : α → Except ε β}
    (h : ∀ y, read (encode y) = .ok y) (ys : List β) : (ys.map encode).mapM read = .ok ys := by
  rw [mapM_eq_ok, List.forall₂_map_left_iff]
  exact List.forall₂_same.2 fun y _ => h y

theorem mapM_eq_ok_map {f : α → Except ε β} {g : α → β} {xs : List α} (h : ∀ x ∈ xs, f x = .ok (g x)) :
    xs.mapM f = .ok (xs.map g) := by
  rw [mapM_eq_ok, List.forall₂_map_right_iff, List.forall₂_same]
  exact h

/-- Every exception that leaves `x` satisfies `E`. -/
def RaisesOnly (E : ε → Prop) (x : Except ε α) : Prop := ∀ e, x = .error e → E e

theorem raisesOnly_ok (E : ε → Prop) (a : α) : RaisesOnly E (.ok a) := by
  intro e h
  cases h

theorem raisesOnly_error {E : ε → Prop} {e : ε} (h : E e) :
    RaisesOnly E (.error e : Except ε α) := by
  intro e' h'
  cases h'
  exact h

theorem RaisesOnly.bind {E : ε → Prop} {x : Except ε α} {f : α → Except ε β} (hx : RaisesOnly E x)
    (hf : ∀ a, x = .ok a → RaisesOnly E (f a)) : RaisesOnly E (x >>= f) := by
  cases h : x with
  | error e => exact raisesOnly_error (hx e h)
  | ok a => exact hf a h

theorem RaisesOnly.forM {E : ε → Prop} {f : α → Except ε Unit} {xs : List α}
    (h : ∀ x ∈ xs, RaisesOnly E (f x)) : RaisesOnly E (xs.forM f) := by
  induction xs with
  | nil => exact raisesOnly_ok E ()
  | cons x xs ih =>
      have hcons : (x :: xs).forM f = f x >>= fun _ => xs.forM f := rfl
      rw [hcons]
      refine (h x List.mem_cons_self).bind fun _ _ => ?_
      exact ih fun y hy => h y (List.mem_cons_of_mem _ hy)

/-! ## `while` -/

/-- `while cond: body`, at most `fuel` rounds. -/
def whileLoop (cond : σ → Bool) (body : σ → Except ε σ) : Nat → σ → Option (Except ε σ)
  | 0, s => if cond s then none else some (.ok s)
  | fuel + 1, s =>
      if cond s then
        match body s with
        | .error e => some (.error e)
        | .ok s' => whileLoop cond body fuel s'
      else some (.ok s)

theorem whileLoop_of_not_cond {cond : σ → Bool} {body : σ → Except ε σ} {fuel : Nat} {s : σ}
    (h : cond s = false) : whileLoop cond body fuel s = some (.ok s) := by
  cases fuel <;> simp [whileLoop, h]

/-- Total correctness: an invariant that every round keeps and a measure that every
round lowers give a normal end within `μ s` rounds. -/
theorem whileLoop_total {cond : σ → Bool} {body : σ → Except ε σ} (Inv : σ → Prop) (μ : σ → Nat)
    (round : ∀ s, Inv s → cond s = true → ∃ s', body s = .ok s' ∧ Inv s' ∧ μ s' < μ s)
    {fuel : Nat} {s : σ} (hs : Inv s) (hf : μ s ≤ fuel) :
    ∃ s', whileLoop cond body fuel s = some (.ok s') ∧ Inv s' ∧ cond s' = false := by
  induction fuel generalizing s with
  | zero =>
      cases hc : cond s with
      | false => exact ⟨s, whileLoop_of_not_cond hc, hs, hc⟩
      | true =>
          obtain ⟨s', -, -, hlt⟩ := round s hs hc
          omega
  | succ fuel ih =>
      cases hc : cond s with
      | false => exact ⟨s, whileLoop_of_not_cond hc, hs, hc⟩
      | true =>
          obtain ⟨s₁, hb, h₁, hlt⟩ := round s hs hc
          obtain ⟨s', hrun, h', hc'⟩ := ih h₁ (by omega)
          exact ⟨s', by simp [whileLoop, hc, hb, hrun], h', hc'⟩

end OpsKnowledge.Lib
