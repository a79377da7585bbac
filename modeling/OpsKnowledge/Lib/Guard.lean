import OpsKnowledge.Lib.Loop

/-!
# Checks before an action

A handler reads rows, raises where one is missing or a check fails, and then acts. It ends
normally exactly when every check passes, and the simp set below turns a handler into the
list of its checks.
-/

namespace OpsKnowledge.Lib

universe u

variable {ε : Type*} {α β : Type u}

/-- `if c: raise e` -/
def raiseIf (c : Prop) [Decidable c] (e : ε) : Except ε PUnit.{u + 1} := if c then .error e else .ok ⟨⟩

/-- The row, where there is one. -/
def orRaise (row : Option α) (e : ε) : Except ε α :=
  match row with
  | none => .error e
  | some a => .ok a

@[simp] theorem raiseIf_eq_ok {c : Prop} [Decidable c] {e : ε} {x : PUnit.{u + 1}} :
    raiseIf c e = .ok x ↔ ¬ c := by
  unfold raiseIf
  split
  · next h => simp [h]
  · next h => simp [h]

@[simp] theorem orRaise_eq_ok {row : Option α} {e : ε} {a : α} : orRaise row e = .ok a ↔ row = some a := by
  cases row with
  | none => simp [orRaise]
  | some b => simp [orRaise]

/-- Two handlers that go on alike after a first step. -/
theorem bind_congr_of_ok {x : Except ε α} {f g : α → Except ε β} (h : ∀ a, x = .ok a → f a = g a) :
    x >>= f = x >>= g := by
  cases x with
  | error e => rfl
  | ok a => exact h a rfl

/-- A check in front of a handler. -/
theorem check_bind_eq_ok {x : Except ε PUnit.{u + 1}} {f : PUnit.{u + 1} → Except ε β} {b : β} :
    (x >>= f) = .ok b ↔ x = .ok ⟨⟩ ∧ f ⟨⟩ = .ok b := by
  rw [bind_eq_ok]
  constructor
  · intro h
    obtain ⟨⟨⟩, hx, h⟩ := h
    exact ⟨hx, h⟩
  · intro h
    exact ⟨⟨⟩, h.1, h.2⟩

@[simp] theorem raiseIf_bind_eq_ok {c : Prop} [Decidable c] {e : ε} {f : PUnit.{u + 1} → Except ε β}
    {b : β} : (raiseIf c e >>= f) = .ok b ↔ ¬ c ∧ f ⟨⟩ = .ok b := by
  rw [check_bind_eq_ok, raiseIf_eq_ok]

@[simp] theorem orRaise_bind_eq_ok {row : Option α} {e : ε} {f : α → Except ε β} {b : β} :
    (orRaise row e >>= f) = .ok b ↔ ∃ a, row = some a ∧ f a = .ok b := by
  simp [bind_eq_ok]

@[simp] theorem pure_eq_ok {a b : α} : (pure a : Except ε α) = .ok b ↔ a = b := by
  simp [pure, Except.pure]

end OpsKnowledge.Lib
