import Mathlib.Logic.Function.Basic

/-!
# Attributes that hold mutable objects

A session loads the value of a column as an object and remembers which one it was. At a
flush it writes the column when the attribute holds another object with another value, so
a change of the loaded object itself is not seen.
-/

namespace OpsKnowledge.Lib

universe u

/-- The values of the objects by address, the object that was loaded and the one that is held. -/
structure Attribute (α : Type u) where
  object : Nat → α
  fresh : Nat
  loaded : Nat
  held : Nat

namespace Attribute

variable {α : Type u}

def load (v : α) : Attribute α := { object := fun _ => v, fresh := 1, loaded := 0, held := 0 }

variable (falsy : α → Bool) (new : α) (f : α → α) (same : α → α → Bool) (a : Attribute α)

/-- `attribute or new` -/
def orNew : Nat × Attribute α :=
  if falsy (a.object a.held) then
    (a.fresh, { a with object := Function.update a.object a.fresh new, fresh := a.fresh + 1 })
  else (a.held, a)

def mutate (address : Nat) : Attribute α :=
  { a with object := Function.update a.object address (f (a.object address)) }

def assign (address : Nat) : Attribute α := { a with held := address }

/-- `x = attribute or new`, a change of `x` in place, `attribute = x`. -/
def changeAndAssign : Attribute α :=
  let (x, a) := a.orNew falsy new
  (a.mutate f x).assign x

/-- What a flush writes. -/
def written : Option α :=
  if a.loaded = a.held ∨ same (a.object a.loaded) (a.object a.held) = true then none
  else some (a.object a.held)

/-- The column after the flush of what was made of its value. -/
def saved (v : α) : α := (a.written same).getD v

variable {falsy new f same}

theorem changeAndAssign_load_of_falsy {v : α} (h : falsy v = true) :
    ((load v).changeAndAssign falsy new f).written same =
      if same v (f new) = true then none else some (f new) := by
  have hfresh : (load v).orNew falsy new =
      (1, { object := Function.update (fun _ => v) 1 new, fresh := 2, loaded := 0, held := 0 }) :=
    if_pos h
  simp only [changeAndAssign, hfresh]
  simp [written, mutate, assign]

theorem changeAndAssign_load {v : α} (h : falsy v = false) :
    ((load v).changeAndAssign falsy new f).written same = none := by
  have hheld : (load v).orNew falsy new = (0, load v) := if_neg (by simp [load, h])
  simp only [changeAndAssign, hheld]
  exact if_pos (Or.inl rfl)

/-- A change in place reaches the column only where there was nothing to change. -/
theorem saved_changeAndAssign (v : α)
    (hsame : falsy v = true → same v (f new) = true → f new = v) :
    ((load v).changeAndAssign falsy new f).saved same v = if falsy v = true then f new else v := by
  unfold saved
  split
  · next h =>
      rw [changeAndAssign_load_of_falsy h]
      split
      · next heq => exact (hsame h heq).symm
      · rfl
  · next h => rw [changeAndAssign_load (eq_false_of_ne_true h), Option.getD_none]

end Attribute

end OpsKnowledge.Lib
