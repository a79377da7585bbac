import Mathlib.Data.Set.Basic
import Mathlib.Tactic.Common

/-!
# Lifetimes of keys that are issued once

A key is issued, lives for a while, and never lives again. What was seen dead after it
was issued is dead for good, however old the sighting is: a reader of two stores may
combine what it read at different moments, if it first reads the store that is filled last.
-/

namespace OpsKnowledge.Lib

variable {κ : Type*}

structure Lifetimes (κ : Type*) where
  live : Set κ
  issued : Set κ

namespace Lifetimes

variable {a b : Lifetimes κ} {k : κ}

/-- `b` is a later moment than `a`: issued keys stay issued, and only new keys come to life. -/
structure Later (a b : Lifetimes κ) : Prop where
  issued : a.issued ⊆ b.issued
  live : ∀ k ∈ a.issued, k ∈ b.live → k ∈ a.live

def Expired (a : Lifetimes κ) (k : κ) : Prop := k ∈ a.issued ∧ k ∉ a.live

theorem Later.refl (a : Lifetimes κ) : Later a a where
  issued := Set.Subset.rfl
  live := fun _ _ h => h

theorem Later.expired (h : Later a b) (hk : a.Expired k) : b.Expired k := by
  constructor
  · exact h.issued hk.1
  · intro hlive
    exact hk.2 (h.live k hk.1 hlive)

end Lifetimes

end OpsKnowledge.Lib
