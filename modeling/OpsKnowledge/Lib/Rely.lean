import OpsKnowledge.Lib.Table

/-!
# Tasks over shared stores

Tasks share a store and take their statements in any order. What a task knows about the store
is stable under the steps of the others, so a statement is checked once, for the task that
takes it, and never against the other tasks.
-/

namespace OpsKnowledge.Lib

/-- The invariant of a store, how it may change, and what a task knows about it. -/
structure Rely (σ τ : Type*) where
  inv : σ → Prop
  later : σ → σ → Prop
  knows : τ → σ → Prop
  refl : ∀ s, later s s
  stable : ∀ s s' t, later s s' → knows t s → knows t s'

/-- The tasks after task `k` has become `next`. -/
def replaceTask {τ : Type*} (tasks : List τ) (k : Nat) : Option τ → List τ
  | none => tasks.eraseIdx k
  | some task => tasks.set k task

namespace Rely

variable {σ τ : Type*} {R : Rely σ τ} {s s' : σ} {t : τ} {tasks : List τ}

structure Sound (R : Rely σ τ) (s : σ) (tasks : List τ) : Prop where
  inv : R.inv s
  knows : ∀ t ∈ tasks, R.knows t s

/-- What a statement leaves of the store and of its task. -/
structure Keeps (R : Rely σ τ) (s : σ) (next : σ × Option τ) : Prop where
  inv : R.inv next.1
  later : R.later s next.1
  knows : ∀ t ∈ next.2, R.knows t next.1

/-- A statement after which the task is over. -/
theorem Keeps.last (hinv : R.inv s') (hlater : R.later s s') : R.Keeps s (s', none) := by
  constructor
  · exact hinv
  · exact hlater
  · intro t ht
    cases ht

theorem Keeps.next (hinv : R.inv s') (hlater : R.later s s') (ht : R.knows t s') :
    R.Keeps s (s', some t) := by
  constructor
  · exact hinv
  · exact hlater
  · intro t' ht'
    cases ht'
    exact ht

/-- A statement that only reads. -/
theorem Keeps.read (hinv : R.inv s) (ht : R.knows t s) : R.Keeps s (s, some t) :=
  Keeps.next hinv (R.refl s) ht

theorem mem_replaceTask {k : Nat} {next : Option τ} (h : t ∈ replaceTask tasks k next) :
    t ∈ tasks ∨ t ∈ next := by
  cases next with
  | none => exact .inl (List.mem_of_mem_eraseIdx h)
  | some task =>
    cases List.mem_or_eq_of_mem_set h with
    | inl hold => exact .inl hold
    | inr hnew => exact .inr (congrArg some hnew.symm)

theorem Sound.replace (h : R.Sound s tasks) {next : σ × Option τ} (hkept : R.Keeps s next) (k : Nat) :
    R.Sound next.1 (replaceTask tasks k next.2) := by
  constructor
  · exact hkept.inv
  · intro t ht
    cases mem_replaceTask ht with
    | inl hold => exact R.stable s next.1 t hkept.later (h.knows t hold)
    | inr hnew => exact hkept.knows t hnew

/-- A step of the environment. -/
theorem Sound.later (h : R.Sound s tasks) (hinv : R.inv s') (hlater : R.later s s') : R.Sound s' tasks := by
  constructor
  · exact hinv
  · intro t ht
    exact R.stable s s' t hlater (h.knows t ht)

theorem Sound.spawn (h : R.Sound s tasks) (ht : R.knows t s) : R.Sound s (tasks ++ [t]) := by
  constructor
  · exact h.inv
  · intro t' ht'
    cases mem_concat.1 ht' with
    | inl hold => exact h.knows t' hold
    | inr hnew =>
      rw [hnew]
      exact ht

end Rely

end OpsKnowledge.Lib
