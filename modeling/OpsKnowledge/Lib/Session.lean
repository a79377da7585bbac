import Mathlib.Tactic.Common

/-!
# Sessions on a table

What a session adds to a table is sent to the database by a flush and becomes durable by a
commit. Closing the session rolls back the rest.
-/

namespace OpsKnowledge.Lib

variable {ρ : Type*}

/-- `sent` and `new` are the rows of the open transaction that were flushed and that were not. -/
structure Session (ρ : Type*) where
  committed : List ρ
  sent : List ρ := []
  new : List ρ := []

inductive SessionOp (ρ : Type*) where
  | add (row : ρ)
  | flush
  | commit

namespace Session

variable (accepts : ρ → Bool)

/-- `none` when the database refuses a row. -/
def step (s : Session ρ) : SessionOp ρ → Option (Session ρ)
  | .add row => some { s with new := s.new ++ [row] }
  | .flush => if s.new.all accepts then some { s with sent := s.sent ++ s.new, new := [] } else none
  | .commit => if s.new.all accepts then some { committed := s.committed ++ s.sent ++ s.new } else none

/-- The rows that are there when the session has been closed, after its last operation or after the first that
is refused. -/
def block (s : Session ρ) : List (SessionOp ρ) → List ρ
  | [] => s.committed
  | op :: ops =>
    match s.step accepts op with
    | none => s.committed
    | some s' => s'.block ops

variable {accepts}

theorem committed_step {s s' : Session ρ} {op : SessionOp ρ} (hop : op ≠ .commit)
    (hs' : s.step accepts op = some s') : s'.committed = s.committed := by
  cases op with
  | add row =>
      cases hs'
      rfl
  | flush =>
      unfold step at hs'
      dsimp only at hs'
      split at hs'
      · cases hs'
        rfl
      · cases hs'
  | commit => exact absurd rfl hop

/-- Nothing becomes durable in a session that does not commit. -/
theorem block_of_no_commit {ops : List (SessionOp ρ)} (hops : ∀ op ∈ ops, op ≠ .commit) (s : Session ρ) :
    s.block accepts ops = s.committed := by
  induction ops generalizing s with
  | nil => rfl
  | cons op ops ih =>
      unfold block
      cases hs' : s.step accepts op with
      | none => rfl
      | some s' =>
          have hsame := committed_step (hops op List.mem_cons_self) hs'
          exact (ih (fun o ho => hops o (List.mem_cons_of_mem op ho)) s').trans hsame

end Session

end OpsKnowledge.Lib
