import Mathlib.Logic.Function.Basic
import OpsKnowledge.Workflow.ExecutionRows

/-!
# Resumptions and the interrupts they continue from

Executions run on LangGraph threads, `conversation_id` where the trigger input has one
and the execution's own id elsewhere, and the checkpointer keeps the interrupts that
are pending on each thread. `_run_with_langgraph` enters the graph with
`Command(resume=value)` when the value is not `None`, which continues from what is
pending, and with a fresh input otherwise, which discards it. A pause is pending until
the first superstep after it is checkpointed.
-/

namespace OpsKnowledge.Workflow

open OpsKnowledge.Lib

/-! ## The checkpointer -/

structure Pause where
  id : Nat
  execution : Nat
  deriving DecidableEq, Repr

/-- `driven` is not in the source: the pauses that a resumption has continued from, in
order. -/
structure Checkpointer where
  interrupts : Nat → Option Pause := fun _ => none
  nextPause : Nat := 0
  driven : List Nat := []

namespace Checkpointer

def clear (c : Checkpointer) (x : Nat) : Checkpointer :=
  { c with interrupts := Function.update c.interrupts x none }

def drive (c : Checkpointer) (x : Nat) : Checkpointer :=
  { c with driven := c.driven ++ (c.interrupts x).toList.map Pause.id }

def pause (c : Checkpointer) (x execution : Nat) : Checkpointer :=
  { c with
    interrupts := Function.update c.interrupts x (some ⟨c.nextPause, execution⟩)
    nextPause := c.nextPause + 1 }

structure Fresh (c : Checkpointer) : Prop where
  pending : ∀ x p, c.interrupts x = some p → p.id < c.nextPause
  driven : ∀ id ∈ c.driven, id < c.nextPause
  unique : ∀ x y p q, c.interrupts x = some p → c.interrupts y = some q → p.id = q.id → x = y

theorem interrupts_clear {c : Checkpointer} {x y : Nat} {p : Pause}
    (h : (c.clear x).interrupts y = some p) : y ≠ x ∧ c.interrupts y = some p := by
  by_cases hy : y = x
  · subst hy
    simp [clear] at h
  · exact ⟨hy, by simpa [clear, hy] using h⟩

theorem interrupts_pause {c : Checkpointer} {x e y : Nat} {p : Pause}
    (h : (c.pause x e).interrupts y = some p) :
    y = x ∧ p = ⟨c.nextPause, e⟩ ∨ y ≠ x ∧ c.interrupts y = some p := by
  by_cases hy : y = x
  · subst hy
    left
    simpa [pause, eq_comm] using h
  · right
    exact ⟨hy, by simpa [pause, hy] using h⟩

theorem Fresh.clear {c : Checkpointer} (h : c.Fresh) (x : Nat) : (c.clear x).Fresh where
  pending y p hp := h.pending y p (interrupts_clear hp).2
  driven := h.driven
  unique y z p q hp hq := h.unique y z p q (interrupts_clear hp).2 (interrupts_clear hq).2

theorem Fresh.drive {c : Checkpointer} (h : c.Fresh) (x : Nat) : (c.drive x).Fresh where
  pending := h.pending
  driven id hid := by
    rcases List.mem_append.1 hid with hid | hid
    · exact h.driven id hid
    · rcases List.mem_map.1 hid with ⟨p, hp, rfl⟩
      exact h.pending x p (Option.mem_toList.1 hp)
  unique := h.unique

theorem Fresh.pause {c : Checkpointer} (h : c.Fresh) (x e : Nat) : (c.pause x e).Fresh where
  pending y p hp := by
    show p.id < c.nextPause + 1
    rcases interrupts_pause hp with ⟨-, rfl⟩ | ⟨-, hp⟩
    · exact Nat.lt_succ_self _
    · exact Nat.lt_succ_of_lt (h.pending y p hp)
  driven id hid := Nat.lt_succ_of_lt (h.driven id hid)
  unique y z p q hp hq hid := by
    rcases interrupts_pause hp with ⟨hy, rfl⟩ | ⟨-, hp'⟩
    · rcases interrupts_pause hq with ⟨hz, rfl⟩ | ⟨-, hq'⟩
      · rw [hy, hz]
      · have hlt := h.pending z q hq'
        dsimp only at hid
        omega
    · rcases interrupts_pause hq with ⟨-, rfl⟩ | ⟨-, hq'⟩
      · have hlt := h.pending y p hp'
        dsimp only at hid
        omega
      · exact h.unique y z p q hp' hq' hid

end Checkpointer

/-! ## Executions and their threads -/

structure ServiceState where
  rows : Nat → ExecutionRow := fun _ => {}
  checkpointer : Checkpointer := {}

/-- What an operation on the row of execution `e` does to its thread `x`. -/
def onThread (row : ExecutionRow) (c : Checkpointer) (x e : Nat) : RowOp → Checkpointer
  | .enterGraph =>
      match row.holder with
      | some (.worker (.resume true) .running) => c.drive x
      | _ => c.clear x
  | .superstep => c.clear x
  | .leaveGraph .succeeded => c.clear x
  | .leaveGraph .waiting => c.pause x e
  -- What failed is not checkpointed.
  | _ => c

theorem onThread_of_resuming {row : ExecutionRow} {c : Checkpointer} {x e : Nat}
    (h : row.holder = some (.worker (.resume true) .running)) :
    onThread row c x e .enterGraph = c.drive x := by
  simp only [onThread, h]

theorem onThread_of_not_resuming {row : ExecutionRow} {c : Checkpointer} {x e : Nat}
    (h : row.holder ≠ some (.worker (.resume true) .running)) :
    onThread row c x e .enterGraph = c.clear x := by
  simp only [onThread]

/-- One operation of the session or the worker of one execution; `thread e` is the thread
of execution `e`. -/
def serviceStep (thread : Nat → Nat) (s : ServiceState) (op : Nat × RowOp) :
    Option ServiceState :=
  match rowStep (s.rows op.1) op.2 with
  | none => none
  | some row =>
      some {
        rows := Function.update s.rows op.1 row
        checkpointer := onThread (s.rows op.1) s.checkpointer (thread op.1) op.1 op.2 }

/-! ## Each pause is resumed at most once -/

def ResumedOnce (s : ServiceState) : Prop :=
  s.checkpointer.driven.Nodup

/-- Whether the holder continues, or is about to continue, from an interrupt. -/
def Holder.resumes : Holder → Bool
  | .worker (.resume valueGiven) _ => valueGiven
  | _ => false

/-- A resumption that finds an interrupt on its thread finds its own execution's, with
the execution still waiting, and it is not rolled back while an interrupt that it or an
earlier one has continued from is pending. -/
def ResumesOwnPause (thread : Nat → Nat) (s : ServiceState) : Nat × RowOp → Prop
  | (e, .enterGraph) =>
      (s.rows e).holder = some (.worker (.resume true) .running) →
        ∀ pause ∈ s.checkpointer.interrupts (thread e),
          pause.execution = e ∧ (s.rows e).status = .waiting
  | (e, .rollback) =>
      ∀ holder ∈ (s.rows e).holder, holder.resumes = true →
        ∀ pause ∈ s.checkpointer.interrupts (thread e),
          pause.execution = e → pause.id ∉ s.checkpointer.driven
  | _ => True

instance (thread : Nat → Nat) (s : ServiceState) (op : Nat × RowOp) :
    Decidable (ResumesOwnPause thread s op) :=
  match op with
  | (e, .enterGraph) =>
      inferInstanceAs (Decidable ((s.rows e).holder = some (.worker (.resume true) .running) →
        ∀ pause ∈ s.checkpointer.interrupts (thread e),
          pause.execution = e ∧ (s.rows e).status = .waiting))
  | (e, .rollback) =>
      inferInstanceAs (Decidable (∀ holder ∈ (s.rows e).holder, holder.resumes = true →
        ∀ pause ∈ s.checkpointer.interrupts (thread e),
          pause.execution = e → pause.id ∉ s.checkpointer.driven))
  | (_, .requestResume _) | (_, .loadTask _) | (_, .loadCancel) | (_, .leave _)
  | (_, .flushRunning _) | (_, .flushCancelled _) | (_, .superstep) | (_, .leaveGraph _)
  | (_, .publish) | (_, .commit) => .isTrue trivial

/-- The row still has its pause to resume, or is about to commit that it has one. -/
def Owed (row : ExecutionRow) : Prop :=
  (row.status = .waiting ∧
      ∀ phase, row.holder = some (.worker (.resume true) phase) → phase = .running) ∨
    ∃ work, row.holder = some (.worker work (.finished .waiting)) ∨
      row.holder = some (.worker work (.published .waiting))

/-- Unless a pause is about to be committed, a row that owes one says so. -/
theorem Owed.waiting {row : ExecutionRow} (h : Owed row)
    (hpast : ∀ work, row.holder ≠ some (.worker work (.finished .waiting)) ∧
      row.holder ≠ some (.worker work (.published .waiting))) :
    row.status = .waiting ∧
      ∀ phase, row.holder = some (.worker (.resume true) phase) → phase = .running := by
  rcases h with hwaiting | ⟨work, hw | hw⟩
  · exact hwaiting
  · exact absurd hw (hpast work).1
  · exact absurd hw (hpast work).2

theorem not_owed_of_inGraph {row : ExecutionRow}
    (h : row.holder = some (.worker (.resume true) .inGraph)) : ¬ Owed row := by
  intro howed
  have hwaiting := howed.waiting (by simp [h])
  cases hwaiting.2 _ h

/-- A row comes to owe a resumption by a new pause only, or by the rollback of a
resumption. -/
theorem owed_of_rowStep {row row' : ExecutionRow} {op : RowOp} (h : rowStep row op = some row')
    (howed : Owed row') :
    Owed row ∨ op = .leaveGraph .waiting ∨
      op = .rollback ∧ ∃ phase, row.holder = some (.worker (.resume true) phase) := by
  rcases rowStep_cases h with ⟨hs, hh, -⟩ | ⟨i, work, -, hfree, hh, hs, -⟩ |
    ⟨i, -, hfree, hh, hs, -⟩ | ⟨work, -, hholder, rfl⟩ | ⟨work, outcome, rfl, hholder, rfl⟩ |
    ⟨work, outcome, -, hholder, rfl⟩ | ⟨work, outcome, -, hholder, rfl⟩ | ⟨-, -, rfl⟩ |
    ⟨rfl, ⟨holder, hholder⟩, rfl⟩
  · left
    rw [Owed, hs, hh] at howed
    exact howed
  · left
    have hwaiting := howed.waiting (by simp [hh])
    exact .inl ⟨hs ▸ hwaiting.1, by simp [hfree]⟩
  · left
    have hwaiting := howed.waiting (by simp [hh])
    exact .inl ⟨hs ▸ hwaiting.1, by simp [hfree]⟩
  · left
    have hwaiting := howed.waiting (by simp)
    refine .inl ⟨hwaiting.1, ?_⟩
    intro phase hp
    rw [hholder] at hp
    cases hp
    rfl
  · cases outcome with
    | waiting => exact .inr (.inl rfl)
    | succeeded | failed =>
        left
        have hwaiting := howed.waiting (by simp)
        refine .inl ⟨hwaiting.1, ?_⟩
        intro phase hp
        rw [hholder] at hp
        cases hp
        cases hwaiting.2 _ rfl
  · left
    cases outcome with
    | waiting => exact .inr ⟨work, .inl hholder⟩
    | succeeded | failed =>
        have hwaiting := howed.waiting (by simp)
        refine .inl ⟨hwaiting.1, ?_⟩
        intro phase hp
        rw [hholder] at hp
        cases hp
        cases hwaiting.2 _ rfl
  · left
    have hwaiting := howed.waiting (by simp)
    cases outcome with
    | waiting => exact .inr ⟨work, .inr hholder⟩
    | succeeded | failed => cases hwaiting.1
  · have hwaiting := howed.waiting (by simp)
    cases hwaiting.1
  · have hwaiting := howed.waiting (by simp)
    by_cases hr : ∃ phase, row.holder = some (.worker (.resume true) phase)
    · exact .inr (.inr ⟨rfl, hr⟩)
    · exact .inl (.inl ⟨hwaiting.1, fun phase hp => absurd ⟨phase, hp⟩ hr⟩)

structure PauseInv (thread : Nat → Nat) (s : ServiceState) : Prop where
  fresh : s.checkpointer.Fresh
  owner : ∀ x p, s.checkpointer.interrupts x = some p → thread p.execution = x
  undriven : ∀ x p, s.checkpointer.interrupts x = some p → Owed (s.rows p.execution) →
    p.id ∉ s.checkpointer.driven
  once : ResumedOnce s

section Steps

variable {thread : Nat → Nat} {s : ServiceState} {e : Nat} {row : ExecutionRow}

/-- Nothing is resumed and nothing pauses. -/
theorem PauseInv.keep (hinv : PauseInv thread s) {c : Checkpointer} (hfresh : c.Fresh)
    (hsub : ∀ x p, c.interrupts x = some p → s.checkpointer.interrupts x = some p)
    (hdriven : c.driven = s.checkpointer.driven)
    (howed : ∀ x p, s.checkpointer.interrupts x = some p → p.execution = e → Owed row →
      p.id ∉ s.checkpointer.driven) :
    PauseInv thread { rows := Function.update s.rows e row, checkpointer := c } where
  fresh := hfresh
  owner x p hp := hinv.owner x p (hsub x p hp)
  undriven x p hp ho := by
    show p.id ∉ c.driven
    rw [hdriven]
    by_cases he : p.execution = e
    · exact howed x p (hsub x p hp) he (by simpa [he] using ho)
    · exact hinv.undriven x p (hsub x p hp) (by simpa [he] using ho)
  once := by
    show c.driven.Nodup
    rw [hdriven]
    exact hinv.once

/-- A pause takes a new id. -/
theorem PauseInv.pause (hinv : PauseInv thread s) :
    PauseInv thread {
      rows := Function.update s.rows e row
      checkpointer := s.checkpointer.pause (thread e) e } where
  fresh := hinv.fresh.pause _ _
  owner x p hp := by
    rcases Checkpointer.interrupts_pause hp with ⟨rfl, rfl⟩ | ⟨-, hp⟩
    · rfl
    · exact hinv.owner x p hp
  undriven x p hp ho := by
    rcases Checkpointer.interrupts_pause hp with ⟨-, rfl⟩ | ⟨hx, hp⟩
    · intro hmem
      exact Nat.lt_irrefl _ (hinv.fresh.driven _ hmem)
    · have he : p.execution ≠ e := fun he => hx (he ▸ (hinv.owner x p hp).symm)
      exact hinv.undriven x p hp (by simpa [he] using ho)
  once := hinv.once

/-- A resumption continues from its own pause, which was owed. -/
theorem PauseInv.drive (hinv : PauseInv thread s)
    (hholder : (s.rows e).holder = some (.worker (.resume true) .running))
    (hown : ∀ pause ∈ s.checkpointer.interrupts (thread e),
      pause.execution = e ∧ (s.rows e).status = .waiting)
    (hrow : row = { s.rows e with holder := some (.worker (.resume true) .inGraph) }) :
    PauseInv thread {
      rows := Function.update s.rows e row
      checkpointer := s.checkpointer.drive (thread e) } := by
  have hnot : ¬ Owed row := not_owed_of_inGraph (by rw [hrow])
  refine ⟨hinv.fresh.drive _, hinv.owner, ?_, ?_⟩
  · intro x p hp ho hmem
    have he : p.execution ≠ e := by
      intro he
      exact hnot (by simpa [he] using ho)
    rcases List.mem_append.1 hmem with hmem | hmem
    · exact hinv.undriven x p hp (by simpa [he] using ho) hmem
    · rcases List.mem_map.1 hmem with ⟨q, hq, hid⟩
      have hq := Option.mem_toList.1 hq
      have hx := hinv.fresh.unique _ _ q p hq hp hid
      subst hx
      have hpq : p = q := Option.some.inj (hp.symm.trans hq)
      exact he (hpq ▸ (hown q hq).1)
  · show (s.checkpointer.driven ++ _).Nodup
    cases hp : s.checkpointer.interrupts (thread e) with
    | none => simpa [ResumedOnce] using hinv.once
    | some p =>
        rcases hown p hp with ⟨he, hwaiting⟩
        have howed : Owed (s.rows p.execution) := by
          rw [he]
          refine .inl ⟨hwaiting, ?_⟩
          intro phase hphase
          rw [hholder] at hphase
          cases hphase
          rfl
        have hnew := hinv.undriven _ p hp howed
        refine List.nodup_append.2 ⟨hinv.once, by simp, ?_⟩
        intro id hid id' hid' heq
        simp only [Option.toList_some, List.map_cons, List.map_nil, List.mem_singleton] at hid'
        exact hnew (hid' ▸ heq ▸ hid)

end Steps

theorem pauseInv_serviceStep {thread : Nat → Nat} {s s' : ServiceState} {op : Nat × RowOp}
    (hinv : PauseInv thread s) (hown : ResumesOwnPause thread s op)
    (h : serviceStep thread s op = some s') : PauseInv thread s' := by
  rcases op with ⟨e, op⟩
  unfold serviceStep at h
  split at h
  · cases h
  · next row hrow =>
      cases h
      have hkeep : op ≠ .leaveGraph .waiting → ∀ x p, s.checkpointer.interrupts x = some p →
          p.execution = e → Owed row → p.id ∉ s.checkpointer.driven := by
        intro hop x p hp he ho
        rcases owed_of_rowStep hrow ho with ho | hw | ⟨hr, phase, hholder⟩
        · exact hinv.undriven x p hp (he ▸ ho)
        · exact absurd hw hop
        · subst hr
          have hx := hinv.owner x p hp
          rw [he] at hx
          exact hown _ hholder rfl p (hx ▸ hp) he
      have hsame : op ≠ .leaveGraph .waiting → PauseInv thread
          { rows := Function.update s.rows e row, checkpointer := s.checkpointer } := fun hop =>
        hinv.keep hinv.fresh (fun _ _ hp => hp) rfl (hkeep hop)
      have hclear : op ≠ .leaveGraph .waiting → PauseInv thread
          { rows := Function.update s.rows e row
            checkpointer := s.checkpointer.clear (thread e) } := fun hop =>
        hinv.keep (hinv.fresh.clear _) (fun _ _ hp => (Checkpointer.interrupts_clear hp).2) rfl
          (hkeep hop)
      cases op with
      | enterGraph =>
          by_cases hholder : (s.rows e).holder = some (.worker (.resume true) .running)
          · rw [onThread_of_resuming hholder]
            have hgraph : row = { s.rows e with
                holder := some (.worker (.resume true) .inGraph) } := by
              simpa only [rowStep, ExecutionRow.enterGraph, hholder, Option.some.injEq, eq_comm]
                using hrow
            exact hinv.drive hholder (hown hholder) hgraph
          · rw [onThread_of_not_resuming hholder]
            exact hclear (by simp)
      | superstep => exact hclear (by simp)
      | leaveGraph outcome =>
          cases outcome with
          | succeeded => exact hclear (by simp)
          | waiting => exact hinv.pause
          | failed => exact hsame (by simp)
      | requestResume _ | loadTask _ | loadCancel | leave _ | flushRunning _ | flushCancelled _
      | publish | commit | rollback => exact hsame (by simp)

/-- In every run of any number of executions and requests whose resumptions continue
from their own pauses, no pause is resumed twice. -/
theorem resumedOnce_of_resumesOwnPause (thread : Nat → Nat) (ops : List (Nat × RowOp))
    (h : EveryStep (serviceStep thread) (ResumesOwnPause thread) {} ops) :
    Visits (serviceStep thread) ResumedOnce {} ops := by
  have hstart : PauseInv thread {} :=
    ⟨⟨nofun, nofun, nofun⟩, nofun, nofun, List.nodup_nil⟩
  have hinv := h.visits (fun _ _ _ hp hc hs => pauseInv_serviceStep hp hc hs) hstart
  exact hinv.mono fun _ hs => hs.once

/-- Two requests read `waiting`; the second worker gets the row when the first has paused
again, and continues from the second pause. -/
theorem resumedOnce_secondPause :
    Visits (serviceStep id) ResumedOnce {}
      [(0, .loadTask 0), (0, .flushRunning 0), (0, .enterGraph), (0, .leaveGraph .waiting),
        (0, .publish), (0, .commit), (0, .requestResume true), (0, .requestResume true),
        (0, .loadTask 0), (0, .loadTask 0), (0, .flushRunning 0), (0, .enterGraph),
        (0, .superstep), (0, .leaveGraph .waiting), (0, .publish), (0, .commit),
        (0, .flushRunning 0), (0, .enterGraph), (0, .superstep), (0, .leaveGraph .succeeded),
        (0, .publish), (0, .commit)] :=
  resumedOnce_of_resumesOwnPause id _ (by decide)

/-- Two executions of one conversation both wait: the second has replaced the interrupt of
the first, and both resumptions continue from it. -/
theorem pause_resumed_twice :
    ¬ ∀ (thread : Nat → Nat) (ops : List (Nat × RowOp)),
      Visits (serviceStep thread) ResumedOnce {} ops := by
  intro h
  have hlast : [1, 1].Nodup := (h (fun _ => 0)
    [(0, .loadTask 0), (0, .flushRunning 0), (0, .enterGraph), (0, .leaveGraph .waiting),
      (0, .publish), (0, .commit), (1, .loadTask 0), (1, .flushRunning 0), (1, .enterGraph),
      (1, .leaveGraph .waiting), (1, .publish), (1, .commit), (0, .requestResume true),
      (1, .requestResume true), (0, .loadTask 0), (1, .loadTask 0), (0, .flushRunning 0),
      (1, .flushRunning 0), (0, .enterGraph), (1, .enterGraph)]).last rfl
  simp at hlast

end OpsKnowledge.Workflow
