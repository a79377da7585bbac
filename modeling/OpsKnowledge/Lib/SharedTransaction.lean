import Mathlib.Data.List.Infix
import Mathlib.Tactic.Common

/-!
# Units of work in one transaction

Units of work write rows through one session, one after another and without savepoints; an
exception ends its unit only. A refused statement aborts the transaction, a flush that fails
deactivates the session. A commit keeps the rows of an active transaction, silently keeps nothing
of an aborted one, and raises on a session that is not active. The rows that are kept are those of
the units that end normally exactly when each other unit fails before it writes and without
a refusal, or nothing is kept at all.
-/

namespace OpsKnowledge.Lib

variable {ρ : Type*}

/-- A flush with the rows it writes, a statement outside of a flush, or an exception of another origin. -/
inductive WorkStep (ρ : Type*) where
  | flush (rows : List ρ) (accepted : Bool)
  | read (accepted : Bool)
  | raise

/-- `active` with the rows that have been written, `aborted` by the database, or `inactive` after a flush that
failed. -/
inductive SharedTx (ρ : Type*) where
  | active (rows : List ρ)
  | aborted
  | inactive

/-- The transaction after a step, and whether the step is passed. -/
def WorkStep.run : SharedTx ρ → WorkStep ρ → SharedTx ρ × Bool
  | tx, .raise => (tx, false)
  | .active rows, .flush new true => (.active (rows ++ new), true)
  | .active _, .flush _ false => (.inactive, false)
  | .active rows, .read true => (.active rows, true)
  | .active _, .read false => (.aborted, false)
  | .aborted, .flush _ _ => (.inactive, false)
  | .aborted, .read _ => (.aborted, false)
  | .inactive, _ => (.inactive, false)

/-- A unit of work stops at the first step that is not passed. -/
def runUnit (tx : SharedTx ρ) : List (WorkStep ρ) → SharedTx ρ × Bool
  | [] => (tx, true)
  | step :: steps =>
      match step.run tx with
      | (tx', true) => runUnit tx' steps
      | (tx', false) => (tx', false)

/-- All units; those that end normally are marked. -/
def runUnits (tx : SharedTx ρ) : List (List (WorkStep ρ)) → SharedTx ρ × List Bool
  | [] => (tx, [])
  | unit :: units =>
      let (tx', done) := runUnit tx unit
      let (tx'', marks) := runUnits tx' units
      (tx'', done :: marks)

/-- `none` when the commit raises. -/
def SharedTx.commit : SharedTx ρ → Option (List ρ)
  | .active rows => some rows
  | .aborted => some []
  | .inactive => none

/-! ## A unit by itself -/

/-- How a unit ends when nothing was refused before it, with the rows that it then has written. -/
inductive UnitEnd (ρ : Type*) where
  | done (rows : List ρ)
  | raised (rows : List ρ)
  | readRefused
  | flushRefused

def UnitEnd.after (rows : List ρ) : UnitEnd ρ → UnitEnd ρ
  | .done more => .done (rows ++ more)
  | .raised more => .raised (rows ++ more)
  | e => e

def unitEnd : List (WorkStep ρ) → UnitEnd ρ
  | [] => .done []
  | .raise :: _ => .raised []
  | .read true :: steps => unitEnd steps
  | .read false :: _ => .readRefused
  | .flush rows true :: steps => (unitEnd steps).after rows
  | .flush _ false :: _ => .flushRefused

/-- The rows of a unit that ends normally. -/
def doneRows (unit : List (WorkStep ρ)) : List ρ :=
  match unitEnd unit with
  | .done rows => rows
  | _ => []

def isDone (unit : List (WorkStep ρ)) : Bool :=
  match unitEnd unit with
  | .done _ => true
  | _ => false

theorem UnitEnd.after_nil (e : UnitEnd ρ) : e.after [] = e := by cases e <;> rfl

theorem UnitEnd.after_after (rows more : List ρ) (e : UnitEnd ρ) :
    (e.after more).after rows = e.after (rows ++ more) := by
  cases e <;> simp [UnitEnd.after]

theorem unitEnd_append (unit more : List (WorkStep ρ)) : unitEnd (unit ++ more) =
    match unitEnd unit with
    | .done rows => (unitEnd more).after rows
    | e => e := by
  induction unit with
  | nil => exact (UnitEnd.after_nil _).symm
  | cons step steps ih =>
      cases step with
      | raise => rfl
      | read accepted =>
          cases accepted with
          | true => exact ih
          | false => rfl
      | flush rows accepted =>
          cases accepted with
          | false => rfl
          | true =>
              rw [List.cons_append, unitEnd, unitEnd, ih]
              cases unitEnd steps with
              | done more' => exact UnitEnd.after_after rows more' (unitEnd more)
              | _ => rfl

theorem runUnit_active (rows : List ρ) (unit : List (WorkStep ρ)) : runUnit (.active rows) unit =
    match unitEnd unit with
    | .done more => (.active (rows ++ more), true)
    | .raised more => (.active (rows ++ more), false)
    | .readRefused => (.aborted, false)
    | .flushRefused => (.inactive, false) := by
  induction unit generalizing rows with
  | nil => simp [runUnit, unitEnd]
  | cons step steps ih =>
      cases step with
      | raise => simp [runUnit, WorkStep.run, unitEnd]
      | read accepted =>
          cases accepted with
          | true => exact ih rows
          | false => rfl
      | flush new accepted =>
          cases accepted with
          | false => rfl
          | true =>
              rw [runUnit, WorkStep.run, unitEnd]
              dsimp only
              rw [ih]
              cases unitEnd steps <;> simp [UnitEnd.after]

theorem runUnit_inactive (unit : List (WorkStep ρ)) : (runUnit .inactive unit).1 = .inactive := by
  cases unit with
  | nil => rfl
  | cons step steps =>
      cases step with
      | raise => rfl
      | read accepted => cases accepted <;> rfl
      | flush rows accepted => cases accepted <;> rfl

theorem runUnits_inactive (units : List (List (WorkStep ρ))) : (runUnits .inactive units).1 = .inactive := by
  induction units with
  | nil => rfl
  | cons unit units ih =>
      rw [runUnits]
      dsimp only
      rw [runUnit_inactive, ih]

/-! ## Units that keep to themselves -/

/-- The commit goes through, a unit ends normally exactly if it does by itself, and the rows that are kept
are those of these units. -/
def KeepsApart (units : List (List (WorkStep ρ))) : Prop :=
  (runUnits (.active []) units).1.commit = some (units.flatMap doneRows) ∧
    (runUnits (.active []) units).2 = units.map isDone

/-- It ends normally, or before it writes and without a refusal. -/
def Tidy (unit : List (WorkStep ρ)) : Prop := isDone unit = true ∨ unitEnd unit = .raised []

/-- In an aborted transaction it fails before a flush, as it does by itself, or it has nothing to do. -/
def quiet : List (WorkStep ρ) → Bool
  | [] => true
  | .flush _ _ :: _ => false
  | .read accepted :: steps => !isDone (.read accepted :: steps)
  | .raise :: _ => true

/-- Nothing is kept: a refused read aborts the transaction, no flush is tried after it, and no unit with
rows ends normally. -/
def void : List (List (WorkStep ρ)) → Bool
  | [] => false
  | unit :: units =>
      match unitEnd unit with
      | .done rows => rows.isEmpty && void units
      | .raised _ => void units
      | .readRefused => units.all quiet
      | .flushRefused => false

theorem runUnit_aborted_iff (unit : List (WorkStep ρ)) :
    quiet unit = true ↔ runUnit .aborted unit = (.aborted, isDone unit) := by
  cases unit with
  | nil => simp [quiet, runUnit, isDone, unitEnd]
  | cons step steps =>
      cases step with
      | raise => simp [quiet, runUnit, WorkStep.run, isDone, unitEnd]
      | flush rows accepted => simp [quiet, runUnit, WorkStep.run]
      | read accepted =>
          simp only [quiet, runUnit, WorkStep.run]
          cases isDone (.read accepted :: steps) <;> simp

theorem isDone_of_done {unit : List (WorkStep ρ)} {rows : List ρ} (h : unitEnd unit = .done rows) :
    isDone unit = true := by
  unfold isDone
  rw [h]

theorem doneRows_of_done {unit : List (WorkStep ρ)} {rows : List ρ} (h : unitEnd unit = .done rows) :
    doneRows unit = rows := by
  unfold doneRows
  rw [h]

theorem isDone_eq_false {unit : List (WorkStep ρ)} {e : UnitEnd ρ} (h : unitEnd unit = e)
    (hnot : ∀ rows, e ≠ .done rows) : isDone unit = false := by
  unfold isDone
  rw [h]
  cases e with
  | done rows => exact absurd rfl (hnot rows)
  | _ => rfl

theorem doneRows_of_not_done {unit : List (WorkStep ρ)} (h : isDone unit = false) : doneRows unit = [] := by
  unfold doneRows
  cases hend : unitEnd unit with
  | done rows =>
      rw [isDone_of_done hend] at h
      cases h
  | _ => rfl

theorem tidy_raised_iff {unit : List (WorkStep ρ)} {rows : List ρ} (h : unitEnd unit = .raised rows) :
    Tidy unit ↔ rows = [] := by
  unfold Tidy
  rw [isDone_eq_false h (by simp), h]
  simp

theorem not_tidy_of_refused {unit : List (WorkStep ρ)}
    (h : unitEnd unit = .readRefused ∨ unitEnd unit = .flushRefused) : ¬ Tidy unit := by
  unfold Tidy
  rcases h with h | h
  · rw [isDone_eq_false h (by simp), h]
    simp
  · rw [isDone_eq_false h (by simp), h]
    simp

theorem doneRows_of_quiet {unit : List (WorkStep ρ)} (h : quiet unit = true) : doneRows unit = [] := by
  cases unit with
  | nil => rfl
  | cons step steps =>
      cases step with
      | raise => rfl
      | flush rows accepted => cases h
      | read accepted => exact doneRows_of_not_done (by simpa [quiet] using h)

theorem doneRows_of_runUnit_aborted {unit : List (WorkStep ρ)}
    (h : runUnit .aborted unit = (.aborted, isDone unit)) : doneRows unit = [] :=
  doneRows_of_quiet ((runUnit_aborted_iff unit).2 h)

theorem UnitEnd.after_eq_raised_nil {rows : List ρ} {e : UnitEnd ρ} :
    e.after rows = .raised [] ↔ rows = [] ∧ e = .raised [] := by
  cases e <;> simp [UnitEnd.after]

theorem isDone_append (unit more : List (WorkStep ρ)) :
    isDone (unit ++ more) = (isDone unit && isDone more) := by
  unfold isDone
  rw [unitEnd_append]
  cases unitEnd unit with
  | done rows => cases unitEnd more <;> rfl
  | _ => rfl

/-- Work in two parts is tidy when both end normally, or the one that fails has nothing written before it. -/
theorem tidy_append_iff (unit more : List (WorkStep ρ)) : Tidy (unit ++ more) ↔
    isDone unit = true ∧ isDone more = true ∨ unitEnd unit = .raised [] ∨
      unitEnd unit = .done [] ∧ unitEnd more = .raised [] := by
  unfold Tidy
  rw [isDone_append, Bool.and_eq_true, unitEnd_append]
  cases hend : unitEnd unit with
  | done rows => simp [UnitEnd.after_eq_raised_nil]
  | _ => simp

/-! ## When they do -/

theorem runUnit_aborted_cases (unit : List (WorkStep ρ)) :
    (runUnit .aborted unit).1 = .aborted ∨ (runUnit .aborted unit).1 = .inactive := by
  cases unit with
  | nil => exact .inl rfl
  | cons step steps =>
      cases step with
      | raise => exact .inl rfl
      | read accepted => exact .inl (by simp [runUnit, WorkStep.run])
      | flush rows accepted => exact .inr (by simp [runUnit, WorkStep.run])

/-- After a refused read the rest keeps apart exactly if it is quiet. -/
theorem runUnits_aborted_iff (units : List (List (WorkStep ρ))) :
    ((runUnits .aborted units).1.commit = some (units.flatMap doneRows) ∧
      (runUnits .aborted units).2 = units.map isDone) ↔ units.all quiet = true := by
  induction units with
  | nil => simp [runUnits, SharedTx.commit]
  | cons unit units ih =>
      rw [List.all_cons, Bool.and_eq_true, runUnit_aborted_iff]
      rcases runUnit_aborted_cases unit with htx | htx
      · obtain ⟨done, hrun⟩ : ∃ done, runUnit .aborted unit = (.aborted, done) := ⟨_, Prod.ext htx rfl⟩
        rw [runUnits, hrun, List.flatMap_cons, List.map_cons]
        dsimp only
        rw [List.cons.injEq, Prod.mk.injEq, eq_self_iff_true, true_and]
        constructor
        · rintro ⟨hcommit, hdone, hmarks⟩
          have hnil := doneRows_of_runUnit_aborted (hrun.trans (by rw [hdone]))
          rw [hnil, List.nil_append] at hcommit
          exact ⟨hdone, ih.1 ⟨hcommit, hmarks⟩⟩
        · rintro ⟨hdone, hrest⟩
          have hnil := doneRows_of_runUnit_aborted (hrun.trans (by rw [hdone]))
          obtain ⟨hcommit, hmarks⟩ := ih.2 hrest
          rw [hnil, List.nil_append]
          exact ⟨hcommit, hdone, hmarks⟩
      · obtain ⟨done, hrun⟩ : ∃ done, runUnit .aborted unit = (.inactive, done) := ⟨_, Prod.ext htx rfl⟩
        rw [runUnits, hrun]
        dsimp only
        rw [runUnits_inactive]
        simp [SharedTx.commit]

theorem runUnits_aborted_commit {units : List (List (WorkStep ρ))} {rows : List ρ}
    (h : (runUnits .aborted units).1.commit = some rows) : rows = [] := by
  induction units with
  | nil => simpa [runUnits, SharedTx.commit] using h.symm
  | cons unit units ih =>
      rw [runUnits] at h
      dsimp only at h
      rcases runUnit_aborted_cases unit with htx | htx
      · rw [htx] at h
        exact ih h
      · rw [htx, runUnits_inactive] at h
        cases h

theorem append_eq_iff_of_length_le {rows kept : List ρ} (more : List ρ)
    (hlength : kept.length ≤ rows.length) : rows ++ more = kept ↔ more = [] ∧ rows = kept := by
  constructor
  · rintro rfl
    rw [List.length_append] at hlength
    have hmore : more = [] := List.eq_nil_of_length_eq_zero (by omega)
    exact ⟨hmore, by rw [hmore, List.append_nil]⟩
  · rintro ⟨rfl, rfl⟩
    exact List.append_nil rows

/-- The units of an active transaction, with the rows written before them and those that should be kept. -/
theorem runUnits_active_iff (units : List (List (WorkStep ρ))) {rows kept : List ρ}
    (hlength : kept.length ≤ rows.length) :
    ((runUnits (.active rows) units).1.commit = some (kept ++ units.flatMap doneRows) ∧
      (runUnits (.active rows) units).2 = units.map isDone) ↔
      ((∀ unit ∈ units, Tidy unit) ∧ rows = kept) ∨ (void units = true ∧ kept = []) := by
  induction units generalizing rows kept with
  | nil => simp [runUnits, SharedTx.commit, void]
  | cons unit units ih =>
      have hrun := runUnit_active rows unit
      rw [List.forall_mem_cons, List.flatMap_cons, List.map_cons, runUnits, void]
      dsimp only
      cases hend : unitEnd unit with
      | done more =>
          rw [hend] at hrun
          have hdone := isDone_of_done hend
          have hrest := @ih (rows ++ more) (kept ++ more) (by simpa using hlength)
          rw [hrun, hdone, doneRows_of_done hend]
          dsimp only
          rw [List.cons.injEq, eq_self_iff_true, true_and, ← List.append_assoc, hrest,
            List.append_left_inj, List.append_eq_nil_iff, Bool.and_eq_true, List.isEmpty_iff]
          have htidy : Tidy unit := .inl hdone
          simp only [htidy, true_and]
          tauto
      | raised more =>
          rw [hend] at hrun
          have hnot := isDone_eq_false hend (by simp)
          have hrest := @ih (rows ++ more) kept (by
            rw [List.length_append]
            omega)
          rw [hrun, hnot, doneRows_of_not_done hnot]
          dsimp only
          rw [List.cons.injEq, eq_self_iff_true, true_and, List.nil_append, hrest,
            append_eq_iff_of_length_le more hlength, tidy_raised_iff hend]
          tauto
      | readRefused =>
          rw [hend] at hrun
          have hnot := isDone_eq_false hend (by simp)
          rw [hrun, hnot, doneRows_of_not_done hnot]
          dsimp only
          rw [List.cons.injEq, eq_self_iff_true, true_and, List.nil_append, ← runUnits_aborted_iff]
          constructor
          · rintro ⟨hcommit, hmarks⟩
            have hnil := List.append_eq_nil_iff.1 (runUnits_aborted_commit hcommit)
            rw [hnil.1, List.nil_append] at hcommit
            exact .inr ⟨⟨hcommit, hmarks⟩, hnil.1⟩
          · rintro (⟨⟨htidy, -⟩, -⟩ | ⟨⟨hcommit, hmarks⟩, rfl⟩)
            · exact absurd htidy (not_tidy_of_refused (.inl hend))
            · exact ⟨hcommit, hmarks⟩
      | flushRefused =>
          rw [hend] at hrun
          have huntidy := not_tidy_of_refused (.inr hend)
          rw [hrun]
          dsimp only
          rw [runUnits_inactive]
          simp [SharedTx.commit, huntidy]

/-- Units keep apart exactly if each of them is tidy, or nothing is kept. -/
theorem keepsApart_iff (units : List (List (WorkStep ρ))) :
    KeepsApart units ↔ (∀ unit ∈ units, Tidy unit) ∨ void units = true := by
  have hactive := runUnits_active_iff units (Nat.le_refl ([] : List ρ).length)
  simpa [KeepsApart] using hactive

end OpsKnowledge.Lib
