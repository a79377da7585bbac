import OpsKnowledge.Lib.Transition
import OpsKnowledge.Workflow.Conversation

/-!
# Execution rows and the transactions on them

The background drivers `_run_and_cleanup` and `_resume_and_cleanup` with
`run_and_persist` and `resume_execution`, and the cancel endpoint, as transactions on
the rows of `workflow_executions` under READ COMMITTED: a session acts on the status it
has read, its first `UPDATE` waits for the row and holds it until the commit or the
rollback, and what it wrote before is invisible to others. So `running` is never
committed. A task that is cancelled, or whose code raises, rolls back, which may happen
at any time.
-/

namespace OpsKnowledge.Workflow

open OpsKnowledge.Lib

inductive Status where
  | pending | running | waiting | succeeded | failed | cancelled
  deriving DecidableEq, Repr

def Status.ofOutcome : PassOutcome → Status
  | .succeeded => .succeeded
  | .waiting => .waiting
  | .failed => .failed

/-- What a background task does with its execution. -/
inductive Work where
  | run
  /-- `valueGiven` says that the request's `value` is not `None`. -/
  | resume (valueGiven : Bool)
  deriving DecidableEq, Repr

inductive Request where
  | work (work : Work)
  | cancel
  deriving DecidableEq, Repr

/-- A session that has read the row and not written it. -/
structure Session where
  request : Request
  seen : Status
  deriving DecidableEq, Repr

inductive WorkerPhase where
  /-- `status = "running"` is flushed. -/
  | running
  /-- `stream_execution` runs. -/
  | inGraph
  /-- The final status is flushed. -/
  | finished (outcome : PassOutcome)
  /-- The event is published, the commit comes next. -/
  | published (outcome : PassOutcome)
  deriving DecidableEq, Repr

/-- The transaction that has written the row and not ended. -/
inductive Holder where
  | cancelling
  | worker (work : Work) (phase : WorkerPhase)
  deriving DecidableEq, Repr

inductive ExecutionEvent where
  | completed | failed | waiting
  deriving DecidableEq, Repr

/-- The event name of `run_and_persist` and of `resume_execution`. -/
def eventName (work : Work) (outcome : PassOutcome) : ExecutionEvent :=
  match work, outcome with
  | _, .succeeded => .completed
  | _, .failed => .failed
  | .run, .waiting => .failed
  | .resume _, .waiting => .waiting

/-- `cancelAccepted` and `lateEvents` are not in the source: whether a cancellation has been
committed, and the events published after that. -/
structure ExecutionRow where
  status : Status := .pending
  /-- Background tasks that have not read the row yet. -/
  tasks : List Work := [.run]
  sessions : List Session := []
  holder : Option Holder := none
  cancelAccepted : Bool := false
  lateEvents : List ExecutionEvent := []
  deriving DecidableEq, Repr

inductive RowOp where
  | requestResume (valueGiven : Bool)
  | loadTask (i : Nat)
  | loadCancel
  | leave (i : Nat)
  | flushRunning (i : Nat)
  | flushCancelled (i : Nat)
  | enterGraph
  | superstep
  | leaveGraph (outcome : PassOutcome)
  | publish
  | commit
  | rollback
  deriving DecidableEq, Repr

namespace ExecutionRow

/-- The resume endpoint checks the status before it spawns its task. -/
def requestResume (row : ExecutionRow) (valueGiven : Bool) : Option ExecutionRow :=
  if row.status = .waiting then some { row with tasks := row.tasks ++ [.resume valueGiven] }
  else none

def loadTask (row : ExecutionRow) (i : Nat) : Option ExecutionRow :=
  match row.tasks[i]? with
  | none => none
  | some work =>
      some { row with
        tasks := row.tasks.eraseIdx i
        sessions := row.sessions ++ [{ request := .work work, seen := row.status }] }

def loadCancel (row : ExecutionRow) : Option ExecutionRow :=
  some { row with sessions := row.sessions ++ [{ request := .cancel, seen := row.status }] }

/-- A session ends before it has written: a check failed, or its task was cancelled. -/
def leave (row : ExecutionRow) (i : Nat) : Option ExecutionRow :=
  if i < row.sessions.length then some { row with sessions := row.sessions.eraseIdx i } else none

/-- `execution.status = "running"` and the flush. Only a resumption checks what it has read. -/
def flushRunning (row : ExecutionRow) (i : Nat) : Option ExecutionRow :=
  match row.sessions[i]?, row.holder with
  | some session, none =>
      match session.request with
      | .work .run =>
          some { row with
            sessions := row.sessions.eraseIdx i
            holder := some (.worker .run .running) }
      | .work (.resume valueGiven) =>
          if session.seen = .waiting then
            some { row with
              sessions := row.sessions.eraseIdx i
              holder := some (.worker (.resume valueGiven) .running) }
          else none
      | .cancel => none
  | _, _ => none

/-- `row.status = "cancelled"` and the flush, if the status it has read allows it. -/
def flushCancelled (row : ExecutionRow) (i : Nat) : Option ExecutionRow :=
  match row.sessions[i]?, row.holder with
  | some session, none =>
      if session.request = .cancel ∧ (session.seen = .pending ∨ session.seen = .running) then
        some { row with sessions := row.sessions.eraseIdx i, holder := some .cancelling }
      else none
  | _, _ => none

def enterGraph (row : ExecutionRow) : Option ExecutionRow :=
  match row.holder with
  | some (.worker work .running) => some { row with holder := some (.worker work .inGraph) }
  | _ => none

def superstep (row : ExecutionRow) : Option ExecutionRow :=
  match row.holder with
  | some (.worker _ .inGraph) => some row
  | _ => none

def leaveGraph (row : ExecutionRow) (outcome : PassOutcome) : Option ExecutionRow :=
  match row.holder with
  | some (.worker work .inGraph) =>
      some { row with holder := some (.worker work (.finished outcome)) }
  | _ => none

/-- `publish_event` comes before the commit. -/
def publish (row : ExecutionRow) : Option ExecutionRow :=
  match row.holder with
  | some (.worker work (.finished outcome)) =>
      some { row with
        holder := some (.worker work (.published outcome))
        lateEvents :=
          if row.cancelAccepted then row.lateEvents ++ [eventName work outcome]
          else row.lateEvents }
  | _ => none

def commit (row : ExecutionRow) : Option ExecutionRow :=
  match row.holder with
  | some (.worker _ (.published outcome)) =>
      some { row with status := .ofOutcome outcome, holder := none }
  | some .cancelling =>
      some { row with status := .cancelled, holder := none, cancelAccepted := true }
  | _ => none

def rollback (row : ExecutionRow) : Option ExecutionRow :=
  match row.holder with
  | some _ => some { row with holder := none }
  | none => none

end ExecutionRow

def rowStep (row : ExecutionRow) : RowOp → Option ExecutionRow
  | .requestResume valueGiven => row.requestResume valueGiven
  | .loadTask i => row.loadTask i
  | .loadCancel => row.loadCancel
  | .leave i => row.leave i
  | .flushRunning i => row.flushRunning i
  | .flushCancelled i => row.flushCancelled i
  | .enterGraph => row.enterGraph
  | .superstep => row.superstep
  | .leaveGraph outcome => row.leaveGraph outcome
  | .publish => row.publish
  | .commit => row.commit
  | .rollback => row.rollback

/-- What each operation does to the committed status, the holder and the record of a row. -/
theorem rowStep_cases {row row' : ExecutionRow} {op : RowOp} (h : rowStep row op = some row') :
    (row'.status = row.status ∧ row'.holder = row.holder ∧
        row'.cancelAccepted = row.cancelAccepted ∧ row'.lateEvents = row.lateEvents ∧
        ((∃ valueGiven, op = .requestResume valueGiven) ∨ (∃ i, op = .loadTask i) ∨
          op = .loadCancel ∨ (∃ i, op = .leave i) ∨
          op = .superstep ∧ ∃ work, row.holder = some (.worker work .inGraph))) ∨
      (∃ i work, op = .flushRunning i ∧ row.holder = none ∧
        row'.holder = some (.worker work .running) ∧ row'.status = row.status ∧
        row'.cancelAccepted = row.cancelAccepted ∧ row'.lateEvents = row.lateEvents) ∨
      (∃ i, op = .flushCancelled i ∧ row.holder = none ∧ row'.holder = some .cancelling ∧
        row'.status = row.status ∧ row'.cancelAccepted = row.cancelAccepted ∧
        row'.lateEvents = row.lateEvents) ∨
      (∃ work, op = .enterGraph ∧ row.holder = some (.worker work .running) ∧
        row' = { row with holder := some (.worker work .inGraph) }) ∨
      (∃ work outcome, op = .leaveGraph outcome ∧
        row.holder = some (.worker work .inGraph) ∧
        row' = { row with holder := some (.worker work (.finished outcome)) }) ∨
      (∃ work outcome, op = .publish ∧ row.holder = some (.worker work (.finished outcome)) ∧
        row' = { row with
          holder := some (.worker work (.published outcome))
          lateEvents :=
            if row.cancelAccepted then row.lateEvents ++ [eventName work outcome]
            else row.lateEvents }) ∨
      (∃ work outcome, op = .commit ∧ row.holder = some (.worker work (.published outcome)) ∧
        row' = { row with status := .ofOutcome outcome, holder := none }) ∨
      (op = .commit ∧ row.holder = some .cancelling ∧
        row' = { row with status := .cancelled, holder := none, cancelAccepted := true }) ∨
      (op = .rollback ∧ (∃ holder, row.holder = some holder) ∧
        row' = { row with holder := none }) := by
  cases op with
  | requestResume valueGiven =>
      simp only [rowStep, ExecutionRow.requestResume] at h
      split at h
      · cases h; simp
      · cases h
  | loadTask i =>
      simp only [rowStep, ExecutionRow.loadTask] at h
      split at h
      · cases h
      · cases h; simp
  | loadCancel => cases h; simp
  | leave i =>
      simp only [rowStep, ExecutionRow.leave] at h
      split at h
      · cases h; simp
      · cases h
  | flushRunning i =>
      simp only [rowStep, ExecutionRow.flushRunning] at h
      split at h
      · next hholder =>
          split at h
          · cases h; simp [hholder]
          · split at h
            · cases h; simp [hholder]
            · cases h
          · cases h
      · cases h
  | flushCancelled i =>
      simp only [rowStep, ExecutionRow.flushCancelled] at h
      split at h
      · next hholder =>
          split at h
          · cases h; simp [hholder]
          · cases h
      · cases h
  | enterGraph =>
      simp only [rowStep, ExecutionRow.enterGraph] at h
      split at h
      · next hholder => cases h; simp [hholder]
      · cases h
  | superstep =>
      simp only [rowStep, ExecutionRow.superstep] at h
      split at h
      · next hholder => cases h; simp [hholder]
      · cases h
  | leaveGraph outcome =>
      simp only [rowStep, ExecutionRow.leaveGraph] at h
      split at h
      · next hholder => cases h; simp [hholder]
      · cases h
  | publish =>
      simp only [rowStep, ExecutionRow.publish] at h
      split at h
      · next hholder => cases h; simp [hholder]
      · cases h
  | commit =>
      simp only [rowStep, ExecutionRow.commit] at h
      split at h
      · next hholder => cases h; simp [hholder]
      · next hholder => cases h; simp [hholder]
      · cases h
  | rollback =>
      simp only [rowStep, ExecutionRow.rollback] at h
      split at h
      · next hholder => cases h; simp [hholder]
      · cases h

/-! ## Cancellation -/

/-- Once a cancellation is committed, the status stays, and neither a completion nor a
failure is published. -/
def CancelFinal (row : ExecutionRow) : Prop :=
  row.cancelAccepted = true →
    row.status = .cancelled ∧ .completed ∉ row.lateEvents ∧ .failed ∉ row.lateEvents

/-- No worker takes a row whose cancellation is committed. -/
def TakesLiveRow (row : ExecutionRow) (op : RowOp) : Prop :=
  ∀ i, op = .flushRunning i → row.status ≠ .cancelled

instance (row : ExecutionRow) (op : RowOp) : Decidable (TakesLiveRow row op) :=
  match op with
  | .flushRunning i =>
      decidable_of_iff (row.status ≠ .cancelled)
        ⟨fun h _ _ => h, fun h => h i rfl⟩
  | .requestResume _ | .loadTask _ | .loadCancel | .leave _ | .flushCancelled _ | .enterGraph
  | .superstep | .leaveGraph _ | .publish | .commit | .rollback => .isTrue nofun

structure CancelInv (row : ExecutionRow) : Prop where
  status : row.cancelAccepted = true → row.status = .cancelled
  events : row.lateEvents = []
  noWorker : row.cancelAccepted = true → ∀ work phase, row.holder ≠ some (.worker work phase)

theorem cancelInv_rowStep {row : ExecutionRow} {op : RowOp} {row' : ExecutionRow}
    (hinv : CancelInv row) (hlive : TakesLiveRow row op) (h : rowStep row op = some row') :
    CancelInv row' := by
  rcases hinv with ⟨hstatus, hevents, hworker⟩
  -- Whoever holds the row as a worker has taken it before any cancellation.
  have hopen : ∀ work phase, row.holder = some (.worker work phase) →
      row.cancelAccepted = false := by
    intro work phase hholder
    cases hc : row.cancelAccepted with
    | false => rfl
    | true => exact absurd hholder (hworker hc work phase)
  rcases rowStep_cases h with ⟨hs, hh, hc, he, -⟩ | ⟨i, work, rfl, -, hh, hs, hc, he⟩ |
    ⟨i, -, -, hh, hs, hc, he⟩ | ⟨work, -, hholder, rfl⟩ | ⟨work, outcome, -, hholder, rfl⟩ |
    ⟨work, outcome, -, hholder, rfl⟩ | ⟨work, outcome, -, hholder, rfl⟩ | ⟨-, -, rfl⟩ |
    ⟨-, -, rfl⟩
  · exact ⟨by rw [hc, hs]; exact hstatus, he ▸ hevents, by rw [hc, hh]; exact hworker⟩
  · have hno : row.cancelAccepted ≠ true := fun hacc => hlive i rfl (hstatus hacc)
    exact ⟨fun hacc => absurd (hc ▸ hacc) hno, he ▸ hevents, fun hacc => absurd (hc ▸ hacc) hno⟩
  · exact ⟨by rw [hc, hs]; exact hstatus, he ▸ hevents, fun _ _ _ hw => by rw [hh] at hw; cases hw⟩
  · have hno := hopen _ _ hholder
    exact ⟨by simp [hno], hevents, by simp [hno]⟩
  · have hno := hopen _ _ hholder
    exact ⟨by simp [hno], hevents, by simp [hno]⟩
  · have hno := hopen _ _ hholder
    exact ⟨by simp [hno], by simp [hno, hevents], by simp [hno]⟩
  · have hno := hopen _ _ hholder
    exact ⟨by simp [hno], hevents, by simp⟩
  · exact ⟨fun _ => rfl, hevents, by simp⟩
  · exact ⟨hstatus, hevents, by simp⟩

/-- In every run of requests and workers on one execution in which no worker takes a row
whose cancellation is committed, cancelled is final. -/
theorem cancelFinal_of_takesLiveRow (ops : List RowOp)
    (h : EveryStep rowStep TakesLiveRow {} ops) : Visits rowStep CancelFinal {} ops := by
  have hstart : CancelInv {} := ⟨nofun, rfl, fun _ _ _ hw => by cases hw⟩
  have hinv := h.visits (fun _ _ _ hp hc hs => cancelInv_rowStep hp hc hs) hstart
  refine hinv.mono fun row hrow hacc => ⟨hrow.status hacc, ?_, ?_⟩
  · simp [hrow.events]
  · simp [hrow.events]

theorem cancelFinal_cancelledTask :
    Visits rowStep CancelFinal {}
      [.loadTask 0, .loadCancel, .flushCancelled 1, .commit, .leave 0] :=
  cancelFinal_of_takesLiveRow _ (by decide)

/-- A worker that starts after the cancellation runs the graph and commits its result. -/
theorem cancelled_overwritten :
    ¬ ∀ ops : List RowOp, Visits rowStep CancelFinal {} ops := by
  intro h
  have hlast := (h [.loadCancel, .flushCancelled 0, .commit, .loadTask 0, .flushRunning 0,
    .enterGraph, .leaveGraph .succeeded, .publish, .commit]).last rfl
  have hstatus := (hlast rfl).1
  cases hstatus

end OpsKnowledge.Workflow
