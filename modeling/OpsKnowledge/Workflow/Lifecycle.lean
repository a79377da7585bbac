import Mathlib.Data.List.Count
import OpsKnowledge.Workflow.ExecutionRows

/-!
# The events of one execution

The integration events that `run_and_persist`, `resume_execution` and the chat pipeline
publish over the life of one execution, its passes one after the other. A pass that
raises before its event is rolled back. The event of a background pass comes before the
commit, which may still fail.
-/

namespace OpsKnowledge.Workflow

open OpsKnowledge.Lib

inductive PassEnd where
  /-- An exception or a cancellation before the event. -/
  | raised
  | ended (outcome : PassOutcome) (committed : Bool)
  deriving DecidableEq, Repr

/-- `pauseEvents` is not in the source: the events of the passes that paused. -/
structure Life where
  started : Bool := false
  status : Status := .pending
  events : List ExecutionEvent := []
  pauseEvents : List ExecutionEvent := []
  deriving DecidableEq, Repr

inductive LifeOp where
  | run (ending : PassEnd)
  | resume (valueGiven : Bool) (ending : PassEnd)
  /-- A chat turn is an execution of its own. It is not `finished` where the client has
  gone, or an exception comes, before the event. -/
  | chatTurn (outcome : PassOutcome) (finished : Bool)
  deriving DecidableEq, Repr

/-- `final_status_holder["status"]`: the driver sets it when an exception comes. -/
def driverStatus : PassOutcome → Status
  | .failed => .failed
  | .succeeded | .waiting => .succeeded

def chatEventName (status : Status) : ExecutionEvent :=
  if status = .succeeded then .completed else .failed

namespace Life

def publish (life : Life) (outcome : PassOutcome) (event : ExecutionEvent) : Life :=
  { life with
    events := life.events ++ [event]
    pauseEvents := if outcome = .waiting then life.pauseEvents ++ [event] else life.pauseEvents }

def drive (life : Life) (work : Work) : PassEnd → Life
  | .raised => life
  | .ended outcome true =>
      { life.publish outcome (eventName work outcome) with status := .ofOutcome outcome }
  | .ended outcome false => life.publish outcome (eventName work outcome)

def chatTurn (life : Life) (outcome : PassOutcome) (finished : Bool) : Life :=
  let driven := { life with status := driverStatus outcome }
  if finished then driven.publish outcome (chatEventName driven.status) else driven

end Life

def lifeStep (life : Life) : LifeOp → Option Life
  | .run ending =>
      if life.started then none else some ({ life with started := true }.drive .run ending)
  | .resume valueGiven ending =>
      if life.status = .waiting then some (life.drive (.resume valueGiven) ending) else none
  | .chatTurn outcome finished =>
      if life.started then none else some ({ life with started := true }.chatTurn outcome finished)

/-! ## What the events have to say -/

structure Reported (life : Life) : Prop where
  failed : life.events.count .failed = if life.status = .failed then 1 else 0
  pauses : ∀ event ∈ life.pauseEvents, event ≠ .completed ∧ event ≠ .failed

/-- A run does not pause, a failure that was reported is committed, and a chat turn reports
its failure and does not pause. -/
def PassReported : LifeOp → Prop
  | .run (.ended outcome committed) =>
      outcome ≠ .waiting ∧ (outcome = .failed → committed = true)
  | .resume _ (.ended outcome committed) => outcome = .failed → committed = true
  | .run .raised | .resume _ .raised => True
  | .chatTurn outcome finished =>
      (outcome = .waiting → finished = false) ∧ (outcome = .failed → finished = true)

/-- Before its first pass an execution has no event. -/
def Untouched (life : Life) : Prop :=
  life.started = false → life.status = .pending ∧ life.events = [] ∧ life.pauseEvents = []

theorem Life.started_drive {life : Life} (work : Work) (ending : PassEnd) :
    (life.drive work ending).started = life.started := by
  cases ending with
  | raised => rfl
  | ended outcome committed => cases committed <;> rfl

/-- An execution that waits has started. -/
theorem untouched_lifeStep {life life' : Life} {op : LifeOp} (h : Untouched life)
    (hstep : lifeStep life op = some life') : Untouched life' := by
  intro hstarted
  cases op with
  | run ending =>
      cases hlife : life.started with
      | true => simp [lifeStep, hlife] at hstep
      | false =>
          simp only [lifeStep, hlife, Bool.false_eq_true, if_false, Option.some.injEq] at hstep
          rw [← hstep, Life.started_drive] at hstarted
          cases hstarted
  | resume valueGiven ending =>
      by_cases hwaiting : life.status = .waiting
      · simp only [lifeStep, if_pos hwaiting, Option.some.injEq] at hstep
        rw [← hstep, Life.started_drive] at hstarted
        have hpending := (h hstarted).1
        rw [hwaiting] at hpending
        cases hpending
      · simp [lifeStep, hwaiting] at hstep
  | chatTurn outcome finished =>
      cases hlife : life.started with
      | true => simp [lifeStep, hlife] at hstep
      | false =>
          simp only [lifeStep, hlife, Bool.false_eq_true, if_false, Option.some.injEq] at hstep
          rw [← hstep] at hstarted
          cases finished <;> cases hstarted

/-! ## One pass -/

section Pass

variable {life : Life}

/-- Publishing one more event and moving to another status. -/
theorem reported_publish_iff (hlife : Reported life) (hstatus : life.status ≠ .failed)
    (outcome : PassOutcome) (event : ExecutionEvent) (status : Status) :
    Reported { life.publish outcome event with status := status } ↔
      (event = .failed ↔ status = .failed) ∧ (outcome = .waiting → event = .waiting) := by
  have hnone : life.events.count .failed = 0 := by
    rw [hlife.failed, if_neg hstatus]
  constructor
  · intro h
    have hcount := h.failed
    simp only [Life.publish, List.count_append, hnone, Nat.zero_add] at hcount
    refine ⟨?_, ?_⟩
    · cases event <;> by_cases hs : status = .failed <;> simp_all
    · intro houtcome
      have hpause := h.pauses event (by simp [Life.publish, houtcome])
      cases event with
      | completed => exact absurd rfl hpause.1
      | failed => exact absurd rfl hpause.2
      | waiting => rfl
  · rintro ⟨hevent, hpause⟩
    refine ⟨?_, ?_⟩
    · simp only [Life.publish, List.count_append, hnone, Nat.zero_add]
      cases event <;> by_cases hs : status = .failed <;> simp_all
    · intro event' hmem
      by_cases houtcome : outcome = .waiting
      · simp only [Life.publish, if_pos houtcome] at hmem
        rcases List.mem_append.1 hmem with hmem | hmem
        · exact hlife.pauses event' hmem
        · rw [List.mem_singleton.1 hmem, hpause houtcome]
          exact ⟨nofun, nofun⟩
      · simp only [Life.publish, if_neg houtcome] at hmem
        exact hlife.pauses event' hmem

theorem reported_drive_iff (hlife : Reported life) (hstatus : life.status ≠ .failed) (work : Work)
    (outcome : PassOutcome) (committed : Bool) :
    Reported (life.drive work (.ended outcome committed)) ↔
      (work = .run → outcome ≠ .waiting) ∧ (outcome = .failed → committed = true) := by
  cases committed with
  | true =>
      have h := reported_publish_iff hlife hstatus outcome (eventName work outcome)
        (.ofOutcome outcome)
      refine h.trans ?_
      cases work <;> cases outcome <;> simp [eventName, Status.ofOutcome]
  | false =>
      have h := reported_publish_iff hlife hstatus outcome (eventName work outcome) life.status
      refine h.trans ?_
      cases work <;> cases outcome <;> simp [eventName, hstatus]

theorem reported_chatTurn_iff (hlife : Reported life) (hstatus : life.status ≠ .failed)
    (outcome : PassOutcome) (finished : Bool) :
    Reported (life.chatTurn outcome finished) ↔
      (outcome = .waiting → finished = false) ∧ (outcome = .failed → finished = true) := by
  cases finished with
  | true =>
      have h := reported_publish_iff hlife hstatus outcome (chatEventName (driverStatus outcome))
        (driverStatus outcome)
      refine h.trans ?_
      cases outcome <;> simp [chatEventName, driverStatus]
  | false =>
      have hnone : life.events.count .failed = 0 := by
        rw [hlife.failed, if_neg hstatus]
      constructor
      · intro h
        have hcount := h.failed
        cases outcome <;> simp_all [Life.chatTurn, driverStatus]
      · rintro ⟨-, hfailed⟩
        refine ⟨?_, hlife.pauses⟩
        cases outcome <;> simp_all [Life.chatTurn, driverStatus]

end Pass

/-- From a life that is reported, a pass leads to one exactly under `PassReported`. -/
theorem reported_lifeStep_iff {life life' : Life} {op : LifeOp} (huntouched : Untouched life)
    (hlife : Reported life) (hstep : lifeStep life op = some life') :
    Reported life' ↔ PassReported op := by
  have hfresh : life.started = false →
      Reported { life with started := true } ∧ life.status ≠ .failed := by
    intro hstarted
    have hpending := (huntouched hstarted).1
    exact ⟨⟨hlife.failed, hlife.pauses⟩, by rw [hpending]; exact nofun⟩
  cases op with
  | run ending =>
      cases hstarted : life.started with
      | true => simp [lifeStep, hstarted] at hstep
      | false =>
          rcases hfresh hstarted with ⟨hreported, hstatus⟩
          simp only [lifeStep, hstarted, Bool.false_eq_true, if_false, Option.some.injEq] at hstep
          rw [← hstep]
          cases ending with
          | raised => exact ⟨fun _ => trivial, fun _ => hreported⟩
          | ended outcome committed =>
              refine (reported_drive_iff hreported hstatus .run outcome committed).trans ?_
              simp [PassReported]
  | resume valueGiven ending =>
      by_cases hwaiting : life.status = .waiting
      · simp only [lifeStep, if_pos hwaiting, Option.some.injEq] at hstep
        rw [← hstep]
        have hstatus : life.status ≠ .failed := by rw [hwaiting]; exact nofun
        cases ending with
        | raised => exact ⟨fun _ => trivial, fun _ => hlife⟩
        | ended outcome committed =>
            refine (reported_drive_iff hlife hstatus _ outcome committed).trans ?_
            simp [PassReported]
      · simp [lifeStep, hwaiting] at hstep
  | chatTurn outcome finished =>
      cases hstarted : life.started with
      | true => simp [lifeStep, hstarted] at hstep
      | false =>
          rcases hfresh hstarted with ⟨hreported, hstatus⟩
          simp only [lifeStep, hstarted, Bool.false_eq_true, if_false, Option.some.injEq] at hstep
          rw [← hstep]
          exact reported_chatTurn_iff hreported hstatus outcome finished

/-- A life is reported at every point exactly where each of its passes is. -/
theorem life_reported_iff (ops : List LifeOp) :
    Visits lifeStep Reported {} ops ↔ EveryStep lifeStep (fun _ op => PassReported op) {} ops := by
  have hinv : ∀ life op life', Untouched life → lifeStep life op = some life' → Untouched life' :=
    fun _ _ _ => untouched_lifeStep
  have hstart : Untouched {} := fun _ => ⟨rfl, rfl, rfl⟩
  have hreported : Reported {} := ⟨rfl, nofun⟩
  exact visits_iff_everyStep_of_inv hinv (fun _ _ _ => reported_lifeStep_iff) hstart hreported ops

/-- The run pauses for an approval, and is reported as failed. -/
theorem paused_run_reported_failed :
    ¬ ∀ ops : List LifeOp, Visits lifeStep Reported {} ops := by
  intro h
  have hlast := (h [.run (.ended .waiting true)]).last rfl
  have hcount : 1 = 0 := hlast.failed
  omega

end OpsKnowledge.Workflow
