import OpsKnowledge.Lib.Broadcast
import OpsKnowledge.Lib.Transition
import OpsKnowledge.Orchestrator.Models
import OpsKnowledge.Workflow.Publishing

/-!
# Workflows that alerts launch

Every server process listens to the channel of events and launches, for each governance alert
that it takes, the published workflows whose filters let the alert pass. It reads the workflows
once for an alert, and launches those that match beside one another; only then does it take the
next event. Any number of processes, edits and deletions of workflows and failures come in between.
-/

namespace OpsKnowledge.Workflow

open OpsKnowledge.Lib
open OpsKnowledge.Orchestrator (pyIn elements getField)

inductive EventName where
  | documentCompleted | documentFailed | reindexCompleted
  | executionCompleted | executionFailed | governanceAlert
  deriving DecidableEq, Repr

/-- `Event` of the bus between the domains; `data` is a dict. -/
structure BusEvent where
  name : EventName
  data : Json

/-! ## Workflows that may be deleted -/

/-- The tables, with the ids of the workflows that have been deleted. -/
structure WorkflowTables extends Store where
  deleted : List Nat := []

/-- The workflow that an operation is about. -/
def StoreOp.target : StoreOp → Option Nat
  | .create _ => none
  | .update wfId _ | .publish wfId | .revertToDraft wfId | .rollbackToDraft wfId _ => some wfId

namespace WorkflowTables

/-- `db.get(Workflow, wf_id)` -/
def get (t : WorkflowTables) (wfId : Nat) : Option WorkflowRow :=
  if wfId ∈ t.deleted then none else t.workflows[wfId]?

/-- An operation on a workflow that is gone raises. -/
def apply (modelValidate : Json → Except Exn WorkflowDSL) (t : WorkflowTables) (op : StoreOp) :
    Option WorkflowTables :=
  if op.target.any (· ∈ t.deleted) then none
  else (t.toStore.apply modelValidate op).toOption.map fun store => { t with toStore := store }

/-- `WorkflowService.delete`; the versions go with the workflow. -/
def delete (t : WorkflowTables) (wfId : Nat) : Option WorkflowTables :=
  (t.get wfId).map fun _ =>
    { t with
      versions := t.versions.filter fun row => row.workflowId ≠ wfId
      deleted := t.deleted ++ [wfId] }

end WorkflowTables

section Matching

/-- `TRIGGER_TYPE` -/
def governanceEvent : String := "governance_event"

/-- `a or b` -/
def orElse (a b : Json) : Json := if a.truthy then a else b

/-- `str(data.get(key) or "")` -/
def dataText (str : Json → String) (data : Json) (key : String) : String :=
  let value := (data.get? key).getD .null
  if value.truthy then str value else ""

/-- `not (items and value not in items)` -/
def passes (items : Json) (isIn : Except Orchestrator.Exn Bool) : Except Orchestrator.Exn Bool :=
  if items.truthy then isIn else .ok true

/-- `_matches` -/
def matchesAlert (str : Json → String) (wf : WorkflowRow) (kind kbId severity : String) :
    Except Orchestrator.Exn Bool := do
  let config ← getField "trigger_config" (orElse wf.graphData (.obj []))
  match orElse config (.obj []) with
  | .obj cfg =>
      let kinds := orElse ((cfg.lookup "kinds").getD .null) (.arr [])
      if !(← passes kinds (pyIn (.str kind) kinds)) then return false
      let kbIds := orElse ((cfg.lookup "kb_ids").getD .null) (.arr [])
      if !(← passes kbIds ((elements kbIds).map fun xs => (xs.map str).contains kbId)) then return false
      let severities := orElse ((cfg.lookup "severities").getD .null) (.arr [])
      passes severities (pyIn (.str severity) severities)
  | _ => return false

/-- An alert that is not returned from at once. -/
def isAlert (str : Json → String) (e : BusEvent) : Bool :=
  decide (e.name = .governanceAlert) && dataText str e.data "kind" ≠ "" && dataText str e.data "kb_id" ≠ ""

/-- `_matches` of a row, on what the alert says. -/
def rowMatches (str : Json → String) (data : Json) (row : WorkflowRow × Nat) : Except Orchestrator.Exn Bool :=
  matchesAlert str row.1 (dataText str data "kind") (dataText str data "kb_id") (dataText str data "severity")

/-- The published workflows that alerts launch, with their ids. -/
def triggerRows (triggerType : Nat → String) (t : WorkflowTables) : List (WorkflowRow × Nat) :=
  t.workflows.zipIdx.filter fun row =>
    row.2 ∉ t.deleted ∧ triggerType row.2 = governanceEvent ∧ row.1.status = .published

/-- `matched`: the ids of the rows that match; a row that cannot be tested raises. -/
def matchedIds (str : Json → String) (data : Json) :
    List (WorkflowRow × Nat) → Except Orchestrator.Exn (List Nat)
  | [] => .ok []
  | row :: rows => do
      let found ← rowMatches str data row
      let rest ← matchedIds str data rows
      return if found then row.2 :: rest else rest

/-- What the alert launches: nothing where a row raises. -/
def alertTargets (triggerType : Nat → String) (str : Json → String) (t : WorkflowTables) (data : Json) :
    List Nat :=
  (matchedIds str data (triggerRows triggerType t)).toOption.getD []

end Matching

/-- The alert that a process has in hand: the workflows still to launch, `none` before it is read which
match, and how many of those that were launched still run. -/
structure AlertJob where
  number : Nat
  data : Json
  pending : Option (List Nat) := none
  running : Nat := 0

/-- A row of `workflow_executions` that an alert has made, with the graph that `run_and_persist` reads: that
of the row which its session has loaded for `create_execution`. -/
structure AlertExecution where
  process : Nat
  number : Nat
  workflowId : Nat
  workflowVersion : Nat
  triggerInput : Json
  graph : Json

/-- The tables, the channel and the server processes; `executions` keeps those of deleted workflows. -/
structure Deployment where
  tables : WorkflowTables := {}
  bus : Channel Nat BusEvent := {}
  jobs : Nat → Option AlertJob := fun _ => none
  executions : List AlertExecution := []
  /-- Launches that failed or were cut off: process, alert and workflow. -/
  lost : List (Nat × Nat × Nat) := []
  /-- The workflows and the data that a process had before it for an alert. -/
  seen : Nat → Nat → Option (WorkflowTables × Json) := fun _ _ => none
  /-- The alerts during whose handling the database failed, a workflow to launch was gone or the process
  stopped. -/
  faults : List (Nat × Nat) := []

inductive DeploymentAction where
  | edit (op : StoreOp)
  | delete (wfId : Nat)
  | publish (e : BusEvent)
  | subscribe (process : Nat)
  | disconnect (process : Nat)
  | receive (process : Nat)
  | select (process : Nat)
  | selectFails (process : Nat)
  | launch (process i : Nat)
  | launchFails (process i : Nat)
  | finish (process : Nat)
  | stop (process : Nat)

/-- The handler goes on while something is to launch or runs. -/
def AlertJob.next (job : AlertJob) (ids : List Nat) (running : Nat) : Option AlertJob :=
  if ids = [] ∧ running = 0 then none else some { job with pending := some ids, running := running }

namespace Deployment

variable (modelValidate : Json → Except Exn WorkflowDSL) (str : Json → String) (triggerType : Nat → String)

/-- The handler begins, or has nothing to do. -/
def receive (s : Deployment) (p : Nat) : Option Deployment :=
  if (s.jobs p).isSome then none
  else
    (s.bus.take p).map fun (x, bus) =>
      if isAlert str x.1 then
        { s with bus := bus, jobs := Function.update s.jobs p (some { number := x.2, data := x.1.data }) }
      else { s with bus := bus }

/-- `handle_governance_alert` reads the rows, and which of them match. -/
def select (s : Deployment) (p : Nat) : Option Deployment :=
  (s.jobs p).bind fun job =>
    if job.pending.isSome then none
    else some { s with
      jobs := Function.update s.jobs p (job.next (alertTargets triggerType str s.tables job.data) 0)
      seen := Function.update s.seen p
        (Function.update (s.seen p) job.number (some (s.tables, job.data))) }

def selectFails (s : Deployment) (p : Nat) : Option Deployment :=
  (s.jobs p).bind fun job =>
    if job.pending.isSome then none
    else some { s with jobs := Function.update s.jobs p none, faults := s.faults ++ [(p, job.number)] }

/-- `_launch` of one workflow of a job up to its commit: `create_execution` asks for a published graph of a
workflow that is still there. -/
def launchOne (s : Deployment) (p : Nat) (job : AlertJob) (wfId : Nat) (ids : List Nat) : Deployment :=
  match s.tables.get wfId with
  | none =>
      { s with
        jobs := Function.update s.jobs p (job.next ids job.running)
        lost := s.lost ++ [(p, job.number, wfId)]
        faults := s.faults ++ [(p, job.number)] }
  | some wf =>
      match wf.publishedGraphData with
      | none =>
          { s with
            jobs := Function.update s.jobs p (job.next ids job.running)
            lost := s.lost ++ [(p, job.number, wfId)] }
      | some graph =>
          { s with
            jobs := Function.update s.jobs p (job.next ids (job.running + 1))
            executions := s.executions ++ [{
              process := p, number := job.number, workflowId := wfId, workflowVersion := wf.version
              triggerInput := job.data, graph := graph }] }

def launch (s : Deployment) (p i : Nat) : Option Deployment :=
  (s.jobs p).bind fun job => job.pending.bind fun ids =>
    ids[i]?.map fun wfId => s.launchOne p job wfId (ids.eraseIdx i)

def launchFails (s : Deployment) (p i : Nat) : Option Deployment :=
  (s.jobs p).bind fun job => job.pending.bind fun ids =>
    ids[i]?.map fun wfId =>
      { s with
        jobs := Function.update s.jobs p (job.next (ids.eraseIdx i) job.running)
        lost := s.lost ++ [(p, job.number, wfId)]
        faults := s.faults ++ [(p, job.number)] }

/-- A run ends, in whatever way. -/
def finish (s : Deployment) (p : Nat) : Option Deployment :=
  (s.jobs p).bind fun job => job.pending.bind fun ids =>
    if job.running = 0 then none
    else some { s with jobs := Function.update s.jobs p (job.next ids (job.running - 1)) }

/-- The process ends, with whatever it is about. -/
def stop (s : Deployment) (p : Nat) : Deployment :=
  match s.jobs p with
  | none => { s with bus := s.bus.drop p }
  | some job =>
      { s with
        bus := s.bus.drop p
        jobs := Function.update s.jobs p none
        lost := s.lost ++ (job.pending.getD []).map fun wfId => (p, job.number, wfId)
        faults := s.faults ++ [(p, job.number)] }

def step (s : Deployment) : DeploymentAction → Option Deployment
  | .edit op => (s.tables.apply modelValidate op).map fun tables => { s with tables := tables }
  | .delete wfId => (s.tables.delete wfId).map fun tables => { s with tables := tables }
  | .publish e => some { s with bus := s.bus.publish e }
  | .subscribe p => some { s with bus := s.bus.subscribe p }
  | .disconnect p => some { s with bus := s.bus.drop p }
  | .receive p => s.receive str p
  | .select p => s.select str triggerType p
  | .selectFails p => s.selectFails p
  | .launch p i => s.launch p i
  | .launchFails p i => s.launchFails p i
  | .finish p => s.finish p
  | .stop p => some (s.stop p)

end Deployment

/-! ## What matches -/

section Targets

variable {str : Json → String} {triggerType : Nat → String} {t : WorkflowTables} {data : Json}

/-- A row that can be tested and lets the alert pass. -/
def rowPasses (str : Json → String) (data : Json) (row : WorkflowRow × Nat) : Bool :=
  (rowMatches str data row).toOption.getD false

theorem matchedIds_cons_ok {row : WorkflowRow × Nat} {found : Bool}
    (hrow : rowMatches str data row = .ok found) (rows : List (WorkflowRow × Nat)) :
    (matchedIds str data (row :: rows)).toOption =
      (matchedIds str data rows).toOption.map fun rest => if found then row.2 :: rest else rest := by
  rw [matchedIds, hrow]
  cases matchedIds str data rows with
  | error e => rfl
  | ok rest => rfl

theorem matchedIds_toOption (rows : List (WorkflowRow × Nat)) :
    (matchedIds str data rows).toOption =
      if rows.all fun row => (rowMatches str data row).isOk then
        some ((rows.filter (rowPasses str data)).map Prod.snd)
      else none := by
  induction rows with
  | nil => rfl
  | cons row rows ih =>
      rw [List.all_cons, List.filter_cons]
      cases hrow : rowMatches str data row with
      | error e =>
          rw [matchedIds, hrow]
          rfl
      | ok found =>
          have hpasses : rowPasses str data row = found := by
            rw [rowPasses, hrow]
            rfl
          have hok : (Except.ok found : Except Orchestrator.Exn Bool).isOk = true := rfl
          rw [matchedIds_cons_ok hrow, ih, hpasses, hok, Bool.true_and]
          cases rows.all fun row => (rowMatches str data row).isOk with
          | false => rfl
          | true =>
              cases found with
              | false => rfl
              | true => rfl

/-- All rows can be tested, and this one matches. -/
theorem mem_alertTargets {wfId : Nat} : wfId ∈ alertTargets triggerType str t data ↔
    (∀ row ∈ triggerRows triggerType t, (rowMatches str data row).isOk) ∧
      ∃ wf, (wf, wfId) ∈ triggerRows triggerType t ∧ rowPasses str data (wf, wfId) := by
  unfold alertTargets
  rw [matchedIds_toOption]
  split
  · next hall =>
      rw [List.all_eq_true] at hall
      rw [Option.getD_some, List.mem_map]
      constructor
      · rintro ⟨⟨wf, id⟩, hrow, rfl⟩
        exact ⟨hall, wf, List.mem_filter.1 hrow⟩
      · rintro ⟨-, wf, hrow⟩
        exact ⟨(wf, wfId), List.mem_filter.2 hrow, rfl⟩
  · next hnot =>
      rw [List.all_eq_true] at hnot
      constructor
      · intro h
        cases h
      · exact fun h => absurd h.1 hnot

theorem mem_triggerRows {wf : WorkflowRow} {wfId : Nat} : (wf, wfId) ∈ triggerRows triggerType t ↔
    t.get wfId = some wf ∧ triggerType wfId = governanceEvent ∧ wf.status = .published := by
  unfold triggerRows WorkflowTables.get
  rw [List.mem_filter, List.mem_zipIdx_iff_getElem?, decide_eq_true_eq]
  by_cases hgone : wfId ∈ t.deleted
  · simp [hgone]
  · simp [hgone]

end Targets

/-! ## Workflows stay runnable -/

/-- Published workflows have a published graph. -/
def Runnable (s : Store) : Prop :=
  ∀ (wfId : Nat) (wf : WorkflowRow), s.workflows[wfId]? = some wf → wf.status = .published →
    wf.publishedGraphData.isSome

def HasGraph (s : Store) (wfId : Nat) : Prop :=
  ∃ wf, s.workflows[wfId]? = some wf ∧ wf.publishedGraphData.isSome

section Stores

variable {modelValidate : Json → Except Exn WorkflowDSL} {s s' : Store} {op : StoreOp}

theorem HasGraph.set {wfId id : Nat} {wf wf' : WorkflowRow} (h : HasGraph s wfId)
    (hwf : s.workflows[id]? = some wf)
    (hgraph : wf.publishedGraphData.isSome → wf'.publishedGraphData.isSome) :
    ∃ new, (s.workflows.set id wf')[wfId]? = some new ∧ new.publishedGraphData.isSome := by
  obtain ⟨old, hold, hsome⟩ := h
  rcases exists_lookup_set hwf wf' hold with ⟨new, hnew, ⟨-, rfl, rfl⟩ | ⟨-, rfl⟩⟩
  · exact ⟨_, hnew, hgraph hsome⟩
  · exact ⟨_, hnew, hsome⟩

/-- A published graph is not taken back. -/
theorem HasGraph.apply (h : s.apply modelValidate op = .ok s') {wfId : Nat} (hgraph : HasGraph s wfId) :
    HasGraph s' wfId := by
  rcases Store.apply_cases h with ⟨graph, rfl⟩ | rfl | ⟨id, wf, wf', hwf, -, hsame, rfl⟩ |
    ⟨id, wf, dsl, -, hwf, -, -, rfl⟩
  · obtain ⟨wf, hwf, hsome⟩ := hgraph
    exact ⟨wf, lookup_concat hwf _, hsome⟩
  · exact hgraph
  · exact hgraph.set hwf fun hsome => hsame ▸ hsome
  · exact hgraph.set hwf fun _ => rfl

theorem Runnable.set {id : Nat} {wf' : WorkflowRow} (h : Runnable s)
    (hwf' : wf'.status = .published → wf'.publishedGraphData.isSome) : Runnable (s.setWorkflow id wf') := by
  intro wfId wf hwf hstatus
  rcases lookup_set_cases hwf with ⟨rfl, rfl⟩ | ⟨-, hold⟩
  · exact hwf' hstatus
  · exact h wfId wf hold hstatus

theorem Runnable.apply (h : s.apply modelValidate op = .ok s') (hs : Runnable s) : Runnable s' := by
  cases op with
  | create graphData =>
      rcases bind_eq_ok.1 h with ⟨dsl, -, hret⟩
      cases hret
      intro wfId wf hwf hstatus
      rcases lookup_concat_cases hwf with hwf | ⟨-, rfl⟩
      · exact hs wfId wf hwf hstatus
      · cases hstatus
  | update id graphData =>
      rcases bind_eq_ok.1 h with ⟨wf, hget, hrest⟩
      cases graphData with
      | none => cases hrest; exact hs
      | some graph =>
          rcases bind_eq_ok.1 hrest with ⟨dsl, -, hret⟩
          cases hret
          exact hs.set fun hstatus => hs id wf (Store.get_eq_ok.1 hget) hstatus
  | publish id =>
      rcases bind_eq_ok.1 h with ⟨wf, -, hrest⟩
      rcases bind_eq_ok.1 hrest with ⟨dsl, -, hrest⟩
      by_cases hsmall : dsl.graph.nodes.length < 2
      · simp only [if_pos hsmall] at hrest
        cases hrest
      · simp only [if_neg hsmall] at hrest
        split at hrest
        · cases hrest
        · cases hrest
          have hpromoted : Runnable (s.setWorkflow id (Store.promoted wf)) := hs.set fun _ => rfl
          exact hpromoted
  | revertToDraft id =>
      rcases bind_eq_ok.1 h with ⟨wf, hget, hret⟩
      cases hret
      exact hs.set fun hstatus => by cases hstatus
  | rollbackToDraft id version =>
      simp only [Store.apply, Store.rollbackToDraft] at h
      split at h
      · cases h
      · rcases bind_eq_ok.1 h with ⟨row, -, hret⟩
        cases hret
        exact hs.set fun hstatus => by cases hstatus

theorem WorkflowTables.apply_eq_some {t t' : WorkflowTables} (h : t.apply modelValidate op = some t') :
    ∃ store, t.toStore.apply modelValidate op = .ok store ∧ t' = { t with toStore := store } := by
  unfold WorkflowTables.apply at h
  split at h
  · cases h
  · obtain ⟨store, hstore, rfl⟩ := Option.map_eq_some_iff.1 h
    cases happly : t.toStore.apply modelValidate op with
    | error e =>
        rw [happly] at hstore
        cases hstore
    | ok store' =>
        rw [happly] at hstore
        cases hstore
        exact ⟨store, rfl, rfl⟩

/-- A workflow that is there is the one of the table. -/
theorem WorkflowTables.get_eq_some {t : WorkflowTables} {wfId : Nat} {wf : WorkflowRow}
    (h : t.get wfId = some wf) : t.workflows[wfId]? = some wf := by
  unfold WorkflowTables.get at h
  split at h
  · cases h
  · exact h

end Stores

/-! ## What became of an alert in a process -/

/-- The workflows of the job that are still to launch for this alert. -/
def AlertJob.pendingFor (job : Option AlertJob) (k : Nat) : List Nat :=
  (job.filter fun j => j.number = k).elim [] fun j => j.pending.getD []

namespace Deployment

/-- The workflows of which the process has made an execution for the alert. -/
def made (s : Deployment) (p k : Nat) : List Nat :=
  (s.executions.filter fun x => x.process = p ∧ x.number = k).map AlertExecution.workflowId

def lostOf (s : Deployment) (p k : Nat) : List Nat :=
  (s.lost.filter fun x => x.1 = p ∧ x.2.1 = k).map fun x => x.2.2

def pendingOf (s : Deployment) (p k : Nat) : List Nat := AlertJob.pendingFor (s.jobs p) k

/-- What the process had to launch for the alert, since it has read the rows. -/
def targets (str : Json → String) (triggerType : Nat → String) (s : Deployment) (p k : Nat) : List Nat :=
  (s.seen p k).elim [] fun x => alertTargets triggerType str x.1 x.2

/-- The process has taken the alert, with this data. -/
def Took (str : Json → String) (s : Deployment) (p k : Nat) (data : Json) : Prop :=
  ∃ e, (e, k) ∈ s.bus.taken p ∧ isAlert str e = true ∧ e.data = data

/-- What holds in every state. -/
structure Sound (str : Json → String) (triggerType : Nat → String) (s : Deployment) : Prop where
  bus : s.bus.Sound
  store : StoreInv s.tables.toStore
  runnable : Runnable s.tables.toStore
  job : ∀ p job, s.jobs p = some job → s.Took str p job.number job.data
  reading : ∀ p job, s.jobs p = some job → job.pending = none → s.seen p job.number = none
  waiting : ∀ p job ids, s.jobs p = some job → job.pending = some ids →
    ∀ wfId ∈ ids, HasGraph s.tables.toStore wfId
  seen : ∀ p k x, s.seen p k = some x → s.Took str p k x.2
  ledger : ∀ p k, (s.made p k ++ s.lostOf p k ++ s.pendingOf p k).Perm (s.targets str triggerType p k)
  handled : ∀ p k data, s.Took str p k data → (s.seen p k).isSome ∨ (p, k) ∈ s.faults ∨
    ∃ job, s.jobs p = some job ∧ job.number = k ∧ job.pending = none
  blamed : ∀ p k, s.lostOf p k ≠ [] → (p, k) ∈ s.faults
  executions : ∀ x ∈ s.executions, s.Took str x.process x.number x.triggerInput

end Deployment

section Jobs

/-- Rows that all are, or all are not, what is asked for. -/
theorem filter_uniform {α : Type} {P : α → Prop} [DecidablePred P] {c : Prop} [Decidable c] {ls : List α}
    (h : ∀ l ∈ ls, P l ↔ c) : ls.filter (fun l => P l) = if c then ls else [] := by
  split
  · next hc => exact List.filter_eq_self.2 fun l hl => decide_eq_true ((h l hl).2 hc)
  · next hc => exact List.filter_eq_nil_iff.2 fun l hl => by simpa [h l hl] using hc

theorem perm_parts {α : Type} (a b x l r : List α) :
    (a ++ x ++ (b ++ l) ++ r).Perm (a ++ b ++ (x ++ l ++ r)) := by
  have hmiddle : (x ++ (b ++ l)).Perm (b ++ (x ++ l)) := by
    rw [← List.append_assoc, ← List.append_assoc]
    exact List.perm_append_comm.append_right l
  simpa [List.append_assoc] using (hmiddle.append_left a).append_right r

theorem update_eq_some {α : Type} {f : Nat → Option α} {p q : Nat} {new : Option α} {a : α}
    (h : Function.update f p new q = some a) : q = p ∧ new = some a ∨ q ≠ p ∧ f q = some a := by
  by_cases hq : q = p
  · subst hq
    rw [Function.update_self] at h
    exact .inl ⟨rfl, h⟩
  · rw [Function.update_of_ne hq] at h
    exact .inr ⟨hq, h⟩

variable {job : AlertJob} {ids : List Nat} {running k : Nat}

@[simp] theorem AlertJob.pendingFor_none : AlertJob.pendingFor none k = [] := rfl

@[simp] theorem AlertJob.pendingFor_some :
    AlertJob.pendingFor (some job) k = if job.number = k then job.pending.getD [] else [] := by
  unfold AlertJob.pendingFor
  by_cases hk : job.number = k
  · simp [Option.filter, hk]
  · simp [Option.filter, hk]

@[simp] theorem AlertJob.pendingFor_next :
    AlertJob.pendingFor (job.next ids running) k = if job.number = k then ids else [] := by
  unfold AlertJob.next
  split
  · next h => simp [h.1]
  · simp

theorem AlertJob.pendingFor_update (jobs : Nat → Option AlertJob) (p q : Nat) (new : Option AlertJob) :
    AlertJob.pendingFor (Function.update jobs p new q) k =
      if q = p then AlertJob.pendingFor new k else AlertJob.pendingFor (jobs q) k := by
  by_cases hq : q = p
  · subst hq
    rw [Function.update_self, if_pos rfl]
  · rw [Function.update_of_ne hq, if_neg hq]

theorem AlertJob.next_eq_some {job' : AlertJob} (h : job.next ids running = some job') :
    job'.number = job.number ∧ job'.data = job.data ∧ job'.pending = some ids := by
  unfold AlertJob.next at h
  split at h
  · cases h
  · cases h
    exact ⟨rfl, rfl, rfl⟩

end Jobs

namespace Deployment

section Steps

variable {modelValidate : Json → Except Exn WorkflowDSL} {str : Json → String} {triggerType : Nat → String}
variable {s : Deployment} {p k : Nat}

theorem Took.unique {data data' : Json} (hs : s.bus.Sound) (h : s.Took str p k data)
    (h' : s.Took str p k data') : data = data' := by
  obtain ⟨e, he, -, rfl⟩ := h
  obtain ⟨e', he', -, rfl⟩ := h'
  rw [hs.eq_of_taken he he']

theorem sound_empty : Sound str triggerType {} where
  bus := Channel.sound_empty
  store := storeInv_empty
  runnable := nofun
  job := nofun
  reading := nofun
  waiting := nofun
  seen := nofun
  ledger _ _ := List.Perm.refl _
  handled := by
    rintro p k data ⟨e, he, -⟩
    cases he
  blamed p k h := absurd rfl h
  executions := nofun

variable (hs : Sound str triggerType s)
include hs

/-- The tables change, and workflows keep their published graphs. -/
theorem sound_tables {tables : WorkflowTables} (hstore : StoreInv tables.toStore)
    (hrunnable : Runnable tables.toStore)
    (hgraph : ∀ wfId, HasGraph s.tables.toStore wfId → HasGraph tables.toStore wfId) :
    Sound str triggerType { s with tables := tables } where
  bus := hs.bus
  store := hstore
  runnable := hrunnable
  job := hs.job
  reading := hs.reading
  waiting p job ids hjob hpending wfId hwfId := hgraph wfId (hs.waiting p job ids hjob hpending wfId hwfId)
  seen := hs.seen
  ledger := hs.ledger
  handled := hs.handled
  blamed := hs.blamed
  executions := hs.executions

/-- No alert is taken. -/
theorem sound_bus {bus : Channel Nat BusEvent} (hbus : bus.Sound)
    (htook : ∀ q j data, Took str { s with bus := bus } q j data ↔ s.Took str q j data) :
    Sound str triggerType { s with bus := bus } where
  bus := hbus
  store := hs.store
  runnable := hs.runnable
  job q job hjob := (htook _ _ _).2 (hs.job q job hjob)
  reading := hs.reading
  waiting := hs.waiting
  seen q j x hx := (htook _ _ _).2 (hs.seen q j x hx)
  ledger := hs.ledger
  handled q j data h := hs.handled q j data ((htook _ _ _).1 h)
  blamed := hs.blamed
  executions x hx := (htook _ _ _).2 (hs.executions x hx)

/-- An alert is taken, by a process that is free. -/
theorem sound_take {bus : Channel Nat BusEvent} {data : Json} (hbus : bus.Sound) (hfree : s.jobs p = none)
    (hfresh : ∀ data, ¬ s.Took str p k data)
    (htook : ∀ q j d, Took str { s with bus := bus } q j d ↔
      s.Took str q j d ∨ q = p ∧ j = k ∧ d = data) :
    Sound str triggerType
      { s with bus := bus, jobs := Function.update s.jobs p (some { number := k, data := data }) } where
  bus := hbus
  store := hs.store
  runnable := hs.runnable
  job q job hjob := by
    rcases update_eq_some hjob with ⟨rfl, hnew⟩ | ⟨-, hold⟩
    · cases hnew
      exact (htook _ _ _).2 (.inr ⟨rfl, rfl, rfl⟩)
    · exact (htook _ _ _).2 (.inl (hs.job q job hold))
  reading q job hjob hpending := by
    rcases update_eq_some hjob with ⟨rfl, hnew⟩ | ⟨-, hold⟩
    · cases hnew
      refine Option.eq_none_iff_forall_not_mem.2 fun x hx => ?_
      exact hfresh x.2 (hs.seen q k x hx)
    · exact hs.reading q job hold hpending
  waiting q job ids hjob hpending := by
    rcases update_eq_some hjob with ⟨rfl, hnew⟩ | ⟨-, hold⟩
    · cases hnew
      cases hpending
    · exact hs.waiting q job ids hold hpending
  seen q j x hx := (htook _ _ _).2 (.inl (hs.seen q j x hx))
  ledger q j := by
    have hsame : AlertJob.pendingFor (Function.update s.jobs p (some { number := k, data := data }) q) j =
        s.pendingOf q j := by
      rw [AlertJob.pendingFor_update]
      split
      · next hq => simp [pendingOf, hq, hfree]
      · rfl
    have hledger := hs.ledger q j
    rw [← hsame] at hledger
    exact hledger
  handled q j d h := by
    rcases (htook _ _ _).1 h with h | ⟨rfl, rfl, rfl⟩
    · rcases hs.handled q j d h with hseen | hfault | ⟨job, hjob, hrest⟩
      · exact .inl hseen
      · exact .inr (.inl hfault)
      · refine .inr (.inr ⟨job, ?_, hrest⟩)
        have hq : q ≠ p := by
          rintro rfl
          rw [hfree] at hjob
          cases hjob
        exact (Function.update_of_ne hq _ _).trans hjob
    · exact .inr (.inr ⟨_, Function.update_self .., rfl, rfl⟩)
  blamed := hs.blamed
  executions x hx := (htook _ _ _).2 (.inl (hs.executions x hx))

theorem sound_receive {s' : Deployment} (h : s.receive str p = some s') : Sound str triggerType s' := by
  unfold receive at h
  split at h
  · cases h
  next hidle =>
  have hfree : s.jobs p = none := by simpa using hidle
  obtain ⟨⟨⟨e, k⟩, bus⟩, htake, rfl⟩ := Option.map_eq_some_iff.1 h
  have hbus := hs.bus.take htake
  have hfresh : ∀ data, ¬ s.Took str p k data := by
    rintro data ⟨e', he', -⟩
    exact hs.bus.fresh htake e' he'
  have hmem : ∀ q d j, (d, j) ∈ bus.taken q ↔ (d, j) ∈ s.bus.taken q ∨ q = p ∧ d = e ∧ j = k := by
    obtain ⟨rest, -, rfl⟩ := Channel.take_eq_some htake
    intro q d j
    by_cases hq : q = p
    · subst hq
      simp
    · simp [hq]
  simp only
  split
  · next halert =>
      refine sound_take hs hbus hfree hfresh fun q j d => ?_
      simp only [Took, hmem]
      constructor
      · rintro ⟨e', hin | ⟨rfl, rfl, rfl⟩, he', rfl⟩
        · exact .inl ⟨e', hin, he', rfl⟩
        · exact .inr ⟨rfl, rfl, rfl⟩
      · rintro (⟨e', hin, he', rfl⟩ | ⟨rfl, rfl, rfl⟩)
        · exact ⟨e', .inl hin, he', rfl⟩
        · exact ⟨e, .inr ⟨rfl, rfl, rfl⟩, halert, rfl⟩
  · next hother =>
      refine sound_bus hs hbus fun q j d => ?_
      simp only [Took, hmem]
      constructor
      · rintro ⟨e', hin | ⟨rfl, rfl, rfl⟩, he', rfl⟩
        · exact ⟨e', hin, he', rfl⟩
        · exact absurd he' hother
      · rintro ⟨e', hin, he', rfl⟩
        exact ⟨e', .inl hin, he', rfl⟩

/-- The rows are read: what matches is to be launched. -/
theorem sound_select {s' : Deployment} (h : s.select str triggerType p = some s') :
    Sound str triggerType s' := by
  obtain ⟨job, hjob, hrest⟩ := Option.bind_eq_some_iff.1 h
  split at hrest
  · cases hrest
  next hopen =>
  cases hrest
  have hreading : job.pending = none := by simpa using hopen
  have hunseen := hs.reading p job hjob hreading
  have htook := hs.job p job hjob
  have hseen : ∀ q j, Function.update s.seen p
      (Function.update (s.seen p) job.number (some (s.tables, job.data))) q j =
        if q = p ∧ j = job.number then some (s.tables, job.data) else s.seen q j := by
    intro q j
    by_cases hq : q = p
    · subst hq
      by_cases hj : j = job.number
      · simp [hj]
      · simp [hj]
    · simp [hq]
  exact {
    bus := hs.bus
    store := hs.store
    runnable := hs.runnable
    job := fun q job' hjob' => by
      rcases update_eq_some hjob' with ⟨rfl, hnew⟩ | ⟨-, hold⟩
      · obtain ⟨hnumber, hdata, -⟩ := AlertJob.next_eq_some hnew
        rw [hnumber, hdata]
        exact htook
      · exact hs.job q job' hold
    reading := fun q job' hjob' hpending => by
      rcases update_eq_some hjob' with ⟨rfl, hnew⟩ | ⟨hq, hold⟩
      · rw [(AlertJob.next_eq_some hnew).2.2] at hpending
        cases hpending
      · refine (hseen q job'.number).trans ?_
        rw [if_neg fun hboth => hq hboth.1]
        exact hs.reading q job' hold hpending
    waiting := fun q job' ids hjob' hpending wfId hwfId => by
      rcases update_eq_some hjob' with ⟨rfl, hnew⟩ | ⟨-, hold⟩
      · rw [(AlertJob.next_eq_some hnew).2.2] at hpending
        cases hpending
        obtain ⟨-, wf, hrow, -⟩ := mem_alertTargets.1 hwfId
        obtain ⟨hwf, -, hstatus⟩ := mem_triggerRows.1 hrow
        have hrow := WorkflowTables.get_eq_some hwf
        exact ⟨wf, hrow, hs.runnable wfId wf hrow hstatus⟩
      · exact hs.waiting q job' ids hold hpending wfId hwfId
    seen := fun q j x hx => by
      replace hx := (hseen q j).symm.trans hx
      split at hx
      · next hboth =>
          cases hx
          rw [hboth.1, hboth.2]
          exact htook
      · exact hs.seen q j x hx
    ledger := fun q j => by
      show (s.made q j ++ s.lostOf q j ++ AlertJob.pendingFor (Function.update s.jobs p _ q) j).Perm
        ((Function.update s.seen p _ q j).elim [] _)
      rw [AlertJob.pendingFor_update, hseen]
      have hledger := hs.ledger q j
      by_cases hboth : q = p ∧ j = job.number
      · obtain ⟨rfl, rfl⟩ := hboth
        simp only [pendingOf, targets, hjob, hunseen, AlertJob.pendingFor_some, hreading, Option.elim_none,
          Option.getD_none, ite_self, List.append_nil, List.perm_nil] at hledger
        simp [hledger]
      · rw [if_neg hboth]
        by_cases hq : q = p
        · subst hq
          have hj : job.number ≠ j := fun hj => hboth ⟨rfl, hj.symm⟩
          simpa [pendingOf, targets, hjob, hj] using hledger
        · rw [if_neg hq]
          exact hledger
    handled := fun q j data hdata => by
      by_cases hboth : q = p ∧ j = job.number
      · refine .inl ?_
        show (Function.update s.seen p _ q j).isSome = true
        rw [hseen, if_pos hboth]
        rfl
      · rcases hs.handled q j data hdata with hold | hfault | ⟨job', hjob', hnumber, hpending⟩
        · refine .inl ?_
          show (Function.update s.seen p _ q j).isSome = true
          rw [hseen, if_neg hboth]
          exact hold
        · exact .inr (.inl hfault)
        · have hq : q ≠ p := by
            rintro rfl
            rw [hjob] at hjob'
            cases hjob'
            exact hboth ⟨rfl, hnumber.symm⟩
          exact .inr (.inr ⟨job', (Function.update_of_ne hq _ _).trans hjob', hnumber, hpending⟩)
    blamed := hs.blamed
    executions := hs.executions }

/-- What becomes of a job: what was to launch is launched, lost or still to launch. -/
structure Progress (s : Deployment) (p : Nat) (job : AlertJob) (new : Option AlertJob)
    (xs : List AlertExecution) (ls : List (Nat × Nat × Nat)) (fs : List (Nat × Nat)) : Prop where
  current : s.jobs p = some job
  next : ∀ job', new = some job' → job'.number = job.number ∧ job'.data = job.data ∧
    ∃ ids, job'.pending = some ids ∧ ∀ wfId ∈ ids, HasGraph s.tables.toStore wfId
  executions : ∀ x ∈ xs, (x.process = p ∧ x.number = job.number) ∧ x.triggerInput = job.data
  lost : ∀ l ∈ ls, l.1 = p ∧ l.2.1 = job.number
  account : (xs.map AlertExecution.workflowId ++ ls.map (fun l => l.2.2) ++
    AlertJob.pendingFor new job.number).Perm (job.pending.getD [])
  blame : ls ≠ [] ∨ job.pending = none → (p, job.number) ∈ fs

section Progress

variable {job : AlertJob} {new : Option AlertJob} {xs : List AlertExecution} {ls : List (Nat × Nat × Nat)}
variable {fs : List (Nat × Nat)} (hp : s.Progress p job new xs ls fs)
include hp

omit hs

theorem Progress.filter_lost (q j : Nat) :
    (s.lost ++ ls).filter (fun l => l.1 = q ∧ l.2.1 = j) =
      s.lost.filter (fun l => l.1 = q ∧ l.2.1 = j) ++ if q = p ∧ j = job.number then ls else [] := by
  rw [List.filter_append]
  congr 1
  refine filter_uniform fun l hl => ?_
  obtain ⟨hprocess, hnumber⟩ := hp.lost l hl
  rw [hprocess, hnumber]
  exact and_congr eq_comm eq_comm

theorem Progress.filter_executions (q j : Nat) :
    (s.executions ++ xs).filter (fun x => x.process = q ∧ x.number = j) =
      s.executions.filter (fun x => x.process = q ∧ x.number = j) ++
        if q = p ∧ j = job.number then xs else [] := by
  rw [List.filter_append]
  congr 1
  refine filter_uniform fun x hx => ?_
  obtain ⟨hprocess, hnumber⟩ := (hp.executions x hx).1
  rw [hprocess, hnumber]
  exact and_congr eq_comm eq_comm

/-- For other alerts nothing is pending before or after. -/
theorem Progress.pending_other {q j : Nat} (hother : ¬ (q = p ∧ j = job.number)) :
    AlertJob.pendingFor (Function.update s.jobs p new q) j = s.pendingOf q j := by
  rw [AlertJob.pendingFor_update]
  split
  · next hq =>
      have hj : job.number ≠ j := fun hj => hother ⟨hq, hj.symm⟩
      rw [pendingOf, hq, hp.current, AlertJob.pendingFor_some, if_neg hj]
      cases hnew : new with
      | none => rfl
      | some job' =>
          rw [AlertJob.pendingFor_some, if_neg]
          rw [(hp.next job' hnew).1]
          exact hj
  · rfl

include hs

theorem Progress.ledger (q j : Nat) :
    (((s.executions ++ xs).filter fun x => x.process = q ∧ x.number = j).map AlertExecution.workflowId ++
      ((s.lost ++ ls).filter fun l => l.1 = q ∧ l.2.1 = j).map (fun l => l.2.2) ++
      AlertJob.pendingFor (Function.update s.jobs p new q) j).Perm (s.targets str triggerType q j) := by
  have hledger := hs.ledger q j
  rw [hp.filter_executions, hp.filter_lost]
  by_cases hown : q = p ∧ j = job.number
  · obtain ⟨rfl, rfl⟩ := hown
    simp only [pendingOf, hp.current, AlertJob.pendingFor_some, if_true] at hledger
    simp only [and_self, if_true, List.map_append, Function.update_self]
    exact (perm_parts _ _ _ _ _).trans ((hp.account.append_left _).trans hledger)
  · rw [if_neg hown, if_neg hown, List.append_nil, List.append_nil, hp.pending_other hown]
    exact hledger

theorem sound_progress : Sound str triggerType { s with
    jobs := Function.update s.jobs p new
    executions := s.executions ++ xs
    lost := s.lost ++ ls
    faults := s.faults ++ fs } where
  bus := hs.bus
  store := hs.store
  runnable := hs.runnable
  job q job' hjob' := by
    rcases update_eq_some hjob' with ⟨rfl, hsome⟩ | ⟨-, hold⟩
    · obtain ⟨hnumber, hdata, -⟩ := hp.next job' hsome
      rw [hnumber, hdata]
      exact hs.job q job hp.current
    · exact hs.job q job' hold
  reading q job' hjob' hpending := by
    rcases update_eq_some hjob' with ⟨rfl, hsome⟩ | ⟨-, hold⟩
    · obtain ⟨-, -, ids, hids, -⟩ := hp.next job' hsome
      rw [hids] at hpending
      cases hpending
    · exact hs.reading q job' hold hpending
  waiting q job' ids hjob' hpending := by
    rcases update_eq_some hjob' with ⟨rfl, hsome⟩ | ⟨-, hold⟩
    · obtain ⟨-, -, ids', hids, hgraphs⟩ := hp.next job' hsome
      rw [hids] at hpending
      cases hpending
      exact hgraphs
    · exact hs.waiting q job' ids hold hpending
  seen := hs.seen
  ledger q j := hp.ledger hs q j
  handled q j data h := by
    rcases hs.handled q j data h with hseen | hfault | ⟨job', hjob', hnumber, hpending⟩
    · exact .inl hseen
    · exact .inr (.inl (List.mem_append_left _ hfault))
    · by_cases hq : q = p
      · subst hq
        rw [hp.current] at hjob'
        cases hjob'
        rw [← hnumber]
        exact .inr (.inl (List.mem_append_right _ (hp.blame (.inr hpending))))
      · exact .inr (.inr ⟨job', (Function.update_of_ne hq _ _).trans hjob', hnumber, hpending⟩)
  blamed q j h := by
    by_cases hown : (q = p ∧ j = job.number) ∧ ls ≠ []
    · obtain ⟨⟨rfl, rfl⟩, hls⟩ := hown
      exact List.mem_append_right _ (hp.blame (.inl hls))
    · refine List.mem_append_left _ (hs.blamed q j fun hnone => h ?_)
      have hrest : (if q = p ∧ j = job.number then ls else []) = [] := by
        split
        · next hat =>
            by_contra hls
            exact hown ⟨hat, hls⟩
        · rfl
      show ((s.lost ++ ls).filter fun l => l.1 = q ∧ l.2.1 = j).map (fun l => l.2.2) = []
      rw [hp.filter_lost, hrest, List.append_nil]
      exact hnone
  executions x hx := by
    rcases List.mem_append.1 hx with hx | hx
    · exact hs.executions x hx
    · obtain ⟨⟨rfl, hnumber⟩, hinput⟩ := hp.executions x hx
      rw [hnumber, hinput]
      exact hs.job _ job hp.current

end Progress

theorem sound_selectFails {s' : Deployment} (h : s.selectFails p = some s') : Sound str triggerType s' := by
  obtain ⟨job, hjob, hrest⟩ := Option.bind_eq_some_iff.1 h
  split at hrest
  · cases hrest
  next hopen =>
  cases hrest
  have hreading : job.pending = none := by simpa using hopen
  have hprogress : s.Progress p job none [] [] [(p, job.number)] :=
    ⟨hjob, nofun, nofun, nofun, by simp [hreading], fun _ => List.mem_singleton_self _⟩
  simpa using sound_progress hs hprogress

omit hs in
/-- The job goes on with workflows that have a graph. -/
theorem next_continues {job job' : AlertJob} {ids : List Nat} {running : Nat}
    (hgraphs : ∀ wfId ∈ ids, HasGraph s.tables.toStore wfId) (h : job.next ids running = some job') :
    job'.number = job.number ∧ job'.data = job.data ∧
      ∃ ids, job'.pending = some ids ∧ ∀ wfId ∈ ids, HasGraph s.tables.toStore wfId := by
  obtain ⟨hnumber, hdata, hpending⟩ := AlertJob.next_eq_some h
  exact ⟨hnumber, hdata, ids, hpending, hgraphs⟩

omit hs in
theorem perm_eraseIdx {ids : List Nat} {i wfId : Nat} (h : ids[i]? = some wfId) :
    (wfId :: ids.eraseIdx i).Perm ids := by
  obtain ⟨hi, rfl⟩ := List.getElem?_eq_some_iff.1 h
  exact List.getElem_cons_eraseIdx_perm hi

/-- A workflow that cannot be launched is lost, and that is a fault. -/
theorem sound_lose {job : AlertJob} {ids : List Nat} {i wfId : Nat} (hjob : s.jobs p = some job)
    (hids : job.pending = some ids) (hwfId : ids[i]? = some wfId) :
    Sound str triggerType { s with
      jobs := Function.update s.jobs p (job.next (ids.eraseIdx i) job.running)
      lost := s.lost ++ [(p, job.number, wfId)]
      faults := s.faults ++ [(p, job.number)] } := by
  have hgraphs := hs.waiting p job ids hjob hids
  have hprogress : s.Progress p job (job.next (ids.eraseIdx i) job.running) [] [(p, job.number, wfId)]
      [(p, job.number)] := {
    current := hjob
    next := fun job' h => next_continues (fun id hid => hgraphs id (List.mem_of_mem_eraseIdx hid)) h
    executions := nofun
    lost := fun l hl => by
      cases List.mem_singleton.1 hl
      exact ⟨rfl, rfl⟩
    account := by simpa [hids] using perm_eraseIdx hwfId
    blame := fun _ => List.mem_singleton_self _ }
  simpa using sound_progress hs hprogress

/-- A workflow that is to be launched has a graph, so its execution is made unless it is gone. -/
theorem sound_launch {i : Nat} {s' : Deployment} (h : s.launch p i = some s') : Sound str triggerType s' := by
  obtain ⟨job, hjob, hrest⟩ := Option.bind_eq_some_iff.1 h
  obtain ⟨ids, hids, hrest⟩ := Option.bind_eq_some_iff.1 hrest
  obtain ⟨wfId, hwfId, rfl⟩ := Option.map_eq_some_iff.1 hrest
  have hgraphs := hs.waiting p job ids hjob hids
  cases hget : s.tables.get wfId with
  | none =>
      rw [launchOne, hget]
      exact sound_lose hs hjob hids hwfId
  | some wf =>
      obtain ⟨wf', hwf', hsome⟩ := hgraphs wfId (List.mem_of_getElem? hwfId)
      rw [WorkflowTables.get_eq_some hget] at hwf'
      cases hwf'
      obtain ⟨graph, hgraph⟩ := Option.isSome_iff_exists.1 hsome
      let x : AlertExecution := {
        process := p, number := job.number, workflowId := wfId, workflowVersion := wf.version
        triggerInput := job.data, graph := graph }
      have hone : s.launchOne p job wfId (ids.eraseIdx i) = { s with
          jobs := Function.update s.jobs p (job.next (ids.eraseIdx i) (job.running + 1))
          executions := s.executions ++ [x] } := by
        rw [launchOne, hget]
        simp only [hgraph]
        rfl
      rw [hone]
      have hprogress : s.Progress p job (job.next (ids.eraseIdx i) (job.running + 1)) [x] [] [] := {
        current := hjob
        next := fun job' h => next_continues (fun id hid => hgraphs id (List.mem_of_mem_eraseIdx hid)) h
        executions := fun y hy => by
          cases List.mem_singleton.1 hy
          exact ⟨⟨rfl, rfl⟩, rfl⟩
        lost := nofun
        account := by simpa [hids] using perm_eraseIdx hwfId
        blame := by simp [hids] }
      simpa using sound_progress hs hprogress

theorem sound_launchFails {i : Nat} {s' : Deployment} (h : s.launchFails p i = some s') :
    Sound str triggerType s' := by
  obtain ⟨job, hjob, hrest⟩ := Option.bind_eq_some_iff.1 h
  obtain ⟨ids, hids, hrest⟩ := Option.bind_eq_some_iff.1 hrest
  obtain ⟨wfId, hwfId, rfl⟩ := Option.map_eq_some_iff.1 hrest
  exact sound_lose hs hjob hids hwfId

theorem sound_finish {s' : Deployment} (h : s.finish p = some s') : Sound str triggerType s' := by
  obtain ⟨job, hjob, hrest⟩ := Option.bind_eq_some_iff.1 h
  obtain ⟨ids, hids, hrest⟩ := Option.bind_eq_some_iff.1 hrest
  split at hrest
  · cases hrest
  · cases hrest
    have hprogress : s.Progress p job (job.next ids (job.running - 1)) [] [] [] :=
      ⟨hjob, fun job' h => next_continues (hs.waiting p job ids hjob hids) h, nofun, nofun, by simp [hids],
        by simp [hids]⟩
    simpa using sound_progress hs hprogress

theorem sound_stop : Sound str triggerType (s.stop p) := by
  have hdrop := hs.bus.drop p
  unfold stop
  split
  · exact sound_bus hs hdrop fun q j data => Iff.rfl
  · next job hjob =>
      have hprogress : s.Progress p job none []
          ((job.pending.getD []).map fun wfId => (p, job.number, wfId)) [(p, job.number)] := {
        current := hjob
        next := nofun
        executions := nofun
        lost := fun l hl => by
          obtain ⟨wfId, -, rfl⟩ := List.mem_map.1 hl
          exact ⟨rfl, rfl⟩
        account := by simp [Function.comp_def]
        blame := fun _ => List.mem_singleton_self _ }
      have hbus := sound_bus (sound_progress hs hprogress) hdrop fun q j data => Iff.rfl
      simpa using hbus

omit hs in
/-- Every step keeps it. -/
theorem sound_step {s s' : Deployment} {a : DeploymentAction} (hs : Sound str triggerType s)
    (h : s.step modelValidate str triggerType a = some s') : Sound str triggerType s' := by
  cases a with
  | edit op =>
      obtain ⟨tables, htables, rfl⟩ := Option.map_eq_some_iff.1 h
      obtain ⟨store, happly, rfl⟩ := WorkflowTables.apply_eq_some htables
      exact sound_tables hs (storeInv_apply hs.store happly) (hs.runnable.apply happly)
        fun wfId hgraph => hgraph.apply happly
  | delete wfId =>
      obtain ⟨tables, htables, rfl⟩ := Option.map_eq_some_iff.1 h
      obtain ⟨wf, -, rfl⟩ := Option.map_eq_some_iff.1 htables
      exact sound_tables hs ⟨hs.store.known, hs.store.unique, hs.store.current⟩ hs.runnable fun _ => id
  | publish e =>
      cases h
      exact sound_bus hs (hs.bus.publish e) fun q j data => Iff.rfl
  | subscribe p =>
      cases h
      exact sound_bus hs (hs.bus.subscribe p) fun q j data => Iff.rfl
  | disconnect p =>
      cases h
      exact sound_bus hs (hs.bus.drop p) fun q j data => Iff.rfl
  | receive p => exact sound_receive hs h
  | select p => exact sound_select hs h
  | selectFails p => exact sound_selectFails hs h
  | launch p i => exact sound_launch hs h
  | launchFails p i => exact sound_launchFails hs h
  | finish p => exact sound_finish hs h
  | stop p =>
      cases h
      exact sound_stop hs

omit hs in
theorem sound_of_run {actions : List DeploymentAction} {s s' : Deployment} (hs : Sound str triggerType s)
    (hrun : runSteps (step modelValidate str triggerType) s actions = some s') :
    Sound str triggerType s' := by
  have hevery : EveryStep (step modelValidate str triggerType) (fun _ _ => True) s actions :=
    EveryStep.of_forall (fun _ _ => trivial) s actions
  exact (hevery.visits (fun s a s' hs _ h => sound_step hs h) hs).last hrun

/-- An execution is of a workflow that is there, and has its version and its published graph. -/
structure Current (s : Deployment) (x : AlertExecution) : Prop where
  row : ∃ wf, s.tables.get x.workflowId = some wf ∧ wf.version = x.workflowVersion ∧
    wf.publishedGraphData = some x.graph
  published : ⟨x.workflowId, x.workflowVersion, x.graph⟩ ∈ s.tables.published

end Steps

end Deployment

end OpsKnowledge.Workflow
