import OpsKnowledge.Workflow.Compiler
import OpsKnowledge.Workflow.ExecutionRows
import OpsKnowledge.Workflow.Publishing

/-!
# Which graph an execution is run and resumed with

`create_execution` records the workflow's version, and `run_and_persist` and
`resume_execution` load the graph from the workflow's row when they start. Requests
and background tasks read that row once, in a session of their own, so that a run or a
resumption is one step here.
-/

namespace OpsKnowledge.Workflow

open OpsKnowledge.Lib

/-- `draft` is not in the source: the draft at the time the execution was created. -/
structure WorkflowExecution where
  workflowId : Nat
  workflowVersion : Nat
  status : Status := .pending
  draft : Json

structure GraphLoad where
  execution : Nat
  graph : Option Json

/-- `loads` is not in the source: the graphs that executions were compiled from, to be run
or resumed. -/
structure ExecutionStore extends Store where
  executions : List WorkflowExecution := []
  loads : List GraphLoad := []

def Status.text : Status → String
  | .pending => "pending"
  | .running => "running"
  | .waiting => "waiting"
  | .succeeded => "succeeded"
  | .failed => "failed"
  | .cancelled => "cancelled"

def graphSource (wf : WorkflowRow) (execution : WorkflowExecution) : Option Json :=
  if execution.workflowVersion = 0 then wf.graphData else wf.publishedGraphData

namespace ExecutionStore

def createExecution (s : ExecutionStore) (wfId : Nat) (fromDraft : Bool) :
    Except Exn ExecutionStore :=
  match s.workflows[wfId]? with
  | none => .error (.workflowNotPublished (toString wfId))
  | some wf =>
      if !fromDraft ∧ wf.publishedGraphData.isNone then
        .error (.workflowNotPublished (toString wfId))
      else
        .ok { s with
          executions := s.executions ++ [{
            workflowId := wfId
            workflowVersion := if fromDraft then 0 else wf.version
            draft := wf.graphData }] }

section Run

variable (modelValidate : Json → Except Exn WorkflowDSL) (registry : NodeRegistry)

/-- Loads the graph, compiles it, runs it and stores the final status. -/
def drive (s : ExecutionStore) (id : Nat) (execution : WorkflowExecution) (outcome : PassOutcome) :
    Except Exn ExecutionStore :=
  match s.workflows[execution.workflowId]? with
  | none => .error (.attributeError "graph_data")
  | some wf => do
      let dsl ← parseDsl modelValidate (presentRaw (graphSource wf execution))
      let _ ← compileDsl registry dsl true
      return { s with
        executions := s.executions.set id { execution with status := .ofOutcome outcome }
        loads := s.loads ++ [{ execution := id, graph := graphSource wf execution }] }

/-- A task whose execution is not found does nothing. -/
def runAndPersist (s : ExecutionStore) (id : Nat) (outcome : PassOutcome) :
    Except Exn ExecutionStore :=
  match s.executions[id]? with
  | none => .ok s
  | some execution => s.drive modelValidate registry id execution outcome

def resumeExecution (s : ExecutionStore) (id : Nat) (outcome : PassOutcome) :
    Except Exn ExecutionStore :=
  match s.executions[id]? with
  | none => .ok s
  | some execution =>
      if execution.status ≠ .waiting then
        .error (.valueError
          s!"execution {id} is not waiting (current status: {execution.status.text})")
      else s.drive modelValidate registry id execution outcome

end Run

end ExecutionStore

inductive ServiceOp where
  | store (op : StoreOp)
  | createExecution (wfId : Nat) (fromDraft : Bool)
  | runAndPersist (id : Nat) (outcome : PassOutcome)
  | resumeExecution (id : Nat) (outcome : PassOutcome)

/-- The execution that an operation runs or resumes. -/
def ServiceOp.driven? : ServiceOp → Option Nat
  | .runAndPersist id _ | .resumeExecution id _ => some id
  | .store _ | .createExecution _ _ => none

section Steps

variable (modelValidate : Json → Except Exn WorkflowDSL) (registry : NodeRegistry)

def ExecutionStore.apply (s : ExecutionStore) : ServiceOp → Except Exn ExecutionStore
  | .store op => do
      let store ← s.toStore.apply modelValidate op
      return { s with toStore := store }
  | .createExecution wfId fromDraft => s.createExecution wfId fromDraft
  | .runAndPersist id outcome => s.runAndPersist modelValidate registry id outcome
  | .resumeExecution id outcome => s.resumeExecution modelValidate registry id outcome

def storeStep (s : ExecutionStore) (op : ServiceOp) : Option ExecutionStore :=
  (s.apply modelValidate registry op).toOption

end Steps

/-! ## The steps of the service -/

section Cases

variable {modelValidate : Json → Except Exn WorkflowDSL} {registry : NodeRegistry}
  {s s' : ExecutionStore}

theorem ExecutionStore.drive_cases {id : Nat} {execution : WorkflowExecution}
    {outcome : PassOutcome} (h : s.drive modelValidate registry id execution outcome = .ok s') :
    ∃ wf, s.workflows[execution.workflowId]? = some wf ∧
      s' = { s with
        executions := s.executions.set id { execution with status := .ofOutcome outcome }
        loads := s.loads ++ [{ execution := id, graph := graphSource wf execution }] } := by
  unfold ExecutionStore.drive at h
  split at h
  · cases h
  · next wf hwf =>
      rcases bind_eq_ok.1 h with ⟨dsl, -, hrest⟩
      rcases bind_eq_ok.1 hrest with ⟨g, -, hret⟩
      cases hret
      exact ⟨wf, hwf, rfl⟩

theorem storeStep_cases {op : ServiceOp} (h : storeStep modelValidate registry s op = some s') :
    (op.driven? = none ∧ ∃ storeOp store, s.toStore.apply modelValidate storeOp = .ok store ∧
        s' = { s with toStore := store }) ∨
      (op.driven? = none ∧ ∃ wfId wf version, s.workflows[wfId]? = some wf ∧
        (version = 0 ∨ version = wf.version ∧ wf.publishedGraphData ≠ none) ∧
        s' = { s with
          executions := s.executions ++ [{
            workflowId := wfId, workflowVersion := version, draft := wf.graphData }] }) ∨
      (∃ id, op.driven? = some id ∧ s.executions[id]? = none ∧ s' = s) ∨
      ∃ id execution status wf, op.driven? = some id ∧ s.executions[id]? = some execution ∧
        s.workflows[execution.workflowId]? = some wf ∧
        s' = { s with
          executions := s.executions.set id { execution with status := status }
          loads := s.loads ++ [{ execution := id, graph := graphSource wf execution }] } := by
  have hok : s.apply modelValidate registry op = .ok s' := by
    unfold storeStep at h
    cases happly : s.apply modelValidate registry op with
    | error e => rw [happly] at h; cases h
    | ok t => rw [happly] at h; cases h; rfl
  cases op with
  | store storeOp =>
      rcases bind_eq_ok.1 hok with ⟨store, happly, hret⟩
      cases hret
      exact .inl ⟨rfl, storeOp, store, happly, rfl⟩
  | createExecution wfId fromDraft =>
      right; left
      refine ⟨rfl, ?_⟩
      simp only [ExecutionStore.apply, ExecutionStore.createExecution] at hok
      split at hok
      · cases hok
      · next wf hwf =>
          split at hok
          · cases hok
          · next hpublished =>
              cases hok
              refine ⟨wfId, wf, _, hwf, ?_, rfl⟩
              cases fromDraft with
              | true => exact .inl rfl
              | false =>
                  right
                  refine ⟨rfl, ?_⟩
                  intro hnone
                  exact hpublished (by simp [hnone])
  | runAndPersist id outcome =>
      right; right
      simp only [ExecutionStore.apply, ExecutionStore.runAndPersist] at hok
      split at hok
      · next hnone => cases hok; exact .inl ⟨id, rfl, hnone, rfl⟩
      · next execution hexecution =>
          rcases ExecutionStore.drive_cases hok with ⟨wf, hwf, rfl⟩
          exact .inr ⟨id, execution, _, wf, rfl, hexecution, hwf, rfl⟩
  | resumeExecution id outcome =>
      right; right
      simp only [ExecutionStore.apply, ExecutionStore.resumeExecution] at hok
      split at hok
      · next hnone => cases hok; exact .inl ⟨id, rfl, hnone, rfl⟩
      · next execution hexecution =>
          split at hok
          · cases hok
          · rcases ExecutionStore.drive_cases hok with ⟨wf, hwf, rfl⟩
            exact .inr ⟨id, execution, _, wf, rfl, hexecution, hwf, rfl⟩

end Cases

/-! ## The graph of an execution's version -/

/-- The graph published under the execution's version; for version 0, a draft run, the draft
it was created from. -/
def IsGraphOf (s : Store) (execution : WorkflowExecution) (graph : Option Json) : Prop :=
  if execution.workflowVersion = 0 then graph = some execution.draft
  else ∃ published, graph = some published ∧
    ⟨execution.workflowId, execution.workflowVersion, published⟩ ∈ s.published

/-- Whatever was run or resumed so far had the graph of its execution's version. -/
def Pinned (s : ExecutionStore) : Prop :=
  ∀ load ∈ s.loads, ∃ execution, s.executions[load.execution]? = some execution ∧
    IsGraphOf s.toStore execution load.graph

/-- The execution's graph is what its workflow has now: the draft is as it was for a draft
run, and elsewhere the graph published last is that of the execution's version. -/
def StillCurrent (s : Store) (execution : WorkflowExecution) (wf : WorkflowRow) : Prop :=
  if execution.workflowVersion = 0 then wf.graphData = execution.draft
  else ∀ graph, ⟨execution.workflowId, wf.version, graph⟩ ∈ s.published →
    ⟨execution.workflowId, execution.workflowVersion, graph⟩ ∈ s.published

def DrivesCurrent (s : ExecutionStore) (op : ServiceOp) : Prop :=
  ∀ id execution wf, op.driven? = some id → s.executions[id]? = some execution →
    s.workflows[execution.workflowId]? = some wf → StillCurrent s.toStore execution wf

structure ExecutionInv (s : ExecutionStore) : Prop where
  store : StoreInv s.toStore
  versioned : ∀ (id : Nat) (execution : WorkflowExecution), s.executions[id]? = some execution →
    execution.workflowVersion = 0 ∨ ∃ graph,
      ⟨execution.workflowId, execution.workflowVersion, graph⟩ ∈ s.published

/-- What is loaded is the graph of the execution's version exactly when that is still
current. -/
theorem isGraphOf_graphSource {s : ExecutionStore} (hinv : ExecutionInv s) {id : Nat}
    {execution : WorkflowExecution} (hexecution : s.executions[id]? = some execution)
    {wf : WorkflowRow} (hwf : s.workflows[execution.workflowId]? = some wf) :
    IsGraphOf s.toStore execution (graphSource wf execution) ↔
      StillCurrent s.toStore execution wf := by
  by_cases hdraft : execution.workflowVersion = 0
  · simp [IsGraphOf, StillCurrent, graphSource, hdraft]
  · simp only [IsGraphOf, StillCurrent, graphSource, if_neg hdraft]
    rcases hinv.versioned id execution hexecution with hzero | ⟨graph, hgraph⟩
    · exact absurd hzero hdraft
    · rcases hinv.store.current_of_published hgraph hwf with ⟨current, hcurrent, hlast⟩
      constructor
      · rintro ⟨published, hload, hmem⟩ other hother
        rw [hcurrent] at hload
        cases hload
        have hrow := hinv.store.unique _ hother _ hlast rfl rfl
        cases hrow
        exact hmem
      · intro h
        exact ⟨current, hcurrent, h current hlast⟩

section Runs

variable {modelValidate : Json → Except Exn WorkflowDSL} {registry : NodeRegistry}
  {s s' : ExecutionStore} {op : ServiceOp}

theorem executionInv_storeStep (hinv : ExecutionInv s)
    (h : storeStep modelValidate registry s op = some s') : ExecutionInv s' := by
  rcases storeStep_cases h with ⟨-, storeOp, store, happly, rfl⟩ |
    ⟨-, wfId, wf, version, hwf, hversion, rfl⟩ | ⟨id, -, -, rfl⟩ |
    ⟨id, execution, status, wf, -, hexecution, -, rfl⟩
  · refine ⟨storeInv_apply hinv.store happly, ?_⟩
    intro id execution hexecution
    rcases hinv.versioned id execution hexecution with hzero | ⟨graph, hgraph⟩
    · exact .inl hzero
    · exact .inr ⟨graph, Store.published_subset happly hgraph⟩
  · refine ⟨hinv.store, ?_⟩
    intro id execution hexecution
    rcases lookup_concat_cases hexecution with hexecution | ⟨-, rfl⟩
    · exact hinv.versioned id execution hexecution
    · rcases hversion with hzero | ⟨hcurrent, hpublished⟩
      · exact .inl hzero
      · rcases hinv.store.current wfId wf hwf with ⟨-, hnone⟩ | ⟨graph, -, hmem⟩
        · exact absurd hnone hpublished
        · exact .inr ⟨graph, hcurrent ▸ hmem⟩
  · exact hinv
  · refine ⟨hinv.store, ?_⟩
    intro id' execution' hexecution'
    rcases lookup_set_cases hexecution' with ⟨-, rfl⟩ | ⟨-, hold⟩
    · exact hinv.versioned id execution hexecution
    · exact hinv.versioned id' execution' hold

theorem IsGraphOf.mono {store store' : Store} (hsub : store.published ⊆ store'.published)
    {execution : WorkflowExecution} {graph : Option Json} (h : IsGraphOf store execution graph) :
    IsGraphOf store' execution graph := by
  unfold IsGraphOf at h ⊢
  split at h
  · next hzero => rw [if_pos hzero]; exact h
  · next hzero =>
      rw [if_neg hzero]
      rcases h with ⟨published, hgraph, hmem⟩
      exact ⟨published, hgraph, hsub hmem⟩

/-- One step keeps the loads pinned exactly when what it drives is still current. -/
theorem pinned_storeStep_iff (hinv : ExecutionInv s) (hpinned : Pinned s)
    (h : storeStep modelValidate registry s op = some s') : Pinned s' ↔ DrivesCurrent s op := by
  rcases storeStep_cases h with ⟨hop, storeOp, store, happly, rfl⟩ |
    ⟨hop, wfId, wf, version, -, -, rfl⟩ | ⟨id, hop, hnone, rfl⟩ |
    ⟨id, execution, status, wf, hop, hexecution, hwf, rfl⟩
  · refine iff_of_true ?_ (by intro id _ _ hid; rw [hop] at hid; cases hid)
    intro load hload
    rcases hpinned load hload with ⟨execution, hexecution, hgraph⟩
    exact ⟨execution, hexecution, hgraph.mono (Store.published_subset happly)⟩
  · refine iff_of_true ?_ (by intro id _ _ hid; rw [hop] at hid; cases hid)
    intro load hload
    rcases hpinned load hload with ⟨execution, hexecution, hgraph⟩
    exact ⟨execution, lookup_concat hexecution _, hgraph⟩
  · refine iff_of_true hpinned ?_
    intro id' execution wf hid hexecution
    rw [hop] at hid
    cases hid
    rw [hnone] at hexecution
    cases hexecution
  · have hcurrent : DrivesCurrent s op ↔ StillCurrent s.toStore execution wf := by
      constructor
      · intro hall
        exact hall id execution wf hop hexecution hwf
      · intro hstill id' execution' wf' hid hexecution' hwf'
        rw [hop] at hid
        cases hid
        rw [hexecution] at hexecution'
        cases hexecution'
        rw [hwf] at hwf'
        cases hwf'
        exact hstill
    rw [hcurrent, ← isGraphOf_graphSource hinv hexecution hwf]
    constructor
    · intro hafter
      rcases hafter _ (List.mem_append_right _ (List.mem_singleton_self _)) with
        ⟨new, hnew, hgraph⟩
      rw [lookup_set hexecution] at hnew
      cases hnew
      exact hgraph
    · intro hgraph load hload
      rcases List.mem_append.1 hload with hload | hload
      · rcases hpinned load hload with ⟨old, hold, hpin⟩
        rcases exists_lookup_set hexecution { execution with status := status } hold with
          ⟨new, hnew, ⟨-, rfl, rfl⟩ | ⟨-, rfl⟩⟩
        · exact ⟨_, hnew, hpin⟩
        · exact ⟨_, hnew, hpin⟩
      · cases List.mem_singleton.1 hload
        exact ⟨_, lookup_set hexecution _, hgraph⟩

end Runs

/-- In every run of workflow operations and executions, each execution is run and resumed
with the graph of its version iff each time that graph is still current. -/
theorem pinned_iff_drivesCurrent (modelValidate : Json → Except Exn WorkflowDSL)
    (registry : NodeRegistry) (ops : List ServiceOp) :
    Visits (storeStep modelValidate registry) Pinned {} ops ↔
      EveryStep (storeStep modelValidate registry) DrivesCurrent {} ops := by
  have hinv : ExecutionInv {} := ⟨storeInv_empty, nofun⟩
  have hpinned : Pinned {} := nofun
  exact visits_iff_everyStep_of_inv (fun _ _ _ => executionInv_storeStep)
    (fun _ _ _ => pinned_storeStep_iff) hinv hpinned ops

/-- `start → answer`, with the id of the answer node. -/
def twoNodeGraph (nid : String) : Json :=
  .obj [("graph", .obj [
    ("nodes", .arr [
      .obj [("id", .str "start"), ("type", .str "start")],
      .obj [("id", .str nid), ("type", .str "answer")]]),
    ("edges", .arr [.obj [("source", .str "start"), ("target", .str nid)]])])]

/-- The shape check on the graphs above. -/
def readTwoNodeGraph : Json → Except Exn WorkflowDSL
  | .obj [(_, .obj [(_, .arr [_, .obj [(_, .str nid), _]]), _])] =>
      .ok { graph := {
        nodes := [{ id := "start", type := "start" }, { id := nid, type := "answer" }]
        edges := [{ source := "start", target := nid }] } }
  | _ => .error .pydanticValidation

/-- Version 2 is published between the creation and the run of an execution of version 1. -/
theorem newer_graph_run :
    ¬ ∀ (modelValidate : Json → Except Exn WorkflowDSL) (registry : NodeRegistry)
        (ops : List ServiceOp), Visits (storeStep modelValidate registry) Pinned {} ops := by
  intro h
  have hlast := (h readTwoNodeGraph .builtin
    [.store (.create (some (twoNodeGraph "first"))), .store (.publish 0),
      .createExecution 0 false, .store (.update 0 (some (twoNodeGraph "second"))),
      .store (.publish 0), .runAndPersist 0 .succeeded]).last rfl
  rcases hlast _ (List.mem_singleton_self _) with ⟨execution, hexecution, hgraph⟩
  cases hexecution
  rcases hgraph with ⟨published, hload, hmem⟩
  cases hload
  rcases List.mem_cons.1 hmem with hfirst | hmem
  · have hsame : twoNodeGraph "second" = twoNodeGraph "first" :=
      congrArg WorkflowVersion.graphData hfirst
    simp [twoNodeGraph] at hsame
  · have hversion : 1 = 2 := congrArg WorkflowVersion.version (List.mem_singleton.1 hmem)
    omega
end OpsKnowledge.Workflow
