import Mathlib.Data.List.Sort
import OpsKnowledge.Lib.Table
import OpsKnowledge.Workflow.Dsl

/-!
# Workflows, their drafts and their published versions

`WorkflowService` and `VersionService` over the tables `workflows` and
`workflow_versions`, with ids as positions. An operation that raises is rolled back with
its request. The Pydantic shape check is a parameter, as in `parseDsl`.
-/

namespace OpsKnowledge.Workflow

open OpsKnowledge.Lib

inductive WorkflowStatus where
  | draft | published
  deriving DecidableEq, Repr

structure WorkflowRow where
  version : Nat := 0
  status : WorkflowStatus := .draft
  graphData : Json
  publishedGraphData : Option Json := none

structure WorkflowVersion where
  workflowId : Nat
  version : Nat
  graphData : Json

/-- `published` is not in the source: every version row ever written, pruned or not. -/
structure Store where
  workflows : List WorkflowRow := []
  versions : List WorkflowVersion := []
  published : List WorkflowVersion := []

/-- `_DEFAULT_SEED_GRAPH` -/
def defaultSeedGraph : Json :=
  .obj [
    ("dsl_version", .str "1.0"),
    ("graph", .obj [
      ("nodes", .arr [.obj [
        ("id", .str "start"), ("type", .str "start"),
        ("position", .obj [("x", .num 80), ("y", .num 120)]), ("data", .obj [])]]),
      ("edges", .arr [])]),
    ("workflow_variables", .arr [])]

def hasAnyNode (graphData : Option Json) : Bool :=
  match graphData.bind (Json.get? "graph") with
  | none => false
  | some graph =>
      match graph.get? "nodes" with
      | some (.arr nodes) => !nodes.isEmpty
      | _ => false

/-- What is left of a raw value after `if not raw`. -/
def presentRaw (raw : Option Json) : Option Json := raw.filter Json.truthy

/-- The rows to delete are those after the first `keep`, the newest version first. -/
def pruneOldVersions (wfId : Nat) (keep : Nat) (versions : List WorkflowVersion) :
    List WorkflowVersion :=
  let rows := versions.filter fun row => row.workflowId = wfId
  let newestFirst := (rows.map WorkflowVersion.version).insertionSort (· ≥ ·)
  let toDelete := newestFirst.drop keep
  versions.filter fun row => ¬ (row.workflowId = wfId ∧ row.version ∈ toDelete)

namespace Store

def get (s : Store) (wfId : Nat) : Except Exn WorkflowRow :=
  match s.workflows[wfId]? with
  | none => .error (.workflowNotFound (toString wfId))
  | some wf => .ok wf

def getVersion (s : Store) (wfId version : Nat) : Except Exn WorkflowVersion :=
  match s.versions.find? fun row => row.workflowId = wfId ∧ row.version = version with
  | none => .error (.versionNotFound s!"{wfId}@{version}")
  | some row => .ok row

def setWorkflow (s : Store) (wfId : Nat) (wf : WorkflowRow) : Store :=
  { s with workflows := s.workflows.set wfId wf }

/-- The workflow's row after `publish`. -/
def promoted (wf : WorkflowRow) : WorkflowRow :=
  { wf with
    version := wf.version + 1
    status := .published
    publishedGraphData := some wf.graphData }

/-- The row `publish` adds to the version table. -/
def versionRow (wfId : Nat) (wf : WorkflowRow) : WorkflowVersion :=
  { workflowId := wfId, version := wf.version + 1, graphData := wf.graphData }

/-- The writes of `publish`, the checks passed. -/
def promote (s : Store) (wfId : Nat) (wf : WorkflowRow) : Store where
  workflows := s.workflows.set wfId (promoted wf)
  versions := pruneOldVersions wfId 50 (s.versions ++ [versionRow wfId wf])
  published := s.published ++ [versionRow wfId wf]

section Service

variable (modelValidate : Json → Except Exn WorkflowDSL)

def create (s : Store) (graphData : Option Json) : Except Exn Store := do
  let _ ← parseDslLoose modelValidate (presentRaw graphData)
  let graph := if hasAnyNode graphData then graphData.getD defaultSeedGraph else defaultSeedGraph
  return { s with workflows := s.workflows ++ [{ graphData := graph }] }

def update (s : Store) (wfId : Nat) (graphData : Option Json) : Except Exn Store := do
  let wf ← s.get wfId
  match graphData with
  | none => return s
  | some graph =>
      let _ ← parseDslLoose modelValidate (presentRaw graph)
      return s.setWorkflow wfId { wf with graphData := graph }

def publish (s : Store) (wfId : Nat) : Except Exn Store := do
  let wf ← s.get wfId
  let dsl ← parseDsl modelValidate (presentRaw wf.graphData)
  if dsl.graph.nodes.length < 2 then
    throw (.dslValidation
      "Cannot publish: graph must contain Start + at least one downstream node")
  if s.versions.any fun row => row.workflowId = wfId ∧ row.version = wf.version + 1 then
    throw (.integrityError "uq_workflow_version")
  return s.promote wfId wf

def revertToDraft (s : Store) (wfId : Nat) : Except Exn Store := do
  let wf ← s.get wfId
  return s.setWorkflow wfId { wf with status := .draft }

/-- A missing workflow is reported as a missing version. -/
def rollbackToDraft (s : Store) (wfId version : Nat) : Except Exn Store :=
  match s.workflows[wfId]? with
  | none => .error (.versionNotFound (toString wfId))
  | some wf => do
      let row ← s.getVersion wfId version
      return s.setWorkflow wfId { wf with graphData := row.graphData, status := .draft }

end Service

end Store

inductive StoreOp where
  | create (graphData : Option Json)
  | update (wfId : Nat) (graphData : Option Json)
  | publish (wfId : Nat)
  | revertToDraft (wfId : Nat)
  | rollbackToDraft (wfId version : Nat)

section Steps

variable (modelValidate : Json → Except Exn WorkflowDSL)

def Store.apply (s : Store) : StoreOp → Except Exn Store
  | .create graphData => s.create modelValidate graphData
  | .update wfId graphData => s.update modelValidate wfId graphData
  | .publish wfId => s.publish modelValidate wfId
  | .revertToDraft wfId => s.revertToDraft wfId
  | .rollbackToDraft wfId version => s.rollbackToDraft wfId version

end Steps

theorem Store.get_eq_ok {s : Store} {wfId : Nat} {wf : WorkflowRow} :
    s.get wfId = .ok wf ↔ s.workflows[wfId]? = some wf := by
  unfold Store.get
  cases s.workflows[wfId]? with
  | none => simp
  | some wf' => simp

/-- An operation that is not rolled back adds a workflow, changes a draft or publishes. -/
theorem Store.apply_cases {modelValidate : Json → Except Exn WorkflowDSL} {s s' : Store}
    {op : StoreOp} (h : s.apply modelValidate op = .ok s') :
    (∃ graph, s' = { s with workflows := s.workflows ++ [{ graphData := graph }] }) ∨
      s' = s ∨
      (∃ wfId wf wf', s.workflows[wfId]? = some wf ∧ wf'.version = wf.version ∧
        wf'.publishedGraphData = wf.publishedGraphData ∧ s' = s.setWorkflow wfId wf') ∨
      ∃ wfId wf dsl, op = .publish wfId ∧ s.workflows[wfId]? = some wf ∧
        parseDsl modelValidate (presentRaw wf.graphData) = .ok dsl ∧
        2 ≤ dsl.graph.nodes.length ∧ s' = s.promote wfId wf := by
  cases op with
  | create graphData =>
      rcases bind_eq_ok.1 h with ⟨dsl, -, hret⟩
      cases hret
      exact .inl ⟨_, rfl⟩
  | update wfId graphData =>
      rcases bind_eq_ok.1 h with ⟨wf, hget, hrest⟩
      cases graphData with
      | none => cases hrest; exact .inr (.inl rfl)
      | some graph =>
          rcases bind_eq_ok.1 hrest with ⟨dsl, -, hret⟩
          cases hret
          exact .inr (.inr (.inl ⟨wfId, wf, { wf with graphData := graph }, Store.get_eq_ok.1 hget,
            rfl, rfl, rfl⟩))
  | publish wfId =>
      rcases bind_eq_ok.1 h with ⟨wf, hget, hrest⟩
      rcases bind_eq_ok.1 hrest with ⟨dsl, hparse, hrest⟩
      by_cases hsmall : dsl.graph.nodes.length < 2
      · simp only [if_pos hsmall] at hrest
        cases hrest
      · simp only [if_neg hsmall] at hrest
        split at hrest
        · cases hrest
        · cases hrest
          have htwo : 2 ≤ dsl.graph.nodes.length := by omega
          exact .inr (.inr (.inr ⟨wfId, wf, dsl, rfl, Store.get_eq_ok.1 hget, hparse, htwo, rfl⟩))
  | revertToDraft wfId =>
      rcases bind_eq_ok.1 h with ⟨wf, hget, hret⟩
      cases hret
      exact .inr (.inr (.inl ⟨wfId, wf, { wf with status := .draft }, Store.get_eq_ok.1 hget,
        rfl, rfl, rfl⟩))
  | rollbackToDraft wfId version =>
      simp only [Store.apply, Store.rollbackToDraft] at h
      split at h
      · cases h
      · next wf hwf =>
          rcases bind_eq_ok.1 h with ⟨row, -, hret⟩
          cases hret
          exact .inr (.inr (.inl ⟨wfId, wf,
            { wf with graphData := row.graphData, status := .draft }, hwf, rfl, rfl, rfl⟩))

/-! ## What is published -/

structure StoreInv (s : Store) : Prop where
  known : ∀ row ∈ s.published, ∃ wf, s.workflows[row.workflowId]? = some wf ∧
    0 < row.version ∧ row.version ≤ wf.version
  unique : ∀ row ∈ s.published, ∀ row' ∈ s.published, row.workflowId = row'.workflowId →
    row.version = row'.version → row = row'
  current : ∀ wfId wf, s.workflows[wfId]? = some wf →
    wf.version = 0 ∧ wf.publishedGraphData = none ∨
      ∃ graph, wf.publishedGraphData = some graph ∧ ⟨wfId, wf.version, graph⟩ ∈ s.published

theorem storeInv_empty : StoreInv {} := ⟨nofun, nofun, nofun⟩

/-- A workflow with a published version has a published graph, that of its version. -/
theorem StoreInv.current_of_published {s : Store} (hinv : StoreInv s) {row : WorkflowVersion}
    (hrow : row ∈ s.published) {wf : WorkflowRow} (hwf : s.workflows[row.workflowId]? = some wf) :
    ∃ graph, wf.publishedGraphData = some graph ∧
      ⟨row.workflowId, wf.version, graph⟩ ∈ s.published := by
  rcases hinv.current _ wf hwf with ⟨hzero, -⟩ | hcurrent
  · rcases hinv.known row hrow with ⟨wf', hwf', hpos, hle⟩
    rw [hwf] at hwf'
    cases hwf'
    omega
  · exact hcurrent

section Preservation

variable {s : Store} (hinv : StoreInv s)
include hinv

theorem storeInv_create (graph : Json) :
    StoreInv { s with workflows := s.workflows ++ [{ graphData := graph }] } where
  known row hrow := by
    rcases hinv.known row hrow with ⟨wf, hwf, hversion⟩
    exact ⟨wf, lookup_concat hwf _, hversion⟩
  unique := hinv.unique
  current wfId wf hwf := by
    rcases lookup_concat_cases hwf with hwf | ⟨-, rfl⟩
    · exact hinv.current wfId wf hwf
    · exact .inl ⟨rfl, rfl⟩

theorem storeInv_setWorkflow {wfId : Nat} {wf wf' : WorkflowRow}
    (hwf : s.workflows[wfId]? = some wf) (hversion : wf'.version = wf.version)
    (hgraph : wf'.publishedGraphData = wf.publishedGraphData) :
    StoreInv (s.setWorkflow wfId wf') where
  known row hrow := by
    rcases hinv.known row hrow with ⟨old, hold, hpos, hle⟩
    rcases exists_lookup_set hwf wf' hold with ⟨new, hnew, ⟨-, rfl, rfl⟩ | ⟨-, rfl⟩⟩
    · exact ⟨_, hnew, hpos, hversion ▸ hle⟩
    · exact ⟨_, hnew, hpos, hle⟩
  unique := hinv.unique
  current id new hnew := by
    rcases lookup_set_cases hnew with ⟨rfl, rfl⟩ | ⟨-, hold⟩
    · rw [hversion, hgraph]
      exact hinv.current _ wf hwf
    · exact hinv.current id new hold

theorem storeInv_promote {wfId : Nat} {wf : WorkflowRow} (hwf : s.workflows[wfId]? = some wf) :
    StoreInv (s.promote wfId wf) where
  known row hrow := by
    rcases List.mem_append.1 hrow with hrow | hrow
    · rcases hinv.known row hrow with ⟨old, hold, hpos, hle⟩
      rcases exists_lookup_set hwf (Store.promoted wf) hold with
        ⟨new, hnew, ⟨-, rfl, rfl⟩ | ⟨-, rfl⟩⟩
      · exact ⟨_, hnew, hpos, Nat.le_succ_of_le hle⟩
      · exact ⟨_, hnew, hpos, hle⟩
    · cases List.mem_singleton.1 hrow
      exact ⟨_, lookup_set hwf (Store.promoted wf), Nat.succ_pos _, Nat.le_refl _⟩
  unique row hrow row' hrow' hid hversion := by
    -- The new version number is above those of the workflow's other rows.
    have hfresh : ∀ old ∈ s.published, old.workflowId = wfId → old.version ≠ wf.version + 1 := by
      intro old hold hwfId heq
      rcases hinv.known old hold with ⟨wf', hwf', -, hle⟩
      rw [hwfId, hwf] at hwf'
      cases hwf'
      omega
    rcases List.mem_append.1 hrow with hrow | hrow
    · rcases List.mem_append.1 hrow' with hrow' | hrow'
      · exact hinv.unique row hrow row' hrow' hid hversion
      · cases List.mem_singleton.1 hrow'
        exact absurd hversion (hfresh row hrow hid)
    · cases List.mem_singleton.1 hrow
      rcases List.mem_append.1 hrow' with hrow' | hrow'
      · exact absurd hversion.symm (hfresh row' hrow' hid.symm)
      · cases List.mem_singleton.1 hrow'
        rfl
  current id new hnew := by
    rcases lookup_set_cases hnew with ⟨rfl, rfl⟩ | ⟨-, hold⟩
    · right
      exact ⟨wf.graphData, rfl, List.mem_append_right _ (List.mem_singleton_self _)⟩
    · rcases hinv.current id new hold with hnone | ⟨graph, hgraph, hmem⟩
      · exact .inl hnone
      · exact .inr ⟨graph, hgraph, List.mem_append_left _ hmem⟩

theorem storeInv_apply {modelValidate : Json → Except Exn WorkflowDSL} {op : StoreOp}
    {s' : Store} (h : s.apply modelValidate op = .ok s') : StoreInv s' := by
  rcases Store.apply_cases h with ⟨graph, rfl⟩ | rfl | ⟨wfId, wf, wf', hwf, hversion, hgraph, rfl⟩ |
    ⟨wfId, wf, dsl, -, hwf, -, -, rfl⟩
  · exact storeInv_create hinv graph
  · exact hinv
  · exact storeInv_setWorkflow hinv hwf hversion hgraph
  · exact storeInv_promote hinv hwf

end Preservation

/-- Published versions are never withdrawn. -/
theorem Store.published_subset {modelValidate : Json → Except Exn WorkflowDSL} {s s' : Store}
    {op : StoreOp} (h : s.apply modelValidate op = .ok s') : s.published ⊆ s'.published := by
  rcases Store.apply_cases h with ⟨graph, rfl⟩ | rfl | ⟨wfId, wf, wf', -, -, -, rfl⟩ |
    ⟨wfId, wf, dsl, -, -, -, -, rfl⟩
  · exact List.Subset.refl _
  · exact List.Subset.refl _
  · exact List.Subset.refl _
  · exact List.subset_append_left _ _

end OpsKnowledge.Workflow
