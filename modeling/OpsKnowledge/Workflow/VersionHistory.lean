import Mathlib.Data.List.DropRight
import OpsKnowledge.Workflow.Pinning

/-!
# The version history of a workflow

Numbers, stored rows and published graph over every sequence of requests, and what
`rollback_to_draft` followed by `publish` gives. An operation that raises leaves the
store as it was.
-/

namespace OpsKnowledge.Workflow

open OpsKnowledge.Lib

/-- The rows of one workflow, in the order in which they were written. -/
def rowsOf (wfId : Nat) (rows : List WorkflowVersion) : List WorkflowVersion :=
  rows.filter fun row => row.workflowId = wfId

section Requests

variable (modelValidate : Json → Except Exn WorkflowDSL)

def Store.request (s : Store) (op : StoreOp) : Store :=
  match s.apply modelValidate op with
  | .error _ => s
  | .ok s' => s'

def Store.requests (s : Store) (ops : List StoreOp) : Store :=
  ops.foldl (Store.request modelValidate) s

/-- `rollback_to_draft`, then `publish`. -/
def Store.republish (s : Store) (wfId version : Nat) : Except Exn Store := do
  let s' ← s.rollbackToDraft wfId version
  s'.publish modelValidate wfId

/-- Publishing a version again gives the next number its graph. The version stays under its
own number, unless it is the oldest of the fifty that are kept. -/
def Republishes (s : Store) (row : WorkflowVersion) : Prop :=
  ∃ wf s', s.workflows[row.workflowId]? = some wf ∧
    s.republish modelValidate row.workflowId row.version = .ok s' ∧
    { row with version := wf.version + 1 } ∈ s'.versions ∧
    ∀ r, r ∈ s'.versions ∧ r.workflowId = row.workflowId ∧ r.version = row.version ↔
      r = row ∧ wf.version < row.version + 49

structure VersionHistory (s : Store) : Prop where
  numbered : ∀ (wfId : Nat) (wf : WorkflowRow), s.workflows[wfId]? = some wf →
    (rowsOf wfId s.published).map WorkflowVersion.version = List.range' 1 wf.version
  kept : ∀ wfId : Nat, rowsOf wfId s.versions = (rowsOf wfId s.published).rtake 50
  unpublished : ∀ (wfId : Nat) (wf : WorkflowRow), s.workflows[wfId]? = some wf → wf.version = 0 →
    wf.publishedGraphData = none
  current : ∀ (wfId : Nat) (wf : WorkflowRow), s.workflows[wfId]? = some wf → 0 < wf.version →
    ∃ row ∈ s.versions, row.workflowId = wfId ∧ row.version = wf.version ∧
      wf.publishedGraphData = some row.graphData
  republishes : ∀ row ∈ s.versions, Republishes modelValidate s row

end Requests

/-! ## Rows by workflow -/

theorem mem_rowsOf {wfId : Nat} {rows : List WorkflowVersion} {row : WorkflowVersion} :
    row ∈ rowsOf wfId rows ↔ row ∈ rows ∧ row.workflowId = wfId := by
  simp [rowsOf]

theorem rowsOf_concat_self {wfId : Nat} (rows : List WorkflowVersion) {row : WorkflowVersion}
    (h : row.workflowId = wfId) : rowsOf wfId (rows ++ [row]) = rowsOf wfId rows ++ [row] := by
  simp [rowsOf, h]

theorem rowsOf_concat_of_ne {wfId : Nat} (rows : List WorkflowVersion) {row : WorkflowVersion}
    (h : row.workflowId ≠ wfId) : rowsOf wfId (rows ++ [row]) = rowsOf wfId rows := by
  simp [rowsOf, h]

theorem rowsOf_pruneOldVersions_of_ne {wfId id : Nat} (keep : Nat) (rows : List WorkflowVersion)
    (h : wfId ≠ id) : rowsOf wfId (pruneOldVersions id keep rows) = rowsOf wfId rows := by
  unfold rowsOf pruneOldVersions
  rw [List.filter_filter]
  apply List.filter_congr
  intro row _
  by_cases hid : row.workflowId = wfId
  · simp [hid, h]
  · simp [hid]

/-- A descending copy of an ascending list is its reverse. -/
theorem insertionSort_ge_of_ascending {ns : List Nat} (h : ns.Pairwise (· < ·)) :
    ns.insertionSort (· ≥ ·) = ns.reverse := by
  have hdesc : ns.reverse.Pairwise (· ≥ ·) := by
    rw [List.pairwise_reverse]
    exact h.imp Nat.le_of_lt
  exact ((List.perm_insertionSort (· ≥ ·) ns).trans (List.reverse_perm ns).symm).eq_of_pairwise'
    (List.pairwise_insertionSort (· ≥ ·) ns) hdesc

/-- Dropping the rows with the numbers of a prefix drops the prefix. -/
theorem filter_version_notMem_take {rows : List WorkflowVersion}
    (h : (rows.map WorkflowVersion.version).Pairwise (· < ·)) (n : Nat) :
    (rows.filter fun row => row.version ∉ (rows.map WorkflowVersion.version).take n) =
      rows.drop n := by
  have hnodup : (rows.map WorkflowVersion.version).Nodup := h.imp Nat.ne_of_lt
  have hdisjoint := List.disjoint_take_drop hnodup (Nat.le_refl n)
  rw [← List.map_take, ← List.map_drop] at hdisjoint
  have hgone : ∀ row ∈ rows.take n,
      ¬ decide (row.version ∉ (rows.map WorkflowVersion.version).take n) = true := by
    intro row hrow
    have hmem : row.version ∈ (rows.take n).map WorkflowVersion.version :=
      List.mem_map_of_mem hrow
    rw [List.map_take] at hmem
    simpa using hmem
  have hstay : ∀ row ∈ rows.drop n,
      decide (row.version ∉ (rows.map WorkflowVersion.version).take n) = true := by
    intro row hrow
    rw [← List.map_take, decide_eq_true_eq]
    intro hmem
    exact hdisjoint hmem (List.mem_map_of_mem hrow)
  calc (rows.filter fun row => row.version ∉ (rows.map WorkflowVersion.version).take n)
      = (rows.take n ++ rows.drop n).filter
          fun row => row.version ∉ (rows.map WorkflowVersion.version).take n := by
        rw [List.take_append_drop]
    _ = rows.drop n := by
        rw [List.filter_append, List.filter_eq_nil_iff.2 hgone, List.filter_eq_self.2 hstay,
          List.nil_append]

/-- Where the numbers ascend, pruning keeps the last rows. -/
theorem rowsOf_pruneOldVersions_self {wfId : Nat} (keep : Nat) {rows : List WorkflowVersion}
    (h : ((rowsOf wfId rows).map WorkflowVersion.version).Pairwise (· < ·)) :
    rowsOf wfId (pruneOldVersions wfId keep rows) = (rowsOf wfId rows).rtake keep := by
  have hdropped : ((rowsOf wfId rows).map WorkflowVersion.version).reverse.drop keep =
      (((rowsOf wfId rows).map WorkflowVersion.version).take
        ((rowsOf wfId rows).length - keep)).reverse := by
    rw [List.drop_reverse, List.length_map]
  have hprune : pruneOldVersions wfId keep rows = rows.filter fun row =>
      ¬ (row.workflowId = wfId ∧
        row.version ∈ (((rowsOf wfId rows).map WorkflowVersion.version).take
          ((rowsOf wfId rows).length - keep)).reverse) := by
    rw [← hdropped, ← insertionSort_ge_of_ascending h]
    rfl
  have hrows : rowsOf wfId (pruneOldVersions wfId keep rows) =
      (rowsOf wfId rows).filter fun row =>
        row.version ∉ ((rowsOf wfId rows).map WorkflowVersion.version).take
          ((rowsOf wfId rows).length - keep) := by
    -- Both sides filter the table, and on rows of the workflow by the same test.
    generalize ((rowsOf wfId rows).map WorkflowVersion.version).take
      ((rowsOf wfId rows).length - keep) = dropped at hprune ⊢
    rw [hprune]
    unfold rowsOf
    rw [List.filter_filter, List.filter_filter]
    apply List.filter_congr
    intro row _
    by_cases hid : row.workflowId = wfId
    · simp [hid]
    · simp [hid]
  rw [hrows, filter_version_notMem_take h]
  rfl

/-- Pruning what is left after earlier prunings keeps the last of all rows. -/
theorem rtake_rtake_concat {α : Type*} (n : Nat) (rows : List α) (row : α) :
    (rows.rtake (n + 1) ++ [row]).rtake (n + 1) = (rows ++ [row]).rtake (n + 1) := by
  have hinner : (rows.rtake (n + 1)).rtake n = rows.rtake n := by
    simp [List.rtake_eq_reverse_take_reverse, List.take_take]
  rw [List.rtake_concat_succ, List.rtake_concat_succ, hinner]

/-- Of rows numbered from 1, the last `k` are those whose number is within `k` of the last. -/
theorem mem_rtake_iff {rows : List WorkflowVersion} {n : Nat}
    (h : rows.map WorkflowVersion.version = List.range' 1 n) (k : Nat) {row : WorkflowVersion} :
    row ∈ rows.rtake k ↔ row ∈ rows ∧ n < row.version + k := by
  have hlen : rows.length = n := by
    rw [← List.length_map WorkflowVersion.version, h, List.length_range']
  have hnumber : ∀ i : Nat, rows[i]? = some row → row.version = i + 1 := by
    intro i hi
    have hmap : (rows.map WorkflowVersion.version)[i]? = some row.version := by
      rw [List.getElem?_map, hi]
      rfl
    rw [h] at hmap
    rcases List.getElem?_eq_some_iff.1 hmap with ⟨hi', heq⟩
    rw [List.getElem_range'] at heq
    omega
  constructor
  · intro hrow
    rcases List.mem_iff_getElem?.1 hrow with ⟨i, hi⟩
    rw [List.rtake, List.getElem?_drop] at hi
    have hversion := hnumber _ hi
    refine ⟨List.mem_of_getElem? hi, ?_⟩
    omega
  · rintro ⟨hrow, hlt⟩
    rcases List.mem_iff_getElem?.1 hrow with ⟨i, hi⟩
    have hversion := hnumber i hi
    apply List.mem_iff_getElem?.2
    refine ⟨i - (rows.length - k), ?_⟩
    rw [List.rtake, List.getElem?_drop]
    have hindex : rows.length - k + (i - (rows.length - k)) = i := by omega
    rw [hindex, hi]

/-! ## The invariant -/

section Invariant

variable (modelValidate : Json → Except Exn WorkflowDSL)

/-- `publish` accepts the graph. -/
def Publishable (graphData : Json) : Prop :=
  ∃ dsl, parseDsl modelValidate (presentRaw graphData) = .ok dsl ∧ 2 ≤ dsl.graph.nodes.length

structure HistoryInv (s : Store) : Prop extends StoreInv s where
  numbered : ∀ (wfId : Nat) (wf : WorkflowRow), s.workflows[wfId]? = some wf →
    (rowsOf wfId s.published).map WorkflowVersion.version = List.range' 1 wf.version
  kept : ∀ wfId : Nat, rowsOf wfId s.versions = (rowsOf wfId s.published).rtake 50
  publishable : ∀ row ∈ s.published, Publishable modelValidate row.graphData

end Invariant

section Rows

variable {modelValidate : Json → Except Exn WorkflowDSL} {s : Store}
  (hinv : HistoryInv modelValidate s)
include hinv

/-- A row is stored iff it was published and its number is among the last fifty. -/
theorem HistoryInv.mem_versions (row : WorkflowVersion) {wf : WorkflowRow}
    (hwf : s.workflows[row.workflowId]? = some wf) :
    row ∈ s.versions ↔ row ∈ s.published ∧ wf.version < row.version + 50 := by
  have hstored : row ∈ rowsOf row.workflowId s.versions ↔ row ∈ s.versions := by
    simp [mem_rowsOf]
  have hpublished : row ∈ rowsOf row.workflowId s.published ↔ row ∈ s.published := by
    simp [mem_rowsOf]
  rw [← hstored, hinv.kept, mem_rtake_iff (hinv.numbered _ wf hwf), hpublished]

theorem HistoryInv.published_of_stored {row : WorkflowVersion} (hrow : row ∈ s.versions) :
    row ∈ s.published := by
  have hmem : row ∈ rowsOf row.workflowId s.versions := mem_rowsOf.2 ⟨hrow, rfl⟩
  rw [hinv.kept] at hmem
  exact (mem_rowsOf.1 (List.mem_of_mem_drop hmem)).1

end Rows

/-! ## Requests keep it -/

section Preservation

variable {modelValidate : Json → Except Exn WorkflowDSL}

theorem historyInv_empty : HistoryInv modelValidate {} where
  toStoreInv := storeInv_empty
  numbered := nofun
  kept _ := rfl
  publishable := nofun

variable {s : Store} (hinv : HistoryInv modelValidate s)
include hinv

theorem historyInv_create (graph : Json) :
    HistoryInv modelValidate { s with workflows := s.workflows ++ [{ graphData := graph }] } where
  toStoreInv := storeInv_create hinv.toStoreInv graph
  numbered wfId wf hwf := by
    rcases lookup_concat_cases hwf with hwf | ⟨rfl, rfl⟩
    · exact hinv.numbered wfId wf hwf
    · -- The new workflow has no row yet.
      have hnil : rowsOf s.workflows.length s.published = [] := by
        apply List.eq_nil_iff_forall_not_mem.2
        intro row hmem
        rcases mem_rowsOf.1 hmem with ⟨hrow, hid⟩
        rcases hinv.known row hrow with ⟨wf, hwf, -⟩
        have hlt := (List.getElem?_eq_some_iff.1 hwf).1
        omega
      show (rowsOf s.workflows.length s.published).map WorkflowVersion.version = []
      rw [hnil]
      rfl
  kept := hinv.kept
  publishable := hinv.publishable

theorem historyInv_setWorkflow {wfId : Nat} {wf wf' : WorkflowRow}
    (hwf : s.workflows[wfId]? = some wf) (hversion : wf'.version = wf.version)
    (hgraph : wf'.publishedGraphData = wf.publishedGraphData) :
    HistoryInv modelValidate (s.setWorkflow wfId wf') where
  toStoreInv := storeInv_setWorkflow hinv.toStoreInv hwf hversion hgraph
  numbered id new hnew := by
    rcases lookup_set_cases hnew with ⟨rfl, rfl⟩ | ⟨-, hold⟩
    · rw [hversion]
      exact hinv.numbered _ wf hwf
    · exact hinv.numbered id new hold
  kept := hinv.kept
  publishable := hinv.publishable

theorem historyInv_promote {wfId : Nat} {wf : WorkflowRow} (hwf : s.workflows[wfId]? = some wf)
    (hpublishable : Publishable modelValidate wf.graphData) :
    HistoryInv modelValidate (s.promote wfId wf) := by
  have hown : (Store.versionRow wfId wf).workflowId = wfId := rfl
  have hnumbers : (rowsOf wfId (s.published ++ [Store.versionRow wfId wf])).map
      WorkflowVersion.version = List.range' 1 (wf.version + 1) := by
    rw [rowsOf_concat_self _ hown, List.map_append, hinv.numbered wfId wf hwf, List.range'_concat]
    have hnext : wf.version + 1 = 1 + 1 * wf.version := by omega
    simp [Store.versionRow, hnext]
  have hascending : ((rowsOf wfId (s.versions ++ [Store.versionRow wfId wf])).map
      WorkflowVersion.version).Pairwise (· < ·) := by
    have hall : ((rowsOf wfId (s.published ++ [Store.versionRow wfId wf])).map
        WorkflowVersion.version).Pairwise (· < ·) := by
      rw [hnumbers]
      exact List.pairwise_lt_range'
    apply List.Pairwise.sublist ?_ hall
    rw [rowsOf_concat_self _ hown, rowsOf_concat_self _ hown, hinv.kept]
    exact ((List.drop_sublist _ _).append_right _).map _
  refine ⟨storeInv_promote hinv.toStoreInv hwf, ?_, ?_, ?_⟩
  · intro id new hnew
    rcases lookup_set_cases hnew with ⟨rfl, rfl⟩ | ⟨hid, hold⟩
    · exact hnumbers
    · have hne : (Store.versionRow wfId wf).workflowId ≠ id := Ne.symm hid
      show (rowsOf id (s.published ++ [Store.versionRow wfId wf])).map _ = _
      rw [rowsOf_concat_of_ne _ hne]
      exact hinv.numbered id new hold
  · intro id
    show rowsOf id (pruneOldVersions wfId 50 (s.versions ++ [Store.versionRow wfId wf])) =
      (rowsOf id (s.published ++ [Store.versionRow wfId wf])).rtake 50
    by_cases hid : id = wfId
    · subst hid
      rw [rowsOf_pruneOldVersions_self 50 hascending, rowsOf_concat_self _ hown,
        rowsOf_concat_self _ hown, hinv.kept, rtake_rtake_concat]
    · have hne : (Store.versionRow wfId wf).workflowId ≠ id := Ne.symm hid
      rw [rowsOf_pruneOldVersions_of_ne 50 _ hid, rowsOf_concat_of_ne _ hne,
        rowsOf_concat_of_ne _ hne]
      exact hinv.kept id
  · intro row hrow
    rcases List.mem_append.1 hrow with hrow | hrow
    · exact hinv.publishable row hrow
    · cases List.mem_singleton.1 hrow
      exact hpublishable

theorem historyInv_apply {op : StoreOp} {s' : Store} (h : s.apply modelValidate op = .ok s') :
    HistoryInv modelValidate s' := by
  rcases Store.apply_cases h with ⟨graph, rfl⟩ | rfl | ⟨wfId, wf, wf', hwf, hversion, hgraph, rfl⟩ |
    ⟨wfId, wf, dsl, -, hwf, hparse, htwo, rfl⟩
  · exact historyInv_create hinv graph
  · exact hinv
  · exact historyInv_setWorkflow hinv hwf hversion hgraph
  · exact historyInv_promote hinv hwf ⟨dsl, hparse, htwo⟩

theorem historyInv_request (op : StoreOp) : HistoryInv modelValidate (s.request modelValidate op) := by
  unfold Store.request
  cases h : s.apply modelValidate op with
  | error e => exact hinv
  | ok s' => exact historyInv_apply hinv h

theorem historyInv_requests (ops : List StoreOp) :
    HistoryInv modelValidate (s.requests modelValidate ops) := by
  induction ops generalizing s with
  | nil => exact hinv
  | cons op ops ih => exact ih (historyInv_request hinv op)

/-! ## What it says -/

theorem HistoryInv.getVersion_eq {row : WorkflowVersion} (hrow : row ∈ s.versions) :
    s.getVersion row.workflowId row.version = .ok row := by
  unfold Store.getVersion
  cases hfind : s.versions.find? fun r => r.workflowId = row.workflowId ∧ r.version = row.version with
  | none =>
      have hnone := List.find?_eq_none.1 hfind row hrow
      simp at hnone
  | some r =>
      have htest := List.find?_some hfind
      simp only [decide_eq_true_eq] at htest
      have hpublished := hinv.published_of_stored (List.mem_of_find?_eq_some hfind)
      rw [hinv.unique r hpublished row (hinv.published_of_stored hrow) htest.1 htest.2]

theorem HistoryInv.publish_eq {wfId : Nat} {wf : WorkflowRow} (hwf : s.workflows[wfId]? = some wf)
    (hpublishable : Publishable modelValidate wf.graphData) :
    s.publish modelValidate wfId = .ok (s.promote wfId wf) := by
  rcases hpublishable with ⟨dsl, hparse, htwo⟩
  have hfresh : ∀ row ∈ s.versions, row.workflowId = wfId → ¬ row.version = wf.version + 1 := by
    rintro row hrow rfl hversion
    rcases hinv.known row (hinv.published_of_stored hrow) with ⟨old, hold, -, hle⟩
    rw [hwf] at hold
    cases hold
    omega
  have hnot : ¬ dsl.graph.nodes.length < 2 := by omega
  simp [Store.publish, Store.get_eq_ok.2 hwf, hparse, hnot, bind, Except.bind, pure, Except.pure]
  exact hfresh

theorem HistoryInv.republishes {row : WorkflowVersion} (hrow : row ∈ s.versions) :
    Republishes modelValidate s row := by
  have hpublished := hinv.published_of_stored hrow
  rcases hinv.known row hpublished with ⟨wf, hwf, -, hle⟩
  let draft : WorkflowRow := { wf with graphData := row.graphData, status := .draft }
  have hrollback : s.rollbackToDraft row.workflowId row.version =
      .ok (s.setWorkflow row.workflowId draft) := by
    simp only [Store.rollbackToDraft, hwf, hinv.getVersion_eq hrow]
    rfl
  have hdraft : HistoryInv modelValidate (s.setWorkflow row.workflowId draft) :=
    historyInv_setWorkflow hinv hwf rfl rfl
  have hlookup := lookup_set hwf draft
  have hpublishable := hinv.publishable row hpublished
  have hfinal := historyInv_promote hdraft hlookup hpublishable
  have hnew : ((s.setWorkflow row.workflowId draft).promote row.workflowId draft).workflows[
      row.workflowId]? = some (Store.promoted draft) := lookup_set hlookup _
  refine ⟨wf, (s.setWorkflow row.workflowId draft).promote row.workflowId draft, hwf, ?_, ?_, ?_⟩
  · unfold Store.republish
    rw [hrollback]
    exact hdraft.publish_eq hlookup hpublishable
  · apply (hfinal.mem_versions (Store.versionRow row.workflowId draft) hnew).2
    refine ⟨List.mem_append_right _ (List.mem_singleton_self _), ?_⟩
    show wf.version + 1 < wf.version + 1 + 50
    omega
  · intro r
    have hold : row ∈ ((s.setWorkflow row.workflowId draft).promote row.workflowId draft).published :=
      List.mem_append_left _ hpublished
    constructor
    · rintro ⟨hr, hid, hversion⟩
      have hsame : r = row := hfinal.unique r (hfinal.published_of_stored hr) row hold hid hversion
      subst hsame
      have hlt := ((hfinal.mem_versions r hnew).1 hr).2
      have hnumber : (Store.promoted draft).version = wf.version + 1 := rfl
      exact ⟨rfl, by omega⟩
    · rintro ⟨rfl, hlt⟩
      refine ⟨(hfinal.mem_versions r hnew).2 ⟨hold, ?_⟩, rfl, rfl⟩
      show wf.version + 1 < r.version + 50
      omega

theorem HistoryInv.versionHistory : VersionHistory modelValidate s where
  numbered := hinv.numbered
  kept := hinv.kept
  unpublished wfId wf hwf hzero := by
    rcases hinv.current wfId wf hwf with ⟨-, hnone⟩ | ⟨graph, -, hmem⟩
    · exact hnone
    · rcases hinv.known _ hmem with ⟨-, -, hpos, -⟩
      rw [hzero] at hpos
      cases hpos
  current wfId wf hwf hpos := by
    rcases hinv.current wfId wf hwf with ⟨hzero, -⟩ | ⟨graph, hgraph, hmem⟩
    · omega
    · refine ⟨⟨wfId, wf.version, graph⟩, (hinv.mem_versions _ hwf).2 ⟨hmem, ?_⟩, rfl, rfl, hgraph⟩
      show wf.version < wf.version + 50
      omega
  republishes _ hrow := hinv.republishes hrow

end Preservation

theorem requests_versionHistory (modelValidate : Json → Except Exn WorkflowDSL)
    (ops : List StoreOp) :
    VersionHistory modelValidate (Store.requests modelValidate {} ops) :=
  (historyInv_requests historyInv_empty ops).versionHistory

/-- Fifty publications of one draft. -/
def fiftyPublications : List StoreOp :=
  .create (some (twoNodeGraph "answer")) :: List.replicate 50 (.publish 0)

/-- After fifty publications, publishing version 1 again prunes its row. -/
theorem republished_version_pruned :
    ¬ ∀ (modelValidate : Json → Except Exn WorkflowDSL) (ops : List StoreOp),
        ∀ row ∈ (Store.requests modelValidate {} ops).versions, ∃ s',
          (Store.requests modelValidate {} ops).republish modelValidate row.workflowId
            row.version = .ok s' ∧ row ∈ s'.versions := by
  intro h
  have hstored : (Store.requests readTwoNodeGraph {} fiftyPublications).versions.map
      (fun row => (row.workflowId, row.version)) = (List.range' 1 50).map (Prod.mk 0) := by
    decide +kernel
  have hfirst : (0, 1) ∈ (List.range' 1 50).map (Prod.mk 0) := by simp
  rw [← hstored] at hfirst
  rcases List.mem_map.1 hfirst with ⟨row, hrow, hid⟩
  rcases h _ _ row hrow with ⟨s', hs', hstay⟩
  rcases Prod.mk.inj hid with ⟨hid, hversion⟩
  rw [hid, hversion] at hs'
  have hnumbers : ((Store.requests readTwoNodeGraph {} fiftyPublications).republish
      readTwoNodeGraph 0 1).toOption.map (fun s' => s'.versions.map WorkflowVersion.version) =
        some (List.range' 2 50) := by
    decide +kernel
  rw [hs'] at hnumbers
  have hrows : s'.versions.map WorkflowVersion.version = List.range' 2 50 :=
    Option.some.inj hnumbers
  have hone : row.version ∈ s'.versions.map WorkflowVersion.version := List.mem_map_of_mem hstay
  rw [hrows, hversion] at hone
  simp at hone

end OpsKnowledge.Workflow
