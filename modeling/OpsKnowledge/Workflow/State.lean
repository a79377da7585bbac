import OpsKnowledge.Workflow.Compiler

/-!
# The state that LangGraph passes between nodes

`app/workflow/langgraph/state.py` and the update an adapter of `node_adapters.py`
returns. Each channel is bucketed by node id; a node writes its own bucket of all
three and the reducer merges it over the old channel value. `Represents` is the
abstract reading of the three channels: a partial map from nodes to updates.
-/

namespace OpsKnowledge.Workflow

open OpsKnowledge.Lib

/-- `dict[str, Any]`. -/
abbrev Bucket := Dict String Json

/-- `merge_by_node`: the right bucket wins. -/
def mergeByNode {ν : Type*} (left right : Dict String ν) : Dict String ν := left.update right

/-- What one node writes: its resolved inputs, its outputs and its branch. -/
structure NodeDelta where
  inputs : Bucket
  outputs : Bucket
  branch : Option String

structure Channels where
  inputs : Dict String Bucket
  outputs : Dict String Bucket
  branches : Dict String (Option String)

structure WorkflowState extends Channels where
  triggerInput : Bucket
  workflowVariables : Bucket

namespace Channels

/-- All per-node buckets start empty. -/
def empty : Channels := { inputs := .empty, outputs := .empty, branches := .empty }

/-- The reducers of the three channels, for the update of one node. -/
def applyDelta (c : Channels) (nid : String) (d : NodeDelta) : Channels :=
  { inputs := mergeByNode c.inputs (Dict.ofList [(nid, d.inputs)])
    outputs := mergeByNode c.outputs (Dict.ofList [(nid, d.outputs)])
    branches := mergeByNode c.branches (Dict.ofList [(nid, d.branch)]) }

def applyAll (c : Channels) (ws : List (String × NodeDelta)) : Channels :=
  ws.foldl (fun c w => c.applyDelta w.1 w.2) c

/-- `merged = dict(old); merged.update(new)`, channel by channel. -/
def update (old new : Channels) : Channels :=
  { inputs := old.inputs.update new.inputs
    outputs := old.outputs.update new.outputs
    branches := old.branches.update new.branches }

theorem get?_mergeByNode_single {ν : Type*} (left : Dict String ν) (nid k : String) (x : ν) :
    (mergeByNode left (Dict.ofList [(nid, x)])).get? k = if k = nid then some x else left.get? k := by
  rw [mergeByNode, Dict.get?_update, Dict.get?_ofList]
  by_cases hk : k = nid
  · simp [hk]
  · simp [lookup_cons_if, hk]

@[simp] theorem get?_inputs_applyDelta (c : Channels) (nid k : String) (d : NodeDelta) :
    (c.applyDelta nid d).inputs.get? k = if k = nid then some d.inputs else c.inputs.get? k :=
  get?_mergeByNode_single _ _ _ _

@[simp] theorem get?_outputs_applyDelta (c : Channels) (nid k : String) (d : NodeDelta) :
    (c.applyDelta nid d).outputs.get? k = if k = nid then some d.outputs else c.outputs.get? k :=
  get?_mergeByNode_single _ _ _ _

@[simp] theorem get?_branches_applyDelta (c : Channels) (nid k : String) (d : NodeDelta) :
    (c.applyDelta nid d).branches.get? k = if k = nid then some d.branch else c.branches.get? k :=
  get?_mergeByNode_single _ _ _ _

theorem applyAll_append (c : Channels) (ws ws' : List (String × NodeDelta)) :
    c.applyAll (ws ++ ws') = (c.applyAll ws).applyAll ws' := by
  simp [applyAll, List.foldl_append]

/-! ## The channels as a partial map -/

/-- Node `u` holds the three buckets of `f u`, or none of them. -/
def Represents (c : Channels) (f : String → Option NodeDelta) : Prop :=
  ∀ u, c.inputs.get? u = (f u).map NodeDelta.inputs ∧
    c.outputs.get? u = (f u).map NodeDelta.outputs ∧
    c.branches.get? u = (f u).map NodeDelta.branch

theorem represents_empty : Represents empty fun _ => none := fun _ => ⟨rfl, rfl, rfl⟩

/-- The last update of a node decides, and failing that the old value. -/
theorem Represents.applyAll {c : Channels} {f : String → Option NodeDelta} (h : c.Represents f)
    (ws : List (String × NodeDelta)) :
    (c.applyAll ws).Represents fun u => (ws.reverse.lookup u).or (f u) := by
  induction ws generalizing c f with
  | nil => simpa [Channels.applyAll] using h
  | cons w ws ih =>
      have hstep : (c.applyDelta w.1 w.2).Represents fun u => if u = w.1 then some w.2 else f u := by
        intro u
        by_cases hu : u = w.1
        · simp [hu]
        · simpa [hu] using h u
      intro u
      have hlast : ((w :: ws).reverse.lookup u).or (f u) =
          (ws.reverse.lookup u).or (if u = w.1 then some w.2 else f u) := by
        rw [List.reverse_cons, List.lookup_append, Option.or_assoc, lookup_cons_if]
        by_cases hu : u = w.1 <;> simp [hu]
      simp only [hlast]
      exact ih hstep u

theorem Represents.update {c c' : Channels} {f f' : String → Option NodeDelta}
    (h : c.Represents f) (h' : c'.Represents f') :
    (c.update c').Represents fun u => (f' u).or (f u) := by
  intro u
  rcases h u with ⟨hin, hout, hbr⟩
  rcases h' u with ⟨hin', hout', hbr'⟩
  simp only [Channels.update, Dict.get?_update, hin, hout, hbr, hin', hout', hbr']
  cases f' u <;> simp

end Channels

namespace WorkflowState

def applyDelta (st : WorkflowState) (nid : String) (d : NodeDelta) : WorkflowState :=
  { st with toChannels := st.toChannels.applyDelta nid d }

@[simp] theorem toChannels_applyDelta (st : WorkflowState) (nid : String) (d : NodeDelta) :
    (st.applyDelta nid d).toChannels = st.toChannels.applyDelta nid d := rfl

end WorkflowState

def initialState (triggerInput workflowVariables : Bucket) : WorkflowState :=
  { toChannels := .empty, triggerInput := triggerInput, workflowVariables := workflowVariables }

end OpsKnowledge.Workflow
