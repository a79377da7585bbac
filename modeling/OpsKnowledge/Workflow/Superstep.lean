import OpsKnowledge.Workflow.Routing
import OpsKnowledge.Workflow.State

/-!
# Runs of a compiled graph

LangGraph executes a graph in supersteps. All scheduled nodes of one superstep read
the same state; their updates are merged and the targets of their out-edges are the
nodes of the next superstep. What a node does with the state it reads is a parameter,
a function of the superstep and the node id, so a statement for all of them is a
statement for every behaviour of every node.
-/

namespace OpsKnowledge.Workflow

open OpsKnowledge.Lib

/-- What each node returns, by superstep, node id and the state it is given. -/
abbrev Behaviour := Nat → String → WorkflowState → NodeDelta

structure RunState where
  state : WorkflowState
  scheduled : List String

def nodeTargets (ts : List Target) : List String :=
  ts.filterMap fun t =>
    match t with
    | .node id => some id
    | .endNode => none

theorem mem_nodeTargets {ts : List Target} {v : String} :
    v ∈ nodeTargets ts ↔ Target.node v ∈ ts := by
  rw [nodeTargets, List.mem_filterMap]
  constructor
  · intro h
    obtain ⟨t, ht, htv⟩ := h
    cases t with
    | node id => cases htv; exact ht
    | endNode => cases htv
  · intro h
    exact ⟨_, h, rfl⟩

section Run

variable (g : CompiledGraph) (behave : Behaviour)

/-- The scheduling decisions of one node, made on the state with its own update. -/
def routeFrom (k : Nat) (st : WorkflowState) (u : String) : Except Exn (List Target) :=
  g.successors u (st.applyDelta u (behave k u st)).branches

/-- All updates of superstep `k`, each computed from the state the superstep started with. -/
def mergeSuperstep (k : Nat) (r : RunState) : WorkflowState :=
  r.scheduled.foldl (fun st u => st.applyDelta u (behave k u r.state)) r.state

def superstep (k : Nat) (r : RunState) : Except Exn RunState := do
  let targets ← r.scheduled.mapM (routeFrom g behave k r.state)
  return { state := mergeSuperstep behave k r, scheduled := (nodeTargets targets.flatten).dedup }

/-- The run before superstep `k`. -/
def runTo (st : WorkflowState) : Nat → Except Exn RunState
  | 0 => .ok { state := st, scheduled := [g.entry] }
  | k + 1 => do
      let r ← runTo st k
      superstep g behave k r

/-- Node `v` executes in superstep `k`. -/
def Executes (st : WorkflowState) (k : Nat) (v : String) : Prop :=
  ∃ r, runTo g behave st k = .ok r ∧ v ∈ r.scheduled

end Run

/-! ## The scheduling relation of the DSL -/

/-- Node `u` with branch `b` schedules `v`: along any edge of a plain fan-out, and
otherwise along the last out-edge that has the label the route function returns. -/
def Schedules (dsl : WorkflowDSL) (u : String) (b : Option String) (v : String) : Prop :=
  if isPlain (outEdges dsl u) then EdgeRel dsl.graph.edges u v
  else ∃ e, lastLabelled (outEdges dsl u) (routeLabel (outEdges dsl u) b) = some e ∧ e.target = v

theorem edgeRel_iff_outEdges {dsl : WorkflowDSL} {u v : String} :
    EdgeRel dsl.graph.edges u v ↔ ∃ e ∈ outEdges dsl u, e.target = v := by
  simp [EdgeRel, outEdges, and_assoc]

theorem Schedules.edge {dsl : WorkflowDSL} {u v : String} {b : Option String}
    (h : Schedules dsl u b v) : EdgeRel dsl.graph.edges u v := by
  unfold Schedules at h
  split at h
  · exact h
  · obtain ⟨e, he, rfl⟩ := h
    exact edgeRel_iff_outEdges.2 ⟨e, (lastLabelled_eq_some he).1, rfl⟩

section Compiled

variable {registry : NodeRegistry} {dsl : WorkflowDSL} {allow : Bool} {g : CompiledGraph}

/-- What a node schedules in a superstep that raises nothing. -/
theorem Compiled.schedules_iff (hg : Compiled registry dsl allow g) {u : String} (hu : u ∈ g.ids)
    {b : Option String} {branches : Dict String (Option String)}
    (hb : branches.get? u = some b) {ts : List Target}
    (hts : g.successors u branches = .ok ts) (v : String) :
    Target.node v ∈ ts ↔ Schedules dsl u b v := by
  have hroute : makeRouteFn u (outEdges dsl u) branches = routeLabel (outEdges dsl u) b := by
    rw [makeRouteFn, hb]
    rfl
  rw [hg.successors_eq hu (rfl : outEdges dsl u = _) branches, hroute] at hts
  rw [Schedules, edgeRel_iff_outEdges]
  by_cases hz : outEdges dsl u = []
  · rw [if_pos hz] at hts
    cases hts
    simp [hz, isPlain]
  · rw [if_neg hz] at hts
    cases hp : isPlain (outEdges dsl u) with
    | true =>
        rw [hp, if_pos rfl] at hts
        cases hts
        simp
    | false =>
        rw [hp, get?_pathMap] at hts
        cases hl : lastLabelled (outEdges dsl u) (routeLabel (outEdges dsl u) b) with
        | some e =>
            simp [hl] at hts
            subst hts
            simp [eq_comm]
        | none =>
            by_cases hend : routeLabel (outEdges dsl u) b = "_end"
            · simp only [hl, if_pos hend] at hts
              cases hts
              simp
            · simp only [hl, if_neg hend] at hts
              cases hts

/-- A node raises nothing when its branch schedules something or it emits none. -/
theorem Compiled.successors_ok (hg : Compiled registry dsl allow g) {u : String} (hu : u ∈ g.ids)
    {b : Option String} {branches : Dict String (Option String)}
    (hb : branches.get? u = some b) (h : b = none ∨ ∃ v, Schedules dsl u b v) :
    ∃ ts, g.successors u branches = .ok ts := by
  have hroute : makeRouteFn u (outEdges dsl u) branches = routeLabel (outEdges dsl u) b := by
    rw [makeRouteFn, hb]
    rfl
  rw [hg.successors_eq hu (rfl : outEdges dsl u = _) branches, hroute]
  by_cases hz : outEdges dsl u = []
  · exact ⟨_, if_pos hz⟩
  · rw [if_neg hz]
    cases hp : isPlain (outEdges dsl u) with
    | true => exact ⟨_, rfl⟩
    | false =>
        have hfound : ∃ t, (pathMap (outEdges dsl u)).get? (routeLabel (outEdges dsl u) b) =
            some t := by
          rw [get?_pathMap]
          rcases h with rfl | h
          · have hlabel := routeLabel_of_no_matching
              (show matchingEdges (outEdges dsl u) none = [] by simp [matchingEdges])
            by_cases hd : defaultEdges (outEdges dsl u) = []
            · rw [hlabel, if_pos hd]
              cases lastLabelled (outEdges dsl u) "_end" <;> simp
            · obtain ⟨e, he⟩ := List.exists_mem_of_ne_nil _ hd
              have hnone : e.sourceHandle = none := by
                simpa [defaultEdges] using (List.mem_filter.1 he).2
              obtain ⟨l, hl⟩ := lastLabelled_isSome (List.mem_of_mem_filter he)
              rw [edgeLabel_of_none hnone] at hl
              rw [hlabel, if_neg hd, hl]
              exact ⟨_, rfl⟩
          · obtain ⟨v, hv⟩ := h
            simp only [Schedules, hp] at hv
            obtain ⟨e, he, -⟩ := hv
            rw [he]
            exact ⟨_, rfl⟩
        obtain ⟨t, ht⟩ := hfound
        rw [ht]
        exact ⟨_, rfl⟩

end Compiled

end OpsKnowledge.Workflow
