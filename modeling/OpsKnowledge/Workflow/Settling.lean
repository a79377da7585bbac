import OpsKnowledge.Workflow.Ordering
import OpsKnowledge.Workflow.Structure

/-!
# How a run ends

A join runs again whenever one of its predecessors activates it, so a run is not one
visit per node. Every walk of an accepted DSL is shorter than its node list, though,
which bounds the supersteps. The last execution of a node comes after the last
executions of all nodes that activate it, so what a run leaves behind does not show
that a join ever ran early.
-/

namespace OpsKnowledge.Workflow

open OpsKnowledge.Lib

/-- `v` executes in superstep `j` and in no later one. -/
structure ExecutesLast (g : CompiledGraph) (behave : Behaviour) (st : WorkflowState) (j : Nat)
    (v : String) : Prop where
  executes : Executes g behave st j v
  last : ∀ i, Executes g behave st i v → i ≤ j

/-- A run has ended with a state in which the outputs of every node are those of its last
execution, and that execution read the final outputs of the nodes that activate it. -/
structure Settled (dsl : WorkflowDSL) (g : CompiledGraph) (behave : Behaviour) (st : WorkflowState)
    (r : RunState) : Prop where
  ended : r.scheduled = []
  idle : ∀ v, (∀ j, ¬ Executes g behave st j v) → r.state.outputs.get? v = st.outputs.get? v
  ran : ∀ i v, Executes g behave st i v → ∃ j rj, ExecutesLast g behave st j v ∧
    runTo g behave st j = .ok rj ∧
    r.state.outputs.get? v = some (behave j v rj.state).outputs ∧
    ∀ u h rh, ExecutesLast g behave st h u → runTo g behave st h = .ok rh →
      Schedules dsl u (behave h u rh.state).branch v →
      h < j ∧ rj.state.outputs.get? u = r.state.outputs.get? u

/-- The branch `b` of `u` has no entry in the path map. -/
def Unrouted (dsl : WorkflowDSL) (u : String) (b : Option String) : Prop :=
  b = some "" ∧ ∃ e ∈ outEdges dsl u, e.sourceHandle = some ""

/-! ## Errors -/

/-- An empty handle is stored under `_default` and looked up as itself. -/
theorem get?_pathMap_routeLabel_eq_none {edges : List EdgeDef} {branch : Option String}
    (h : (pathMap edges).get? (routeLabel edges branch) = none) :
    branch = some "" ∧ ∃ e ∈ edges, e.sourceHandle = some "" := by
  rw [get?_pathMap] at h
  cases hl : lastLabelled edges (routeLabel edges branch) with
  | some e =>
      rw [hl] at h
      cases h
  | none =>
      have hend : routeLabel edges branch ≠ "_end" := by
        intro hend
        rw [hl, if_pos hend] at h
        cases h
      rw [lastLabelled_eq_none] at hl
      by_cases hm : matchingEdges edges branch = []
      · have hlabel := routeLabel_of_no_matching hm
        by_cases hd : defaultEdges edges = []
        · rw [if_pos hd] at hlabel
          exact absurd hlabel hend
        · rw [if_neg hd] at hlabel
          obtain ⟨e, he⟩ := List.exists_mem_of_ne_nil _ hd
          have hnone : e.sourceHandle = none := by
            simpa [defaultEdges] using (List.mem_filter.1 he).2
          have hne := hl e (List.mem_of_mem_filter he)
          rw [hlabel, edgeLabel_of_none hnone] at hne
          exact absurd rfl hne
      · obtain ⟨b, rfl, hlabel, hall⟩ := routeLabel_of_matching hm
        obtain ⟨e, he⟩ := List.exists_mem_of_ne_nil _ hm
        have hmem : e ∈ edges := List.mem_of_mem_filter he
        have hb : b = "" := by
          by_contra hne
          have := hl e hmem
          rw [hlabel, edgeLabel_of_handle (hall e he) hne] at this
          exact this rfl
        subst hb
        exact ⟨rfl, e, hmem, hall e he⟩

section Compiled

variable {registry : NodeRegistry} {dsl : WorkflowDSL} {allow : Bool} {g : CompiledGraph}
  {behave : Behaviour} {st : WorkflowState}

theorem Compiled.unrouted_of_raises (hg : Compiled registry dsl allow g) {u : String}
    (hu : u ∈ g.ids) {b : Option String} {branches : Dict String (Option String)}
    (hb : branches.get? u = some b) {e : Exn} (h : g.successors u branches = .error e) :
    Unrouted dsl u b := by
  have hroute : makeRouteFn u (outEdges dsl u) branches = routeLabel (outEdges dsl u) b := by
    rw [makeRouteFn, hb]
    rfl
  rw [hg.successors_eq hu (rfl : outEdges dsl u = _) branches, hroute] at h
  split at h
  · cases h
  · split at h
    · cases h
    · split at h
      case _ hnone => exact get?_pathMap_routeLabel_eq_none hnone
      case _ => cases h

/-- A run raises nothing but the `KeyError` of an empty branch. -/
theorem Compiled.unrouted_of_runTo (hg : Compiled registry dsl allow g) {k : Nat} {e : Exn}
    (h : runTo g behave st k = .error e) :
    ∃ j < k, ∃ r, runTo g behave st j = .ok r ∧
      ∃ u ∈ r.scheduled, Unrouted dsl u (behave j u r.state).branch := by
  induction k with
  | zero => cases h
  | succ k ih =>
      cases hr : runTo g behave st k with
      | error e' =>
          have heq : e' = e := by
            rw [runTo, hr] at h
            cases h
            rfl
          obtain ⟨j, hj, found⟩ := ih (heq ▸ hr)
          exact ⟨j, Nat.lt_succ_of_lt hj, found⟩
      | ok r =>
          refine ⟨k, k.lt_succ_self, r, hr, ?_⟩
          by_contra hnone
          push Not at hnone
          have hids := hg.scheduled_mem_ids hr
          have hok : ∀ u ∈ r.scheduled, ∃ ts, routeFrom g behave k r.state u = .ok ts := by
            intro u hu
            cases hroute : routeFrom g behave k r.state u with
            | ok ts => exact ⟨ts, rfl⟩
            | error e' =>
                exact absurd (hg.unrouted_of_raises (hids u hu) (by simp) hroute) (hnone u hu)
          obtain ⟨targets, htargets⟩ := exists_mapM_eq_ok hok
          have hstep := runTo_succ_eq_ok.2 ⟨r, hr, superstep_eq_ok.2 ⟨targets, htargets, rfl⟩⟩
          rw [hstep] at h
          cases h

/-! ## The bound -/

/-- No node executes in or after superstep `len(reachable)`. -/
theorem Compiled.lt_of_executes (hg : Compiled registry dsl allow g)
    (hacyclic : Acyclic dsl.graph.HasEdge) {k : Nat} {v : String}
    (h : Executes g behave st k v) : k < g.ids.length := by
  obtain ⟨p, hp, -⟩ := hg.executes_walk h
  have hstep : ∀ i < k, dsl.graph.HasEdge (p i) (p (i + 1)) := fun i hi => (hp.step i hi).edge
  apply hacyclic.length_lt_of_path hstep
  intro i hi
  induction i with
  | zero => exact hp.start ▸ hg.entry_mem
  | succ i ih => exact hg.mem_ids_of_edge (ih (Nat.le_of_succ_le hi)) (hstep i hi)

theorem Compiled.exists_executesLast (hg : Compiled registry dsl allow g)
    (hacyclic : Acyclic dsl.graph.HasEdge) {i : Nat} {v : String} (h : Executes g behave st i v) :
    ∃ j, ExecutesLast g behave st j v := by
  classical
  have hle : ∀ j, Executes g behave st j v → j ≤ g.ids.length :=
    fun j hj => (hg.lt_of_executes hacyclic hj).le
  exact ⟨Nat.findGreatest (fun j => Executes g behave st j v) g.ids.length,
    Nat.findGreatest_spec (P := fun j => Executes g behave st j v) (hle i h) h,
    fun j hj => Nat.le_findGreatest (hle j hj) hj⟩

/-! ## What is left -/

theorem exists_runTo_of_le {g : CompiledGraph} {m n : Nat} (hmn : m ≤ n) {r : RunState}
    (hr : runTo g behave st n = .ok r) : ∃ r', runTo g behave st m = .ok r' := by
  induction n, hmn using Nat.le_induction generalizing r with
  | base => exact ⟨r, hr⟩
  | succ n hmn ih =>
      obtain ⟨r₀, hr₀, -⟩ := runTo_succ_eq_ok.1 hr
      exact ih hr₀

/-- What a node that is about to run activates runs in the next superstep. -/
theorem Compiled.executes_of_schedules (hg : Compiled registry dsl allow g) {k h : Nat}
    {r rh : RunState} (hr : runTo g behave st k = .ok r) (hk : h < k)
    (hrh : runTo g behave st h = .ok rh) {u v : String} (hu : u ∈ rh.scheduled)
    (huv : Schedules dsl u (behave h u rh.state).branch v) : Executes g behave st (h + 1) v := by
  obtain ⟨r', hr'⟩ := exists_runTo_of_le hk hr
  obtain ⟨r₀, hr₀, hstep⟩ := runTo_succ_eq_ok.1 hr'
  rw [hrh] at hr₀
  cases hr₀
  exact ⟨r', hr', (hg.mem_scheduled_superstep (hg.scheduled_mem_ids hrh) hstep v).2 ⟨u, hu, huv⟩⟩

theorem get?_outputs_of_idle {g : CompiledGraph} {v : String} {k : Nat} {r : RunState}
    (hr : runTo g behave st k = .ok r) (hidle : ∀ j, ¬ Executes g behave st j v) :
    r.state.outputs.get? v = st.outputs.get? v := by
  induction k generalizing r with
  | zero => cases hr; rfl
  | succ k ih =>
      obtain ⟨r₀, hr₀, hstep⟩ := runTo_succ_eq_ok.1 hr
      obtain ⟨targets, -, rfl⟩ := superstep_eq_ok.1 hstep
      rw [mergeSuperstep, get?_outputs_foldl_applyDelta, if_neg fun hv => hidle k ⟨r₀, hr₀, hv⟩]
      exact ih hr₀

theorem ExecutesLast.get?_outputs {g : CompiledGraph} {u : String} {h k : Nat} {rh r : RunState}
    (hlast : ExecutesLast g behave st h u) (hrh : runTo g behave st h = .ok rh)
    (hr : runTo g behave st k = .ok r) (hk : h < k) :
    r.state.outputs.get? u = some (behave h u rh.state).outputs := by
  obtain ⟨r', hr', hu⟩ := hlast.executes
  rw [hrh] at hr'
  cases hr'
  refine get?_outputs_of_executes hrh hu ?_ hk hr
  intro i hi _ hexec
  exact absurd (hlast.last i hexec) (Nat.not_le_of_lt hi)

theorem Compiled.settled (hg : Compiled registry dsl allow g)
    (hacyclic : Acyclic dsl.graph.HasEdge) {r : RunState}
    (hr : runTo g behave st g.ids.length = .ok r) : Settled dsl g behave st r := by
  refine ⟨?_, fun v hv => get?_outputs_of_idle hr hv, ?_⟩
  · rw [List.eq_nil_iff_forall_not_mem]
    intro v hv
    exact absurd (hg.lt_of_executes hacyclic ⟨r, hr, hv⟩) (Nat.lt_irrefl _)
  · intro i v hv
    obtain ⟨j, hj⟩ := hg.exists_executesLast hacyclic hv
    obtain ⟨rj, hrj, hmem⟩ := hj.executes
    have hjk := hg.lt_of_executes hacyclic hj.executes
    refine ⟨j, rj, hj, hrj, hj.get?_outputs hrj hr hjk, ?_⟩
    intro u h rh hu hrh huv
    have hhk := hg.lt_of_executes hacyclic hu.executes
    obtain ⟨rh', hrh', humem⟩ := hu.executes
    rw [hrh] at hrh'
    cases hrh'
    -- The activation by `u` is one of the executions of `v`.
    have hnext := hj.last (h + 1) (hg.executes_of_schedules hr hhk hrh humem huv)
    have hhj : h < j := hnext
    exact ⟨hhj, (hu.get?_outputs hrh hrj hhj).trans (hu.get?_outputs hrh hr hhk).symm⟩

end Compiled

/-- An accepted DSL ends within as many supersteps as it has reachable nodes, whatever its
nodes do: settled, or with the error of a node that emitted an empty branch. -/
theorem compileDsl_settles {registry : NodeRegistry} {Raw : Type*}
    {modelValidate : Raw → Except Exn WorkflowDSL} {raw : Option Raw} {dsl : WorkflowDSL}
    {checkpointer allow : Bool} {g : CompiledGraph} (hparse : parseDsl modelValidate raw = .ok dsl)
    (hcompile : compileDsl registry dsl checkpointer allow = .ok g) (behave : Behaviour)
    (st : WorkflowState) :
    (∃ r, runTo g behave st g.ids.length = .ok r ∧ Settled dsl g behave st r) ∨
      ∃ e, runTo g behave st g.ids.length = .error e ∧
        ∃ j < g.ids.length, ∃ r, runTo g behave st j = .ok r ∧
          ∃ u ∈ r.scheduled, Unrouted dsl u (behave j u r.state).branch := by
  have hg := compileDsl_spec hcompile
  have hacyclic : Acyclic dsl.graph.HasEdge := by
    rcases structureOk_of_parseDsl hparse with hempty | hok
    · obtain ⟨n, hn, -⟩ := List.mem_map.1 hg.entry_mem
      have := hg.declared n hn
      rw [hempty] at this
      cases this
    · exact hok.acyclic
  cases hr : runTo g behave st g.ids.length with
  | ok r => exact Or.inl ⟨r, rfl, hg.settled hacyclic hr⟩
  | error e => exact Or.inr ⟨e, rfl, hg.unrouted_of_runTo hr⟩

theorem compileDsl_settles_unevenJoin :
    ∃ g, compileDsl .builtin unevenJoinDsl = .ok g ∧ ∀ behave st,
      (∃ r, runTo g behave st g.ids.length = .ok r ∧ Settled unevenJoinDsl g behave st r) ∨
        ∃ e, runTo g behave st g.ids.length = .error e ∧
          ∃ j < g.ids.length, ∃ r, runTo g behave st j = .ok r ∧
            ∃ u ∈ r.scheduled, Unrouted unevenJoinDsl u (behave j u r.state).branch := by
  have hparse : parseDsl (fun d : WorkflowDSL => .ok d) (some unevenJoinDsl) = .ok unevenJoinDsl := rfl
  obtain ⟨g, hg, -⟩ := unevenJoinDsl_compiles
  exact ⟨g, hg, compileDsl_settles hparse hg⟩

end OpsKnowledge.Workflow
