import OpsKnowledge.Workflow.Superstep

/-!
# The order of execution

`compile_dsl` lowers every plain edge to an `add_edge` call of its own, so a join
runs in the superstep after any of its predecessors and does not wait for the
others. Runs are in order exactly when the DSL is levelled: whatever branches are
chosen, every walk from the entry to a predecessor of a node is shorter than every
walk to the node itself.
-/

namespace OpsKnowledge.Workflow

open OpsKnowledge.Lib

/-- A walk of `n` edges from the entry whose step `i` is taken on branch `sel i (p i)`. -/
structure WalkAlong (dsl : WorkflowDSL) (entry : String) (sel : Nat → String → Option String)
    (n : Nat) (p : Nat → String) : Prop where
  start : p 0 = entry
  step : ∀ i < n, Schedules dsl (p i) (sel i (p i)) (p (i + 1))

def Levelled (dsl : WorkflowDSL) (entry : String) : Prop :=
  ∀ sel k j p q, WalkAlong dsl entry sel k p → WalkAlong dsl entry sel j q →
    EdgeRel dsl.graph.edges (q j) (p k) → j < k

/-- No node runs twice, and a node runs after all of its predecessors that run at all,
with what they returned in the state it is given. -/
structure InOrder (dsl : WorkflowDSL) (g : CompiledGraph) (behave : Behaviour)
    (st : WorkflowState) : Prop where
  once : ∀ v j k, Executes g behave st j v → Executes g behave st k v → j = k
  before : ∀ u v j k r, EdgeRel dsl.graph.edges u v → Executes g behave st j u →
    runTo g behave st k = .ok r → v ∈ r.scheduled →
    j < k ∧ ∃ rj, runTo g behave st j = .ok rj ∧
      r.state.outputs.get? u = some (behave j u rj.state).outputs

/-! ## One superstep -/

theorem get?_outputs_foldl_applyDelta (d : String → NodeDelta) (us : List String)
    (st : WorkflowState) (u : String) :
    (us.foldl (fun st u => st.applyDelta u (d u)) st).outputs.get? u =
      if u ∈ us then some (d u).outputs else st.outputs.get? u := by
  induction us generalizing st with
  | nil => simp
  | cons w us ih =>
      rw [List.foldl_cons, ih]
      by_cases hu : u ∈ us
      · simp [hu]
      · by_cases hw : u = w
        · simp [hw]
        · simp [hu, hw]

theorem superstep_eq_ok {g : CompiledGraph} {behave : Behaviour} {k : Nat} {r r' : RunState} :
    superstep g behave k r = .ok r' ↔
      ∃ targets, r.scheduled.mapM (routeFrom g behave k r.state) = .ok targets ∧
        r' = { state := mergeSuperstep behave k r,
               scheduled := (nodeTargets targets.flatten).dedup } := by
  rw [superstep, bind_eq_ok]
  simp [pure, Except.pure, eq_comm]

theorem runTo_succ_eq_ok {g : CompiledGraph} {behave : Behaviour} {st : WorkflowState} {k : Nat}
    {r' : RunState} : runTo g behave st (k + 1) = .ok r' ↔
      ∃ r, runTo g behave st k = .ok r ∧ superstep g behave k r = .ok r' :=
  bind_eq_ok

section Compiled

variable {registry : NodeRegistry} {dsl : WorkflowDSL} {allow : Bool} {g : CompiledGraph}

theorem Compiled.mem_scheduled_superstep (hg : Compiled registry dsl allow g)
    {behave : Behaviour} {k : Nat} {r r' : RunState} (hids : ∀ u ∈ r.scheduled, u ∈ g.ids)
    (h : superstep g behave k r = .ok r') (v : String) :
    v ∈ r'.scheduled ↔ ∃ u ∈ r.scheduled, Schedules dsl u (behave k u r.state).branch v := by
  obtain ⟨targets, htargets, rfl⟩ := superstep_eq_ok.1 h
  have hone : ∀ u ∈ r.scheduled, ∀ ts, routeFrom g behave k r.state u = .ok ts →
      (Target.node v ∈ ts ↔ Schedules dsl u (behave k u r.state).branch v) := by
    intro u hu ts hts
    exact hg.schedules_iff (hids u hu) (by simp) hts v
  simp only [List.mem_dedup, mem_nodeTargets, List.mem_flatten, mem_of_mapM_eq_ok htargets]
  constructor
  · intro h
    obtain ⟨ts, ⟨u, hu, hts⟩, hv⟩ := h
    exact ⟨u, hu, (hone u hu ts hts).1 hv⟩
  · intro h
    obtain ⟨u, hu, hv⟩ := h
    obtain ⟨ts, hts⟩ : ∃ ts, routeFrom g behave k r.state u = .ok ts := by
      have hall := mapM_eq_ok.1 htargets
      obtain ⟨i, hi, rfl⟩ := List.getElem_of_mem hu
      exact ⟨_, (List.forall₂_iff_get.1 hall).2 i hi (hall.length_eq ▸ hi)⟩
    exact ⟨ts, ⟨u, hu, hts⟩, (hone u hu ts hts).2 hv⟩

theorem Compiled.entry_mem (hg : Compiled registry dsl allow g) : g.entry ∈ g.ids :=
  (hg.reachable _).2 ⟨g.entry, List.mem_singleton_self _, .refl⟩

theorem Compiled.mem_ids_of_edge (hg : Compiled registry dsl allow g) {u v : String}
    (hu : u ∈ g.ids) (huv : EdgeRel dsl.graph.edges u v) : v ∈ g.ids := by
  obtain ⟨s, hs, hsu⟩ := (hg.reachable u).1 hu
  exact (hg.reachable v).2 ⟨s, hs, hsu.tail huv⟩

/-! ## Runs -/

theorem Compiled.scheduled_mem_ids (hg : Compiled registry dsl allow g) {behave : Behaviour}
    {st : WorkflowState} {k : Nat} {r : RunState} (h : runTo g behave st k = .ok r) :
    ∀ v ∈ r.scheduled, v ∈ g.ids := by
  induction k generalizing r with
  | zero =>
      cases h
      intro v hv
      exact List.mem_singleton.1 hv ▸ hg.entry_mem
  | succ k ih =>
      obtain ⟨r₀, hr₀, hstep⟩ := runTo_succ_eq_ok.1 h
      intro v hv
      obtain ⟨u, hu, huv⟩ := (hg.mem_scheduled_superstep (ih hr₀) hstep v).1 hv
      exact hg.mem_ids_of_edge (ih hr₀ u hu) huv.edge

theorem Compiled.executes_succ (hg : Compiled registry dsl allow g) {behave : Behaviour}
    {st : WorkflowState} {k : Nat} {v : String} (h : Executes g behave st (k + 1) v) :
    ∃ u r, runTo g behave st k = .ok r ∧ u ∈ r.scheduled ∧
      Schedules dsl u (behave k u r.state).branch v := by
  obtain ⟨r', hr', hv⟩ := h
  obtain ⟨r, hr, hstep⟩ := runTo_succ_eq_ok.1 hr'
  obtain ⟨u, hu, huv⟩ := (hg.mem_scheduled_superstep (hg.scheduled_mem_ids hr) hstep v).1 hv
  exact ⟨u, r, hr, hu, huv⟩

/-- The branch each node emits in each superstep of a run. -/
def emitted (g : CompiledGraph) (behave : Behaviour) (st : WorkflowState) (k : Nat) (u : String) :
    Option String :=
  match runTo g behave st k with
  | .ok r => (behave k u r.state).branch
  | .error _ => none

theorem Compiled.executes_walk (hg : Compiled registry dsl allow g) {behave : Behaviour}
    {st : WorkflowState} {k : Nat} {v : String} (h : Executes g behave st k v) :
    ∃ p, WalkAlong dsl g.entry (emitted g behave st) k p ∧ p k = v := by
  induction k generalizing v with
  | zero =>
      obtain ⟨r, hr, hv⟩ := h
      cases hr
      exact ⟨fun _ => g.entry, ⟨rfl, fun i hi => absurd hi (Nat.not_lt_zero i)⟩,
        (List.mem_singleton.1 hv).symm⟩
  | succ k ih =>
      obtain ⟨u, r, hr, hu, huv⟩ := hg.executes_succ h
      obtain ⟨p, hp, hpu⟩ := ih ⟨r, hr, hu⟩
      let p' : Nat → String := fun i => if i ≤ k then p i else v
      refine ⟨p', ⟨by simp [p', hp.start], ?_⟩, by simp [p']⟩
      intro i hi
      by_cases hik : i < k
      · have hi1 : i + 1 ≤ k := hik
        simpa [p', hik.le, hi1] using hp.step i hik
      · have hieq : i = k := by omega
        subst hieq
        have hlast : ¬ i + 1 ≤ i := by omega
        simpa [p', hlast, hpu, emitted, hr] using huv

/-- What a node returned stays in the state for as long as it does not run again. -/
theorem get?_outputs_of_executes {g : CompiledGraph} {behave : Behaviour} {st : WorkflowState}
    {u : String} {j : Nat} {rj : RunState} (hrj : runTo g behave st j = .ok rj)
    (hu : u ∈ rj.scheduled) {k : Nat} (hidle : ∀ i, j < i → i < k → ¬ Executes g behave st i u)
    (hjk : j < k) {r : RunState} (hr : runTo g behave st k = .ok r) :
    r.state.outputs.get? u = some (behave j u rj.state).outputs := by
  induction k generalizing r with
  | zero => omega
  | succ k ih =>
      obtain ⟨r₀, hr₀, hstep⟩ := runTo_succ_eq_ok.1 hr
      obtain ⟨targets, -, rfl⟩ := superstep_eq_ok.1 hstep
      rw [mergeSuperstep, get?_outputs_foldl_applyDelta]
      by_cases hk : k = j
      · subst hk
        rw [hr₀] at hrj
        cases hrj
        rw [if_pos hu]
      · have hjk' : j < k := by omega
        have hmem : u ∉ r₀.scheduled := fun hmem => hidle k hjk' k.lt_succ_self ⟨r₀, hr₀, hmem⟩
        rw [if_neg hmem]
        exact ih (fun i hji hik => hidle i hji (Nat.lt_succ_of_lt hik)) hjk' hr₀

theorem Compiled.inOrder_of_levelled (hg : Compiled registry dsl allow g)
    (hlevel : Levelled dsl g.entry) (behave : Behaviour) (st : WorkflowState) :
    InOrder dsl g behave st := by
  have hbefore : ∀ u v j k, EdgeRel dsl.graph.edges u v → Executes g behave st j u →
      Executes g behave st k v → j < k := by
    intro u v j k huv hu hv
    obtain ⟨p, hp, rfl⟩ := hg.executes_walk hv
    obtain ⟨q, hq, rfl⟩ := hg.executes_walk hu
    exact hlevel _ k j p q hp hq huv
  -- A node that runs again was scheduled by a predecessor that ran too late.
  have hlt : ∀ v j k, j < k → Executes g behave st j v → ¬ Executes g behave st k v := by
    intro v j k hjk hj hk
    cases k with
    | zero => omega
    | succ k =>
        obtain ⟨u, r, hr, hu, huv⟩ := hg.executes_succ hk
        have := hbefore u v k j huv.edge ⟨r, hr, hu⟩ hj
        omega
  have honce : ∀ v j k, Executes g behave st j v → Executes g behave st k v → j = k := by
    intro v j k hj hk
    rcases Nat.lt_trichotomy j k with h | h | h
    · exact absurd hk (hlt v j k h hj)
    · exact h
    · exact absurd hj (hlt v k j h hk)
  refine ⟨honce, ?_⟩
  intro u v j k r huv hu hr hv
  have hjk := hbefore u v j k huv hu ⟨r, hr, hv⟩
  obtain ⟨rj, hrj, hmem⟩ := hu
  have hidle : ∀ i, j < i → i < k → ¬ Executes g behave st i u :=
    fun i hji _ hi => absurd (honce u i j hi ⟨rj, hrj, hmem⟩) (Nat.ne_of_gt hji)
  exact ⟨hjk, rj, hrj, get?_outputs_of_executes hrj hmem hidle hjk hr⟩

/-! ## A run along two walks -/

/-- Nodes on the walks take the chosen branch and all others emit none. -/
def walkBehaviour (sel : Nat → String → Option String) (k j : Nat) (p q : Nat → String) :
    Behaviour :=
  fun i u _ =>
    { inputs := .empty
      outputs := .empty
      branch := if (i < k ∧ u = p i) ∨ (i < j ∧ u = q i) then sel i u else none }

theorem Compiled.run_along_walks (hg : Compiled registry dsl allow g)
    {sel : Nat → String → Option String} {k j : Nat} {p q : Nat → String}
    (hp : WalkAlong dsl g.entry sel k p) (hq : WalkAlong dsl g.entry sel j q) (st : WorkflowState)
    {i : Nat} (hi : i ≤ k ∨ i ≤ j) :
    ∃ r, runTo g (walkBehaviour sel k j p q) st i = .ok r ∧
      (i ≤ k → p i ∈ r.scheduled) ∧ (i ≤ j → q i ∈ r.scheduled) := by
  induction i with
  | zero =>
      refine ⟨_, rfl, ?_, ?_⟩
      · intro _; simp [hp.start]
      · intro _; simp [hq.start]
  | succ i ih =>
      obtain ⟨r, hr, hpi, hqi⟩ := ih (hi.imp Nat.le_of_succ_le Nat.le_of_succ_le)
      let b : String → Option String := fun u => (walkBehaviour sel k j p q i u r.state).branch
      have hpb : i < k → Schedules dsl (p i) (b (p i)) (p (i + 1)) := by
        intro hik
        simpa [b, walkBehaviour, hik] using hp.step i hik
      have hqb : i < j → Schedules dsl (q i) (b (q i)) (q (i + 1)) := by
        intro hij
        simpa [b, walkBehaviour, hij] using hq.step i hij
      have hquiet : ∀ u, b u = none ∨ ∃ v, Schedules dsl u (b u) v := by
        intro u
        by_cases hu : (i < k ∧ u = p i) ∨ (i < j ∧ u = q i)
        · rcases hu with ⟨hik, rfl⟩ | ⟨hij, rfl⟩
          · exact Or.inr ⟨_, hpb hik⟩
          · exact Or.inr ⟨_, hqb hij⟩
        · exact Or.inl (by simp only [b, walkBehaviour, if_neg hu])
      have hids := hg.scheduled_mem_ids hr
      have hok : ∀ u ∈ r.scheduled,
          ∃ ts, routeFrom g (walkBehaviour sel k j p q) i r.state u = .ok ts :=
        fun u hu => hg.successors_ok (hids u hu) (by simp [b]) (hquiet u)
      obtain ⟨targets, htargets⟩ := exists_mapM_eq_ok hok
      have hstep := superstep_eq_ok.2 ⟨targets, htargets, rfl⟩
      have hmem := hg.mem_scheduled_superstep hids hstep
      refine ⟨_, runTo_succ_eq_ok.2 ⟨r, hr, hstep⟩, ?_, ?_⟩
      · intro hik
        exact (hmem _).2 ⟨p i, hpi (Nat.le_of_succ_le hik), hpb hik⟩
      · intro hij
        exact (hmem _).2 ⟨q i, hqi (Nat.le_of_succ_le hij), hqb hij⟩

theorem Compiled.inOrder_iff (hg : Compiled registry dsl allow g) :
    (∀ behave st, InOrder dsl g behave st) ↔ Levelled dsl g.entry := by
  constructor
  · intro h sel k j p q hp hq huv
    let st := initialState .empty .empty
    obtain ⟨r, hr, hv, -⟩ := hg.run_along_walks hp hq st (Or.inl k.le_refl)
    obtain ⟨rj, hrj, -, hu⟩ := hg.run_along_walks hp hq st (Or.inr j.le_refl)
    exact ((h _ st).before _ _ j k r huv ⟨rj, hrj, hu j.le_refl⟩ hr (hv k.le_refl)).1
  · intro h
    exact hg.inOrder_of_levelled h

end Compiled

/-- Every run of a compiled DSL is in order, whatever its nodes do, iff the DSL is levelled. -/
theorem compileDsl_inOrder_iff {registry : NodeRegistry} {dsl : WorkflowDSL}
    {checkpointer allow : Bool} {g : CompiledGraph}
    (hcompile : compileDsl registry dsl checkpointer allow = .ok g) :
    (∀ behave st, InOrder dsl g behave st) ↔ Levelled dsl g.entry :=
  (compileDsl_spec hcompile).inOrder_iff

/-- A join `d` that the start node reaches directly and through `a`. -/
def unevenJoinDsl : WorkflowDSL where
  graph :=
    { nodes :=
        [ { id := "s", type := "start" },
          { id := "a", type := "template" },
          { id := "d", type := "variable-aggregator" } ]
      edges :=
        [ { source := "s", target := "a" },
          { source := "a", target := "d" },
          { source := "s", target := "d" } ] }

theorem unevenJoinDsl_compiles : ∃ g, compileDsl .builtin unevenJoinDsl = .ok g ∧ g.entry = "s" :=
  ⟨_, rfl, rfl⟩

theorem compileDsl_inOrder_unevenJoin :
    ∃ g, compileDsl .builtin unevenJoinDsl = .ok g ∧
      ((∀ behave st, InOrder unevenJoinDsl g behave st) ↔ Levelled unevenJoinDsl "s") := by
  obtain ⟨g, hg, hentry⟩ := unevenJoinDsl_compiles
  exact ⟨g, hg, hentry ▸ compileDsl_inOrder_iff hg⟩

/-- `d` runs beside `a`, on a state without the output of `a`, and once more after it. -/
theorem unevenJoin_runs_twice :
    ¬ ∀ (dsl : WorkflowDSL) (g : CompiledGraph) (behave : Behaviour) (st : WorkflowState),
      parseDsl (fun d : WorkflowDSL => .ok d) (some dsl) = .ok dsl →
      compileDsl .builtin dsl = .ok g → InOrder dsl g behave st := by
  intro h
  obtain ⟨g, hg, hentry⟩ := unevenJoinDsl_compiles
  have hlevel := (compileDsl_spec hg).inOrder_iff.1 fun behave st => h _ g behave st rfl hg
  rw [hentry] at hlevel
  let p : Nat → String := fun i => if i = 0 then "s" else "d"
  let q : Nat → String := fun i => if i = 0 then "s" else "a"
  have hp : WalkAlong unevenJoinDsl "s" (fun _ _ => none) 1 p :=
    ⟨rfl, by intro i hi; obtain rfl : i = 0 := by omega
             exact ⟨{ source := "s", target := "d" }, by decide, rfl, rfl⟩⟩
  have hq : WalkAlong unevenJoinDsl "s" (fun _ _ => none) 1 q :=
    ⟨rfl, by intro i hi; obtain rfl : i = 0 := by omega
             exact ⟨{ source := "s", target := "a" }, by decide, rfl, rfl⟩⟩
  have hedge : EdgeRel unevenJoinDsl.graph.edges (q 1) (p 1) :=
    ⟨{ source := "a", target := "d" }, by decide, rfl, rfl⟩
  have hlt := hlevel _ 1 1 p q hp hq hedge
  omega

end OpsKnowledge.Workflow
