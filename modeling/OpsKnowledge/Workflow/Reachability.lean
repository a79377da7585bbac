import OpsKnowledge.Workflow.Compiler

/-!
# Reachability and the compiled graph

The stack search ends within its bound and returns exactly the vertices reachable
from the entries, so the out-edges the compiler groups by source are all the
out-edges the DSL has. From there one specification lemma describes `compileDsl`,
and one describes what LangGraph schedules after a node of the compiled graph.
-/

namespace OpsKnowledge.Workflow

open OpsKnowledge.Lib

/-! ## The search loop -/

def Reachable (starts : List String) (edges : List EdgeDef) (v : String) : Prop :=
  ∃ s ∈ starts, Relation.ReflTransGen (EdgeRel edges) s v

structure ReachInv (starts : List String) (edges : List EdgeDef) (st : ReachState) : Prop where
  nodup : st.seen.Nodup
  sound : ∀ v, v ∈ st.seen ∨ v ∈ st.stack → Reachable starts edges v
  started : ∀ s ∈ starts, s ∈ st.seen ∨ s ∈ st.stack
  closed : ∀ u ∈ st.seen, ∀ v, EdgeRel edges u v → v ∈ st.seen ∨ v ∈ st.stack

/-- The stack plus the edges that can still push. -/
def reachMeasure (edges : List EdgeDef) (st : ReachState) : Nat :=
  st.stack.length + edges.countP (fun e => e.source ∉ st.seen)

theorem countP_unseen_snoc (edges : List EdgeDef) {seen : List String} {u : String} (hu : u ∉ seen) :
    edges.countP (fun e => e.source ∉ seen) =
      edges.countP (fun e => e.source ∉ seen ++ [u]) + (targetsOf edges u).length := by
  induction edges with
  | nil => rfl
  | cons e edges ih =>
      rw [List.countP_cons, List.countP_cons, ih]
      by_cases hs : e.source = u
      · simp [targetsOf, hs, hu]; omega
      · simp [targetsOf, hs]; omega

theorem reachRound_inv {starts : List String} {edges : List EdgeDef} {st : ReachState}
    (hinv : ReachInv starts edges st) (hcond : (!st.stack.isEmpty) = true) :
    ∃ st', reachRound edges st = .ok st' ∧ ReachInv starts edges st' ∧
      reachMeasure edges st' < reachMeasure edges st := by
  cases hstack : st.stack with
  | nil => simp [hstack] at hcond
  | cons u rest =>
      have hmem : ∀ v, v ∈ st.stack ↔ v = u ∨ v ∈ rest := by simp [hstack]
      by_cases hu : u ∈ st.seen
      · refine ⟨{ st with stack := rest }, by simp [reachRound, hstack, hu], ?_, ?_⟩
        · have hstill : ∀ v, v ∈ st.seen ∨ v ∈ st.stack → v ∈ st.seen ∨ v ∈ rest := by
            intro v hv
            rcases hv with hv | hv
            · exact Or.inl hv
            · rcases (hmem v).1 hv with rfl | hv
              · exact Or.inl hu
              · exact Or.inr hv
          exact ⟨hinv.nodup,
            fun v hv => hinv.sound v (hv.imp_right fun h => (hmem v).2 (Or.inr h)),
            fun s hs => hstill s (hinv.started s hs),
            fun a ha v hav => hstill v (hinv.closed a ha v hav)⟩
        · simp [reachMeasure, hstack]
      · let st' : ReachState :=
          { stack := (targetsOf edges u).reverse ++ rest, seen := st.seen ++ [u] }
        have hround : reachRound edges st = .ok st' := by
          simp [reachRound, hstack, hu, Dict.get?_groupBy_getD, st', targetsOf]
        have hreach : Reachable starts edges u := hinv.sound u (Or.inr ((hmem u).2 (Or.inl rfl)))
        have hstill : ∀ v, v ∈ st.seen ∨ v ∈ st.stack → v ∈ st'.seen ∨ v ∈ st'.stack := by
          intro v hv
          rcases hv with hv | hv
          · exact Or.inl (List.mem_append_left _ hv)
          · rcases (hmem v).1 hv with rfl | hv
            · exact Or.inl (by simp [st'])
            · exact Or.inr (List.mem_append_right _ hv)
        have hsound : ∀ v, v ∈ st'.seen ∨ v ∈ st'.stack → Reachable starts edges v := by
          intro v hv
          simp only [st', List.mem_append, List.mem_singleton, List.mem_reverse, mem_targetsOf] at hv
          rcases hv with (hv | rfl) | (hv | hv)
          · exact hinv.sound v (Or.inl hv)
          · exact hreach
          · obtain ⟨s, hs, hsu⟩ := hreach
            exact ⟨s, hs, hsu.tail hv⟩
          · exact hinv.sound v (Or.inr ((hmem v).2 (Or.inr hv)))
        have hclosed : ∀ a ∈ st'.seen, ∀ v, EdgeRel edges a v → v ∈ st'.seen ∨ v ∈ st'.stack := by
          intro a ha v hav
          rcases List.mem_append.1 ha with ha | ha
          · exact hstill v (hinv.closed a ha v hav)
          · have hau : a = u := by simpa using ha
            subst hau
            exact Or.inr (List.mem_append_left _ (List.mem_reverse.2 (mem_targetsOf.2 hav)))
        refine ⟨st', hround, ⟨?_, hsound, fun s hs => hstill s (hinv.started s hs), hclosed⟩, ?_⟩
        · rw [List.nodup_append]
          refine ⟨hinv.nodup, by simp, ?_⟩
          intro a ha b hb hab
          have hbu : b = u := by simpa using hb
          exact hu (hbu ▸ hab ▸ ha)
        · have hcount := countP_unseen_snoc edges hu
          simp only [reachMeasure, st', hstack, List.length_append, List.length_reverse,
            List.length_cons]
          omega

/-- The search ends and returns each reachable vertex exactly once. -/
theorem reachableFrom_spec (starts : List String) (edges : List EdgeDef) :
    ∃ seen, reachableFrom starts edges = .ok seen ∧ seen.Nodup ∧
      ∀ v, v ∈ seen ↔ Reachable starts edges v := by
  have hstart : ReachInv starts edges { stack := starts.reverse, seen := [] } := by
    refine ⟨List.nodup_nil, ?_, ?_, ?_⟩
    · intro v hv
      have hvs : v ∈ starts := by simpa using hv
      exact ⟨v, hvs, .refl⟩
    · intro s hs
      exact Or.inr (List.mem_reverse.2 hs)
    · intro u hu
      cases hu
  have hfuel : reachMeasure edges { stack := starts.reverse, seen := [] } ≤
      starts.length + edges.length := by
    simp [reachMeasure]
  obtain ⟨st, hrun, hinv, hcond⟩ := whileLoop_total (ReachInv starts edges) (reachMeasure edges)
    (fun s hs hc => reachRound_inv hs hc) hstart hfuel
  have hempty : st.stack = [] := by simpa using hcond
  refine ⟨st.seen, by simp [reachableFrom, hrun], hinv.nodup, ?_⟩
  intro v
  constructor
  · intro hv
    exact hinv.sound v (Or.inl hv)
  · intro hv
    obtain ⟨s, hs, hsv⟩ := hv
    have hseen : s ∈ st.seen := by simpa [hempty] using hinv.started s hs
    clear hs
    induction hsv with
    | refl => exact hseen
    | tail _ hbc ih => simpa [hempty] using hinv.closed _ ih _ hbc

/-! ## The compiled graph -/

theorem addNode_id {registry : NodeRegistry} {nodes : List NodeDef} {nid : String} {n : NodeDef}
    (h : addNode registry (Dict.ofList (nodes.map fun n => (n.id, n))) nid = .ok n) :
    n.id = nid ∧ n ∈ nodes := by
  unfold addNode at h
  cases hget : (Dict.ofList (nodes.map fun n => (n.id, n))).get? nid with
  | none => simp [hget] at h
  | some m =>
      have hm := mem_of_lookup_eq_some (Dict.get?_ofList _ nid ▸ hget)
      simp only [List.mem_reverse, List.mem_map, Prod.mk.injEq] at hm
      obtain ⟨m', hmem, hid, rfl⟩ := hm
      cases hl : registry.lookup m' with
      | error e => simp [hget, hl, Except.map] at h
      | ok c =>
          have hmn : m' = n := by simpa [hget, hl, Except.map] using h
          exact ⟨hmn ▸ hid, hmn ▸ hmem⟩

/-- Everything a successful compilation did. -/
structure Compiled (registry : NodeRegistry) (dsl : WorkflowDSL) (allowNonTriggerEntry : Bool)
    (g : CompiledGraph) : Prop where
  entry : entryNodes registry dsl.graph.nodes dsl.graph.edges allowNonTriggerEntry = [g.entry]
  nodup : g.ids.Nodup
  reachable : ∀ v, v ∈ g.ids ↔ Reachable [g.entry] dsl.graph.edges v
  declared : ∀ n ∈ g.nodes, n ∈ dsl.graph.nodes
  edges : g.edges = plainEdges (groupOutEdges g.ids dsl.graph.edges) ++
    terminalEdges g.ids (groupOutEdges g.ids dsl.graph.edges)
  conditional : g.conditional = conditionalEdges (groupOutEdges g.ids dsl.graph.edges)

theorem compileDsl_spec {registry : NodeRegistry} {dsl : WorkflowDSL} {checkpointer allow : Bool}
    {g : CompiledGraph} (h : compileDsl registry dsl checkpointer allow = .ok g) :
    Compiled registry dsl allow g := by
  unfold compileDsl at h
  obtain ⟨seen, hrun, hnodup, hmem⟩ := reachableFrom_spec
    (entryNodes registry dsl.graph.nodes dsl.graph.edges allow) dsl.graph.edges
  simp only [hrun, bind, Except.bind] at h
  by_cases hempty : seen.isEmpty
  · simp [hempty, throw, throwThe, MonadExceptOf.throw] at h
  · simp only [hempty] at h
    cases hnodes : seen.mapM (addNode registry
        (Dict.ofList (dsl.graph.nodes.map fun n => (n.id, n)))) with
    | error e => simp [hnodes] at h
    | ok nodes =>
        have hall := mapM_eq_ok.1 hnodes
        have hids : nodes.map NodeDef.id = seen := by
          have := hall.imp fun _ _ hxy => (addNode_id hxy).1.symm
          exact (List.forall₂_eq_eq_eq ▸ (List.forall₂_map_right_iff.2 this) : seen = _).symm
        have hdecl : ∀ n ∈ nodes, n ∈ dsl.graph.nodes := by
          intro n hn
          obtain ⟨i, hi, rfl⟩ := List.getElem_of_mem hn
          exact (addNode_id (List.forall₂_iff_get.1 hall |>.2 i (by
            rw [hall.length_eq]; exact hi) hi)).2
        cases hentry : entryNodes registry dsl.graph.nodes dsl.graph.edges allow with
        | nil => simp [hnodes, hentry, throw, throwThe, MonadExceptOf.throw] at h
        | cons entry others =>
            cases others with
            | cons b bs => simp [hnodes, hentry, throw, throwThe, MonadExceptOf.throw] at h
            | nil =>
                simp [hnodes, hentry, pure, Except.pure] at h
                subst h
                subst hids
                refine ⟨hentry, hnodup, ?_, hdecl, rfl, rfl⟩
                intro v
                rw [← hentry]
                exact hmem v

/-! ## What LangGraph schedules -/

/-- Both ends of an out-edge of a reachable node are reachable. -/
theorem Compiled.get?_groupOutEdges {registry : NodeRegistry} {dsl : WorkflowDSL} {allow : Bool}
    {g : CompiledGraph} (hg : Compiled registry dsl allow g) {s : String} (hs : s ∈ g.ids) :
    (groupOutEdges g.ids dsl.graph.edges).get? s =
      if dsl.graph.edges.filter (fun e => e.source = s) = [] then none
      else some (dsl.graph.edges.filter fun e => e.source = s) := by
  have hout : (dsl.graph.edges.filter fun e => e.source ∈ g.ids ∧ e.target ∈ g.ids).filter
      (fun e => e.source = s) = dsl.graph.edges.filter fun e => e.source = s := by
    rw [List.filter_filter]
    apply List.filter_congr
    intro e he
    by_cases hes : e.source = s
    · have hsource : e.source ∈ g.ids := hes ▸ hs
      obtain ⟨r, hr, hrs⟩ := (hg.reachable e.source).1 hsource
      have htarget : e.target ∈ g.ids := (hg.reachable e.target).2 ⟨r, hr, hrs.tail ⟨e, he, rfl, rfl⟩⟩
      simp [hes, hs, htarget]
    · simp [hes]
  rw [groupOutEdges, Dict.get?_groupBy, hout]

theorem get?_conditionalEdges (outEdges : Dict String (List EdgeDef)) (s : String) :
    (conditionalEdges outEdges).get? s =
      ((outEdges.get? s).filter fun es => !isPlain es).map fun es =>
        { route := makeRouteFn s es, pathMap := Workflow.pathMap es } := by
  have hfst : (outEdges.entries.filterMap fun p => if isPlain p.2 then none else
      some (p.1, ({ route := makeRouteFn p.1 p.2, pathMap := Workflow.pathMap p.2 } :
        ConditionalEdges))).map Prod.fst =
      (outEdges.entries.filter fun p => !isPlain p.2).map Prod.fst := by
    induction outEdges.entries with
    | nil => rfl
    | cons p ps ih => by_cases hp : isPlain p.2 <;> simp [hp, ih]
  have hnodup := (List.filter_sublist (p := fun p : String × List EdgeDef => !isPlain p.2)
    (l := outEdges.entries)).map Prod.fst |>.nodup outEdges.nodup
  rw [← hfst] at hnodup
  ext c
  rw [conditionalEdges, Dict.get?_ofList_of_nodup hnodup]
  simp only [List.mem_filterMap, Option.map_eq_some_iff, Option.filter_eq_some_iff,
    Dict.get?_eq_some_iff]
  constructor
  · intro h
    obtain ⟨p, hp, hpc⟩ := h
    split at hpc
    · cases hpc
    · next hplain =>
        cases hpc
        exact ⟨p.2, ⟨hp, by simpa using hplain⟩, rfl⟩
  · intro h
    obtain ⟨es, ⟨hmem, hplain⟩, rfl⟩ := h
    exact ⟨(s, es), hmem, by simpa using hplain⟩

theorem filter_terminalEdges {reachable : List String} (hn : reachable.Nodup)
    (outEdges : Dict String (List EdgeDef)) {s : String} (hs : s ∈ reachable) :
    ((terminalEdges reachable outEdges).filter fun p => p.1 = s).map Prod.snd =
      if ((outEdges.get? s).getD []).isEmpty then [.endNode] else [] := by
  have hone : reachable.filter (fun nid => nid = s) = [s] := by
    rw [List.filter_eq, List.count_eq_one_of_mem hn hs]
    rfl
  have hswap : (terminalEdges reachable outEdges).filter (fun p => p.1 = s) =
      ((reachable.filter fun nid => nid = s).filter
        fun nid => ((outEdges.get? nid).getD []).isEmpty).map fun nid => (nid, .endNode) := by
    rw [terminalEdges, List.filter_map, List.filter_filter, List.filter_filter]
    congr 1
    apply List.filter_congr
    intro x _
    simp [Bool.and_comm]
  rw [hswap, hone]
  by_cases hz : ((outEdges.get? s).getD []).isEmpty <;> simp [hz]

/-- The scheduling step of a compiled node, in terms of its out-edges in the DSL. -/
theorem Compiled.successors_eq {registry : NodeRegistry} {dsl : WorkflowDSL} {allow : Bool}
    {g : CompiledGraph} (hg : Compiled registry dsl allow g) {s : String} (hs : s ∈ g.ids)
    {out : List EdgeDef} (hout : out = dsl.graph.edges.filter fun e => e.source = s)
    (branches : Dict String (Option String)) :
    g.successors s branches =
      if out = [] then .ok [.endNode]
      else if isPlain out then .ok (out.map fun e => .node e.target)
      else
        match (pathMap out).get? (makeRouteFn s out branches) with
        | none => .error (.keyError (makeRouteFn s out branches))
        | some t => .ok [t] := by
  have hget := hg.get?_groupOutEdges hs
  rw [← hout] at hget
  have hplain : (g.edges.filter fun p => p.1 = s).map Prod.snd =
      if out = [] then [.endNode] else plainTargets out := by
    rw [hg.edges, List.filter_append, List.map_append, plainEdges,
      filter_flatMap_entries plainTargets (Dict.nodup _), filter_terminalEdges hg.nodup _ hs,
      show List.lookup s _ = _ from hget, hget]
    by_cases hz : out = [] <;> simp [hz]
  have hcond := get?_conditionalEdges (groupOutEdges g.ids dsl.graph.edges) s
  rw [hget] at hcond
  unfold CompiledGraph.successors
  rw [hg.conditional, hcond, hplain]
  by_cases hz : out = []
  · simp [hz]
  · cases hp : isPlain out with
    | true => simp [hz, hp, plainTargets, Option.filter]
    | false =>
        cases hroute : (pathMap out).get? (makeRouteFn s out branches) <;>
          simp [hz, hp, hroute, plainTargets, Option.filter]

end OpsKnowledge.Workflow
