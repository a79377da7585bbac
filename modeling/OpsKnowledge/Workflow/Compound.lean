import OpsKnowledge.Workflow.Structure
import OpsKnowledge.Workflow.Reachability

/-!
# Compound nodes

The sub-graph an iteration node compiles when it runs. The adapter copies `blocks`
and `block_edges` over the node's `data` when they are set, so a missing one leaves
the value under the same key of `data` in force. The validator has checked the
sub-graph only for a node of the main graph, and only its `blocks` and
`block_edges`; of the one entry the compiler asks for it knows nothing.
-/

namespace OpsKnowledge.Workflow

open OpsKnowledge.Lib

/-! ## The sub-graph an iteration runs -/

/-- The elements of `ctx.config.get(key) or []`, for a key that only `data` holds. -/
def configList (n : NodeDef) (key : String) : Except Exn (List Json) :=
  match n.data.lookup key with
  | none => .ok []
  | some (.arr xs) => .ok xs
  -- No element of another iterable is a definition.
  | some v => if v.truthy then .error .pydanticValidation else .ok []

section Iteration

variable (nodeValidate : Json → Except Exn NodeDef) (edgeValidate : Json → Except Exn EdgeDef)

def configBlocks (n : NodeDef) : Except Exn (List NodeDef) :=
  match n.blocks with
  | some blocks => .ok blocks
  | none => do (← configList n "blocks").mapM nodeValidate

def configBlockEdges (n : NodeDef) : Except Exn (List EdgeDef) :=
  match n.blockEdges with
  | some edges => .ok edges
  | none => do (← configList n "block_edges").mapM edgeValidate

/-- The first lines of `IterationNode.execute`. -/
def iterationSubGraph (n : NodeDef) : Except Exn GraphDef := do
  let blocks ← configBlocks nodeValidate n
  if blocks.isEmpty then
    throw (.runtimeError "Iteration: compound node has no sub-graph (blocks)")
  let edges ← configBlockEdges edgeValidate n
  return { nodes := blocks, edges := edges }

/-- `n` is nested in `nodes`, inside `d` compound nodes. -/
inductive NestedAt (nodes : List NodeDef) : Nat → NodeDef → Prop where
  | top {n : NodeDef} : n ∈ nodes → NestedAt nodes 0 n
  | inner {d : Nat} {m n : NodeDef} {blocks : List NodeDef} : NestedAt nodes d m →
      configBlocks nodeValidate m = .ok blocks → n ∈ blocks → NestedAt nodes (d + 1) n

end Iteration

/-! ## Compiling and entering a sub-graph -/

def subDsl (sub : GraphDef) : WorkflowDSL := { graph := sub }

/-- The compiler finds one entry and, as far as the node types are known, succeeds. -/
structure Enterable (registry : NodeRegistry) (sub : GraphDef) : Prop where
  oneEntry : ∃ e, entryNodes registry sub.nodes sub.edges true = [e]
  endpoints : sub.EndpointsDeclared
  acyclic : Acyclic sub.HasEdge
  compiles : (∀ b ∈ sub.nodes, ∃ m, registry.lookup b = .ok m) →
    ∃ g, compileDsl registry (subDsl sub) false true = .ok g

/-- No edge leads to `v`. -/
def IsSource (sub : GraphDef) (v : String) : Prop :=
  v ∈ sub.ids ∧ ∀ e ∈ sub.edges, e.target ≠ v

theorem mem_entryNodes_true {registry : NodeRegistry} {sub : GraphDef} {v : String} :
    v ∈ entryNodes registry sub.nodes sub.edges true ↔ IsSource sub v := by
  have hentry : v ∈ entryNodes registry sub.nodes sub.edges true ↔
      (inDegrees sub.nodes sub.edges).get? v = some 0 := by
    rw [Dict.get?_eq_some_iff]
    simp [entryNodes]
  rw [hentry, get?_inDegrees, IsSource, GraphDef.ids]
  by_cases hv : v ∈ sub.nodes.map NodeDef.id
  · simp [hv]
  · simp [hv]

theorem nodup_entryNodes_true (registry : NodeRegistry) (sub : GraphDef) :
    (entryNodes registry sub.nodes sub.edges true).Nodup := by
  have hsub := (List.filter_sublist (p := fun p : String × Int => decide (p.2 = 0))
    (l := (inDegrees sub.nodes sub.edges).entries)).map Prod.fst
  exact hsub.nodup (inDegrees sub.nodes sub.edges).nodup

theorem exists_eq_singleton_iff {α : Type*} {l : List α} (hn : l.Nodup) :
    (∃ a, l = [a]) ↔ l ≠ [] ∧ ∀ a ∈ l, ∀ b ∈ l, a = b := by
  cases l with
  | nil => simp
  | cons a l =>
      cases l with
      | nil => simp
      | cons b l =>
          have hab : a ≠ b := by
            intro hab
            simp [hab] at hn
          constructor
          · intro h
            rcases h with ⟨c, hc⟩
            cases hc
          · intro h
            exact absurd (h.2 a (by simp) b (by simp)) hab

/-- An acyclic sub-graph with a node has a source. -/
theorem exists_isSource {sub : GraphDef} (hne : sub.nodes ≠ []) (hend : sub.EndpointsDeclared)
    (hacyclic : Acyclic sub.HasEdge) : ∃ v, IsSource sub v := by
  have hids : sub.ids ≠ [] := by simpa [GraphDef.ids] using hne
  rcases hacyclic.exists_source hids with ⟨v, hv, hno⟩
  refine ⟨v, hv, ?_⟩
  intro e he hev
  exact hno e.source (hend e he).1 ⟨e, he, rfl, hev⟩

theorem addNode_ok {registry : NodeRegistry} {nodes : List NodeDef}
    (hknown : ∀ n ∈ nodes, ∃ m, registry.lookup n = .ok m) {nid : String}
    (h : nid ∈ nodes.map NodeDef.id) :
    ∃ n, addNode registry (Dict.ofList (nodes.map fun n => (n.id, n))) nid = .ok n := by
  have hkey : nid ∈ (Dict.ofList (nodes.map fun n => (n.id, n))).keys := by
    rw [Dict.mem_keys_ofList, List.map_map]
    exact h
  rcases Dict.mem_keys_iff.1 hkey with ⟨n, hget⟩
  have hn : n ∈ nodes := by
    have hmem := mem_of_lookup_eq_some (Dict.get?_ofList _ nid ▸ hget)
    simp only [List.mem_reverse, List.mem_map, Prod.mk.injEq] at hmem
    rcases hmem with ⟨m, hm, -, rfl⟩
    exact hm
  rcases hknown n hn with ⟨c, hc⟩
  exact ⟨n, by simp [addNode, hget, hc, Except.map]⟩

/-- The compiler succeeds on a graph with one entry, declared endpoints and known types. -/
theorem compileDsl_of_entry {registry : NodeRegistry} {dsl : WorkflowDSL}
    {checkpointer allow : Bool} {e : String}
    (hentry : entryNodes registry dsl.graph.nodes dsl.graph.edges allow = [e])
    (he : e ∈ dsl.graph.ids) (hend : dsl.graph.EndpointsDeclared)
    (hknown : ∀ n ∈ dsl.graph.nodes, ∃ m, registry.lookup n = .ok m) :
    ∃ g, compileDsl registry dsl checkpointer allow = .ok g := by
  rcases reachableFrom_spec [e] dsl.graph.edges with ⟨seen, hrun, -, hmem⟩
  have hne : seen.isEmpty = false := by
    rw [List.isEmpty_eq_false_iff]
    exact List.ne_nil_of_mem ((hmem e).2 ⟨e, List.mem_singleton_self e, .refl⟩)
  have hdeclared : ∀ v ∈ seen, v ∈ dsl.graph.ids := by
    intro v hv
    rcases (hmem v).1 hv with ⟨s, hs, hsv⟩
    rcases Relation.ReflTransGen.cases_tail hsv with hvs | ⟨u, -, d, hd, -, rfl⟩
    · rw [hvs, List.mem_singleton.1 hs]
      exact he
    · exact (hend d hd).2
  rcases exists_mapM_eq_ok fun v hv => addNode_ok hknown (hdeclared v hv) with ⟨nodes, hnodes⟩
  unfold compileDsl
  simp only [hentry, hrun, hne, hnodes, bind, Except.bind]
  exact ⟨_, rfl⟩

theorem enterable_iff {registry : NodeRegistry} {sub : GraphDef} (hne : sub.nodes ≠ []) :
    Enterable registry sub ↔
      (∀ u v, IsSource sub u → IsSource sub v → u = v) ∧ sub.EndpointsDeclared ∧
        Acyclic sub.HasEdge := by
  constructor
  · intro h
    have hone := ((exists_eq_singleton_iff (nodup_entryNodes_true registry sub)).1 h.oneEntry).2
    exact ⟨fun u v hu hv => hone u (mem_entryNodes_true.2 hu) v (mem_entryNodes_true.2 hv),
      h.endpoints, h.acyclic⟩
  · intro h
    rcases h with ⟨hone, hend, hacyclic⟩
    rcases exists_isSource hne hend hacyclic with ⟨v, hv⟩
    have hentry : ∃ e, entryNodes registry sub.nodes sub.edges true = [e] := by
      rw [exists_eq_singleton_iff (nodup_entryNodes_true registry sub)]
      exact ⟨List.ne_nil_of_mem (mem_entryNodes_true.2 hv),
        fun a ha b hb => hone a b (mem_entryNodes_true.1 ha) (mem_entryNodes_true.1 hb)⟩
    refine ⟨hentry, hend, hacyclic, ?_⟩
    intro hknown
    rcases hentry with ⟨e, he⟩
    have hsource : IsSource sub e := mem_entryNodes_true.1 (he ▸ List.mem_singleton_self e)
    have hids : e ∈ (subDsl sub).graph.ids := hsource.1
    exact compileDsl_of_entry he hids hend hknown

/-! ## What acceptance says about a compound node -/

section Accepted

variable {nodeValidate : Json → Except Exn NodeDef} {edgeValidate : Json → Except Exn EdgeDef}

/-- The edges that `n` runs with are those the validator reads. -/
def EdgesFromFields (n : NodeDef) : Prop := n.blockEdges.isSome ∨ configList n "block_edges" = .ok []

theorem iterationSubGraph_nodes_ne_nil {n : NodeDef} {sub : GraphDef}
    (h : iterationSubGraph nodeValidate edgeValidate n = .ok sub) : sub.nodes ≠ [] := by
  unfold iterationSubGraph at h
  rcases bind_eq_ok.1 h with ⟨blocks, -, h⟩
  cases blocks with
  | nil => cases h
  | cons b bs =>
      rcases bind_eq_ok.1 h with ⟨edges, -, h⟩
      cases h
      exact List.cons_ne_nil b bs

theorem iterationSubGraph_of_fields {n : NodeDef} {sub : GraphDef} {blocks : List NodeDef}
    (h : iterationSubGraph nodeValidate edgeValidate n = .ok sub) (hblocks : n.blocks = some blocks)
    (hedges : EdgesFromFields n) : sub = n.subGraph blocks := by
  have hconfig : configBlockEdges edgeValidate n = .ok (n.blockEdges.getD []) := by
    unfold configBlockEdges
    cases hb : n.blockEdges with
    | some edges => rfl
    | none =>
        have hnil : configList n "block_edges" = .ok [] := by simpa [EdgesFromFields, hb] using hedges
        rw [hnil]
        rfl
  unfold iterationSubGraph at h
  simp only [configBlocks, hblocks, hconfig, bind, Except.bind] at h
  cases blocks with
  | nil => cases h
  | cons b bs =>
      cases h
      rfl

/-- What a node inside `d` compound nodes needs beyond acceptance: a sub-graph of its own
with at most one source, and, unless the validator saw this sub-graph, its endpoints
declared and no cycle. -/
def EnterableWhen (nodeValidate : Json → Except Exn NodeDef)
    (edgeValidate : Json → Except Exn EdgeDef) (d : Nat) (n : NodeDef) : Prop :=
  ∃ sub, iterationSubGraph nodeValidate edgeValidate n = .ok sub ∧
    (∀ u v, IsSource sub u → IsSource sub v → u = v) ∧
    (¬ (d = 0 ∧ n.blocks.isSome ∧ EdgesFromFields n) →
      sub.EndpointsDeclared ∧ Acyclic sub.HasEdge)

theorem structureOk_subGraph {dsl : WorkflowDSL}
    (hok : dsl.graph.nodes = [] ∨ StructureOk dsl.graph) {n : NodeDef}
    (hn : n ∈ dsl.graph.nodes) {blocks : List NodeDef} (hblocks : n.blocks = some blocks) :
    (n.subGraph blocks).EndpointsDeclared ∧ Acyclic (n.subGraph blocks).HasEdge := by
  rcases hok with hempty | hok
  · rw [hempty] at hn
    cases hn
  · exact (hok.compounds n hn blocks hblocks).2

/-- In an accepted DSL, the sub-graph of a node at any depth can be compiled and entered
exactly under `EnterableWhen`. -/
theorem parseDsl_enterable_iff {Raw : Type*} {modelValidate : Raw → Except Exn WorkflowDSL}
    {raw : Option Raw} {dsl : WorkflowDSL} (hparse : parseDsl modelValidate raw = .ok dsl)
    (registry : NodeRegistry) {d : Nat} {n : NodeDef}
    (hn : NestedAt nodeValidate dsl.graph.nodes d n) :
    (∃ sub, iterationSubGraph nodeValidate edgeValidate n = .ok sub ∧ Enterable registry sub) ↔
      EnterableWhen nodeValidate edgeValidate d n := by
  refine exists_congr fun sub => and_congr_right fun hsub => ?_
  rw [enterable_iff (iterationSubGraph_nodes_ne_nil hsub)]
  refine and_congr_right fun _ => ?_
  constructor
  · intro h _
    exact h
  · intro h
    by_cases hseen : d = 0 ∧ n.blocks.isSome ∧ EdgesFromFields n
    · rcases hseen with ⟨rfl, hsome, hedges⟩
      rcases Option.isSome_iff_exists.1 hsome with ⟨blocks, hblocks⟩
      rw [iterationSubGraph_of_fields hsub hblocks hedges]
      cases hn with
      | top hmem => exact structureOk_subGraph (structureOk_of_parseDsl hparse) hmem hblocks
    · exact h hseen

end Accepted

/-- An iteration over two blocks that no edge connects. -/
def twoEntryDsl : WorkflowDSL where
  graph :=
    { nodes :=
        [ { id := "s", type := "start" },
          { id := "it", type := "iteration",
            blocks := some [{ id := "a", type := "template" }, { id := "b", type := "template" }] } ]
      edges := [{ source := "s", target := "it" }] }

def twoEntryNode : NodeDef :=
  { id := "it", type := "iteration",
    blocks := some [{ id := "a", type := "template" }, { id := "b", type := "template" }] }

theorem twoEntryNode_nested (nodeValidate : Json → Except Exn NodeDef) :
    NestedAt nodeValidate twoEntryDsl.graph.nodes 0 twoEntryNode :=
  .top (by simp [twoEntryDsl, twoEntryNode])

theorem parseDsl_enterable_twoEntry :
    (∃ sub, iterationSubGraph (fun _ => .error .pydanticValidation)
        (fun _ => .error .pydanticValidation) twoEntryNode = .ok sub ∧ Enterable .builtin sub) ↔
      EnterableWhen (fun _ => .error .pydanticValidation) (fun _ => .error .pydanticValidation)
        0 twoEntryNode :=
  have hparse : parseDsl (fun d : WorkflowDSL => .ok d) (some twoEntryDsl) = .ok twoEntryDsl := rfl
  parseDsl_enterable_iff hparse .builtin (twoEntryNode_nested _)

/-- The validator accepts a compound node with two entries, which the compiler refuses. -/
theorem twoEntry_not_enterable :
    ¬ ∀ (dsl : WorkflowDSL) (d : Nat) (n : NodeDef),
      parseDsl (fun d : WorkflowDSL => .ok d) (some dsl) = .ok dsl →
      NestedAt (fun _ => .error .pydanticValidation) dsl.graph.nodes d n →
      ∃ sub, iterationSubGraph (fun _ => .error .pydanticValidation)
        (fun _ => .error .pydanticValidation) n = .ok sub ∧ Enterable .builtin sub := by
  intro h
  rcases h twoEntryDsl 0 twoEntryNode rfl (twoEntryNode_nested _) with ⟨sub, hsub, henter⟩
  cases hsub
  rcases henter.oneEntry with ⟨e, he⟩
  have hab : entryNodes .builtin (twoEntryNode.blocks.getD []) [] true = ["a", "b"] := rfl
  cases hab.symm.trans he

end OpsKnowledge.Workflow
