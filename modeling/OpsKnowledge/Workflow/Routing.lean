import OpsKnowledge.Workflow.Structure
import OpsKnowledge.Workflow.Reachability

/-!
# Conditional routing

The path map of a conditional edge is a dictionary, so of all out-edges with one
key only the last survives, and the keys `_default` and `_end` are shared with
handles of the same spelling. `intendedTargets` is what the out-edges ask for:
every edge whose handle is the branch, else every edge without a handle, else the
end. The routed node set equals it exactly under `LabelsFaithful`.
-/

namespace OpsKnowledge.Workflow

open OpsKnowledge.Lib

def outEdges (dsl : WorkflowDSL) (s : String) : List EdgeDef :=
  dsl.graph.edges.filter fun e => e.source = s

def matchingEdges (edges : List EdgeDef) (branch : Option String) : List EdgeDef :=
  edges.filter fun e => branch.isSome ∧ e.sourceHandle = branch

def defaultEdges (edges : List EdgeDef) : List EdgeDef := edges.filter fun e => e.sourceHandle = none

/-- The out-edges the branch asks for. -/
def selectedEdges (edges : List EdgeDef) (branch : Option String) : List EdgeDef :=
  if matchingEdges edges branch = [] then defaultEdges edges else matchingEdges edges branch

def intendedTargets (edges : List EdgeDef) (branch : Option String) : List Target :=
  if selectedEdges edges branch = [] then [.endNode]
  else (selectedEdges edges branch).map fun e => .node e.target

/-- The scheduled set of a node is the set its out-edges ask for. -/
def RoutesAsIntended (g : CompiledGraph) (s : String) (edges : List EdgeDef)
    (branch : Option String) (branches : Dict String (Option String)) : Prop :=
  ∃ ts, g.successors s branches = .ok ts ∧ ∀ t, t ∈ ts ↔ t ∈ intendedTargets edges branch

def lastLabelled (edges : List EdgeDef) (label : String) : Option EdgeDef :=
  edges.reverse.find? fun e => edgeLabel e = label

/-- Every selected edge carries no empty handle and leads where the last edge with its
label leads; when none is selected, no edge carries the handle `_end`. -/
def LabelsFaithful (edges : List EdgeDef) (branch : Option String) : Prop :=
  (∀ e ∈ selectedEdges edges branch, e.sourceHandle ≠ some "" ∧
    ∀ l, lastLabelled edges (edgeLabel e) = some l → l.target = e.target) ∧
  (selectedEdges edges branch = [] → ∀ e ∈ edges, e.sourceHandle ≠ some "_end")

/-! ## The path map -/

theorem edgeLabel_of_handle {e : EdgeDef} {h : String} (hh : e.sourceHandle = some h) (hne : h ≠ "") :
    edgeLabel e = h := by
  simp [edgeLabel, hh, hne]

theorem edgeLabel_of_none {e : EdgeDef} (hh : e.sourceHandle = none) : edgeLabel e = "_default" := by
  simp [edgeLabel, hh]

theorem edgeLabel_ne_empty (e : EdgeDef) : edgeLabel e ≠ "" := by
  unfold edgeLabel
  cases e.sourceHandle with
  | none => decide
  | some h =>
      by_cases hh : h = ""
      · simp [hh]
      · simp [hh]

theorem lookup_map_eq_find? {α : Type*} (label : α → String) (f : α → Target) (xs : List α)
    (k : String) : (xs.map fun x => (label x, f x)).lookup k =
      (xs.find? fun x => label x = k).map f := by
  induction xs with
  | nil => rfl
  | cons x xs ih =>
      rw [List.map_cons, lookup_cons_if, ih]
      by_cases hk : label x = k
      · simp [hk]
      · have hne : ¬ k = label x := fun h => hk h.symm
        simp [hk, hne]

/-- The last edge with a label owns the entry; `_end` falls back to the end. -/
theorem get?_pathMap (edges : List EdgeDef) (k : String) :
    (pathMap edges).get? k =
      match lastLabelled edges k with
      | some e => some (.node e.target)
      | none => if k = "_end" then some .endNode else none := by
  have hlookup : ∀ k, (Dict.ofList (edges.map fun e => (edgeLabel e, Target.node e.target))).get? k =
      (lastLabelled edges k).map fun e => .node e.target := by
    intro k
    rw [Dict.get?_ofList, ← List.map_reverse, lookup_map_eq_find?]
    rfl
  rw [pathMap, Dict.get?_setDefault, hlookup, hlookup]
  by_cases hk : k = "_end"
  · subst hk
    cases lastLabelled edges "_end" <;> rfl
  · cases lastLabelled edges k <;> simp [hk]

theorem lastLabelled_isSome {edges : List EdgeDef} {e : EdgeDef} (he : e ∈ edges) :
    ∃ l, lastLabelled edges (edgeLabel e) = some l := by
  have hsome : (lastLabelled edges (edgeLabel e)).isSome := by
    rw [lastLabelled, List.find?_isSome]
    exact ⟨e, List.mem_reverse.2 he, by simp⟩
  exact Option.isSome_iff_exists.1 hsome

theorem lastLabelled_eq_some {edges : List EdgeDef} {k : String} {l : EdgeDef}
    (h : lastLabelled edges k = some l) : l ∈ edges ∧ edgeLabel l = k := by
  have hmem := List.mem_of_find?_eq_some h
  have hlabel := List.find?_some h
  exact ⟨List.mem_reverse.1 hmem, by simpa using hlabel⟩

theorem lastLabelled_eq_none {edges : List EdgeDef} {k : String} :
    lastLabelled edges k = none ↔ ∀ e ∈ edges, edgeLabel e ≠ k := by
  simp [lastLabelled]

/-! ## The label the route function returns -/

theorem mem_handles {edges : List EdgeDef} {b : String} :
    b ∈ handles edges ↔ ∃ e ∈ edges, e.sourceHandle = some b := by
  simp [handles]

theorem matchingEdges_eq_nil {edges : List EdgeDef} {branch : Option String} :
    matchingEdges edges branch = [] ↔ ∀ b, branch = some b → b ∉ handles edges := by
  cases branch with
  | none => simp [matchingEdges]
  | some b =>
      simp only [matchingEdges, List.filter_eq_nil_iff, Option.some.injEq, forall_eq', mem_handles]
      simp

theorem routeLabel_of_matching {edges : List EdgeDef} {branch : Option String}
    (h : matchingEdges edges branch ≠ []) : ∃ b, branch = some b ∧ routeLabel edges branch = b ∧
      ∀ e ∈ matchingEdges edges branch, e.sourceHandle = some b := by
  rw [ne_eq, matchingEdges_eq_nil] at h
  push Not at h
  obtain ⟨b, rfl, hb⟩ := h
  refine ⟨b, rfl, by simp [routeLabel, Option.filter, hb], ?_⟩
  intro e he
  simpa [matchingEdges] using (List.mem_filter.1 he).2

theorem routeLabel_of_no_matching {edges : List EdgeDef} {branch : Option String}
    (h : matchingEdges edges branch = []) :
    routeLabel edges branch = if defaultEdges edges = [] then "_end" else "_default" := by
  have hfilter : branch.filter (· ∈ handles edges) = none := by
    rw [Option.filter_eq_none_iff]
    intro b hb
    simpa using matchingEdges_eq_nil.1 h b hb
  have hany : edges.any (fun e => e.sourceHandle = none) = !(defaultEdges edges).isEmpty := by
    rw [Bool.eq_iff_iff]
    simp [defaultEdges]
  rw [routeLabel, hfilter, hany]
  cases hd : defaultEdges edges <;> simp

/-- All selected edges with usable handles share the label the route function returns. -/
theorem edgeLabel_of_selected {edges : List EdgeDef} {branch : Option String} {e : EdgeDef}
    (he : e ∈ selectedEdges edges branch) (hne : e.sourceHandle ≠ some "") :
    edgeLabel e = routeLabel edges branch := by
  by_cases hm : matchingEdges edges branch = []
  · rw [selectedEdges, if_pos hm] at he
    have hdef : defaultEdges edges ≠ [] := List.ne_nil_of_mem he
    have hnone : e.sourceHandle = none := by simpa [defaultEdges] using (List.mem_filter.1 he).2
    rw [routeLabel_of_no_matching hm, if_neg hdef, edgeLabel_of_none hnone]
  · rw [selectedEdges, if_neg hm] at he
    obtain ⟨b, -, hlabel, hall⟩ := routeLabel_of_matching hm
    have hb := hall e he
    have hbne : b ≠ "" := fun h => hne (h ▸ hb)
    rw [hlabel, edgeLabel_of_handle hb hbne]

theorem mem_of_mem_selectedEdges {edges : List EdgeDef} {branch : Option String} {e : EdgeDef}
    (he : e ∈ selectedEdges edges branch) : e ∈ edges := by
  unfold selectedEdges at he
  split at he
  · exact List.mem_of_mem_filter he
  · exact List.mem_of_mem_filter he

/-! ## Exactness -/

/-- The entry the route function picks is the intended set, up to order and repetition,
exactly when the labels are faithful. -/
theorem pathMap_routes_iff (edges : List EdgeDef) (branch : Option String) :
    (∃ t, (pathMap edges).get? (routeLabel edges branch) = some t ∧
      ∀ x, x = t ↔ x ∈ intendedTargets edges branch) ↔ LabelsFaithful edges branch := by
  by_cases hsel : selectedEdges edges branch = []
  · -- Nothing is selected: the label is `_end`.
    have hm : matchingEdges edges branch = [] := by
      by_contra hm
      rw [selectedEdges, if_neg hm] at hsel
      exact hm hsel
    have hd : defaultEdges edges = [] := by
      rwa [selectedEdges, if_pos hm] at hsel
    have hhandled : ∀ e ∈ edges, e.sourceHandle ≠ none := by
      simpa [defaultEdges, List.filter_eq_nil_iff] using hd
    have hend : lastLabelled edges "_end" = none ↔ ∀ e ∈ edges, e.sourceHandle ≠ some "_end" := by
      rw [lastLabelled_eq_none]
      refine forall₂_congr fun e _ => not_congr ?_
      unfold edgeLabel
      cases e.sourceHandle with
      | none => simp
      | some h => by_cases hh : h = "" <;> simp [hh]
    have hlabel : routeLabel edges branch = "_end" := by
      rw [routeLabel_of_no_matching hm, if_pos hd]
    simp only [LabelsFaithful, hsel, List.not_mem_nil, false_imp_iff, implies_true, true_and,
      forall_const, ← hend, hlabel, get?_pathMap, intendedTargets, if_true, List.mem_singleton]
    cases lastLabelled edges "_end" with
    | none => simp
    | some l =>
        simp only [reduceCtorEq, iff_false, not_exists, not_and, Option.some.injEq]
        intro t ht hall
        subst ht
        have := (hall (.node l.target)).1 rfl
        cases this
  · have hint : ∀ x, x ∈ intendedTargets edges branch ↔
        ∃ e ∈ selectedEdges edges branch, Target.node e.target = x := by
      intro x
      simp [intendedTargets, hsel]
    constructor
    · intro h
      obtain ⟨t, hget, hall⟩ := h
      refine ⟨?_, fun hnil => absurd hnil hsel⟩
      intro e he
      have ht : Target.node e.target = t := (hall _).2 ((hint _).2 ⟨e, he, rfl⟩)
      have hne : e.sourceHandle ≠ some "" := by
        intro hempty
        -- An empty handle is looked up under a key that no edge has.
        have hm : matchingEdges edges branch ≠ [] := by
          intro hm
          rw [selectedEdges, if_pos hm] at he
          have hnone : e.sourceHandle = none := by
            simpa [defaultEdges] using (List.mem_filter.1 he).2
          rw [hempty] at hnone
          cases hnone
        obtain ⟨b, -, hlabel, hmatch⟩ := routeLabel_of_matching hm
        rw [selectedEdges, if_neg hm] at he
        have hb : b = "" := by
          have := (hmatch e he).symm.trans hempty
          simpa using this
        have hlast : lastLabelled edges "" = none :=
          lastLabelled_eq_none.2 fun e _ => edgeLabel_ne_empty e
        rw [hlabel, hb, get?_pathMap, hlast] at hget
        simp at hget
      refine ⟨hne, ?_⟩
      intro l hl
      rw [edgeLabel_of_selected he hne] at hl
      rw [get?_pathMap, hl] at hget
      have htl : Target.node l.target = t := by simpa using hget
      have heq : Target.node l.target = Target.node e.target := htl.trans ht.symm
      simpa using heq
    · intro h
      obtain ⟨e, he⟩ := List.exists_mem_of_ne_nil _ hsel
      obtain ⟨l, hl⟩ := lastLabelled_isSome (mem_of_mem_selectedEdges he)
      have hlabel := edgeLabel_of_selected he (h.1 e he).1
      refine ⟨.node l.target, ?_, ?_⟩
      · rw [get?_pathMap, ← hlabel, hl]
      · intro x
        rw [hint]
        constructor
        · intro hx
          exact ⟨e, he, by rw [hx, (h.1 e he).2 l hl]⟩
        · intro hx
          obtain ⟨e', he', hx⟩ := hx
          have hlabel' := edgeLabel_of_selected he' (h.1 e' he').1
          have hl' : lastLabelled edges (edgeLabel e') = some l := by
            rw [hlabel', ← hlabel]
            exact hl
          rw [← hx, (h.1 e' he').2 l hl']

theorem Compiled.routesAsIntended_iff {registry : NodeRegistry} {dsl : WorkflowDSL} {allow : Bool}
    {g : CompiledGraph} (hg : Compiled registry dsl allow g) {s : String} (hs : s ∈ g.ids)
    (hhandled : ∃ e ∈ outEdges dsl s, e.sourceHandle ≠ none) {branch : Option String}
    {branches : Dict String (Option String)} (hbranch : branches.get? s = some branch) :
    RoutesAsIntended g s (outEdges dsl s) branch branches ↔
      LabelsFaithful (outEdges dsl s) branch := by
  obtain ⟨e, he, hhandle⟩ := hhandled
  have hne : outEdges dsl s ≠ [] := List.ne_nil_of_mem he
  have hplain : isPlain (outEdges dsl s) = false := by
    rw [isPlain, List.all_eq_false]
    exact ⟨e, he, by simpa using hhandle⟩
  have hroute : makeRouteFn s (outEdges dsl s) branches = routeLabel (outEdges dsl s) branch := by
    rw [makeRouteFn, hbranch]
    rfl
  have hsucc := hg.successors_eq hs (rfl : outEdges dsl s = _) branches
  rw [if_neg hne, hplain, hroute] at hsucc
  rw [RoutesAsIntended, hsucc, ← pathMap_routes_iff]
  cases hget : (pathMap (outEdges dsl s)).get? (routeLabel (outEdges dsl s) branch) with
  | none => simp
  | some t => simp

/-- For every compiled DSL, every reachable node with a handled out-edge and every branch
it emits: LangGraph schedules exactly the intended successors iff the labels are faithful. -/
theorem compileDsl_routes_iff {registry : NodeRegistry} {dsl : WorkflowDSL}
    {checkpointer allow : Bool} {g : CompiledGraph}
    (hcompile : compileDsl registry dsl checkpointer allow = .ok g) {s : String} (hs : s ∈ g.ids)
    (hhandled : ∃ e ∈ outEdges dsl s, e.sourceHandle ≠ none) {branch : Option String}
    {branches : Dict String (Option String)} (hbranch : branches.get? s = some branch) :
    RoutesAsIntended g s (outEdges dsl s) branch branches ↔
      LabelsFaithful (outEdges dsl s) branch :=
  (compileDsl_spec hcompile).routesAsIntended_iff hs hhandled hbranch

/-- A classifier with two edges for one category. -/
def sharedHandleDsl : WorkflowDSL where
  graph :=
    { nodes :=
        [ { id := "s", type := "start" },
          { id := "q", type := "question-classifier" },
          { id := "a", type := "answer" },
          { id := "b", type := "answer" } ]
      edges :=
        [ { source := "s", target := "q" },
          { source := "q", target := "a", sourceHandle := some "x" },
          { source := "q", target := "b", sourceHandle := some "x" } ] }

theorem sharedHandleDsl_compiles :
    ∃ g, compileDsl .builtin sharedHandleDsl = .ok g ∧ g.ids = ["s", "q", "b", "a"] :=
  ⟨_, rfl, rfl⟩

theorem compileDsl_routes_sharedHandle :
    ∃ g, compileDsl .builtin sharedHandleDsl = .ok g ∧
      (RoutesAsIntended g "q" (outEdges sharedHandleDsl "q") (some "x")
          (Dict.ofList [("q", some "x")]) ↔
        LabelsFaithful (outEdges sharedHandleDsl "q") (some "x")) := by
  obtain ⟨g, hg, hids⟩ := sharedHandleDsl_compiles
  have hq : "q" ∈ g.ids := by rw [hids]; decide
  have hhandled : ∃ e ∈ outEdges sharedHandleDsl "q", e.sourceHandle ≠ none := by decide
  exact ⟨g, hg, compileDsl_routes_iff hg hq hhandled (by decide)⟩

/-- Of two edges for one category the compiled graph follows only the last. -/
theorem sharedHandle_loses_successor :
    ¬ ∀ (dsl : WorkflowDSL) (g : CompiledGraph) (s : String) (branch : Option String)
      (branches : Dict String (Option String)),
      parseDsl (fun d : WorkflowDSL => .ok d) (some dsl) = .ok dsl →
      compileDsl .builtin dsl = .ok g → s ∈ g.ids →
      (∃ e ∈ outEdges dsl s, e.sourceHandle ≠ none) → branches.get? s = some branch →
      RoutesAsIntended g s (outEdges dsl s) branch branches := by
  intro h
  obtain ⟨g, hg, hids⟩ := sharedHandleDsl_compiles
  have hq : "q" ∈ g.ids := by rw [hids]; decide
  have hhandled : ∃ e ∈ outEdges sharedHandleDsl "q", e.sourceHandle ≠ none := by decide
  have hroutes := h sharedHandleDsl g "q" (some "x") (Dict.ofList [("q", some "x")]) rfl hg hq
    hhandled (by decide)
  rw [(compileDsl_spec hg).routesAsIntended_iff hq hhandled (by decide)] at hroutes
  have hlast := (hroutes.1 { source := "q", target := "a", sourceHandle := some "x" } (by decide)).2
    { source := "q", target := "b", sourceHandle := some "x" } (by decide)
  revert hlast
  decide

end OpsKnowledge.Workflow
