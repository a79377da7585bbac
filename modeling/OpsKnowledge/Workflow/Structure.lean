import OpsKnowledge.Workflow.Kahn

/-!
# What the structural validator accepts

`StructureOk` is the declarative reading of `validate_structure`. The validator
always ends, raises nothing but `DSLValidationError`, and accepts exactly the
graphs that satisfy it. For a compound node the distinctness of the block ids is
enforced only through the popped count of the cycle check.
-/

namespace OpsKnowledge.Workflow

open OpsKnowledge.Lib

def Exn.IsDslValidation (e : Exn) : Prop := ∃ msg, e = .dslValidation msg

structure StructureOk (graph : GraphDef) : Prop where
  distinct : graph.ids.Nodup
  endpoints : graph.EndpointsDeclared
  oneStart : (graph.nodes.filter fun n => n.type = "start").length = 1
  acyclic : Acyclic graph.HasEdge
  compounds : ∀ n ∈ graph.nodes, ∀ blocks, n.blocks = some blocks →
    (n.subGraph blocks).ids.Nodup ∧ (n.subGraph blocks).EndpointsDeclared ∧
      Acyclic (n.subGraph blocks).HasEdge

/-! ## The single checks -/

theorem checkEdge_eq_ok {ids : List String} {e : EdgeDef} :
    checkEdge ids e = .ok () ↔ e.source ∈ ids ∧ e.target ∈ ids := by
  by_cases hs : e.source ∈ ids <;> by_cases ht : e.target ∈ ids <;> simp [checkEdge, hs, ht]

theorem checkEdge_raises (ids : List String) (e : EdgeDef) :
    RaisesOnly Exn.IsDslValidation (checkEdge ids e) := by
  unfold checkEdge
  split
  · exact raisesOnly_error ⟨_, rfl⟩
  · split
    · exact raisesOnly_error ⟨_, rfl⟩
    · exact raisesOnly_ok _ _

theorem checkStart_eq_ok {nodes : List NodeDef} :
    checkStart nodes = .ok () ↔ (nodes.filter fun n => n.type = "start").length = 1 := by
  by_cases hzero : (nodes.filter fun n => n.type = "start").length = 0
  · simp [checkStart, hzero]
  · by_cases hmany : (nodes.filter fun n => n.type = "start").length > 1
    · simp only [checkStart, if_neg hzero, if_pos hmany]
      constructor
      · intro h; cases h
      · intro h; omega
    · simp only [checkStart, if_neg hzero, if_neg hmany, true_iff]
      omega

theorem checkStart_raises (nodes : List NodeDef) :
    RaisesOnly Exn.IsDslValidation (checkStart nodes) := by
  by_cases hzero : (nodes.filter fun n => n.type = "start").length = 0
  · simp only [checkStart, if_pos hzero]
    exact raisesOnly_error ⟨_, rfl⟩
  · by_cases hmany : (nodes.filter fun n => n.type = "start").length > 1
    · simp only [checkStart, if_neg hzero, if_pos hmany]
      exact raisesOnly_error ⟨_, rfl⟩
    · simp only [checkStart, if_neg hzero, if_neg hmany]
      exact raisesOnly_ok _ _

theorem checkBlockEdge_eq_ok {nodeId : String} {subIds : List String} {e : EdgeDef} :
    checkBlockEdge nodeId subIds e = .ok () ↔ e.source ∈ subIds ∧ e.target ∈ subIds := by
  by_cases hs : e.source ∈ subIds <;> by_cases ht : e.target ∈ subIds <;>
    simp [checkBlockEdge, hs, ht]

theorem checkBlockEdge_raises (nodeId : String) (subIds : List String) (e : EdgeDef) :
    RaisesOnly Exn.IsDslValidation (checkBlockEdge nodeId subIds e) := by
  unfold checkBlockEdge
  split
  · exact raisesOnly_error ⟨_, rfl⟩
  · exact raisesOnly_ok _ _

theorem assertAcyclic_eq_ok {graph : GraphDef} (hend : graph.EndpointsDeclared) :
    assertAcyclic graph = .ok () ↔ graph.ids.Nodup ∧ Acyclic graph.HasEdge := by
  rcases assertAcyclic_spec hend with ⟨hok, hgood⟩ | ⟨herr, hbad⟩
  · simp [hok, hgood]
  · simp [herr, hbad]

theorem assertAcyclic_raises {graph : GraphDef} (hend : graph.EndpointsDeclared) :
    RaisesOnly Exn.IsDslValidation (assertAcyclic graph) := by
  rcases assertAcyclic_spec hend with ⟨hok, -⟩ | ⟨herr, -⟩
  · rw [hok]
    exact raisesOnly_ok _ _
  · rw [herr]
    exact raisesOnly_error ⟨_, rfl⟩

theorem checkCompound_eq_ok {n : NodeDef} :
    checkCompound n = .ok () ↔ ∀ blocks, n.blocks = some blocks →
      (n.subGraph blocks).ids.Nodup ∧ (n.subGraph blocks).EndpointsDeclared ∧
        Acyclic (n.subGraph blocks).HasEdge := by
  unfold checkCompound
  cases hb : n.blocks with
  | none => simp
  | some blocks =>
      have hedges : (n.subGraph blocks).edges.forM
          (checkBlockEdge n.id (n.subGraph blocks).ids) = .ok () ↔
          (n.subGraph blocks).EndpointsDeclared := by
        rw [forM_eq_ok]
        simp only [checkBlockEdge_eq_ok]
        rfl
      simp only [bind_eq_ok, Option.some.injEq, forall_eq']
      constructor
      · intro h
        rcases h with ⟨_, hed, hac⟩
        have hend := hedges.1 hed
        have hgood := (assertAcyclic_eq_ok hend).1 hac
        exact ⟨hgood.1, hend, hgood.2⟩
      · intro h
        exact ⟨(), hedges.2 h.2.1, (assertAcyclic_eq_ok h.2.1).2 ⟨h.1, h.2.2⟩⟩

theorem checkCompound_raises (n : NodeDef) :
    RaisesOnly Exn.IsDslValidation (checkCompound n) := by
  unfold checkCompound
  cases n.blocks with
  | none => exact raisesOnly_ok _ _
  | some blocks =>
      refine RaisesOnly.bind (RaisesOnly.forM fun e _ => checkBlockEdge_raises _ _ e) ?_
      intro _ hed
      apply assertAcyclic_raises
      intro e he
      exact checkBlockEdge_eq_ok.1 (forM_eq_ok.1 hed e he)

/-! ## The validator -/

theorem validateStructure_eq_ok {dsl : WorkflowDSL} :
    validateStructure dsl = .ok () ↔ StructureOk dsl.graph := by
  have hedges : dsl.graph.edges.forM (checkEdge dsl.graph.ids) = .ok () ↔
      dsl.graph.EndpointsDeclared := by
    rw [forM_eq_ok]
    simp only [checkEdge_eq_ok]
    rfl
  unfold validateStructure
  by_cases hnodup : dsl.graph.ids.Nodup
  · simp only [hnodup, not_true_eq_false, if_false, bind_eq_ok]
    constructor
    · intro h
      rcases h with ⟨_, hed, _, hst, _, hac, hcomp⟩
      have hend := hedges.1 hed
      exact ⟨hnodup, hend, checkStart_eq_ok.1 hst, ((assertAcyclic_eq_ok hend).1 hac).2,
        fun n hn => checkCompound_eq_ok.1 (forM_eq_ok.1 hcomp n hn)⟩
    · intro h
      exact ⟨(), hedges.2 h.endpoints, (), checkStart_eq_ok.2 h.oneStart, (),
        (assertAcyclic_eq_ok h.endpoints).2 ⟨hnodup, h.acyclic⟩,
        forM_eq_ok.2 fun n hn => checkCompound_eq_ok.2 (h.compounds n hn)⟩
  · simp only [hnodup, not_false_eq_true, if_true]
    constructor
    · intro h
      cases h
    · intro h
      exact absurd h.distinct hnodup

theorem validateStructure_raises (dsl : WorkflowDSL) :
    RaisesOnly Exn.IsDslValidation (validateStructure dsl) := by
  unfold validateStructure
  by_cases hnodup : dsl.graph.ids.Nodup
  · simp only [hnodup, not_true_eq_false, if_false]
    refine RaisesOnly.bind (RaisesOnly.forM fun e _ => checkEdge_raises _ e) fun _ hed => ?_
    refine RaisesOnly.bind (checkStart_raises _) fun _ _ => ?_
    refine RaisesOnly.bind (assertAcyclic_raises ?_) fun _ _ => ?_
    · intro e he
      exact checkEdge_eq_ok.1 (forM_eq_ok.1 hed e he)
    · exact RaisesOnly.forM fun n _ => checkCompound_raises n
  · simp only [hnodup, not_false_eq_true, if_true]
    exact raisesOnly_error ⟨_, rfl⟩

/-- The validator ends on every list of nodes and edges, raises nothing but
`DSLValidationError`, and accepts exactly the well-structured graphs. -/
theorem validateStructure_correct (dsl : WorkflowDSL) :
    (∀ e, validateStructure dsl = .error e → ∃ msg, e = .dslValidation msg) ∧
      (validateStructure dsl = .ok () ↔ StructureOk dsl.graph) :=
  ⟨validateStructure_raises dsl, validateStructure_eq_ok⟩

/-- An accepted graph is empty or well structured. -/
theorem structureOk_of_parseDsl {Raw : Type*} {modelValidate : Raw → Except Exn WorkflowDSL}
    {raw : Option Raw} {dsl : WorkflowDSL} (h : parseDsl modelValidate raw = .ok dsl) :
    dsl.graph.nodes = [] ∨ StructureOk dsl.graph :=
  (parseDsl_ok modelValidate h).imp_right validateStructure_eq_ok.1

end OpsKnowledge.Workflow
