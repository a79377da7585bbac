import OpsKnowledge.Lib.Dict
import OpsKnowledge.Lib.Digraph
import OpsKnowledge.Lib.Loop

/-!
# Workflow DSL: the graph types and the structural validator

The data model of `app/workflow/dsl.py` and its checks, in the order in which the
code makes them. The shape check by Pydantic is a parameter of `parseDsl`: its
result is any `WorkflowDSL`. A `None` or `{}` raw value is `none` here.
-/

namespace OpsKnowledge.Workflow

open OpsKnowledge.Lib

/-! ## Exceptions -/

/-- The exceptions the modelled code raises. `nonTermination` is no Python exception:
it marks a `while` loop that outlives the round bound its model gives it. -/
inductive Exn where
  | dslValidation (msg : String)
  | pydanticValidation
  | valueError (msg : String)
  | keyError (key : String)
  | runtimeError (msg : String)
  | attributeError (name : String)
  | workflowNotFound (msg : String)
  | workflowNotPublished (msg : String)
  | versionNotFound (msg : String)
  | integrityError (constraint : String)
  | nonTermination
  deriving DecidableEq, Repr

/-! ## Values and definitions -/

/-- JSON-shaped values (`Any` in the source), numbers as integers. -/
inductive Json where
  | null
  | bool (b : Bool)
  | num (n : Int)
  | str (s : String)
  | arr (xs : List Json)
  | obj (fields : List (String × Json))

/-- The truth value of a Python object. -/
def Json.truthy : Json → Bool
  | .null => false
  | .bool b => b
  | .num n => n ≠ 0
  | .str s => s ≠ ""
  | .arr xs => !xs.isEmpty
  | .obj fields => !fields.isEmpty

/-- `d.get(key)`; `none` also where the value is no dict. -/
def Json.get? (key : String) : Json → Option Json
  | .obj fields => fields.lookup key
  | _ => none

structure EdgeDef where
  source : String
  target : String
  sourceHandle : Option String := none
  deriving DecidableEq, Repr

structure NodeDef where
  id : String
  type : String
  typeVersion : String := "1.0"
  data : List (String × Json) := []
  blocks : Option (List NodeDef) := none
  blockEdges : Option (List EdgeDef) := none

structure GraphDef where
  nodes : List NodeDef
  edges : List EdgeDef

structure WorkflowVariableDef where
  name : String
  default : Json := .null

structure WorkflowDSL where
  graph : GraphDef
  workflowVariables : List WorkflowVariableDef := []

/-- There is an edge from `a` to `b`. -/
def EdgeRel (edges : List EdgeDef) (a b : String) : Prop :=
  ∃ e ∈ edges, e.source = a ∧ e.target = b

/-- The targets of the edges that leave `u`, in edge order. -/
def targetsOf (edges : List EdgeDef) (u : String) : List String :=
  (edges.filter fun e => e.source = u).map EdgeDef.target

theorem mem_targetsOf {edges : List EdgeDef} {u t : String} :
    t ∈ targetsOf edges u ↔ EdgeRel edges u t := by
  simp [targetsOf, EdgeRel, and_assoc]

namespace GraphDef

def ids (graph : GraphDef) : List String := graph.nodes.map NodeDef.id

def HasEdge (graph : GraphDef) (a b : String) : Prop := EdgeRel graph.edges a b

/-- Both ends of every edge are declared nodes. -/
def EndpointsDeclared (graph : GraphDef) : Prop :=
  ∀ e ∈ graph.edges, e.source ∈ graph.ids ∧ e.target ∈ graph.ids

end GraphDef

/-- The sub-graph of a compound node: `GraphDef(nodes=n.blocks, edges=n.block_edges or [])`. -/
def NodeDef.subGraph (n : NodeDef) (blocks : List NodeDef) : GraphDef :=
  { nodes := blocks, edges := n.blockEdges.getD [] }

/-! ## Kahn's algorithm -/

/-- `if e.target in in_degree: in_degree[e.target] += 1`, one edge. -/
def countTarget (inDegree : Dict String Int) (e : EdgeDef) : Dict String Int :=
  match inDegree.get? e.target with
  | some d => inDegree.set e.target (d + 1)
  | none => inDegree

/-- The in-degree table both `_assert_acyclic` and `_entry_nodes` build. -/
def inDegrees (nodes : List NodeDef) (edges : List EdgeDef) : Dict String Int :=
  edges.foldl countTarget (Dict.ofList (nodes.map fun n => (n.id, 0)))

/-- `if e.source in adj: adj[e.source].append(e.target)`, one edge. -/
def addTarget (adj : Dict String (List String)) (e : EdgeDef) : Dict String (List String) :=
  match adj.get? e.source with
  | some ts => adj.set e.source (ts ++ [e.target])
  | none => adj

def adjacency (nodes : List NodeDef) (edges : List EdgeDef) : Dict String (List String) :=
  edges.foldl addTarget (Dict.ofList (nodes.map fun n => (n.id, [])))

structure KahnState where
  inDegree : Dict String Int
  queue : List String
  visited : Nat

/-- `in_degree[t] -= 1` and the test that follows it. -/
def relax (st : KahnState) (t : String) : Except Exn KahnState :=
  match st.inDegree.get? t with
  | none => .error (.keyError t)
  | some d =>
      .ok { st with
        inDegree := st.inDegree.set t (d - 1)
        queue := if d - 1 = 0 then st.queue ++ [t] else st.queue }

/-- One round of the `while queue` loop. -/
def kahnRound (adj : Dict String (List String)) (st : KahnState) : Except Exn KahnState :=
  match st.queue with
  | [] => .ok st
  | nid :: rest =>
      match adj.get? nid with
      | none => .error (.keyError nid)
      | some ts => ts.foldlM relax { st with queue := rest, visited := st.visited + 1 }

def kahnStart (graph : GraphDef) : KahnState :=
  let inDegree := inDegrees graph.nodes graph.edges
  { inDegree := inDegree
    queue := (inDegree.entries.filter fun p => p.2 = 0).map Prod.fst
    visited := 0 }

/-- `_assert_acyclic`. The loop is run for as many rounds as there are nodes. -/
def assertAcyclic (graph : GraphDef) : Except Exn Unit :=
  match whileLoop (fun st => !st.queue.isEmpty) (kahnRound (adjacency graph.nodes graph.edges))
      graph.nodes.length (kahnStart graph) with
  | none => .error .nonTermination
  | some (.error e) => .error e
  | some (.ok st) =>
      if st.visited ≠ graph.nodes.length then .error (.dslValidation "Graph contains a cycle")
      else .ok ()

/-! ## The structural validator -/

/-- One edge of the main graph: the source is looked up before the target. -/
def checkEdge (ids : List String) (e : EdgeDef) : Except Exn Unit :=
  if e.source ∉ ids then .error (.dslValidation s!"Edge source '{e.source}' not found")
  else if e.target ∉ ids then .error (.dslValidation s!"Edge target '{e.target}' not found")
  else .ok ()

def checkStart (nodes : List NodeDef) : Except Exn Unit :=
  let startNodes := nodes.filter fun n => n.type = "start"
  if startNodes.length = 0 then
    .error (.dslValidation "Graph must contain exactly one 'start' node")
  else if startNodes.length > 1 then
    .error (.dslValidation "Multiple 'start' nodes not allowed")
  else .ok ()

def checkBlockEdge (nodeId : String) (subIds : List String) (e : EdgeDef) : Except Exn Unit :=
  if e.source ∉ subIds ∨ e.target ∉ subIds then
    .error (.dslValidation s!"Compound node '{nodeId}' block_edges reference unknown sub-node")
  else .ok ()

/-- The checks on the sub-graph of one node of the main graph. -/
def checkCompound (n : NodeDef) : Except Exn Unit :=
  match n.blocks with
  | none => .ok ()
  | some blocks => do
      let sub := n.subGraph blocks
      sub.edges.forM (checkBlockEdge n.id sub.ids)
      assertAcyclic sub

def validateStructure (dsl : WorkflowDSL) : Except Exn Unit := do
  if ¬ dsl.graph.ids.Nodup then
    throw (.dslValidation "Duplicate node IDs in graph")
  dsl.graph.edges.forM (checkEdge dsl.graph.ids)
  checkStart dsl.graph.nodes
  assertAcyclic dsl.graph
  dsl.graph.nodes.forM checkCompound

section Parse

variable {Raw : Type*} (modelValidate : Raw → Except Exn WorkflowDSL)

def emptyDsl : WorkflowDSL := { graph := { nodes := [], edges := [] } }

def parseDsl (raw : Option Raw) : Except Exn WorkflowDSL :=
  match raw with
  | none => .ok emptyDsl
  | some raw => do
      let dsl ← modelValidate raw
      if ¬ dsl.graph.nodes.isEmpty then
        validateStructure dsl
      return dsl

/-- Shape-only validation, used when a draft is saved. -/
def parseDslLoose (raw : Option Raw) : Except Exn WorkflowDSL :=
  match raw with
  | none => .ok emptyDsl
  | some raw => modelValidate raw

/-- An accepted graph has no node at all or has passed the validator. -/
theorem parseDsl_ok {raw : Option Raw} {dsl : WorkflowDSL}
    (h : parseDsl modelValidate raw = .ok dsl) :
    dsl.graph.nodes = [] ∨ validateStructure dsl = .ok () := by
  cases raw with
  | none => cases h; exact Or.inl rfl
  | some raw =>
      simp only [parseDsl] at h
      cases hm : modelValidate raw with
      | error e => simp [hm, bind, Except.bind] at h
      | ok d =>
          by_cases hn : d.graph.nodes.isEmpty
          · simp [hm, hn, bind, Except.bind, pure, Except.pure] at h
            subst h
            exact Or.inl (List.isEmpty_iff.1 hn)
          · cases hv : validateStructure d with
            | error e => simp [hm, hn, hv, bind, Except.bind] at h
            | ok u =>
                simp [hm, hn, hv, bind, Except.bind, pure, Except.pure] at h
                subst h
                exact Or.inr hv

end Parse

end OpsKnowledge.Workflow
