import OpsKnowledge.Workflow.Dsl

/-!
# Compiling a DSL into a LangGraph graph

`compile_dsl` of `app/workflow/langgraph/compiler.py`. The compiled graph is the
record of the calls the compiler makes on `StateGraph`; `successors` is what
LangGraph schedules after a node, under its documented semantics of plain and
conditional edges. The node registry is a dictionary of manifests, filled when the
application starts.
-/

namespace OpsKnowledge.Workflow

open OpsKnowledge.Lib

/-! ## The node registry -/

inductive NodeCategory where
  | trigger | knowledge | llm | agent | logic | extension | output | memory
  deriving DecidableEq, Repr

structure NodeManifest where
  type : String
  typeVersion : String := "1.0"
  category : NodeCategory
  streaming : Bool := false

abbrev NodeRegistry := Dict String NodeManifest

namespace NodeRegistry

def key (type version : String) : String := s!"{type}@{version}"

def ofManifests (ms : List NodeManifest) : NodeRegistry :=
  Dict.ofList (ms.map fun m => (key m.type m.typeVersion, m))

/-- `registry.get`: the class registered for the type and version of a node. -/
def lookup (registry : NodeRegistry) (n : NodeDef) : Except Exn NodeManifest :=
  match registry.get? (key n.type n.typeVersion) with
  | some m => .ok m
  | none => .error (.keyError s!"Unknown node type: '{key n.type n.typeVersion}'")

/-- What `load_builtin_nodes` registers from `app/workflow/nodes/`. -/
def builtin : NodeRegistry :=
  ofManifests
    [ { type := "agent_react", category := .agent },
      { type := "answer", category := .output, streaming := true },
      { type := "code", category := .extension },
      { type := "builtin.echo", category := .extension },
      { type := "http-request", category := .extension },
      { type := "human_approval", category := .extension },
      { type := "if-else", category := .logic },
      { type := "iteration", category := .logic },
      { type := "kb_archive_document", category := .extension },
      { type := "kb_merge_chunks", category := .extension },
      { type := "kb_notify_owner", category := .extension },
      { type := "knowledge-retrieval", category := .knowledge },
      { type := "llm", category := .llm, streaming := true },
      { type := "parameter-extractor", category := .llm },
      { type := "question-classifier", category := .llm },
      { type := "start", category := .trigger },
      { type := "template", category := .extension },
      { type := "variable-aggregator", category := .logic },
      { type := "variable-splitter", category := .logic } ]

end NodeRegistry

/-! ## Entry nodes and reachability -/

/-- `_is_trigger`. -/
def isTrigger (registry : NodeRegistry) (n : NodeDef) : Bool :=
  match registry.lookup n with
  | .ok m => m.category = .trigger
  | .error _ => n.type = "start"

/-- `_entry_nodes`. -/
def entryNodes (registry : NodeRegistry) (nodes : List NodeDef) (edges : List EdgeDef)
    (allowNonTriggerEntry : Bool) : List String :=
  if allowNonTriggerEntry then
    ((inDegrees nodes edges).entries.filter fun p => p.2 = 0).map Prod.fst
  else
    (nodes.filter (isTrigger registry)).map NodeDef.id

/-- The top of the Python stack is the head of `stack`. -/
structure ReachState where
  stack : List String
  seen : List String

def reachRound (edges : List EdgeDef) (st : ReachState) : Except Exn ReachState :=
  match st.stack with
  | [] => .ok st
  | nid :: rest =>
      if nid ∈ st.seen then .ok { st with stack := rest }
      else
        let targets := (((Dict.groupBy EdgeDef.source edges).get? nid).getD []).map EdgeDef.target
        .ok { stack := targets.reverse ++ rest, seen := st.seen ++ [nid] }

/-- `_reachable_from`. Every push is an entry or the target of an edge, which bounds the rounds. -/
def reachableFrom (starts : List String) (edges : List EdgeDef) : Except Exn (List String) :=
  match whileLoop (fun st => !st.stack.isEmpty) (reachRound edges)
      (starts.length + edges.length) { stack := starts.reverse, seen := [] } with
  | none => .error .nonTermination
  | some (.error e) => .error e
  | some (.ok st) => .ok st.seen

/-! ## Routing -/

inductive Target where
  | node (id : String)
  | endNode
  deriving DecidableEq, Repr

/-- `e.sourceHandle or "_default"`: the key of an edge in the path map. -/
def edgeLabel (e : EdgeDef) : String :=
  match e.sourceHandle with
  | none => "_default"
  | some h => if h = "" then "_default" else h

def pathMap (edges : List EdgeDef) : Dict String Target :=
  (Dict.ofList (edges.map fun e => (edgeLabel e, Target.node e.target))).setDefault "_end" .endNode

def handles (edges : List EdgeDef) : List String := edges.filterMap EdgeDef.sourceHandle

/-- What the route function returns when its node has emitted `branch`. -/
def routeLabel (edges : List EdgeDef) (branch : Option String) : String :=
  match branch.filter (· ∈ handles edges) with
  | some b => b
  | none => if edges.any (fun e => e.sourceHandle = none) then "_default" else "_end"

/-- `_make_route_fn`: the route function reads the branch of its own node from the state. -/
def makeRouteFn (sourceId : String) (edges : List EdgeDef)
    (branches : Dict String (Option String)) : String :=
  routeLabel edges (branches.get? sourceId).join

/-! ## The compiled graph -/

structure ConditionalEdges where
  route : Dict String (Option String) → String
  pathMap : Dict String Target

structure CompiledGraph where
  nodes : List NodeDef
  edges : List (String × Target)
  conditional : Dict String ConditionalEdges
  entry : String
  checkpointer : Bool

/-- Register one node per reachable id: the adapter factory looks its class up. -/
def addNode (registry : NodeRegistry) (nodesById : Dict String NodeDef) (nid : String) :
    Except Exn NodeDef :=
  match nodesById.get? nid with
  | none => .error (.keyError nid)
  | some n => (registry.lookup n).map fun _ => n

/-- The out-edges of each source, between reachable nodes. -/
def groupOutEdges (reachable : List String) (edges : List EdgeDef) : Dict String (List EdgeDef) :=
  Dict.groupBy EdgeDef.source (edges.filter fun e => e.source ∈ reachable ∧ e.target ∈ reachable)

def isPlain (edges : List EdgeDef) : Bool := edges.all fun e => e.sourceHandle = none

/-- Plain fan-out: one `add_edge` call per edge. -/
def plainTargets (edges : List EdgeDef) : List Target :=
  if isPlain edges then edges.map fun e => Target.node e.target else []

def plainEdges (outEdges : Dict String (List EdgeDef)) : List (String × Target) :=
  outEdges.entries.flatMap fun p => (plainTargets p.2).map fun t => (p.1, t)

def conditionalEdges (outEdges : Dict String (List EdgeDef)) : Dict String ConditionalEdges :=
  Dict.ofList <| outEdges.entries.filterMap fun p =>
    if isPlain p.2 then none
    else some (p.1, { route := makeRouteFn p.1 p.2, pathMap := Workflow.pathMap p.2 })

def terminalEdges (reachable : List String) (outEdges : Dict String (List EdgeDef)) :
    List (String × Target) :=
  (reachable.filter fun nid => ((outEdges.get? nid).getD []).isEmpty).map fun nid => (nid, .endNode)

def compileDsl (registry : NodeRegistry) (dsl : WorkflowDSL) (checkpointer : Bool := false)
    (allowNonTriggerEntry : Bool := false) : Except Exn CompiledGraph := do
  let nodesById := Dict.ofList (dsl.graph.nodes.map fun n => (n.id, n))
  let entryIds := entryNodes registry dsl.graph.nodes dsl.graph.edges allowNonTriggerEntry
  let reachable ← reachableFrom entryIds dsl.graph.edges
  if reachable.isEmpty then
    throw (.valueError ("Workflow has no trigger node — nothing to execute. " ++
      "Add a 'start' node and connect downstream nodes to it."))
  let nodes ← reachable.mapM (addNode registry nodesById)
  let outEdges := groupOutEdges reachable dsl.graph.edges
  match entryIds with
  | [entry] =>
      return { nodes := nodes
               edges := plainEdges outEdges ++ terminalEdges reachable outEdges
               conditional := conditionalEdges outEdges
               entry := entry
               checkpointer := checkpointer }
  | _ => throw (.valueError s!"Workflow must have exactly one entry node, found {entryIds.length}")

namespace CompiledGraph

def ids (g : CompiledGraph) : List String := g.nodes.map NodeDef.id

/-- The targets LangGraph schedules when `source` has run and the merged state holds
`branches`: every plain edge, and `path_map[route(state)]` of a conditional edge. -/
def successors (g : CompiledGraph) (source : String) (branches : Dict String (Option String)) :
    Except Exn (List Target) :=
  let plain := (g.edges.filter fun p => p.1 = source).map Prod.snd
  match g.conditional.get? source with
  | none => .ok plain
  | some c =>
      match c.pathMap.get? (c.route branches) with
      | none => .error (.keyError (c.route branches))
      | some t => .ok (plain ++ [t])

end CompiledGraph

end OpsKnowledge.Workflow
