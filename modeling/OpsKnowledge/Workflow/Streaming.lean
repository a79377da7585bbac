import OpsKnowledge.Lib.Interleave
import OpsKnowledge.Workflow.Conversation
import OpsKnowledge.Workflow.EventBus

/-!
# What a graph run publishes

The streaming nodes, and the events `stream_execution` makes of the items of
`compiled.astream`. A node run is one execution of one node with the chunks its
`on_stream` pump has written; the chunks of concurrent nodes interleave.
-/

namespace OpsKnowledge.Workflow

open OpsKnowledge.Lib

/-! ## Node runs -/

structure NodeRun where
  node : NodeDef
  inputs : Bucket
  outputs : Bucket
  branch : Option String := none
  chunks : List String := []

def NodeRun.delta (r : NodeRun) : NodeDelta :=
  { inputs := r.inputs, outputs := r.outputs, branch := r.branch }

/-- `ctx.config.get(key, True)` as a condition. -/
def configFlag (data : List (String × Json)) (key : String) : Bool :=
  match data.lookup key with
  | none => true
  | some v => v.truthy

/-- `ctx.inputs.get("answer") or ""`. -/
def answerInput (inputs : Bucket) : Json :=
  match inputs.get? "answer" with
  | none => .str ""
  | some v => if v.truthy then v else .str ""

/-- `AnswerNode.execute`. -/
def answerExecute (inputs : Bucket) : Bucket := Dict.ofList [("answer", answerInput inputs)]

/-- `text[i : i + 16]` for `i` in `range(0, len(text), 16)`. -/
def answerSlices (text : String) : List String :=
  (List.range ((text.toList.length + 15) / 16)).map fun i =>
    String.ofList ((text.toList.drop (16 * i)).take 16)

/-- `AnswerNode.on_stream`. A value that is no string raises in the pump, which logs it. -/
def answerOnStream (data : List (String × Json)) (inputs : Bucket) : List String :=
  if configFlag data "stream" then
    match answerInput inputs with
    | .str text => answerSlices text
    | _ => []
  else []

/-- What the code of a node says about its outputs and its chunks. The chunks of a
streaming `llm` node come from a model call of their own and are arbitrary. -/
structure NodeRun.Follows (registry : NodeRegistry) (r : NodeRun) : Prop where
  answer : r.node.type = "answer" →
    r.outputs = answerExecute r.inputs ∧ r.chunks = answerOnStream r.node.data r.inputs
  llm : r.node.type = "llm" → configFlag r.node.data "streaming" = false → r.chunks = []
  silent : (∀ m, registry.lookup r.node = .ok m → m.streaming = false) → r.chunks = []

/-! ## The items of `astream` and the events made of them -/

inductive StreamItem where
  | custom (nodeId delta : String)
  | updates (nodeId : String) (delta : NodeDelta)

def StreamItem.chunk? : StreamItem → Option (String × String)
  | .custom nid delta => some (nid, delta)
  | .updates _ _ => none

def StreamItem.update? : StreamItem → Option (String × NodeDelta)
  | .custom _ _ => none
  | .updates nid d => some (nid, d)

section Events

variable (executionId : String)

def chunkEvent (nid delta : String) : Event :=
  { type := .streamChunk
    executionId := executionId
    nodeId := some nid
    data := Dict.ofList [("delta", .str delta), ("meta", .null)] }

/-- `_emit_node_lifecycle`. -/
def nodeLifecycle (started : List String) (nid : String) (d : NodeDelta) : List Event :=
  let start : List Event :=
    if nid ∈ started then []
    else [{ type := .nodeStart, executionId := executionId, nodeId := some nid }]
  start ++
    [ { type := .nodeOutput
        executionId := executionId
        nodeId := some nid
        data := Dict.ofList
          [("outputs", .obj d.outputs.entries), ("inputs", .obj d.inputs.entries)] },
      { type := .nodeEnd
        executionId := executionId
        nodeId := some nid
        data := Dict.ofList [("status", .str "succeeded")] } ]

def itemEvents : List String → List StreamItem → List Event
  | _, [] => []
  | started, .custom nid delta :: items => chunkEvent executionId nid delta :: itemEvents started items
  | started, .updates nid d :: items =>
      nodeLifecycle executionId started nid d ++ itemEvents (nid :: started) items

end Events

/-- One call of `stream_execution` by the chat pipeline. -/
structure ChatRun where
  executionId : String
  threadId : String
  execs : List NodeRun
  items : List StreamItem
  pass : Pass
  error : String := ""
  interrupts : List Json := []

/-- The items are the updates of the node runs and an interleaving of their chunks. -/
structure ChatRun.Valid (registry : NodeRegistry) (run : ChatRun) : Prop where
  follows : ∀ r ∈ run.execs, r.Follows registry
  updates : run.items.filterMap StreamItem.update? = run.execs.map fun r => (r.node.id, r.delta)
  streamed : run.pass.streamed = run.items.filterMap StreamItem.update?
  chunks : Interleaves (run.execs.map fun r => r.chunks.map fun c => (r.node.id, c))
    (run.items.filterMap StreamItem.chunk?)

def endEvents (run : ChatRun) : List Event :=
  match run.pass.outcome with
  | .succeeded =>
      [{ type := .workflowEnd
         executionId := run.executionId
         data := Dict.ofList [("status", .str "succeeded")] }]
  | .waiting =>
      [ { type := .waitingInput
          executionId := run.executionId
          data := Dict.ofList
            [("interrupts", .arr run.interrupts), ("thread_id", .str run.threadId)] },
        { type := .workflowEnd
          executionId := run.executionId
          data := Dict.ofList [("status", .str "waiting")] } ]
  | .failed =>
      [{ type := .workflowEnd
         executionId := run.executionId
         data := Dict.ofList [("status", .str "failed"), ("error", .str run.error)] }]

/-- All events `stream_execution` publishes, in order. -/
def executionEvents (run : ChatRun) : List Event :=
  { type := .workflowStart
    executionId := run.executionId
    data := Dict.ofList [("engine", .str "langgraph")] } ::
    (itemEvents run.executionId [] run.items ++ endEvents run)

/-! ## The text in the events -/

/-- `_map_event`, as far as it appends to `final_parts`. -/
def chunkText (ev : Event) : Option String :=
  if ev.type = .streamChunk then
    match ev.data.get? "delta" with
    | some (.str delta) => if delta = "" then none else some delta
    | _ => none
  else none

theorem chunkText_of_type {ev : Event} (h : ev.type ≠ .streamChunk) : chunkText ev = none := by
  simp [chunkText, h]

theorem chunkText_chunkEvent (executionId nid delta : String) :
    chunkText (chunkEvent executionId nid delta) = if delta = "" then none else some delta := by
  simp [chunkText, chunkEvent, Dict.get?_ofList, lookup_cons_if]

theorem filterMap_chunkText_nodeLifecycle (executionId : String) (started : List String)
    (nid : String) (d : NodeDelta) :
    (nodeLifecycle executionId started nid d).filterMap chunkText = [] := by
  rw [List.filterMap_eq_nil_iff]
  intro ev hev
  apply chunkText_of_type
  unfold nodeLifecycle at hev
  by_cases hs : nid ∈ started
  · simp [hs] at hev
    rcases hev with rfl | rfl <;> simp
  · simp [hs] at hev
    rcases hev with rfl | rfl | rfl <;> simp

theorem filterMap_chunkText_itemEvents (executionId : String) (started : List String)
    (items : List StreamItem) :
    (itemEvents executionId started items).filterMap chunkText =
      ((items.filterMap StreamItem.chunk?).filter fun c => c.2 ≠ "").map Prod.snd := by
  induction items generalizing started with
  | nil => rfl
  | cons item items ih =>
      cases item with
      | custom nid delta =>
          simp only [itemEvents, List.filterMap_cons, chunkText_chunkEvent, StreamItem.chunk?, ih,
            List.filter_cons]
          by_cases hd : delta = "" <;> simp [hd]
      | updates nid d =>
          rw [itemEvents, List.filterMap_append, filterMap_chunkText_nodeLifecycle, ih]
          rfl

/-- The published text is the text of the chunks, in the order of the items. -/
theorem filterMap_chunkText_executionEvents (run : ChatRun) :
    (executionEvents run).filterMap chunkText =
      ((run.items.filterMap StreamItem.chunk?).filter fun c => c.2 ≠ "").map Prod.snd := by
  have hend : (endEvents run).filterMap chunkText = [] := by
    rw [List.filterMap_eq_nil_iff]
    intro ev hev
    apply chunkText_of_type
    unfold endEvents at hev
    cases hout : run.pass.outcome with
    | succeeded => simp [hout] at hev; simp [hev]
    | waiting => simp [hout] at hev; rcases hev with rfl | rfl <;> simp
    | failed => simp [hout] at hev; simp [hev]
  rw [executionEvents, List.filterMap_cons, chunkText_of_type (by simp), List.filterMap_append,
    filterMap_chunkText_itemEvents, hend, List.append_nil]

/-! ## The slices of an answer -/

theorem flatMap_slices (cs : List Char) (k : Nat) :
    (List.range k).flatMap (fun i => (cs.drop (16 * i)).take 16) = cs.take (16 * k) := by
  induction k with
  | zero => simp
  | succ k ih =>
      rw [List.range_succ, List.flatMap_append, ih, List.flatMap_singleton, Nat.mul_succ,
        List.take_add]

/-- No chunk of an answer is lost or duplicated by the slicing. -/
theorem join_answerSlices (text : String) : String.join (answerSlices text) = text := by
  apply String.toList_inj.1
  rw [String.toList_join, answerSlices, List.flatMap_map]
  simp only [String.toList_ofList]
  rw [flatMap_slices, List.take_of_length_le]
  omega

theorem join_filter_ne_empty (xs : List String) :
    String.join (xs.filter fun x => x ≠ "") = String.join xs := by
  induction xs with
  | nil => rfl
  | cons x xs ih =>
      by_cases hx : x = ""
      · subst hx
        rw [List.filter_cons_of_neg (by simp), ih, String.join_cons, String.empty_append]
      · rw [List.filter_cons_of_pos (by simp [hx]), String.join_cons, String.join_cons, ih]

end OpsKnowledge.Workflow
