import OpsKnowledge.Lib.Session
import OpsKnowledge.Lib.Text

/-!
# The audit log of tool calls

`app/mcp/audit.py` and the wrapper around `_do_call_tool` in `app/mcp/transports/base.py`,
which the three transports share. Each call should leave one committed row with its final
status.
-/

namespace OpsKnowledge.Mcp

open OpsKnowledge.Lib

/-- A Python value: what `json.dumps` can write, if it can, and its `str`. -/
structure Value (Json : Type) where
  json : Option Json
  text : String

/-- What a JSON column of the log holds. -/
inductive Stored (Json : Type) where
  | value (v : Json)
  | repr (text : String)
  | contentText (text : String)

/-- A result of the SDK: the `text` of each of its blocks, when it has `content`, and the `str` of both. -/
structure ToolResult where
  content : Option (List (Option String))
  contentText : String
  text : String

/-- A transient error is a timeout or a connection error. What is no `Exception`, as a cancellation, is not
caught. -/
inductive ErrorKind where
  | transient
  | permanent
  | notException
  deriving DecidableEq

structure ToolError where
  kind : ErrorKind
  text : String

abbrev ToolOutcome := Except ToolError (Option ToolResult)

structure CallContext where
  serverId : Option Nat := none
  agentId : Option Nat := none
  userId : Option Nat := none
  conversationId : Option Nat := none
  traceId : Option String := none

structure MCPToolCall (Json : Type) where
  mcpServerId : Option Nat
  toolName : String
  args : Option (Stored Json)
  result : Option (Stored Json)
  status : String
  error : Option String
  latencyMs : Option Nat
  agentId : Option Nat
  userId : Option Nat
  conversationId : Option Nat
  traceId : Option String

variable {Json : Type}

/-- `_safe_json` -/
def safeJson (v : Option (Value Json)) : Option (Stored Json) :=
  v.map fun v =>
    match v.json with
    | some json => .value json
    | none => .repr (clip 2000 v.text)

/-- `_shape_result`; what it gives is JSON. -/
def shapeResult (result : Option ToolResult) : Option (Stored Json) :=
  result.map fun r =>
    match r.content with
    | none => .repr (clip 2000 r.text)
    | some content =>
      let parts := content.filterMap fun text => text
      if parts.isEmpty then .repr (clip 2000 r.contentText) else .contentText (clip 5000 (String.join parts))

/-- A call of `call_tool`, with the outcomes of the attempts that it may make. -/
structure ToolCall (Json : Type) where
  context : Option CallContext
  name : String
  arguments : Option (Value Json)
  first : ToolOutcome
  second : ToolOutcome
  latencyMs : Nat

variable (accepts : MCPToolCall Json → Bool)

/-- `record_call`: the committed rows after it. `accepts` says which rows the database takes. -/
def recordCall (ctx : Option CallContext) (toolName : String) (args : Option (Value Json)) (status : String)
    (result : Option (Stored Json)) (error : Option String) (latencyMs : Option Nat)
    (log : List (MCPToolCall Json)) : List (MCPToolCall Json) :=
  let row : MCPToolCall Json :=
    { mcpServerId := ctx.bind CallContext.serverId
      toolName := toolName
      args := safeJson args
      result := result
      status := status
      error := (error.filter fun e => e ≠ "").map (clip 2000)
      latencyMs := latencyMs
      agentId := ctx.bind CallContext.agentId
      userId := ctx.bind CallContext.userId
      conversationId := ctx.bind CallContext.conversationId
      traceId := ctx.bind CallContext.traceId }
  Session.block accepts { committed := log } [.add row, .flush]

/-- `_call_with_retry` -/
def callWithRetry (call : ToolCall Json) : ToolOutcome :=
  match call.first with
  | .ok result => .ok result
  | .error e => if e.kind = .transient then call.second else .error e

/-- `measure` -/
def measure (call : ToolCall Json) (outcome : ToolOutcome) (log : List (MCPToolCall Json)) :
    ToolOutcome × List (MCPToolCall Json) :=
  match outcome with
  | .ok result =>
    (.ok result, recordCall accepts call.context call.name call.arguments "ok" (shapeResult result) none
      (some call.latencyMs) log)
  | .error e =>
    if e.kind = .notException then (.error e, log)
    else
      (.error e, recordCall accepts call.context call.name call.arguments "error" none (some e.text)
        (some call.latencyMs) log)

def callTool (call : ToolCall Json) (log : List (MCPToolCall Json)) :
    ToolOutcome × List (MCPToolCall Json) :=
  measure accepts call (callWithRetry call) log

/-! ## Completeness -/

def finalStatus : ToolOutcome → String
  | .ok _ => "ok"
  | .error _ => "error"

/-- The log has gained one row for the call, with its final status. -/
def Audited (call : ToolCall Json) (before : List (MCPToolCall Json))
    (after : ToolOutcome × List (MCPToolCall Json)) : Prop :=
  ∃ row, after.2.Perm (row :: before) ∧ row.toolName = call.name ∧ row.status = finalStatus after.1

/-- Every call of the sequence is audited. -/
def AuditComplete (log : List (MCPToolCall Json)) : List (ToolCall Json) → Prop
  | [] => True
  | call :: calls =>
    Audited call log (callTool accepts call log) ∧ AuditComplete (callTool accepts call log).2 calls

variable {accepts} {log : List (MCPToolCall Json)}

/-- The session of the auditor is closed without a commit. -/
theorem recordCall_eq (ctx : Option CallContext) (toolName : String) (args : Option (Value Json))
    (status : String) (result : Option (Stored Json)) (error : Option String) (latencyMs : Option Nat) :
    recordCall accepts ctx toolName args status result error latencyMs log = log := by
  apply Session.block_of_no_commit
  intro op hop
  rcases List.mem_cons.1 hop with rfl | hop
  · exact fun heq => nomatch heq
  · cases List.mem_singleton.1 hop
    exact fun heq => nomatch heq

theorem log_callTool (call : ToolCall Json) : (callTool accepts call log).2 = log := by
  unfold callTool measure
  split
  · exact recordCall_eq call.context call.name call.arguments "ok" _ none (some call.latencyMs)
  · next e _ =>
      split
      · rfl
      · exact recordCall_eq call.context call.name call.arguments "error" none (some e.text)
          (some call.latencyMs)

theorem not_audited_callTool (call : ToolCall Json) : ¬ Audited call log (callTool accepts call log) := by
  rintro ⟨row, hperm, -⟩
  have hlength := hperm.length_eq
  rw [log_callTool, List.length_cons] at hlength
  omega

/-- No sequence of calls is audited completely but the empty one. -/
theorem auditComplete_iff (calls : List (ToolCall Json)) : AuditComplete accepts log calls ↔ calls = [] := by
  cases calls with
  | nil => exact ⟨fun _ => rfl, fun _ => trivial⟩
  | cons call calls =>
      constructor
      · intro h
        exact absurd h.1 (not_audited_callTool call)
      · intro h
        cases h

/-- A call that succeeds, with a database that takes every row. -/
theorem success_not_recorded :
    ¬ ∀ calls : List (ToolCall Unit), AuditComplete (fun _ => true) [] calls := by
  intro h
  obtain ⟨row, hperm, -⟩ := (h [⟨none, "search", none, .ok none, .ok none, 5⟩]).1
  cases hperm.symm.eq_nil

end OpsKnowledge.Mcp
