import Mathlib.Algebra.Order.Ring.Unbundled.Rat
import OpsKnowledge.Chat.History
import OpsKnowledge.Knowledge.ChunkService

/-!
# A turn of a simple agent

`run_rag_pipeline` of `app/chat/pipeline.py` with the guard of `app/chat/prompt_guard.py`, consumed to
its end. What the tables, the registry and the providers give is a parameter, also where they fail;
the messages themselves are stored. `search` stands for the pattern of a rule, `special` for the case
mapping of characters outside of ASCII.
-/

namespace OpsKnowledge.Chat

open OpsKnowledge.Lib
open OpsKnowledge.Knowledge (slice)

/-! ## The guard -/

inductive GuardMode where
  | off
  | log
  | block

inductive GuardAction where
  | allow
  | log
  | block
  deriving DecidableEq

structure GuardHit where
  rule : String
  score : Rat
  snippet : String

structure GuardResult where
  action : GuardAction
  score : Rat
  hits : List GuardHit := []
  refusalMessage : Option String := none

/-- `guard_config`, with the values that `str` and `float` give; `float` fails on what is no number. -/
structure GuardConfig where
  mode : String := "off"
  blockThreshold : Option Rat := some (7 / 10)
  logThreshold : Option Rat := some (4 / 10)

def guardRules : List (String × Rat) :=
  [("instruction_override", 9 / 10), ("role_hijack", 85 / 100), ("system_prompt_leak", 8 / 10),
    ("delimiter_injection", 7 / 10), ("data_exfiltration", 6 / 10)]

def refusalMessage : String :=
  "抱歉，我无法处理这个请求 —— 检测到可能的提示词注入或越权指令。如果你确实想了解相关内容，请换一种自然语言的提问方式。"

def parseGuardConfig (special : String → Nat → List Char) (cfg : GuardConfig) :
    Option (GuardMode × Rat × Rat) := do
  let mode := match lower special cfg.mode with
    | "log" => GuardMode.log
    | "block" => GuardMode.block
    | _ => GuardMode.off
  let blockThreshold ← cfg.blockThreshold
  let logThreshold ← cfg.logThreshold
  some (mode, max 0 (min 1 blockThreshold), max 0 (min 1 logThreshold))

section Guard

variable (search : String → String → Option (Nat × Nat))

/-- The text without zero-width characters. -/
def normalizeText (text : String) : String :=
  String.ofList (text.toList.filter fun c => c.toNat ≠ 0x200b ∧ c.toNat ≠ 0x200c)

def guardHits (text : String) : List GuardHit :=
  guardRules.filterMap fun (rule, score) => (search rule text).map fun (first, last) =>
    { rule := rule, score := score, snippet := slice (slice text (first - 10) (last + 10)) 0 200 }

def evaluate (text : String) (mode : GuardMode) (blockThreshold logThreshold : Rat) : GuardResult :=
  let hits := guardHits search (normalizeText text)
  let composite := (hits.map GuardHit.score).foldl max 0
  let logged : GuardResult :=
    if logThreshold ≤ composite then { action := .log, score := composite, hits := hits }
    else { action := .allow, score := composite, hits := hits }
  if text = "" then { action := .allow, score := 0 }
  else match mode with
    | .off => { action := .allow, score := 0 }
    | .log => logged
    | .block =>
        if blockThreshold ≤ composite then
          { action := .block, score := composite, hits := hits, refusalMessage := some refusalMessage }
        else logged

end Guard

/-! ## Agents and what they call -/

structure Agent where
  guardConfig : GuardConfig := {}
  modelId : Option Nat := none
  modelProviderId : Option Nat := none
  modelName : Option String := none
  knowledgeBaseIds : List String := []
  systemPrompt : Option String := none
  showThinking : Bool := true
  thinkingDetail : String := "normal"

/-- A chunk of a model's stream. -/
structure StreamChunk where
  hasChoices : Bool := true
  reasoningContent : String := ""
  content : String := ""
  usage : Option (Nat × Nat) := none

/-- An exception, with its text and the name of its class. -/
structure Failure where
  text : String
  className : String

/-- The chunks that come, and the exception that ends the stream. -/
structure ModelStream where
  chunks : List StreamChunk
  failure : Option Failure := none

structure Conversation where
  id : Nat
  memorySummary : Option String := none

/-- What a turn finds. A lookup gives `none` where it fails. -/
structure PipelineEnv where
  conversation : Option Conversation
  /-- The committed messages, with the query and the empty answer. -/
  turn : Turn
  historyFails : Bool := false
  traceId : String
  /-- The name of a registered model that can be used. -/
  resolveModel : Nat → Option String
  /-- Whether a provider is active. -/
  getProvider : Nat → Option Bool
  /-- The limit of a known model; it need not be a number. -/
  maxInputTokens : String → Option (Option Nat)
  streamByRegistry : Nat → List PromptMessage → ModelStream
  stream : Option Nat → Option String → List PromptMessage → ModelStream

/-! ## The message and the events -/

inductive MessageStatus where
  | generating
  | completed
  | error
  deriving DecidableEq

inductive MessageMetadata where
  | guard (score : Rat) (hits : List GuardHit)
  | retrieval (chunkCount : Nat)

structure AssistantMessage where
  content : String := ""
  status : MessageStatus := .generating
  metadata : Option MessageMetadata := none
  tokenUsage : Option (Nat × Nat) := none

inductive SseEvent where
  | messageStart (messageId conversationId : Nat)
  | guardWarning (score : Rat) (rules : List String)
  | thinking (step : Nat) (content : String)
  | contentDelta (delta : String)
  | messageEnd (inputTokens outputTokens : Nat) (traceId : String)

structure PipelineRun where
  message : Option AssistantMessage := none
  events : List SseEvent := []

namespace PipelineRun

variable (run : PipelineRun)

def yield (event : SseEvent) : PipelineRun := { run with events := run.events ++ [event] }

def updateMessage (message : AssistantMessage) : PipelineRun :=
  { run with message := run.message.map fun _ => message }

/-- `pipeline_error` -/
def fail : PipelineRun := run.yield (.messageEnd 0 0 "")

end PipelineRun

/-! ## The stream of the answer -/

structure Streaming where
  fullContent : String := ""
  thinkingStep : Nat := 0
  tokens : Nat × Nat := (0, 0)
  events : List SseEvent := []

section Turns

variable (agent : Agent) (env : PipelineEnv)

def Streaming.think (s : Streaming) (reasoning : String) : Streaming :=
  let step := s.thinkingStep + 1
  let events :=
    if agent.thinkingDetail = "minimal" then
      if step = 1 then [SseEvent.thinking 1 "分析中..."] else []
    else [SseEvent.thinking step reasoning]
  { s with thinkingStep := step, events := s.events ++ events }

def Streaming.receive (s : Streaming) (chunk : StreamChunk) : Streaming :=
  if chunk.hasChoices then
    let s :=
      if agent.showThinking ∧ chunk.reasoningContent ≠ "" then s.think agent chunk.reasoningContent else s
    let s :=
      if chunk.content ≠ "" then
        { s with
          fullContent := s.fullContent ++ chunk.content
          events := s.events ++ [.contentDelta chunk.content] }
      else s
    { s with tokens := chunk.usage.getD s.tokens }
  else s

def modelStream (prompt : List PromptMessage) : ModelStream :=
  match agent.modelId with
  | some modelId => env.streamByRegistry modelId prompt
  | none => env.stream agent.modelProviderId agent.modelName prompt

def streamAnswer (run : PipelineRun) (stream : ModelStream) : PipelineRun :=
  let s := stream.chunks.foldl (Streaming.receive agent) {}
  let run := { run with events := run.events ++ s.events }
  match stream.failure with
  | some failure =>
      let detail := if strip failure.text = "" then failure.className else strip failure.text
      let errorMsg := "生成出错：" ++ slice detail 0 500
      if strip s.fullContent = "" then
        ((run.yield (.contentDelta errorMsg)).yield (.messageEnd 0 0 env.traceId)).updateMessage
          { content := errorMsg, status := .error }
      else
        (run.yield (.messageEnd 0 0 env.traceId)).updateMessage
          { content := s.fullContent, status := .error }
  | none =>
      (run.updateMessage {
        content := s.fullContent
        status := .completed
        metadata := some (.retrieval 0)
        tokenUsage := some s.tokens }).yield (.messageEnd s.tokens.1 s.tokens.2 env.traceId)

/-! ## The steps before -/

/-- The answer where the agent's model cannot be used. -/
def checkModel : Option String :=
  match agent.modelId with
  | some modelId => if (env.resolveModel modelId).isSome then none else some "模型不可用，请检查智能体配置。"
  | none =>
      match agent.modelProviderId with
      | some providerId =>
          match env.getProvider providerId with
          | some true => none
          | some false => some "当前模型供应商已被禁用，请在智能体配置中更换模型。"
          | none => some "模型供应商不可用，请检查智能体配置。"
      | none => none

/-- `max_ctx`; `none` where the budgets cannot be computed from it. -/
def maxContext : Option Nat :=
  let modelKey :=
    match agent.modelId with
    | some modelId => env.resolveModel modelId
    | none => agent.modelProviderId.bind fun _ => agent.modelName
  match (modelKey.filter (· ≠ "")).bind env.maxInputTokens with
  | some limit => limit
  | none => some 6000

/-- The names that `_VAR_RE.findall` finds in the characters left. -/
def requiredVars (isWord : Char → Bool) : Nat → List Char → List String
  | _, [] => []
  | skip + 1, _ :: rest => requiredVars isWord skip rest
  | 0, c :: rest =>
      match matchVar isWord (c :: rest) with
      | some (name, len) => name :: requiredVars isWord (len - 1) rest
      | none => requiredVars isWord 0 rest

/-- The variables of a turn without knowledge bases. -/
def promptVariables (isWord : Char → Bool) (conv : Conversation) : Dict String String :=
  let promptVars := requiredVars isWord 0 (agent.systemPrompt.getD "").toList
  .ofList
    [("context", if "context" ∈ promptVars then "(未找到相关参考资料)" else ""),
      ("history_summary", conv.memorySummary.getD ""),
      ("query", env.turn.userMsg.content),
      ("knowledge_names", ""),
      ("kb_count", "0")]

variable (isWord : Char → Bool) (tie : Message → Nat)

/-- From the history to the end. -/
def converse (conv : Conversation) (run : PipelineRun) : PipelineRun :=
  if env.historyFails then run.fail
  else match checkModel agent env with
    | some refusal => (run.yield (.contentDelta refusal)).yield (.messageEnd 0 0 env.traceId)
    | none =>
        -- `app.knowledge.service` has no `KnowledgeBaseService`: the import raises
        if agent.knowledgeBaseIds ≠ [] then run.fail
        else match maxContext agent env with
          | none => run.fail
          | some maxCtx =>
              streamAnswer agent env run (modelStream agent env
                (env.turn.promptMessages tie isWord agent.systemPrompt
                  (promptVariables agent env isWord conv) maxCtx))

def runRagPipeline (special : String → Nat → List Char)
    (search : String → String → Option (Nat × Nat)) : PipelineRun :=
  match env.conversation with
  | none => PipelineRun.fail {}
  | some conv =>
      let run : PipelineRun :=
        { message := some {}
          events := [.messageStart env.turn.assistantMsg.id conv.id] }
      match parseGuardConfig special agent.guardConfig with
      | none => run.fail
      | some (mode, blockThreshold, logThreshold) =>
          let guard := evaluate search env.turn.userMsg.content mode blockThreshold logThreshold
          match guard.action with
          | .allow => converse agent env isWord tie conv run
          | .log =>
              converse agent env isWord tie conv
                (run.yield (.guardWarning guard.score (guard.hits.map GuardHit.rule)))
          | .block =>
              let refusal := guard.refusalMessage.getD "请求被安全策略拦截。"
              ((run.yield (.contentDelta refusal)).yield (.messageEnd 0 0 env.traceId)).updateMessage
                { content := refusal
                  status := .completed
                  metadata := some (.guard guard.score guard.hits) }

end Turns

end OpsKnowledge.Chat
