import Mathlib.Data.List.Infix
import OpsKnowledge.Lib.Text

/-!
# Query rewriting

`query_rewriter.py`: which queries are sent to the model, with which messages, and what is
made of its reply.
-/

namespace OpsKnowledge.Retrieval

open OpsKnowledge.Lib

/-- A model by its registry id, or by its provider and its name. -/
inductive ModelRef where
  | registry (registryId : String)
  | named (providerId modelName : String)
  deriving DecidableEq

/-- `x` where `if x` would take it. -/
def truthy (x : Option String) : Option String := x.filter fun s => s ≠ ""

/-- `registry_id or (provider_id and model_name)` -/
def modelRef (registryId providerId modelName : Option String) : Option ModelRef :=
  match truthy registryId, truthy providerId, truthy modelName with
  | some r, _, _ => some (.registry r)
  | none, some p, some m => some (.named p m)
  | _, _, _ => none

structure Message where
  role : String
  content : String
  deriving DecidableEq

/-- `REWRITE_SYSTEM` -/
def rewriteSystem : String :=
  "你是对话检索的查询改写器。给定对话历史 + 用户最新问题，判断是否需要" ++
  "结合上下文将问题改写为独立的可检索查询。需要改写的典型场景：" ++
  "包含指代词（它/这个/上述/前面）、省略主语、跟进追问。\n\n" ++
  "严格返回 JSON：\n" ++
  "\x7b\"needs_rewrite\": <true|false>, \"rewritten\": \"<改写后的独立查询，" ++
  "或与原问题相同>\", \"reason\": \"<简短理由，10 字以内>\"\x7d\n\n" ++
  "改写规则：保留原问题的核心意图，将代词替换为具体名称，将被省略的主语" ++
  "补回。不要扩展、不要解释、不要加引导词。"

/-- `_FOLLOWUP_HINTS` -/
def followupHints : List String :=
  ["它", "这个", "那个", "上述", "上面", "前面", "刚才",
    "继续", "再说", "再讲", "也呢", "呢", "为什么",
    "it ", "its ", "this ", "that ", "above", "previous",
    "follow up", "follow-up", "what about"]

/-- `_has_followup_hint`; outside ASCII `lower` makes no character of a hint. -/
def hasFollowupHint (query : String) : Bool :=
  let s := (strip query).toList.map Char.toLower
  !s.isEmpty && followupHints.any fun hint => hint.toList <:+: s

structure RewriteRequest where
  model : ModelRef
  messages : List Message
  deriving DecidableEq

def rewriteMessages (query : String) (history : List Message) (memorySummary : Option String) :
    List Message :=
  let memory := match truthy memorySummary with
    | some summary => [⟨"system", "长期记忆：" ++ String.ofList (summary.toList.take 1500)⟩]
    | none => []
  ⟨"system", rewriteSystem⟩ :: memory ++ history.drop (history.length - 8) ++ [⟨"user", query⟩]

/-- What is sent for a query; `none` when it is used as it is. -/
def rewriteRequest (query : String) (history : List Message) (model : Option ModelRef)
    (memorySummary : Option String) : Option RewriteRequest :=
  if (strip query).isEmpty || history.isEmpty then none
  else if !hasFollowupHint query && 25 < (strip query).length then none
  else model.map fun m => { model := m, messages := rewriteMessages query history memorySummary }

/-- The model's reply as `_parse_response` reads it. -/
structure RewriteReply where
  needsRewrite : Bool
  rewritten : String

/-- `query_used` of `rewrite_query_v2` -/
def rewrittenQuery (query : String) : Option RewriteReply → String
  | none => query
  | some reply =>
      let rewritten := strip reply.rewritten
      if !reply.needsRewrite || rewritten.isEmpty || rewritten = query then query else rewritten

end OpsKnowledge.Retrieval
