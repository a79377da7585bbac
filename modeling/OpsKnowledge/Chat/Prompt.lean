import OpsKnowledge.Lib.Dict
import OpsKnowledge.Lib.Suffix
import OpsKnowledge.Lib.Text

/-!
# The prompt of a chat turn

`app/chat/prompt.py`: the variables of the system prompt and `assemble_prompt`. `isWord`
stands for the character class `\w` of Python's `re`; it has no white space in common with
`\s`.
-/

namespace OpsKnowledge.Chat

open OpsKnowledge.Lib

structure PromptMessage where
  role : String
  content : String
  deriving DecidableEq, Repr

def fallbackSystemPrompt : String :=
  "You are a helpful assistant. Answer questions accurately and concisely."

/-- `_estimate_tokens` -/
def estimateTokens (text : String) : Nat := max 1 (text.length / 4)

/-! ## Variables -/

section Render

variable (isWord : Char → Bool)

/-- A match of `\{\{\s*(\w+)\s*\}\}` at the start of a text: its group and its length. -/
def matchVar (s : List Char) : Option (String × Nat) :=
  match s with
  | '{' :: '{' :: rest =>
      let rest := rest.dropWhile isSpace
      let name := rest.takeWhile isWord
      match (rest.dropWhile isWord).dropWhile isSpace with
      | '}' :: '}' :: rest =>
          if name.isEmpty then none else some (String.ofList name, s.length - rest.length)
      | _ => none
  | _ => none

/-- `_VAR_RE.sub` on the characters left; `skip` of them belong to the last match. -/
def renderChars (vars : Dict String String) : Nat → List Char → List Char
  | _, [] => []
  | skip + 1, _ :: rest => renderChars vars skip rest
  | 0, c :: rest =>
      match matchVar isWord (c :: rest) with
      | some (name, len) =>
          ((vars.get? name).getD "").toList ++ renderChars vars (len - 1) rest
      | none => c :: renderChars vars 0 rest

def renderVariables (template : String) (vars : Dict String String) : String :=
  String.ofList (renderChars isWord vars 0 template.toList)

end Render

/-! ## The messages -/

/-- `int(max_context_tokens * 0.3)` -/
def historyBudget (maxContextTokens : Nat) : Nat := maxContextTokens * 3 / 10

/-- `(system_prompt or FALLBACK_SYSTEM_PROMPT).strip()` -/
def systemTemplate (systemPrompt : Option String) : String :=
  let prompt := systemPrompt.getD ""
  strip (if prompt = "" then fallbackSystemPrompt else prompt)

def systemMessage (isWord : Char → Bool) (systemPrompt : Option String)
    (vars : Dict String String) : PromptMessage :=
  { role := "system", content := renderVariables isWord (systemTemplate systemPrompt) vars }

/-- The newest messages of the history that fit the budget stand between the system message and
the query. -/
def assemblePrompt (isWord : Char → Bool) (systemPrompt : Option String)
    (vars : Dict String String) (history : List PromptMessage) (query : String)
    (maxContextTokens : Nat) : List PromptMessage :=
  let trimmed := trimSuffix (fun msg => estimateTokens msg.content) (historyBudget maxContextTokens)
    history
  systemMessage isWord systemPrompt vars :: trimmed ++ [{ role := "user", content := query }]

example : renderVariables Char.isAlphanum "Hi \x7b\x7b name \x7d\x7d, \x7b\x7bx\x7d\x7d\x7b\x7b\x7by\x7d\x7d"
    (Dict.ofList [("name", "Ada"), ("y", "z")]) = "Hi Ada, \x7bz" := by decide +kernel

end OpsKnowledge.Chat
