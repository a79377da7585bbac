import OpsKnowledge.Lib.Loop
import OpsKnowledge.Orchestrator.Matchers

/-!
# Validation of rule payloads

The Pydantic models of `schemas.py` for the match and handler configurations and for the
bodies of the rule requests. A model value carries its constraints. Field errors name the
field, errors of the model validators have their text.
-/

namespace OpsKnowledge.Orchestrator

open Workflow (Json)
open OpsKnowledge.Lib

/-! ## Fields -/

/-- A field without a default. -/
def required (field : String) (raw : Json) : Except Exn Json :=
  match getItem field raw with
  | .ok value => .ok value
  | .error _ => .error (.schema field)

/-- A field with a default. -/
def optional (field : String) (raw : Json) : Except Exn (Option Json) :=
  match raw with
  | .obj fields => .ok (fields.lookup field)
  | _ => .error (.schema field)

def withDefault {α : Type} (default : α) (read : Json → Except Exn α) :
    Option Json → Except Exn α
  | none => .ok default
  | some value => read value

def strValue (field : String) : Json → Except Exn String
  | .str s => .ok s
  | _ => .error (.schema field)

/-- What a `bool` field takes in lax mode. -/
def boolValue (field : String) : Json → Except Exn Bool
  | .bool b => .ok b
  | .num 0 => .ok false
  | .num 1 => .ok true
  | .str s =>
      if s.toLower ∈ ["0", "off", "f", "false", "n", "no"] then .ok false
      else if s.toLower ∈ ["1", "on", "t", "true", "y", "yes"] then .ok true
      else .error (.schema field)
  | _ => .error (.schema field)

/-! ## Match configurations -/

def conditionOperators : List String := ["==", "!=", "in", "not_in", ">", "<", ">=", "<="]

def listOperators : List String := ["in", "not_in"]

/-- `str | int | float` -/
inductive ConditionItem where
  | str (s : String)
  | num (n : Int)
  deriving DecidableEq, Repr

/-- `str | int | float | bool | list[str | int | float]` -/
inductive ConditionValue where
  | str (s : String)
  | num (n : Int)
  | bool (b : Bool)
  | list (items : List ConditionItem)
  deriving DecidableEq, Repr

def ConditionItem.modelDump : ConditionItem → Json
  | .str s => .str s
  | .num n => .num n

/-- A boolean is taken as an integer here. -/
def ConditionItem.modelValidate : Json → Except Exn ConditionItem
  | .str s => .ok (.str s)
  | .num n => .ok (.num n)
  | .bool b => .ok (.num (if b then 1 else 0))
  | _ => .error (.schema "value")

def ConditionValue.isList : ConditionValue → Bool
  | .list _ => true
  | _ => false

def ConditionValue.modelDump : ConditionValue → Json
  | .str s => .str s
  | .num n => .num n
  | .bool b => .bool b
  | .list items => .arr (items.map ConditionItem.modelDump)

def ConditionValue.modelValidate : Json → Except Exn ConditionValue
  | .str s => .ok (.str s)
  | .num n => .ok (.num n)
  | .bool b => .ok (.bool b)
  | .arr xs => do return .list (← xs.mapM ConditionItem.modelValidate)
  | _ => .error (.schema "value")

structure ConditionMatchConfig where
  path : String
  op : String
  value : ConditionValue
  path_length : 1 ≤ path.length ∧ path.length ≤ 200
  op_mem : op ∈ conditionOperators
  shape : op ∈ listOperators ↔ value.isList = true

structure KeywordMatchConfig where
  anyOf : List String
  caseSensitive : Bool
  anyOf_ne_nil : anyOf ≠ []

def flagChars (flags : String) : List String := flags.toList.map fun c => String.ofList [c]

def flagLetters : List Char := ['i', 'm', 's']

structure RegexMatchConfig (library : Library) where
  pattern : String
  flags : String
  pattern_length : 1 ≤ pattern.length ∧ pattern.length ≤ 1000
  flags_subset : ∀ c ∈ flags.toList, c ∈ flagLetters
  compiles : (library.compile pattern (flagChars flags)).isSome

structure LLMIntentMatchConfig where
  category : String
  category_length : 1 ≤ category.length ∧ category.length ≤ 100

def ConditionMatchConfig.modelValidate (raw : Json) : Except Exn ConditionMatchConfig := do
  let path ← strValue "path" (← required "path" raw)
  let op ← strValue "op" (← required "op" raw)
  let value ← ConditionValue.modelValidate (← required "value" raw)
  if hpath : 1 ≤ path.length ∧ path.length ≤ 200 then
    if hop : op ∈ conditionOperators then
      if hshape : op ∈ listOperators ↔ value.isList = true then
        return ⟨path, op, value, hpath, hop, hshape⟩
      else if op ∈ listOperators then throw (.schema s!"op '{op}' requires a list value")
      else throw (.schema s!"op '{op}' does not accept a list value")
    else throw (.schema "op")
  else throw (.schema "path")

def ConditionMatchConfig.modelDump (config : ConditionMatchConfig) : Json :=
  .obj [("path", .str config.path), ("op", .str config.op), ("value", config.value.modelDump)]

/-- `list[str]` -/
def strList (field : String) : Json → Except Exn (List String)
  | .arr xs => xs.mapM (strValue field)
  | _ => .error (.schema field)

def KeywordMatchConfig.modelValidate (raw : Json) : Except Exn KeywordMatchConfig := do
  let anyOf ← strList "any_of" (← required "any_of" raw)
  let caseSensitive ← withDefault false (boolValue "case_sensitive")
    (← optional "case_sensitive" raw)
  if hanyOf : anyOf ≠ [] then return ⟨anyOf, caseSensitive, hanyOf⟩
  else throw (.schema "any_of")

def KeywordMatchConfig.modelDump (config : KeywordMatchConfig) : Json :=
  .obj [("any_of", .arr (config.anyOf.map .str)), ("case_sensitive", .bool config.caseSensitive)]

instance decidableFlags (flags : String) : Decidable (∀ c ∈ flags.toList, c ∈ flagLetters) :=
  List.decidableBAll _ _

def RegexMatchConfig.modelValidate (library : Library) (raw : Json) :
    Except Exn (RegexMatchConfig library) := do
  let pattern ← strValue "pattern" (← required "pattern" raw)
  let flags ← withDefault "" (strValue "flags") (← optional "flags" raw)
  if hpattern : 1 ≤ pattern.length ∧ pattern.length ≤ 1000 then
    if hflags : ∀ c ∈ flags.toList, c ∈ flagLetters then
      if hcompiles : (library.compile pattern (flagChars flags)).isSome then
        return ⟨pattern, flags, hpattern, hflags, hcompiles⟩
      else throw (.schema "invalid regex")
    else throw (.schema "flags")
  else throw (.schema "pattern")

def RegexMatchConfig.modelDump {library : Library} (config : RegexMatchConfig library) : Json :=
  .obj [("pattern", .str config.pattern), ("flags", .str config.flags)]

def LLMIntentMatchConfig.modelValidate (raw : Json) : Except Exn LLMIntentMatchConfig := do
  let category ← strValue "category" (← required "category" raw)
  if hcategory : 1 ≤ category.length ∧ category.length ≤ 100 then
    return ⟨category, hcategory⟩
  else throw (.schema "category")

def LLMIntentMatchConfig.modelDump (config : LLMIntentMatchConfig) : Json :=
  .obj [("category", .str config.category)]

/-- `_normalize_match_config`, the schema looked up in `MATCH_SCHEMAS`. -/
def normalizeMatchConfig (library : Library) (matchType : String) (raw : Json) :
    Except Exn Json :=
  if matchType = "condition" then do return (← ConditionMatchConfig.modelValidate raw).modelDump
  else if matchType = "keyword" then do return (← KeywordMatchConfig.modelValidate raw).modelDump
  else if matchType = "regex" then do
    return (← RegexMatchConfig.modelValidate library raw).modelDump
  else if matchType = "llm_intent" then do
    return (← LLMIntentMatchConfig.modelValidate raw).modelDump
  else .error (.valueError s!"Unsupported match_type: {matchType}")

/-! ## What is dumped is accepted again -/

theorem ConditionValue.modelValidate_modelDump (value : ConditionValue) :
    modelValidate value.modelDump = .ok value := by
  cases value with
  | str s => rfl
  | num n => rfl
  | bool b => rfl
  | list items =>
      have hitem : ∀ item : ConditionItem, ConditionItem.modelValidate item.modelDump = .ok item := by
        intro item
        cases item with
        | str s => rfl
        | num n => rfl
      have hitems := mapM_map_eq_ok hitem items
      show (do return ConditionValue.list (← _)) = _
      rw [hitems]
      rfl

theorem ConditionMatchConfig.modelValidate_modelDump (config : ConditionMatchConfig) :
    modelValidate config.modelDump = .ok config := by
  have hvalue := config.value.modelValidate_modelDump
  have hfield : required "value" config.modelDump = .ok config.value.modelDump := rfl
  have hpath : required "path" config.modelDump = .ok (.str config.path) := rfl
  have hop : required "op" config.modelDump = .ok (.str config.op) := rfl
  simp only [modelValidate, hpath, hop, hfield, strValue, hvalue, bind, Except.bind,
    dif_pos config.path_length, dif_pos config.op_mem, dif_pos config.shape]
  rfl

theorem KeywordMatchConfig.modelValidate_modelDump (config : KeywordMatchConfig) :
    modelValidate config.modelDump = .ok config := by
  have hitem : ∀ s, strValue "any_of" (.str s) = .ok s := fun _ => rfl
  have hanyOf : required "any_of" config.modelDump = .ok (.arr (config.anyOf.map .str)) := rfl
  have hlist : strList "any_of" (.arr (config.anyOf.map .str)) = .ok config.anyOf :=
    mapM_map_eq_ok hitem config.anyOf
  have hcase : optional "case_sensitive" config.modelDump =
      .ok (some (.bool config.caseSensitive)) := rfl
  simp only [modelValidate, hanyOf, hlist, hcase, withDefault, boolValue, bind, Except.bind,
    dif_pos config.anyOf_ne_nil]
  rfl

theorem RegexMatchConfig.modelValidate_modelDump {library : Library}
    (config : RegexMatchConfig library) : modelValidate library config.modelDump = .ok config := by
  have hpattern : required "pattern" config.modelDump = .ok (.str config.pattern) := rfl
  have hflags : optional "flags" config.modelDump = .ok (some (.str config.flags)) := rfl
  simp only [modelValidate, hpattern, hflags, withDefault, strValue, bind, Except.bind,
    dif_pos config.pattern_length, dif_pos config.flags_subset, dif_pos config.compiles]
  rfl

theorem LLMIntentMatchConfig.modelValidate_modelDump (config : LLMIntentMatchConfig) :
    modelValidate config.modelDump = .ok config := by
  have hcategory : required "category" config.modelDump = .ok (.str config.category) := rfl
  simp only [modelValidate, hcategory, strValue, bind, Except.bind,
    dif_pos config.category_length]
  rfl

theorem normalizeMatchConfig_idem {library : Library} {matchType : String} {raw config : Json}
    (h : normalizeMatchConfig library matchType raw = .ok config) :
    normalizeMatchConfig library matchType config = .ok config := by
  unfold normalizeMatchConfig at h ⊢
  split at h
  · next hcondition =>
      rcases bind_eq_ok.1 h with ⟨model, -, hdump⟩
      cases hdump
      rw [if_pos hcondition, model.modelValidate_modelDump]
      rfl
  · next hcondition =>
      rw [if_neg hcondition]
      split at h
      · next hkeyword =>
          rcases bind_eq_ok.1 h with ⟨model, -, hdump⟩
          cases hdump
          rw [if_pos hkeyword, model.modelValidate_modelDump]
          rfl
      · next hkeyword =>
          rw [if_neg hkeyword]
          split at h
          · next hregex =>
              rcases bind_eq_ok.1 h with ⟨model, -, hdump⟩
              cases hdump
              rw [if_pos hregex, model.modelValidate_modelDump]
              rfl
          · next hregex =>
              rw [if_neg hregex]
              split at h
              · next hllm =>
                  rcases bind_eq_ok.1 h with ⟨model, -, hdump⟩
                  cases hdump
                  rw [if_pos hllm, model.modelValidate_modelDump]
                  rfl
              · cases h

/-! ## Handler configurations -/

structure WorkflowHandlerConfig where
  inputMapping : List (String × String)

/-- `dict[str, str]` -/
def strDict (field : String) : Json → Except Exn (List (String × String))
  | .obj fields => fields.mapM fun entry => do return (entry.1, ← strValue field entry.2)
  | _ => .error (.schema field)

def WorkflowHandlerConfig.modelValidate (raw : Json) : Except Exn WorkflowHandlerConfig := do
  let inputMapping ← withDefault [("query", "$message")] (strDict "input_mapping")
    (← optional "input_mapping" raw)
  return ⟨inputMapping⟩

def WorkflowHandlerConfig.modelDump (config : WorkflowHandlerConfig) : Json :=
  .obj [("input_mapping", .obj (config.inputMapping.map fun entry => (entry.1, .str entry.2)))]

/-- `_normalize_handler_config`, the schema looked up in `HANDLER_SCHEMAS`. -/
def normalizeHandlerConfig (handlerType : String) (raw : Json) : Except Exn Json :=
  if handlerType = "workflow" then do
    return (← WorkflowHandlerConfig.modelValidate (if raw.truthy then raw else .obj [])).modelDump
  else .error (.valueError s!"Unsupported handler_type: {handlerType}")

/-! ## Request bodies -/

inductive MatchType where
  | condition | keyword | regex | llmIntent
  deriving DecidableEq, Repr

def MatchType.value : MatchType → String
  | .condition => "condition"
  | .keyword => "keyword"
  | .regex => "regex"
  | .llmIntent => "llm_intent"

inductive HandlerType where
  | workflow
  deriving DecidableEq, Repr

def HandlerType.value : HandlerType → String
  | .workflow => "workflow"

inductive OnHandlerError where
  | useDefault | fallbackNext | returnError
  deriving DecidableEq, Repr

def OnHandlerError.value : OnHandlerError → String
  | .useDefault => "use_default"
  | .fallbackNext => "fallback_next"
  | .returnError => "return_error"

structure AgentRuleCreate where
  priority : Option ℚ := none
  isActive : Bool := true
  matchType : MatchType
  matchConfig : Json
  handlerType : HandlerType
  handlerId : Option Nat := none
  handlerConfig : Json := .obj []
  onHandlerError : OnHandlerError := .useDefault

/-- In each field `none` is unset and `some none` an explicit null. -/
structure AgentRuleUpdate where
  isActive : Option (Option Bool) := none
  matchType : Option (Option MatchType) := none
  matchConfig : Option (Option Json) := none
  handlerType : Option (Option HandlerType) := none
  handlerId : Option (Option Nat) := none
  handlerConfig : Option (Option Json) := none
  onHandlerError : Option (Option OnHandlerError) := none

/-- A `dict` field. -/
def checkDict (field : String) (value : Json) : Except Exn Unit :=
  if isDict value then .ok () else .error (.schema field)

/-- A `dict | None` field. -/
def checkOptionalDict (field : String) (value : Option Json) : Except Exn Unit :=
  match value with
  | none => .ok ()
  | some value => checkDict field value

section Check

variable (library : Library)

/-- What the validators make of a body. -/
def AgentRuleCreate.check (data : AgentRuleCreate) : Except Exn AgentRuleCreate := do
  checkDict "match_config" data.matchConfig
  checkDict "handler_config" data.handlerConfig
  let matchConfig ← normalizeMatchConfig library data.matchType.value data.matchConfig
  let handlerConfig ← normalizeHandlerConfig data.handlerType.value data.handlerConfig
  if data.handlerId = none then
    throw (.schema s!"handler_type '{data.handlerType.value}' requires handler_id")
  return { data with matchConfig := matchConfig, handlerConfig := handlerConfig }

/-- A configuration that comes without its type is taken as it is. -/
def checkedMatchConfig (matchType : Option MatchType) (matchConfig : Option (Option Json)) :
    Except Exn (Option (Option Json)) :=
  match matchType, matchConfig.join with
  | none, _ => .ok matchConfig
  | some _, none => .error (.schema "match_config is required when match_type changes")
  | some matchType, some raw => do
      return some (some (← normalizeMatchConfig library matchType.value raw))

/-- A handler type without a configuration gets the defaults. -/
def checkedHandlerConfig (handlerType : Option HandlerType)
    (handlerConfig : Option (Option Json)) : Except Exn (Option (Option Json)) :=
  match handlerType, handlerConfig.join with
  | none, _ => .ok handlerConfig
  | some handlerType, none => do
      let defaults ← normalizeHandlerConfig handlerType.value (.obj [])
      return some (some (← normalizeHandlerConfig handlerType.value defaults))
  | some handlerType, some raw => do
      return some (some (← normalizeHandlerConfig handlerType.value raw))

def AgentRuleUpdate.check (data : AgentRuleUpdate) : Except Exn AgentRuleUpdate := do
  checkOptionalDict "match_config" data.matchConfig.join
  checkOptionalDict "handler_config" data.handlerConfig.join
  let matchConfig ← checkedMatchConfig library data.matchType.join data.matchConfig
  let handlerConfig ← checkedHandlerConfig data.handlerType.join data.handlerConfig
  return { data with matchConfig := matchConfig, handlerConfig := handlerConfig }

end Check

theorem AgentRuleCreate.check_eq_ok {library : Library} {body data : AgentRuleCreate}
    (h : body.check library = .ok data) :
    data.priority = body.priority ∧ data.handlerId ≠ none ∧
      normalizeMatchConfig library data.matchType.value body.matchConfig = .ok data.matchConfig := by
  rcases bind_eq_ok.1 h with ⟨⟨⟩, -, h⟩
  rcases bind_eq_ok.1 h with ⟨⟨⟩, -, h⟩
  rcases bind_eq_ok.1 h with ⟨matchConfig, hmatch, h⟩
  rcases bind_eq_ok.1 h with ⟨handlerConfig, -, h⟩
  by_cases hhandler : body.handlerId = none
  · simp only [if_pos hhandler] at h
    cases h
  · simp only [if_neg hhandler] at h
    cases h
    exact ⟨rfl, hhandler, hmatch⟩

theorem AgentRuleUpdate.check_eq_ok {library : Library} {body data : AgentRuleUpdate}
    (h : body.check library = .ok data) :
    data.matchType = body.matchType ∧ data.handlerId = body.handlerId ∧
      checkedMatchConfig library body.matchType.join body.matchConfig = .ok data.matchConfig := by
  rcases bind_eq_ok.1 h with ⟨⟨⟩, -, h⟩
  rcases bind_eq_ok.1 h with ⟨⟨⟩, -, h⟩
  rcases bind_eq_ok.1 h with ⟨matchConfig, hmatch, h⟩
  rcases bind_eq_ok.1 h with ⟨handlerConfig, -, h⟩
  cases h
  exact ⟨rfl, rfl, hmatch⟩

end OpsKnowledge.Orchestrator
