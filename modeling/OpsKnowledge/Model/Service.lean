import Mathlib.Algebra.GroupWithZero.Nat
import OpsKnowledge.Lib.Dict
import OpsKnowledge.Lib.KeyValue

/-!
# Calls of model providers

The entry points of `app/model/service.py` that call a provider: by a provider and a model
name, by an entry of the registry, and by an agent. What the adapters do with a call is a
parameter.
-/

namespace OpsKnowledge.Model

open OpsKnowledge.Lib

/-- An `extra_config` of `None` is the empty one. `V` is the type of Python's values. -/
structure ModelProvider (V : Type) where
  name : String
  type : String
  baseUrl : Option String
  apiKey : Option String
  extraConfig : Dict String V
  isActive : Bool

structure ModelRegistryEntry where
  providerId : Nat
  modelId : String
  isEnabled : Bool

structure Agent where
  id : String
  modelId : Option Nat
  modelProviderId : Option Nat
  modelName : Option String

inductive Method (V : Type) where
  | chat (messages : List V)
  | chatStream (messages : List V)
  | embed (texts : List String)

/-- A call of an adapter. `options` are the keyword arguments beyond the fixed ones. -/
structure Request (V : Type) where
  method : Method V
  model : String
  baseUrl : Option String
  apiKey : Option String
  typeHint : String
  options : List (String × V)

/-- The usage may be missing, or the empty dictionary. -/
structure ChatResponse (V : Type) where
  usage : Option (Dict String V)
  data : V

abbrev Chunk := ChatResponse

/-- The chunks of a stream, and what is raised after them, if anything. -/
structure ChatStream (V : Type) where
  chunks : List (Chunk V)
  error : Option String

/-- The usage stays with the adapter, which returns the vectors. -/
structure EmbedResponse (V : Type) where
  usage : Option (Dict String V)
  vectors : List V

structure CostRecord (V : Type) where
  providerId : Nat
  modelName : String
  callType : String
  inputTokens : V
  outputTokens : V
  cost : Rat
  traceId : Option V
  userId : Option V

/-- `cached` finds a vector in the L3 cache, `accepts` says which cost rows the database takes, and
`completionCost` is LiteLLM's price, or `none` where it raises. -/
structure Env (V : Type) where
  providers : Store Nat (ModelProvider V)
  registry : Store Nat ModelRegistryEntry
  chat : Request V → Except String (ChatResponse V)
  chatStream : Request V → ChatStream V
  embed : Request V → Except String (EmbedResponse V)
  cached : String → String → Option V
  accepts : CostRecord V → Bool
  completionCost : String → V → V → Option Rat

inductive Failure where
  | valueError (text : String)
  /-- a keyword argument that is given twice -/
  | typeError
  | provider (text : String)
  | notConfigured (text : String)

/-- The calls of adapters that were made, the cost rows that were added, and what came of it. -/
structure Outcome (V ρ : Type) where
  requests : List (Request V) := []
  rows : List (CostRecord V) := []
  reply : ρ

/-- The parameters of the entry points, which no keyword argument beyond them can have. -/
def entryParameters : List String := ["self", "provider_id", "registry_id", "agent", "model_name", "messages"]

structure Kwargs (V : Type) where
  dict : Dict String V
  notParameters : ∀ k ∈ dict.keys, k ∉ entryParameters

def chatParameters : List String := ["self", "model", "messages", "base_url", "api_key", "_type_hint"]

def embedParameters : List String := ["self", "model", "texts", "base_url", "api_key", "_type_hint"]

variable {V : Type}

/-- `**(extra_config or {}), **kwargs` beside parameters that are given by name; `none` for a `TypeError`. -/
def mergeOptions (parameters : List String) (extra kwargs : Dict String V) : Option (List (String × V)) :=
  let options := extra.entries ++ kwargs.entries
  if (parameters ++ options.map Prod.fst).Nodup then some options else none

theorem mergeOptions_eq_some {parameters : List String} {extra kwargs : Dict String V}
    {options : List (String × V)} : mergeOptions parameters extra kwargs = some options ↔
      (parameters ++ options.map Prod.fst).Nodup ∧ options = extra.entries ++ kwargs.entries := by
  unfold mergeOptions
  dsimp only
  split
  · next h =>
      constructor
      · intro hsome
        cases hsome
        exact ⟨h, rfl⟩
      · rintro ⟨-, rfl⟩
        rfl
  · next h =>
      constructor
      · intro hsome
        cases hsome
      · rintro ⟨hnodup, rfl⟩
        exact absurd hnodup h

/-- More options do not make up for one that is given twice. -/
theorem mergeOptions_eq_none {parameters : List String} {extra kwargs : Dict String V}
    (h : mergeOptions parameters .empty kwargs = none) : mergeOptions parameters extra kwargs = none := by
  by_contra hsome
  obtain ⟨options, hoptions⟩ := Option.ne_none_iff_exists'.1 hsome
  obtain ⟨hnodup, rfl⟩ := mergeOptions_eq_some.1 hoptions
  have hsub : (parameters ++ (Dict.empty.entries ++ kwargs.entries).map Prod.fst).Sublist
      (parameters ++ (extra.entries ++ kwargs.entries).map Prod.fst) := by
    apply List.Sublist.append (List.Sublist.refl parameters)
    exact (List.sublist_append_right extra.entries kwargs.entries).map Prod.fst
  cases h.symm.trans (mergeOptions_eq_some.2 ⟨hnodup.sublist hsub, rfl⟩)

/-- `x` where `if x` would take it. -/
def truthy (usage : Option (Dict String V)) : Option (Dict String V) :=
  usage.filter fun u => !u.entries.isEmpty

def Kwargs.empty : Kwargs V := ⟨.empty, fun _ hk => nomatch hk⟩

/-- `kwargs` after `trace_id` and `user_id` have been popped. -/
def Kwargs.rest (kwargs : Kwargs V) : Dict String V := (kwargs.dict.erase "trace_id").erase "user_id"

def ModelProvider.request (p : ModelProvider V) (method : Method V) (model : String)
    (options : List (String × V)) : Request V where
  method := method
  model := model
  baseUrl := p.baseUrl
  apiKey := p.apiKey
  typeHint := p.type
  options := options

section Calls

variable (env : Env V)

/-- `_record_cost`: the rows that it adds. -/
def recordCost (row : CostRecord V) : List (CostRecord V) := if env.accepts row then [row] else []

def resolveModel (registryId : Nat) : Except Failure (Nat × ModelProvider V × String) :=
  match env.registry registryId with
  | none => .error (.valueError "Model not found in registry")
  | some entry =>
    if !entry.isEnabled then .error (.valueError ("Model '" ++ entry.modelId ++ "' is disabled"))
    else
      match env.providers entry.providerId with
      | none => .error (.valueError "Model's provider not found")
      | some provider =>
        if !provider.isActive then .error (.valueError ("Provider '" ++ provider.name ++ "' is inactive"))
        else .ok (entry.providerId, provider, entry.modelId)

variable {env} in
theorem resolveModel_provider {registryId : Nat} {r : Nat × ModelProvider V × String}
    (h : resolveModel env registryId = .ok r) : env.providers r.1 = some r.2.1 := by
  unfold resolveModel at h
  cases hentry : env.registry registryId with
  | none =>
      rw [hentry] at h
      cases h
  | some entry =>
      rw [hentry] at h
      dsimp only at h
      split at h
      · cases h
      · cases hprovider : env.providers entry.providerId with
        | none =>
            rw [hprovider] at h
            cases h
        | some provider =>
            rw [hprovider] at h
            dsimp only at h
            split at h
            · cases h
            · cases h
              exact hprovider

variable {env} in
theorem length_recordCost (row : CostRecord V) : (recordCost env row).length = 1 ↔ env.accepts row := by
  unfold recordCost
  split
  · next h => simp [h]
  · next h => simp [h]

variable [NatCast V]

/-- `usage.get(key, 0)` -/
def tokens (usage : Dict String V) (key : String) : V := (usage.get? key).getD (0 : Nat)

/-- `_safe_cost` -/
def safeCost (model : String) (inTok outTok : V) : Rat := (env.completionCost model inTok outTok).getD 0

def costRow (providerId : Nat) (model callType : String) (inTok outTok : V) (kwargs : Kwargs V) :
    CostRecord V where
  providerId := providerId
  modelName := model
  callType := callType
  inputTokens := inTok
  outputTokens := outTok
  cost := safeCost env model inTok outTok
  traceId := kwargs.dict.get? "trace_id"
  userId := kwargs.dict.get? "user_id"

/-! ## Chats -/

def chatRow (providerId : Nat) (model : String) (kwargs : Kwargs V) (response : ChatResponse V) :
    CostRecord V :=
  match truthy response.usage with
  | some usage =>
    costRow env providerId model "chat" (tokens usage "prompt_tokens") (tokens usage "completion_tokens")
      kwargs
  | none => costRow env providerId model "chat" (0 : Nat) (0 : Nat) kwargs

/-- The common part of `chat` and `chat_by_registry`. -/
def runChat (providerId : Nat) (provider : ModelProvider V) (model : String) (messages : List V)
    (kwargs : Kwargs V) : Outcome V (Except Failure (ChatResponse V)) :=
  match mergeOptions chatParameters provider.extraConfig kwargs.rest with
  | none => { reply := .error .typeError }
  | some options =>
    let request := provider.request (.chat messages) model options
    match env.chat request with
    | .error e => { requests := [request], reply := .error (.provider e) }
    | .ok response =>
      { requests := [request]
        rows := recordCost env (chatRow env providerId model kwargs response)
        reply := .ok response }

def chat (providerId : Nat) (modelName : String) (messages : List V) (kwargs : Kwargs V) :
    Outcome V (Except Failure (ChatResponse V)) :=
  match env.providers providerId with
  | none => { reply := .error (.valueError "Provider not found") }
  | some provider => runChat env providerId provider modelName messages kwargs

def chatByRegistry (registryId : Nat) (messages : List V) (kwargs : Kwargs V) :
    Outcome V (Except Failure (ChatResponse V)) :=
  match resolveModel env registryId with
  | .error e => { reply := .error e }
  | .ok (providerId, provider, modelId) => runChat env providerId provider modelId messages kwargs

def chatByAgent (agent : Agent) (messages : List V) (kwargs : Kwargs V) :
    Outcome V (Except Failure (ChatResponse V)) :=
  match agent.modelId with
  | some registryId => chatByRegistry env registryId messages kwargs
  | none =>
    match agent.modelProviderId, agent.modelName.filter (· ≠ "") with
    | some providerId, some modelName => chat env providerId modelName messages kwargs
    | _, _ =>
      { reply := .error (.notConfigured ("agent " ++ agent.id ++
          " has no model configured (model_id / model_provider_id+model_name all empty)")) }

/-! ## Streams -/

/-- How a stream ended for its consumer. -/
inductive StreamEnd where
  | exhausted
  /-- the consumer asked for no more -/
  | stopped
  | raised (e : Failure)

/-- The chunks that a consumer gets who stops after `demand` of them, or never. -/
def taken (demand : Option Nat) (chunks : List (Chunk V)) : List (Chunk V) :=
  match demand with
  | none => chunks
  | some n => chunks.take n

/-- The consumer has asked for more than there is. -/
def reachesEnd (demand : Option Nat) (chunks : List (Chunk V)) : Bool :=
  demand.all fun n => chunks.length < n

/-- The tokens of the last usage. -/
def streamTokens (chunks : List (Chunk V)) : V × V :=
  chunks.foldl (fun t chunk =>
    match truthy chunk.usage with
    | some usage => (tokens usage "prompt_tokens", tokens usage "completion_tokens")
    | none => t) ((0 : Nat), (0 : Nat))

def streamRow (providerId : Nat) (model : String) (kwargs : Kwargs V) (chunks : List (Chunk V)) :
    CostRecord V :=
  costRow env providerId model "chat_stream" (streamTokens chunks).1 (streamTokens chunks).2 kwargs

/-- The common part of `chat_stream` and `chat_stream_by_registry`, for a consumer who has asked for a first
chunk. The generator of one who stops is closed at its `yield`. -/
def runStream (providerId : Nat) (provider : ModelProvider V) (extra : Dict String V) (model : String)
    (messages : List V) (kwargs : Kwargs V) (demand : Option Nat) : Outcome V (List (Chunk V) × StreamEnd) :=
  match mergeOptions chatParameters extra kwargs.rest with
  | none => { reply := ([], .raised .typeError) }
  | some options =>
    let request := provider.request (.chatStream messages) model options
    let stream := env.chatStream request
    if !reachesEnd demand stream.chunks then
      { requests := [request], reply := (taken demand stream.chunks, .stopped) }
    else
      match stream.error with
      | some e => { requests := [request], reply := (stream.chunks, .raised (.provider e)) }
      | none =>
        { requests := [request]
          rows := recordCost env (streamRow env providerId model kwargs stream.chunks)
          reply := (stream.chunks, .exhausted) }

def chatStream (providerId : Nat) (modelName : String) (messages : List V) (kwargs : Kwargs V)
    (demand : Option Nat) : Outcome V (List (Chunk V) × StreamEnd) :=
  if demand = some 0 then { reply := ([], .stopped) }
  else
    match env.providers providerId with
    | none => { reply := ([], .raised (.valueError "Provider not found")) }
    | some provider => runStream env providerId provider provider.extraConfig modelName messages kwargs demand

/-- Without the extra configuration of the provider. -/
def chatStreamByRegistry (registryId : Nat) (messages : List V) (kwargs : Kwargs V) (demand : Option Nat) :
    Outcome V (List (Chunk V) × StreamEnd) :=
  if demand = some 0 then { reply := ([], .stopped) }
  else
    match resolveModel env registryId with
    | .error e => { reply := ([], .raised e) }
    | .ok (providerId, provider, modelId) =>
      runStream env providerId provider .empty modelId messages kwargs demand

/-! ## Embeddings -/

def embedRow (providerId : Nat) (model : String) (texts : List String) : CostRecord V :=
  costRow env providerId model "embed" ((texts.map fun t => t.length / 4).sum : Nat) (0 : Nat)
    .empty

/-- The vector of the cache, which is asked for a single text. -/
def cachedVector (model : String) (texts : List String) : Option V :=
  match texts with
  | [text] => env.cached model text
  | _ => none

/-- The call of the adapter's `embed`, with the cost rows that a response leads to. -/
def runEmbed (provider : ModelProvider V) (model : String) (texts : List String)
    (rows : List (CostRecord V)) : Outcome V (Except Failure (List V)) :=
  match mergeOptions embedParameters provider.extraConfig .empty with
  | none => { reply := .error .typeError }
  | some options =>
    let request := provider.request (.embed texts) model options
    match env.embed request with
    | .error e => { requests := [request], reply := .error (.provider e) }
    | .ok response => { requests := [request], rows := rows, reply := .ok response.vectors }

def embed (providerId : Nat) (modelName : String) (texts : List String) :
    Outcome V (Except Failure (List V)) :=
  match env.providers providerId with
  | none => { reply := .error (.valueError "Provider not found") }
  | some provider =>
    match cachedVector env modelName texts with
    | some vector => { reply := .ok [vector] }
    | none => runEmbed env provider modelName texts (recordCost env (embedRow env providerId modelName texts))

/-- Without the cache and the cost row. -/
def embedByRegistry (registryId : Nat) (texts : List String) : Outcome V (Except Failure (List V)) :=
  match resolveModel env registryId with
  | .error e => { reply := .error e }
  | .ok (_, provider, modelId) => runEmbed env provider modelId texts []

end Calls

end OpsKnowledge.Model
