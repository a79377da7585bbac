import Mathlib.Data.Prod.Lex
import OpsKnowledge.Lib.OrderBy
import OpsKnowledge.Lib.Table
import OpsKnowledge.Orchestrator.Schemas

/-!
# The rule store

The rule operations of `OrchestratorService` and the rebalance task over the tables
`agent_rules` and `agent_rule_versions`. A request is validated before the service and its
response after it; what raises is rolled back. Float rounding, the database's order of tied
rows and new ids are parameters; agents and workflows do not change. Hit statistics, change
notes and users are left out.
-/

namespace OpsKnowledge.Orchestrator

open Workflow (Json)
open OpsKnowledge.Lib

/-- A row of `agent_rule_versions`. -/
structure AgentRuleVersion where
  ruleId : Nat
  version : Nat
  priority : ℚ
  isActive : Bool
  matchType : String
  matchConfig : Json
  handlerType : String
  handlerId : Option Nat
  handlerConfig : Json
  onHandlerError : String

structure RuleStore where
  rules : List AgentRule := []
  versions : List AgentRuleVersion := []

structure Agent where
  id : Nat
  agentType : String := "orchestrator"
  config : OrchestratorConfig := {}

/-- The tables that rule requests only read: the agents, and the workflows with their
`owner_agent_id`. -/
structure Scope where
  agents : List Agent
  workflowOwner : Nat → Option (Option Nat)
  agent_ids : (agents.map Agent.id).Nodup

def Scope.agent (scope : Scope) (agentId : Nat) : Option Agent :=
  scope.agents.find? fun agent => agent.id = agentId

def priorityStep : ℚ := 10

def rebalanceStep : ℚ := 10

/-- The double nearest to `1e-6`. -/
def gapThreshold : ℚ := 4722366482869645 / 2 ^ 72

def defaultTrustedPaths : List String := ["user.role", "user.department_id", "user.id"]

/-! ## Orders -/

/-- `ORDER BY priority`, ties as the database gives them. -/
def priorityKey (tie : AgentRule → Nat) (rule : AgentRule) : ℚ ×ₗ ℕ :=
  toLex (rule.priority, tie rule)

/-- `ORDER BY priority, created_at` -/
def displayKey (tie : AgentRule → Nat) (rule : AgentRule) : ℚ ×ₗ (ℕ ×ₗ ℕ) :=
  toLex (rule.priority, toLex (rule.createdAt, tie rule))

/-! ## Checks against other tables -/

section Scope

variable (scope : Scope) (agentId : Nat)

def assertAgentIsOrchestrator : Except Exn Unit :=
  match scope.agent agentId with
  | none => .error (.notFound "Agent" (toString agentId))
  | some agent =>
      if agent.agentType = "orchestrator" then .ok ()
      else .error (.validation s!"Agent {agentId} is type '{agent.agentType}', rules only apply to 'orchestrator'")

def assertPathTrusted (path : Json) (whitelist : List String) : Except Exn Unit :=
  if whitelist.any fun trusted => pyEq path (.str trusted) then .ok ()
  else .error (.validation "metadata path is not in trusted_metadata_paths whitelist")

def checkMatchAgainstAgent (matchType : String) (matchConfig : Json) : Except Exn Unit :=
  let config := ((scope.agent agentId).map Agent.config).getD {}
  if matchType = "condition" then do
    let whitelist := if config.trustedMetadataPaths = [] then defaultTrustedPaths
      else config.trustedMetadataPaths
    assertPathTrusted (← getItem "path" matchConfig) whitelist
  else if matchType = "llm_intent" then do
    let known := ((config.classifier.map ClassifierConfig.categories).getD []).map
      ClassifierCategory.name
    match ← getField "category" matchConfig with
    | .str category =>
        if category ∈ known then return ()
        else throw (.validation s!"llm_intent category '{category}' not in classifier categories")
    | .arr _ | .obj _ => throw (.typeError "unhashable type")
    | _ => throw (.validation "llm_intent category not in classifier categories")
  else .ok ()

def assertHandlerWorkflowOwned (workflowId : Option Nat) : Except Exn Unit :=
  match workflowId with
  | none => .ok ()
  | some workflowId =>
      match scope.workflowOwner workflowId with
      | none => .error (.validation s!"Workflow {workflowId} not found")
      | some owner =>
          if owner = some agentId then .ok ()
          else .error (.validation s!"Workflow {workflowId} is not owned by this Orchestrator")

end Scope

/-! ## Rows -/

def AgentRule.snapshot (rule : AgentRule) : AgentRuleVersion where
  ruleId := rule.id
  version := rule.version
  priority := rule.priority
  isActive := rule.isActive
  matchType := rule.matchType
  matchConfig := rule.matchConfig
  handlerType := rule.handlerType
  handlerId := rule.handlerId
  handlerConfig := rule.handlerConfig
  onHandlerError := rule.onHandlerError

/-- `(rule.version or 1) + 1` -/
def AgentRule.nextVersion (rule : AgentRule) : Nat :=
  (if rule.version = 0 then 1 else rule.version) + 1

/-- The fields that `rollback_rule` copies. -/
def AgentRule.restored (rule : AgentRule) (target : AgentRuleVersion) : AgentRule :=
  { rule with
    priority := target.priority
    isActive := target.isActive
    matchType := target.matchType
    matchConfig := target.matchConfig
    handlerType := target.handlerType
    handlerId := target.handlerId
    handlerConfig := target.handlerConfig
    onHandlerError := target.onHandlerError
    version := rule.nextVersion }

/-- What is written to a column that is not nullable. -/
def column {α : Type} (name : String) (old : α) : Option (Option α) → Except Exn α
  | none => .ok old
  | some none => .error (.integrityError name)
  | some (some value) => .ok value

/-- What is written to a JSONB column: `None` is stored as the JSON `null`. -/
def jsonColumn (old : Json) : Option (Option Json) → Json
  | none => old
  | some none => .null
  | some (some value) => value

/-- The `setattr` loop of `update_rule` and the next version. -/
def AgentRule.updated (rule : AgentRule) (data : AgentRuleUpdate) : Except Exn AgentRule := do
  let isActive ← column "is_active" rule.isActive data.isActive
  let matchType ← column "match_type" rule.matchType
    (data.matchType.map (Option.map MatchType.value))
  let handlerType ← column "handler_type" rule.handlerType
    (data.handlerType.map (Option.map HandlerType.value))
  let onHandlerError ← column "on_handler_error" rule.onHandlerError
    (data.onHandlerError.map (Option.map OnHandlerError.value))
  return { rule with
    isActive := isActive
    matchType := matchType
    matchConfig := jsonColumn rule.matchConfig data.matchConfig
    handlerType := handlerType
    handlerId := data.handlerId.getD rule.handlerId
    handlerConfig := jsonColumn rule.handlerConfig data.handlerConfig
    onHandlerError := onHandlerError
    version := rule.nextVersion }

/-- `AgentRuleResponse`: both configurations have to be dictionaries. -/
def checkResponse (rule : AgentRule) : Except Exn Unit := do
  checkDict "match_config" rule.matchConfig
  checkDict "handler_config" rule.handlerConfig

/-! ## Operations -/

namespace RuleStore

def rulesOf (s : RuleStore) (agentId : Nat) : List AgentRule :=
  s.rules.filter fun rule => rule.agentId = agentId

def versionsOf (s : RuleStore) (ruleId : Nat) : List AgentRuleVersion :=
  s.versions.filter fun row => row.ruleId = ruleId

def listRules (s : RuleStore) (agentId : Nat) (tie : AgentRule → Nat) : List AgentRule :=
  orderBy (displayKey tie) (s.rulesOf agentId)

/-- The query of `_active_rules`. -/
def activeRules (s : RuleStore) (agentId : Nat) (tie : AgentRule → Nat) : List AgentRule :=
  orderBy (priorityKey tie) ((s.rulesOf agentId).filter AgentRule.isActive)

def getRule (s : RuleStore) (agentId ruleId : Nat) : Except Exn AgentRule :=
  match s.rules.find? fun rule => rule.id = ruleId with
  | none => .error (.notFound "AgentRule" (toString ruleId))
  | some rule =>
      if rule.agentId = agentId then .ok rule
      else .error (.notFound "AgentRule" (toString ruleId))

/-- `_write_version_snapshot` -/
def writeVersionSnapshot (s : RuleStore) (rule : AgentRule) : Except Exn RuleStore :=
  if s.versions.any fun row => row.ruleId = rule.id ∧ row.version = rule.version then
    .error (.integrityError "uq_agent_rule_version")
  else .ok { s with versions := s.versions ++ [rule.snapshot] }

def insertRow (s : RuleStore) (rule : AgentRule) : RuleStore :=
  { s with rules := s.rules ++ [rule] }

def setRow (s : RuleStore) (rule : AgentRule) : RuleStore :=
  { s with rules := replaceRow AgentRule.id rule s.rules }

section Service

variable (library : Library) (scope : Scope) (round : ℚ → ℚ)

/-- The priority behind all others. -/
def endPriority (s : RuleStore) (agentId : Nat) : ℚ :=
  round ((((s.rulesOf agentId).map AgentRule.priority).max?).getD 0 + priorityStep)

def newRule (s : RuleStore) (agentId ruleId now : Nat) (data : AgentRuleCreate) : AgentRule where
  id := ruleId
  agentId := agentId
  priority := data.priority.getD (s.endPriority round agentId)
  isActive := data.isActive
  matchType := data.matchType.value
  matchConfig := data.matchConfig
  handlerType := data.handlerType.value
  handlerId := data.handlerId
  handlerConfig := data.handlerConfig
  onHandlerError := data.onHandlerError.value
  createdAt := now

def createRule (s : RuleStore) (agentId ruleId now : Nat) (body : AgentRuleCreate) :
    Except Exn RuleStore := do
  let data ← body.check library
  assertAgentIsOrchestrator scope agentId
  checkMatchAgainstAgent scope agentId data.matchType.value data.matchConfig
  assertHandlerWorkflowOwned scope agentId data.handlerId
  let rule := s.newRule round agentId ruleId now data
  if s.rules.any fun row => row.id = ruleId then throw (.integrityError "agent_rules_pkey")
  let s' ← (s.insertRow rule).writeVersionSnapshot rule
  checkResponse rule
  return s'

/-- The check of the combined new match in `update_rule`. -/
def checkUpdatedMatch (agentId : Nat) (rule : AgentRule) (data : AgentRuleUpdate) :
    Except Exn Unit :=
  match data.matchType, data.matchConfig with
  | none, none => .ok ()
  | none, some _ =>
      checkMatchAgainstAgent scope agentId rule.matchType
        (jsonColumn rule.matchConfig data.matchConfig)
  | some none, _ => .ok ()
  | some (some matchType), _ =>
      checkMatchAgainstAgent scope agentId matchType.value
        (jsonColumn rule.matchConfig data.matchConfig)

def updateRule (s : RuleStore) (agentId ruleId : Nat) (body : AgentRuleUpdate) :
    Except Exn RuleStore := do
  let data ← body.check library
  let rule ← s.getRule agentId ruleId
  checkUpdatedMatch scope agentId rule data
  let rule ← rule.updated data
  let s' ← (s.setRow rule).writeVersionSnapshot rule
  checkResponse rule
  return s'

def rollbackRule (s : RuleStore) (agentId ruleId version : Nat) : Except Exn RuleStore := do
  if version = 0 then throw (.schema "version")
  let rule ← s.getRule agentId ruleId
  match s.versions.find? fun row => row.ruleId = ruleId ∧ row.version = version with
  | none => throw (.notFound "AgentRuleVersion" s!"rule={ruleId} version={version}")
  | some target =>
      let rule := rule.restored target
      let s' ← (s.setRow rule).writeVersionSnapshot rule
      checkResponse rule
      return s'

/-- The foreign key deletes the versions with the rule. -/
def deleteRule (s : RuleStore) (agentId ruleId : Nat) : Except Exn RuleStore := do
  let _ ← s.getRule agentId ruleId
  return {
    rules := s.rules.filter fun rule => rule.id ≠ ruleId
    versions := s.versions.filter fun row => row.ruleId ≠ ruleId }

/-- The priority of the place behind `afterRuleId`, or before all others. -/
def placePriority (others : List AgentRule) (afterRuleId : Option Nat) : Except Exn ℚ :=
  match afterRuleId with
  | none =>
      match others with
      | [] => .ok priorityStep
      | first :: _ => .ok (round (first.priority / 2))
  | some afterId =>
      match others.dropWhile fun rule => rule.id ≠ afterId with
      | [] => .error (.validation s!"after_rule_id {afterId} not in this agent's rules")
      | [before] => .ok (round (before.priority + priorityStep))
      | before :: after :: _ => .ok (round (round (before.priority + after.priority) / 2))

/-- The agent's other rules in the order that `move_rule` reads. -/
def otherRules (s : RuleStore) (agentId ruleId : Nat) (tie : AgentRule → Nat) : List AgentRule :=
  orderBy (priorityKey tie) ((s.rulesOf agentId).filter fun rule => rule.id ≠ ruleId)

def moveRule (s : RuleStore) (agentId ruleId : Nat) (afterRuleId : Option Nat)
    (tie : AgentRule → Nat) : Except Exn RuleStore := do
  let rule ← s.getRule agentId ruleId
  let priority ← placePriority round (s.otherRules agentId ruleId tie) afterRuleId
  let rule := { rule with priority := priority }
  checkResponse rule
  return s.setRow rule

/-- Two neighbours are closer than the threshold. -/
def crowded (rows : List AgentRule) : Bool :=
  (List.zipWith (fun a b => round (b.priority - a.priority)) rows rows.tail).any (· ≤ gapThreshold)

def respaced (rows : List AgentRule) : List (Nat × ℚ) :=
  rows.mapIdx fun i rule => (rule.id, (i + 1) * rebalanceStep)

def assigned (priorities : List (Nat × ℚ)) (rule : AgentRule) : AgentRule :=
  { rule with priority := (priorities.lookup rule.id).getD rule.priority }

/-- One round of the loop over the agents. -/
def rebalanceAgent (tie : AgentRule → Nat) (s : RuleStore) (agentId : Nat) : RuleStore :=
  let rows := orderBy (priorityKey tie) (s.rulesOf agentId)
  if rows.length < 2 then s
  else if crowded round rows then { s with rules := s.rules.map (assigned (respaced rows)) }
  else s

/-- `_run_priority_rebalance` -/
def priorityRebalance (s : RuleStore) (tie : AgentRule → Nat) : RuleStore :=
  ((scope.agents.filter fun agent => agent.agentType = "orchestrator").map Agent.id).foldl
    (rebalanceAgent round tie) s

end Service

end RuleStore

inductive RuleOp where
  | create (agentId ruleId now : Nat) (body : AgentRuleCreate)
  | update (agentId ruleId : Nat) (body : AgentRuleUpdate)
  | rollback (agentId ruleId version : Nat)
  | delete (agentId ruleId : Nat)
  | move (agentId ruleId : Nat) (afterRuleId : Option Nat) (tie : AgentRule → Nat)
  | rebalance (tie : AgentRule → Nat)

section Steps

variable (library : Library) (scope : Scope) (round : ℚ → ℚ)

def RuleStore.apply (s : RuleStore) : RuleOp → Except Exn RuleStore
  | .create agentId ruleId now body => s.createRule library scope round agentId ruleId now body
  | .update agentId ruleId body => s.updateRule library scope agentId ruleId body
  | .rollback agentId ruleId version => s.rollbackRule agentId ruleId version
  | .delete agentId ruleId => s.deleteRule agentId ruleId
  | .move agentId ruleId afterRuleId tie => s.moveRule round agentId ruleId afterRuleId tie
  | .rebalance tie => .ok (s.priorityRebalance scope round tie)

/-- An operation that is accepted. -/
def RuleStore.step (s : RuleStore) (op : RuleOp) : Option RuleStore :=
  (s.apply library scope round op).toOption

end Steps

/-! ## What an accepted operation writes -/

namespace RuleStore

variable {library : Library} {scope : Scope} {round : ℚ → ℚ} {s s' : RuleStore}
  {agentId ruleId : Nat}

/-- The rule's row with a new version and its snapshot. -/
def saved (s : RuleStore) (rule : AgentRule) : RuleStore :=
  { s.setRow rule with versions := s.versions ++ [rule.snapshot] }

theorem mem_setRow {rule rule' r : AgentRule} (hrule : rule ∈ s.rules) (hid : rule'.id = rule.id) :
    r ∈ (s.setRow rule').rules ↔ r = rule' ∨ r ∈ s.rules ∧ r.id ≠ rule.id := by
  rw [← hid]
  exact mem_replaceRow hrule hid.symm

theorem getRule_eq_ok {rule : AgentRule} (h : s.getRule agentId ruleId = .ok rule) :
    rule ∈ s.rules ∧ rule.id = ruleId ∧ rule.agentId = agentId := by
  unfold getRule at h
  cases hfind : s.rules.find? fun rule => rule.id = ruleId with
  | none =>
      rw [hfind] at h
      cases h
  | some row =>
      rw [hfind] at h
      by_cases hagent : row.agentId = agentId
      · simp only [if_pos hagent] at h
        cases h
        have hid := List.find?_some hfind
        exact ⟨List.mem_of_find?_eq_some hfind, of_decide_eq_true hid, hagent⟩
      · simp only [if_neg hagent] at h
        cases h

theorem writeVersionSnapshot_eq_ok {rule : AgentRule}
    (h : s.writeVersionSnapshot rule = .ok s') :
    s' = { s with versions := s.versions ++ [rule.snapshot] } := by
  unfold writeVersionSnapshot at h
  split at h
  · cases h
  · cases h
    rfl

theorem createRule_eq_ok {now : Nat} {body : AgentRuleCreate}
    (h : s.createRule library scope round agentId ruleId now body = .ok s') :
    ∃ data, body.check library = .ok data ∧
      assertHandlerWorkflowOwned scope agentId data.handlerId = .ok () ∧
      (∀ row ∈ s.rules, row.id ≠ ruleId) ∧
      s' = { rules := s.rules ++ [s.newRule round agentId ruleId now data]
             versions := s.versions ++ [(s.newRule round agentId ruleId now data).snapshot] } := by
  rcases bind_eq_ok.1 h with ⟨data, hcheck, h⟩
  rcases bind_eq_ok.1 h with ⟨-, -, h⟩
  rcases bind_eq_ok.1 h with ⟨-, -, h⟩
  rcases bind_eq_ok.1 h with ⟨⟨⟩, howned, h⟩
  by_cases hexists : s.rules.any fun row => row.id = ruleId
  · simp only [if_pos hexists] at h
    cases h
  · simp only [if_neg hexists] at h
    rcases bind_eq_ok.1 h with ⟨-, -, h⟩
    rcases bind_eq_ok.1 h with ⟨written, hwritten, h⟩
    rcases bind_eq_ok.1 h with ⟨-, -, h⟩
    cases h
    refine ⟨data, hcheck, howned, ?_, writeVersionSnapshot_eq_ok hwritten⟩
    simpa using hexists

theorem updateRule_eq_ok {body : AgentRuleUpdate}
    (h : s.updateRule library scope agentId ruleId body = .ok s') :
    ∃ data rule rule', body.check library = .ok data ∧ rule ∈ s.rules ∧ rule.id = ruleId ∧
      rule.agentId = agentId ∧ rule.updated data = .ok rule' ∧ checkResponse rule' = .ok () ∧
      s' = s.saved rule' := by
  rcases bind_eq_ok.1 h with ⟨data, hcheck, h⟩
  rcases bind_eq_ok.1 h with ⟨rule, hget, h⟩
  rcases getRule_eq_ok hget with ⟨hmem, hid, hagent⟩
  rcases bind_eq_ok.1 h with ⟨⟨⟩, -, h⟩
  rcases bind_eq_ok.1 h with ⟨rule', hupdated, h⟩
  rcases bind_eq_ok.1 h with ⟨written, hwritten, h⟩
  rcases bind_eq_ok.1 h with ⟨⟨⟩, hresponse, h⟩
  cases h
  exact ⟨data, rule, rule', hcheck, hmem, hid, hagent, hupdated, hresponse,
    writeVersionSnapshot_eq_ok hwritten⟩

theorem rollbackRule_eq_ok {version : Nat}
    (h : s.rollbackRule agentId ruleId version = .ok s') :
    ∃ rule target, rule ∈ s.rules ∧ rule.id = ruleId ∧ rule.agentId = agentId ∧
      s.versions.find? (fun row => row.ruleId = ruleId ∧ row.version = version) = some target ∧
      s' = s.saved (rule.restored target) := by
  unfold rollbackRule at h
  by_cases hzero : version = 0
  · simp only [if_pos hzero] at h
    cases h
  · simp only [if_neg hzero] at h
    rcases bind_eq_ok.1 h with ⟨-, -, h⟩
    rcases bind_eq_ok.1 h with ⟨rule, hget, h⟩
    rcases getRule_eq_ok hget with ⟨hmem, hid, hagent⟩
    cases htarget : s.versions.find? fun row => row.ruleId = ruleId ∧ row.version = version with
    | none =>
        rw [htarget] at h
        cases h
    | some target =>
        simp only [htarget] at h
        rcases bind_eq_ok.1 h with ⟨written, hwritten, h⟩
        rcases bind_eq_ok.1 h with ⟨-, -, h⟩
        cases h
        exact ⟨rule, target, hmem, hid, hagent, rfl, writeVersionSnapshot_eq_ok hwritten⟩

theorem deleteRule_eq_ok (h : s.deleteRule agentId ruleId = .ok s') :
    s' = { rules := s.rules.filter fun rule => rule.id ≠ ruleId
           versions := s.versions.filter fun row => row.ruleId ≠ ruleId } := by
  rcases bind_eq_ok.1 h with ⟨rule, -, h⟩
  cases h
  rfl

theorem moveRule_eq_ok {afterRuleId : Option Nat} {tie : AgentRule → Nat}
    (h : s.moveRule round agentId ruleId afterRuleId tie = .ok s') :
    ∃ rule priority, rule ∈ s.rules ∧ rule.id = ruleId ∧ rule.agentId = agentId ∧
      placePriority round (s.otherRules agentId ruleId tie) afterRuleId = .ok priority ∧
      s' = s.setRow { rule with priority := priority } := by
  rcases bind_eq_ok.1 h with ⟨rule, hget, h⟩
  rcases getRule_eq_ok hget with ⟨hmem, hid, hagent⟩
  rcases bind_eq_ok.1 h with ⟨priority, hplace, h⟩
  rcases bind_eq_ok.1 h with ⟨-, -, h⟩
  cases h
  exact ⟨rule, priority, hmem, hid, hagent, hplace, rfl⟩

/-! ## The rebalance task -/

/-- The rules with other priorities. -/
def reprioritised (s : RuleStore) (priority : AgentRule → ℚ) : RuleStore :=
  { s with rules := s.rules.map fun rule => { rule with priority := priority rule } }

theorem reprioritised_self (s : RuleStore) : s.reprioritised AgentRule.priority = s := by
  show ({ s with rules := s.rules.map id } : RuleStore) = s
  rw [List.map_id]

theorem rebalanceAgent_eq (round : ℚ → ℚ) (tie : AgentRule → Nat) (s : RuleStore) (agentId : Nat) :
    ∃ priority, rebalanceAgent round tie s agentId = s.reprioritised priority := by
  unfold rebalanceAgent
  dsimp only
  split
  · exact ⟨_, s.reprioritised_self.symm⟩
  · split
    · exact ⟨_, rfl⟩
    · exact ⟨_, s.reprioritised_self.symm⟩

theorem foldl_rebalanceAgent_eq (round : ℚ → ℚ) (tie : AgentRule → Nat) (agentIds : List Nat)
    (s : RuleStore) :
    ∃ priority, agentIds.foldl (rebalanceAgent round tie) s = s.reprioritised priority := by
  induction agentIds generalizing s with
  | nil => exact ⟨_, s.reprioritised_self.symm⟩
  | cons agentId agentIds ih =>
      rcases rebalanceAgent_eq round tie s agentId with ⟨priority, hfirst⟩
      rcases ih (rebalanceAgent round tie s agentId) with ⟨priority', hrest⟩
      refine ⟨fun rule => priority' { rule with priority := priority rule }, ?_⟩
      rw [List.foldl_cons, hrest, hfirst]
      simp only [reprioritised, List.map_map, Function.comp_def]

theorem priorityRebalance_eq (scope : Scope) (round : ℚ → ℚ) (s : RuleStore)
    (tie : AgentRule → Nat) :
    ∃ priority, s.priorityRebalance scope round tie = s.reprioritised priority :=
  foldl_rebalanceAgent_eq round tie _ s

/-! ## The tables fit together -/

/-- Ids are distinct, no version row outlives its rule, and the rows of a rule are numbered from
1 to its version. -/
structure Wf (s : RuleStore) : Prop where
  ids : (s.rules.map AgentRule.id).Nodup
  kept : ∀ row ∈ s.versions, ∃ rule ∈ s.rules, rule.id = row.ruleId
  numbered : ∀ rule ∈ s.rules, 1 ≤ rule.version ∧
    (s.versionsOf rule.id).map AgentRuleVersion.version = List.range' 1 rule.version

theorem Wf.empty : Wf {} where
  ids := List.nodup_nil
  kept := nofun
  numbered := nofun

theorem Wf.eq_of_id_eq (hs : s.Wf) {rule rule' : AgentRule} (hrule : rule ∈ s.rules)
    (hrule' : rule' ∈ s.rules) (h : rule.id = rule'.id) : rule = rule' :=
  List.inj_on_of_nodup_map hs.ids hrule hrule' h

theorem versionsOf_concat_self (rules : List AgentRule) (row : AgentRuleVersion) :
    versionsOf { rules := rules, versions := s.versions ++ [row] } row.ruleId =
      s.versionsOf row.ruleId ++ [row] := by
  simp [versionsOf]

theorem versionsOf_concat_of_ne (rules : List AgentRule) {row : AgentRuleVersion}
    (h : row.ruleId ≠ ruleId) :
    versionsOf { rules := rules, versions := s.versions ++ [row] } ruleId = s.versionsOf ruleId := by
  simp [versionsOf, h]

theorem Wf.versionsOf_eq_nil (hs : s.Wf) (h : ∀ rule ∈ s.rules, rule.id ≠ ruleId) :
    s.versionsOf ruleId = [] := by
  unfold versionsOf
  rw [List.filter_eq_nil_iff]
  intro row hrow hid
  rcases hs.kept row hrow with ⟨rule, hrule, heq⟩
  exact h rule hrule (heq.trans (of_decide_eq_true hid))

theorem Wf.insert (hs : s.Wf) {rule : AgentRule} (hfresh : ∀ row ∈ s.rules, row.id ≠ rule.id)
    (hversion : rule.version = 1) :
    Wf { rules := s.rules ++ [rule], versions := s.versions ++ [rule.snapshot] } where
  ids := nodup_keys_concat hs.ids hfresh
  kept := by
    intro row hrow
    rcases mem_concat.1 hrow with hold | hnew
    · rcases hs.kept row hold with ⟨rule', hrule', heq⟩
      exact ⟨rule', List.mem_append_left _ hrule', heq⟩
    · rw [hnew]
      exact ⟨rule, List.mem_append_right _ List.mem_cons_self, rfl⟩
  numbered := by
    intro rule' hrule'
    rcases mem_concat.1 hrule' with hold | hnew
    · have hne : rule.snapshot.ruleId ≠ rule'.id := (hfresh rule' hold).symm
      rw [versionsOf_concat_of_ne _ hne]
      exact hs.numbered rule' hold
    · subst hnew
      refine ⟨by omega, ?_⟩
      have hrows := versionsOf_concat_self (s := s) (s.rules ++ [rule']) rule'.snapshot
      have hnil := hs.versionsOf_eq_nil hfresh
      change versionsOf _ rule'.id = s.versionsOf rule'.id ++ [rule'.snapshot] at hrows
      rw [hrows, hnil, hversion]
      show [rule'.version] = [1]
      rw [hversion]

theorem Wf.saved (hs : s.Wf) {rule rule' : AgentRule} (hrule : rule ∈ s.rules)
    (hid : rule'.id = rule.id) (hversion : rule'.version = rule.nextVersion) :
    (s.saved rule').Wf where
  ids := by
    show ((replaceRow AgentRule.id rule' s.rules).map AgentRule.id).Nodup
    rw [map_key_replaceRow]
    exact hs.ids
  kept := by
    have hkept : ∀ id, (∃ r ∈ s.rules, r.id = id) →
        ∃ r ∈ replaceRow AgentRule.id rule' s.rules, r.id = id := by
      intro id h
      rw [← List.mem_map, map_key_replaceRow, List.mem_map]
      exact h
    intro row hrow
    rcases mem_concat.1 hrow with hold | hnew
    · exact hkept _ (hs.kept row hold)
    · rw [hnew]
      exact hkept _ ⟨rule, hrule, hid.symm⟩
  numbered := by
    intro r hr
    rcases (mem_replaceRow hrule hid.symm).1 hr with rfl | ⟨hold, hne⟩
    · rcases hs.numbered rule hrule with ⟨hpos, hrows⟩
      have hnext : r.version = rule.version + 1 := by
        rw [hversion, AgentRule.nextVersion, if_neg (by omega)]
      refine ⟨by omega, ?_⟩
      have hsaved : (s.saved r).versionsOf r.id = s.versionsOf r.id ++ [r.snapshot] :=
        versionsOf_concat_self (s := s) _ r.snapshot
      rw [hsaved, List.map_append, hid, hrows, hnext, List.range'_concat]
      show _ ++ [r.version] = _
      rw [hnext, Nat.add_comm, Nat.one_mul]
    · have hsaved : (s.saved rule').versionsOf r.id = s.versionsOf r.id :=
        versionsOf_concat_of_ne (s := s) _ (Ne.symm hne)
      rw [hsaved]
      exact hs.numbered r hold

theorem versionsOf_delete (rules : List AgentRule) {id : Nat} (h : id ≠ ruleId) :
    versionsOf { rules := rules, versions := s.versions.filter fun row => row.ruleId ≠ ruleId } id =
      s.versionsOf id := by
  unfold versionsOf
  rw [List.filter_filter]
  apply List.filter_congr
  intro row _
  by_cases hid : row.ruleId = id
  · simpa [hid] using h
  · simp [hid]

theorem Wf.delete (hs : s.Wf) (ruleId : Nat) :
    Wf { rules := s.rules.filter fun rule => rule.id ≠ ruleId
         versions := s.versions.filter fun row => row.ruleId ≠ ruleId } where
  ids := hs.ids.sublist (List.filter_sublist.map _)
  kept := by
    intro row hrow
    rcases List.mem_filter.1 hrow with ⟨hold, hne⟩
    rcases hs.kept row hold with ⟨rule, hrule, heq⟩
    refine ⟨rule, List.mem_filter.2 ⟨hrule, ?_⟩, heq⟩
    rw [heq]
    exact hne
  numbered := by
    intro rule hrule
    rcases List.mem_filter.1 hrule with ⟨hold, hne⟩
    rw [versionsOf_delete _ (of_decide_eq_true hne)]
    exact hs.numbered rule hold

/-- Whatever keeps the version rows and the rules' ids and versions. -/
theorem Wf.of_same (hs : s.Wf) (hversions : s'.versions = s.versions)
    (hrules : s'.rules.map (fun rule => (rule.id, rule.version)) =
      s.rules.map fun rule => (rule.id, rule.version)) : s'.Wf where
  ids := by
    have hids : s'.rules.map AgentRule.id = s.rules.map AgentRule.id := by
      have hfst := congrArg (List.map Prod.fst) hrules
      rwa [List.map_map, List.map_map] at hfst
    rw [hids]
    exact hs.ids
  kept := by
    intro row hrow
    rw [hversions] at hrow
    rcases hs.kept row hrow with ⟨rule, hrule, heq⟩
    have hmem : (rule.id, rule.version) ∈ s'.rules.map fun rule => (rule.id, rule.version) := by
      rw [hrules]
      exact List.mem_map_of_mem hrule
    rcases List.mem_map.1 hmem with ⟨rule', hrule', hpair⟩
    exact ⟨rule', hrule', (Prod.mk.inj hpair).1.trans heq⟩
  numbered := by
    intro rule' hrule'
    have hmem : (rule'.id, rule'.version) ∈ s.rules.map fun rule => (rule.id, rule.version) := by
      rw [← hrules]
      exact List.mem_map_of_mem hrule'
    rcases List.mem_map.1 hmem with ⟨rule, hrule, hpair⟩
    rcases Prod.mk.inj hpair with ⟨hid, hversion⟩
    unfold versionsOf
    rw [hversions, ← hid, ← hversion]
    exact hs.numbered rule hrule

theorem Wf.reprioritised (hs : s.Wf) (priority : AgentRule → ℚ) : (s.reprioritised priority).Wf := by
  have hrules : (s.reprioritised priority).rules.map (fun rule => (rule.id, rule.version)) =
      s.rules.map fun rule => (rule.id, rule.version) := by
    unfold RuleStore.reprioritised
    rw [List.map_map]
    rfl
  exact hs.of_same rfl hrules

theorem Wf.setRow (hs : s.Wf) {rule : AgentRule} (hrule : rule ∈ s.rules) (priority : ℚ) :
    (s.setRow { rule with priority := priority }).Wf := by
  have hrules : (s.setRow { rule with priority := priority }).rules.map
      (fun rule => (rule.id, rule.version)) = s.rules.map fun rule => (rule.id, rule.version) := by
    apply map_replaceRow_of_same
    intro row hrow hid
    rw [hs.eq_of_id_eq hrow hrule hid]
  exact hs.of_same rfl hrules

theorem updated_eq_ok {rule rule' : AgentRule} {data : AgentRuleUpdate}
    (h : rule.updated data = .ok rule') :
    rule'.id = rule.id ∧ rule'.agentId = rule.agentId ∧ rule'.priority = rule.priority ∧
      rule'.createdAt = rule.createdAt ∧ rule'.version = rule.nextVersion ∧
      column "match_type" rule.matchType (data.matchType.map (Option.map MatchType.value)) =
        .ok rule'.matchType ∧
      rule'.matchConfig = jsonColumn rule.matchConfig data.matchConfig ∧
      rule'.handlerId = data.handlerId.getD rule.handlerId := by
  rcases bind_eq_ok.1 h with ⟨isActive, -, h⟩
  rcases bind_eq_ok.1 h with ⟨matchType, hmatchType, h⟩
  rcases bind_eq_ok.1 h with ⟨handlerType, -, h⟩
  rcases bind_eq_ok.1 h with ⟨onHandlerError, -, h⟩
  cases h
  exact ⟨rfl, rfl, rfl, rfl, rfl, hmatchType, rfl, rfl⟩

theorem step_eq_some {op : RuleOp} :
    s.step library scope round op = some s' ↔ s.apply library scope round op = .ok s' := by
  unfold step
  cases s.apply library scope round op with
  | error e => simp [Except.toOption]
  | ok t => simp [Except.toOption]

theorem Wf.step {op : RuleOp} (hs : s.Wf) (h : s.step library scope round op = some s') : s'.Wf := by
  rw [step_eq_some] at h
  cases op with
  | create agentId ruleId now body =>
      rcases createRule_eq_ok h with ⟨data, -, -, hfresh, rfl⟩
      exact hs.insert hfresh rfl
  | update agentId ruleId body =>
      rcases updateRule_eq_ok h with ⟨data, rule, rule', -, hrule, -, -, hupdated, -, rfl⟩
      rcases updated_eq_ok hupdated with ⟨hid, -, -, -, hversion, -⟩
      exact hs.saved hrule hid hversion
  | rollback agentId ruleId version =>
      rcases rollbackRule_eq_ok h with ⟨rule, target, hrule, -, -, -, rfl⟩
      exact hs.saved hrule rfl rfl
  | delete agentId ruleId =>
      rw [deleteRule_eq_ok h]
      exact hs.delete ruleId
  | move agentId ruleId afterRuleId tie =>
      rcases moveRule_eq_ok h with ⟨rule, priority, hrule, -, -, -, rfl⟩
      exact hs.setRow hrule priority
  | rebalance tie =>
      cases h
      rcases priorityRebalance_eq scope round s tie with ⟨priority, heq⟩
      rw [heq]
      exact hs.reprioritised priority

end RuleStore

/-! ## A small store -/

def plainLibrary : Library where
  casefold := id
  compile _ _ := none

def oneWorkflow : Scope where
  agents := [{ id := 0 }]
  workflowOwner workflowId := if workflowId = 7 then some (some 0) else none
  agent_ids := by decide

/-- A keyword rule for workflow 7. -/
def helpBody (priority : Option ℚ) : AgentRuleCreate where
  priority := priority
  matchType := .keyword
  matchConfig := .obj [("any_of", .arr [.str "help"])]
  handlerType := .workflow
  handlerId := some 7

end OpsKnowledge.Orchestrator
