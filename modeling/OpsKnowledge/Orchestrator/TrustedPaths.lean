import OpsKnowledge.Orchestrator.RuleStore

/-!
# Trusted paths

A condition rule is checked against the agent's trusted paths when it is written and again
when it is evaluated, and compares what it finds at its path. Here the matcher gives its whole
result, and a rule is any stored configuration with the three fields that the matcher reads.
-/

namespace OpsKnowledge.Orchestrator

open Workflow (Json)
open OpsKnowledge.Lib

/-! ## The matcher's result -/

structure MatchResult where
  matched : Bool
  details : Json

def pathNotTrusted (path : Json) : MatchResult where
  matched := false
  details := .obj [("reason", .str "path_not_trusted"), ("path", path)]

/-- `match_condition` with its details. -/
def matchConditionResult (config : Json) (input : MatchInput) : Except Exn MatchResult := do
  let path ← getItem "path" config
  let op ← getItem "op" config
  let expected ← getItem "value" config
  match path with
  | .str path =>
      if path ∈ input.config.trustedMetadataPaths then do
        let actual := resolveTrustedPath input.metadata path
        let matched ← unlessTypeError (applyOp actual op expected)
        return {
          matched := matched
          details := .obj [("path", .str path), ("op", op), ("actual", actual),
            ("expected", expected)] }
      else return pathNotTrusted (.str path)
  | path => return pathNotTrusted path

/-- The matcher that the engine calls answers `matched`. -/
theorem matchCondition_eq (config : Json) (input : MatchInput) :
    matchCondition config input = MatchResult.matched <$> matchConditionResult config input := by
  unfold matchCondition matchConditionResult
  cases getItem "path" config with
  | error e => rfl
  | ok path =>
      cases getItem "op" config with
      | error e => rfl
      | ok op =>
          cases getItem "value" config with
          | error e => rfl
          | ok expected =>
              cases path with
              | str path =>
                  by_cases htrusted : path ∈ input.config.trustedMetadataPaths
                  · show (if _ then _ else _) = _ <$> (if _ then _ else _)
                    rw [if_pos htrusted, if_pos htrusted]
                    cases unlessTypeError
                      (applyOp (resolveTrustedPath input.metadata path) op expected) with
                    | error e => rfl
                    | ok matched => rfl
                  · show (if _ then _ else _) = _ <$> (if _ then _ else _)
                    rw [if_neg htrusted, if_neg htrusted]
                    rfl
              | _ => rfl

/-- A stored match configuration with the fields of a condition. -/
structure ConditionRule where
  config : Json
  path : String
  op : Json
  value : Json
  path_eq : getItem "path" config = .ok (.str path)
  op_eq : getItem "op" config = .ok op
  value_eq : getItem "value" config = .ok value

/-- Every configuration that passed the schema. -/
def ConditionMatchConfig.rule (config : ConditionMatchConfig) : ConditionRule where
  config := config.modelDump
  path := config.path
  op := .str config.op
  value := config.value.modelDump
  path_eq := rfl
  op_eq := rfl
  value_eq := rfl

namespace ConditionRule

variable (rule : ConditionRule) (input : MatchInput)

theorem matchConditionResult_of_trusted {input : MatchInput}
    (h : rule.path ∈ input.config.trustedMetadataPaths) :
    matchConditionResult rule.config input = do
      let actual := resolveTrustedPath input.metadata rule.path
      let matched ← unlessTypeError (applyOp actual rule.op rule.value)
      return {
        matched := matched
        details := .obj [("path", .str rule.path), ("op", rule.op), ("actual", actual),
          ("expected", rule.value)] } := by
  unfold matchConditionResult
  rw [rule.path_eq, rule.op_eq, rule.value_eq]
  exact if_pos h

theorem matchConditionResult_of_untrusted {input : MatchInput}
    (h : rule.path ∉ input.config.trustedMetadataPaths) :
    matchConditionResult rule.config input = .ok (pathNotTrusted (.str rule.path)) := by
  unfold matchConditionResult
  rw [rule.path_eq, rule.op_eq, rule.value_eq]
  exact if_neg h

/-! ## Written and evaluated -/

/-- The evaluation says that the path is not trusted. -/
def RejectedAsUntrusted : Prop :=
  ∃ result, matchConditionResult rule.config input = .ok result ∧
    result.details.get? "reason" = some (.str "path_not_trusted")

theorem rejectedAsUntrusted_iff :
    rule.RejectedAsUntrusted input ↔ rule.path ∉ input.config.trustedMetadataPaths := by
  constructor
  · rintro ⟨result, hresult, hreason⟩ htrusted
    rw [rule.matchConditionResult_of_trusted htrusted] at hresult
    rcases bind_eq_ok.1 hresult with ⟨matched, -, hdetails⟩
    cases hdetails
    cases hreason
  · intro huntrusted
    exact ⟨_, rule.matchConditionResult_of_untrusted huntrusted, rfl⟩

end ConditionRule

/-- `agent.orchestrator_config or {}` -/
def Scope.orchestratorConfig (scope : Scope) (agentId : Nat) : OrchestratorConfig :=
  ((scope.agent agentId).map Agent.config).getD {}

/-- The paths that a rule may have when it is written. -/
def OrchestratorConfig.writtenPaths (config : OrchestratorConfig) : List String :=
  if config.trustedMetadataPaths = [] then defaultTrustedPaths else config.trustedMetadataPaths

theorem assertPathTrusted_eq_ok_iff {path : String} {whitelist : List String} :
    assertPathTrusted (.str path) whitelist = .ok () ↔ path ∈ whitelist := by
  have hany : (whitelist.any fun trusted => pyEq (.str path) (.str trusted)) = true ↔
      path ∈ whitelist := by
    simp [pyEq]
  unfold assertPathTrusted
  by_cases h : path ∈ whitelist
  · rw [if_pos (hany.2 h)]
    exact ⟨fun _ => h, fun _ => rfl⟩
  · rw [if_neg (mt hany.1 h)]
    exact ⟨nofun, fun hmem => absurd hmem h⟩

theorem ConditionRule.checkMatchAgainstAgent_iff (rule : ConditionRule) (scope : Scope)
    (agentId : Nat) :
    checkMatchAgainstAgent scope agentId "condition" rule.config = .ok () ↔
      rule.path ∈ (scope.orchestratorConfig agentId).writtenPaths := by
  unfold checkMatchAgainstAgent
  rw [rule.path_eq]
  exact assertPathTrusted_eq_ok_iff

/-- The two checks agree on a rule exactly if the agent has trusted paths of its own, or the
path is not among the defaults. -/
theorem accepted_iff_trusted_iff (scope : Scope) (agentId : Nat) (rule : ConditionRule)
    (input : MatchInput) :
    (checkMatchAgainstAgent scope agentId "condition" rule.config = .ok () ↔
      ¬ rule.RejectedAsUntrusted { input with config := scope.orchestratorConfig agentId }) ↔
    (scope.orchestratorConfig agentId).trustedMetadataPaths ≠ [] ∨
      rule.path ∉ defaultTrustedPaths := by
  rw [rule.checkMatchAgainstAgent_iff, rule.rejectedAsUntrusted_iff, not_not]
  unfold OrchestratorConfig.writtenPaths
  by_cases hempty : (scope.orchestratorConfig agentId).trustedMetadataPaths = []
  · rw [if_pos hempty, hempty]
    simp
  · rw [if_neg hempty]
    exact ⟨fun _ => .inl hempty, fun _ => Iff.rfl⟩

/-- A rule for administrators. -/
def roleRule : ConditionMatchConfig where
  path := "user.role"
  op := "=="
  value := .str "admin"
  path_length := by decide
  op_mem := by decide
  shape := by decide

/-- An agent without trusted paths takes a rule about the role that never fires. -/
theorem accepted_rule_untrusted :
    ¬ ∀ (scope : Scope) (agentId : Nat) (rule : ConditionRule) (input : MatchInput),
        checkMatchAgainstAgent scope agentId "condition" rule.config = .ok () ↔
          ¬ rule.RejectedAsUntrusted { input with config := scope.orchestratorConfig agentId } := by
  intro h
  have hagree := h oneWorkflow 0 roleRule.rule
    { message := "", metadata := .obj [], config := {} }
  exact hagree.1 rfl ⟨_, rfl, rfl⟩

/-! ## Missing paths -/

/-- Every segment of the path is a key where it is looked up. -/
def HasSegments : List String → Json → Prop
  | [], _ => True
  | seg :: segs, .obj fields => ∃ next, fields.lookup seg = some next ∧ HasSegments segs next
  | _ :: _, _ => False

/-- The path exists among the trusted metadata. -/
def HasTrustedPath (metadata : Json) (path : String) : Prop :=
  HasSegments ((path.toList.splitOn '.').map String.ofList)
    ((metadata.get? "trusted").getD (.obj []))

theorem resolveSegments_of_missing {segs : List String} {cur : Json}
    (h : ¬ HasSegments segs cur) : resolveSegments segs cur = .null := by
  induction segs generalizing cur with
  | nil => exact absurd trivial h
  | cons seg segs ih =>
      cases cur with
      | obj fields =>
          cases hnext : fields.lookup seg with
          | none => simp only [resolveSegments, hnext]
          | some next =>
              have hrest : ¬ HasSegments segs next := fun hsegs => h ⟨next, hnext, hsegs⟩
              have hres := ih hrest
              cases next with
              | null => simp only [resolveSegments, hnext]
              | _ => simpa only [resolveSegments, hnext] using hres
      | _ => rfl

theorem resolveTrustedPath_of_missing {metadata : Json} {path : String}
    (h : ¬ HasTrustedPath metadata path) : resolveTrustedPath metadata path = .null :=
  resolveSegments_of_missing h

/-- The comparisons that a missing value satisfies: the negated ones with anything but `None`,
the others only with `None` itself. -/
inductive TakesMissing : Json → Json → Prop where
  | equal : TakesMissing (.str "==") .null
  | notEqual {value : Json} : value ≠ .null → TakesMissing (.str "!=") value
  | listed {values : List Json} : Json.null ∈ values → TakesMissing (.str "in") (.arr values)
  | notListed {values : List Json} : Json.null ∉ values →
      TakesMissing (.str "not_in") (.arr values)
  | notKey {fields : List (String × Json)} : TakesMissing (.str "not_in") (.obj fields)
  | notEmpty {value : Json} : value.truthy = false → TakesMissing (.str "not_in") value

theorem pyEq_null {value : Json} : pyEq .null value = true ↔ value = .null := by
  cases value <;> simp [pyEq]

theorem pyIn_orEmptyList_null {value : Json} :
    (pyIn .null (orEmptyList value) = .ok true ↔ ∃ values, value = .arr values ∧ Json.null ∈ values) ∧
      (pyIn .null (orEmptyList value) = .ok false ↔ value.truthy = false ∨
        (∃ values, value = .arr values ∧ Json.null ∉ values) ∨ ∃ fields, value = .obj fields) := by
  have hany : ∀ values : List Json, values.any (pyEq .null) = true ↔ Json.null ∈ values := by
    intro values
    rw [List.any_eq_true]
    exact ⟨fun ⟨value, hmem, heq⟩ => pyEq_null.1 heq ▸ hmem, fun hmem => ⟨_, hmem, rfl⟩⟩
  unfold orEmptyList
  by_cases htruthy : value.truthy = true
  · rw [if_pos htruthy]
    cases value with
    | arr values =>
        have hin : pyIn .null (.arr values) = .ok (values.any (pyEq .null)) := by simp [pyIn]
        rw [hin]
        by_cases hmem : Json.null ∈ values
        · simp [(hany values).2 hmem, hmem, htruthy]
        · have hfalse : values.any (pyEq .null) = false :=
            Bool.eq_false_iff.2 (mt (hany values).1 hmem)
          simp [hfalse, hmem]
    | obj fields => simp [pyIn]
    | str s => simp [pyIn, htruthy]
    | _ => simp_all [pyIn]
  · rw [if_neg htruthy]
    have hin : pyIn .null (.arr []) = .ok false := rfl
    rw [hin]
    refine ⟨⟨nofun, ?_⟩, fun _ => .inl (Bool.eq_false_iff.2 htruthy), fun _ => rfl⟩
    rintro ⟨values, rfl, hmem⟩
    cases values with
    | nil => exact absurd hmem List.not_mem_nil
    | cons _ _ => exact absurd rfl htruthy

theorem unlessTypeError_eq_true {result : Except Exn Bool} :
    unlessTypeError result = .ok true ↔ result = .ok true := by
  cases result with
  | ok matched => rfl
  | error e => cases e <;> simp [unlessTypeError]

theorem map_not_eq_true {result : Except Exn Bool} :
    (do return !(← result)) = (.ok true : Except Exn Bool) ↔ result = .ok false := by
  cases result with
  | ok matched => cases matched <;> simp [bind, Except.bind, pure, Except.pure]
  | error e => simp [bind, Except.bind]

/-- One operator at a time, the comparisons that `None` satisfies. -/
theorem applyOp_null_eq_true {op value : Json} :
    applyOp .null op value = .ok true ↔ TakesMissing op value := by
  constructor
  · intro h
    unfold applyOp at h
    split at h
    · rw [pyEq_null.1 (Except.ok.inj h)]
      exact .equal
    · refine .notEqual fun hnull => ?_
      rw [hnull] at h
      cases h
    · rcases pyIn_orEmptyList_null.1.1 h with ⟨values, rfl, hmem⟩
      exact .listed hmem
    · rcases pyIn_orEmptyList_null.2.1 (map_not_eq_true.1 h) with
        hfalsy | ⟨values, rfl, hmem⟩ | ⟨fields, rfl⟩
      · exact .notEmpty hfalsy
      · exact .notListed hmem
      · exact .notKey
    · cases h
    · cases h
    · cases h
    · cases h
    · cases h
    · cases h
  · intro h
    cases h with
    | equal => rfl
    | @notEqual value hvalue =>
        have hne : pyEq .null value = false := Bool.eq_false_iff.2 (mt pyEq_null.1 hvalue)
        show Except.ok (!pyEq .null value) = _
        rw [hne]
        rfl
    | listed hmem => exact pyIn_orEmptyList_null.1.2 ⟨_, rfl, hmem⟩
    | notListed hmem =>
        exact map_not_eq_true.2 (pyIn_orEmptyList_null.2.2 (.inr (.inl ⟨_, rfl, hmem⟩)))
    | notKey => exact map_not_eq_true.2 (pyIn_orEmptyList_null.2.2 (.inr (.inr ⟨_, rfl⟩)))
    | notEmpty hfalsy => exact map_not_eq_true.2 (pyIn_orEmptyList_null.2.2 (.inl hfalsy))

namespace ConditionRule

variable (rule : ConditionRule) (input : MatchInput)

/-- The rule matches the request. -/
def Matches : Prop := matchCondition rule.config input = .ok true

theorem matches_iff :
    rule.Matches input ↔ rule.path ∈ input.config.trustedMetadataPaths ∧
      applyOp (resolveTrustedPath input.metadata rule.path) rule.op rule.value = .ok true := by
  unfold Matches matchCondition
  rw [rule.path_eq, rule.op_eq, rule.value_eq]
  show (if _ then _ else _) = _ ↔ _
  by_cases htrusted : rule.path ∈ input.config.trustedMetadataPaths
  · rw [if_pos htrusted, unlessTypeError_eq_true]
    exact ⟨fun h => ⟨htrusted, h⟩, And.right⟩
  · rw [if_neg htrusted]
    exact ⟨nofun, fun h => absurd h.1 htrusted⟩

/-- A rule stays quiet on a request without its path exactly if the path is not trusted or the
comparison does not take a missing value. -/
theorem missing_path_iff :
    (¬ HasTrustedPath input.metadata rule.path → ¬ rule.Matches input) ↔
      HasTrustedPath input.metadata rule.path ∨
        rule.path ∉ input.config.trustedMetadataPaths ∨ ¬ TakesMissing rule.op rule.value := by
  by_cases hpath : HasTrustedPath input.metadata rule.path
  · exact ⟨fun _ => .inl hpath, fun _ hmissing => absurd hpath hmissing⟩
  · rw [matches_iff, resolveTrustedPath_of_missing hpath, applyOp_null_eq_true, not_and_or]
    exact ⟨fun h => .inr (h hpath), fun h _ => h.resolve_left hpath⟩

end ConditionRule

/-- A rule for every level but one. -/
def levelRule : ConditionMatchConfig where
  path := "user.level"
  op := "!="
  value := .str "vip"
  path_length := by decide
  op_mem := by decide
  shape := by decide

/-- The metadata of a user have no level, and the rule matches. -/
theorem missing_level_matches :
    ¬ ∀ (rule : ConditionRule) (input : MatchInput),
        ¬ HasTrustedPath input.metadata rule.path → ¬ rule.Matches input := by
  have hsegs : ("user.level".toList.splitOn '.').map String.ofList = ["user", "level"] := by decide
  have hmissing : ¬ HasTrustedPath (buildMetadata "1" "user" none none) "user.level" := by
    unfold HasTrustedPath
    rw [hsegs]
    rintro ⟨user, huser, hrest⟩
    cases huser
    rcases hrest with ⟨level, hlevel, -⟩
    cases hlevel
  intro h
  exact h levelRule.rule
    { message := "", metadata := buildMetadata "1" "user" none none
      config := { trustedMetadataPaths := ["user.level"] } } hmissing rfl

end OpsKnowledge.Orchestrator
