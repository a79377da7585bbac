import OpsKnowledge.Lib.Transition
import OpsKnowledge.Orchestrator.Engine
import OpsKnowledge.Orchestrator.RuleStore

/-!
# Stored rules are valid

A configuration that its schema accepts makes no matcher raise. `create_rule` and
`rollback_rule` store valid rules only; `update_rule` takes a configuration without its type
as it is, and any workflow.
-/

namespace OpsKnowledge.Orchestrator

open Workflow (Json)
open OpsKnowledge.Lib

/-! ## What an accepted configuration contains -/

theorem required_eq_ok {field : String} {raw value : Json} :
    required field raw = .ok value ↔ getItem field raw = .ok value := by
  unfold required
  cases getItem field raw with
  | error e => simp
  | ok v => simp

theorem strValue_eq_ok {field : String} {value : Json} {s : String}
    (h : strValue field value = .ok s) : value = .str s := by
  cases value with
  | str s' => cases h; rfl
  | null => cases h
  | bool b => cases h
  | num n => cases h
  | arr xs => cases h
  | obj fields => cases h

theorem strList_eq_ok {field : String} {value : Json} {ys : List String}
    (h : strList field value = .ok ys) :
    ∃ xs, value = .arr xs ∧ xs.mapM (strValue field) = .ok ys := by
  cases value with
  | arr xs => exact ⟨xs, rfl, h⟩
  | null => cases h
  | bool b => cases h
  | num n => cases h
  | str s => cases h
  | obj fields => cases h

theorem getItem_eq_ok {field : String} {raw value : Json} (h : getItem field raw = .ok value) :
    ∃ fields, raw = .obj fields ∧ fields.lookup field = some value := by
  cases raw with
  | obj fields =>
      refine ⟨fields, rfl, ?_⟩
      unfold getItem at h
      cases hlookup : fields.lookup field with
      | none =>
          simp only [hlookup] at h
          cases h
      | some v =>
          simp only [hlookup] at h
          cases h
          rfl
  | null => cases h
  | bool b => cases h
  | num n => cases h
  | str s => cases h
  | arr xs => cases h

theorem getField_eq_ok_of_getItem {field : String} {raw value : Json}
    (h : getItem field raw = .ok value) : getField field raw = .ok value := by
  rcases getItem_eq_ok h with ⟨fields, rfl, hlookup⟩
  simp [getField, hlookup]

/-- A field with a default is missing, or it is the one `d.get` gives. -/
theorem optional_eq_ok {field : String} {raw : Json} {value : Option Json}
    (h : optional field raw = .ok value) : getField field raw = .ok (value.getD .null) := by
  cases raw with
  | obj fields => cases h; rfl
  | null => cases h
  | bool b => cases h
  | num n => cases h
  | str s => cases h
  | arr xs => cases h

theorem ConditionMatchConfig.modelValidate_eq_ok {raw : Json} {config : ConditionMatchConfig}
    (h : modelValidate raw = .ok config) :
    getItem "path" raw = .ok (.str config.path) ∧ getItem "op" raw = .ok (.str config.op) ∧
      ∃ value, getItem "value" raw = .ok value ∧
        ConditionValue.modelValidate value = .ok config.value := by
  rcases bind_eq_ok.1 h with ⟨rawPath, hrawPath, h⟩
  rcases bind_eq_ok.1 h with ⟨path, hpath, h⟩
  rcases bind_eq_ok.1 h with ⟨rawOp, hrawOp, h⟩
  rcases bind_eq_ok.1 h with ⟨op, hop, h⟩
  rcases bind_eq_ok.1 h with ⟨rawValue, hrawValue, h⟩
  rcases bind_eq_ok.1 h with ⟨value, hvalue, h⟩
  rw [required_eq_ok] at hrawPath hrawOp hrawValue
  rw [strValue_eq_ok hpath] at hrawPath
  rw [strValue_eq_ok hop] at hrawOp
  split at h
  · split at h
    · split at h
      · cases h
        exact ⟨hrawPath, hrawOp, rawValue, hrawValue, hvalue⟩
      · split at h
        · cases h
        · cases h
    · cases h
  · cases h

theorem KeywordMatchConfig.modelValidate_eq_ok {raw : Json} {config : KeywordMatchConfig}
    (h : modelValidate raw = .ok config) :
    ∃ xs caseSensitive, getField "any_of" raw = .ok (.arr xs) ∧
      xs.mapM (strValue "any_of") = .ok config.anyOf ∧
      getField "case_sensitive" raw = .ok caseSensitive := by
  rcases bind_eq_ok.1 h with ⟨rawAnyOf, hrawAnyOf, h⟩
  rcases bind_eq_ok.1 h with ⟨anyOf, hanyOf, h⟩
  rcases bind_eq_ok.1 h with ⟨rawCase, hrawCase, h⟩
  rcases bind_eq_ok.1 h with ⟨caseSensitive, -, h⟩
  rcases strList_eq_ok hanyOf with ⟨xs, hlist, hxs⟩
  rw [required_eq_ok, hlist] at hrawAnyOf
  split at h
  · cases h
    exact ⟨xs, _, getField_eq_ok_of_getItem hrawAnyOf, hxs, optional_eq_ok hrawCase⟩
  · cases h

theorem RegexMatchConfig.modelValidate_eq_ok {library : Library} {raw : Json}
    {config : RegexMatchConfig library} (h : modelValidate library raw = .ok config) :
    getItem "pattern" raw = .ok (.str config.pattern) ∧
      (getField "flags" raw = .ok .null ∧ config.flags = "" ∨
        getField "flags" raw = .ok (.str config.flags)) := by
  rcases bind_eq_ok.1 h with ⟨rawPattern, hrawPattern, h⟩
  rcases bind_eq_ok.1 h with ⟨pattern, hpattern, h⟩
  rcases bind_eq_ok.1 h with ⟨rawFlags, hrawFlags, h⟩
  rcases bind_eq_ok.1 h with ⟨flags, hflags, h⟩
  rw [required_eq_ok, strValue_eq_ok hpattern] at hrawPattern
  have hfield := optional_eq_ok hrawFlags
  have hcases : getField "flags" raw = .ok .null ∧ flags = "" ∨
      getField "flags" raw = .ok (.str flags) := by
    cases rawFlags with
    | none =>
        cases hflags
        exact .inl ⟨hfield, rfl⟩
    | some value =>
        right
        rw [← strValue_eq_ok hflags]
        exact hfield
  split at h
  · split at h
    · split at h
      · cases h
        exact ⟨hrawPattern, hcases⟩
      · cases h
    · cases h
  · cases h

theorem LLMIntentMatchConfig.modelValidate_eq_ok {raw : Json} {config : LLMIntentMatchConfig}
    (h : modelValidate raw = .ok config) :
    getItem "category" raw = .ok (.str config.category) := by
  rcases bind_eq_ok.1 h with ⟨rawCategory, hrawCategory, h⟩
  rcases bind_eq_ok.1 h with ⟨category, hcategory, h⟩
  rw [required_eq_ok, strValue_eq_ok hcategory] at hrawCategory
  split at h
  · cases h
    exact hrawCategory
  · cases h

/-! ## Matchers do not raise -/

theorem ordered_cases (test : Ordering → Bool) (actual expected : Json) :
    (∃ b, ordered test actual expected = .ok b) ∨
      ∃ msg, ordered test actual expected = .error (.typeError msg) := by
  unfold ordered
  split
  · exact .inl ⟨_, rfl⟩
  · split
    · exact .inr ⟨_, rfl⟩
    · exact .inl ⟨_, rfl⟩

theorem unlessTypeError_of_cases {result : Except Exn Bool}
    (h : (∃ b, result = .ok b) ∨ ∃ msg, result = .error (.typeError msg)) :
    ∃ b, unlessTypeError result = .ok b := by
  rcases h with ⟨b, rfl⟩ | ⟨msg, rfl⟩
  · exact ⟨b, rfl⟩
  · exact ⟨false, rfl⟩

theorem orEmptyList_arr (xs : List Json) : orEmptyList (.arr xs) = .arr xs := by
  cases xs with
  | nil => rfl
  | cons x xs => rfl

/-- With a known operator, and a list where it needs one, only a `TypeError` can be raised. -/
theorem applyOp_total {op : String} (hop : op ∈ conditionOperators) {expected : Json}
    (hlist : op ∈ listOperators → ∃ xs, expected = .arr xs) (actual : Json) :
    ∃ b, unlessTypeError (applyOp actual (.str op) expected) = .ok b := by
  apply unlessTypeError_of_cases
  simp only [conditionOperators, List.mem_cons, List.not_mem_nil, or_false] at hop
  rcases hop with rfl | rfl | rfl | rfl | rfl | rfl | rfl | rfl
  · exact .inl ⟨_, rfl⟩
  · exact .inl ⟨_, rfl⟩
  · rcases hlist (by decide) with ⟨xs, rfl⟩
    left
    refine ⟨xs.any (pyEq actual), ?_⟩
    show pyIn actual (orEmptyList (.arr xs)) = _
    rw [orEmptyList_arr]
    rfl
  · rcases hlist (by decide) with ⟨xs, rfl⟩
    left
    refine ⟨!xs.any (pyEq actual), ?_⟩
    show (do return !(← pyIn actual (orEmptyList (.arr xs)))) = _
    rw [orEmptyList_arr]
    rfl
  · exact ordered_cases _ actual expected
  · exact ordered_cases _ actual expected
  · exact ordered_cases _ actual expected
  · exact ordered_cases _ actual expected

theorem ConditionValue.modelValidate_list {raw : Json} {value : ConditionValue}
    (h : modelValidate raw = .ok value) (hlist : value.isList = true) : ∃ xs, raw = .arr xs := by
  cases raw with
  | arr xs => exact ⟨xs, rfl⟩
  | str s => cases h; cases hlist
  | num n => cases h; cases hlist
  | bool b => cases h; cases hlist
  | null => cases h
  | obj fields => cases h

theorem matchCondition_total {raw : Json} {config : ConditionMatchConfig}
    (h : ConditionMatchConfig.modelValidate raw = .ok config) (input : MatchInput) :
    ∃ b, matchCondition raw input = .ok b := by
  rcases ConditionMatchConfig.modelValidate_eq_ok h with ⟨hpath, hop, value, hvalue, hvalid⟩
  have hlist : config.op ∈ listOperators → ∃ xs, value = .arr xs := by
    intro hop
    exact ConditionValue.modelValidate_list hvalid (config.shape.1 hop)
  simp only [matchCondition, hpath, hop, hvalue, bind, Except.bind]
  split
  · exact applyOp_total config.op_mem hlist _
  · exact ⟨false, rfl⟩

theorem matchKeyword_total {library : Library} {raw : Json} {config : KeywordMatchConfig}
    (h : KeywordMatchConfig.modelValidate raw = .ok config) (input : MatchInput) :
    ∃ b, matchKeyword library raw input = .ok b := by
  rcases KeywordMatchConfig.modelValidate_eq_ok h with ⟨xs, caseSensitive, hanyOf, hxs, hcase⟩
  have hhits : ∃ hits, xs.mapM (keywordHit library caseSensitive.truthy input.message) =
      .ok hits := by
    apply exists_mapM_eq_ok
    intro kw hkw
    rcases List.forall₂_iff_get.1 (mapM_eq_ok.1 hxs) with ⟨hlen, hall⟩
    rcases List.mem_iff_get.1 hkw with ⟨⟨i, hi⟩, rfl⟩
    rw [strValue_eq_ok (hall i hi (hlen ▸ hi))]
    exact ⟨_, rfl⟩
  rcases hhits with ⟨hits, hhits⟩
  refine ⟨hits.any id, ?_⟩
  simp only [matchKeyword, hanyOf, hcase, orEmptyList_arr, elements, hhits, bind, Except.bind]
  rfl

theorem flagsToRe_total {flags : String} (h : ∀ c ∈ flags.toList, c ∈ flagLetters) :
    ∃ letters, flagsToRe (.str flags) = .ok letters := by
  apply exists_mapM_eq_ok
  intro flag hflag
  rcases List.mem_map.1 hflag with ⟨c, hc, rfl⟩
  have hletter := h c hc
  simp only [flagLetters, List.mem_cons, List.not_mem_nil, or_false] at hletter
  rcases hletter with rfl | rfl | rfl
  · exact ⟨_, rfl⟩
  · exact ⟨_, rfl⟩
  · exact ⟨_, rfl⟩

theorem matchRegex_total {library : Library} {raw : Json} {config : RegexMatchConfig library}
    (h : RegexMatchConfig.modelValidate library raw = .ok config) (input : MatchInput) :
    ∃ b, matchRegex library raw input = .ok b := by
  rcases RegexMatchConfig.modelValidate_eq_ok h with ⟨hpattern, hflags⟩
  rcases flagsToRe_total config.flags_subset with ⟨letters, hletters⟩
  have hread : ∃ flags, getField "flags" raw = .ok flags ∧
      flagsToRe (if flags.truthy then flags else .str "") = .ok letters := by
    rcases hflags with ⟨hnull, hempty⟩ | hstr
    · refine ⟨.null, hnull, ?_⟩
      rw [hempty] at hletters
      exact hletters
    · refine ⟨_, hstr, ?_⟩
      by_cases hempty : config.flags = ""
      · rw [hempty] at hletters ⊢
        exact hletters
      · rw [if_pos (by simpa [Workflow.Json.truthy] using hempty)]
        exact hletters
  rcases hread with ⟨flags, hfield, hre⟩
  simp only [matchRegex, hpattern, hfield, hre, bind, Except.bind]
  cases library.compile config.pattern letters with
  | none => exact ⟨false, rfl⟩
  | some search => exact ⟨search input.message, rfl⟩

theorem matchLlmIntent_total {raw : Json} {config : LLMIntentMatchConfig}
    (h : LLMIntentMatchConfig.modelValidate raw = .ok config) (input : MatchInput) :
    ∃ b, matchLlmIntent raw input = .ok b := by
  have hcategory := LLMIntentMatchConfig.modelValidate_eq_ok h
  simp only [matchLlmIntent, hcategory, bind, Except.bind]
  cases input.classifierResult with
  | none => exact ⟨false, rfl⟩
  | some result => exact ⟨_, rfl⟩

/-- The configuration validates against the schema of the type. -/
def ValidMatch (library : Library) (matchType : String) (matchConfig : Json) : Prop :=
  ∃ normal, normalizeMatchConfig library matchType matchConfig = .ok normal

theorem matcher_total {library : Library} {matchType : String} {matchConfig : Json}
    (h : ValidMatch library matchType matchConfig) {matcher : Json → MatchInput → Except Exn Bool}
    (hmatcher : matchers library matchType = some matcher) (input : MatchInput) :
    ∃ b, matcher matchConfig input = .ok b := by
  rcases h with ⟨normal, hnormal⟩
  unfold normalizeMatchConfig at hnormal
  rcases matchers_eq_some hmatcher with ⟨rfl, rfl⟩ | ⟨rfl, rfl⟩ | ⟨rfl, rfl⟩ | ⟨rfl, rfl⟩
  · rw [if_pos rfl] at hnormal
    rcases bind_eq_ok.1 hnormal with ⟨config, hconfig, -⟩
    exact matchCondition_total hconfig input
  · rw [if_neg (by decide), if_pos rfl] at hnormal
    rcases bind_eq_ok.1 hnormal with ⟨config, hconfig, -⟩
    exact matchKeyword_total hconfig input
  · rw [if_neg (by decide), if_neg (by decide), if_pos rfl] at hnormal
    rcases bind_eq_ok.1 hnormal with ⟨config, hconfig, -⟩
    exact matchRegex_total hconfig input
  · rw [if_neg (by decide), if_neg (by decide), if_neg (by decide), if_pos rfl] at hnormal
    rcases bind_eq_ok.1 hnormal with ⟨config, hconfig, -⟩
    exact matchLlmIntent_total hconfig input

theorem evaluateFrom_total {env : Env} {input : MatchInput} {skip : List Nat}
    {rules : List AgentRule}
    (h : ∀ rule ∈ rules, ValidMatch env.toLibrary rule.matchType rule.matchConfig)
    (tried : List Nat) (out : Option ClassifierOutput) (session : Session) :
    ∃ decision, (evaluateFrom env input skip rules tried out session).1 = .ok decision := by
  induction rules generalizing tried out session with
  | nil => exact ⟨_, rfl⟩
  | cons rule rules ih =>
      rw [List.forall_mem_cons] at h
      unfold evaluateFrom
      split
      · exact ih h.2 tried out session
      · cases hmatcher : matchers env.toLibrary rule.matchType with
        | none => exact ih h.2 _ out session
        | some matcher =>
            dsimp only
            rcases matcher_total h.1 hmatcher { input with
                classifierResult := (noteJudged rule
                  (classifyFirst env input rule out session).2).classifierResult } with ⟨b, hb⟩
            rw [hb]
            cases b with
            | true => exact ⟨_, rfl⟩
            | false => exact ih h.2 _ _ _

/-! ## Valid stores -/

section Validity

variable (library : Library) (scope : Scope) (round : ℚ → ℚ)

/-- The handler is a workflow of the agent. -/
def Owned (agentId : Nat) (handlerId : Option Nat) : Prop :=
  ∃ workflowId, handlerId = some workflowId ∧ scope.workflowOwner workflowId = some (some agentId)

structure RuleValid (rule : AgentRule) : Prop where
  matching : ValidMatch library rule.matchType rule.matchConfig
  handler : Owned scope rule.agentId rule.handlerId

/-- Every rule is valid, and no evaluation of an agent's rules raises. -/
structure StoreValid (s : RuleStore) : Prop where
  rules : ∀ rule ∈ s.rules, RuleValid library scope rule
  evaluates : ∀ (env : Env), env.toLibrary = library →
    ∀ (agentId : Nat) (tie : AgentRule → Nat) (input : MatchInput) (skip : List Nat)
      (session : Session),
      ∃ decision, (evaluate env input (s.activeRules agentId tie) skip session).1 = .ok decision

/-- An update brings no configuration that fails its rule's schema, and no handler but a workflow
of the agent. -/
def UpdateValid (s : RuleStore) (agentId ruleId : Nat) (body : AgentRuleUpdate) : Prop :=
  ∀ rule ∈ s.rules, rule.id = ruleId →
    (body.matchType = none → ∀ config, body.matchConfig = some (some config) →
      ValidMatch library rule.matchType config) ∧
    ∀ handlerId, body.handlerId = some handlerId → Owned scope agentId handlerId

def StepValid (s : RuleStore) : RuleOp → Prop
  | .update agentId ruleId body => UpdateValid library scope s agentId ruleId body
  | _ => True

/-- Valid as rules of their agents are also the stored versions. -/
structure HistoryValid (s : RuleStore) : Prop where
  wf : s.Wf
  rules : ∀ rule ∈ s.rules, RuleValid library scope rule
  versions : ∀ row ∈ s.versions, ∀ rule ∈ s.rules, rule.id = row.ruleId →
    ValidMatch library row.matchType row.matchConfig ∧ Owned scope rule.agentId row.handlerId

end Validity

section Steps

variable {library : Library} {scope : Scope} {round : ℚ → ℚ} {s s' : RuleStore}

theorem storeValid_of_rules (h : ∀ rule ∈ s.rules, RuleValid library scope rule) :
    StoreValid library scope s := by
  refine ⟨h, ?_⟩
  rintro env rfl agentId tie input skip session
  apply evaluateFrom_total
  intro rule hrule
  have hactive := List.mem_filter.1 (mem_orderBy.1 hrule)
  exact (h rule (List.mem_filter.1 hactive.1).1).matching

theorem HistoryValid.empty : HistoryValid library scope {} := ⟨.empty, nofun, nofun⟩

theorem HistoryValid.insert (hs : HistoryValid library scope s) {rule : AgentRule}
    (hfresh : ∀ row ∈ s.rules, row.id ≠ rule.id) (hversion : rule.version = 1)
    (hvalid : RuleValid library scope rule) :
    HistoryValid library scope
      { rules := s.rules ++ [rule], versions := s.versions ++ [rule.snapshot] } where
  wf := hs.wf.insert hfresh hversion
  rules := by
    intro r hr
    rcases mem_concat.1 hr with hold | hnew
    · exact hs.rules r hold
    · rw [hnew]
      exact hvalid
  versions := by
    intro row hrow r hr hrid
    rcases mem_concat.1 hrow with holdRow | hnewRow
    · rcases hs.wf.kept row holdRow with ⟨owner, howner, heq⟩
      rcases mem_concat.1 hr with hold | hnew
      · exact hs.versions row holdRow r hold hrid
      · rw [hnew] at hrid
        exact absurd (heq.trans hrid.symm) (hfresh owner howner)
    · rcases mem_concat.1 hr with hold | hnew
      · rw [hnewRow] at hrid
        exact absurd hrid (hfresh r hold)
      · rw [hnewRow, hnew]
        exact ⟨hvalid.matching, hvalid.handler⟩

theorem HistoryValid.saved (hs : HistoryValid library scope s) {rule rule' : AgentRule}
    (hrule : rule ∈ s.rules) (hid : rule'.id = rule.id) (hagent : rule'.agentId = rule.agentId)
    (hversion : rule'.version = rule.nextVersion) (hvalid : RuleValid library scope rule') :
    HistoryValid library scope (s.saved rule') where
  wf := hs.wf.saved hrule hid hversion
  rules := by
    intro r hr
    rcases (RuleStore.mem_setRow hrule hid).1 hr with rfl | ⟨hold, -⟩
    · exact hvalid
    · exact hs.rules r hold
  versions := by
    intro row hrow r hr hrid
    rcases (RuleStore.mem_setRow hrule hid).1 hr with rfl | ⟨hold, hne⟩
    · rcases mem_concat.1 hrow with hrow | hnew
      · rw [hagent]
        exact hs.versions row hrow rule hrule (hid.symm.trans hrid)
      · rw [hnew]
        exact ⟨hvalid.matching, hvalid.handler⟩
    · rcases mem_concat.1 hrow with hrow | hnew
      · exact hs.versions row hrow r hold hrid
      · rw [hnew] at hrid
        exact absurd (hrid.trans hid) hne

theorem HistoryValid.delete (hs : HistoryValid library scope s) (ruleId : Nat) :
    HistoryValid library scope
      { rules := s.rules.filter fun rule => rule.id ≠ ruleId
        versions := s.versions.filter fun row => row.ruleId ≠ ruleId } where
  wf := hs.wf.delete ruleId
  rules rule hrule := hs.rules rule (List.mem_filter.1 hrule).1
  versions row hrow rule hrule :=
    hs.versions row (List.mem_filter.1 hrow).1 rule (List.mem_filter.1 hrule).1

/-- Priorities do not matter. -/
theorem HistoryValid.setRow (hs : HistoryValid library scope s) {rule : AgentRule}
    (hrule : rule ∈ s.rules) (priority : ℚ) :
    HistoryValid library scope (s.setRow { rule with priority := priority }) where
  wf := hs.wf.setRow hrule priority
  rules := by
    intro r hr
    rcases (RuleStore.mem_setRow hrule (by rfl)).1 hr with rfl | ⟨hold, -⟩
    · exact ⟨(hs.rules rule hrule).matching, (hs.rules rule hrule).handler⟩
    · exact hs.rules r hold
  versions := by
    intro row hrow r hr hrid
    rcases (RuleStore.mem_setRow hrule (by rfl)).1 hr with rfl | ⟨hold, -⟩
    · exact hs.versions row hrow rule hrule hrid
    · exact hs.versions row hrow r hold hrid

theorem HistoryValid.reprioritised (hs : HistoryValid library scope s) (priority : AgentRule → ℚ) :
    HistoryValid library scope (s.reprioritised priority) where
  wf := hs.wf.reprioritised priority
  rules := by
    intro r hr
    rcases List.mem_map.1 hr with ⟨rule, hrule, rfl⟩
    exact ⟨(hs.rules rule hrule).matching, (hs.rules rule hrule).handler⟩
  versions := by
    intro row hrow r hr hrid
    rcases List.mem_map.1 hr with ⟨rule, hrule, rfl⟩
    exact hs.versions row hrow rule hrule hrid

theorem owned_of_assert {agentId : Nat} {handlerId : Option Nat} (hsome : handlerId ≠ none)
    (h : assertHandlerWorkflowOwned scope agentId handlerId = .ok ()) :
    Owned scope agentId handlerId := by
  cases handlerId with
  | none => exact absurd rfl hsome
  | some workflowId =>
      unfold assertHandlerWorkflowOwned at h
      cases howner : scope.workflowOwner workflowId with
      | none =>
          simp only [howner] at h
          cases h
      | some owner =>
          simp only [howner] at h
          by_cases hagent : owner = some agentId
          · exact ⟨workflowId, rfl, by rw [howner, hagent]⟩
          · rw [if_neg hagent] at h
            cases h

/-! ## One update -/

section Update

variable {rule rule' : AgentRule} {body data : AgentRuleUpdate}

/-- A `null` configuration does not pass the response. -/
theorem not_checkResponse_null (h : rule.matchConfig = .null) : checkResponse rule ≠ .ok () := by
  intro hresponse
  rcases bind_eq_ok.1 hresponse with ⟨⟨⟩, hdict, -⟩
  rw [h] at hdict
  cases hdict

theorem updated_matching_iff (hvalid : ValidMatch library rule.matchType rule.matchConfig)
    (hcheck : body.check library = .ok data) (hupdated : rule.updated data = .ok rule')
    (hresponse : checkResponse rule' = .ok ()) :
    ValidMatch library rule'.matchType rule'.matchConfig ↔
      (body.matchType = none → ∀ config, body.matchConfig = some (some config) →
        ValidMatch library rule.matchType config) := by
  rcases AgentRuleUpdate.check_eq_ok hcheck with ⟨htype, -, hconfig⟩
  rcases RuleStore.updated_eq_ok hupdated with ⟨-, -, -, -, -, hcolumn, hjson, -⟩
  rw [htype] at hcolumn
  cases hbodyType : body.matchType with
  | none =>
      rw [hbodyType] at hcolumn hconfig
      have hsame : rule.matchType = rule'.matchType := Except.ok.inj hcolumn
      have hkept : body.matchConfig = data.matchConfig := Except.ok.inj hconfig
      rw [← hsame]
      rw [← hkept] at hjson
      cases hbodyConfig : body.matchConfig with
      | none =>
          rw [hbodyConfig] at hjson
          rw [hjson]
          constructor
          · intro _ _ config heq
            cases heq
          · intro _
            exact hvalid
      | some config =>
          rw [hbodyConfig] at hjson
          cases config with
          | none => exact absurd hresponse (not_checkResponse_null hjson)
          | some config =>
              rw [hjson]
              constructor
              · intro h _ config' heq
                cases heq
                exact h
              · intro h
                exact h rfl config rfl
  | some matchType =>
      rw [hbodyType] at hcolumn hconfig
      cases matchType with
      | none => cases hcolumn
      | some matchType =>
          have hsame : matchType.value = rule'.matchType := Except.ok.inj hcolumn
          rw [← hsame]
          have hnormal : ValidMatch library matchType.value rule'.matchConfig := by
            unfold checkedMatchConfig at hconfig
            cases hraw : body.matchConfig.join with
            | none =>
                rw [hraw] at hconfig
                cases hconfig
            | some raw =>
                rw [hraw] at hconfig
                rcases bind_eq_ok.1 hconfig with ⟨normal, hnormal, hdata⟩
                have hstored : some (some normal) = data.matchConfig := Except.ok.inj hdata
                rw [hjson, ← hstored]
                exact ⟨normal, normalizeMatchConfig_idem hnormal⟩
          constructor
          · intro _ h
            cases h
          · intro _
            exact hnormal

theorem updated_handler_iff (howned : Owned scope rule.agentId rule.handlerId)
    (hcheck : body.check library = .ok data) (hupdated : rule.updated data = .ok rule') :
    Owned scope rule'.agentId rule'.handlerId ↔
      ∀ handlerId, body.handlerId = some handlerId → Owned scope rule.agentId handlerId := by
  rcases AgentRuleUpdate.check_eq_ok hcheck with ⟨-, hhandler, -⟩
  rcases RuleStore.updated_eq_ok hupdated with ⟨-, hagent, -, -, -, -, -, hid⟩
  rw [hagent, hid, hhandler]
  cases body.handlerId with
  | none =>
      constructor
      · intro _ handlerId heq
        cases heq
      · intro _
        exact howned
  | some handlerId =>
      constructor
      · intro h handlerId' heq
        cases heq
        exact h
      · intro h
        exact h handlerId rfl

theorem updated_valid_iff (hs : HistoryValid library scope s) (hrule : rule ∈ s.rules)
    (hcheck : body.check library = .ok data) (hupdated : rule.updated data = .ok rule')
    (hresponse : checkResponse rule' = .ok ()) :
    RuleValid library scope rule' ↔ UpdateValid library scope s rule.agentId rule.id body := by
  have hvalid := hs.rules rule hrule
  have hmatching := updated_matching_iff hvalid.matching hcheck hupdated hresponse
  have hhandler := updated_handler_iff hvalid.handler hcheck hupdated
  constructor
  · intro h row hrow hid
    rw [hs.wf.eq_of_id_eq hrow hrule hid]
    exact ⟨hmatching.1 h.matching, hhandler.1 h.handler⟩
  · intro h
    rcases h rule hrule rfl with ⟨hm, hh⟩
    exact ⟨hmatching.2 hm, hhandler.2 hh⟩

end Update

/-! ## Whole runs -/

theorem step_valid {op : RuleOp} (hs : HistoryValid library scope s)
    (h : s.step library scope round op = some s') :
    (StoreValid library scope s' → StepValid library scope s op) ∧
      (StepValid library scope s op → HistoryValid library scope s') := by
  rw [RuleStore.step_eq_some] at h
  cases op with
  | create agentId ruleId now body =>
      refine ⟨fun _ => trivial, fun _ => ?_⟩
      rcases RuleStore.createRule_eq_ok h with ⟨data, hcheck, howned, hfresh, rfl⟩
      rcases AgentRuleCreate.check_eq_ok hcheck with ⟨-, hsome, hnormal⟩
      have hmatching : ValidMatch library data.matchType.value data.matchConfig :=
        ⟨data.matchConfig, normalizeMatchConfig_idem hnormal⟩
      exact hs.insert hfresh rfl ⟨hmatching, owned_of_assert hsome howned⟩
  | update agentId ruleId body =>
      rcases RuleStore.updateRule_eq_ok h with
        ⟨data, rule, rule', hcheck, hrule, rfl, rfl, hupdated, hresponse, rfl⟩
      rcases RuleStore.updated_eq_ok hupdated with ⟨hid, hagent, -, -, hversion, -⟩
      have hiff := updated_valid_iff hs hrule hcheck hupdated hresponse
      constructor
      · intro hvalid
        exact hiff.1 (hvalid.rules rule' ((RuleStore.mem_setRow hrule hid).2 (.inl rfl)))
      · intro hstep
        exact hs.saved hrule hid hagent hversion (hiff.2 hstep)
  | rollback agentId ruleId version =>
      refine ⟨fun _ => trivial, fun _ => ?_⟩
      rcases RuleStore.rollbackRule_eq_ok h with ⟨rule, target, hrule, hid, -, htarget, rfl⟩
      have hfound := List.find?_some htarget
      rw [decide_eq_true_eq] at hfound
      have hversion := hs.versions target (List.mem_of_find?_eq_some htarget) rule hrule
        (hid.trans hfound.1.symm)
      exact hs.saved hrule rfl rfl rfl ⟨hversion.1, hversion.2⟩
  | delete agentId ruleId =>
      refine ⟨fun _ => trivial, fun _ => ?_⟩
      rw [RuleStore.deleteRule_eq_ok h]
      exact hs.delete ruleId
  | move agentId ruleId afterRuleId tie =>
      refine ⟨fun _ => trivial, fun _ => ?_⟩
      rcases RuleStore.moveRule_eq_ok h with ⟨rule, priority, hrule, -, -, -, rfl⟩
      exact hs.setRow hrule priority
  | rebalance tie =>
      refine ⟨fun _ => trivial, fun _ => ?_⟩
      cases h
      rcases RuleStore.priorityRebalance_eq scope round s tie with ⟨priority, heq⟩
      rw [heq]
      exact hs.reprioritised priority

end Steps

/-- Every store that a run reaches is valid exactly if none of its updates brings an invalid
configuration or a foreign handler. -/
theorem rules_valid_iff (library : Library) (scope : Scope) (round : ℚ → ℚ) (ops : List RuleOp) :
    Visits (RuleStore.step library scope round) (StoreValid library scope) {} ops ↔
      EveryStep (RuleStore.step library scope round) (StepValid library scope) {} ops :=
  visits_iff_everyStep_of_companion (fun _ hs => storeValid_of_rules hs.rules)
    (fun _ _ _ hs h => step_valid hs h) .empty ops

theorem twoWorkflows_agents : ([{ id := 0 }].map Agent.id).Nodup := List.nodup_singleton 0

/-- Agent 0 owns workflow 7, agent 1 workflow 8. -/
def twoWorkflows : Scope where
  agents := [{ id := 0 }]
  workflowOwner workflowId :=
    if workflowId = 7 then some (some 0) else if workflowId = 8 then some (some 1) else none
  agent_ids := twoWorkflows_agents

/-- A keyword rule is created, then gets other keywords and the other workflow. -/
def editedRule : List RuleOp := [
  .create 0 0 0 (helpBody none),
  .update 0 0 {
    matchConfig := some (some (.obj [("any_of", .num 5)]))
    handlerId := some (some 8) }]

/-- The update is accepted: its number is no list of keywords, and evaluations raise. -/
theorem edited_rule_invalid :
    ¬ ∀ (library : Library) (scope : Scope) (round : ℚ → ℚ) (ops : List RuleOp),
        Visits (RuleStore.step library scope round) (StoreValid library scope) {} ops := by
  intro h
  have hrun : ∃ s, runSteps (RuleStore.step plainLibrary twoWorkflows id) {} editedRule = some s ∧
      ∃ rule ∈ s.rules, rule.matchType = "keyword" ∧
        rule.matchConfig = .obj [("any_of", .num 5)] :=
    ⟨_, rfl, _, List.mem_cons_self, rfl, rfl⟩
  rcases hrun with ⟨s, hrun, rule, hrule, htype, hconfig⟩
  have hvalid := ((h plainLibrary twoWorkflows id editedRule).last hrun).rules rule hrule
  rcases hvalid.matching with ⟨normal, hnormal⟩
  rw [htype, hconfig] at hnormal
  cases hnormal

end OpsKnowledge.Orchestrator
