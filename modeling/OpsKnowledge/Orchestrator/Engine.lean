import OpsKnowledge.Orchestrator.Matchers

/-!
# The matching engine

`engine.evaluate` with the lazy classification. What Redis and the LLM answer to the
classifications of one request is a parameter: the answers to the `k`-th one, if it asks.
-/

namespace OpsKnowledge.Orchestrator

open Workflow (Json)

/-- What lies outside of a request. `redis` answers with the stored category and confidence,
or `none` for a miss or an exception; `llm` with the parsed answer, or `none` where
`chat_by_registry` raises. -/
structure Env extends Library where
  redis : Nat → Option (String × ℚ)
  llm : Nat → Option (String × ℚ)

/-- `classify` asks the LLM unless the cache is on and has an entry. -/
def asksLlm (env : Env) (classifierCfg : ClassifierConfig) (k : Nat) : Bool :=
  !(decide (0 < classifierCfg.cacheTtlSeconds) && (env.redis k).isSome)

/-- The `k`-th classification of a request. -/
def classify (env : Env) (classifierCfg : ClassifierConfig) (k : Nat) : ClassifierOutput :=
  let raw := if 0 < classifierCfg.cacheTtlSeconds then env.redis k else none
  match raw with
  | some (category, confidence) =>
      { category := category, confidence := confidence, cached := true }
  | none =>
      match env.llm k with
      | none => { category := "__unknown__", confidence := 0, cached := false }
      | some (category, confidence) =>
          { category := category, confidence := confidence, cached := false }

/-- What a classification result is compared by. -/
def ClassifierOutput.verdict (out : ClassifierOutput) : String × ℚ := (out.category, out.confidence)

/-- What the attempts of one request share: the `_classifier_result` in the configuration and
the number of classifications. `llmCalls` and `judged` are not in the source: the calls of the
LLM, and the results that `llm_intent` rules were compared with. -/
structure Session where
  classifierResult : Option ClassifierOutput := none
  classified : Nat := 0
  llmCalls : Nat := 0
  judged : List (String × ℚ) := []
  deriving DecidableEq, Repr

structure EngineDecision where
  matchedRule : Option AgentRule
  matchTypeUsed : String
  triedRuleIds : List Nat
  classifierOutput : Option ClassifierOutput

section Evaluate

variable (env : Env) (input : MatchInput)

/-- The classification before an `llm_intent` rule, unless this evaluation has one. -/
def classifyFirst (rule : AgentRule) (classifierOutput : Option ClassifierOutput)
    (session : Session) : Option ClassifierOutput × Session :=
  if rule.matchType = "llm_intent" ∧ classifierOutput = none then
    match input.config.classifier with
    | none => (none, session)
    | some classifierCfg =>
        let out := classify env classifierCfg session.classified
        (some out, { session with
          classifierResult := some out
          classified := session.classified + 1
          llmCalls :=
            if asksLlm env classifierCfg session.classified then session.llmCalls + 1
            else session.llmCalls })
  else (classifierOutput, session)

/-- The comparison of an `llm_intent` rule with the result in the configuration. -/
def noteJudged (rule : AgentRule) (session : Session) : Session :=
  match session.classifierResult with
  | none => session
  | some out =>
      if rule.matchType = "llm_intent" then
        { session with judged := session.judged ++ [out.verdict] }
      else session

/-- The loop of `evaluate` from the rules still to come. What was classified stays, also where
a matcher raises. -/
def evaluateFrom (skip : List Nat) :
    List AgentRule → List Nat → Option ClassifierOutput → Session →
      Except Exn EngineDecision × Session
  | [], tried, classifierOutput, session =>
      (.ok { matchedRule := none, matchTypeUsed := "default", triedRuleIds := tried,
             classifierOutput := classifierOutput }, session)
  | rule :: rules, tried, classifierOutput, session =>
      if rule.id ∈ skip ∨ rule.isActive = false then
        evaluateFrom skip rules tried classifierOutput session
      else
        match matchers env.toLibrary rule.matchType with
        | none => evaluateFrom skip rules (tried ++ [rule.id]) classifierOutput session
        | some matcher =>
            let (classifierOutput, session) := classifyFirst env input rule classifierOutput session
            let session := noteJudged rule session
            match matcher rule.matchConfig
                { input with classifierResult := session.classifierResult } with
            | .error e => (.error e, session)
            | .ok true =>
                (.ok { matchedRule := some rule, matchTypeUsed := rule.matchType,
                       triedRuleIds := tried ++ [rule.id],
                       classifierOutput := classifierOutput }, session)
            | .ok false => evaluateFrom skip rules (tried ++ [rule.id]) classifierOutput session

def evaluate (rules : List AgentRule) (skipRuleIds : List Nat) (session : Session) :
    Except Exn EngineDecision × Session :=
  evaluateFrom env input skipRuleIds rules [] none session

end Evaluate

/-! ## The decision under a fixed classification -/

/-- Every classification of the request has one result. -/
def FixedClassification (env : Env) (config : OrchestratorConfig) (verdict : String × ℚ) : Prop :=
  ∀ classifierCfg, config.classifier = some classifierCfg →
    ∀ k, (classify env classifierCfg k).verdict = verdict

/-- The answer of a rule's matcher, given the result of the classification. -/
def ruleAnswer (library : Library) (input : MatchInput) (verdict : String × ℚ) (rule : AgentRule) :
    Except Exn Bool :=
  match matchers library rule.matchType with
  | none => .ok false
  | some matcher =>
      matcher rule.matchConfig { input with
        classifierResult := input.config.classifier.map fun _ =>
          { category := verdict.1, confidence := verdict.2, cached := false } }

/-- The rule is active and its matcher fires. -/
def Eligible (library : Library) (input : MatchInput) (verdict : String × ℚ)
    (rule : AgentRule) : Bool :=
  rule.isActive && match ruleAnswer library input verdict rule with
    | .ok true => true
    | _ => false

/-- Only `llm_intent` rules look at the classification, and only at category and confidence. -/
theorem matcher_congr {library : Library} {matchType : String}
    {matcher : Json → MatchInput → Except Exn Bool}
    (hmatcher : matchers library matchType = some matcher) (config : Json) (input : MatchInput)
    {result result' : Option ClassifierOutput}
    (h : matchType = "llm_intent" →
      result.map ClassifierOutput.verdict = result'.map ClassifierOutput.verdict) :
    matcher config { input with classifierResult := result } =
      matcher config { input with classifierResult := result' } := by
  rcases matchers_eq_some hmatcher with ⟨-, rfl⟩ | ⟨-, rfl⟩ | ⟨-, rfl⟩ | ⟨hllm, rfl⟩
  · rfl
  · rfl
  · rfl
  · have hverdict := h hllm
    cases result with
    | none =>
        cases result' with
        | none => rfl
        | some out' => cases hverdict
    | some out =>
        cases result' with
        | none => cases hverdict
        | some out' =>
            rcases Prod.mk.inj (Option.some.inj hverdict) with ⟨hcategory, hconfidence⟩
            simp only [matchLlmIntent, hcategory, hconfidence]

/-- What an evaluation has classified is in the configuration, and without a classifier
nothing is. -/
structure Consistent (input : MatchInput) (verdict : String × ℚ)
    (out : Option ClassifierOutput) (session : Session) : Prop where
  current : ∀ o, out = some o → session.classifierResult = some o ∧ o.verdict = verdict
  unconfigured : input.config.classifier = none → session.classifierResult = none

@[simp] theorem noteJudged_classifierResult (rule : AgentRule) (session : Session) :
    (noteJudged rule session).classifierResult = session.classifierResult := by
  unfold noteJudged
  split
  · rfl
  · split
    · rfl
    · rfl

section Fixed

variable {env : Env} {input : MatchInput} {verdict : String × ℚ}
  (hfixed : FixedClassification env input.config verdict)
include hfixed

theorem classifyFirst_consistent {out : Option ClassifierOutput} {session : Session}
    (h : Consistent input verdict out session) (rule : AgentRule) :
    Consistent input verdict (classifyFirst env input rule out session).1
      (noteJudged rule (classifyFirst env input rule out session).2) := by
  unfold classifyFirst
  split
  · cases hconfig : input.config.classifier with
    | none =>
        refine ⟨nofun, ?_⟩
        intro _
        simpa using h.unconfigured hconfig
    | some classifierCfg =>
        refine ⟨?_, ?_⟩
        · intro o ho
          cases ho
          simpa using hfixed classifierCfg hconfig session.classified
        · intro hnone
          rw [hconfig] at hnone
          cases hnone
  · refine ⟨?_, ?_⟩
    · intro o ho
      simpa using h.current o ho
    · intro hnone
      simpa using h.unconfigured hnone

/-- An `llm_intent` rule is compared with the fixed result. -/
theorem classifyFirst_verdict {out : Option ClassifierOutput} {session : Session}
    (h : Consistent input verdict out session) {rule : AgentRule}
    (hllm : rule.matchType = "llm_intent") :
    (classifyFirst env input rule out session).2.classifierResult.map ClassifierOutput.verdict =
      input.config.classifier.map fun _ => verdict := by
  unfold classifyFirst
  cases out with
  | some o =>
      rcases h.current o rfl with ⟨hresult, hverdict⟩
      cases hconfig : input.config.classifier with
      | none => rw [h.unconfigured hconfig] at hresult; cases hresult
      | some classifierCfg => simp [hresult, hverdict]
  | none =>
      cases hconfig : input.config.classifier with
      | none => simp [hllm, h.unconfigured hconfig]
      | some classifierCfg => simp [hllm, hfixed classifierCfg hconfig session.classified]

/-- The decision is the first eligible rule that is not skipped. -/
theorem evaluateFrom_spec {skip : List Nat} {rules : List AgentRule} {tried : List Nat}
    {out : Option ClassifierOutput} {session session' : Session} {decision : EngineDecision}
    (h : Consistent input verdict out session)
    (hrun : evaluateFrom env input skip rules tried out session = (.ok decision, session')) :
    decision.matchedRule = rules.find? (fun rule =>
        decide (rule.id ∉ skip) && Eligible env.toLibrary input verdict rule) ∧
      Consistent input verdict none session' := by
  induction rules generalizing tried out session with
  | nil =>
      cases hrun
      exact ⟨rfl, nofun, h.unconfigured⟩
  | cons rule rules ih =>
      unfold evaluateFrom at hrun
      by_cases hskip : rule.id ∈ skip ∨ rule.isActive = false
      · rw [if_pos hskip] at hrun
        have hno : (decide (rule.id ∉ skip) && Eligible env.toLibrary input verdict rule) =
            false := by
          rcases hskip with hskip | hactive
          · simp [hskip]
          · simp [Eligible, hactive]
        rw [List.find?_cons, hno]
        exact ih h hrun
      · rw [if_neg hskip] at hrun
        rcases not_or.1 hskip with ⟨hfresh, hactive⟩
        rw [Bool.not_eq_false] at hactive
        cases hmatcher : matchers env.toLibrary rule.matchType with
        | none =>
            rw [hmatcher] at hrun
            have hno : (decide (rule.id ∉ skip) && Eligible env.toLibrary input verdict rule) =
                false := by
              simp [Eligible, ruleAnswer, hmatcher]
            rw [List.find?_cons, hno]
            exact ih h hrun
        | some matcher =>
            rw [hmatcher] at hrun
            -- The classification, if any, comes before the matcher.
            have hcons := classifyFirst_consistent hfixed h rule
            have hresult : matcher rule.matchConfig { input with
                classifierResult := (noteJudged rule
                  (classifyFirst env input rule out session).2).classifierResult } =
                ruleAnswer env.toLibrary input verdict rule := by
              simp only [ruleAnswer, hmatcher, noteJudged_classifierResult]
              apply matcher_congr hmatcher
              intro hllm
              rw [classifyFirst_verdict hfixed h hllm]
              cases input.config.classifier <;> rfl
            simp only [hresult] at hrun
            cases hanswer : ruleAnswer env.toLibrary input verdict rule with
            | error e => rw [hanswer] at hrun; cases hrun
            | ok fires =>
                rw [hanswer] at hrun
                cases fires with
                | true =>
                    cases hrun
                    refine ⟨?_, nofun, hcons.unconfigured⟩
                    simp [Eligible, hanswer, hfresh, hactive]
                | false =>
                    have hno : (decide (rule.id ∉ skip) &&
                        Eligible env.toLibrary input verdict rule) = false := by
                      simp [Eligible, hanswer]
                    rw [List.find?_cons, hno]
                    exact ih hcons hrun

end Fixed

end OpsKnowledge.Orchestrator
