import OpsKnowledge.Orchestrator.Route

/-!
# One classification for a request

How often a routed request calls the LLM, and which results its `llm_intent` rules are
compared with. Every attempt classifies anew when it gets to such a rule.
-/

namespace OpsKnowledge.Orchestrator

open Workflow (Json)

/-- The LLM is called at most once, and all `llm_intent` rules see one result. -/
structure ClassifiedOnce (session : Session) : Prop where
  calls : session.llmCalls ≤ 1
  same : ∀ v ∈ session.judged, ∀ w ∈ session.judged, v = w

/-- The evaluation gets to an `llm_intent` rule: no rule before it fires or raises. -/
def reachesIntent (library : Library) (input : MatchInput) (skip : List Nat) :
    List AgentRule → Bool
  | [] => false
  | rule :: rules =>
      if rule.id ∈ skip ∨ rule.isActive = false then reachesIntent library input skip rules
      else if rule.matchType = "llm_intent" then true
      else
        match matchers library rule.matchType with
        | none => reachesIntent library input skip rules
        | some matcher =>
            match matcher rule.matchConfig input with
            | .ok false => reachesIntent library input skip rules
            | _ => false

section Attempts

variable (outside : Outside) (rules : List AgentRule) (request : RouteRequest)

/-- The condition holds before each round of the loop. -/
def EveryAttempt (C : RouteState → Prop) : Nat → RouteState → Prop
  | 0, _ => True
  | n + 1, state =>
      C state ∧ ((attempt outside rules request state).1 = none →
        EveryAttempt C n (attempt outside rules request state).2)

/-- If the attempt classifies, the answer is the one that the earlier attempts compared with,
and comes from the cache where an earlier attempt has called the LLM. -/
def ClassifiesAlike (state : RouteState) : Prop :=
  ∀ classifierCfg, request.config.classifier = some classifierCfg →
    reachesIntent outside.toLibrary (matchInput request) state.skip rules = true →
      (∀ v ∈ state.session.judged,
        (classify outside.toEnv classifierCfg state.session.classified).verdict = v) ∧
      (asksLlm outside.toEnv classifierCfg state.session.classified = true →
        state.session.llmCalls = 0)

end Attempts

/-! ## The session of one evaluation -/

section Evaluate

variable {env : Env} {input : MatchInput}

theorem classifyFirst_of_ne {rule : AgentRule} (h : rule.matchType ≠ "llm_intent")
    (out : Option ClassifierOutput) (session : Session) :
    classifyFirst env input rule out session = (out, session) := by
  simp [classifyFirst, h]

theorem noteJudged_of_ne {rule : AgentRule} (h : rule.matchType ≠ "llm_intent")
    (session : Session) : noteJudged rule session = session := by
  unfold noteJudged
  split
  · rfl
  · rw [if_neg h]

/-- Without a classifier the session stays as it is. -/
theorem evaluateFrom_unconfigured (hconfig : input.config.classifier = none) {skip : List Nat}
    {rules : List AgentRule} {tried : List Nat} {session : Session}
    (hresult : session.classifierResult = none) :
    (evaluateFrom env input skip rules tried none session).2 = session := by
  induction rules generalizing tried with
  | nil => rfl
  | cons rule rules ih =>
      have hclassify : classifyFirst env input rule none session = (none, session) := by
        simp [classifyFirst, hconfig]
      have hjudged : noteJudged rule session = session := by
        simp [noteJudged, hresult]
      unfold evaluateFrom
      split
      · exact ih
      · split
        · exact ih
        · simp only [hclassify, hjudged]
          split
          · rfl
          · rfl
          · exact ih

/-- `m` more comparisons with one result. -/
def Session.judge (session : Session) (v : String × ℚ) (m : Nat) : Session :=
  { session with judged := session.judged ++ List.replicate m v }

theorem Session.judge_zero (session : Session) (v : String × ℚ) : session.judge v 0 = session := by
  cases session
  simp [Session.judge]

theorem Session.judge_judge (session : Session) (v : String × ℚ) (m m' : Nat) :
    (session.judge v m).judge v m' = session.judge v (m + m') := by
  simp [Session.judge, List.append_assoc]

/-- Once classified, further `llm_intent` rules see the same result. -/
theorem evaluateFrom_classified {out : ClassifierOutput} {skip : List Nat} {rules : List AgentRule}
    {tried : List Nat} {session : Session} (hresult : session.classifierResult = some out) :
    ∃ m, (evaluateFrom env input skip rules tried (some out) session).2 =
      session.judge out.verdict m := by
  induction rules generalizing tried session with
  | nil => exact ⟨0, (session.judge_zero _).symm⟩
  | cons rule rules ih =>
      have hclassify : classifyFirst env input rule (some out) session = (some out, session) := by
        simp [classifyFirst]
      -- One rule adds at most one comparison.
      have hjudged : ∃ m, noteJudged rule session = session.judge out.verdict m := by
        by_cases hllm : rule.matchType = "llm_intent"
        · exact ⟨1, by simp [noteJudged, hresult, hllm, Session.judge]⟩
        · exact ⟨0, by rw [noteJudged_of_ne hllm, Session.judge_zero]⟩
      unfold evaluateFrom
      split
      · exact ih hresult
      · split
        · exact ih hresult
        · rcases hjudged with ⟨m, hm⟩
          simp only [hclassify, hm]
          split
          · exact ⟨m, rfl⟩
          · exact ⟨m, rfl⟩
          · have hrest : ∃ m', (evaluateFrom env input skip rules (tried ++ [rule.id]) (some out)
                (session.judge out.verdict m)).2 =
                  (session.judge out.verdict m).judge out.verdict m' := ih hresult
            rcases hrest with ⟨m', hm'⟩
            exact ⟨m + m', by rw [hm', Session.judge_judge]⟩

/-- The session after the classification number `classified`. -/
def Session.classify (session : Session) (env : Env) (classifierCfg : ClassifierConfig) : Session :=
  { session with
    classifierResult := some (Orchestrator.classify env classifierCfg session.classified)
    classified := session.classified + 1
    llmCalls :=
      if asksLlm env classifierCfg session.classified then session.llmCalls + 1
      else session.llmCalls }

/-- An evaluation that gets to an `llm_intent` rule classifies once and compares at least one
rule with the result; any other leaves the session as it is. -/
theorem evaluateFrom_session {classifierCfg : ClassifierConfig}
    (hconfig : input.config.classifier = some classifierCfg) {skip : List Nat}
    {rules : List AgentRule} {tried : List Nat} {session : Session} :
    if reachesIntent env.toLibrary input skip rules = true then
      ∃ m, (evaluateFrom env input skip rules tried none session).2 =
        (session.classify env classifierCfg).judge
          (classify env classifierCfg session.classified).verdict (m + 1)
    else (evaluateFrom env input skip rules tried none session).2 = session := by
  induction rules generalizing tried with
  | nil => rfl
  | cons rule rules ih =>
      by_cases hskip : rule.id ∈ skip ∨ rule.isActive = false
      · simp only [reachesIntent, evaluateFrom, if_pos hskip]
        exact ih
      · by_cases hllm : rule.matchType = "llm_intent"
        · have hmatcher : matchers env.toLibrary rule.matchType = some matchLlmIntent := by
            rw [hllm]
            rfl
          have hclassify : classifyFirst env input rule none session =
              (some (classify env classifierCfg session.classified),
                session.classify env classifierCfg) := by
            simp [classifyFirst, hllm, hconfig, Session.classify]
          have hjudged : noteJudged rule (session.classify env classifierCfg) =
              (session.classify env classifierCfg).judge
                (classify env classifierCfg session.classified).verdict 1 := by
            simp [noteJudged, Session.classify, hllm, Session.judge]
          have hreaches : reachesIntent env.toLibrary input skip (rule :: rules) = true := by
            simp [reachesIntent, hskip, hllm]
          rw [if_pos hreaches]
          simp only [evaluateFrom, if_neg hskip, hmatcher, hclassify, hjudged]
          split
          · exact ⟨0, rfl⟩
          · exact ⟨0, rfl⟩
          · have hrest : ∃ m, (evaluateFrom env input skip rules (tried ++ [rule.id])
                (some (classify env classifierCfg session.classified))
                ((session.classify env classifierCfg).judge
                  (classify env classifierCfg session.classified).verdict 1)).2 =
                ((session.classify env classifierCfg).judge
                  (classify env classifierCfg session.classified).verdict 1).judge
                    (classify env classifierCfg session.classified).verdict m :=
              evaluateFrom_classified rfl
            rcases hrest with ⟨m, hm⟩
            exact ⟨m, by rw [hm, Session.judge_judge, Nat.add_comm]⟩
        · simp only [reachesIntent, evaluateFrom, if_neg hskip, if_neg hllm]
          cases hmatcher : matchers env.toLibrary rule.matchType with
          | none => exact ih
          | some matcher =>
              -- Other matchers do not look at the result.
              have hcongr : matcher rule.matchConfig
                  { input with classifierResult := session.classifierResult } =
                    matcher rule.matchConfig input :=
                matcher_congr hmatcher rule.matchConfig input fun h => absurd h hllm
              simp only [classifyFirst_of_ne hllm, noteJudged_of_ne hllm, hcongr]
              cases matcher rule.matchConfig input with
              | error e => simp
              | ok fires =>
                  cases fires with
                  | true => simp
                  | false => exact ih

end Evaluate

/-! ## The session of a request -/

/-- A session only gains calls and comparisons. -/
theorem ClassifiedOnce.of_grown {session session' : Session} (h : ClassifiedOnce session')
    (hcalls : session.llmCalls ≤ session'.llmCalls) (hjudged : session.judged ⊆ session'.judged) :
    ClassifiedOnce session :=
  ⟨hcalls.trans h.calls, fun v hv w hw => h.same v (hjudged hv) w (hjudged hw)⟩

/-- One more classification, followed by comparisons with its result. -/
theorem classifiedOnce_classify_iff {env : Env} {classifierCfg : ClassifierConfig}
    {session : Session} (h : ClassifiedOnce session) (m : Nat) :
    ClassifiedOnce ((session.classify env classifierCfg).judge
        (classify env classifierCfg session.classified).verdict (m + 1)) ↔
      (∀ v ∈ session.judged, (classify env classifierCfg session.classified).verdict = v) ∧
        (asksLlm env classifierCfg session.classified = true → session.llmCalls = 0) := by
  have hjudged : ∀ v, v ∈ ((session.classify env classifierCfg).judge
      (classify env classifierCfg session.classified).verdict (m + 1)).judged ↔
        v ∈ session.judged ∨ v = (classify env classifierCfg session.classified).verdict := by
    intro v
    simp [Session.judge, Session.classify]
  have hcalls : ((session.classify env classifierCfg).judge
      (classify env classifierCfg session.classified).verdict (m + 1)).llmCalls =
        if asksLlm env classifierCfg session.classified then session.llmCalls + 1
        else session.llmCalls := rfl
  constructor
  · intro honce
    refine ⟨?_, ?_⟩
    · intro v hv
      exact honce.same _ ((hjudged _).2 (.inr rfl)) v ((hjudged v).2 (.inl hv))
    · intro hasks
      have hle := honce.calls
      rw [hcalls, if_pos hasks] at hle
      omega
  · rintro ⟨hsame, hfirst⟩
    refine ⟨?_, ?_⟩
    · rw [hcalls]
      split
      · next hasks => rw [hfirst hasks]
      · exact h.calls
    · intro v hv w hw
      rcases (hjudged v).1 hv with hv | rfl
      · rcases (hjudged w).1 hw with hw | rfl
        · exact h.same v hv w hw
        · exact (hsame v hv).symm
      · rcases (hjudged w).1 hw with hw | rfl
        · exact hsame w hw
        · rfl

section Request

variable (outside : Outside) (rules : List AgentRule) {request : RouteRequest}

theorem attempt_session (state : RouteState) :
    (attempt outside rules request state).2.session =
      (evaluate outside.toEnv (matchInput request) rules state.skip state.session).2 := by
  have hattempted := attempted outside rules request state
  cases hattempt : attempt outside rules request state with
  | mk result final =>
  rw [hattempt] at hattempted
  cases hattempted with
  | unevaluated heval => rw [heval]
  | unmatched heval hrule => rw [heval]
  | undispatched heval hrule => rw [heval]
  | dispatched heval hrule hdispatch hafter =>
      have hsession := (dispatchAndTrace_spec hdispatch).2.2.2.2
      rw [heval]
      cases hafter with
      | handled | returned | next | useDefault => exact hsession

/-- Without a classifier there is no result in the configuration. -/
def Unclassified (request : RouteRequest) (state : RouteState) : Prop :=
  request.config.classifier = none → state.session.classifierResult = none

theorem attempt_session_configured {classifierCfg : ClassifierConfig}
    (hconfig : request.config.classifier = some classifierCfg) (state : RouteState) :
    if reachesIntent outside.toLibrary (matchInput request) state.skip rules = true then
      ∃ m, (attempt outside rules request state).2.session =
        (state.session.classify outside.toEnv classifierCfg).judge
          (classify outside.toEnv classifierCfg state.session.classified).verdict (m + 1)
    else (attempt outside rules request state).2.session = state.session := by
  have hconfig' : (matchInput request).config.classifier = some classifierCfg := hconfig
  rw [attempt_session]
  exact evaluateFrom_session hconfig'

theorem attempt_session_unconfigured (hconfig : request.config.classifier = none)
    {state : RouteState} (h : Unclassified request state) :
    (attempt outside rules request state).2.session = state.session := by
  have hconfig' : (matchInput request).config.classifier = none := hconfig
  rw [attempt_session, evaluate, evaluateFrom_unconfigured hconfig' (h hconfig)]

theorem unclassified_attempt {state : RouteState} (h : Unclassified request state) :
    Unclassified request (attempt outside rules request state).2 := by
  intro hconfig
  rw [attempt_session_unconfigured outside rules hconfig h]
  exact h hconfig

theorem attempt_session_grows {state : RouteState} (h : Unclassified request state) :
    state.session.llmCalls ≤ (attempt outside rules request state).2.session.llmCalls ∧
      state.session.judged ⊆ (attempt outside rules request state).2.session.judged := by
  cases hconfig : request.config.classifier with
  | none =>
      rw [attempt_session_unconfigured outside rules hconfig h]
      exact ⟨Nat.le_refl _, List.Subset.refl _⟩
  | some classifierCfg =>
      have hsession := attempt_session_configured outside rules hconfig state
      split at hsession
      · rcases hsession with ⟨m, hm⟩
        rw [hm]
        refine ⟨?_, List.subset_append_left _ _⟩
        show state.session.llmCalls ≤ if asksLlm outside.toEnv classifierCfg
          state.session.classified then state.session.llmCalls + 1 else state.session.llmCalls
        split
        · omega
        · omega
      · rw [hsession]
        exact ⟨Nat.le_refl _, List.Subset.refl _⟩

/-- An attempt of a request that classified once keeps to that exactly under
`ClassifiesAlike`. -/
theorem classifiedOnce_attempt_iff {state : RouteState} (h : Unclassified request state)
    (honce : ClassifiedOnce state.session) :
    ClassifiedOnce (attempt outside rules request state).2.session ↔
      ClassifiesAlike outside rules request state := by
  cases hconfig : request.config.classifier with
  | none =>
      rw [attempt_session_unconfigured outside rules hconfig h]
      refine ⟨fun _ => ?_, fun _ => honce⟩
      intro classifierCfg hsome
      rw [hconfig] at hsome
      cases hsome
  | some classifierCfg =>
      have hsession := attempt_session_configured outside rules hconfig state
      by_cases hreaches : reachesIntent outside.toLibrary (matchInput request) state.skip rules = true
      · rw [if_pos hreaches] at hsession
        rcases hsession with ⟨m, hm⟩
        rw [hm, classifiedOnce_classify_iff honce m]
        constructor
        · intro halike classifierCfg' hsome _
          rw [hconfig] at hsome
          cases hsome
          exact halike
        · intro halike
          exact halike classifierCfg hconfig hreaches
      · rw [if_neg hreaches] at hsession
        rw [hsession]
        exact ⟨fun _ _ _ hreaches' => absurd hreaches' hreaches, fun _ => honce⟩

/-- A request that classified once in the end did so before every attempt. -/
theorem cascade_once_of_later (n : Nat) {state : RouteState} (h : Unclassified request state)
    (hend : ClassifiedOnce (cascade outside rules request n state).2.session) :
    ClassifiedOnce state.session := by
  induction n generalizing state with
  | zero => exact hend
  | succ n ih =>
      rcases attempt_session_grows outside rules h with ⟨hcalls, hjudged⟩
      have hnext := unclassified_attempt outside rules h
      unfold cascade at hend
      cases hattempt : attempt outside rules request state with
      | mk result after =>
      rw [hattempt] at hend hcalls hjudged hnext
      cases result with
      | some result => exact hend.of_grown hcalls hjudged
      | none => exact (ih hnext hend).of_grown hcalls hjudged

theorem classifiedOnce_cascade_iff (n : Nat) {state : RouteState}
    (h : Unclassified request state) (honce : ClassifiedOnce state.session) :
    ClassifiedOnce (cascade outside rules request n state).2.session ↔
      EveryAttempt outside rules request (ClassifiesAlike outside rules request) n state := by
  induction n generalizing state with
  | zero => exact ⟨fun _ => trivial, fun _ => honce⟩
  | succ n ih =>
      have hstep := classifiedOnce_attempt_iff outside rules h honce
      have hnext := unclassified_attempt outside rules h
      unfold cascade EveryAttempt
      cases hattempt : attempt outside rules request state with
      | mk result after =>
      rw [hattempt] at hstep hnext
      cases result with
      | some result =>
          simp only
          rw [hstep]
          exact ⟨fun h => ⟨h, fun hnone => by cases hnone⟩, fun h => h.1⟩
      | none =>
          simp only
          constructor
          · intro hend
            -- What is classified twice stays so until the end.
            have hafter : ClassifiedOnce after.session := cascade_once_of_later outside rules n hnext hend
            exact ⟨hstep.1 hafter, fun _ => (ih hnext hafter).1 hend⟩
          · rintro ⟨halike, hrest⟩
            exact (ih hnext (hstep.2 halike)).2 (hrest trivial)

theorem route_session {handler : DefaultHandler} (h : request.config.defaultHandler = some handler) :
    (route outside rules request).2.session =
      (cascade outside rules request maxAttempts {}).2.session := by
  unfold route
  simp only [h]
  split
  · next state hcascade =>
      rw [hcascade]
      split
      · rfl
      · next outcome after hdispatch => exact (dispatchAndTrace_spec hdispatch).2.2.2.2
  · rfl

end Request

/-- A request classifies once iff each of its attempts that gets to an `llm_intent` rule is
answered like the first one, without a second call of the LLM. -/
theorem route_classifiedOnce_iff (outside : Outside) (rules : List AgentRule)
    (request : RouteRequest) :
    ClassifiedOnce (route outside rules request).2.session ↔
      (request.config.defaultHandler.isSome →
        EveryAttempt outside rules request (ClassifiesAlike outside rules request)
          maxAttempts {}) := by
  have honce : ClassifiedOnce {} := ⟨by decide, nofun⟩
  cases hdefault : request.config.defaultHandler with
  | none =>
      have hsession : (route outside rules request).2.session = {} := by
        unfold route
        rw [hdefault]
      rw [hsession]
      exact ⟨fun _ => nofun, fun _ => honce⟩
  | some handler =>
      have hunclassified : Unclassified request {} := fun _ => rfl
      rw [route_session outside rules hdefault,
        classifiedOnce_cascade_iff outside rules maxAttempts hunclassified honce]
      exact ⟨fun h _ => h, fun h => h rfl⟩

/-! ## A classifier without a cache -/

def intentRule (id : Nat) (category : String) : AgentRule where
  id := id
  agentId := 0
  priority := id
  matchType := "llm_intent"
  matchConfig := .obj [("category", .str category)]
  handlerId := some id
  onHandlerError := "fallback_next"

/-- The LLM answers `billing`, then `network`; every handler crashes. -/
def waveringLlm : Outside :=
  { crashingHandlers with llm := fun k => some (if k = 0 then "billing" else "network", 1) }

/-- The rule for `billing` fails, and the next attempt asks again. -/
theorem uncached_classified_twice :
    ¬ ∀ (outside : Outside) (rules : List AgentRule) (request : RouteRequest),
        ClassifiedOnce (route outside rules request).2.session := by
  intro h
  have honce := (h waveringLlm [intentRule 0 "billing", intentRule 1 "network"]
    { config := {
        classifier := some { modelRegistryId := 0, categories := [], cacheTtlSeconds := 0 }
        defaultHandler := some {} }
      userMessage := "my bill" }).calls
  exact absurd honce (by decide +kernel)

end OpsKnowledge.Orchestrator
