import OpsKnowledge.Orchestrator.Route
import OpsKnowledge.Lib.Text

/-!
# Caller metadata does not route

`run_orchestrator_pipeline` wraps what the caller supplies under `input`, and every lookup
of a matcher starts at `trusted`. The workflow adapter calls `run_stream`, which
`ExecutionService` does not have, so that it ends with an error whatever its inputs are.
-/

namespace OpsKnowledge.Orchestrator

open Workflow (Json)

/-! ## The workflow adapter -/

/-- `d.get(key, {})` -/
def getDict (key : String) : Json → Except Exn Json
  | .obj fields => .ok ((fields.lookup key).getD (.obj []))
  | _ => .error (.attributeError "get")

def resolveText (metadata : Json) (userMessage template : String) : Except Exn Json :=
  if template = "$message" then .ok (.str userMessage)
  else if Lib.startsWith "$metadata." template then
    let path := Lib.removePrefix "$metadata." template
    .ok (resolveSegments ((path.toList.splitOn '.').map String.ofList) metadata)
  else if Lib.startsWith "$user." template then do
    let trusted ← getDict "trusted" (if metadata.truthy then metadata else .obj [])
    let user ← getDict "user" trusted
    getField (Lib.removePrefix "$user." template) user
  else .ok (.str template)

mutual

def resolveTemplate (metadata : Json) (userMessage : String) : Json → Except Exn Json
  | .obj fields => do return .obj (← resolveFields metadata userMessage fields)
  | .arr xs => do return .arr (← resolveItems metadata userMessage xs)
  | .str template => resolveText metadata userMessage template
  | template => .ok template

def resolveFields (metadata : Json) (userMessage : String) :
    List (String × Json) → Except Exn (List (String × Json))
  | [] => .ok []
  | (key, template) :: fields => do
      let value ← resolveTemplate metadata userMessage template
      let rest ← resolveFields metadata userMessage fields
      return (key, value) :: rest

def resolveItems (metadata : Json) (userMessage : String) : List Json → Except Exn (List Json)
  | [] => .ok []
  | template :: templates => do
      let value ← resolveTemplate metadata userMessage template
      let rest ← resolveItems metadata userMessage templates
      return value :: rest

end

def workflowInputs (request : DispatchRequest) : Except Exn Json := do
  let mapping ← getField "input_mapping" request.handlerConfig
  resolveTemplate request.metadata request.userMessage
    (if mapping.truthy then mapping else .obj [("query", .str "$message")])

def errorEvent (message : String) : OrchestratorEvent where
  type := "error"
  data := .obj [("message", .str message)]

/-- `WorkflowAdapter.dispatch` -/
def workflowAdapter (request : DispatchRequest) : HandlerRun :=
  match request.handlerId with
  | none => { events := [errorEvent "workflow handler missing handler_id"] }
  | some _ =>
      match workflowInputs request with
      | .error (.attributeError name) => { crash := some s!"object has no attribute '{name}'" }
      | .error _ => { crash := some "" }
      | .ok _ => { events := [errorEvent
          "workflow dispatch failed: 'ExecutionService' object has no attribute 'run_stream'"] }

/-! ## The pipeline -/

structure PipelineRequest where
  config : OrchestratorConfig
  query : String
  userId : String
  userRole : String := "user"
  userDepartmentId : Option String := none
  metadata : Option Json := none

def pipelineMetadata (request : PipelineRequest) : Json :=
  buildMetadata request.userId request.userRole request.userDepartmentId request.metadata

def pipelineOutside (env : Env) (traceFails : Nat → Bool) : Outside :=
  { env with adapter := fun _ => workflowAdapter, traceFails := traceFails }

def pipelineRoute (request : PipelineRequest) : RouteRequest where
  config := request.config
  userMessage := request.query
  userId := some request.userId
  userRole := request.userRole
  userDepartmentId := request.userDepartmentId
  metadata := some (pipelineMetadata request)

/-- The call of `route` in `run_orchestrator_pipeline`. -/
def runOrchestratorPipeline (env : Env) (traceFails : Nat → Bool) (rules : List AgentRule)
    (request : PipelineRequest) : Except Exn Ending × RouteState :=
  route (pipelineOutside env traceFails) rules (pipelineRoute request)

/-! ## What matchers see -/

section Match

variable {library : Library} {env : Env} {input : MatchInput} {metadata : Json}

/-- A matcher sees nothing of the metadata but `trusted`. -/
theorem matcher_congr_metadata (h : input.metadata.get? "trusted" = metadata.get? "trusted")
    {matchType : String} {matcher : Json → MatchInput → Except Exn Bool}
    (hmatcher : matchers library matchType = some matcher) (config : Json)
    (result : Option ClassifierOutput) :
    matcher config { input with classifierResult := result } =
      matcher config { input with metadata := metadata, classifierResult := result } := by
  rcases matchers_eq_some hmatcher with ⟨-, rfl⟩ | ⟨-, rfl⟩ | ⟨-, rfl⟩ | ⟨-, rfl⟩
  · simp only [matchCondition, resolveTrustedPath, h]
  · rfl
  · rfl
  · rfl

theorem evaluateFrom_congr_metadata (h : input.metadata.get? "trusted" = metadata.get? "trusted")
    {skip : List Nat} {rules : List AgentRule} {tried : List Nat} {out : Option ClassifierOutput}
    {session : Session} :
    evaluateFrom env input skip rules tried out session =
      evaluateFrom env { input with metadata := metadata } skip rules tried out session := by
  induction rules generalizing tried out session with
  | nil => rfl
  | cons rule rules ih =>
      unfold evaluateFrom
      split
      · exact ih
      · cases hmatcher : matchers env.toLibrary rule.matchType with
        | none => exact ih
        | some matcher =>
            have hclassify : classifyFirst env { input with metadata := metadata } rule out session =
                classifyFirst env input rule out session := rfl
            simp only [hclassify, ← matcher_congr_metadata h hmatcher]
            split
            · rfl
            · rfl
            · exact ih

end Match

/-! ## Two requests that differ in the metadata -/

/-- The two runs have come to the same point: same decisions and dispatches so far. -/
structure SameRun (state state' : RouteState) : Prop where
  session : state.session = state'.session
  skip : state.skip = state'.skip
  dispatched : state.dispatched = state'.dispatched
  log : dispatches state.log = dispatches state'.log

/-- Both blobs give a handler the same outcome. -/
def SameOutcomes (adapter : Nat → DispatchRequest → HandlerRun) (metadata metadata' : Json) :
    Prop :=
  ∀ n (request : DispatchRequest),
    handlerOutcome (adapter n { request with metadata := metadata }) =
      handlerOutcome (adapter n { request with metadata := metadata' })

section TwoRuns

variable {outside : Outside} (traceFails : Nat → Bool) (rules : List AgentRule)
  {request : RouteRequest} {metadata : Option Json} {state state' : RouteState}

theorem dispatchAndTrace_congr
    (houtcomes : SameOutcomes outside.adapter (routeMetadata request)
      (routeMetadata { request with metadata := metadata }))
    (h : SameRun state state') (rule : Option AgentRule) (handlerType : String)
    (handlerId : Option Nat) (handlerConfig : Json) (row row' : DispatchOutcome → TraceRow) :
    (∃ e, dispatchAndTrace outside request rule handlerType handlerId handlerConfig row state =
        .error e ∧
      dispatchAndTrace { outside with traceFails := traceFails }
        { request with metadata := metadata } rule handlerType handlerId handlerConfig row'
        state' = .error e) ∨
      ∃ outcome after after',
        dispatchAndTrace outside request rule handlerType handlerId handlerConfig row state =
          .ok (outcome, after) ∧
        dispatchAndTrace { outside with traceFails := traceFails }
          { request with metadata := metadata } rule handlerType handlerId handlerConfig row'
          state' = .ok (outcome, after') ∧
        SameRun after after' := by
  cases hadapter : getAdapter handlerType with
  | error e =>
      left
      refine ⟨e, ?_, ?_⟩
      · simp [dispatchAndTrace, hadapter, bind, Except.bind]
      · simp [dispatchAndTrace, hadapter, bind, Except.bind]
  | ok u =>
      right
      have hsame := houtcomes state.dispatched {
        handlerType := handlerType
        handlerId := handlerId
        handlerConfig := if handlerConfig.truthy then handlerConfig else .obj []
        userMessage := request.userMessage
        metadata := .null }
      have hok : ∃ outcome after,
          dispatchAndTrace outside request rule handlerType handlerId handlerConfig row state =
            .ok (outcome, after) := by
        simp [dispatchAndTrace, hadapter, bind, Except.bind, pure, Except.pure]
      have hok' : ∃ outcome after,
          dispatchAndTrace { outside with traceFails := traceFails }
            { request with metadata := metadata } rule handlerType handlerId handlerConfig row'
            state' = .ok (outcome, after) := by
        simp [dispatchAndTrace, hadapter, bind, Except.bind, pure, Except.pure]
      rcases hok with ⟨outcome, after, hrun⟩
      rcases hok' with ⟨outcome', after', hrun'⟩
      have houtcome : outcome = outcome' := by
        rcases Lib.bind_eq_ok.1 hrun with ⟨-, -, hreturn⟩
        rcases Lib.bind_eq_ok.1 hrun' with ⟨-, -, hreturn'⟩
        cases hreturn
        cases hreturn'
        rw [← h.dispatched]
        exact hsame
      subst houtcome
      rcases dispatchAndTrace_spec hrun with ⟨hlog, -, hnumber, hskip, hsession⟩
      rcases dispatchAndTrace_spec hrun' with ⟨hlog', -, hnumber', hskip', hsession'⟩
      refine ⟨outcome, after, after', hrun, hrun', ?_, ?_, ?_, ?_⟩
      · rw [hsession, hsession', h.session]
      · rw [hskip, hskip', h.skip]
      · rw [hnumber, hnumber', h.dispatched]
      · rw [hlog, hlog', h.log]

variable
  (htrusted : (routeMetadata request).get? "trusted" =
    (routeMetadata { request with metadata := metadata }).get? "trusted")
  (houtcomes : SameOutcomes outside.adapter (routeMetadata request)
    (routeMetadata { request with metadata := metadata }))
include htrusted houtcomes

theorem attempt_congr (h : SameRun state state') :
    (attempt outside rules request state).1 =
        (attempt { outside with traceFails := traceFails } rules
          { request with metadata := metadata } state').1 ∧
      SameRun (attempt outside rules request state).2
        (attempt { outside with traceFails := traceFails } rules
          { request with metadata := metadata } state').2 := by
  have heval : evaluate outside.toEnv (matchInput request) rules state.skip state.session =
      evaluate outside.toEnv (matchInput { request with metadata := metadata }) rules state'.skip
        state'.session := by
    rw [h.skip, h.session]
    exact evaluateFrom_congr_metadata htrusted
  unfold attempt
  rw [← heval]
  cases evaluate outside.toEnv (matchInput request) rules state.skip state.session with
  | mk answer session =>
  cases answer with
  | error e => exact ⟨rfl, rfl, h.skip, h.dispatched, h.log⟩
  | ok decision =>
      have hdecided : SameRun
          { state with session := session, log := state.log ++ [.decision decision] }
          { state' with session := session, log := state'.log ++ [.decision decision] } := by
        refine ⟨rfl, h.skip, h.dispatched, ?_⟩
        rw [dispatches_append, dispatches_append, h.log]
      dsimp only
      cases hrule : decision.matchedRule with
      | none =>
          exact ⟨rfl, hdecided⟩
      | some rule =>
          rcases dispatchAndTrace_congr traceFails houtcomes hdecided (some rule)
              rule.handlerType rule.handlerId rule.handlerConfig (ruleTrace request rule decision)
              (ruleTrace { request with metadata := metadata } rule decision) with
            ⟨e, hrun, hrun'⟩ | ⟨outcome, after, after', hrun, hrun', hafter⟩
          · simp only [hrun, hrun']
            exact ⟨trivial, hdecided⟩
          · simp only [hrun, hrun']
            split
            · exact ⟨rfl, hafter⟩
            · split
              · exact ⟨rfl, hafter⟩
              · split
                · refine ⟨rfl, hafter.session, ?_, hafter.dispatched, hafter.log⟩
                  rw [hafter.skip]
                · exact ⟨rfl, hafter⟩

theorem cascade_congr (n : Nat) (h : SameRun state state') :
    (cascade outside rules request n state).1 =
        (cascade { outside with traceFails := traceFails } rules
          { request with metadata := metadata } n state').1 ∧
      SameRun (cascade outside rules request n state).2
        (cascade { outside with traceFails := traceFails } rules
          { request with metadata := metadata } n state').2 := by
  induction n generalizing state state' with
  | zero => exact ⟨rfl, h⟩
  | succ n ih =>
      unfold cascade
      cases hattempt : attempt outside rules request state with
      | mk result after =>
      cases hattempt' : attempt { outside with traceFails := traceFails } rules
          { request with metadata := metadata } state' with
      | mk result' after' =>
      have hsame := attempt_congr traceFails rules htrusted houtcomes h
      rw [hattempt, hattempt'] at hsame
      rcases hsame with ⟨hresult, hafter⟩
      change result = result' at hresult
      subst hresult
      cases result with
      | none => exact ih hafter
      | some result => exact ⟨rfl, hafter⟩

theorem route_congr :
    (route outside rules request).1 =
        (route { outside with traceFails := traceFails } rules
          { request with metadata := metadata }).1 ∧
      SameRun (route outside rules request).2
        (route { outside with traceFails := traceFails } rules
          { request with metadata := metadata }).2 := by
  unfold route
  dsimp only
  cases request.config.defaultHandler with
  | none => exact ⟨rfl, rfl, rfl, rfl, rfl⟩
  | some handler =>
      dsimp only
      have hstart : SameRun {} {} := ⟨rfl, rfl, rfl, rfl⟩
      have hsame := cascade_congr traceFails rules htrusted houtcomes maxAttempts hstart
      cases hcascade : cascade outside rules request maxAttempts {} with
      | mk result after =>
      cases hcascade' : cascade { outside with traceFails := traceFails } rules
          { request with metadata := metadata } maxAttempts {} with
      | mk result' after' =>
      rw [hcascade, hcascade'] at hsame
      rcases hsame with ⟨hresult, hafter⟩
      change result = result' at hresult
      subst hresult
      cases result with
      | error e => exact ⟨rfl, hafter⟩
      | ok ending =>
          cases ending with
          | unconfigured => exact ⟨rfl, hafter⟩
          | handled => exact ⟨rfl, hafter⟩
          | returnedError => exact ⟨rfl, hafter⟩
          | defaultHandler =>
              rcases dispatchAndTrace_congr traceFails houtcomes hafter none handler.handlerType
                  handler.handlerId handler.handlerConfig
                  (defaultTrace request handler after.skip)
                  (defaultTrace { request with metadata := metadata } handler after'.skip) with
                ⟨e, hrun, hrun'⟩ | ⟨outcome, last, last', hrun, hrun', hlast⟩
              · simp only [hrun, hrun']
                exact ⟨trivial, hafter⟩
              · simp only [hrun, hrun']
                exact ⟨trivial, hlast⟩

end TwoRuns

/-! ## The pipeline wraps what the caller supplies -/

section Built

variable (userId userRole : String) (departmentId : Option String)

/-- Under `trusted` there is a dictionary `user`, so that no template of a built blob raises. -/
theorem resolveText_built (metadata : Option Json) (userMessage template : String) :
    ∃ value, resolveText (buildMetadata userId userRole departmentId metadata) userMessage
      template = .ok value := by
  unfold resolveText
  split
  · exact ⟨_, rfl⟩
  · split
    · exact ⟨_, rfl⟩
    · split
      · exact ⟨_, rfl⟩
      · exact ⟨_, rfl⟩

mutual

theorem resolveTemplate_built (metadata : Option Json) (userMessage : String) :
    (template : Json) → ∃ value,
      resolveTemplate (buildMetadata userId userRole departmentId metadata) userMessage template =
        .ok value
  | .obj fields => by
      rcases resolveFields_built metadata userMessage fields with ⟨values, hvalues⟩
      exact ⟨.obj values, by simp [resolveTemplate, hvalues, bind, Except.bind, pure, Except.pure]⟩
  | .arr xs => by
      rcases resolveItems_built metadata userMessage xs with ⟨values, hvalues⟩
      exact ⟨.arr values, by simp [resolveTemplate, hvalues, bind, Except.bind, pure, Except.pure]⟩
  | .str template => by
      rw [resolveTemplate]
      exact resolveText_built userId userRole departmentId metadata userMessage template
  | .null => ⟨.null, by rw [resolveTemplate] <;> nofun⟩
  | .bool b => ⟨.bool b, by rw [resolveTemplate] <;> nofun⟩
  | .num n => ⟨.num n, by rw [resolveTemplate] <;> nofun⟩

theorem resolveFields_built (metadata : Option Json) (userMessage : String) :
    (fields : List (String × Json)) → ∃ values,
      resolveFields (buildMetadata userId userRole departmentId metadata) userMessage fields =
        .ok values
  | [] => ⟨[], by rw [resolveFields]⟩
  | (key, template) :: fields => by
      rcases resolveTemplate_built metadata userMessage template with ⟨value, hvalue⟩
      rcases resolveFields_built metadata userMessage fields with ⟨values, hvalues⟩
      exact ⟨(key, value) :: values, by
        simp [resolveFields, hvalue, hvalues, bind, Except.bind, pure, Except.pure]⟩

theorem resolveItems_built (metadata : Option Json) (userMessage : String) :
    (templates : List Json) → ∃ values,
      resolveItems (buildMetadata userId userRole departmentId metadata) userMessage templates =
        .ok values
  | [] => ⟨[], by rw [resolveItems]⟩
  | template :: templates => by
      rcases resolveTemplate_built metadata userMessage template with ⟨value, hvalue⟩
      rcases resolveItems_built metadata userMessage templates with ⟨values, hvalues⟩
      exact ⟨value :: values, by
        simp [resolveItems, hvalue, hvalues, bind, Except.bind, pure, Except.pure]⟩

end

theorem workflowAdapter_built (metadata metadata' : Option Json) (request : DispatchRequest) :
    workflowAdapter { request with
        metadata := buildMetadata userId userRole departmentId metadata } =
      workflowAdapter { request with
        metadata := buildMetadata userId userRole departmentId metadata' } := by
  unfold workflowAdapter
  cases request.handlerId with
  | none => rfl
  | some id =>
      dsimp only [workflowInputs]
      cases hmapping : getField "input_mapping" request.handlerConfig with
      | error e => rfl
      | ok mapping =>
          have hinputs := fun metadata => resolveTemplate_built userId userRole departmentId metadata
            request.userMessage (if mapping.truthy then mapping else .obj [("query", .str "$message")])
          rcases hinputs metadata with ⟨value, hvalue⟩
          rcases hinputs metadata' with ⟨value', hvalue'⟩
          simp only [bind, Except.bind, hvalue, hvalue']

end Built

/-- What the caller supplies changes neither a decision nor a dispatch. -/
theorem pipeline_noninterference (env : Env) (traceFails traceFails' : Nat → Bool)
    (rules : List AgentRule) (request : PipelineRequest) (metadata : Option Json) :
    (runOrchestratorPipeline env traceFails rules request).1 =
        (runOrchestratorPipeline env traceFails' rules { request with metadata := metadata }).1 ∧
      dispatches (runOrchestratorPipeline env traceFails rules request).2.log =
        dispatches (runOrchestratorPipeline env traceFails' rules
          { request with metadata := metadata }).2.log := by
  have htrusted : (routeMetadata (pipelineRoute request)).get? "trusted" =
      (routeMetadata { pipelineRoute request with
        metadata := some (pipelineMetadata { request with metadata := metadata }) }).get?
          "trusted" := rfl
  have houtcomes : SameOutcomes (pipelineOutside env traceFails).adapter
      (routeMetadata (pipelineRoute request))
      (routeMetadata { pipelineRoute request with
        metadata := some (pipelineMetadata { request with metadata := metadata }) }) := by
    intro n dispatchRequest
    exact congrArg handlerOutcome
      (workflowAdapter_built request.userId request.userRole request.userDepartmentId
        request.metadata metadata dispatchRequest)
  have hsame := route_congr traceFails' rules htrusted houtcomes
  exact ⟨hsame.1, hsame.2.log⟩

end OpsKnowledge.Orchestrator
