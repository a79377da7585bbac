import OpsKnowledge.Orchestrator.Engine

/-!
# Routing a message

`OrchestratorService.route` with the dispatcher and the audit rows. What the adapters
yield and which audit writes fail are parameters, by the number of the dispatch. Clock
values, conversation and user ids and the A/B group are only copied into the rows and are
left out.
-/

namespace OpsKnowledge.Orchestrator

open Workflow (Json)

/-- What an adapter's `dispatch` yields, and the exception that ends it. -/
structure HandlerRun where
  events : List OrchestratorEvent := []
  crash : Option String := none

/-- The arguments of an adapter's `dispatch`; of the context it reads the metadata. -/
structure DispatchRequest where
  handlerType : String
  handlerId : Option Nat
  handlerConfig : Json
  userMessage : String
  metadata : Json

structure DispatchOutcome where
  handlerStatus : String
  error : Option String
  deriving DecidableEq, Repr

/-- A dispatch of a rule, or of the default handler. -/
structure Dispatch where
  rule : Option AgentRule
  handlerType : String
  handlerId : Option Nat
  outcome : DispatchOutcome

/-- A row of `orchestrator_traces`. -/
structure TraceRow where
  userMessage : String
  metadataSnapshot : Json
  matchedRuleId : Option Nat
  matchTypeUsed : String
  classifierOutput : Option ClassifierOutput
  handlerType : String
  handlerId : Option Nat
  handlerStatus : String
  triedRules : Option (List Nat)
  error : Option String

/-- What `route` does, in order. A row is not `written` where `record_trace` catches an
exception. -/
inductive RouteAction where
  | event (event : OrchestratorEvent)
  | decision (decision : EngineDecision)
  | dispatch (dispatch : Dispatch)
  | trace (row : TraceRow) (written : Bool)

inductive Ending where
  | unconfigured | handled | returnedError | defaultHandler
  deriving DecidableEq, Repr

structure RouteRequest where
  config : OrchestratorConfig
  userMessage : String
  userId : Option String := none
  userRole : String := "user"
  userDepartmentId : Option String := none
  metadata : Option Json := none

structure RouteState where
  session : Session := {}
  skip : List Nat := []
  dispatched : Nat := 0
  log : List RouteAction := []

structure Outside extends Env where
  adapter : Nat → DispatchRequest → HandlerRun
  traceFails : Nat → Bool

def maxAttempts : Nat := 5

/-- `get_adapter`: the modules of the other handler types are not there. -/
def getAdapter (handlerType : String) : Except Exn Unit :=
  if handlerType = "workflow" then .ok ()
  else if handlerType ∈ ["simple_agent", "mcp_tool", "sub_agent"] then
    .error (.moduleNotFound s!"app.agent.orchestrator.adapters.{handlerType}")
  else .error (.valueError s!"Unsupported handler_type: {handlerType}")

def handlerEvents (request : DispatchRequest) (run : HandlerRun) : List OrchestratorEvent :=
  { type := "handler_invoked", data := .obj [
      ("handler_type", .str request.handlerType),
      ("handler_id", (request.handlerId.map fun id => .str (toString id)).getD .null)] } ::
    run.events ++ match run.crash with
      | none => []
      | some e => [{ type := "error", data := .obj [
          ("message", .str ("handler crashed: " ++ (e.take 300).toString))] }]

def handlerOutcome (run : HandlerRun) : DispatchOutcome where
  handlerStatus :=
    if run.crash.isSome ∨ run.events.any (fun ev => ev.type = "error") then "error" else "ok"
  error := run.crash.map fun e => (e.take 500).toString

/-- `rule.on_handler_error or "use_default"` -/
def errorPolicy (rule : AgentRule) : String :=
  if rule.onHandlerError = "" then "use_default" else rule.onHandlerError

/-- A blob with a `trusted` key is taken to be built already. -/
def routeMetadata (request : RouteRequest) : Json :=
  let built := buildMetadata (request.userId.getD "00000000-0000-0000-0000-000000000000")
    request.userRole request.userDepartmentId request.metadata
  match request.metadata with
  | none => built
  | some metadata => if (metadata.get? "trusted").isSome then metadata else built

section Route

variable (outside : Outside) (rules : List AgentRule) (request : RouteRequest)

def matchInput : MatchInput where
  message := request.userMessage
  metadata := routeMetadata request
  config := request.config

/-- Runs a handler to its end and records the dispatch. -/
def dispatchAndTrace (rule : Option AgentRule) (handlerType : String) (handlerId : Option Nat)
    (handlerConfig : Json) (row : DispatchOutcome → TraceRow) (state : RouteState) :
    Except Exn (DispatchOutcome × RouteState) := do
  getAdapter handlerType
  let dispatchRequest : DispatchRequest := {
    handlerType := handlerType
    handlerId := handlerId
    handlerConfig := if handlerConfig.truthy then handlerConfig else .obj []
    userMessage := request.userMessage
    metadata := routeMetadata request }
  let run := outside.adapter state.dispatched dispatchRequest
  let outcome := handlerOutcome run
  return (outcome, { state with
    dispatched := state.dispatched + 1
    log := state.log ++
      .dispatch { rule := rule, handlerType := handlerType, handlerId := handlerId,
                  outcome := outcome } ::
      (handlerEvents dispatchRequest run).map .event ++
      [.trace (row outcome) (!outside.traceFails state.dispatched)] })

def ruleTrace (rule : AgentRule) (decision : EngineDecision) (outcome : DispatchOutcome) :
    TraceRow where
  userMessage := (request.userMessage.take 5000).toString
  metadataSnapshot := routeMetadata request
  matchedRuleId := some rule.id
  matchTypeUsed := decision.matchTypeUsed
  classifierOutput := decision.classifierOutput
  handlerType := rule.handlerType
  handlerId := rule.handlerId
  handlerStatus := outcome.handlerStatus
  triedRules := some decision.triedRuleIds
  error := outcome.error.filter (· ≠ "")

def defaultTrace (handler : DefaultHandler) (skip : List Nat) (outcome : DispatchOutcome) :
    TraceRow where
  userMessage := (request.userMessage.take 5000).toString
  metadataSnapshot := routeMetadata request
  matchedRuleId := none
  matchTypeUsed := "default"
  classifierOutput := none
  handlerType := handler.handlerType
  handlerId := handler.handlerId
  handlerStatus := if skip ≠ [] then "fallback_default" else outcome.handlerStatus
  triedRules := none
  error := outcome.error.filter (· ≠ "")

/-- One round of the `while` loop; no result means that the loop is re-entered. -/
def attempt (state : RouteState) : Option (Except Exn Ending) × RouteState :=
  match evaluate outside.toEnv (matchInput request) rules state.skip state.session with
  | (.error e, session) => (some (.error e), { state with session := session })
  | (.ok decision, session) =>
      let state := { state with session := session, log := state.log ++ [.decision decision] }
      match decision.matchedRule with
      | none => (some (.ok .defaultHandler), state)
      | some rule =>
          match dispatchAndTrace outside request (some rule) rule.handlerType rule.handlerId
              rule.handlerConfig (ruleTrace request rule decision) state with
          | .error e => (some (.error e), state)
          | .ok (outcome, state) =>
              if outcome.handlerStatus = "ok" then (some (.ok .handled), state)
              else if errorPolicy rule = "return_error" then (some (.ok .returnedError), state)
              else if errorPolicy rule = "fallback_next" then
                (none, { state with skip := state.skip ++ [rule.id] })
              else (some (.ok .defaultHandler), state)

/-- The `while` loop, with the number of attempts left. -/
def cascade : Nat → RouteState → Except Exn Ending × RouteState
  | 0, state => (.ok .defaultHandler, state)
  | attempts + 1, state =>
      match attempt outside rules request state with
      | (some result, state) => (result, state)
      | (none, state) => cascade attempts state

def unconfiguredEvent : OrchestratorEvent where
  type := "error"
  data := .obj [("message", .str "Orchestrator Agent has no default_handler configured")]

/-- `route`, its stream consumed as far as it goes. -/
def route : Except Exn Ending × RouteState :=
  match request.config.defaultHandler with
  | none => (.ok .unconfigured, { log := [.event unconfiguredEvent] })
  | some handler =>
      match cascade outside rules request maxAttempts {} with
      | (.ok .defaultHandler, state) =>
          match dispatchAndTrace outside request none handler.handlerType handler.handlerId
              handler.handlerConfig (defaultTrace request handler state.skip) state with
          | .error e => (.error e, state)
          | .ok (_, state) => (.ok .defaultHandler, state)
      | result => result

end Route

/-! ## The law of the cascade -/

/-- The dispatched rules with their status, and the ending, for a number of attempts and the
eligible rules to come. -/
inductive Cascades : Nat → List AgentRule → List (AgentRule × String) → Ending → Prop
  | exhausted (rest) : Cascades 0 rest [] .defaultHandler
  | unmatched (n) : Cascades (n + 1) [] [] .defaultHandler
  | handled (n rule rest) : Cascades (n + 1) (rule :: rest) [(rule, "ok")] .handled
  | returned (n rule rest status) : status ≠ "ok" → errorPolicy rule = "return_error" →
      Cascades (n + 1) (rule :: rest) [(rule, status)] .returnedError
  | useDefault (n rule rest status) : status ≠ "ok" → errorPolicy rule ≠ "return_error" →
      errorPolicy rule ≠ "fallback_next" →
      Cascades (n + 1) (rule :: rest) [(rule, status)] .defaultHandler
  | next (n rule rest status dispatched ending) : status ≠ "ok" →
      errorPolicy rule = "fallback_next" → Cascades n rest dispatched ending →
      Cascades (n + 1) (rule :: rest) ((rule, status) :: dispatched) ending

namespace Cascades

variable {n : Nat} {rest : List AgentRule} {dispatched : List (AgentRule × String)}
  {ending : Ending}

theorem order (h : Cascades n rest dispatched ending) :
    dispatched.map Prod.fst = rest.take dispatched.length := by
  induction h with
  | exhausted rest => rfl
  | unmatched n => rfl
  | handled n rule rest => rfl
  | returned n rule rest status => rfl
  | useDefault n rule rest status => rfl
  | next n rule rest status dispatched ending _ _ _ ih => simp [ih]

theorem dispatched_ne_nil_iff (h : Cascades n rest dispatched ending) :
    dispatched ≠ [] ↔ 0 < n ∧ rest ≠ [] := by
  cases h <;> simp

/-- A further rule is dispatched exactly after a failure under `fallback_next`, while there
are attempts and rules left. -/
theorem further_iff (h : Cascades n rest dispatched ending) {i : Nat} {rule : AgentRule}
    {status : String} (hi : dispatched[i]? = some (rule, status)) :
    i + 1 < dispatched.length ↔
      status ≠ "ok" ∧ errorPolicy rule = "fallback_next" ∧ i + 1 < n ∧ i + 1 < rest.length := by
  induction h generalizing i with
  | exhausted rest => simp at hi
  | unmatched n => simp at hi
  | handled n first rest =>
      cases i with
      | zero => cases hi; simp
      | succ i => simp at hi
  | returned n first rest failed hfailed hpolicy =>
      cases i with
      | zero => cases hi; simp [hpolicy]
      | succ i => simp at hi
  | useDefault n first rest failed hfailed hreturn hnext =>
      cases i with
      | zero => cases hi; simp [hnext]
      | succ i => simp at hi
  | next n first rest failed dispatched ending hfailed hpolicy hrest ih =>
      cases i with
      | zero =>
          cases hi
          have hmore := hrest.dispatched_ne_nil_iff
          simp only [← List.length_pos_iff] at hmore
          simp only [List.length_cons, hfailed, hpolicy, ne_eq, not_false_eq_true, true_and]
          omega
      | succ i =>
          have hrec := ih (by simpa using hi)
          simp only [List.length_cons, Nat.add_lt_add_iff_right]
          exact hrec

theorem ending_handled_iff (h : Cascades n rest dispatched ending) :
    ending = .handled ↔ ∃ rule, dispatched.getLast? = some (rule, "ok") := by
  induction h with
  | exhausted rest => simp
  | unmatched n => simp
  | handled n rule rest => simp
  | returned n rule rest status hstatus => simp [hstatus]
  | useDefault n rule rest status hstatus => simp [hstatus]
  | next n rule rest status dispatched ending hstatus hpolicy hrest ih =>
      rw [ih]
      cases dispatched with
      | nil => simp [hstatus]
      | cons d ds => simp [List.getLast?_cons_cons]

theorem ending_returnedError_iff (h : Cascades n rest dispatched ending) :
    ending = .returnedError ↔ ∃ rule status, dispatched.getLast? = some (rule, status) ∧
      status ≠ "ok" ∧ errorPolicy rule = "return_error" := by
  induction h with
  | exhausted rest => simp
  | unmatched n => simp
  | handled n rule rest => simp
  | returned n rule rest status hstatus hpolicy => simp [hstatus, hpolicy]
  | useDefault n rule rest status hstatus hreturn => simp [hreturn]
  | next n rule rest status dispatched ending hstatus hpolicy hrest ih =>
      rw [ih]
      cases dispatched with
      | nil => simp [hpolicy]
      | cons d ds => simp [List.getLast?_cons_cons]

theorem ending_cases (h : Cascades n rest dispatched ending) :
    ending = .handled ∨ ending = .returnedError ∨ ending = .defaultHandler := by
  induction h with
  | exhausted rest => simp
  | unmatched n => simp
  | handled n rule rest => simp
  | returned n rule rest status => simp
  | useDefault n rule rest status => simp
  | next n rule rest status dispatched ending _ _ _ ih => exact ih

end Cascades

/-! ## The route follows it -/

def RouteAction.dispatch? : RouteAction → Option Dispatch
  | .dispatch d => some d
  | .event _ | .decision _ | .trace _ _ => none

/-- The dispatches of a log, in order. -/
def dispatches (log : List RouteAction) : List Dispatch := log.filterMap RouteAction.dispatch?

/-- The rule and the handler of a dispatch and of an audit call, and whether its row is
written. -/
inductive AuditStep where
  | dispatched (ruleId : Option Nat) (handlerType : String) (handlerId : Option Nat)
  | traced (ruleId : Option Nat) (handlerType : String) (handlerId : Option Nat) (written : Bool)
  deriving DecidableEq, Repr

def RouteAction.auditStep? : RouteAction → Option AuditStep
  | .dispatch d => some (.dispatched (d.rule.map AgentRule.id) d.handlerType d.handlerId)
  | .trace row written => some (.traced row.matchedRuleId row.handlerType row.handlerId written)
  | .event _ | .decision _ => none

def auditTrail (log : List RouteAction) : List AuditStep := log.filterMap RouteAction.auditStep?

/-- The audit call of a dispatch comes after it and before the next dispatch. -/
def Dispatch.audited (dispatch : Dispatch) (written : Bool) : List AuditStep :=
  [.dispatched (dispatch.rule.map AgentRule.id) dispatch.handlerType dispatch.handlerId,
    .traced (dispatch.rule.map AgentRule.id) dispatch.handlerType dispatch.handlerId written]

/-- The trail of dispatches that start with number `n`. -/
def auditedFrom (traceFails : Nat → Bool) (n : Nat) (ds : List Dispatch) : List AuditStep :=
  (ds.zipIdx n).flatMap fun p => p.1.audited (!traceFails p.2)

def ruleDispatch (rule : AgentRule) (outcome : DispatchOutcome) : Dispatch where
  rule := some rule
  handlerType := rule.handlerType
  handlerId := rule.handlerId
  outcome := outcome

def defaultDispatch (handler : DefaultHandler) (outcome : DispatchOutcome) : Dispatch where
  rule := none
  handlerType := handler.handlerType
  handlerId := handler.handlerId
  outcome := outcome

theorem dispatches_append (log log' : List RouteAction) :
    dispatches (log ++ log') = dispatches log ++ dispatches log' := List.filterMap_append

theorem auditTrail_append (log log' : List RouteAction) :
    auditTrail (log ++ log') = auditTrail log ++ auditTrail log' := List.filterMap_append

theorem dispatches_events (events : List OrchestratorEvent) :
    dispatches (events.map .event) = [] := by
  rw [dispatches, List.filterMap_map]
  exact List.filterMap_eq_nil_iff.2 fun _ _ => rfl

theorem auditTrail_events (events : List OrchestratorEvent) :
    auditTrail (events.map .event) = [] := by
  rw [auditTrail, List.filterMap_map]
  exact List.filterMap_eq_nil_iff.2 fun _ _ => rfl

theorem auditedFrom_append (traceFails : Nat → Bool) (n : Nat) (ds ds' : List Dispatch) :
    auditedFrom traceFails n (ds ++ ds') =
      auditedFrom traceFails n ds ++ auditedFrom traceFails (n + ds.length) ds' := by
  rw [auditedFrom, List.zipIdx_append, List.flatMap_append]
  rfl

section Dispatch

variable {outside : Outside} {request : RouteRequest} {state state' : RouteState}
  {rule : Option AgentRule} {handlerType : String} {handlerId : Option Nat} {handlerConfig : Json}
  {row : DispatchOutcome → TraceRow} {outcome : DispatchOutcome}

/-- A dispatch that does not raise is logged once, and audited once after it. -/
theorem dispatchAndTrace_spec
    (h : dispatchAndTrace outside request rule handlerType handlerId handlerConfig row state =
      .ok (outcome, state')) :
    dispatches state'.log = dispatches state.log ++
        [{ rule := rule, handlerType := handlerType, handlerId := handlerId, outcome := outcome }] ∧
      auditTrail state'.log = auditTrail state.log ++
        [.dispatched (rule.map AgentRule.id) handlerType handlerId,
          .traced (row outcome).matchedRuleId (row outcome).handlerType (row outcome).handlerId
            (!outside.traceFails state.dispatched)] ∧
      state'.dispatched = state.dispatched + 1 ∧ state'.skip = state.skip ∧
      state'.session = state.session := by
  rcases Lib.bind_eq_ok.1 h with ⟨-, -, hrun⟩
  cases hrun
  have hfirst : ∀ d events, dispatches (.dispatch d :: events) = d :: dispatches events :=
    fun _ _ => rfl
  have hfirst' : ∀ d events, auditTrail (.dispatch d :: events) =
      .dispatched (d.rule.map AgentRule.id) d.handlerType d.handlerId :: auditTrail events :=
    fun _ _ => rfl
  refine ⟨?_, ?_, rfl, rfl, rfl⟩
  · rw [dispatches_append, dispatches_append, hfirst, dispatches_events, List.append_assoc]
    rfl
  · rw [auditTrail_append, auditTrail_append, hfirst', auditTrail_events, List.append_assoc]
    rfl

end Dispatch

/-- With distinct ids, skipping the first `k` eligible rules leaves the next one. -/
theorem find?_skipped {rules : List AgentRule} (hids : (rules.map AgentRule.id).Nodup)
    (eligible : AgentRule → Bool) (k : Nat) :
    rules.find? (fun rule =>
        decide (rule.id ∉ ((rules.filter eligible).take k).map AgentRule.id) && eligible rule) =
      (rules.filter eligible)[k]? := by
  have hnodup : ((rules.filter eligible).map AgentRule.id).Nodup :=
    hids.sublist (List.filter_sublist.map _)
  have hfilter : rules.find? (fun rule =>
      decide (rule.id ∉ ((rules.filter eligible).take k).map AgentRule.id) && eligible rule) =
      (rules.filter eligible).find? fun rule =>
        decide (rule.id ∉ ((rules.filter eligible).take k).map AgentRule.id) := by
    rw [List.find?_filter]
    congr 1
    funext rule
    rw [Bool.decide_and, Bool.decide_eq_true, Bool.decide_eq_true, Bool.and_comm]
  rw [hfilter]
  generalize rules.filter eligible = rest at hnodup ⊢
  have hsplit := List.disjoint_take_drop hnodup (Nat.le_refl k)
  rw [← List.map_take, ← List.map_drop] at hsplit
  have hgone : (rest.take k).find?
      (fun rule => decide (rule.id ∉ (rest.take k).map AgentRule.id)) = none := by
    rw [List.find?_eq_none]
    intro rule hrule
    rw [decide_eq_true_eq, not_not]
    exact List.mem_map_of_mem hrule
  have hcat : rest.find? (fun rule => decide (rule.id ∉ (rest.take k).map AgentRule.id)) =
      (rest.take k ++ rest.drop k).find?
        (fun rule => decide (rule.id ∉ (rest.take k).map AgentRule.id)) := by
    rw [List.take_append_drop]
  rw [hcat, List.find?_append, hgone, Option.none_or, ← List.head?_drop]
  cases hdrop : rest.drop k with
  | nil => rfl
  | cons next others =>
      have hnext : next.id ∉ (rest.take k).map AgentRule.id := by
        intro hmem
        have hin : next.id ∈ (rest.drop k).map AgentRule.id := by
          rw [hdrop]
          exact List.mem_map_of_mem List.mem_cons_self
        exact hsplit hmem hin
      have htest : (fun rule : AgentRule =>
          decide (rule.id ∉ (rest.take k).map AgentRule.id)) next = true := decide_eq_true hnext
      exact List.find?_cons_of_pos htest

/-- The state once the engine has decided. -/
def RouteState.decided (state : RouteState) (session : Session) (decision : EngineDecision) :
    RouteState :=
  { state with session := session, log := state.log ++ [.decision decision] }

/-- How a round ends after its dispatch: by the status, then by the rule's policy. -/
inductive AfterDispatch (rule : AgentRule) (outcome : DispatchOutcome) (after : RouteState) :
    Option (Except Exn Ending) → RouteState → Prop
  | handled : outcome.handlerStatus = "ok" →
      AfterDispatch rule outcome after (some (.ok .handled)) after
  | returned : outcome.handlerStatus ≠ "ok" → errorPolicy rule = "return_error" →
      AfterDispatch rule outcome after (some (.ok .returnedError)) after
  | next : outcome.handlerStatus ≠ "ok" → errorPolicy rule = "fallback_next" →
      AfterDispatch rule outcome after none { after with skip := after.skip ++ [rule.id] }
  | useDefault : outcome.handlerStatus ≠ "ok" → errorPolicy rule ≠ "return_error" →
      errorPolicy rule ≠ "fallback_next" →
      AfterDispatch rule outcome after (some (.ok .defaultHandler)) after

/-- All that a round can do. -/
inductive Attempted (outside : Outside) (rules : List AgentRule) (request : RouteRequest)
    (state : RouteState) : Option (Except Exn Ending) → RouteState → Prop
  | unevaluated {e session} :
      evaluate outside.toEnv (matchInput request) rules state.skip state.session =
        (.error e, session) →
      Attempted outside rules request state (some (.error e)) { state with session := session }
  | unmatched {decision session} :
      evaluate outside.toEnv (matchInput request) rules state.skip state.session =
        (.ok decision, session) →
      decision.matchedRule = none →
      Attempted outside rules request state (some (.ok .defaultHandler))
        (state.decided session decision)
  | undispatched {decision session rule e} :
      evaluate outside.toEnv (matchInput request) rules state.skip state.session =
        (.ok decision, session) →
      decision.matchedRule = some rule →
      Attempted outside rules request state (some (.error e)) (state.decided session decision)
  | dispatched {decision session rule outcome after result state'} :
      evaluate outside.toEnv (matchInput request) rules state.skip state.session =
        (.ok decision, session) →
      decision.matchedRule = some rule →
      dispatchAndTrace outside request (some rule) rule.handlerType rule.handlerId
        rule.handlerConfig (ruleTrace request rule decision) (state.decided session decision) =
          .ok (outcome, after) →
      AfterDispatch rule outcome after result state' →
      Attempted outside rules request state result state'

theorem attempted (outside : Outside) (rules : List AgentRule) (request : RouteRequest)
    (state : RouteState) :
    Attempted outside rules request state (attempt outside rules request state).1
      (attempt outside rules request state).2 := by
  unfold attempt
  cases heval : evaluate outside.toEnv (matchInput request) rules state.skip state.session with
  | mk answer session =>
  cases answer with
  | error e => exact .unevaluated heval
  | ok decision =>
      dsimp only
      split
      · next hrule => exact .unmatched heval hrule
      · next rule hrule =>
          split
          · exact .undispatched heval hrule
          · next outcome after hdispatch =>
              refine .dispatched heval hrule hdispatch ?_
              by_cases hok : outcome.handlerStatus = "ok"
              · rw [if_pos hok]
                exact .handled hok
              · rw [if_neg hok]
                by_cases hreturn : errorPolicy rule = "return_error"
                · rw [if_pos hreturn]
                  exact .returned hok hreturn
                · rw [if_neg hreturn]
                  by_cases hfallback : errorPolicy rule = "fallback_next"
                  · rw [if_pos hfallback]
                    exact .next hok hfallback
                  · rw [if_neg hfallback]
                    exact .useDefault hok hreturn hfallback

section Law

variable {outside : Outside} {rules : List AgentRule} {request : RouteRequest}
  {verdict : String × ℚ}

/-- The rules that are active and match, in list order. -/
def eligibleRules (library : Library) (rules : List AgentRule) (request : RouteRequest)
    (verdict : String × ℚ) : List AgentRule :=
  rules.filter (Eligible library (matchInput request) verdict)

/-- One more dispatch, recorded and audited. -/
structure Recorded (traceFails : Nat → Bool) (state state' : RouteState)
    (done : List Dispatch) : Prop where
  log : dispatches state'.log = dispatches state.log ++ done
  trail : auditTrail state'.log = auditTrail state.log ++ auditedFrom traceFails state.dispatched done
  number : state'.dispatched = state.dispatched + done.length

theorem Recorded.refl (traceFails : Nat → Bool) (state : RouteState) :
    Recorded traceFails state state [] :=
  ⟨(List.append_nil _).symm, (List.append_nil _).symm, rfl⟩

theorem Recorded.trans {traceFails : Nat → Bool} {state₁ state₂ state₃ : RouteState}
    {done done' : List Dispatch} (h : Recorded traceFails state₁ state₂ done)
    (h' : Recorded traceFails state₂ state₃ done') :
    Recorded traceFails state₁ state₃ (done ++ done') where
  log := by rw [h'.log, h.log, List.append_assoc]
  trail := by rw [h'.trail, h.trail, h.number, auditedFrom_append, List.append_assoc]
  number := by
    rw [h'.number, h.number, List.length_append]
    omega

/-- A round that does not raise dispatches the next eligible rule, or finds none left. -/
theorem attempt_spec (hids : (rules.map AgentRule.id).Nodup)
    (hfixed : FixedClassification outside.toEnv request.config verdict) {k : Nat}
    {state state' : RouteState} {result : Option (Except Exn Ending)}
    (hskip : state.skip =
      ((eligibleRules outside.toLibrary rules request verdict).take k).map AgentRule.id)
    (hsession : Consistent (matchInput request) verdict none state.session)
    (h : attempt outside rules request state = (result, state'))
    (hresult : ∀ e, result ≠ some (.error e)) :
    (eligibleRules outside.toLibrary rules request verdict)[k]? = none ∧
        result = some (.ok .defaultHandler) ∧ Recorded outside.traceFails state state' [] ∨
      ∃ rule outcome, (eligibleRules outside.toLibrary rules request verdict)[k]? = some rule ∧
        Recorded outside.traceFails state state' [ruleDispatch rule outcome] ∧
        (outcome.handlerStatus = "ok" ∧ result = some (.ok .handled) ∨
          outcome.handlerStatus ≠ "ok" ∧ errorPolicy rule = "return_error" ∧
            result = some (.ok .returnedError) ∨
          outcome.handlerStatus ≠ "ok" ∧ errorPolicy rule = "fallback_next" ∧ result = none ∧
            state'.skip = state.skip ++ [rule.id] ∧
            Consistent (matchInput request) verdict none state'.session ∨
          outcome.handlerStatus ≠ "ok" ∧ errorPolicy rule ≠ "return_error" ∧
            errorPolicy rule ≠ "fallback_next" ∧ result = some (.ok .defaultHandler)) := by
  have hattempted := attempted outside rules request state
  rw [h] at hattempted
  have hfollows : ∀ {decision session},
      evaluate outside.toEnv (matchInput request) rules state.skip state.session =
        (.ok decision, session) →
      decision.matchedRule = (eligibleRules outside.toLibrary rules request verdict)[k]? ∧
        Consistent (matchInput request) verdict none session ∧
        Recorded outside.traceFails state (state.decided session decision) [] := by
    intro decision session heval
    rcases evaluateFrom_spec hfixed hsession heval with ⟨hmatched, hsession'⟩
    refine ⟨?_, hsession', ?_, ?_, rfl⟩
    · rw [hmatched, hskip]
      exact find?_skipped hids _ k
    · exact dispatches_append state.log [.decision decision]
    · exact auditTrail_append state.log [.decision decision]
  cases hattempted with
  | unevaluated heval => exact absurd rfl (hresult _)
  | undispatched heval hrule => exact absurd rfl (hresult _)
  | unmatched heval hrule =>
      rcases hfollows heval with ⟨hnext, -, hdecided⟩
      exact .inl ⟨by rw [← hnext, hrule], rfl, hdecided⟩
  | @dispatched decision session rule outcome after _ _ heval hrule hdispatch hafter =>
      rcases hfollows heval with ⟨hnext, hsession', hdecided⟩
      rcases dispatchAndTrace_spec hdispatch with
        ⟨hlog, htrail, hnumber, hafterSkip, hafterSession⟩
      have hrecorded : Recorded outside.traceFails state after [ruleDispatch rule outcome] :=
        hdecided.trans ⟨hlog, htrail, hnumber⟩
      refine .inr ⟨rule, outcome, by rw [← hnext, hrule], ?_⟩
      cases hafter with
      | handled hok => exact ⟨hrecorded, .inl ⟨hok, rfl⟩⟩
      | returned hok hreturn => exact ⟨hrecorded, .inr (.inl ⟨hok, hreturn, rfl⟩)⟩
      | next hok hfallback =>
          refine ⟨⟨hrecorded.log, hrecorded.trail, hrecorded.number⟩,
            .inr (.inr (.inl ⟨hok, hfallback, rfl, ?_, ?_⟩))⟩
          · show after.skip ++ [rule.id] = _
            rw [hafterSkip]
            rfl
          · show Consistent _ _ _ after.session
            rw [hafterSession]
            exact hsession'
      | useDefault hok hreturn hfallback =>
          exact ⟨hrecorded, .inr (.inr (.inr ⟨hok, hreturn, hfallback, rfl⟩))⟩

theorem cascade_spec (hids : (rules.map AgentRule.id).Nodup)
    (hfixed : FixedClassification outside.toEnv request.config verdict) {n k : Nat}
    {state state' : RouteState} {ending : Ending}
    (hskip : state.skip =
      ((eligibleRules outside.toLibrary rules request verdict).take k).map AgentRule.id)
    (hsession : Consistent (matchInput request) verdict none state.session)
    (h : cascade outside rules request n state = (.ok ending, state')) :
    ∃ done : List (AgentRule × DispatchOutcome),
      Cascades n ((eligibleRules outside.toLibrary rules request verdict).drop k)
        (done.map fun d => (d.1, d.2.handlerStatus)) ending ∧
      Recorded outside.traceFails state state' (done.map fun d => ruleDispatch d.1 d.2) := by
  induction n generalizing k state with
  | zero =>
      cases h
      exact ⟨[], .exhausted _, .refl _ _⟩
  | succ n ih =>
      unfold cascade at h
      cases hattempt : attempt outside rules request state with
      | mk result after =>
      rw [hattempt] at h
      have hresult : ∀ e, result ≠ some (.error e) := by
        rintro e rfl
        cases h
      rcases attempt_spec hids hfixed hskip hsession hattempt hresult with
        ⟨hnone, rfl, hafter⟩ | ⟨rule, outcome, hat, hafter, hcases⟩
      · cases h
        rw [List.drop_eq_nil_of_le (List.getElem?_eq_none_iff.1 hnone)]
        exact ⟨[], .unmatched _, hafter⟩
      · have hdrop : (eligibleRules outside.toLibrary rules request verdict).drop k =
            rule :: (eligibleRules outside.toLibrary rules request verdict).drop (k + 1) := by
          rcases List.getElem?_eq_some_iff.1 hat with ⟨hlt, heq⟩
          rw [List.drop_eq_getElem_cons hlt, heq]
        rw [hdrop]
        rcases hcases with ⟨hok, rfl⟩ | ⟨hfailed, hreturn, rfl⟩ |
          ⟨hfailed, hfallback, rfl, hafterSkip, hafterSession⟩ | ⟨hfailed, hreturn, hfallback, rfl⟩
        · cases h
          refine ⟨[(rule, outcome)], ?_, hafter⟩
          simp only [List.map_cons, List.map_nil, hok]
          exact .handled n rule _
        · cases h
          exact ⟨[(rule, outcome)], .returned n rule _ _ hfailed hreturn, hafter⟩
        · have hskip' : after.skip =
              ((eligibleRules outside.toLibrary rules request verdict).take (k + 1)).map
                AgentRule.id := by
            rw [hafterSkip, List.take_add_one, hat, List.map_append]
            simp [hskip]
          rcases ih hskip' hafterSession h with ⟨done, hchain, hdone⟩
          exact ⟨(rule, outcome) :: done, .next n rule _ _ _ _ hfailed hfallback hchain,
            hafter.trans hdone⟩
        · cases h
          exact ⟨[(rule, outcome)], .useDefault n rule _ _ hfailed hreturn hfallback, hafter⟩

end Law

/-! ## A routed message -/

/-- What a call of `route` does for the rules that match, in list order. -/
structure Routed (traceFails : Nat → Bool) (eligible : List AgentRule) (handler : DefaultHandler)
    (done : List (AgentRule × DispatchOutcome)) (ending : Ending) (log : List RouteAction) :
    Prop where
  /-- Rules are dispatched in list order, each the first eligible one after the one before. -/
  order : done.map Prod.fst = eligible.take done.length
  first : done ≠ [] ↔ eligible ≠ []
  further : ∀ i rule outcome, done[i]? = some (rule, outcome) →
    (i + 1 < done.length ↔ outcome.handlerStatus ≠ "ok" ∧ errorPolicy rule = "fallback_next" ∧
      i + 1 < maxAttempts ∧ i + 1 < eligible.length)
  handled : ending = .handled ↔ ∃ rule outcome, done.getLast? = some (rule, outcome) ∧
    outcome.handlerStatus = "ok"
  returnedError : ending = .returnedError ↔ ∃ rule outcome, done.getLast? = some (rule, outcome) ∧
    outcome.handlerStatus ≠ "ok" ∧ errorPolicy rule = "return_error"
  configured : ending ≠ .unconfigured
  /-- The default handler is dispatched last, and exactly where the call ends with it. -/
  dispatches : ∃ outcome, dispatches log = done.map (fun d => ruleDispatch d.1 d.2) ++
    if ending = .defaultHandler then [defaultDispatch handler outcome] else []
  /-- Each dispatch is audited once, after it; its row is written unless the write fails. -/
  audited : auditTrail log = auditedFrom traceFails 0 (Orchestrator.dispatches log)

theorem getLast?_map_status {done : List (AgentRule × DispatchOutcome)} {rule : AgentRule}
    {status : String} :
    (done.map fun d => (d.1, d.2.handlerStatus)).getLast? = some (rule, status) ↔
      ∃ outcome, done.getLast? = some (rule, outcome) ∧ outcome.handlerStatus = status := by
  rw [List.getLast?_map, Option.map_eq_some_iff]
  constructor
  · rintro ⟨⟨rule', outcome⟩, hlast, heq⟩
    cases heq
    exact ⟨outcome, hlast, rfl⟩
  · rintro ⟨outcome, hlast, rfl⟩
    exact ⟨_, hlast, rfl⟩

section Law

variable {outside : Outside} {rules : List AgentRule} {request : RouteRequest}
  {verdict : String × ℚ}

/-- For distinct ids and a fixed classification, a call that comes to its end obeys the law. -/
theorem route_routed (hids : (rules.map AgentRule.id).Nodup)
    (hfixed : FixedClassification outside.toEnv request.config verdict) {ending : Ending}
    {state : RouteState} (h : route outside rules request = (.ok ending, state)) :
    match request.config.defaultHandler with
    | none => ending = .unconfigured ∧ state.log = [.event unconfiguredEvent]
    | some handler => ∃ done,
        Routed outside.traceFails (eligibleRules outside.toLibrary rules request verdict) handler
          done ending state.log := by
  unfold route at h
  cases hdefault : request.config.defaultHandler with
  | none =>
      rw [hdefault] at h
      cases h
      exact ⟨rfl, rfl⟩
  | some handler =>
      simp only [hdefault] at h
      have hsession : Consistent (matchInput request) verdict none {} := ⟨nofun, fun _ => rfl⟩
      have hskip : ({} : RouteState).skip =
          ((eligibleRules outside.toLibrary rules request verdict).take 0).map AgentRule.id := rfl
      cases hcascade : cascade outside rules request maxAttempts {} with
      | mk result looped =>
      rw [hcascade] at h
      -- The call ends as the loop does; after the loop the default handler follows, or nothing.
      have hend : result = .ok ending ∧ ∃ outcome, Recorded outside.traceFails looped state
          (if ending = .defaultHandler then [defaultDispatch handler outcome] else []) := by
        cases result with
        | error e => cases h
        | ok loopEnding =>
            cases loopEnding with
            | defaultHandler =>
                cases hdispatch : dispatchAndTrace outside request none handler.handlerType
                    handler.handlerId handler.handlerConfig
                    (defaultTrace request handler looped.skip) looped with
                | error e =>
                    simp only [hdispatch] at h
                    cases h
                | ok done =>
                    rcases done with ⟨outcome, after⟩
                    simp only [hdispatch] at h
                    cases h
                    rcases dispatchAndTrace_spec hdispatch with ⟨hlog, htrail, hnumber, -, -⟩
                    exact ⟨rfl, outcome, hlog, htrail, hnumber⟩
            | unconfigured => cases h; exact ⟨rfl, ⟨"ok", none⟩, .refl _ _⟩
            | handled => cases h; exact ⟨rfl, ⟨"ok", none⟩, .refl _ _⟩
            | returnedError => cases h; exact ⟨rfl, ⟨"ok", none⟩, .refl _ _⟩
      rcases hend with ⟨rfl, outcome, hlast⟩
      rcases cascade_spec hids hfixed hskip hsession hcascade with ⟨done, hchain, hdone⟩
      rw [List.drop_zero] at hchain
      have hall := hdone.trans hlast
      have hlog : dispatches state.log = done.map (fun d => ruleDispatch d.1 d.2) ++
          if ending = .defaultHandler then [defaultDispatch handler outcome] else [] := hall.log
      have htrail : auditTrail state.log = auditedFrom outside.traceFails 0
          (done.map (fun d => ruleDispatch d.1 d.2) ++
            if ending = .defaultHandler then [defaultDispatch handler outcome] else []) := hall.trail
      refine ⟨done, ?_, ?_, ?_, ?_, ?_, ?_, ⟨outcome, hlog⟩, by rw [htrail, hlog]⟩
      · have horder := hchain.order
        rw [List.map_map, List.length_map] at horder
        exact horder
      · have hfirst := hchain.dispatched_ne_nil_iff
        simpa [maxAttempts] using hfirst
      · intro i rule outcome hi
        have hat : (done.map fun d => (d.1, d.2.handlerStatus))[i]? =
            some (rule, outcome.handlerStatus) := by
          rw [List.getElem?_map, hi]
          rfl
        have hfurther := hchain.further_iff hat
        rwa [List.length_map] at hfurther
      · rw [hchain.ending_handled_iff]
        simp only [getLast?_map_status]
      · rw [hchain.ending_returnedError_iff]
        simp only [getLast?_map_status]
        constructor
        · rintro ⟨rule, status, ⟨outcome, hlast, rfl⟩, hfailed, hpolicy⟩
          exact ⟨rule, outcome, hlast, hfailed, hpolicy⟩
        · rintro ⟨rule, outcome, hlast, hfailed, hpolicy⟩
          exact ⟨rule, _, ⟨outcome, hlast, rfl⟩, hfailed, hpolicy⟩
      · rcases hchain.ending_cases with rfl | rfl | rfl <;> exact nofun

end Law

/-! ## One failing rule -/

/-- Every handler crashes. -/
def crashingHandlers : Outside where
  casefold := id
  compile _ _ := none
  redis _ := none
  llm _ := none
  adapter _ _ := { crash := some "boom" }
  traceFails _ := false

def helpRule : AgentRule where
  id := 0
  agentId := 0
  priority := 10
  matchType := "keyword"
  matchConfig := .obj [("any_of", .arr [.str "help"]), ("case_sensitive", .bool false)]
  handlerId := some 7
  onHandlerError := "fallback_next"

def helpRequest : RouteRequest where
  config := { defaultHandler := some { handlerId := some 8 } }
  userMessage := "help me"

/-- Without a classifier nothing is classified. -/
theorem fixedClassification_of_unconfigured {env : Env} {config : OrchestratorConfig}
    (h : config.classifier = none) (verdict : String × ℚ) :
    FixedClassification env config verdict := by
  intro classifierCfg hsome
  rw [h] at hsome
  cases hsome

/-- The first handler crashes, and messages are classified as requests for support. -/
def firstCrashes : Outside where
  casefold := id
  compile _ _ := none
  redis _ := none
  llm _ := some ("support", 9 / 10)
  adapter k _ := if k = 0 then { crash := some "boom" } else {}
  traceFails _ := false

def categoryRule (id : Nat) (category : String) : AgentRule where
  id := id
  agentId := 0
  priority := 20
  matchType := "llm_intent"
  matchConfig := .obj [("category", .str category)]
  handlerId := some 9

def classifiedRequest : RouteRequest where
  config := {
    classifier := some {
      modelRegistryId := 3
      categories := [{ name := "billing" }, { name := "support" }] }
    defaultHandler := some { handlerId := some 8 } }
  userMessage := "help me"

/-- The rule for help fails, the one for bills does not match, and the one for support handles the message. -/
theorem route_routed_help :
    let rules := [helpRule, categoryRule 1 "billing", categoryRule 2 "support", categoryRule 3 "support"]
    ∃ state, route firstCrashes rules classifiedRequest = (.ok .handled, state) ∧
      (dispatches state.log).map (fun d => (d.rule.map AgentRule.id, d.outcome.handlerStatus)) =
        [(some 0, "error"), (some 2, "ok")] ∧
      ∃ done, Routed firstCrashes.traceFails
        (eligibleRules firstCrashes.toLibrary rules classifiedRequest ("support", 9 / 10))
        { handlerId := some 8 } done .handled state.log := by
  intro rules
  have hids : (rules.map AgentRule.id).Nodup := by decide
  have hfixed : FixedClassification firstCrashes.toEnv classifiedRequest.config ("support", 9 / 10) := by
    intro classifierCfg hsome k
    cases hsome
    rfl
  have hending : (route firstCrashes rules classifiedRequest).1 = .ok .handled := by decide +kernel
  have hrun : route firstCrashes rules classifiedRequest =
      (.ok .handled, (route firstCrashes rules classifiedRequest).2) := Prod.ext hending rfl
  exact ⟨_, hrun, by decide +kernel, route_routed hids hfixed hrun⟩

/-- The dispatched rules with their outcomes. -/
def ruleDispatches (log : List RouteAction) : List (AgentRule × DispatchOutcome) :=
  (dispatches log).filterMap fun d => d.rule.map fun rule => (rule, d.outcome)

/-- The rule ids of the rows that are written. -/
def writtenRows (log : List RouteAction) : List (Option Nat) :=
  log.filterMap fun
    | .trace row true => some row.matchedRuleId
    | _ => none

/-- Neither a further rule nor the rows: the only rule fails under `fallback_next`, so that the
default handler follows, and both audit writes fail. -/
theorem lastRule_no_further :
    ¬ ∀ (outside : Outside) (rules : List AgentRule) (request : RouteRequest)
        (verdict : String × ℚ) (ending : Ending) (state : RouteState),
        (rules.map AgentRule.id).Nodup →
        FixedClassification outside.toEnv request.config verdict →
        route outside rules request = (.ok ending, state) →
        (∀ i rule outcome, (ruleDispatches state.log)[i]? = some (rule, outcome) →
          (i + 1 < (ruleDispatches state.log).length ↔
            outcome.handlerStatus ≠ "ok" ∧ errorPolicy rule = "fallback_next" ∧
              i + 1 < maxAttempts)) ∨
        writtenRows state.log = (dispatches state.log).map fun d => d.rule.map AgentRule.id := by
  intro h
  have hids : ([helpRule].map AgentRule.id).Nodup := by decide
  have hfixed : FixedClassification crashingHandlers.toEnv helpRequest.config ("", 0) :=
    fixedClassification_of_unconfigured rfl _
  rcases h { crashingHandlers with traceFails := fun _ => true } [helpRule] helpRequest ("", 0) _ _
    hids hfixed rfl with hlaw | hrows
  · have hfurther : 0 + 1 < 1 := (hlaw 0 helpRule ⟨"error", some "boom"⟩ rfl).2 (by decide)
    omega
  · exact absurd hrows (by decide)

end OpsKnowledge.Orchestrator
