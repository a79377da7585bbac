import Mathlib.Algebra.GroupWithZero.Nat
import OpsKnowledge.Lib.Dict
import OpsKnowledge.Lib.OrderBy
import OpsKnowledge.Lib.Table
import OpsKnowledge.Orchestrator.Route

/-!
# Rule analytics

`rules_analytics` over the audit rows that a history of routed requests leaves, and what the
requests dispatched. A row gets the number of its dispatch, and with it clock values, which are
parameters of the request.
-/

namespace OpsKnowledge.Orchestrator

open OpsKnowledge.Lib

/-! ## The report -/

/-- A stored row of `orchestrator_traces`. -/
structure StoredTrace where
  row : TraceRow
  agentId : Nat
  createdAt : Nat
  handlerLatencyMs : Option Nat
  abGroup : Option String

/-- What the loop collects for a rule. -/
structure Bucket where
  hitCount : Nat := 0
  successCount : Nat := 0
  errorCount : Nat := 0
  fallbackNextCount : Nat := 0
  abSplitA : Nat := 0
  abSplitB : Nat := 0
  abSplitNull : Nat := 0
  latencySamples : List Nat := []

structure RuleAnalyticsRow where
  ruleId : Nat
  hitCount : Nat
  successCount : Nat
  errorCount : Nat
  fallbackNextCount : Nat
  avgLatencyMs : Option ℚ
  p95LatencyMs : Option Nat
  abSplit : List (String × Nat)

/-- One round of the loop over the rows. -/
def Bucket.add (b : Bucket) (r : StoredTrace) : Bucket where
  hitCount := b.hitCount + 1
  successCount := b.successCount + if r.row.handlerStatus = "ok" then 1 else 0
  errorCount := b.errorCount + if r.row.handlerStatus = "error" then 1 else 0
  fallbackNextCount := b.fallbackNextCount + if r.row.handlerStatus = "fallback_next" then 1 else 0
  abSplitA := b.abSplitA + if r.abGroup = some "A" then 1 else 0
  abSplitB := b.abSplitB + if r.abGroup = some "B" then 1 else 0
  abSplitNull := b.abSplitNull + if r.abGroup = some "A" ∨ r.abGroup = some "B" then 0 else 1
  latencySamples := b.latencySamples ++ r.handlerLatencyMs.toList

def Bucket.report (ruleId : Nat) (b : Bucket) : RuleAnalyticsRow where
  ruleId := ruleId
  hitCount := b.hitCount
  successCount := b.successCount
  errorCount := b.errorCount
  fallbackNextCount := b.fallbackNextCount
  avgLatencyMs :=
    if b.latencySamples = [] then none
    else some ((b.latencySamples.sum : ℚ) / b.latencySamples.length)
  -- `int(len * 0.95)` is below the length
  p95LatencyMs := (orderBy id b.latencySamples)[b.latencySamples.length * 19 / 20]?
  abSplit := [("A", b.abSplitA), ("B", b.abSplitB), ("null", b.abSplitNull)]

/-- The rows of the query, each with its rule. -/
def analyticsRows (rows : List StoredTrace) (agentId cutoff : Nat) : List (Nat × StoredTrace) :=
  rows.filterMap fun r =>
    if r.agentId = agentId ∧ cutoff ≤ r.createdAt then r.row.matchedRuleId.map fun ruleId => (ruleId, r)
    else none

def rulesAnalytics (rows : List StoredTrace) (agentId cutoff : Nat) : List RuleAnalyticsRow :=
  let buckets := Dict.tally Prod.fst {} (fun b r => Bucket.add b r.2) (analyticsRows rows agentId cutoff)
  orderByDesc RuleAnalyticsRow.hitCount (buckets.entries.map fun entry => entry.2.report entry.1)

/-! ## Histories -/

/-- A call of `route`, with what its rows get from the clock and from the A/B test. -/
structure RoutedRequest where
  agentId : Nat
  outside : Outside
  rules : List AgentRule
  request : RouteRequest
  abGroup : Option String := none
  /-- When the row of a dispatch is created. -/
  createdAt : Nat → Nat
  handlerLatencyMs : Nat → Nat

def RouteAction.trace? : RouteAction → Option (TraceRow × Bool)
  | .trace row written => some (row, written)
  | .event _ | .decision _ | .dispatch _ => none

/-- The audit calls of a log, each with whether its row is written. -/
def traces (log : List RouteAction) : List (TraceRow × Bool) := log.filterMap RouteAction.trace?

namespace RoutedRequest

/-- What the call did, to its end or until it raised. -/
def log (r : RoutedRequest) : List RouteAction := (route r.outside r.rules r.request).2.log

def stored (r : RoutedRequest) (number : Nat) (row : TraceRow) : StoredTrace where
  row := row
  agentId := r.agentId
  createdAt := r.createdAt number
  handlerLatencyMs := some (r.handlerLatencyMs number)
  abGroup := r.abGroup

/-- The rows that are written. -/
def storedTraces (r : RoutedRequest) : List StoredTrace :=
  (traces r.log).zipIdx.filterMap fun call => if call.1.2 then some (r.stored call.2 call.1.1) else none

end RoutedRequest

/-- The table after a history of requests. -/
def storedTraces (history : List RoutedRequest) : List StoredTrace :=
  history.flatMap RoutedRequest.storedTraces

/-! ## The audit calls of a route -/

/-- What the analytics read of an audit call. -/
structure AuditCall where
  ruleId : Option Nat
  handlerStatus : String
  written : Bool
  number : Nat
  deriving DecidableEq

def auditCalls (log : List RouteAction) : List AuditCall :=
  (traces log).zipIdx.map fun call => ⟨call.1.1.matchedRuleId, call.1.1.handlerStatus, call.1.2, call.2⟩

/-- The handler failed. -/
def Dispatch.Failed (d : Dispatch) : Prop := d.outcome.handlerStatus ≠ "ok"

/-- The handler of a rule failed, and the policy asks for the next rule. -/
def Dispatch.FallsThrough (d : Dispatch) : Prop :=
  d.Failed ∧ d.rule.map errorPolicy = some "fallback_next"

instance Dispatch.decidableFailed (d : Dispatch) : Decidable d.Failed := inferInstanceAs (Decidable (_ ≠ _))

instance Dispatch.decidableFallsThrough (d : Dispatch) : Decidable d.FallsThrough :=
  inferInstanceAs (Decidable (_ ∧ _))

/-- The status in the row of one of the dispatches `ds`. -/
def auditedStatus (ds : List Dispatch) (d : Dispatch) : String :=
  if d.rule = none ∧ ∃ d' ∈ ds, d'.FallsThrough then "fallback_default" else d.outcome.handlerStatus

/-- Each dispatch has its audit call, under its number. -/
def Audited (traceFails : Nat → Bool) (status : Dispatch → String) (log : List RouteAction) : Prop :=
  auditCalls log = (dispatches log).zipIdx.map fun d =>
    ⟨d.1.rule.map AgentRule.id, status d.1, !traceFails d.2, d.2⟩

theorem traces_append (log log' : List RouteAction) : traces (log ++ log') = traces log ++ traces log' :=
  List.filterMap_append

theorem traces_events (events : List OrchestratorEvent) : traces (events.map .event) = [] := by
  rw [traces, List.filterMap_map]
  exact List.filterMap_eq_nil_iff.2 fun _ _ => rfl

section Audited

variable {traceFails : Nat → Bool} {status status' : Dispatch → String} {log log' : List RouteAction}

theorem Audited.length (h : Audited traceFails status log) :
    (traces log).length = (dispatches log).length := by
  have hlength := congrArg List.length h
  simpa [auditCalls] using hlength

theorem Audited.congr (h : Audited traceFails status log)
    (hstatus : ∀ d ∈ dispatches log, status d = status' d) : Audited traceFails status' log := by
  refine h.trans (List.map_congr_left fun d hd => ?_)
  rw [hstatus d.1 (List.fst_mem_of_mem_zipIdx hd)]

/-- Nothing was dispatched. -/
theorem Audited.of_same (h : Audited traceFails status log) (hdispatches : dispatches log' = dispatches log)
    (htraces : traces log' = traces log) : Audited traceFails status log' := by
  unfold Audited auditCalls
  rw [hdispatches, htraces]
  exact h

/-- One more dispatch. -/
theorem Audited.concat (h : Audited traceFails status log) {d : Dispatch} {row : TraceRow}
    (hdispatches : dispatches log' = dispatches log ++ [d])
    (htraces : traces log' = traces log ++ [(row, !traceFails (dispatches log).length)])
    (hrule : row.matchedRuleId = d.rule.map AgentRule.id) (hstatus : row.handlerStatus = status d) :
    Audited traceFails status log' := by
  have hlength := h.length
  unfold Audited auditCalls at h ⊢
  rw [hdispatches, htraces, List.zipIdx_append, List.zipIdx_append, List.map_append, List.map_append, h,
    hlength]
  simp [hrule, hstatus]

end Audited

/-! ## The loop -/

/-- What the loop has recorded, and skipped. -/
structure Looped (traceFails : Nat → Bool) (state : RouteState) : Prop where
  audited : Audited traceFails (fun d => d.outcome.handlerStatus) state.log
  number : state.dispatched = (dispatches state.log).length
  rules : ∀ d ∈ dispatches state.log, d.rule ≠ none
  statuses : ∀ d ∈ dispatches state.log, d.outcome.handlerStatus = "ok" ∨ d.outcome.handlerStatus = "error"
  skipped : state.skip ≠ [] ↔ ∃ d ∈ dispatches state.log, d.FallsThrough

theorem Looped.start (traceFails : Nat → Bool) : Looped traceFails {} where
  audited := rfl
  number := rfl
  rules := nofun
  statuses := nofun
  skipped := by simp [dispatches]

theorem handlerOutcome_status (run : HandlerRun) :
    (handlerOutcome run).handlerStatus = "ok" ∨ (handlerOutcome run).handlerStatus = "error" := by
  unfold handlerOutcome
  by_cases h : run.crash.isSome ∨ run.events.any (fun ev => ev.type = "error")
  · exact .inr (if_pos h)
  · exact .inl (if_neg h)

section Loop

variable {outside : Outside} {rules : List AgentRule} {request : RouteRequest}
  {state state' : RouteState}

theorem dispatchAndTrace_traces {rule : Option AgentRule} {handlerType : String}
    {handlerId : Option Nat} {handlerConfig : Workflow.Json} {row : DispatchOutcome → TraceRow}
    {outcome : DispatchOutcome}
    (h : dispatchAndTrace outside request rule handlerType handlerId handlerConfig row state =
      .ok (outcome, state')) :
    traces state'.log = traces state.log ++ [(row outcome, !outside.traceFails state.dispatched)] ∧
      (outcome.handlerStatus = "ok" ∨ outcome.handlerStatus = "error") := by
  rcases Lib.bind_eq_ok.1 h with ⟨-, -, hrun⟩
  cases hrun
  have hfirst : ∀ d events, traces (.dispatch d :: events) = traces events := fun _ _ => rfl
  refine ⟨?_, handlerOutcome_status _⟩
  rw [traces_append, traces_append, hfirst, traces_events, List.append_assoc]
  rfl

/-- A state that differs in what the loop does not record. -/
theorem Looped.of_same {traceFails : Nat → Bool} (h : Looped traceFails state)
    (hdispatches : dispatches state'.log = dispatches state.log)
    (htraces : traces state'.log = traces state.log) (hnumber : state'.dispatched = state.dispatched)
    (hskip : state'.skip = state.skip) : Looped traceFails state' where
  audited := h.audited.of_same hdispatches htraces
  number := by rw [hnumber, hdispatches, h.number]
  rules := hdispatches ▸ h.rules
  statuses := hdispatches ▸ h.statuses
  skipped := by rw [hskip, hdispatches, h.skipped]

/-- A rule is dispatched and audited, and skipped from now on if the policy asks for it. -/
theorem Looped.concat {traceFails : Nat → Bool} (h : Looped traceFails state) {rule : AgentRule}
    {outcome : DispatchOutcome} {row : TraceRow}
    (hdispatches : dispatches state'.log = dispatches state.log ++ [ruleDispatch rule outcome])
    (htraces : traces state'.log = traces state.log ++ [(row, !traceFails state.dispatched)])
    (hnumber : state'.dispatched = state.dispatched + 1)
    (hrow : row.matchedRuleId = some rule.id ∧ row.handlerStatus = outcome.handlerStatus)
    (hstatus : outcome.handlerStatus = "ok" ∨ outcome.handlerStatus = "error")
    (hskip : state'.skip = if (ruleDispatch rule outcome).FallsThrough then state.skip ++ [rule.id]
      else state.skip) : Looped traceFails state' where
  audited := by
    rw [h.number] at htraces
    exact h.audited.concat hdispatches htraces hrow.1 hrow.2
  number := by rw [hnumber, hdispatches, List.length_append, h.number, List.length_singleton]
  rules := by
    intro d hd
    rw [hdispatches] at hd
    rcases mem_concat.1 hd with hold | rfl
    · exact h.rules d hold
    · exact nofun
  statuses := by
    intro d hd
    rw [hdispatches] at hd
    rcases mem_concat.1 hd with hold | rfl
    · exact h.statuses d hold
    · exact hstatus
  skipped := by
    rw [hskip, hdispatches]
    by_cases hfalls : (ruleDispatch rule outcome).FallsThrough
    · rw [if_pos hfalls]
      exact ⟨fun _ => ⟨_, List.mem_append_right _ List.mem_cons_self, hfalls⟩,
        fun _ => List.append_ne_nil_of_right_ne_nil _ (List.cons_ne_nil _ _)⟩
    · rw [if_neg hfalls, h.skipped]
      constructor
      · rintro ⟨d, hd, hthrough⟩
        exact ⟨d, List.mem_append_left _ hd, hthrough⟩
      · rintro ⟨d, hd, hthrough⟩
        rcases mem_concat.1 hd with hold | rfl
        · exact ⟨d, hold, hthrough⟩
        · exact absurd hthrough hfalls

theorem ruleDispatch_fallsThrough {rule : AgentRule} {outcome : DispatchOutcome} :
    (ruleDispatch rule outcome).FallsThrough ↔
      outcome.handlerStatus ≠ "ok" ∧ errorPolicy rule = "fallback_next" :=
  and_congr Iff.rfl (Option.some_inj)

/-- One round, whatever comes of it. -/
theorem attempt_looped {result : Option (Except Exn Ending)} (hs : Looped outside.traceFails state)
    (h : attempt outside rules request state = (result, state')) : Looped outside.traceFails state' := by
  have hattempted := attempted outside rules request state
  rw [h] at hattempted
  have hfollows : ∀ session decision, Looped outside.traceFails (state.decided session decision) := by
    intro session decision
    refine hs.of_same ?_ ?_ rfl rfl
    · exact (dispatches_append state.log [.decision decision]).trans (List.append_nil _)
    · exact (traces_append state.log [.decision decision]).trans (List.append_nil _)
  cases hattempted with
  | unevaluated heval => exact hs.of_same rfl rfl rfl rfl
  | unmatched heval hrule => exact hfollows _ _
  | undispatched heval hrule => exact hfollows _ _
  | @dispatched decision session rule outcome after _ _ heval hrule hdispatch hafter =>
      rcases dispatchAndTrace_spec hdispatch with ⟨hlog, -, hnumber, hafterSkip, -⟩
      rcases dispatchAndTrace_traces hdispatch with ⟨hafterTraces, hstatus⟩
      have hlooped : ∀ final : RouteState, final.log = after.log →
          final.dispatched = after.dispatched →
          (final.skip = if (ruleDispatch rule outcome).FallsThrough then
            after.skip ++ [rule.id] else after.skip) → Looped outside.traceFails final := by
        intro final hfinalLog hfinalNumber hfinalSkip
        rw [hafterSkip] at hfinalSkip
        have hrow : (ruleTrace request rule decision outcome).matchedRuleId = some rule.id ∧
            (ruleTrace request rule decision outcome).handlerStatus = outcome.handlerStatus :=
          ⟨rfl, rfl⟩
        refine (hfollows session decision).concat ?_ ?_ ?_ hrow hstatus hfinalSkip
        · rw [hfinalLog]
          exact hlog
        · rw [hfinalLog]
          exact hafterTraces
        · rw [hfinalNumber]
          exact hnumber
      cases hafter with
      | handled hok =>
          refine hlooped _ rfl rfl (if_neg ?_).symm
          exact fun hfalls => (ruleDispatch_fallsThrough.1 hfalls).1 hok
      | returned hok hreturn =>
          refine hlooped _ rfl rfl (if_neg fun hfalls => ?_).symm
          have hpolicy := (ruleDispatch_fallsThrough.1 hfalls).2
          rw [hreturn] at hpolicy
          exact absurd hpolicy (by decide)
      | next hok hfallback =>
          exact hlooped _ rfl rfl (if_pos (ruleDispatch_fallsThrough.2 ⟨hok, hfallback⟩)).symm
      | useDefault hok hreturn hfallback =>
          refine hlooped _ rfl rfl (if_neg ?_).symm
          exact fun hfalls => hfallback (ruleDispatch_fallsThrough.1 hfalls).2

theorem cascade_looped {n : Nat} {result : Except Exn Ending} (hs : Looped outside.traceFails state)
    (h : cascade outside rules request n state = (result, state')) :
    Looped outside.traceFails state' := by
  induction n generalizing state with
  | zero =>
      cases h
      exact hs
  | succ n ih =>
      unfold cascade at h
      cases hattempt : attempt outside rules request state with
      | mk outcome after =>
      rw [hattempt] at h
      have hafter := attempt_looped hs hattempt
      cases outcome with
      | some outcome =>
          cases h
          exact hafter
      | none => exact ih hafter h

/-- What a call leaves: its audit calls, and at most one dispatch of the default handler, at the
end. -/
structure LogSpec (traceFails : Nat → Bool) (log : List RouteAction) : Prop where
  audited : Audited traceFails (auditedStatus (dispatches log)) log
  statuses : ∀ d ∈ dispatches log, d.outcome.handlerStatus = "ok" ∨ d.outcome.handlerStatus = "error"

theorem auditedStatus_of_rule {ds : List Dispatch} {d : Dispatch} (h : d.rule ≠ none) :
    auditedStatus ds d = d.outcome.handlerStatus :=
  if_neg fun hnone => h hnone.1

theorem Looped.logSpec {traceFails : Nat → Bool} (h : Looped traceFails state) :
    LogSpec traceFails state.log where
  audited := h.audited.congr fun d hd => (auditedStatus_of_rule (h.rules d hd)).symm
  statuses := h.statuses

/-- The row of the default handler says whether a rule was skipped. -/
theorem Looped.logSpec_concat {traceFails : Nat → Bool} {log : List RouteAction}
    (h : Looped traceFails state) {handler : DefaultHandler} {outcome : DispatchOutcome}
    (hdispatches : dispatches log = dispatches state.log ++ [defaultDispatch handler outcome])
    (htraces : traces log = traces state.log ++ [(defaultTrace request handler state.skip outcome,
      !traceFails (dispatches state.log).length)])
    (hstatus : outcome.handlerStatus = "ok" ∨ outcome.handlerStatus = "error") :
    LogSpec traceFails log where
  audited := by
    have hbefore : Audited traceFails (auditedStatus (dispatches log)) state.log :=
      h.audited.congr fun d hd => (auditedStatus_of_rule (h.rules d hd)).symm
    have hskipped : state.skip ≠ [] ↔ (defaultDispatch handler outcome).rule = none ∧
        ∃ d ∈ dispatches log, d.FallsThrough := by
      rw [h.skipped, hdispatches]
      constructor
      · rintro ⟨d, hd, hfalls⟩
        exact ⟨rfl, d, List.mem_append_left _ hd, hfalls⟩
      · rintro ⟨-, d, hd, hfalls⟩
        rcases mem_concat.1 hd with hold | rfl
        · exact ⟨d, hold, hfalls⟩
        · exact absurd hfalls.2 nofun
    refine hbefore.concat hdispatches htraces rfl ?_
    exact if_congr hskipped rfl rfl
  statuses := by
    intro d hd
    rw [hdispatches] at hd
    rcases mem_concat.1 hd with hold | rfl
    · exact h.statuses d hold
    · exact hstatus

theorem route_logSpec (outside : Outside) (rules : List AgentRule) (request : RouteRequest) :
    LogSpec outside.traceFails (route outside rules request).2.log := by
  unfold route
  cases request.config.defaultHandler with
  | none => exact ⟨rfl, nofun⟩
  | some handler =>
      dsimp only
      cases hcascade : cascade outside rules request maxAttempts {} with
      | mk result looped =>
      have hlooped := cascade_looped (Looped.start outside.traceFails) hcascade
      cases result with
      | error e => exact hlooped.logSpec
      | ok ending =>
          cases ending with
          | defaultHandler =>
              dsimp only
              cases hdispatch : dispatchAndTrace outside request none handler.handlerType
                  handler.handlerId handler.handlerConfig
                  (defaultTrace request handler looped.skip) looped with
              | error e => exact hlooped.logSpec
              | ok done =>
                  rcases done with ⟨outcome, after⟩
                  rcases dispatchAndTrace_spec hdispatch with ⟨hlog, -, -, -, -⟩
                  rcases dispatchAndTrace_traces hdispatch with ⟨htraces, hstatus⟩
                  exact hlooped.logSpec_concat hlog (hlooped.number ▸ htraces) hstatus
          | unconfigured => exact hlooped.logSpec
          | handled => exact hlooped.logSpec
          | returnedError => exact hlooped.logSpec

end Loop

/-! ## Counts -/

structure RuleCounts where
  hitCount : Nat := 0
  successCount : Nat := 0
  fallbackNextCount : Nat := 0
  errorCount : Nat := 0
  deriving DecidableEq

def RuleAnalyticsRow.counts (row : RuleAnalyticsRow) : RuleCounts where
  hitCount := row.hitCount
  successCount := row.successCount
  fallbackNextCount := row.fallbackNextCount
  errorCount := row.errorCount

/-- The report on a rule; a rule without a row has no hits. -/
def reportedCounts (report : List RuleAnalyticsRow) (ruleId : Nat) : RuleCounts :=
  ((report.find? fun row => row.ruleId = ruleId).map RuleAnalyticsRow.counts).getD {}

/-- A dispatch of a history, with its number in its request. -/
structure NumberedDispatch where
  request : RoutedRequest
  dispatch : Dispatch
  number : Nat

namespace NumberedDispatch

variable (d : NumberedDispatch)

/-- Its row is written. -/
def written : Bool := !d.request.outside.traceFails d.number

/-- The status in its row. -/
def rowStatus : String := auditedStatus (dispatches d.request.log) d.dispatch

/-- A dispatch of the rule, for the agent and since the cutoff. -/
def OfRule (agentId cutoff ruleId : Nat) : Prop :=
  d.request.agentId = agentId ∧ cutoff ≤ d.request.createdAt d.number ∧
    d.dispatch.rule.map AgentRule.id = some ruleId

instance decidableOfRule (agentId cutoff ruleId : Nat) : Decidable (d.OfRule agentId cutoff ruleId) :=
  inferInstanceAs (Decidable (_ ∧ _))

end NumberedDispatch

def RoutedRequest.dispatched (r : RoutedRequest) : List NumberedDispatch :=
  (dispatches r.log).zipIdx.map fun d => ⟨r, d.1, d.2⟩

/-- The dispatches of a history, in order. -/
def dispatched (history : List RoutedRequest) : List NumberedDispatch :=
  history.flatMap RoutedRequest.dispatched

/-- What the report on a rule should say. -/
def dispatchedCounts (history : List RoutedRequest) (agentId cutoff ruleId : Nat) : RuleCounts where
  hitCount := (dispatched history).countP fun d => d.OfRule agentId cutoff ruleId
  successCount := (dispatched history).countP fun d =>
    d.OfRule agentId cutoff ruleId ∧ ¬ d.dispatch.Failed
  fallbackNextCount := (dispatched history).countP fun d =>
    d.OfRule agentId cutoff ruleId ∧ d.dispatch.FallsThrough
  errorCount := (dispatched history).countP fun d =>
    d.OfRule agentId cutoff ruleId ∧ d.dispatch.Failed ∧ ¬ d.dispatch.FallsThrough

/-! ## What the report counts -/

/-- A row that the report counts for a rule. -/
def StoredTrace.OfRule (t : StoredTrace) (agentId cutoff ruleId : Nat) : Prop :=
  t.agentId = agentId ∧ cutoff ≤ t.createdAt ∧ t.row.matchedRuleId = some ruleId

instance StoredTrace.decidableOfRule (t : StoredTrace) (agentId cutoff ruleId : Nat) :
    Decidable (t.OfRule agentId cutoff ruleId) := inferInstanceAs (Decidable (_ ∧ _))

/-- The rows of a rule with a status. -/
def countStatus (rows : List StoredTrace) (agentId cutoff ruleId : Nat) (status : String) : Nat :=
  rows.countP fun t => t.OfRule agentId cutoff ruleId ∧ t.row.handlerStatus = status

theorem analyticsRows_filter (rows : List StoredTrace) (agentId cutoff ruleId : Nat) :
    (analyticsRows rows agentId cutoff).filter (fun r => r.1 = ruleId) =
      (rows.filter fun t => t.OfRule agentId cutoff ruleId).map fun t => (ruleId, t) := by
  unfold analyticsRows
  induction rows with
  | nil => rfl
  | cons t rows ih =>
      by_cases hin : t.agentId = agentId ∧ cutoff ≤ t.createdAt
      · cases hrule : t.row.matchedRuleId with
        | none =>
            have hnot : ¬ t.OfRule agentId cutoff ruleId := fun h =>
              nomatch hrule.symm.trans h.2.2
            simpa [List.filterMap_cons, hin, hrule, hnot] using ih
        | some id =>
            by_cases hid : id = ruleId
            · have hof : t.OfRule agentId cutoff ruleId := ⟨hin.1, hin.2, by rw [hrule, hid]⟩
              simpa [List.filterMap_cons, hin, hrule, hof, hid] using ih
            · have hnot : ¬ t.OfRule agentId cutoff ruleId := fun h =>
                hid (Option.some.inj (hrule.symm.trans h.2.2))
              simpa [List.filterMap_cons, hin, hrule, hnot, hid] using ih
      · have hnot : ¬ t.OfRule agentId cutoff ruleId := fun h => hin ⟨h.1, h.2.1⟩
        simpa [List.filterMap_cons, hin, hnot] using ih

/-- What a bucket counts. -/
def Bucket.counts (b : Bucket) : RuleCounts where
  hitCount := b.hitCount
  successCount := b.successCount
  fallbackNextCount := b.fallbackNextCount
  errorCount := b.errorCount

theorem foldl_add_counts (rows : List StoredTrace) (b : Bucket) :
    (rows.foldl Bucket.add b).counts =
      { hitCount := b.hitCount + rows.length
        successCount := b.successCount + rows.countP fun t => t.row.handlerStatus = "ok"
        fallbackNextCount := b.fallbackNextCount +
          rows.countP fun t => t.row.handlerStatus = "fallback_next"
        errorCount := b.errorCount + rows.countP fun t => t.row.handlerStatus = "error" } := by
  induction rows generalizing b with
  | nil => rfl
  | cons t rows ih =>
      rw [List.foldl_cons, ih]
      simp only [Bucket.add, List.length_cons, List.countP_cons, decide_eq_true_eq, RuleCounts.mk.injEq]
      omega

/-- A rule's line of the report is its bucket. -/
theorem find?_report (buckets : Dict Nat Bucket) (ruleId : Nat) :
    (((orderByDesc RuleAnalyticsRow.hitCount
      (buckets.entries.map fun entry => entry.2.report entry.1)).find?
        fun row => row.ruleId = ruleId).map RuleAnalyticsRow.counts) =
      (buckets.get? ruleId).map Bucket.counts := by
  have hids : ((orderByDesc RuleAnalyticsRow.hitCount
      (buckets.entries.map fun entry => entry.2.report entry.1)).map RuleAnalyticsRow.ruleId).Nodup := by
    rw [((orderByDesc_perm _ _).map _).nodup_iff, List.map_map]
    exact buckets.nodup
  cases hget : buckets.get? ruleId with
  | none =>
      rw [List.find?_eq_none.2]
      · rfl
      · intro row hrow hid
        rcases List.mem_map.1 (mem_orderByDesc.1 hrow) with ⟨⟨id, b⟩, hentry, rfl⟩
        have hkey : id = ruleId := of_decide_eq_true hid
        subst hkey
        rw [Dict.get?_eq_some_iff.2 hentry] at hget
        cases hget
  | some b =>
      have hmem : b.report ruleId ∈ orderByDesc RuleAnalyticsRow.hitCount
          (buckets.entries.map fun entry => entry.2.report entry.1) :=
        mem_orderByDesc.2 (List.mem_map.2 ⟨(ruleId, b), Dict.get?_eq_some_iff.1 hget, rfl⟩)
      have hid : (b.report ruleId).ruleId = ruleId := rfl
      rw [(find?_key_iff hids).2 ⟨hmem, hid⟩]
      rfl

/-- The counts of a report are those of the rows. -/
theorem reportedCounts_eq (rows : List StoredTrace) (agentId cutoff ruleId : Nat) :
    reportedCounts (rulesAnalytics rows agentId cutoff) ruleId =
      { hitCount := rows.countP fun t => t.OfRule agentId cutoff ruleId
        successCount := countStatus rows agentId cutoff ruleId "ok"
        fallbackNextCount := countStatus rows agentId cutoff ruleId "fallback_next"
        errorCount := countStatus rows agentId cutoff ruleId "error" } := by
  have hcounts : reportedCounts (rulesAnalytics rows agentId cutoff) ruleId =
      ((rows.filter fun t => t.OfRule agentId cutoff ruleId).foldl Bucket.add {}).counts := by
    unfold reportedCounts rulesAnalytics
    rw [find?_report, Dict.get?_tally, analyticsRows_filter, List.foldl_map]
    by_cases hnone : (rows.filter fun t => t.OfRule agentId cutoff ruleId) = []
    · rw [hnone]
      rfl
    · rw [if_neg (mt List.map_eq_nil_iff.1 hnone)]
      rfl
  rw [hcounts, foldl_add_counts]
  simp only [countStatus, List.countP_eq_length_filter, List.filter_filter, Nat.zero_add,
    Bool.decide_and, Bool.and_comm]

/-! ## Rows and dispatches -/

theorem RoutedRequest.logSpec (r : RoutedRequest) : LogSpec r.outside.traceFails r.log :=
  route_logSpec r.outside r.rules r.request

/-- What is counted over the rows can be counted over the dispatches whose rows are written. -/
theorem countP_storedTraces (q : Nat → Nat → Option Nat → String → Bool)
    (history : List RoutedRequest) :
    (storedTraces history).countP (fun t => q t.agentId t.createdAt t.row.matchedRuleId t.row.handlerStatus) =
      (dispatched history).countP fun d => d.written && q d.request.agentId
        (d.request.createdAt d.number) (d.dispatch.rule.map AgentRule.id) d.rowStatus := by
  unfold storedTraces dispatched
  rw [List.countP_flatMap, List.countP_flatMap]
  refine congrArg List.sum (List.map_congr_left fun r _ => ?_)
  have hcalls : (auditCalls r.log).countP (fun c => c.written &&
      q r.agentId (r.createdAt c.number) c.ruleId c.handlerStatus) =
      r.dispatched.countP fun d => d.written && q d.request.agentId
        (d.request.createdAt d.number) (d.dispatch.rule.map AgentRule.id) d.rowStatus := by
    have haudited : auditCalls r.log = _ := r.logSpec.audited
    rw [haudited, RoutedRequest.dispatched, List.countP_map, List.countP_map]
    rfl
  rw [Function.comp_apply, Function.comp_apply, ← hcalls, RoutedRequest.storedTraces,
    List.countP_filterMap, auditCalls, List.countP_map]
  refine List.countP_congr fun call _ => ?_
  cases hwritten : call.1.2 <;> simp [hwritten, RoutedRequest.stored]

theorem countP_and_eq_iff {α : Type} (p q : α → Bool) (l : List α) :
    l.countP (fun a => p a && q a) = l.countP q ↔ ∀ a ∈ l, q a = true → p a = true := by
  rw [← List.countP_filter, List.countP_eq_length_filter (p := q), List.countP_eq_length]
  simp only [List.mem_filter, and_imp]

section Rows

variable {history : List RoutedRequest} {agentId cutoff ruleId : Nat} {d : NumberedDispatch}

theorem mem_dispatches_of_mem_dispatched (h : d ∈ dispatched history) :
    d.request ∈ history ∧ d.dispatch ∈ dispatches d.request.log := by
  rcases List.mem_flatMap.1 h with ⟨r, hr, hd⟩
  rcases List.mem_map.1 hd with ⟨p, hp, rfl⟩
  exact ⟨hr, List.fst_mem_of_mem_zipIdx hp⟩

/-- The row of a rule has the status of its handler. -/
theorem rowStatus_of_rule (h : d ∈ dispatched history) (hrule : d.OfRule agentId cutoff ruleId) :
    d.rowStatus = d.dispatch.outcome.handlerStatus ∧
      (d.dispatch.outcome.handlerStatus = "ok" ∨ d.dispatch.outcome.handlerStatus = "error") := by
  have hsome : d.dispatch.rule ≠ none := fun hnone => by
    have hid := hrule.2.2
    rw [hnone] at hid
    cases hid
  exact ⟨auditedStatus_of_rule hsome,
    d.request.logSpec.statuses _ (mem_dispatches_of_mem_dispatched h).2⟩

theorem countP_ofRule (history : List RoutedRequest) (agentId cutoff ruleId : Nat) :
    (storedTraces history).countP (fun t => t.OfRule agentId cutoff ruleId) =
      (dispatched history).countP fun d => d.written && decide (d.OfRule agentId cutoff ruleId) :=
  countP_storedTraces (fun agent created rule _ => agent = agentId ∧ cutoff ≤ created ∧ rule = some ruleId)
    history

theorem countStatus_eq (history : List RoutedRequest) (agentId cutoff ruleId : Nat) (status : String) :
    countStatus (storedTraces history) agentId cutoff ruleId status =
      (dispatched history).countP fun d => d.written && decide (d.OfRule agentId cutoff ruleId ∧
        d.dispatch.outcome.handlerStatus = status) := by
  refine (countP_storedTraces (fun agent created rule rowStatus =>
    (agent = agentId ∧ cutoff ≤ created ∧ rule = some ruleId) ∧ rowStatus = status) history).trans ?_
  refine List.countP_congr fun d hd => ?_
  simp only [Bool.and_eq_true, decide_eq_true_eq]
  refine and_congr_right fun _ => and_congr_right fun hrule => ?_
  rw [(rowStatus_of_rule hd hrule).1]

/-- The counts of a rule are right exactly if each of its dispatches has its row, and none asked for
the next rule. -/
theorem counts_iff (history : List RoutedRequest) (agentId cutoff ruleId : Nat) :
    reportedCounts (rulesAnalytics (storedTraces history) agentId cutoff) ruleId =
        dispatchedCounts history agentId cutoff ruleId ↔
      ∀ d ∈ dispatched history, d.OfRule agentId cutoff ruleId →
        d.written = true ∧ ¬ d.dispatch.FallsThrough := by
  rw [reportedCounts_eq, countP_ofRule, countStatus_eq, countStatus_eq, countStatus_eq]
  unfold dispatchedCounts
  have hnone : (dispatched history).countP (fun d => d.written &&
      decide (d.OfRule agentId cutoff ruleId ∧ d.dispatch.outcome.handlerStatus = "fallback_next")) = 0 := by
    rw [List.countP_eq_zero]
    intro d hd
    simp only [Bool.and_eq_true, decide_eq_true_eq]
    rintro ⟨-, hrule, hstatus⟩
    rcases (rowStatus_of_rule hd hrule).2 with hok | herror
    · exact absurd (hok.symm.trans hstatus) (by decide)
    · exact absurd (herror.symm.trans hstatus) (by decide)
  rw [hnone, RuleCounts.mk.injEq]
  constructor
  · rintro ⟨hhit, -, hnext, -⟩ d hd hrule
    refine ⟨(countP_and_eq_iff _ _ _).1 hhit d hd (decide_eq_true hrule), fun hfalls => ?_⟩
    exact List.countP_eq_zero.1 hnext.symm d hd (decide_eq_true ⟨hrule, hfalls⟩)
  · intro hplain
    refine ⟨(countP_and_eq_iff _ _ _).2 fun d hd hrule => (hplain d hd (of_decide_eq_true hrule)).1,
      ?_, ?_, ?_⟩
    · refine List.countP_congr fun d hd => ?_
      simp only [Bool.and_eq_true, decide_eq_true_eq]
      constructor
      · rintro ⟨-, hrule, hok⟩
        exact ⟨hrule, fun hfailed => hfailed hok⟩
      · rintro ⟨hrule, hok⟩
        exact ⟨(hplain d hd hrule).1, hrule, not_not.1 hok⟩
    · refine (List.countP_eq_zero.2 fun d hd hboth => ?_).symm
      rcases of_decide_eq_true hboth with ⟨hrule, hfalls⟩
      exact (hplain d hd hrule).2 hfalls
    · refine List.countP_congr fun d hd => ?_
      simp only [Bool.and_eq_true, decide_eq_true_eq]
      constructor
      · rintro ⟨-, hrule, herror⟩
        refine ⟨hrule, fun hok => ?_, (hplain d hd hrule).2⟩
        exact absurd (herror.symm.trans hok) (by decide)
      · rintro ⟨hrule, hfailed, -⟩
        exact ⟨(hplain d hd hrule).1, hrule, (rowStatus_of_rule hd hrule).2.resolve_left hfailed⟩

/-- A written row of the default handler, by its dispatch. -/
theorem exists_defaultRow_iff (r : RoutedRequest) (status : String) :
    (∃ t ∈ r.storedTraces, t.row.matchedRuleId = none ∧ t.row.handlerStatus = status) ↔
      ∃ d ∈ r.dispatched, d.dispatch.rule = none ∧ d.written = true ∧ d.rowStatus = status := by
  have hcount := countP_storedTraces (fun _ _ rule rowStatus => rule = none ∧ rowStatus = status) [r]
  have hpos : 0 < (storedTraces [r]).countP (fun t => t.row.matchedRuleId = none ∧
      t.row.handlerStatus = status) ↔ _ := iff_of_eq (congrArg (0 < ·) hcount)
  rw [List.countP_pos_iff, List.countP_pos_iff] at hpos
  simpa [storedTraces, dispatched, and_comm, and_assoc] using hpos

end Rows

/-! ## Histories and their description -/

/-- The handler of a rule failed in the request. -/
def RoutedRequest.HandlerFailed (r : RoutedRequest) : Prop :=
  ∃ d ∈ dispatches r.log, d.rule ≠ none ∧ d.Failed

/-- The report counts what was dispatched, and a row of the default handler says whether it was
reached because of a failure. -/
structure Described (history : List RoutedRequest) (agentId cutoff : Nat) : Prop where
  counts : ∀ ruleId, reportedCounts (rulesAnalytics (storedTraces history) agentId cutoff) ruleId =
    dispatchedCounts history agentId cutoff ruleId
  defaults : ∀ r ∈ history, ∀ t ∈ r.storedTraces, t.row.matchedRuleId = none →
    (t.row.handlerStatus = "fallback_default" ↔ r.HandlerFailed)

/-- Every counted dispatch has its row and did not fail under `fallback_next`; where the default
handler has a row and a rule failed, one failed under `fallback_next`. -/
structure Describable (history : List RoutedRequest) (agentId cutoff : Nat) : Prop where
  counts : ∀ ruleId, ∀ d ∈ dispatched history, d.OfRule agentId cutoff ruleId →
    d.written = true ∧ ¬ d.dispatch.FallsThrough
  defaults : ∀ r ∈ history, ∀ d ∈ r.dispatched, d.dispatch.rule = none → d.written = true →
    r.HandlerFailed → ∃ d' ∈ dispatches r.log, d'.FallsThrough

theorem Dispatch.FallsThrough.rule_ne_none {d : Dispatch} (h : d.FallsThrough) : d.rule ≠ none := by
  intro hnone
  have hpolicy := h.2
  rw [hnone] at hpolicy
  cases hpolicy

/-- The row of the default handler tells of a failure exactly if a rule fell through. -/
theorem rowStatus_default_iff {r : RoutedRequest} {d : NumberedDispatch} (hd : d ∈ r.dispatched)
    (hrule : d.dispatch.rule = none) :
    d.rowStatus = "fallback_default" ↔ ∃ d' ∈ dispatches r.log, d'.FallsThrough := by
  rcases List.mem_map.1 hd with ⟨p, hp, rfl⟩
  have hstatus := r.logSpec.statuses p.1 (List.fst_mem_of_mem_zipIdx hp)
  unfold NumberedDispatch.rowStatus auditedStatus
  by_cases hfalls : ∃ d' ∈ dispatches r.log, d'.FallsThrough
  · rw [if_pos ⟨hrule, hfalls⟩]
    exact ⟨fun _ => hfalls, fun _ => rfl⟩
  · rw [if_neg fun h => hfalls h.2]
    refine ⟨fun heq => ?_, fun h => absurd h hfalls⟩
    rcases hstatus with hok | herror
    · exact absurd (hok.symm.trans heq) (by decide)
    · exact absurd (herror.symm.trans heq) (by decide)

/-- The audit trail and its analytics describe a history exactly if it is describable. -/
theorem described_iff (history : List RoutedRequest) (agentId cutoff : Nat) :
    Described history agentId cutoff ↔ Describable history agentId cutoff := by
  have hthrough : ∀ r : RoutedRequest, (∃ d' ∈ dispatches r.log, d'.FallsThrough) → r.HandlerFailed :=
    fun r ⟨d', hd', hfalls⟩ => ⟨d', hd', hfalls.rule_ne_none, hfalls.1⟩
  constructor
  · intro h
    refine ⟨fun ruleId => (counts_iff history agentId cutoff ruleId).1 (h.counts ruleId), ?_⟩
    intro r hr d hd hrule hwritten hfailed
    rcases (exists_defaultRow_iff r d.rowStatus).2 ⟨d, hd, hrule, hwritten, rfl⟩ with
      ⟨t, ht, hnone, hstatus⟩
    have hfallback := (h.defaults r hr t ht hnone).2 hfailed
    exact (rowStatus_default_iff hd hrule).1 (hstatus.symm.trans hfallback)
  · intro h
    refine ⟨fun ruleId => (counts_iff history agentId cutoff ruleId).2 (h.counts ruleId), ?_⟩
    intro r hr t ht hnone
    rcases (exists_defaultRow_iff r t.row.handlerStatus).1 ⟨t, ht, hnone, rfl⟩ with
      ⟨d, hd, hrule, hwritten, hstatus⟩
    rw [← hstatus, rowStatus_default_iff hd hrule]
    exact ⟨hthrough r, h.defaults r hr d hd hrule hwritten⟩

/-- One request whose rule fails under `fallback_next`. -/
def fallbackRequest : RoutedRequest where
  agentId := 0
  outside := crashingHandlers
  rules := [helpRule]
  request := helpRequest
  createdAt _ := 0
  handlerLatencyMs _ := 1

/-- The failure is counted as an error. -/
theorem fallback_next_uncounted :
    ¬ ∀ (history : List RoutedRequest) (agentId cutoff : Nat), Described history agentId cutoff := by
  intro h
  have hcounts := (h [fallbackRequest] 0 0).counts 0
  have hreported : reportedCounts (rulesAnalytics (storedTraces [fallbackRequest]) 0 0) 0 =
      { hitCount := 1, errorCount := 1 } := rfl
  have hdispatched : dispatchedCounts [fallbackRequest] 0 0 0 =
      { hitCount := 1, fallbackNextCount := 1 } := rfl
  rw [hreported, hdispatched] at hcounts
  exact absurd hcounts (by decide)

end OpsKnowledge.Orchestrator
