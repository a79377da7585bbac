import OpsKnowledge.Lib.Transition
import OpsKnowledge.Orchestrator.Rebalance

/-!
# The version history of the rules

`create_rule`, `update_rule` and `rollback_rule` write a snapshot of the rule. `move_rule`
and the rebalance task change its priority and write none.
-/

namespace OpsKnowledge.Orchestrator

open OpsKnowledge.Lib

/-- The versions of a rule are 1 to its version, and the last one is the live rule. -/
structure HistoryCurrent (s : RuleStore) : Prop where
  numbered : ∀ rule ∈ s.rules,
    (s.versionsOf rule.id).map AgentRuleVersion.version = List.range' 1 rule.version
  latest : ∀ rule ∈ s.rules, (s.versionsOf rule.id).getLast? = some rule.snapshot

/-- The rule has the fields of its version `version`. -/
def Restores (s s' : RuleStore) (ruleId version : Nat) : Prop :=
  ∃ row ∈ s.versions, row.ruleId = ruleId ∧ row.version = version ∧
    ∃ rule ∈ s'.rules, rule.id = ruleId ∧ rule.snapshot = { row with version := rule.version }

section Steps

variable (library : Library) (scope : Scope) (round : ℚ → ℚ)

def RollbackRestores (s : RuleStore) (op : RuleOp) : Prop :=
  ∀ agentId ruleId version s', op = .rollback agentId ruleId version →
    s.step library scope round op = some s' → Restores s s' ruleId version

/-- No priority changes without a snapshot: a rule is moved to a place with the priority it has,
and the rebalance task finds every agent settled. -/
def StepRecorded (s : RuleStore) : RuleOp → Prop
  | .move agentId ruleId afterRuleId tie => ∀ rule ∈ s.rules, rule.id = ruleId →
      RuleStore.placePriority round (s.otherRules agentId ruleId tie) afterRuleId =
        .ok rule.priority
  | .rebalance tie => ∀ agent ∈ scope.agents, agent.agentType = "orchestrator" →
      RuleStore.Settled round s tie agent.id
  | .create _ _ _ _ | .update _ _ _ | .rollback _ _ _ | .delete _ _ => True

end Steps

namespace HistoryCurrent

variable {library : Library} {scope : Scope} {round : ℚ → ℚ} {s s' : RuleStore}

theorem empty : HistoryCurrent {} := ⟨nofun, nofun⟩

theorem insert (hs : s.Wf) (h : HistoryCurrent s) {rule : AgentRule}
    (hfresh : ∀ row ∈ s.rules, row.id ≠ rule.id) (hversion : rule.version = 1) :
    HistoryCurrent { rules := s.rules ++ [rule], versions := s.versions ++ [rule.snapshot] } where
  numbered r hr := ((hs.insert hfresh hversion).numbered r hr).2
  latest := by
    intro r hr
    rcases mem_concat.1 hr with hold | hnew
    · rw [RuleStore.versionsOf_concat_of_ne _ (hfresh r hold).symm]
      exact h.latest r hold
    · subst hnew
      have hrows := RuleStore.versionsOf_concat_self (s := s) (s.rules ++ [r]) r.snapshot
      change RuleStore.versionsOf _ r.id = _ at hrows
      rw [hrows, List.getLast?_concat]

theorem saved (hs : s.Wf) (h : HistoryCurrent s) {rule rule' : AgentRule} (hrule : rule ∈ s.rules)
    (hid : rule'.id = rule.id) (hversion : rule'.version = rule.nextVersion) :
    HistoryCurrent (s.saved rule') where
  numbered r hr := ((hs.saved hrule hid hversion).numbered r hr).2
  latest := by
    intro r hr
    rcases (mem_replaceRow hrule hid.symm).1 hr with rfl | ⟨hold, hne⟩
    · have hrows : (s.saved r).versionsOf r.id = s.versionsOf r.id ++ [r.snapshot] :=
        RuleStore.versionsOf_concat_self (s := s) _ r.snapshot
      rw [hrows, List.getLast?_concat]
    · have hrows : (s.saved rule').versionsOf r.id = s.versionsOf r.id :=
        RuleStore.versionsOf_concat_of_ne (s := s) _ (Ne.symm hne)
      rw [hrows]
      exact h.latest r hold

theorem delete (hs : s.Wf) (h : HistoryCurrent s) (ruleId : Nat) :
    HistoryCurrent { rules := s.rules.filter fun rule => rule.id ≠ ruleId
                     versions := s.versions.filter fun row => row.ruleId ≠ ruleId } where
  numbered r hr := ((hs.delete ruleId).numbered r hr).2
  latest := by
    intro r hr
    rcases List.mem_filter.1 hr with ⟨hold, hne⟩
    rw [RuleStore.versionsOf_delete _ (of_decide_eq_true hne)]
    exact h.latest r hold

/-- A priority that is set without a snapshot has to be the one the rule has. -/
theorem setRow_iff (hs : s.Wf) (h : HistoryCurrent s) {rule : AgentRule} (hrule : rule ∈ s.rules)
    (priority : ℚ) :
    HistoryCurrent (s.setRow { rule with priority := priority }) ↔ priority = rule.priority := by
  have hlive := h.latest rule hrule
  constructor
  · intro hnew
    have hlatest := hnew.latest _ ((RuleStore.mem_setRow hrule (by rfl)).2 (.inl rfl))
    change (s.versionsOf rule.id).getLast? = _ at hlatest
    rw [hlive] at hlatest
    exact (congrArg AgentRuleVersion.priority (Option.some.inj hlatest)).symm
  · intro hsame
    refine ⟨fun r hr => ((hs.setRow hrule priority).numbered r hr).2, ?_⟩
    intro r hr
    rcases (RuleStore.mem_setRow hrule (by rfl)).1 hr with rfl | ⟨hold, -⟩
    · rw [hsame]
      exact hlive
    · exact h.latest r hold

theorem rebalance_iff (hs : s.Wf) (h : HistoryCurrent s) (tie : AgentRule → Nat) :
    HistoryCurrent (s.priorityRebalance scope round tie) ↔
      ¬ RuleStore.Moved s (s.priorityRebalance scope round tie) := by
  rcases RuleStore.priorityRebalance_eq scope round s tie with ⟨priority, heq⟩
  rw [heq]
  constructor
  · rintro hnew ⟨rule, hrule, moved, hne, hmem⟩
    have hlatest := hnew.latest _ hmem
    change (s.versionsOf rule.id).getLast? = _ at hlatest
    rw [h.latest rule hrule] at hlatest
    exact hne (congrArg AgentRuleVersion.priority (Option.some.inj hlatest)).symm
  · intro hmoved
    refine ⟨fun r hr => ((hs.reprioritised priority).numbered r hr).2, ?_⟩
    intro r hr
    rcases List.mem_map.1 hr with ⟨rule, hrule, rfl⟩
    have hsame : priority rule = rule.priority := by
      by_contra hne
      exact hmoved ⟨rule, hrule, priority rule, hne, hr⟩
    rw [hsame]
    exact h.latest rule hrule

theorem step_iff {op : RuleOp} (hs : s.Wf) (hc : HistoryCurrent s)
    (h : s.step library scope round op = some s') :
    HistoryCurrent s' ↔ StepRecorded scope round s op := by
  rw [RuleStore.step_eq_some] at h
  cases op with
  | create agentId ruleId now body =>
      rcases RuleStore.createRule_eq_ok h with ⟨data, -, -, hfresh, rfl⟩
      exact ⟨fun _ => trivial, fun _ => hc.insert hs hfresh rfl⟩
  | update agentId ruleId body =>
      rcases RuleStore.updateRule_eq_ok h with ⟨data, rule, rule', -, hrule, -, -, hupdated, -, rfl⟩
      rcases RuleStore.updated_eq_ok hupdated with ⟨hid, -, -, -, hversion, -⟩
      exact ⟨fun _ => trivial, fun _ => hc.saved hs hrule hid hversion⟩
  | rollback agentId ruleId version =>
      rcases RuleStore.rollbackRule_eq_ok h with ⟨rule, target, hrule, -, -, -, rfl⟩
      exact ⟨fun _ => trivial, fun _ => hc.saved hs hrule rfl rfl⟩
  | delete agentId ruleId =>
      rw [RuleStore.deleteRule_eq_ok h]
      exact ⟨fun _ => trivial, fun _ => hc.delete hs ruleId⟩
  | move agentId ruleId afterRuleId tie =>
      rcases RuleStore.moveRule_eq_ok h with ⟨rule, priority, hrule, rfl, rfl, hplace, rfl⟩
      rw [hc.setRow_iff hs hrule priority]
      constructor
      · intro hsame row hrow hid
        rw [hs.eq_of_id_eq hrow hrule hid, ← hsame]
        exact hplace
      · intro hrecorded
        have hown := hrecorded rule hrule rfl
        rw [hplace] at hown
        exact Except.ok.inj hown
  | rebalance tie =>
      cases h
      rw [hc.rebalance_iff hs tie]
      exact RuleStore.not_moved_iff hs tie

end HistoryCurrent

/-- A rollback always restores the version, whatever was moved before. -/
theorem rollbackRestores (library : Library) (scope : Scope) (round : ℚ → ℚ) (s : RuleStore)
    (op : RuleOp) : RollbackRestores library scope round s op := by
  rintro agentId ruleId version s' rfl h
  rcases RuleStore.rollbackRule_eq_ok (RuleStore.step_eq_some.1 h) with
    ⟨rule, target, hrule, hid, -, htarget, rfl⟩
  have hfound := List.find?_some htarget
  rw [decide_eq_true_eq] at hfound
  have hmem : rule.restored target ∈ (s.saved (rule.restored target)).rules :=
    (RuleStore.mem_setRow hrule (by rfl)).2 (.inl rfl)
  refine ⟨target, List.mem_of_find?_eq_some htarget, hfound.1, hfound.2, _, hmem, hid, ?_⟩
  rcases target with ⟨ruleId', version'⟩
  have hruleId : ruleId' = rule.id := hfound.1.trans hid.symm
  rw [hruleId]
  rfl

/-- Along a run the history is contiguous and current and rollbacks restore, exactly if no move
and no rebalancing changes a priority. -/
theorem history_current_iff (library : Library) (scope : Scope) (round : ℚ → ℚ)
    (ops : List RuleOp) :
    Visits (RuleStore.step library scope round) HistoryCurrent {} ops ∧
        EveryStep (RuleStore.step library scope round) (RollbackRestores library scope round) {}
          ops ↔
      EveryStep (RuleStore.step library scope round) (StepRecorded scope round) {} ops := by
  have hrollback : EveryStep (RuleStore.step library scope round)
      (RollbackRestores library scope round) {} ops :=
    EveryStep.of_forall (rollbackRestores library scope round) {} ops
  have hinv : ∀ s op s', s.Wf → RuleStore.step library scope round s op = some s' → s'.Wf :=
    fun _ _ _ hs h => hs.step h
  have hstep : ∀ s op s', s.Wf → HistoryCurrent s →
      RuleStore.step library scope round s op = some s' →
      (HistoryCurrent s' ↔ StepRecorded scope round s op) :=
    fun _ _ _ hs hc h => hc.step_iff hs h
  rw [← visits_iff_everyStep_of_inv hinv hstep .empty .empty ops]
  exact and_iff_left hrollback

/-- A rule is created with priority 5 and moved to the top. -/
def movedRule : List RuleOp :=
  [.create 0 0 0 (helpBody (some 5)), .move 0 0 none fun _ => 0]

/-- The move sets the priority to 10, the only snapshot has 5. -/
theorem moved_rule_unrecorded :
    ¬ ∀ (library : Library) (scope : Scope) (round : ℚ → ℚ) (ops : List RuleOp),
        Visits (RuleStore.step library scope round) HistoryCurrent {} ops ∧
          EveryStep (RuleStore.step library scope round) (RollbackRestores library scope round) {}
            ops := by
  intro h
  have hrun : ∃ s, runSteps (RuleStore.step plainLibrary oneWorkflow id) {} movedRule = some s ∧
      ∃ rule ∈ s.rules, (s.versionsOf rule.id).getLast?.map AgentRuleVersion.priority = some 5 ∧
        rule.priority = 10 :=
    ⟨_, rfl, _, List.mem_cons_self, rfl, rfl⟩
  rcases hrun with ⟨s, hrun, rule, hrule, hsnapshot, hlive⟩
  have hlatest := ((h plainLibrary oneWorkflow id movedRule).1.last hrun).latest rule hrule
  rw [hlatest] at hsnapshot
  have hfive : rule.priority = 5 := Option.some.inj hsnapshot
  rw [hlive] at hfive
  exact absurd hfive (by decide +kernel)

end OpsKnowledge.Orchestrator
