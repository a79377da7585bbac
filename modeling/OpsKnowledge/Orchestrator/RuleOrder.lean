import Mathlib.Data.List.Pairwise
import Mathlib.Tactic.Linarith
import OpsKnowledge.Lib.Transition
import OpsKnowledge.Orchestrator.Rebalance

/-!
# The order of the rules

Evaluation and the rebalance task order an agent's rules by priority, `list_rules` by
priority and creation time. The orders are one, whatever the database does with ties, where
no two rules of an agent have the same priority.
-/

namespace OpsKnowledge.Orchestrator

open Workflow (Json)
open OpsKnowledge.Lib

namespace RuleStore

/-- No two rules of an agent have the same priority. -/
def Distinct (s : RuleStore) : Prop :=
  ∀ a ∈ s.rules, ∀ b ∈ s.rules, a.agentId = b.agentId → a.priority = b.priority → a.id = b.id

/-- No other rule of the agent has the priority. -/
def Free (s : RuleStore) (agentId ruleId : Nat) (priority : ℚ) : Prop :=
  ∀ rule ∈ s.rules, rule.agentId = agentId → rule.id ≠ ruleId → rule.priority ≠ priority

end RuleStore

/-- The orders agree for every way in which the database breaks ties, one for each query, and
the rebalance task moves no rule in the list. -/
structure SameOrders (scope : Scope) (round : ℚ → ℚ) (s : RuleStore) : Prop where
  evaluated : ∀ (agentId : Nat) (tie tie' : AgentRule → Nat),
    s.activeRules agentId tie = (s.listRules agentId tie').filter AgentRule.isActive
  rebalanced : ∀ (agentId : Nat) (tie tie' : AgentRule → Nat),
    s.rebalanceOrder agentId tie = s.listRules agentId tie'
  positions : ∀ (agentId : Nat) (tie tie' tie'' : AgentRule → Nat),
    ((s.priorityRebalance scope round tie).listRules agentId tie').map AgentRule.id =
      (s.listRules agentId tie'').map AgentRule.id

/-- A step that places a rule gives it a priority of its own. -/
def StepDistinct (round : ℚ → ℚ) (s : RuleStore) : RuleOp → Prop
  | .create agentId ruleId _ body =>
      s.Free agentId ruleId (body.priority.getD (s.endPriority round agentId))
  | .rollback agentId ruleId version => ∀ target,
      s.versions.find? (fun row => row.ruleId = ruleId ∧ row.version = version) = some target →
        s.Free agentId ruleId target.priority
  | .move agentId ruleId afterRuleId tie => ∀ priority,
      RuleStore.placePriority round (s.otherRules agentId ruleId tie) afterRuleId = .ok priority →
        s.Free agentId ruleId priority
  | .update _ _ _ | .delete _ _ | .rebalance _ => True

/-! ## Orders of distinct priorities -/

theorem priorityKey_le {tie : AgentRule → Nat} {a b : AgentRule}
    (h : priorityKey tie a ≤ priorityKey tie b) : a.priority ≤ b.priority := by
  rcases Prod.Lex.le_iff.1 h with hlt | ⟨heq, -⟩
  · exact le_of_lt hlt
  · exact le_of_eq heq

theorem displayKey_le {tie : AgentRule → Nat} {a b : AgentRule}
    (h : displayKey tie a ≤ displayKey tie b) : a.priority ≤ b.priority := by
  rcases Prod.Lex.le_iff.1 h with hlt | ⟨heq, -⟩
  · exact le_of_lt hlt
  · exact le_of_eq heq

namespace RuleStore

variable {scope : Scope} {round : ℚ → ℚ} {s s' : RuleStore} {agentId : Nat}

theorem Distinct.rulesOf (hs : s.Wf) (h : s.Distinct) (agentId : Nat) :
    (s.rulesOf agentId).Pairwise fun a b => a.priority ≠ b.priority := by
  have hids : (s.rulesOf agentId).Pairwise fun a b => a.id ≠ b.id :=
    List.pairwise_map.1 (hs.ids.sublist (List.filter_sublist.map _))
  apply List.Pairwise.imp_of_mem _ hids
  intro a b ha hb hid hpriority
  rcases mem_rulesOf.1 ha with ⟨hmemA, hagentA⟩
  rcases mem_rulesOf.1 hb with ⟨hmemB, hagentB⟩
  exact hid (h a hmemA b hmemB (hagentA.trans hagentB.symm) hpriority)

theorem listRules_strict (hs : s.Wf) (h : s.Distinct) (agentId : Nat) (tie : AgentRule → Nat) :
    (s.listRules agentId tie).Pairwise fun a b => a.priority < b.priority :=
  orderBy_strict AgentRule.priority (fun _ _ => displayKey_le) (h.rulesOf hs agentId)

theorem activeRules_eq (hs : s.Wf) (h : s.Distinct) (tie tie' : AgentRule → Nat) :
    s.activeRules agentId tie = (s.listRules agentId tie').filter AgentRule.isActive :=
  orderBy_filter AgentRule.priority (fun _ _ => priorityKey_le) (fun _ _ => displayKey_le)
    (h.rulesOf hs agentId) AgentRule.isActive

theorem rebalanceOrder_eq (hs : s.Wf) (h : s.Distinct) (tie tie' : AgentRule → Nat) :
    s.rebalanceOrder agentId tie = s.listRules agentId tie' :=
  orderBy_eq_orderBy AgentRule.priority (fun _ _ => priorityKey_le) (fun _ _ => displayKey_le)
    (h.rulesOf hs agentId)

theorem listRules_eq (hs : s.Wf) (h : s.Distinct) (tie tie' : AgentRule → Nat) :
    s.listRules agentId tie = s.listRules agentId tie' :=
  orderBy_eq_orderBy AgentRule.priority (fun _ _ => displayKey_le) (fun _ _ => displayKey_le)
    (h.rulesOf hs agentId)

/-! ## One agent rebalanced -/

/-- Other agents' rules stay; the agent's rules keep their order. -/
structure KeepsOrder (s s' : RuleStore) : Prop where
  wf : s'.Wf
  distinct : s'.Distinct
  ids : ∀ (agentId : Nat) (tie tie' : AgentRule → Nat),
    (s'.listRules agentId tie).map AgentRule.id = (s.listRules agentId tie').map AgentRule.id

theorem KeepsOrder.refl (hs : s.Wf) (h : s.Distinct) : KeepsOrder s s :=
  ⟨hs, h, fun _ tie tie' => by rw [listRules_eq hs h tie tie']⟩

theorem KeepsOrder.trans {s₁ s₂ s₃ : RuleStore} (h : KeepsOrder s₁ s₂) (h' : KeepsOrder s₂ s₃) :
    KeepsOrder s₁ s₃ :=
  ⟨h'.wf, h'.distinct, fun agentId tie tie' =>
    (h'.ids agentId tie tie').trans (h.ids agentId tie' tie')⟩

section Respace

variable (hs : s.Wf) (agentId : Nat) (tie : AgentRule → Nat)
include hs

/-- The rows get ascending priorities in the order in which they were read. -/
theorem respace_strict :
    ((s.rebalanceOrder agentId tie).map
      (assigned (respaced (s.rebalanceOrder agentId tie)))).Pairwise
        fun a b => a.priority < b.priority := by
  rw [List.pairwise_iff_getElem]
  intro i j hi hj hij
  rw [List.length_map] at hi hj
  rw [List.getElem_map, List.getElem_map, priority_respace hs agentId tie hi,
    priority_respace hs agentId tie hj]
  have hlt : (i : ℚ) < j := by exact_mod_cast hij
  unfold rebalanceStep
  linarith

theorem respace_distinct (h : s.Distinct) : (s.respace agentId tie).Distinct := by
  intro a ha b hb hagent hpriority
  rcases List.mem_map.1 ha with ⟨rule, hrule, rfl⟩
  rcases List.mem_map.1 hb with ⟨rule', hrule', rfl⟩
  rw [assigned_agentId, assigned_agentId] at hagent
  by_cases hid : rule.agentId = agentId
  · have hmem : rule ∈ s.rebalanceOrder agentId tie :=
      mem_orderBy.2 (mem_rulesOf.2 ⟨hrule, hid⟩)
    have hmem' : rule' ∈ s.rebalanceOrder agentId tie :=
      mem_orderBy.2 (mem_rulesOf.2 ⟨hrule', hagent.symm.trans hid⟩)
    have hsymm : Std.Symm fun a b : AgentRule => a.priority ≠ b.priority := ⟨fun _ _ => Ne.symm⟩
    have hall := ((respace_strict hs agentId tie).imp fun hlt => ne_of_lt hlt).forall
    by_contra hne
    have hrules : assigned (respaced (s.rebalanceOrder agentId tie)) rule ≠
        assigned (respaced (s.rebalanceOrder agentId tie)) rule' :=
      fun heq => hne (congrArg AgentRule.id heq)
    exact hall (List.mem_map_of_mem hmem) (List.mem_map_of_mem hmem') hrules hpriority
  · rw [respace_other hs agentId tie hrule hid,
      respace_other hs agentId tie hrule' (hagent ▸ hid)] at hpriority
    exact h rule hrule rule' hrule' hagent hpriority

theorem keepsOrder_respace (h : s.Distinct) : KeepsOrder s (s.respace agentId tie) := by
  have hwf := respace_wf hs agentId tie
  have hdistinct := respace_distinct hs agentId tie h
  refine ⟨hwf, hdistinct, ?_⟩
  intro other tie' tie''
  have hrules : (s.respace agentId tie).rulesOf other =
      (s.rulesOf other).map (assigned (respaced (s.rebalanceOrder agentId tie))) :=
    rulesOf_assigned _ other
  by_cases hother : other = agentId
  · subst hother
    have hperm : ((s.respace other tie).listRules other tie').Perm
        ((s.rebalanceOrder other tie).map (assigned (respaced (s.rebalanceOrder other tie)))) := by
      refine (orderBy_perm _ _).trans ?_
      rw [hrules]
      exact ((orderBy_perm _ _).map _).symm
    rw [eq_of_strict AgentRule.priority hperm (listRules_strict hwf hdistinct other tie')
      (respace_strict hs other tie), List.map_map, ← rebalanceOrder_eq hs h tie tie'']
    rfl
  · have hkept : ∀ rule ∈ s.rulesOf other,
        assigned (respaced (s.rebalanceOrder agentId tie)) rule = id rule := by
      intro rule hrule
      rcases mem_rulesOf.1 hrule with ⟨hmem, hagent⟩
      exact respace_other hs agentId tie hmem (hagent ▸ hother)
    have hsame : (s.respace agentId tie).rulesOf other = s.rulesOf other := by
      rw [hrules, List.map_congr_left hkept, List.map_id]
    show (orderBy (displayKey tie') ((s.respace agentId tie).rulesOf other)).map AgentRule.id = _
    rw [hsame]
    exact congrArg (List.map AgentRule.id) (listRules_eq hs h tie' tie'')

end Respace

theorem keepsOrder_rebalanceAgent (hs : s.Wf) (h : s.Distinct) (agentId : Nat)
    (tie : AgentRule → Nat) : KeepsOrder s (rebalanceAgent round tie s agentId) := by
  unfold rebalanceAgent
  dsimp only
  split
  · exact .refl hs h
  · split
    · exact keepsOrder_respace hs agentId tie h
    · exact .refl hs h

theorem keepsOrder_priorityRebalance (hs : s.Wf) (h : s.Distinct) (tie : AgentRule → Nat) :
    KeepsOrder s (s.priorityRebalance scope round tie) := by
  unfold priorityRebalance
  generalize (scope.agents.filter fun agent => agent.agentType = "orchestrator").map Agent.id =
    agentIds
  induction agentIds generalizing s with
  | nil => exact .refl hs h
  | cons agentId agentIds ih =>
      have hfirst : KeepsOrder s (rebalanceAgent round tie s agentId) :=
        keepsOrder_rebalanceAgent hs h agentId tie
      exact hfirst.trans (ih hfirst.wf hfirst.distinct)

/-! ## One order exactly for distinct priorities -/

theorem sameOrders_of_distinct (hs : s.Wf) (h : s.Distinct) : SameOrders scope round s where
  evaluated _ := activeRules_eq hs h
  rebalanced _ := rebalanceOrder_eq hs h
  positions := by
    intro agentId tie tie' tie''
    have hkeep : KeepsOrder s (s.priorityRebalance scope round tie) :=
      keepsOrder_priorityRebalance hs h tie
    exact hkeep.ids agentId tie' tie''

/-- The database puts this row first among its ties. -/
def favour (rule : AgentRule) (row : AgentRule) : Nat := if row.id = rule.id then 0 else 1

/-- No row of the same priority comes before the favoured one. -/
theorem id_eq_of_favoured {rule row : AgentRule}
    (hle : priorityKey (favour rule) row ≤ priorityKey (favour rule) rule)
    (hpriority : row.priority = rule.priority) : row.id = rule.id := by
  by_contra hid
  rcases Prod.Lex.le_iff.1 hle with hlt | ⟨-, htie⟩
  · exact absurd hpriority (ne_of_lt hlt)
  · simp [priorityKey, favour, hid] at htie

/-- With either of two rows favoured, `x` comes first. -/
def FirstBothWays (a b x y : AgentRule) : Prop :=
  priorityKey (favour a) x ≤ priorityKey (favour a) y ∧
    priorityKey (favour b) x ≤ priorityKey (favour b) y

/-- Of two rules with one priority, either can come first. -/
theorem distinct_of_sameOrders (h : SameOrders scope round s) : s.Distinct := by
  intro a ha b hb hagent hpriority
  by_contra hne
  have horder : s.rebalanceOrder a.agentId (favour a) = s.rebalanceOrder a.agentId (favour b) :=
    (h.rebalanced a.agentId (favour a) (favour a)).trans
      (h.rebalanced a.agentId (favour b) (favour a)).symm
  have hmemA : a ∈ s.rebalanceOrder a.agentId (favour a) := mem_orderBy.2 (mem_rulesOf.2 ⟨ha, rfl⟩)
  have hmemB : b ∈ s.rebalanceOrder a.agentId (favour a) :=
    mem_orderBy.2 (mem_rulesOf.2 ⟨hb, hagent.symm⟩)
  have hboth : (s.rebalanceOrder a.agentId (favour a)).Pairwise fun x y =>
      FirstBothWays a b x y ∨ FirstBothWays a b y x := by
    have hfirst : (s.rebalanceOrder a.agentId (favour a)).Pairwise fun x y =>
        priorityKey (favour a) x ≤ priorityKey (favour a) y := orderBy_pairwise _ _
    have hsecond : (s.rebalanceOrder a.agentId (favour a)).Pairwise fun x y =>
        priorityKey (favour b) x ≤ priorityKey (favour b) y := by
      rw [horder]
      exact orderBy_pairwise _ _
    exact (hfirst.and hsecond).imp Or.inl
  have hsymm : Std.Symm fun x y => FirstBothWays a b x y ∨ FirstBothWays a b y x :=
    ⟨fun _ _ => Or.symm⟩
  have hall := hboth.forall hmemA hmemB fun heq => hne (congrArg AgentRule.id heq)
  rcases hall with ⟨-, hle⟩ | ⟨hle, -⟩
  · exact hne (id_eq_of_favoured hle hpriority)
  · exact hne (id_eq_of_favoured hle hpriority.symm).symm

theorem sameOrders_iff_distinct (hs : s.Wf) : SameOrders scope round s ↔ s.Distinct :=
  ⟨distinct_of_sameOrders, sameOrders_of_distinct hs⟩

/-! ## Steps -/

theorem distinct_insert_iff (h : s.Distinct) {rule : AgentRule} {versions : List AgentRuleVersion}
    (hfresh : ∀ row ∈ s.rules, row.id ≠ rule.id) :
    Distinct { rules := s.rules ++ [rule], versions := versions } ↔
      s.Free rule.agentId rule.id rule.priority := by
  constructor
  · intro hnew row hrow hagent hid hpriority
    exact hid (hnew row (List.mem_append_left _ hrow) rule
      (List.mem_append_right _ List.mem_cons_self) hagent hpriority)
  · intro hfree a ha b hb hagent hpriority
    rcases mem_concat.1 ha with hoaA | hnewA
    · rcases mem_concat.1 hb with holdB | hnewB
      · exact h a hoaA b holdB hagent hpriority
      · subst hnewB
        exact absurd hpriority (hfree a hoaA hagent (hfresh a hoaA))
    · subst hnewA
      rcases mem_concat.1 hb with holdB | hnewB
      · exact absurd hpriority.symm (hfree b holdB hagent.symm (hfresh b holdB))
      · rw [hnewB]

theorem distinct_setRow_iff (h : s.Distinct) {rule : AgentRule} (hrule : rule ∈ s.rules)
    (rule' : AgentRule) (hid : rule'.id = rule.id) (hagent : rule'.agentId = rule.agentId) :
    (s.setRow rule').Distinct ↔ s.Free rule.agentId rule.id rule'.priority := by
  constructor
  · intro hnew row hrow hrowAgent hne hpriority
    have hsame : row.id = rule'.id := hnew row ((mem_setRow hrule hid).2 (.inr ⟨hrow, hne⟩)) rule'
      ((mem_setRow hrule hid).2 (.inl rfl)) (hrowAgent.trans hagent.symm) hpriority
    exact hne (hsame.trans hid)
  · intro hfree a ha b hb hab hpriority
    rcases (mem_setRow hrule hid).1 ha with rfl | ⟨holdA, hneA⟩
    · rcases (mem_setRow hrule hid).1 hb with rfl | ⟨holdB, hneB⟩
      · rfl
      · exact absurd hpriority.symm (hfree b holdB (hab.symm.trans hagent) hneB)
    · rcases (mem_setRow hrule hid).1 hb with rfl | ⟨holdB, hneB⟩
      · exact absurd hpriority (hfree a holdA (hab.trans hagent) hneA)
      · exact h a holdA b holdB hab hpriority

/-- The rule's own priority is free. -/
theorem Distinct.free (h : s.Distinct) {rule : AgentRule} (hrule : rule ∈ s.rules) :
    s.Free rule.agentId rule.id rule.priority := by
  intro row hrow hagent hne hpriority
  exact hne (h row hrow rule hrule hagent hpriority)

theorem step_distinct_iff {library : Library} {op : RuleOp} (hs : s.Wf) (hd : s.Distinct)
    (h : s.step library scope round op = some s') : s'.Distinct ↔ StepDistinct round s op := by
  rw [step_eq_some] at h
  cases op with
  | create agentId ruleId now body =>
      rcases createRule_eq_ok h with ⟨data, hcheck, -, hfresh, rfl⟩
      rcases AgentRuleCreate.check_eq_ok hcheck with ⟨hpriority, -, -⟩
      rw [distinct_insert_iff hd hfresh]
      show s.Free agentId ruleId (data.priority.getD (s.endPriority round agentId)) ↔ _
      rw [hpriority]
      rfl
  | update agentId ruleId body =>
      rcases updateRule_eq_ok h with ⟨data, rule, rule', -, hrule, -, -, hupdated, -, rfl⟩
      rcases updated_eq_ok hupdated with ⟨hid, hagent, hpriority, -⟩
      refine ⟨fun _ => trivial, fun _ => ?_⟩
      have hfree := hd.free hrule
      rw [← hpriority] at hfree
      exact (distinct_setRow_iff hd hrule rule' hid hagent).2 hfree
  | rollback agentId ruleId version =>
      rcases rollbackRule_eq_ok h with ⟨rule, target, hrule, rfl, rfl, htarget, rfl⟩
      have hset : (s.saved (rule.restored target)).Distinct ↔
          s.Free rule.agentId rule.id target.priority :=
        distinct_setRow_iff hd hrule (rule.restored target) rfl rfl
      rw [hset]
      constructor
      · intro hfree target' htarget'
        rw [htarget] at htarget'
        cases htarget'
        exact hfree
      · intro hfree
        exact hfree target htarget
  | delete agentId ruleId =>
      refine ⟨fun _ => trivial, fun _ => ?_⟩
      rw [deleteRule_eq_ok h]
      intro a ha b hb
      exact hd a (List.mem_filter.1 ha).1 b (List.mem_filter.1 hb).1
  | move agentId ruleId afterRuleId tie =>
      rcases moveRule_eq_ok h with ⟨rule, priority, hrule, rfl, rfl, hplace, rfl⟩
      rw [distinct_setRow_iff hd hrule { rule with priority := priority } rfl rfl]
      constructor
      · intro hfree priority' hplace'
        rw [hplace] at hplace'
        cases hplace'
        exact hfree
      · intro hfree
        exact hfree priority hplace
  | rebalance tie =>
      cases h
      exact ⟨fun _ => trivial, fun _ => (keepsOrder_priorityRebalance hs hd tie).distinct⟩

end RuleStore

/-- In every store of a run the orders are one and rebalancing moves nothing, exactly if every
step that places a rule gives it a priority of its own. -/
theorem orders_agree_iff (library : Library) (scope : Scope) (round : ℚ → ℚ) (ops : List RuleOp) :
    Visits (RuleStore.step library scope round) (SameOrders scope round) {} ops ↔
      EveryStep (RuleStore.step library scope round) (StepDistinct round) {} ops := by
  have hempty : SameOrders scope round {} := RuleStore.sameOrders_of_distinct .empty nofun
  have hinv : ∀ s op s', s.Wf → RuleStore.step library scope round s op = some s' → s'.Wf :=
    fun _ _ _ hs h => hs.step h
  have hstep : ∀ s op s', s.Wf → SameOrders scope round s →
      RuleStore.step library scope round s op = some s' →
      (SameOrders scope round s' ↔ StepDistinct round s op) := by
    intro s op s' hs hgood h
    rw [RuleStore.sameOrders_iff_distinct (hs.step h)]
    exact RuleStore.step_distinct_iff hs (RuleStore.distinct_of_sameOrders hgood) h
  exact visits_iff_everyStep_of_inv hinv hstep .empty hempty ops

/-- Two rules are created with the same priority. -/
def tiedRules : List RuleOp :=
  [.create 0 0 0 (helpBody (some 10)), .create 0 1 1 (helpBody (some 10))]

/-- The list shows the older rule first; evaluation and rebalancing may take the other. -/
theorem tied_rules_disagree :
    ¬ ∀ (library : Library) (scope : Scope) (round : ℚ → ℚ) (ops : List RuleOp),
        Visits (RuleStore.step library scope round) (SameOrders scope round) {} ops := by
  intro h
  have hrun : ∃ s, runSteps (RuleStore.step plainLibrary oneWorkflow id) {} tiedRules = some s ∧
      ∃ a ∈ s.rules, ∃ b ∈ s.rules, a.agentId = b.agentId ∧ a.priority = b.priority ∧
        a.id = 0 ∧ b.id = 1 :=
    ⟨_, rfl, _, List.mem_cons_self, _, List.mem_cons_of_mem _ List.mem_cons_self, rfl, rfl, rfl,
      rfl⟩
  rcases hrun with ⟨s, hrun, a, ha, b, hb, hagent, hpriority, hidA, hidB⟩
  have hsame := (h plainLibrary oneWorkflow id tiedRules).last hrun
  have hid := RuleStore.distinct_of_sameOrders hsame a ha b hb hagent hpriority
  omega

end OpsKnowledge.Orchestrator
