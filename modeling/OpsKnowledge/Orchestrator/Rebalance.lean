import OpsKnowledge.Lib.Dict
import OpsKnowledge.Orchestrator.RuleStore

/-!
# Rebalancing priorities

What the rebalance task does to the rules of one agent, and of all agents. An agent's rules
are left alone by the rounds of the other agents.
-/

namespace OpsKnowledge.Orchestrator

open OpsKnowledge.Lib

namespace RuleStore

variable {scope : Scope} {round : ℚ → ℚ} {s s' : RuleStore} {agentId : Nat}

/-- The order in which the rebalance task, and `move_rule`, read the rules. -/
def rebalanceOrder (s : RuleStore) (agentId : Nat) (tie : AgentRule → Nat) : List AgentRule :=
  orderBy (priorityKey tie) (s.rulesOf agentId)

theorem mem_rulesOf {rule : AgentRule} :
    rule ∈ s.rulesOf agentId ↔ rule ∈ s.rules ∧ rule.agentId = agentId := by
  simp [rulesOf]

/-! ## Respaced rows -/

theorem map_fst_respaced (rows : List AgentRule) :
    (respaced rows).map Prod.fst = rows.map AgentRule.id := by
  apply List.ext_getElem
  · simp [respaced]
  · intro i hi hi'
    simp [respaced]

theorem lookup_respaced {rows : List AgentRule} (hids : (rows.map AgentRule.id).Nodup) {i : Nat}
    (hi : i < rows.length) :
    (respaced rows).lookup rows[i].id = some ((i + 1 : ℚ) * rebalanceStep) := by
  apply lookup_eq_some_of_mem
  · rw [map_fst_respaced]
    exact hids
  · apply List.mem_iff_getElem.2
    exact ⟨i, by simpa [respaced] using hi, by simp [respaced]⟩

theorem assigned_of_notMem {rows : List AgentRule} {rule : AgentRule}
    (h : rule.id ∉ rows.map AgentRule.id) : assigned (respaced rows) rule = rule := by
  have hnone : (respaced rows).lookup rule.id = none := by
    rw [lookup_eq_none_iff_notMem, map_fst_respaced]
    exact h
  simp [assigned, hnone]

@[simp] theorem assigned_agentId (priorities : List (Nat × ℚ)) (rule : AgentRule) :
    (assigned priorities rule).agentId = rule.agentId := rfl

theorem rulesOf_assigned (priorities : List (Nat × ℚ)) (id : Nat) :
    rulesOf { s with rules := s.rules.map (assigned priorities) } id =
      (s.rulesOf id).map (assigned priorities) := by
  unfold rulesOf
  rw [List.filter_map]
  rfl

/-! ## One round -/

/-- The store with the rules of one agent respaced. -/
def respace (s : RuleStore) (agentId : Nat) (tie : AgentRule → Nat) : RuleStore :=
  { s with rules := s.rules.map (assigned (respaced (s.rebalanceOrder agentId tie))) }

theorem rebalanceAgent_eq_ite (round : ℚ → ℚ) (tie : AgentRule → Nat) (s : RuleStore)
    (agentId : Nat) :
    rebalanceAgent round tie s agentId =
      if 2 ≤ (s.rebalanceOrder agentId tie).length ∧ crowded round (s.rebalanceOrder agentId tie)
      then s.respace agentId tie else s := by
  unfold rebalanceAgent
  dsimp only
  by_cases hlen : (orderBy (priorityKey tie) (s.rulesOf agentId)).length < 2
  · rw [if_pos hlen, if_neg]
    rintro ⟨hlen', -⟩
    exact absurd hlen (Nat.not_lt.2 hlen')
  · rw [if_neg hlen]
    by_cases hcrowded : crowded round (orderBy (priorityKey tie) (s.rulesOf agentId))
    · rw [if_pos hcrowded, if_pos ⟨Nat.not_lt.1 hlen, hcrowded⟩]
      rfl
    · rw [if_neg hcrowded, if_neg]
      rintro ⟨-, hcrowded'⟩
      exact hcrowded hcrowded'

section Respace

variable (hs : s.Wf) (agentId : Nat) (tie : AgentRule → Nat)
include hs

theorem respace_wf : (s.respace agentId tie).Wf :=
  hs.reprioritised fun rule =>
    ((respaced (s.rebalanceOrder agentId tie)).lookup rule.id).getD rule.priority

/-- Rules of other agents are not assigned a priority. -/
theorem respace_other {rule : AgentRule} (hrule : rule ∈ s.rules) (hne : rule.agentId ≠ agentId) :
    assigned (respaced (s.rebalanceOrder agentId tie)) rule = rule := by
  apply assigned_of_notMem
  intro hmem
  rcases List.mem_map.1 hmem with ⟨row, hrow, hid⟩
  rcases mem_rulesOf.1 (mem_orderBy.1 hrow) with ⟨hrow, hagent⟩
  rw [hs.eq_of_id_eq hrow hrule hid] at hagent
  exact hne hagent

/-- What the round does to the priorities of the agent's rules. -/
theorem priority_respace {i : Nat} (hi : i < (s.rebalanceOrder agentId tie).length) :
    (assigned (respaced (s.rebalanceOrder agentId tie))
      (s.rebalanceOrder agentId tie)[i]).priority = (i + 1 : ℚ) * rebalanceStep := by
  have hids : ((s.rebalanceOrder agentId tie).map AgentRule.id).Nodup := by
    have hperm : (s.rebalanceOrder agentId tie).Perm (s.rulesOf agentId) := orderBy_perm _ _
    rw [(hperm.map AgentRule.id).nodup_iff]
    exact hs.ids.sublist (List.filter_sublist.map _)
  simp [assigned, lookup_respaced hids hi]

end Respace

/-! ## All rounds -/

/-- The agent's rules are not close together, or they have the priorities 10, 20, 30, … already. -/
def Settled (round : ℚ → ℚ) (s : RuleStore) (tie : AgentRule → Nat) (agentId : Nat) : Prop :=
  2 ≤ (s.rebalanceOrder agentId tie).length → crowded round (s.rebalanceOrder agentId tie) →
    ∀ (i : Nat) (hi : i < (s.rebalanceOrder agentId tie).length),
      (s.rebalanceOrder agentId tie)[i].priority = (i + 1 : ℚ) * rebalanceStep

/-- A rule of the store has another priority in the other one. -/
def Moved (s s' : RuleStore) : Prop :=
  ∃ rule ∈ s.rules, ∃ priority, priority ≠ rule.priority ∧
    { rule with priority := priority } ∈ s'.rules

section Rounds

variable {tie : AgentRule → Nat}

theorem rebalanceAgent_of_settled (hs : s.Wf) (h : Settled round s tie agentId) :
    rebalanceAgent round tie s agentId = s := by
  rw [rebalanceAgent_eq_ite]
  split
  · next hcrowded =>
      have hself : ∀ rule ∈ s.rules,
          assigned (respaced (s.rebalanceOrder agentId tie)) rule = id rule := by
        intro rule hrule
        by_cases hagent : rule.agentId = agentId
        · have hmem : rule ∈ s.rebalanceOrder agentId tie :=
            mem_orderBy.2 (mem_rulesOf.2 ⟨hrule, hagent⟩)
          rcases List.mem_iff_getElem.1 hmem with ⟨i, hi, rfl⟩
          have hpriority := priority_respace hs agentId tie hi
          rw [← h hcrowded.1 hcrowded.2 i hi] at hpriority
          show { (s.rebalanceOrder agentId tie)[i] with
            priority := (assigned (respaced (s.rebalanceOrder agentId tie))
              (s.rebalanceOrder agentId tie)[i]).priority } = _
          rw [hpriority]
          rfl
        · exact respace_other hs agentId tie hrule hagent
      show { s with rules := s.rules.map _ } = s
      rw [List.map_congr_left hself, List.map_id]
  · rfl

/-- A round leaves the other agents' rules alone. -/
theorem mem_rebalanceAgent_of_other (hs : s.Wf) {rule : AgentRule} (hrule : rule ∈ s.rules)
    (hne : rule.agentId ≠ agentId) : rule ∈ (rebalanceAgent round tie s agentId).rules := by
  rw [rebalanceAgent_eq_ite]
  split
  · exact List.mem_map.2 ⟨rule, hrule, respace_other hs agentId tie hrule hne⟩
  · exact hrule

theorem Wf.rebalanceAgent (hs : s.Wf) : (RuleStore.rebalanceAgent round tie s agentId).Wf := by
  rw [rebalanceAgent_eq_ite]
  split
  · exact respace_wf hs agentId tie
  · exact hs

theorem mem_rebalance_of_others (hs : s.Wf) {agentIds : List Nat} {rule : AgentRule}
    (hrule : rule ∈ s.rules) (hne : rule.agentId ∉ agentIds) :
    rule ∈ (agentIds.foldl (RuleStore.rebalanceAgent round tie) s).rules := by
  induction agentIds generalizing s with
  | nil => exact hrule
  | cons agentId agentIds ih =>
      rw [List.mem_cons, not_or] at hne
      exact ih hs.rebalanceAgent (mem_rebalanceAgent_of_other hs hrule hne.1) hne.2

theorem rebalance_of_settled (hs : s.Wf) {agentIds : List Nat}
    (h : ∀ agentId ∈ agentIds, Settled round s tie agentId) :
    agentIds.foldl (RuleStore.rebalanceAgent round tie) s = s := by
  induction agentIds with
  | nil => rfl
  | cons agentId agentIds ih =>
      rw [List.forall_mem_cons] at h
      rw [List.foldl_cons, rebalanceAgent_of_settled hs h.1]
      exact ih h.2

/-- The first agent that is not settled has a rule whose priority changes. -/
theorem moved_of_unsettled (hs : s.Wf) {agentIds : List Nat} (hids : agentIds.Nodup)
    (h : ∃ agentId ∈ agentIds, ¬ Settled round s tie agentId) :
    Moved s (agentIds.foldl (RuleStore.rebalanceAgent round tie) s) := by
  induction agentIds with
  | nil =>
      rcases h with ⟨agentId, hmem, -⟩
      cases hmem
  | cons agentId agentIds ih =>
      rw [List.nodup_cons] at hids
      rw [List.foldl_cons]
      by_cases hsettled : Settled round s tie agentId
      · rw [rebalanceAgent_of_settled hs hsettled]
        rcases h with ⟨other, hmem, hother⟩
        rcases List.mem_cons.1 hmem with rfl | hmem
        · exact absurd hsettled hother
        · exact ih hids.2 ⟨other, hmem, hother⟩
      · unfold Settled at hsettled
        push Not at hsettled
        rcases hsettled with ⟨hlen, hcrowded, i, hi, hpriority⟩
        have hmem := mem_rulesOf.1 (mem_orderBy.1 (List.getElem_mem hi))
        refine ⟨(s.rebalanceOrder agentId tie)[i], hmem.1, (i + 1 : ℚ) * rebalanceStep,
          hpriority.symm, ?_⟩
        apply mem_rebalance_of_others hs.rebalanceAgent
        · rw [rebalanceAgent_eq_ite, if_pos ⟨hlen, hcrowded⟩]
          apply List.mem_map.2
          refine ⟨_, hmem.1, ?_⟩
          rw [← priority_respace hs agentId tie hi]
          rfl
        · show (s.rebalanceOrder agentId tie)[i].agentId ∉ agentIds
          rw [hmem.2]
          exact hids.1

end Rounds

/-- The task changes no priority exactly if every orchestrator agent is settled. -/
theorem not_moved_iff (hs : s.Wf) (tie : AgentRule → Nat) :
    ¬ Moved s (s.priorityRebalance scope round tie) ↔
      ∀ agent ∈ scope.agents, agent.agentType = "orchestrator" → Settled round s tie agent.id := by
  have hids : ((scope.agents.filter fun agent => agent.agentType = "orchestrator").map
      Agent.id).Nodup := scope.agent_ids.sublist (List.filter_sublist.map _)
  constructor
  · intro hmoved agent hagent htype
    by_contra hsettled
    apply hmoved
    apply moved_of_unsettled hs hids
    refine ⟨agent.id, List.mem_map_of_mem (List.mem_filter.2 ⟨hagent, ?_⟩), hsettled⟩
    exact decide_eq_true htype
  · intro hall
    have hsame : s.priorityRebalance scope round tie = s := by
      apply rebalance_of_settled hs
      intro agentId hmem
      rcases List.mem_map.1 hmem with ⟨agent, hagent, rfl⟩
      rcases List.mem_filter.1 hagent with ⟨hagent, htype⟩
      exact hall agent hagent (of_decide_eq_true htype)
    rw [hsame]
    rintro ⟨rule, hrule, priority, hne, hmem⟩
    have heq := hs.eq_of_id_eq hmem hrule rfl
    exact hne (congrArg AgentRule.priority heq)

end RuleStore

end OpsKnowledge.Orchestrator
