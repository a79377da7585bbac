import OpsKnowledge.Orchestrator.RuleOrder

/-!
# Where a move puts a rule

`move_rule` reads the agent's other rules in the order of their priorities and gives the rule
a priority behind its target. Priorities are exact here.
-/

namespace OpsKnowledge.Orchestrator

open OpsKnowledge.Lib

/-- Rule `ruleId` comes directly behind its target, or first, and below all rules that follow. -/
def StandsBehind (rows : List AgentRule) (ruleId : Nat) : Option Nat → Prop
  | none => ∃ rule post, rows = rule :: post ∧ rule.id = ruleId ∧
      ∀ other ∈ post, rule.priority < other.priority
  | some afterId => ∃ pre before rule post, rows = pre ++ before :: rule :: post ∧
      before.id = afterId ∧ rule.id = ruleId ∧ before.priority < rule.priority ∧
      ∀ other ∈ post, rule.priority < other.priority

/-- However the database breaks ties, the rule stands behind its target and the other rules keep
their order. -/
structure Placed (s s' : RuleStore) (agentId ruleId : Nat) (afterRuleId : Option Nat) : Prop where
  placed : ∀ tie : AgentRule → Nat, StandsBehind (s'.rebalanceOrder agentId tie) ruleId afterRuleId
  others : ∀ tie : AgentRule → Nat,
    (s'.rebalanceOrder agentId tie).filter (fun rule => rule.id ≠ ruleId) =
      (s.rebalanceOrder agentId tie).filter fun rule => rule.id ≠ ruleId

/-- No third rule of the agent has the priority of the target; without a target, all other
priorities are positive. -/
def TargetClear (s : RuleStore) (agentId ruleId : Nat) : Option Nat → Prop
  | none => ∀ other ∈ s.rulesOf agentId, other.id ≠ ruleId → 0 < other.priority
  | some afterId => ∀ before ∈ s.rulesOf agentId, before.id = afterId →
      ∀ other ∈ s.rulesOf agentId, other.id ≠ ruleId → other.id ≠ afterId →
        other.priority ≠ before.priority

namespace RuleStore

variable {s s' : RuleStore} {agentId ruleId : Nat} {tie : AgentRule → Nat}

theorem mem_otherRules {other : AgentRule} :
    other ∈ s.otherRules agentId ruleId tie ↔ other ∈ s.rulesOf agentId ∧ other.id ≠ ruleId := by
  unfold otherRules
  rw [mem_orderBy, List.mem_filter, decide_eq_true_iff]

theorem rebalanceOrder_filter (s : RuleStore) (agentId ruleId : Nat) (tie : AgentRule → Nat) :
    (s.rebalanceOrder agentId tie).filter (fun rule => rule.id ≠ ruleId) =
      s.otherRules agentId ruleId tie :=
  (filter_orderBy (fun rule : AgentRule => rule.id ≠ ruleId) (priorityKey tie)
    (s.rulesOf agentId)).symm

theorem rebalanceOrder_sorted (s : RuleStore) (agentId : Nat) (tie : AgentRule → Nat) :
    (s.rebalanceOrder agentId tie).Pairwise fun a b => a.priority ≤ b.priority :=
  (orderBy_pairwise (priorityKey tie) _).imp fun h => priorityKey_le h

theorem otherRules_sorted (s : RuleStore) (agentId ruleId : Nat) (tie : AgentRule → Nat) :
    (s.otherRules agentId ruleId tie).Pairwise fun a b => a.priority ≤ b.priority :=
  (orderBy_pairwise (priorityKey tie) _).imp fun h => priorityKey_le h

theorem Wf.rulesOf_ids (hs : s.Wf) (agentId : Nat) :
    ((s.rulesOf agentId).map AgentRule.id).Nodup :=
  hs.ids.sublist (List.filter_sublist.map _)

theorem Wf.rebalanceOrder_nodup (hs : s.Wf) (agentId : Nat) (tie : AgentRule → Nat) :
    (s.rebalanceOrder agentId tie).Nodup :=
  (orderBy_perm _ _).nodup_iff.2 (hs.rulesOf_ids agentId).of_map

theorem Wf.otherRules_ids (hs : s.Wf) (agentId ruleId : Nat) (tie : AgentRule → Nat) :
    ((s.otherRules agentId ruleId tie).map AgentRule.id).Nodup :=
  ((orderBy_perm _ _).map _).nodup_iff.2
    ((hs.rulesOf_ids agentId).sublist (List.filter_sublist.map _))

/-! ## The priority of the place -/

/-- Half of the smallest priority is below all of them exactly if they are positive. -/
theorem placePriority_none_iff {others : List AgentRule} {priority : ℚ}
    (hsorted : others.Pairwise fun a b => a.priority ≤ b.priority)
    (h : placePriority id others none = .ok priority) :
    (∀ other ∈ others, priority < other.priority) ↔ ∀ other ∈ others, 0 < other.priority := by
  cases others with
  | nil => simp
  | cons first rest =>
      have hhalf : priority = first.priority / 2 := (Except.ok.inj h).symm
      have hle : ∀ other ∈ first :: rest, first.priority ≤ other.priority := by
        intro other hother
        rcases List.mem_cons.1 hother with rfl | hrest
        · exact le_refl _
        · exact (List.pairwise_cons.1 hsorted).1 other hrest
      rw [hhalf]
      constructor
      · intro hbelow other hother
        have hfirst := hbelow first List.mem_cons_self
        have hother := hle other hother
        linarith
      · intro hpos other hother
        have hfirst := hpos first List.mem_cons_self
        have hother := hle other hother
        linarith

/-- The target, what follows it, and the priority between them. -/
theorem placePriority_some_eq_ok {others : List AgentRule} {afterId : Nat} {priority : ℚ}
    (h : placePriority id others (some afterId) = .ok priority) :
    ∃ pre before rest, others = pre ++ before :: rest ∧ before.id = afterId ∧
      (rest = [] ∧ priority = before.priority + priorityStep ∨
        ∃ after rest', rest = after :: rest' ∧
          priority = (before.priority + after.priority) / 2) := by
  unfold placePriority at h
  have hsplit := List.takeWhile_append_dropWhile
    (p := fun rule : AgentRule => rule.id ≠ afterId) (l := others)
  have hhead := List.head?_dropWhile_not (fun rule : AgentRule => rule.id ≠ afterId) others
  cases hdrop : others.dropWhile fun rule => rule.id ≠ afterId with
  | nil =>
      simp only [hdrop] at h
      cases h
  | cons before rest =>
      rw [hdrop] at hhead hsplit
      refine ⟨_, before, rest, hsplit.symm, by simpa using hhead, ?_⟩
      cases rest with
      | nil =>
          simp only [hdrop] at h
          exact .inl ⟨rfl, (Except.ok.inj h).symm⟩
      | cons after rest' =>
          simp only [hdrop] at h
          exact .inr ⟨after, rest', rfl, (Except.ok.inj h).symm⟩

/-- Behind a target that no other rule is level with, and below what follows it. -/
theorem placePriority_some_between {others : List AgentRule} {before : AgentRule} {priority : ℚ}
    (hsorted : others.Pairwise fun a b => a.priority ≤ b.priority)
    (hids : (others.map AgentRule.id).Nodup) (hbefore : before ∈ others)
    (hclear : ∀ other ∈ others, other.id ≠ before.id → other.priority ≠ before.priority)
    (h : placePriority id others (some before.id) = .ok priority) :
    before.priority < priority ∧ ∀ other ∈ others, other.id ≠ before.id →
      other.priority < before.priority ∨ priority < other.priority := by
  rcases placePriority_some_eq_ok h with ⟨pre, found, rest, rfl, hid, hcases⟩
  have hfound : found = before :=
    List.inj_on_of_nodup_map hids (List.mem_append_right _ List.mem_cons_self) hbefore hid
  subst hfound
  rcases List.pairwise_append.1 hsorted with ⟨-, htail, hpre⟩
  rcases List.pairwise_cons.1 htail with ⟨hbehind, hrest⟩
  have habove : ∀ other ∈ rest, found.priority < other.priority := by
    intro other hother
    have hmem : other ∈ pre ++ found :: rest := List.mem_append_right _ (List.mem_cons_of_mem _ hother)
    have hne : other.id ≠ found.id := by
      rw [List.map_append, List.map_cons] at hids
      rcases List.nodup_append'.1 hids with ⟨-, htailIds, -⟩
      intro heq
      exact (List.nodup_cons.1 htailIds).1 (heq ▸ List.mem_map_of_mem hother)
    exact lt_of_le_of_ne (hbehind other hother) (hclear other hmem hne).symm
  -- the priority lies above the target and below the rest
  have hbetween : found.priority < priority ∧ ∀ other ∈ rest, priority < other.priority := by
    rcases hcases with ⟨rfl, rfl⟩ | ⟨after, rest', rfl, rfl⟩
    · refine ⟨?_, fun other hother => absurd hother List.not_mem_nil⟩
      unfold priorityStep
      linarith
    · have hafter := habove after List.mem_cons_self
      refine ⟨by linarith, fun other hother => ?_⟩
      have hle : after.priority ≤ other.priority := by
        rcases List.mem_cons.1 hother with rfl | hmem
        · exact le_refl _
        · exact (List.pairwise_cons.1 hrest).1 other hmem
      linarith
  refine ⟨hbetween.1, fun other hother hne => ?_⟩
  rcases List.mem_append.1 hother with hmem | hmem
  · have hle := hpre other hmem found List.mem_cons_self
    exact .inl (lt_of_le_of_ne hle (hclear other hother hne))
  · rcases List.mem_cons.1 hmem with rfl | hrestMem
    · exact absurd rfl hne
    · exact .inr (hbetween.2 other hrestMem)

theorem placePriority_pos {others : List AgentRule} {afterRuleId : Option Nat} {priority : ℚ}
    (hpos : ∀ other ∈ others, 0 < other.priority)
    (h : placePriority id others afterRuleId = .ok priority) : 0 < priority := by
  cases afterRuleId with
  | none =>
      cases others with
      | nil =>
          cases h
          unfold priorityStep
          linarith
      | cons first rest =>
          have hfirst := hpos first List.mem_cons_self
          rw [← Except.ok.inj h]
          show 0 < first.priority / 2
          linarith
  | some afterId =>
      rcases placePriority_some_eq_ok h with ⟨pre, before, rest, rfl, -, hcases⟩
      have hbefore := hpos before (List.mem_append_right _ List.mem_cons_self)
      rcases hcases with ⟨-, rfl⟩ | ⟨after, rest', rfl, rfl⟩
      · unfold priorityStep
        linarith
      · have hafter := hpos after
          (List.mem_append_right _ (List.mem_cons_of_mem _ List.mem_cons_self))
        linarith

/-! ## One move -/

section Move

variable (s) {rule : AgentRule} (priority : ℚ)

theorem otherRules_moved (agentId : Nat) (tie : AgentRule → Nat) :
    (s.setRow { rule with priority := priority }).otherRules agentId rule.id tie =
      s.otherRules agentId rule.id tie := by
  unfold otherRules rulesOf setRow
  rw [List.filter_filter, List.filter_filter]
  refine congrArg (orderBy (priorityKey tie)) (filter_replaceRow ?_)
  intro other hother
  simpa using (Bool.and_eq_true_iff.1 hother).1

variable {s} (hrule : rule ∈ s.rules)
include hrule

theorem mem_moved {other : AgentRule} {tie : AgentRule → Nat} :
    other ∈ (s.setRow { rule with priority := priority }).rebalanceOrder rule.agentId tie ↔
      other = { rule with priority := priority } ∨
        other ∈ s.rulesOf rule.agentId ∧ other.id ≠ rule.id := by
  have hset := mem_setRow (r := other) hrule
    (rfl : ({ rule with priority := priority } : AgentRule).id = rule.id)
  refine mem_orderBy.trans ?_
  rw [mem_rulesOf, mem_rulesOf, hset]
  constructor
  · rintro ⟨heq | ⟨hmem, hne⟩, hagent⟩
    · exact .inl heq
    · exact .inr ⟨⟨hmem, hagent⟩, hne⟩
  · rintro (rfl | ⟨⟨hmem, hagent⟩, hne⟩)
    · exact ⟨.inl rfl, rfl⟩
    · exact ⟨.inr ⟨hmem, hne⟩, hagent⟩

variable (hs : s.Wf)
include hs

/-- First of all exactly if half of the smallest priority is below it. -/
theorem placed_first_iff {tie : AgentRule → Nat}
    (hplace : placePriority id (s.otherRules rule.agentId rule.id tie) none = .ok priority) :
    (∀ tie', StandsBehind
      ((s.setRow { rule with priority := priority }).rebalanceOrder rule.agentId tie') rule.id none) ↔
      TargetClear s rule.agentId rule.id none := by
  have hothers : (∀ other ∈ s.rulesOf rule.agentId, other.id ≠ rule.id → priority < other.priority) ↔
      TargetClear s rule.agentId rule.id none := by
    have hiff := placePriority_none_iff (s.otherRules_sorted rule.agentId rule.id tie) hplace
    simp only [mem_otherRules, and_imp] at hiff
    exact hiff
  rw [← hothers]
  constructor
  · intro hplaced other hother hne
    rcases hplaced tie with ⟨first, post, hrows, hid, hpost⟩
    have hmem : other ∈ first :: post := hrows ▸ (mem_moved priority hrule).2 (.inr ⟨hother, hne⟩)
    have hfirst : first ∈ first :: post := List.mem_cons_self
    rw [← hrows] at hfirst
    have hmoved : first = { rule with priority := priority } :=
      ((mem_moved priority hrule).1 hfirst).resolve_right fun h => h.2 hid
    rcases List.mem_cons.1 hmem with rfl | hbehind
    · exact absurd hid hne
    · have hlt := hpost other hbehind
      rw [hmoved] at hlt
      exact hlt
  · intro hbelow tie'
    have hwf := hs.setRow hrule priority
    rcases eq_cons_of_forall_lt AgentRule.priority (rebalanceOrder_sorted _ _ tie')
      ((mem_moved priority hrule).2 (.inl rfl)) (hwf.rebalanceOrder_nodup _ tie')
      (fun other hother hne => by
        rcases (mem_moved priority hrule).1 hother with heq | ⟨hmem, hid⟩
        · exact absurd heq hne
        · exact hbelow other hmem hid) with ⟨post, hrows, hpost⟩
    exact ⟨_, post, hrows, rfl, hpost⟩

/-- Directly behind the target exactly if no third rule is level with the target. -/
theorem placed_behind_iff {tie : AgentRule → Nat} {afterId : Nat}
    (hplace : placePriority id (s.otherRules rule.agentId rule.id tie) (some afterId) = .ok priority) :
    (∀ tie', StandsBehind
      ((s.setRow { rule with priority := priority }).rebalanceOrder rule.agentId tie') rule.id
        (some afterId)) ↔ TargetClear s rule.agentId rule.id (some afterId) := by
  rcases placePriority_some_eq_ok hplace with ⟨pre, target, rest, hrows, rfl, -⟩
  have htarget : target ∈ s.otherRules rule.agentId rule.id tie := by
    rw [hrows]
    exact List.mem_append_right _ List.mem_cons_self
  rcases mem_otherRules.1 htarget with ⟨htargetMem, htargetNe⟩
  have hsame : ∀ row ∈ s.rulesOf rule.agentId, row.id = target.id → row = target := fun row hrow hid =>
    hs.eq_of_id_eq (mem_rulesOf.1 hrow).1 (mem_rulesOf.1 htargetMem).1 hid
  constructor
  · intro hplaced before hbefore hid other hother hne hneTarget hpriority
    rw [hsame before hbefore hid] at hpriority
    -- the database puts the target before everything that is level with it
    rcases hplaced (favour target) with ⟨pre, found, moved, post, hrows, hfoundId, hmovedId, hlt, hpost⟩
    have hrow : ∀ row ∈ pre ++ found :: moved :: post,
        row = { rule with priority := priority } ∨ row ∈ s.rulesOf rule.agentId ∧ row.id ≠ rule.id := by
      intro row hmem
      rw [← hrows] at hmem
      exact (mem_moved priority hrule).1 hmem
    have hfound : found = target := by
      rcases hrow found (List.mem_append_right _ List.mem_cons_self) with heq | ⟨hmem, -⟩
      · rw [heq] at hfoundId
        exact absurd hfoundId.symm htargetNe
      · exact hsame found hmem hfoundId
    subst hfound
    have hmem : other ∈ pre ++ found :: moved :: post :=
      hrows ▸ (mem_moved priority hrule).2 (.inr ⟨hother, hne⟩)
    have hsorted := orderBy_pairwise (priorityKey (favour found))
      ((s.setRow { rule with priority := priority }).rulesOf rule.agentId)
    change (rebalanceOrder _ _ _).Pairwise _ at hsorted
    rw [hrows] at hsorted
    rcases List.mem_append.1 hmem with hbefore | hmem
    · have hle := (List.pairwise_append.1 hsorted).2.2 other hbefore found List.mem_cons_self
      exact hneTarget (id_eq_of_favoured hle hpriority)
    · rcases List.mem_cons.1 hmem with rfl | hmem
      · exact hneTarget rfl
      · rcases List.mem_cons.1 hmem with rfl | hbehind
        · exact hne hmovedId
        · have habove := hpost other hbehind
          linarith
  · intro hclear tie'
    have hwf := hs.setRow hrule priority
    have hids := hs.otherRules_ids rule.agentId rule.id tie
    rcases placePriority_some_between (s.otherRules_sorted rule.agentId rule.id tie) hids htarget
      (fun other hother hne => hclear target htargetMem rfl other (mem_otherRules.1 hother).1
        (mem_otherRules.1 hother).2 hne) hplace with ⟨hlt, hbetween⟩
    have htargetMoved : target ∈
        (s.setRow { rule with priority := priority }).rebalanceOrder rule.agentId tie' :=
      (mem_moved priority hrule).2 (.inr ⟨htargetMem, htargetNe⟩)
    rcases eq_append_of_adjacent AgentRule.priority (rebalanceOrder_sorted _ _ tie') htargetMoved
      ((mem_moved priority hrule).2 (.inl rfl)) (hwf.rebalanceOrder_nodup _ tie') hlt
      (fun other hother hneTarget hne => by
        rcases (mem_moved priority hrule).1 hother with heq | ⟨hmem, hid⟩
        · exact absurd heq hne
        · exact hbetween other (mem_otherRules.2 ⟨hmem, hid⟩)
            fun heq => hneTarget (hsame other hmem heq)) with ⟨pre, post, hrows, hpost⟩
    exact ⟨pre, target, _, post, hrows, rfl, rfl, hlt, hpost⟩

end Move

/-- A move keeps the order of the other rules, and puts the rule in its place exactly if the place
of its target is clear. -/
theorem placed_iff (hs : s.Wf) {afterRuleId : Option Nat}
    (h : s.moveRule id agentId ruleId afterRuleId tie = .ok s') :
    Placed s s' agentId ruleId afterRuleId ↔ TargetClear s agentId ruleId afterRuleId := by
  rcases moveRule_eq_ok h with ⟨rule, priority, hrule, rfl, rfl, hplace, rfl⟩
  have hstands : (∀ tie', StandsBehind
      ((s.setRow { rule with priority := priority }).rebalanceOrder rule.agentId tie') rule.id
        afterRuleId) ↔ TargetClear s rule.agentId rule.id afterRuleId := by
    cases afterRuleId with
    | none => exact placed_first_iff priority hrule hs hplace
    | some afterId => exact placed_behind_iff priority hrule hs hplace
  rw [← hstands]
  refine ⟨Placed.placed, fun hplaced => ⟨hplaced, fun tie' => ?_⟩⟩
  rw [rebalanceOrder_filter, rebalanceOrder_filter, otherRules_moved]

/-! ## Runs -/

end RuleStore

/-- What is asked of a step: a move puts its rule in its place. -/
def MovePlaced (s : RuleStore) (op : RuleOp) : Prop :=
  match op with
  | .move agentId ruleId afterRuleId tie => ∀ s',
      s.moveRule id agentId ruleId afterRuleId tie = .ok s' → Placed s s' agentId ruleId afterRuleId
  | .create .. | .update .. | .rollback .. | .delete .. | .rebalance .. => True

/-- Every move finds the place of its target clear. -/
def MoveClear (s : RuleStore) (op : RuleOp) : Prop :=
  match op with
  | .move agentId ruleId afterRuleId _ => TargetClear s agentId ruleId afterRuleId
  | .create .. | .update .. | .rollback .. | .delete .. | .rebalance .. => True

/-- In a run every accepted move puts its rule directly behind the target, or first, exactly if every
accepted move finds the place of its target clear. -/
theorem moves_placed_iff (library : Library) (scope : Scope) (ops : List RuleOp) :
    EveryStep (RuleStore.step library scope id) MovePlaced {} ops ↔
      EveryStep (RuleStore.step library scope id) MoveClear {} ops := by
  have hinv : ∀ s op s', s.Wf → RuleStore.step library scope id s op = some s' → s'.Wf :=
    fun _ _ _ hs h => hs.step h
  refine everyStep_congr_of_inv hinv (fun s op s' hs h => ?_) RuleStore.Wf.empty ops
  rw [RuleStore.step_eq_some] at h
  cases op with
  | move agentId ruleId afterRuleId tie =>
      have hiff := RuleStore.placed_iff hs h
      constructor
      · exact fun hplaced => hiff.1 (hplaced s' h)
      · intro hclear t ht
        exact (RuleStore.placed_iff hs ht).2 hclear
  | _ => exact Iff.rfl

/-! ## Runs without explicit priorities -/

/-- Rules are created behind the others, changed, moved and deleted. -/
def Unpriced : RuleOp → Prop
  | .create _ _ _ body => body.priority = none
  | .update .. | .move .. | .delete .. => True
  | .rollback .. | .rebalance .. => False

namespace RuleStore

variable {s s' : RuleStore}

/-- All priorities are positive, and each rule of an agent has its own. -/
structure Spaced (s : RuleStore) : Prop where
  wf : s.Wf
  distinct : s.Distinct
  positive : ∀ rule ∈ s.rules, 0 < rule.priority

theorem lt_endPriority {agentId : Nat} {rule : AgentRule} (h : rule ∈ s.rulesOf agentId) :
    rule.priority < s.endPriority id agentId := by
  have hmem : rule.priority ∈ (s.rulesOf agentId).map AgentRule.priority := List.mem_map_of_mem h
  cases hmax : ((s.rulesOf agentId).map AgentRule.priority).max? with
  | none =>
      rw [List.max?_eq_none_iff.1 hmax] at hmem
      exact absurd hmem List.not_mem_nil
  | some last =>
      have hle : rule.priority ≤ last := (List.max?_eq_some_iff.1 hmax).2 _ hmem
      unfold endPriority
      rw [hmax]
      show _ < last + priorityStep
      unfold priorityStep
      linarith

theorem Spaced.endPriority_pos (h : s.Spaced) (agentId : Nat) : 0 < s.endPriority id agentId := by
  cases hrules : s.rulesOf agentId with
  | nil =>
      unfold endPriority
      rw [hrules]
      show (0 : ℚ) < 0 + priorityStep
      unfold priorityStep
      linarith
  | cons rule rest =>
      have hmem : rule ∈ s.rulesOf agentId := hrules ▸ List.mem_cons_self
      exact (h.positive rule (mem_rulesOf.1 hmem).1).trans (lt_endPriority hmem)

theorem Spaced.targetClear (h : s.Spaced) (agentId ruleId : Nat) (afterRuleId : Option Nat) :
    TargetClear s agentId ruleId afterRuleId := by
  cases afterRuleId with
  | none => exact fun other hother _ => h.positive other (mem_rulesOf.1 hother).1
  | some afterId =>
      intro before hbefore hid other hother _ hne hpriority
      rcases mem_rulesOf.1 hbefore with ⟨hbefore, hagent⟩
      rcases mem_rulesOf.1 hother with ⟨hother, hagent'⟩
      exact hne ((h.distinct other hother before hbefore (hagent'.trans hagent.symm)
        hpriority).trans hid)

theorem Spaced.placePriority_free (h : s.Spaced) {agentId ruleId : Nat}
    {afterRuleId : Option Nat} {tie : AgentRule → Nat} {priority : ℚ}
    (hplace : placePriority id (s.otherRules agentId ruleId tie) afterRuleId = .ok priority) :
    s.Free agentId ruleId priority := by
  intro other hrule hagent hne
  have hother : other ∈ s.otherRules agentId ruleId tie :=
    mem_otherRules.2 ⟨mem_rulesOf.2 ⟨hrule, hagent⟩, hne⟩
  have hclear := h.targetClear agentId ruleId afterRuleId
  cases afterRuleId with
  | none =>
      have hbelow := (placePriority_none_iff (s.otherRules_sorted agentId ruleId tie) hplace).2
        fun row hrow => hclear row (mem_otherRules.1 hrow).1 (mem_otherRules.1 hrow).2
      exact ne_of_gt (hbelow other hother)
  | some afterId =>
      rcases placePriority_some_eq_ok hplace with ⟨pre, before, rest, hrows, rfl, -⟩
      have hbefore : before ∈ s.otherRules agentId ruleId tie := by
        rw [hrows]
        exact List.mem_append_right _ List.mem_cons_self
      have hids := h.wf.otherRules_ids agentId ruleId tie
      rcases placePriority_some_between (s.otherRules_sorted agentId ruleId tie) hids hbefore
        (fun row hrow hneTarget => hclear before (mem_otherRules.1 hbefore).1 rfl row
          (mem_otherRules.1 hrow).1 (mem_otherRules.1 hrow).2 hneTarget) hplace with ⟨hlt, hbetween⟩
      by_cases htarget : other.id = before.id
      · rw [List.inj_on_of_nodup_map hids hother hbefore htarget]
        exact ne_of_lt hlt
      · rcases hbetween other hother htarget with hbelow | habove
        · exact ne_of_lt (hbelow.trans hlt)
        · exact ne_of_gt habove

theorem Spaced.step {library : Library} {scope : Scope} {op : RuleOp} (h : s.Spaced)
    (hop : Unpriced op) (hstep : s.step library scope id op = some s') : s'.Spaced := by
  have hwf := h.wf.step hstep
  have hdistinct := step_distinct_iff h.wf h.distinct hstep
  rw [step_eq_some] at hstep
  cases op with
  | create agentId ruleId now body =>
      have hnone : body.priority = none := hop
      refine ⟨hwf, hdistinct.2 ?_, ?_⟩
      · intro rule hrule hagent _
        rw [hnone]
        exact ne_of_lt (lt_endPriority (mem_rulesOf.2 ⟨hrule, hagent⟩))
      · rcases createRule_eq_ok hstep with ⟨data, hcheck, -, -, rfl⟩
        rcases AgentRuleCreate.check_eq_ok hcheck with ⟨hpriority, -, -⟩
        intro rule hrule
        rcases mem_concat.1 hrule with hold | rfl
        · exact h.positive rule hold
        · show 0 < data.priority.getD _
          rw [hpriority, hnone]
          exact h.endPriority_pos agentId
  | update agentId ruleId body =>
      refine ⟨hwf, hdistinct.2 trivial, ?_⟩
      rcases updateRule_eq_ok hstep with ⟨data, rule, rule', -, hrule, -, -, hupdated, -, rfl⟩
      rcases updated_eq_ok hupdated with ⟨hid, -, hpriority, -⟩
      intro other hother
      rcases (mem_setRow hrule hid).1 hother with rfl | ⟨hold, -⟩
      · rw [hpriority]
        exact h.positive rule hrule
      · exact h.positive other hold
  | delete agentId ruleId =>
      refine ⟨hwf, hdistinct.2 trivial, ?_⟩
      rw [deleteRule_eq_ok hstep]
      exact fun rule hrule => h.positive rule (List.mem_filter.1 hrule).1
  | move agentId ruleId afterRuleId tie =>
      refine ⟨hwf, hdistinct.2 fun priority hplace => h.placePriority_free hplace, ?_⟩
      rcases moveRule_eq_ok hstep with ⟨rule, priority, hrule, rfl, rfl, hplace, rfl⟩
      have hpos : 0 < priority := placePriority_pos
        (fun other hother => h.positive other (mem_rulesOf.1 (mem_otherRules.1 hother).1).1) hplace
      intro other hother
      rcases (mem_setRow hrule
        (rfl : ({ rule with priority := priority } : AgentRule).id = rule.id)).1 hother with
        rfl | ⟨hold, -⟩
      · exact hpos
      · exact h.positive other hold
  | rollback => cases hop
  | rebalance => cases hop

end RuleStore

/-- Without explicit priorities every move finds its place clear. -/
theorem moveClear_of_unpriced (library : Library) (scope : Scope) {ops : List RuleOp}
    (h : ∀ op ∈ ops, Unpriced op) :
    EveryStep (RuleStore.step library scope id) MoveClear {} ops := by
  have hspaced : RuleStore.Spaced {} := ⟨RuleStore.Wf.empty, nofun, nofun⟩
  generalize ({} : RuleStore) = s at hspaced ⊢
  induction ops generalizing s with
  | nil => trivial
  | cons op ops ih =>
      intro s' hs'
      have hop := h op List.mem_cons_self
      refine ⟨?_, ih (fun op hmem => h op (List.mem_cons_of_mem _ hmem)) s' (hspaced.step hop hs')⟩
      cases op with
      | move agentId ruleId afterRuleId tie => exact hspaced.targetClear agentId ruleId afterRuleId
      | _ => trivial

/-- A rule is created with priority 0, then one behind it. -/
def zeroRule : List RuleOp := [.create 0 0 0 (helpBody (some 0)), .create 0 1 1 (helpBody none)]

/-- The second rule is moved to the top: it gets priority 0 too, and the other may still come
first. -/
theorem move_above_zero :
    ¬ ∀ (library : Library) (scope : Scope) (ops : List RuleOp),
        EveryStep (RuleStore.step library scope id) MovePlaced {} ops := by
  intro h
  have hrun : ∃ s s', runSteps (RuleStore.step plainLibrary oneWorkflow id) {} zeroRule = some s ∧
      RuleStore.step plainLibrary oneWorkflow id s (.move 0 1 none AgentRule.id) = some s' ∧
      s.Wf ∧ ∃ rule ∈ s.rulesOf 0, rule.id = 0 ∧ rule.priority = 0 := by
    exact ⟨_, _, rfl, rfl, ⟨by decide, by decide, by decide⟩, _, List.mem_cons_self, rfl, rfl⟩
  rcases hrun with ⟨s, s', hrun, hmove, hs, rule, hrule, hid, hpriority⟩
  have hplaced := (h plainLibrary oneWorkflow (zeroRule ++ [.move 0 1 none AgentRule.id])).after
    hrun hmove
  rw [RuleStore.step_eq_some] at hmove
  have hclear := (RuleStore.placed_iff hs hmove).1 (hplaced s' hmove)
  have hpos : 0 < rule.priority := hclear rule hrule (by omega)
  rw [hpriority] at hpos
  exact lt_irrefl _ hpos

end OpsKnowledge.Orchestrator
