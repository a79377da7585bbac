import Mathlib.Logic.Function.Basic
import OpsKnowledge.Lib.Transition
import OpsKnowledge.Orchestrator.Rebalance

/-!
# The rules cache

`_active_rules` keeps the active rules of an agent in the memory of its process, under the
agent's `updated_at`. Any number of processes evaluate and change the rules of one database,
where a change shows from its commit on. Agents do not change. What the database makes of
writes that are based on older tables is a parameter.
-/

namespace OpsKnowledge.Orchestrator

open OpsKnowledge.Lib

structure CacheEntry where
  updatedAt : Nat
  rules : List AgentRule

/-- `_cache` of one process. -/
abbrev RulesCache := Dict Nat CacheEntry

namespace RulesCache

/-- `_MAX_AGENTS_CACHED` -/
def maxAgentsCached : Nat := 256

/-- `get_cached_rules`: an entry with another stamp is dropped. -/
def getCachedRules (cache : RulesCache) (agentId : Nat) (agentUpdatedAt : Option Nat) :
    RulesCache × Option (List AgentRule) :=
  match agentUpdatedAt, cache.get? agentId with
  | none, _ | _, none => (cache, none)
  | some stamp, some entry =>
      if entry.updatedAt ≠ stamp then (cache.erase agentId, none) else (cache, some entry.rules)

/-- `put_cached_rules`: a full cache loses its oldest entry. -/
def putCachedRules (cache : RulesCache) (agentId : Nat) (agentUpdatedAt : Option Nat)
    (rules : List AgentRule) : RulesCache :=
  match agentUpdatedAt with
  | none => cache
  | some stamp =>
      let room := if maxAgentsCached ≤ cache.entries.length ∧ agentId ∉ cache.keys then cache.popFirst
        else cache
      room.set agentId { updatedAt := stamp, rules := rules }

def invalidate (cache : RulesCache) (agentId : Nat) : RulesCache := cache.erase agentId

variable {cache : RulesCache} {agentId other : Nat} {stamp : Option Nat} {rules : List AgentRule}
  {entry : CacheEntry}

theorem get?_of_get?_getCachedRules
    (h : (cache.getCachedRules agentId stamp).1.get? other = some entry) :
    cache.get? other = some entry := by
  unfold getCachedRules at h
  split at h
  · exact h
  · exact h
  · split at h
    · exact Dict.get?_of_get?_erase h
    · exact h

/-- A hit is an entry with the agent's stamp. -/
theorem getCachedRules_eq_some_iff :
    (cache.getCachedRules agentId stamp).2 = some rules ↔
      ∃ entry, cache.get? agentId = some entry ∧ stamp = some entry.updatedAt ∧
        entry.rules = rules := by
  unfold getCachedRules
  cases stamp with
  | none => simp
  | some stamp =>
      cases hentry : cache.get? agentId with
      | none => simp
      | some entry =>
          by_cases hstamp : entry.updatedAt = stamp
          · simp [hstamp]
          · have hne : ¬ stamp = entry.updatedAt := fun h => hstamp h.symm
            simp [hstamp, hne]

theorem get?_putCachedRules_self (stamp : Nat) :
    (cache.putCachedRules agentId (some stamp) rules).get? agentId =
      some { updatedAt := stamp, rules := rules } :=
  Dict.get?_set_self _ _ _

/-- What is in the cache was there before, or is what was put. -/
theorem get?_putCachedRules_cases
    (h : (cache.putCachedRules agentId stamp rules).get? other = some entry) :
    cache.get? other = some entry ∨
      other = agentId ∧ stamp = some entry.updatedAt ∧ entry.rules = rules := by
  cases stamp with
  | none => exact .inl h
  | some stamp =>
      unfold putCachedRules at h
      dsimp only at h
      rw [Dict.get?_set] at h
      by_cases hother : other = agentId
      · right
        rw [if_pos hother] at h
        cases h
        exact ⟨hother, rfl, rfl⟩
      · left
        rw [if_neg hother] at h
        split at h
        · exact Dict.get?_of_get?_popFirst h
        · exact h

end RulesCache

/-! ## The processes -/

/-- Where a route call is in `_active_rules`: before the lookup, at the query after a miss, with
the rows that the database has sent, or evaluating a list. -/
inductive Progress where
  | starting
  | selecting
  | read (rules : List AgentRule)
  | evaluated (rules : List AgentRule)

/-- A route call, with the tables that were committed when it started and later, until it
evaluates. -/
structure Call where
  process : Nat
  agentId : Nat
  tables : List RuleStore
  progress : Progress := .starting

/-- An operation before its commit: the tables that it read and made of them, and the agents that
it still has to invalidate. -/
structure Change where
  process : Nat
  agents : List Nat
  read : RuleStore
  written : RuleStore

structure Deployment where
  tables : RuleStore
  caches : Nat → RulesCache := fun _ => .empty
  calls : List Call := []
  changes : List Change := []

inductive CallAction where
  | start (process agentId : Nat)
  | lookup (i : Nat)
  | select (i : Nat) (tie : AgentRule → Nat)
  | put (i : Nat)

inductive CacheAction where
  | route (action : CallAction)
  | change (process : Nat) (op : RuleOp)
  | invalidate (k : Nat)
  | commit (k : Nat)
  | abort (k : Nat)

/-- The rules are the active rules of the tables, in some order of ties. -/
def Current (tables : RuleStore) (agentId : Nat) (rules : List AgentRule) : Prop :=
  ∃ tie, rules = tables.activeRules agentId tie

/-- Another process, or this one, commits. -/
def Call.sees (tables : RuleStore) (call : Call) : Call :=
  match call.progress with
  | .evaluated _ => call
  | .starting | .selecting | .read _ => { call with tables := tables :: call.tables }

section Steps

variable (library : Library) (scope : Scope) (round : ℚ → ℚ)

/-- The agents that the rebalance task respaces. -/
def RuleStore.rebalancedAgents (s : RuleStore) (tie : AgentRule → Nat) : List Nat :=
  ((scope.agents.filter fun agent => agent.agentType = "orchestrator").map Agent.id).filter
    fun agentId =>
      2 ≤ (s.rebalanceOrder agentId tie).length &&
        RuleStore.crowded round (s.rebalanceOrder agentId tie)

/-- The agents for which an operation calls `invalidate`. -/
def RuleStore.invalidated (s : RuleStore) : RuleOp → List Nat
  | .create agentId _ _ _ | .update agentId _ _ | .rollback agentId _ _ | .delete agentId _
  | .move agentId _ _ _ => [agentId]
  | .rebalance tie => s.rebalancedAgents scope round tie

namespace Deployment

def start (s : Deployment) (process agentId : Nat) : Deployment :=
  { s with calls := s.calls ++ [{ process := process, agentId := agentId, tables := [s.tables] }] }

/-- A call goes on, with a new cache in its process. -/
def advance (s : Deployment) (i : Nat) (call : Call) (cache : RulesCache) (progress : Progress) :
    Deployment :=
  { s with
    caches := Function.update s.caches call.process cache
    calls := s.calls.set i { call with progress := progress } }

section Route

variable (updatedAt : Nat → Option Nat)

def lookup (s : Deployment) (i : Nat) : Option Deployment :=
  s.calls[i]?.bind fun call =>
    match call.progress with
    | .starting =>
        let found := (s.caches call.process).getCachedRules call.agentId (updatedAt call.agentId)
        some (s.advance i call found.1 (found.2.elim .selecting .evaluated))
    | .selecting | .read _ | .evaluated _ => none

def select (s : Deployment) (i : Nat) (tie : AgentRule → Nat) : Option Deployment :=
  s.calls[i]?.bind fun call =>
    match call.progress with
    | .selecting =>
        let rules := s.tables.activeRules call.agentId tie
        some (s.advance i call (s.caches call.process) (.read rules))
    | .starting | .read _ | .evaluated _ => none

def put (s : Deployment) (i : Nat) : Option Deployment :=
  s.calls[i]?.bind fun call =>
    match call.progress with
    | .read rules =>
        let cache := (s.caches call.process).putCachedRules call.agentId (updatedAt call.agentId)
          rules
        some (s.advance i call cache (.evaluated rules))
    | .starting | .selecting | .evaluated _ => none

def routeStep (s : Deployment) : CallAction → Option Deployment
  | .start process agentId => some (s.start process agentId)
  | .lookup i => s.lookup updatedAt i
  | .select i tie => s.select i tie
  | .put i => s.put updatedAt i

end Route

/-- The operation reads and writes; a request that raises changes nothing. -/
def change (s : Deployment) (process : Nat) (op : RuleOp) : Option Deployment :=
  (s.tables.step library scope round op).map fun written =>
    let change := {
      process := process
      agents := s.tables.invalidated scope round op
      read := s.tables
      written := written }
    { s with changes := s.changes ++ [change] }

/-- `cache.invalidate`, in the memory of the operation's own process. -/
def invalidate (s : Deployment) (k : Nat) : Option Deployment :=
  s.changes[k]?.bind fun change =>
    match change.agents with
    | [] => none
    | agentId :: agents =>
        let cache := (s.caches change.process).invalidate agentId
        some { s with
          caches := Function.update s.caches change.process cache
          changes := s.changes.set k { change with agents := agents } }

/-- `get_db` and the task commit after everything else. -/
def commit (merge : RuleStore → RuleStore → RuleStore → RuleStore) (s : Deployment) (k : Nat) :
    Option Deployment :=
  s.changes[k]?.bind fun change =>
    match change.agents with
    | [] =>
        let tables := merge change.read change.written s.tables
        some { s with
          tables := tables
          calls := s.calls.map (Call.sees tables)
          changes := s.changes.eraseIdx k }
    | _ :: _ => none

def step (merge : RuleStore → RuleStore → RuleStore → RuleStore) (updatedAt : Nat → Option Nat)
    (s : Deployment) : CacheAction → Option Deployment
  | .route action => s.routeStep updatedAt action
  | .change process op => s.change library scope round process op
  | .invalidate k => s.invalidate k
  | .commit k => s.commit merge k
  | .abort k => some { s with changes := s.changes.eraseIdx k }

end Deployment

end Steps

/-! ## Freshness -/

/-- Every list that is evaluated is one of tables that were committed when the call started or
later. -/
def AllFresh (s : Deployment) : Prop :=
  ∀ call ∈ s.calls, ∀ rules, call.progress = .evaluated rules →
    ∃ tables ∈ call.tables, Current tables call.agentId rules

section Conditions

variable (merge : RuleStore → RuleStore → RuleStore → RuleStore) (updatedAt : Nat → Option Nat)

/-- Route calls are fresh, here and whichever calls follow. -/
def RoutesFresh (s : Deployment) : Prop :=
  ∀ actions : List CallAction, Visits (Deployment.routeStep updatedAt) AllFresh s actions

/-- A process holds the list: in its cache, or on the way from the database to its cache. -/
inductive Held (s : Deployment) : Nat → List AgentRule → Prop where
  | cached {process agentId : Nat} {entry : CacheEntry}
      (h : (s.caches process).get? agentId = some entry) : Held s agentId entry.rules
  | read {call : Call} {rules : List AgentRule} {stamp : Nat} (h : call ∈ s.calls)
      (hread : call.progress = .read rules) (hstamp : updatedAt call.agentId = some stamp) :
      Held s call.agentId rules

/-- A commit outdates no list that a process holds. -/
def CommitKeeps (s : Deployment) : CacheAction → Prop
  | .commit k => ∀ change, s.changes[k]? = some change → ∀ agentId rules,
      Held updatedAt s agentId rules →
        Current (merge change.read change.written s.tables) agentId rules
  | .route _ | .change _ _ | .invalidate _ | .abort _ => True

end Conditions

/-! ## What a step does -/

namespace Deployment

variable {library : Library} {scope : Scope} {round : ℚ → ℚ}
  {merge : RuleStore → RuleStore → RuleStore → RuleStore} {updatedAt : Nat → Option Nat}
  {s s' : Deployment}

theorem lookup_eq_some {i : Nat} (h : s.lookup updatedAt i = some s') :
    ∃ call, s.calls[i]? = some call ∧ call.progress = .starting ∧
      s' = s.advance i call
        ((s.caches call.process).getCachedRules call.agentId (updatedAt call.agentId)).1
        (((s.caches call.process).getCachedRules call.agentId (updatedAt call.agentId)).2.elim
          .selecting .evaluated) := by
  rcases Option.bind_eq_some_iff.1 h with ⟨call, hcall, h⟩
  cases hprogress : call.progress with
  | starting =>
      simp only [hprogress] at h
      exact ⟨call, hcall, hprogress, (Option.some.inj h).symm⟩
  | selecting | read | evaluated =>
      simp only [hprogress] at h
      cases h

theorem select_eq_some {i : Nat} {tie : AgentRule → Nat} (h : s.select i tie = some s') :
    ∃ call, s.calls[i]? = some call ∧ call.progress = .selecting ∧
      s' = s.advance i call (s.caches call.process)
        (.read (s.tables.activeRules call.agentId tie)) := by
  rcases Option.bind_eq_some_iff.1 h with ⟨call, hcall, h⟩
  cases hprogress : call.progress with
  | selecting =>
      simp only [hprogress] at h
      exact ⟨call, hcall, hprogress, (Option.some.inj h).symm⟩
  | starting | read | evaluated =>
      simp only [hprogress] at h
      cases h

theorem put_eq_some {i : Nat} (h : s.put updatedAt i = some s') :
    ∃ call rules, s.calls[i]? = some call ∧ call.progress = .read rules ∧
      s' = s.advance i call
        ((s.caches call.process).putCachedRules call.agentId (updatedAt call.agentId) rules)
        (.evaluated rules) := by
  rcases Option.bind_eq_some_iff.1 h with ⟨call, hcall, h⟩
  cases hprogress : call.progress with
  | read rules =>
      simp only [hprogress] at h
      exact ⟨call, rules, hcall, hprogress, (Option.some.inj h).symm⟩
  | starting | selecting | evaluated =>
      simp only [hprogress] at h
      cases h

/-- Only the changes move. -/
theorem change_eq_some {process : Nat} {op : RuleOp}
    (h : s.change library scope round process op = some s') :
    ∃ changes, s' = { s with changes := changes } := by
  rcases Option.map_eq_some_iff.1 h with ⟨written, -, rfl⟩
  exact ⟨_, rfl⟩

theorem invalidate_eq_some {k : Nat} (h : s.invalidate k = some s') :
    ∃ process agentId changes, s' = { s with
      caches := Function.update s.caches process ((s.caches process).invalidate agentId)
      changes := changes } := by
  rcases Option.bind_eq_some_iff.1 h with ⟨change, -, h⟩
  cases hagents : change.agents with
  | nil =>
      simp only [hagents] at h
      cases h
  | cons agentId agents =>
      simp only [hagents] at h
      cases h
      exact ⟨_, _, _, rfl⟩

theorem commit_eq_some {k : Nat} (h : s.commit merge k = some s') :
    ∃ change, s.changes[k]? = some change ∧
      s' = { s with
        tables := merge change.read change.written s.tables
        calls := s.calls.map (Call.sees (merge change.read change.written s.tables))
        changes := s.changes.eraseIdx k } := by
  rcases Option.bind_eq_some_iff.1 h with ⟨change, hchange, h⟩
  cases hagents : change.agents with
  | nil =>
      simp only [hagents] at h
      exact ⟨change, hchange, (Option.some.inj h).symm⟩
  | cons agentId agents =>
      simp only [hagents] at h
      cases h

end Deployment

/-! ## The invariant -/

/-- Until its list is read, a call has the present tables among its own. -/
def Call.Sound (tables : RuleStore) (call : Call) : Prop :=
  match call.progress with
  | .starting | .selecting => tables ∈ call.tables
  | .read rules | .evaluated rules => ∃ tables ∈ call.tables, Current tables call.agentId rules

/-- What the processes hold is current, under the agents' stamps. -/
structure Coherent (updatedAt : Nat → Option Nat) (s : Deployment) : Prop where
  stamped : ∀ process agentId entry, (s.caches process).get? agentId = some entry →
    updatedAt agentId = some entry.updatedAt
  held : ∀ agentId rules, Held updatedAt s agentId rules → Current s.tables agentId rules
  calls : ∀ call ∈ s.calls, call.Sound s.tables

namespace Coherent

variable {updatedAt : Nat → Option Nat} {s s' : Deployment}

theorem initial (tables : RuleStore) : Coherent updatedAt { tables := tables } where
  stamped := nofun
  held := by
    intro agentId rules h
    cases h with
    | cached h => cases h
    | read h => cases h
  calls := nofun

theorem allFresh (hs : Coherent updatedAt s) : AllFresh s := by
  intro call hcall rules hprogress
  have hsound := hs.calls call hcall
  unfold Call.Sound at hsound
  rw [hprogress] at hsound
  exact hsound

theorem present (hs : Coherent updatedAt s) {i : Nat} {call : Call} (hcall : s.calls[i]? = some call)
    (hprogress : call.progress = .starting ∨ call.progress = .selecting) :
    s.tables ∈ call.tables := by
  have hsound := hs.calls call (List.mem_of_getElem? hcall)
  unfold Call.Sound at hsound
  rcases hprogress with hprogress | hprogress
  · rw [hprogress] at hsound
    exact hsound
  · rw [hprogress] at hsound
    exact hsound

theorem cached (hs : Coherent updatedAt s) {process agentId : Nat} {entry : CacheEntry}
    (h : (s.caches process).get? agentId = some entry) :
    updatedAt agentId = some entry.updatedAt ∧ Current s.tables agentId entry.rules :=
  ⟨hs.stamped process agentId entry h, hs.held _ _ (.cached h)⟩

/-- Caches may lose entries. -/
theorem of_caches (hs : Coherent updatedAt s) (htables : s'.tables = s.tables)
    (hcalls : s'.calls = s.calls)
    (hcaches : ∀ process agentId entry, (s'.caches process).get? agentId = some entry →
      (s.caches process).get? agentId = some entry) : Coherent updatedAt s' where
  stamped process agentId entry h := hs.stamped process agentId entry (hcaches _ _ _ h)
  held := by
    intro agentId rules h
    rw [htables]
    cases h with
    | cached h => exact hs.held _ _ (.cached (hcaches _ _ _ h))
    | read h hread hstamp =>
        rw [hcalls] at h
        exact hs.held _ _ (.read h hread hstamp)
  calls := by
    rw [hcalls, htables]
    exact hs.calls

theorem start (hs : Coherent updatedAt s) (process agentId : Nat) :
    Coherent updatedAt (s.start process agentId) where
  stamped := hs.stamped
  held := by
    intro other rules h
    cases h with
    | cached h => exact hs.held _ _ (.cached h)
    | read h hread hstamp =>
        rcases mem_concat.1 h with hold | hnew
        · exact hs.held _ _ (.read hold hread hstamp)
        · rw [hnew] at hread
          cases hread
  calls := by
    intro call hcall
    rcases mem_concat.1 hcall with hold | hnew
    · exact hs.calls call hold
    · rw [hnew]
      exact List.mem_singleton_self s.tables

/-- A call may put a current list under the right stamp and go on with a list of its tables. -/
theorem advance (hs : Coherent updatedAt s) (i : Nat) {call : Call} {cache : RulesCache}
    {progress : Progress}
    (hcache : ∀ agentId entry, cache.get? agentId = some entry →
      updatedAt agentId = some entry.updatedAt ∧ Current s.tables agentId entry.rules)
    (hread : ∀ rules, progress = .read rules → Current s.tables call.agentId rules)
    (hsound : Call.Sound s.tables { call with progress := progress }) :
    Coherent updatedAt (s.advance i call cache progress) := by
  have hcaches : ∀ process agentId entry,
      ((s.advance i call cache progress).caches process).get? agentId = some entry →
        updatedAt agentId = some entry.updatedAt ∧ Current s.tables agentId entry.rules := by
    intro process agentId entry h
    change (Function.update s.caches call.process cache process).get? agentId = some entry at h
    by_cases hprocess : process = call.process
    · rw [hprocess, Function.update_self] at h
      exact hcache agentId entry h
    · rw [Function.update_of_ne hprocess] at h
      exact hs.cached h
  refine ⟨fun process agentId entry h => (hcaches process agentId entry h).1, ?_, ?_⟩
  · intro agentId rules h
    cases h with
    | cached h => exact (hcaches _ _ _ h).2
    | read h hprogress hstamp =>
        rcases List.mem_or_eq_of_mem_set h with hold | rfl
        · exact hs.held _ _ (.read hold hprogress hstamp)
        · exact hread _ hprogress
  · intro other h
    rcases List.mem_or_eq_of_mem_set h with hold | rfl
    · exact hs.calls other hold
    · exact hsound

theorem lookup (hs : Coherent updatedAt s) {i : Nat} (h : s.lookup updatedAt i = some s') :
    Coherent updatedAt s' := by
  rcases Deployment.lookup_eq_some h with ⟨call, hcall, hprogress, rfl⟩
  have hpresent := hs.present hcall (.inl hprogress)
  apply hs.advance i
  · intro agentId entry hentry
    exact hs.cached (RulesCache.get?_of_get?_getCachedRules hentry)
  · intro rules hread
    cases hfound : ((s.caches call.process).getCachedRules call.agentId
        (updatedAt call.agentId)).2 with
    | none =>
        rw [hfound] at hread
        cases hread
    | some found =>
        rw [hfound] at hread
        cases hread
  · cases hfound : ((s.caches call.process).getCachedRules call.agentId
        (updatedAt call.agentId)).2 with
    | none => exact hpresent
    | some rules =>
        -- a hit is an entry of the cache, and those are current
        rcases RulesCache.getCachedRules_eq_some_iff.1 hfound with ⟨entry, hentry, -, rfl⟩
        exact ⟨s.tables, hpresent, (hs.cached hentry).2⟩

theorem select (hs : Coherent updatedAt s) {i : Nat} {tie : AgentRule → Nat}
    (h : s.select i tie = some s') : Coherent updatedAt s' := by
  rcases Deployment.select_eq_some h with ⟨call, hcall, hprogress, rfl⟩
  have hpresent := hs.present hcall (.inr hprogress)
  apply hs.advance i
  · intro agentId entry hentry
    exact hs.cached hentry
  · intro rules hread
    cases hread
    exact ⟨tie, rfl⟩
  · exact ⟨s.tables, hpresent, tie, rfl⟩

theorem put (hs : Coherent updatedAt s) {i : Nat} (h : s.put updatedAt i = some s') :
    Coherent updatedAt s' := by
  rcases Deployment.put_eq_some h with ⟨call, rules, hcall, hprogress, rfl⟩
  have hmem := List.mem_of_getElem? hcall
  apply hs.advance i
  · intro agentId entry hentry
    rcases RulesCache.get?_putCachedRules_cases hentry with hold | ⟨rfl, hstamp, rfl⟩
    · exact hs.cached hold
    · exact ⟨hstamp, hs.held _ _ (.read hmem hprogress hstamp)⟩
  · intro other hread
    cases hread
  · have hsound := hs.calls call hmem
    unfold Call.Sound at hsound
    rw [hprogress] at hsound
    exact hsound

theorem routeStep (hs : Coherent updatedAt s) {action : CallAction}
    (h : s.routeStep updatedAt action = some s') : Coherent updatedAt s' := by
  cases action with
  | start process agentId =>
      cases h
      exact hs.start process agentId
  | lookup i => exact hs.lookup h
  | select i tie => exact hs.select h
  | put i => exact hs.put h

theorem routesFresh (hs : Coherent updatedAt s) : RoutesFresh updatedAt s := by
  intro actions
  have hkept : Visits (Deployment.routeStep updatedAt) (Coherent updatedAt) s actions :=
    (EveryStep.of_forall (fun _ _ => trivial) s actions).visits
      (fun _ _ _ hs _ h => hs.routeStep h) hs
  exact hkept.mono fun _ => allFresh

/-- New tables join those of the calls that have not evaluated. -/
theorem sound_sees {call : Call} {before : RuleStore} (h : call.Sound before) (after : RuleStore) :
    (call.sees after).Sound after := by
  unfold Call.Sound at h
  unfold Call.sees Call.Sound
  cases hprogress : call.progress with
  | starting | selecting => exact List.mem_cons_self
  | read rules =>
      simp only [hprogress] at h ⊢
      rcases h with ⟨tables, hmem, hcurrent⟩
      exact ⟨tables, List.mem_cons_of_mem _ hmem, hcurrent⟩
  | evaluated rules =>
      simp only [hprogress] at h ⊢
      exact h

end Coherent

/-! ## A commit that outdates a held list -/

section Commit

variable {merge : RuleStore → RuleStore → RuleStore → RuleStore} {updatedAt : Nat → Option Nat}
  {s s' : Deployment}

theorem RoutesFresh.routeStep (h : RoutesFresh updatedAt s) {action : CallAction}
    (hstep : s.routeStep updatedAt action = some s') : RoutesFresh updatedAt s' :=
  fun actions => (h (action :: actions)).2 s' hstep

/-- The next call in the process of an entry with the right stamp evaluates its list. -/
theorem RoutesFresh.cached (h : RoutesFresh updatedAt s) {process agentId : Nat}
    {entry : CacheEntry} (hentry : (s.caches process).get? agentId = some entry)
    (hstamp : updatedAt agentId = some entry.updatedAt) : Current s.tables agentId entry.rules := by
  let call : Call := { process := process, agentId := agentId, tables := [s.tables] }
  let started := s.start process agentId
  have hcall : started.calls[s.calls.length]? = some call := List.getElem?_concat_length
  have hhit : ((started.caches call.process).getCachedRules call.agentId
      (updatedAt call.agentId)).2 = some entry.rules :=
    RulesCache.getCachedRules_eq_some_iff.2 ⟨entry, hentry, hstamp, rfl⟩
  have hlookup : started.routeStep updatedAt (.lookup s.calls.length) =
      some (started.advance s.calls.length call
        ((started.caches call.process).getCachedRules call.agentId (updatedAt call.agentId)).1
        (.evaluated entry.rules)) := by
    show started.calls[s.calls.length]?.bind _ = _
    rw [hcall, Option.bind_some]
    simp only [hhit]
    rfl
  have hstart : s.routeStep updatedAt (.start process agentId) = some started := rfl
  have hstarted : RoutesFresh updatedAt started := h.routeStep hstart
  have hmem : { call with progress := .evaluated entry.rules } ∈
      started.calls.set s.calls.length { call with progress := .evaluated entry.rules } := by
    apply List.mem_set
    exact (List.getElem?_eq_some_iff.1 hcall).1
  have hfresh : AllFresh _ := (hstarted.routeStep hlookup) []
  rcases hfresh _ hmem entry.rules rfl with ⟨tables, htables, hcurrent⟩
  rw [List.mem_singleton] at htables
  rw [← htables]
  exact hcurrent

/-- A list on the way to a cache is evaluated once it is there. -/
theorem RoutesFresh.held (h : RoutesFresh updatedAt s) (hs : ∀ process agentId entry,
    (s.caches process).get? agentId = some entry → updatedAt agentId = some entry.updatedAt)
    {agentId : Nat} {rules : List AgentRule} (hheld : Held updatedAt s agentId rules) :
    Current s.tables agentId rules := by
  cases hheld with
  | @cached process _ entry hentry => exact h.cached hentry (hs process agentId entry hentry)
  | @read call _ stamp hmem hread hstamp =>
      rcases List.getElem?_of_mem hmem with ⟨i, hcall⟩
      let cache := (s.caches call.process).putCachedRules call.agentId (updatedAt call.agentId)
        rules
      let stored := s.advance i call cache (.evaluated rules)
      have hput : s.routeStep updatedAt (.put i) = some stored := by
        show s.calls[i]?.bind _ = _
        rw [hcall, Option.bind_some]
        simp only [hread]
        rfl
      have hentry : (stored.caches call.process).get? call.agentId =
          some { updatedAt := stamp, rules := rules } := by
        show (Function.update s.caches call.process cache call.process).get? call.agentId = _
        rw [Function.update_self]
        show ((s.caches call.process).putCachedRules call.agentId (updatedAt call.agentId)
          rules).get? call.agentId = _
        rw [hstamp]
        exact RulesCache.get?_putCachedRules_self stamp
      have hstored : RoutesFresh updatedAt stored := h.routeStep hput
      exact hstored.cached hentry hstamp

theorem held_commit {tables : RuleStore} {changes : List Change} {agentId : Nat}
    {rules : List AgentRule} :
    Held updatedAt { s with
        tables := tables, calls := s.calls.map (Call.sees tables), changes := changes }
      agentId rules ↔ Held updatedAt s agentId rules := by
  have hagent : ∀ call : Call, (call.sees tables).agentId = call.agentId := by
    intro call
    unfold Call.sees
    split <;> rfl
  have hprogress : ∀ call : Call, (call.sees tables).progress = call.progress := by
    intro call
    unfold Call.sees
    split <;> rfl
  constructor
  · intro h
    cases h with
    | cached h => exact .cached h
    | read h hread hstamp =>
        rcases List.mem_map.1 h with ⟨call, hmem, rfl⟩
        rw [hagent] at hstamp ⊢
        rw [hprogress] at hread
        exact .read hmem hread hstamp
  · intro h
    cases h with
    | cached h => exact .cached h
    | @read call _ stamp hmem hread hstamp =>
        rw [← hagent]
        exact .read (List.mem_map_of_mem hmem) ((hprogress call).trans hread)
          ((congrArg updatedAt (hagent call)).trans hstamp)

end Commit

theorem Coherent.step_iff {library : Library} {scope : Scope} {round : ℚ → ℚ}
    {merge : RuleStore → RuleStore → RuleStore → RuleStore} {updatedAt : Nat → Option Nat}
    {s s' : Deployment} {action : CacheAction} (hs : Coherent updatedAt s)
    (h : s.step library scope round merge updatedAt action = some s') :
    (RoutesFresh updatedAt s' → CommitKeeps merge updatedAt s action) ∧
      (CommitKeeps merge updatedAt s action → Coherent updatedAt s') := by
  cases action with
  | route action => exact ⟨fun _ => trivial, fun _ => hs.routeStep h⟩
  | change process op =>
      rcases Deployment.change_eq_some h with ⟨changes, rfl⟩
      exact ⟨fun _ => trivial, fun _ => hs.of_caches rfl rfl fun _ _ _ => id⟩
  | invalidate k =>
      rcases Deployment.invalidate_eq_some h with ⟨process, agentId, changes, rfl⟩
      refine ⟨fun _ => trivial, fun _ => hs.of_caches rfl rfl ?_⟩
      intro other otherId entry hentry
      change (Function.update s.caches process ((s.caches process).invalidate agentId)
        other).get? otherId = some entry at hentry
      by_cases hother : other = process
      · rw [hother, Function.update_self] at hentry
        rw [hother]
        exact Dict.get?_of_get?_erase hentry
      · rwa [Function.update_of_ne hother] at hentry
  | commit k =>
      rcases Deployment.commit_eq_some h with ⟨change, hchange, rfl⟩
      constructor
      · intro hroutes change' hchange' agentId rules hheld
        rw [hchange] at hchange'
        cases hchange'
        exact hroutes.held hs.stamped (held_commit.2 hheld)
      · intro hkeeps
        refine ⟨hs.stamped, ?_, ?_⟩
        · intro agentId rules hheld
          exact hkeeps change hchange agentId rules (held_commit.1 hheld)
        · intro call hcall
          rcases List.mem_map.1 hcall with ⟨call, hmem, rfl⟩
          exact Coherent.sound_sees (hs.calls call hmem) _
  | abort k =>
      cases h
      exact ⟨fun _ => trivial, fun _ => hs.of_caches rfl rfl fun _ _ _ => id⟩

/-- Along a run, whichever route calls follow at any point evaluate lists of tables that were
committed since they started, exactly if no commit outdates a list that a process holds. -/
theorem routes_fresh_iff (library : Library) (scope : Scope) (round : ℚ → ℚ)
    (merge : RuleStore → RuleStore → RuleStore → RuleStore) (updatedAt : Nat → Option Nat)
    (tables : RuleStore) (actions : List CacheAction) :
    Visits (Deployment.step library scope round merge updatedAt) (RoutesFresh updatedAt)
        { tables := tables } actions ↔
      EveryStep (Deployment.step library scope round merge updatedAt)
        (CommitKeeps merge updatedAt) { tables := tables } actions :=
  visits_iff_everyStep_of_companion (fun _ => Coherent.routesFresh)
    (fun _ _ _ hs h => hs.step_iff h) (Coherent.initial tables) actions

/-- Process 1 caches the empty list of agent 0, process 0 creates a rule, and process 1 routes
again. -/
def staleCall : List CacheAction :=
  [.route (.start 1 0), .route (.lookup 0), .route (.select 0 fun _ => 0), .route (.put 0),
    .change 0 (.create 0 0 0 (helpBody none)), .invalidate 0, .commit 0,
    .route (.start 1 0), .route (.lookup 1)]

/-- The second call evaluates the empty list that its process still holds. -/
theorem stale_call_evaluated :
    ¬ ∀ (library : Library) (scope : Scope) (round : ℚ → ℚ)
        (merge : RuleStore → RuleStore → RuleStore → RuleStore) (updatedAt : Nat → Option Nat)
        (tables : RuleStore) (actions : List CacheAction),
        Visits (Deployment.step library scope round merge updatedAt) AllFresh
          { tables := tables } actions := by
  intro h
  have hrun : ∃ s, runSteps (Deployment.step plainLibrary oneWorkflow id (fun _ written _ => written)
      fun _ => some 0) { tables := {} } staleCall = some s ∧
      ∃ call ∈ s.calls, call.progress = .evaluated [] ∧
        ∃ tables, call.tables = [tables] ∧
          ∃ rule ∈ tables.rules, rule.agentId = call.agentId ∧ rule.isActive = true :=
    ⟨_, rfl, _, List.mem_cons_of_mem _ List.mem_cons_self, rfl, _, rfl, _, List.mem_cons_self, rfl,
      rfl⟩
  rcases hrun with ⟨s, hrun, call, hcall, hprogress, tables, htables, rule, hrule, hagent, hactive⟩
  have hfresh := (h plainLibrary oneWorkflow id (fun _ written _ => written) (fun _ => some 0) {}
    staleCall).last hrun
  rcases hfresh call hcall [] hprogress with ⟨tables', hmem, tie, hempty⟩
  rw [htables, List.mem_singleton] at hmem
  subst hmem
  have hrow : rule ∈ tables'.activeRules call.agentId tie :=
    mem_orderBy.2 (List.mem_filter.2 ⟨RuleStore.mem_rulesOf.2 ⟨hrule, hagent⟩, hactive⟩)
  rw [← hempty] at hrow
  cases hrow

end OpsKnowledge.Orchestrator
