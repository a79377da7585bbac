import OpsKnowledge.Lib.Dict
import OpsKnowledge.Lib.Json
import OpsKnowledge.Lib.History
import OpsKnowledge.Lib.Transition

/-!
# The runtime configuration

Every process keeps a copy of the settings row. A call that finds none that is fresh takes
the time, awaits the row and then stores it under the time it took; other calls, commits and
invalidations come in between. `update_settings` clears the copy of its process and sends
a message to all processes before its transaction commits, so a copy of the old row may be made
between the two. Instants are microseconds of one clock.
-/

namespace OpsKnowledge.System

open OpsKnowledge.Lib

/-- `system_settings.settings` -/
abbrev Settings := Dict String JsonValue

/-- `_CACHE_TTL` -/
def cacheTtl : Nat := 60000000

/-- `_cache` and `_cache_ts` of one process. -/
structure ConfigCache where
  cache : Option Settings := none
  cacheTs : Nat := 0

namespace ConfigCache

/-- The copy that a call at `now` may return. -/
def fresh (c : ConfigCache) (now : Nat) : Option Settings :=
  if now - c.cacheTs < cacheTtl then c.cache else none

/-- `invalidate_cache` -/
def invalidate : ConfigCache := {}

theorem fresh_eq_some {c : ConfigCache} {now : Nat} {v : Settings} (h : c.fresh now = some v) :
    c.cache = some v ∧ now < c.cacheTs + cacheTtl := by
  have hpos : 0 < cacheTtl := by decide
  unfold fresh at h
  split at h
  · exact ⟨h, by omega⟩
  · cases h

end ConfigCache

/-- A `get_runtime_config` that awaits the row, or has it. -/
structure ConfigCall where
  process : Nat
  started : Nat
  row : Option Settings := none

/-- A `get_runtime_config` that has returned. -/
structure ConfigAnswer where
  process : Nat
  started : Nat
  returned : Nat
  value : Settings

/-- The database, the processes and what is under way between them. -/
structure Cluster where
  now : Nat := 0
  /-- The rows that were committed, with the instants of their commits. -/
  committed : List (Nat × Settings)
  /-- The instants at which a query for the row has failed. -/
  failures : List Nat := []
  caches : Nat → ConfigCache := fun _ => {}
  calls : List ConfigCall := []
  answers : List ConfigAnswer := []
  /-- The rows that `update_settings` has flushed. -/
  updates : List Settings := []
  /-- The processes to which an invalidation is on its way. -/
  messages : List Nat := []

inductive ConfigAction where
  | tick (d : Nat)
  | call (process : Nat)
  | select (i : Nat)
  | store (i : Nat)
  | fail (i : Nat)
  | update (process : Nat) (row body : Settings) (receivers : List Nat)
  | commit (k : Nat)
  | rollback (k : Nat)
  | deliver (k : Nat)
  | lose (k : Nat)

namespace Cluster

/-- The row as a query sees it; no row is read as an empty one. -/
def current (s : Cluster) : Settings := (s.committed.getLast?.map Prod.snd).getD .empty

/-- The process stores a row under the time the call took, and returns it. -/
def answer (s : Cluster) (i : Nat) (c : ConfigCall) (row : Settings) : Cluster :=
  { s with
    caches := Function.update s.caches c.process { cache := some row, cacheTs := c.started }
    calls := s.calls.eraseIdx i
    answers := s.answers ++
      [{ process := c.process, started := c.started, returned := s.now, value := row }] }

/-- `get_runtime_config` until it returns or awaits the row. -/
def call (s : Cluster) (process : Nat) : Cluster :=
  match (s.caches process).fresh s.now with
  | some v =>
      { s with
        answers := s.answers ++
          [{ process := process, started := s.now, returned := s.now, value := v }] }
  | none => { s with calls := s.calls ++ [{ process := process, started := s.now }] }

def select (s : Cluster) (i : Nat) : Option Cluster :=
  s.calls[i]?.map fun c => { s with calls := s.calls.set i { c with row := some s.current } }

def store (s : Cluster) (i : Nat) : Option Cluster :=
  s.calls[i]?.bind fun c => c.row.map fun row => s.answer i c row

/-- The query raises: an empty row is stored and returned. -/
def fail (s : Cluster) (i : Nat) : Option Cluster :=
  s.calls[i]?.map fun c => { s.answer i c .empty with failures := s.failures ++ [s.now] }

/-- `update_settings` on the row that its session has loaded. -/
def update (s : Cluster) (process : Nat) (row body : Settings) (receivers : List Nat) : Cluster :=
  { s with
    updates := s.updates ++ [row.update body]
    caches := Function.update s.caches process .invalidate
    messages := s.messages ++ receivers }

def commit (s : Cluster) (k : Nat) : Option Cluster :=
  s.updates[k]?.map fun row =>
    { s with committed := s.committed ++ [(s.now, row)], updates := s.updates.eraseIdx k }

/-- A subscriber receives the message. -/
def deliver (s : Cluster) (k : Nat) : Option Cluster :=
  s.messages[k]?.map fun process =>
    { s with
      caches := Function.update s.caches process .invalidate
      messages := s.messages.eraseIdx k }

def step (s : Cluster) : ConfigAction → Option Cluster
  | .tick d => some { s with now := s.now + d }
  | .call process => some (s.call process)
  | .select i => s.select i
  | .store i => s.store i
  | .fail i => s.fail i
  | .update process row body receivers => some (s.update process row body receivers)
  | .commit k => s.commit k
  | .rollback k => some { s with updates := s.updates.eraseIdx k }
  | .deliver k => s.deliver k
  | .lose k => some { s with messages := s.messages.eraseIdx k }

/-! ## What was there to be read -/

/-- A query at `t` sees `v`, or it fails and the caller makes `v` of it. -/
def Readable (s : Cluster) (t : Nat) (v : Settings) : Prop :=
  InForce s.committed t v ∨ v = .empty ∧ t ∈ s.failures

/-- The answer could be read at some moment of the call, or of the time to live before it. -/
def Justified (s : Cluster) (a : ConfigAnswer) : Prop :=
  ∃ t ≤ a.returned, a.started < t + cacheTtl ∧ s.Readable t a.value

/-- What holds in every state. -/
structure Sound (s : Cluster) : Prop where
  sorted : s.committed.Pairwise fun e e' => e.1 ≤ e'.1
  past : ∀ e ∈ s.committed, e.1 ≤ s.now
  nonempty : s.committed ≠ []
  cached : ∀ p v, (s.caches p).cache = some v →
    ∃ t ≤ s.now, (s.caches p).cacheTs ≤ t ∧ s.Readable t v
  calls : ∀ c ∈ s.calls, c.started ≤ s.now ∧
    ∀ row, c.row = some row → ∃ t ≤ s.now, c.started ≤ t ∧ s.Readable t row
  answers : ∀ a ∈ s.answers, a.returned ≤ s.now ∧ s.Justified a

/-- Time has passed, and what could be read at an instant still is what could be read then. -/
structure Later (s s' : Cluster) : Prop where
  now : s.now ≤ s'.now
  readable : ∀ t ≤ s.now, ∀ v, s.Readable t v → s'.Readable t v

variable {s s' : Cluster}

theorem Later.of_eq (hnow : s.now ≤ s'.now) (hcommitted : s'.committed = s.committed)
    (hfailures : s.failures ⊆ s'.failures) : Later s s' where
  now := hnow
  readable := by
    intro t _ v h
    rw [Readable, hcommitted]
    exact h.imp_right fun h => ⟨h.1, hfailures h.2⟩

theorem Justified.later {a : ConfigAnswer} (h : s.Justified a) (hl : Later s s')
    (ha : a.returned ≤ s.now) : s'.Justified a := by
  obtain ⟨t, ht, hstarted, hread⟩ := h
  exact ⟨t, ht, hstarted, hl.readable t (Nat.le_trans ht ha) _ hread⟩

namespace Sound

theorem readable_current (hs : Sound s) : s.Readable s.now s.current := by
  obtain ⟨log, e, hlog⟩ := List.eq_nil_or_concat s.committed |>.resolve_left hs.nonempty
  have hlast : s.current = e.2 := by simp [current, hlog]
  have he : e.1 ≤ s.now := hs.past e (by simp [hlog])
  left
  rw [hlast, hlog, List.concat_eq_append]
  exact inForce_concat_self he

theorem later_cached (hs : Sound s) (hl : Later s s') {p : Nat} {v : Settings}
    (h : (s.caches p).cache = some v) :
    ∃ t ≤ s'.now, (s.caches p).cacheTs ≤ t ∧ s'.Readable t v := by
  obtain ⟨t, ht, hts, hread⟩ := hs.cached p v h
  exact ⟨t, Nat.le_trans ht hl.now, hts, hl.readable t ht v hread⟩

theorem later_call (hs : Sound s) (hl : Later s s') {c : ConfigCall} (hc : c ∈ s.calls) :
    c.started ≤ s'.now ∧
      ∀ row, c.row = some row → ∃ t ≤ s'.now, c.started ≤ t ∧ s'.Readable t row := by
  obtain ⟨hstarted, hrow⟩ := hs.calls c hc
  refine ⟨Nat.le_trans hstarted hl.now, ?_⟩
  intro row h
  obtain ⟨t, ht, hts, hread⟩ := hrow row h
  exact ⟨t, Nat.le_trans ht hl.now, hts, hl.readable t ht row hread⟩

theorem later_answer (hs : Sound s) (hl : Later s s') {a : ConfigAnswer} (ha : a ∈ s.answers) :
    a.returned ≤ s'.now ∧ s'.Justified a := by
  obtain ⟨hreturned, hjust⟩ := hs.answers a ha
  exact ⟨Nat.le_trans hreturned hl.now, hjust.later hl hreturned⟩

/-- A step of another kind than a return or a commit: the copies that are left were there, and so
were the calls. -/
theorem of_kept (hs : Sound s) (hnow : s.now ≤ s'.now) (hcommitted : s'.committed = s.committed)
    (hfailures : s'.failures = s.failures) (hanswers : s'.answers = s.answers)
    (hcaches : ∀ p v, (s'.caches p).cache = some v → s'.caches p = s.caches p)
    (hcalls : ∀ c ∈ s'.calls, c ∈ s.calls) : Sound s' := by
  have hl := Later.of_eq hnow hcommitted (hfailures ▸ List.Subset.refl _)
  refine ⟨hcommitted ▸ hs.sorted, ?_, hcommitted ▸ hs.nonempty, ?_,
    fun c hc => hs.later_call hl (hcalls c hc), ?_⟩
  · intro e he
    exact Nat.le_trans (hs.past e (hcommitted ▸ he)) hnow
  · intro p v h
    have heq := hcaches p v h
    rw [heq] at h ⊢
    exact hs.later_cached hl h
  · intro a ha
    exact hs.later_answer hl (hanswers ▸ ha)

theorem invalidated (p : Nat) (caches : Nat → ConfigCache) {q : Nat} {v : Settings}
    (h : (Function.update caches p .invalidate q).cache = some v) :
    Function.update caches p .invalidate q = caches q := by
  by_cases hq : q = p
  · subst hq
    rw [Function.update_self] at h
    cases h
  · rw [Function.update_of_ne hq]

/-- A call returns what could be read since it started. -/
theorem answer (hs : Sound s) {i : Nat} {c : ConfigCall} {row : Settings}
    {failures : List Nat} (hfailures : s.failures ⊆ failures) (hrow : ∃ t ≤ s.now, c.started ≤ t ∧
      ({ s.answer i c row with failures := failures }).Readable t row) :
    Sound { s.answer i c row with failures := failures } := by
  have hl : Later s { s.answer i c row with failures := failures } :=
    Later.of_eq (Nat.le_refl _) rfl hfailures
  have hpos : 0 < cacheTtl := by decide
  obtain ⟨t, ht, hts, hread⟩ := hrow
  refine ⟨hs.sorted, hs.past, hs.nonempty, ?_, ?_, ?_⟩
  · intro p v h
    by_cases hp : p = c.process
    · subst hp
      simp only [Cluster.answer, Function.update_self, Option.some.injEq] at h ⊢
      subst h
      exact ⟨t, ht, hts, hread⟩
    · simp only [Cluster.answer, Function.update_of_ne hp] at h ⊢
      exact hs.later_cached hl h
  · intro d hd
    exact hs.later_call hl (List.mem_of_mem_eraseIdx hd)
  · intro a ha
    rcases List.mem_append.1 ha with ha | ha
    · exact hs.later_answer hl ha
    · obtain rfl := List.mem_singleton.1 ha
      exact ⟨Nat.le_refl _, t, ht, by simp only; omega, hread⟩

theorem call (hs : Sound s) (p : Nat) : Sound (s.call p) := by
  unfold Cluster.call
  split
  case _ v hfresh =>
      obtain ⟨hcache, hlt⟩ := ConfigCache.fresh_eq_some hfresh
      obtain ⟨t, ht, hts, hread⟩ := hs.cached p v hcache
      have hl : Later s { s with answers := s.answers ++
          [{ process := p, started := s.now, returned := s.now, value := v }] } :=
        Later.of_eq (Nat.le_refl _) rfl (List.Subset.refl _)
      refine ⟨hs.sorted, hs.past, hs.nonempty, fun q v h => hs.later_cached hl h,
        fun c hc => hs.later_call hl hc, ?_⟩
      intro a ha
      rcases List.mem_append.1 ha with ha | ha
      · exact hs.later_answer hl ha
      · obtain rfl := List.mem_singleton.1 ha
        exact ⟨Nat.le_refl _, t, ht, by simp only; omega, hread⟩
  case _ =>
      have hl : Later s { s with calls := s.calls ++ [{ process := p, started := s.now }] } :=
        Later.of_eq (Nat.le_refl _) rfl (List.Subset.refl _)
      refine ⟨hs.sorted, hs.past, hs.nonempty, fun q v h => hs.later_cached hl h, ?_,
        fun a ha => hs.later_answer hl ha⟩
      intro c hc
      rcases List.mem_append.1 hc with hc | hc
      · exact hs.later_call hl hc
      · obtain rfl := List.mem_singleton.1 hc
        exact ⟨Nat.le_refl _, fun row h => by cases h⟩

theorem select (hs : Sound s) {i : Nat} (h : s.select i = some s') : Sound s' := by
  obtain ⟨c, hi, rfl⟩ := Option.map_eq_some_iff.1 h
  have hl : Later s { s with calls := s.calls.set i { c with row := some s.current } } :=
    Later.of_eq (Nat.le_refl _) rfl (List.Subset.refl _)
  have hc := hs.later_call hl (List.mem_of_getElem? hi)
  refine ⟨hs.sorted, hs.past, hs.nonempty, fun q v h => hs.later_cached hl h, ?_,
    fun a ha => hs.later_answer hl ha⟩
  intro d hd
  rcases List.mem_or_eq_of_mem_set hd with hd | rfl
  · exact hs.later_call hl hd
  · refine ⟨hc.1, ?_⟩
    intro row hrow
    cases hrow
    exact ⟨s.now, Nat.le_refl _, hc.1, hl.readable s.now (Nat.le_refl _) _ hs.readable_current⟩

theorem store (hs : Sound s) {i : Nat} (h : s.store i = some s') : Sound s' := by
  obtain ⟨c, hi, h⟩ := Option.bind_eq_some_iff.1 h
  obtain ⟨row, hrow, rfl⟩ := Option.map_eq_some_iff.1 h
  exact hs.answer (List.Subset.refl _) ((hs.calls c (List.mem_of_getElem? hi)).2 row hrow)

theorem fail (hs : Sound s) {i : Nat} (h : s.fail i = some s') : Sound s' := by
  obtain ⟨c, hi, rfl⟩ := Option.map_eq_some_iff.1 h
  refine hs.answer (List.subset_append_left _ _) ?_
  refine ⟨s.now, Nat.le_refl _, (hs.calls c (List.mem_of_getElem? hi)).1, ?_⟩
  exact Or.inr ⟨rfl, List.mem_append_right _ (List.mem_singleton_self _)⟩

theorem commit (hs : Sound s) {k : Nat} (h : s.commit k = some s') : Sound s' := by
  obtain ⟨row, hk, rfl⟩ := Option.map_eq_some_iff.1 h
  have hl : Later s { s with committed := s.committed ++ [(s.now, row)], updates := s.updates.eraseIdx k } :=
    ⟨Nat.le_refl _, fun t ht v h => h.imp_left fun h => h.concat ht⟩
  refine ⟨?_, ?_, by simp, fun q v h => hs.later_cached hl h, fun c hc => hs.later_call hl hc,
    fun a ha => hs.later_answer hl ha⟩
  · refine List.pairwise_append.2 ⟨hs.sorted, List.pairwise_singleton _ _, ?_⟩
    intro e he e' he'
    obtain rfl := List.mem_singleton.1 he'
    exact hs.past e he
  · intro e he
    rcases List.mem_append.1 he with he | he
    · exact hs.past e he
    · obtain rfl := List.mem_singleton.1 he
      exact Nat.le_refl _

theorem step (hs : Sound s) {action : ConfigAction} (h : s.step action = some s') : Sound s' := by
  cases action with
  | tick d =>
      cases h
      exact hs.of_kept (Nat.le_add_right _ _) rfl rfl rfl (fun _ _ _ => rfl) fun _ hc => hc
  | call p =>
      cases h
      exact hs.call p
  | select i => exact hs.select h
  | store i => exact hs.store h
  | fail i => exact hs.fail h
  | update p row body receivers =>
      cases h
      exact hs.of_kept (Nat.le_refl _) rfl rfl rfl (fun _ _ => invalidated p _) fun _ hc => hc
  | commit k => exact hs.commit h
  | rollback k =>
      cases h
      exact hs.of_kept (Nat.le_refl _) rfl rfl rfl (fun _ _ _ => rfl) fun _ hc => hc
  | deliver k =>
      obtain ⟨p, hk, rfl⟩ := Option.map_eq_some_iff.1 h
      exact hs.of_kept (Nat.le_refl _) rfl rfl rfl (fun _ _ => invalidated p _) fun _ hc => hc
  | lose k =>
      cases h
      exact hs.of_kept (Nat.le_refl _) rfl rfl rfl (fun _ _ _ => rfl) fun _ hc => hc

theorem run (hs : Sound s) {actions : List ConfigAction}
    (h : runSteps Cluster.step s actions = some s') : Sound s' := by
  induction actions generalizing s with
  | nil =>
      cases h
      exact hs
  | cons action actions ih =>
      obtain ⟨t, ht, h⟩ := Option.bind_eq_some_iff.1 h
      exact ih (hs.step ht) h

theorem initial (row : Settings) : Sound { committed := [(0, row)] } where
  sorted := List.pairwise_singleton _ _
  past := by simp
  nonempty := by simp
  cached := by simp
  calls := by simp
  answers := by simp

end Sound

end Cluster

/-! ## Bounded staleness -/

/-- An answer to a call that started long enough after the last commit. -/
theorem Cluster.Sound.value_of_settled {s : Cluster} (hs : s.Sound) {log : List (Nat × Settings)} {last : Nat}
    {row : Settings} (hlog : s.committed = log ++ [(last, row)]) {a : ConfigAnswer}
    (ha : a ∈ s.answers) (hlast : last + cacheTtl ≤ a.started) :
    a.value = row ∨
      a.value = .empty ∧ ∃ t ∈ s.failures, t ≤ a.returned ∧ a.started < t + cacheTtl := by
  obtain ⟨t, ht, hstarted, hread⟩ := (hs.answers a ha).2
  rcases hread with hforce | ⟨hempty, hfail⟩
  · left
    have hsorted := hs.sorted
    rw [hlog] at hforce hsorted
    have hbefore : ∀ e ∈ log, e.1 ≤ last :=
      fun e he => (List.pairwise_append.1 hsorted).2.2 e he _ (List.mem_singleton_self _)
    exact hforce.eq_of_concat hbefore (by omega)
  · exact Or.inr ⟨hempty, t, hfail, ht, hstarted⟩

/-- In every run, whatever `get_runtime_config` returns could be read from the database less than
the time to live before the call, or later; and once the row has not changed for that long,
every process returns it, or an empty one after a query that has failed. -/
theorem answers_justified {row : Settings} {actions : List ConfigAction} {s : Cluster}
    (hrun : runSteps Cluster.step { committed := [(0, row)] } actions = some s) :
    (∀ a ∈ s.answers, s.Justified a) ∧
      ∀ log last row', s.committed = log ++ [(last, row')] →
        ∀ a ∈ s.answers, last + cacheTtl ≤ a.started →
          a.value = row' ∨
            a.value = .empty ∧ ∃ t ∈ s.failures, t ≤ a.returned ∧ a.started < t + cacheTtl := by
  have hs := (Cluster.Sound.initial row).run hrun
  exact ⟨fun a ha => (hs.answers a ha).2, fun log last row' hlog a ha hlast =>
    hs.value_of_settled hlog ha hlast⟩

/-- The old row is read before its change is flushed, and stored after the invalidation. -/
def lateStore : List ConfigAction :=
  [.call 0, .select 0, .update 1 .empty (.ofList [("quotas", .null)]) [0], .deliver 0, .store 0,
    .commit 0, .tick 59999999, .call 0, .tick 1, .call 0, .select 0, .store 0]

theorem answers_justified_lateStore :
    ∃ s, runSteps Cluster.step { committed := [(0, .empty)] } lateStore = some s ∧
      s.answers.map (fun a => a.value.keys) = [[], [], ["quotas"]] ∧
      ∀ a ∈ s.answers, s.Justified a := by
  have hrun : ((runSteps Cluster.step { committed := [(0, .empty)] } lateStore).map fun s =>
      s.answers.map fun a => a.value.keys) = some [[], [], ["quotas"]] := by decide +kernel
  obtain ⟨s, hs, hkeys⟩ := Option.map_eq_some_iff.1 hrun
  exact ⟨s, hs, hkeys, (answers_justified hs).1⟩

end OpsKnowledge.System
