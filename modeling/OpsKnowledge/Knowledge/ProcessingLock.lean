import OpsKnowledge.Lib.KeyValue
import OpsKnowledge.Lib.Transition

/-!
# The lock of a document's processing

`_acquire_lock` and `_release_lock` of `app/knowledge/ingestion/tasks.py`, and the tasks
between them. The key holds the same text for every task, so the release cannot tell
whose lock it deletes.
-/

namespace OpsKnowledge.Knowledge

open OpsKnowledge.Lib

/-- In seconds. -/
def lockTtl : Nat := 1800

def lockKey (docId : String) : String := "doc_processing:" ++ docId

theorem lockKey_inj {a b : String} : lockKey a = lockKey b ↔ a = b := String.append_right_inj _

/-- `_acquire_lock`: its answer and the keys after it. `up` says whether Redis answers. -/
def acquireLock (redis : ExpiringStore String String) (now : Nat) (docId : String) (up : Bool) :
    Bool × ExpiringStore String String :=
  if up then
    match redis.setNx now (lockTtl * 1000) (lockKey docId) "1" with
    | some redis => (true, redis)
    | none => (false, redis)
  else (true, redis)

/-- `_release_lock` -/
def releaseLock (redis : ExpiringStore String String) (docId : String) (up : Bool) :
    ExpiringStore String String :=
  if up then redis.delete (lockKey docId) else redis

/-! ## Tasks -/

inductive Task where
  /-- between the acquire and the release -/
  | running (docId : String) (since : Nat)
  | skipped
  | finished
  /-- the worker died -/
  | lost

/-- `now` is in milliseconds. `setBy` has the task that last set the document's key, and `deleted` who deleted
a live key, and who had set it. -/
structure LockState where
  now : Nat := 0
  redis : ExpiringStore String String := .empty
  tasks : Store Nat Task := .empty
  setBy : Store String Nat := .empty
  deleted : List (Nat × Option Nat) := []

/-- A retry or a task that is delivered again is one more task of its document. -/
inductive LockAction where
  | wait (ms : Nat)
  | acquire (i : Nat) (docId : String) (up : Bool)
  | release (i : Nat) (up : Bool)
  | lose (i : Nat)

/-- Redis answers who asks for a lock. -/
def LockAction.answered : LockAction → Bool
  | .acquire _ _ up => up
  | _ => true

namespace LockState

def step (s : LockState) : LockAction → Option LockState
  | .wait ms => some { s with now := s.now + ms }
  | .acquire i docId up =>
    if (s.tasks i).isSome then none
    else
      match acquireLock s.redis s.now docId up with
      | (true, redis) => some
          { s with
            redis := redis
            tasks := s.tasks.put i (.running docId s.now)
            setBy := if up then s.setBy.put docId i else s.setBy }
      | (false, redis) => some { s with redis := redis, tasks := s.tasks.put i .skipped }
  | .release i up =>
    match s.tasks i with
    | some (.running docId _) => some
        { s with
          redis := releaseLock s.redis docId up
          tasks := s.tasks.put i .finished
          deleted :=
            if up && (s.redis.get s.now (lockKey docId)).isSome then s.deleted ++ [(i, s.setBy docId)]
            else s.deleted }
    | _ => none
  | .lose i =>
    match s.tasks i with
    | some (.running _ _) => some { s with tasks := s.tasks.put i .lost }
    | _ => none

variable {s s' : LockState}

/-- One task of a document at a time is between its acquire and its release. -/
def Exclusive (s : LockState) : Prop :=
  ∀ i j docId t t', s.tasks i = some (.running docId t) → s.tasks j = some (.running docId t') → i = j

/-- No task has released a lock that it did not hold. -/
def ReleasesOwn (s : LockState) : Prop := ∀ d ∈ s.deleted, d.2 = some d.1

/-- Who asks for a lock finds no task of the document that has run for longer than the lock lives. -/
def InTime (s : LockState) : LockAction → Prop
  | .acquire _ docId _ => ∀ j since, s.tasks j = some (.running docId since) → s.now < since + lockTtl * 1000
  | _ => True

/-! ## What runs in time keep -/

structure Held (s : LockState) : Prop where
  key : ∀ i docId since, s.tasks i = some (.running docId since) →
    s.redis (lockKey docId) = some ("1", since + lockTtl * 1000) ∧ s.setBy docId = some i
  own : s.ReleasesOwn

theorem Held.exclusive (h : s.Held) : s.Exclusive := by
  intro i j docId t t' hi hj
  have howner := (h.key i docId t hi).2.symm.trans (h.key j docId t' hj).2
  exact Option.some.inj howner

/-- A task that is no longer running takes nothing from the others. -/
theorem Held.stop (h : s.Held) (i : Nat) {task : Task} (htask : ∀ docId since, task ≠ .running docId since) :
    Held { s with tasks := s.tasks.put i task } := by
  constructor
  · intro j docId since hj
    by_cases hij : j = i
    · subst hij
      exact absurd (Option.some.inj (Store.put_self.symm.trans hj)) (htask docId since)
    · exact h.key j docId since ((Store.put_of_ne hij).symm.trans hj)
  · exact h.own

theorem Held.acquire (h : s.Held) {i : Nat} {docId : String}
    (hfree : ∀ j since, s.tasks j ≠ some (.running docId since)) :
    Held
      { s with
        redis := s.redis.setEx s.now (lockTtl * 1000) (lockKey docId) "1"
        tasks := s.tasks.put i (.running docId s.now)
        setBy := s.setBy.put docId i } := by
  constructor
  · intro j other since hj
    by_cases hij : j = i
    · subst hij
      cases Store.put_self.symm.trans hj
      exact ⟨ExpiringStore.setEx_self, Store.put_self⟩
    · have hold : s.tasks j = some (.running other since) := (Store.put_of_ne hij).symm.trans hj
      have hdoc : other ≠ docId := by
        rintro rfl
        exact hfree j since hold
      obtain ⟨hkey, howner⟩ := h.key j other since hold
      constructor
      · exact (ExpiringStore.setEx_of_ne (mt lockKey_inj.1 hdoc)).trans hkey
      · exact (Store.put_of_ne hdoc).trans howner
  · exact h.own

/-- The key that a running task deletes is its own. -/
theorem Held.release (h : s.Held) {i : Nat} {docId : String} {since : Nat} {up : Bool}
    (hi : s.tasks i = some (.running docId since)) :
    Held
      { s with
        redis := releaseLock s.redis docId up
        tasks := s.tasks.put i .finished
        deleted :=
          if up && (s.redis.get s.now (lockKey docId)).isSome then s.deleted ++ [(i, s.setBy docId)]
          else s.deleted } := by
  constructor
  · intro j other since' hj
    by_cases hij : j = i
    · subst hij
      cases Store.put_self.symm.trans hj
    · have hold : s.tasks j = some (.running other since') := (Store.put_of_ne hij).symm.trans hj
      have hdoc : other ≠ docId := by
        rintro rfl
        exact hij (h.exclusive j i other since' since hold hi)
      refine ⟨?_, (h.key j other since' hold).2⟩
      show releaseLock s.redis docId up (lockKey other) = _
      unfold releaseLock
      split
      · rw [ExpiringStore.delete_of_ne (mt lockKey_inj.1 hdoc)]
        exact (h.key j other since' hold).1
      · exact (h.key j other since' hold).1
  · show ∀ d ∈ ite _ _ _, _
    split
    · intro d hd
      rcases List.mem_append.1 hd with hd | hd
      · exact h.own d hd
      · cases List.mem_singleton.1 hd
        exact (h.key i docId since hi).2
    · exact h.own

/-! ## One step -/

/-- Who gets the lock while another task of the document runs breaks the exclusion. -/
theorem inTime_of_exclusive {i : Nat} {docId : String} {t : Nat} {redis : ExpiringStore String String}
    {setBy : Store String Nat} (hi : s.tasks i = none)
    (h : Exclusive { s with redis := redis, tasks := s.tasks.put i (.running docId t), setBy := setBy }) :
    s.InTime (.acquire i docId true) := by
  intro j since hj
  have hij : j ≠ i := by
    rintro rfl
    cases hi.symm.trans hj
  have hsame := h i j docId t since Store.put_self ((Store.put_of_ne hij).trans hj)
  exact absurd hsame.symm hij

theorem acquire_held_iff (h : s.Held) {i : Nat} {docId : String}
    (hs' : s.step (.acquire i docId true) = some s') :
    (s'.Exclusive → s.InTime (.acquire i docId true)) ∧ (s.InTime (.acquire i docId true) → s'.Held) := by
  unfold step acquireLock at hs'
  dsimp only at hs'
  split at hs'
  · cases hs'
  · next hnew =>
      have hi : s.tasks i = none := by simpa using hnew
      rw [if_pos rfl] at hs'
      unfold ExpiringStore.setNx at hs'
      cases hget : s.redis.get s.now (lockKey docId) with
      | none =>
          rw [hget] at hs'
          cases hs'
          constructor
          · exact inTime_of_exclusive hi
          · intro htime
            apply h.acquire
            intro j since hj
            have hlive := ExpiringStore.get_eq_some.2 ⟨_, (h.key j docId since hj).1, htime j since hj⟩
            cases hget.symm.trans hlive
      | some value =>
          rw [hget] at hs'
          cases hs'
          constructor
          · intro _ j since hj
            obtain ⟨goneAt, hstored, hlive⟩ := ExpiringStore.get_eq_some.1 hget
            cases (h.key j docId since hj).1.symm.trans hstored
            exact hlive
          · intro _
            apply h.stop i
            intro _ _ hrunning
            cases hrunning

theorem step_held_iff {a : LockAction} (h : s.Held) (hup : a.answered) (hs' : s.step a = some s') :
    (s'.Exclusive ∧ s'.ReleasesOwn → s.InTime a) ∧ (s.InTime a → s'.Held) := by
  cases a with
  | wait ms =>
      cases hs'
      exact ⟨fun _ => trivial, fun _ => ⟨h.key, h.own⟩⟩
  | acquire i docId up =>
      cases up with
      | false => cases hup
      | true =>
          obtain ⟨hnec, hsuff⟩ := acquire_held_iff h hs'
          exact ⟨fun hgood => hnec hgood.1, hsuff⟩
  | release i up =>
      unfold step at hs'
      dsimp only at hs'
      split at hs'
      · next docId since hi =>
          cases hs'
          exact ⟨fun _ => trivial, fun _ => h.release hi⟩
      · cases hs'
  | lose i =>
      unfold step at hs'
      dsimp only at hs'
      split at hs'
      · cases hs'
        refine ⟨fun _ => trivial, fun _ => h.stop i ?_⟩
        intro _ _ hrunning
        cases hrunning
      · cases hs'

/-! ## Every run -/

theorem held_start : Held {} where
  key _ _ _ hi := by cases hi
  own _ hd := by cases hd

/-- Where Redis answers, processing is exclusive and locks are released by who holds them, exactly in the runs
in which nobody asks for a lock that a running task has outlived. -/
theorem exclusive_iff_inTime {as : List LockAction} (hup : ∀ a ∈ as, a.answered) :
    Visits step (fun s => s.Exclusive ∧ s.ReleasesOwn) {} as ↔ EveryStep step InTime {} as :=
  visits_iff_everyStep_under (fun _ h => ⟨h.exclusive, h.own⟩)
    (fun _ _ _ h hup hs' => step_held_iff h hup hs')
    (EveryStep.of_mem hup _) held_start

/-- A second task while the first runs, and a third after it. -/
theorem exclusive_iff_inTime_handover :
    Visits step (fun s => s.Exclusive ∧ s.ReleasesOwn) {}
        [.acquire 0 "d" true, .wait 10, .acquire 1 "d" true, .release 0 true, .acquire 2 "d" true] ↔
      EveryStep step InTime {}
        [.acquire 0 "d" true, .wait 10, .acquire 1 "d" true, .release 0 true, .acquire 2 "d" true] :=
  exclusive_iff_inTime (by decide)

/-- The first task outlives its lock, the second gets the lock, which the first then releases. -/
theorem slow_task_not_exclusive :
    (¬ ∀ as : List LockAction, (∀ a ∈ as, a.answered) → Visits step Exclusive {} as) ∧
    ¬ ∀ as : List LockAction, (∀ a ∈ as, a.answered) → Visits step ReleasesOwn {} as := by
  constructor
  · intro h
    have hlast := (h [.acquire 0 "d" true, .wait 1800000, .acquire 1 "d" true] (by decide)).last rfl
    have hsame := hlast 0 1 "d" _ _ rfl rfl
    cases hsame
  · intro h
    have hlast := (h [.acquire 0 "d" true, .wait 1800000, .acquire 1 "d" true, .release 0 true]
      (by decide)).last rfl
    have hown := hlast (0, some 1) List.mem_cons_self
    cases hown

end LockState

end OpsKnowledge.Knowledge
