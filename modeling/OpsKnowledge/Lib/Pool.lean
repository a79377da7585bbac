import Mathlib.Data.List.Basic
import OpsKnowledge.Lib.Loop
import OpsKnowledge.Lib.Transition

/-!
# Bounded pools

Jobs that run concurrently, no more than a limit of them at a time, and a gatherer that waits
for all of them: it gives their results in the order of the jobs, or the first error that
occurs. Jobs that are running then go on.
-/

namespace OpsKnowledge.Lib

variable {ε β : Type}

inductive Job (ε β : Type) where
  | waiting
  | running
  | ended (r : Except ε β)

namespace Job

def isRunning : Job ε β → Bool
  | .running => true
  | _ => false

def result? : Job ε β → Option β
  | .ended (.ok b) => some b
  | _ => none

def isWaiting : Job ε β → Bool
  | .waiting => true
  | _ => false

end Job

structure Pool (ε β : Type) where
  jobs : List (Job ε β)
  gathered : Option (Except ε (List β))

inductive PoolAction where
  | start (i : Nat)
  | finish (i : Nat)

namespace Pool

variable (limit : Nat) (outcome : Nat → Except ε β)

/-- The results of the jobs, when all of them have one. -/
def results (jobs : List (Job ε β)) : Option (List β) := jobs.mapM Job.result?

def running (p : Pool ε β) : Nat := p.jobs.countP Job.isRunning

/-- The steps that the jobs still have to take. -/
def pending (p : Pool ε β) : Nat := 2 * p.jobs.countP Job.isWaiting + p.running

def step (p : Pool ε β) : PoolAction → Option (Pool ε β)
  | .start i =>
    match p.jobs[i]? with
    | some .waiting =>
      if p.running < limit then some { p with jobs := p.jobs.set i .running } else none
    | _ => none
  | .finish i =>
    match p.jobs[i]? with
    | some .running =>
      let jobs := p.jobs.set i (.ended (outcome i))
      let settled := match outcome i with
        | .error e => some (.error e)
        | .ok _ => (results jobs).map .ok
      some { jobs, gathered := p.gathered.or settled }
    | _ => none

/-- Before the first job starts; nothing is awaited of no jobs. -/
def init (n : Nat) : Pool ε β where
  jobs := List.replicate n .waiting
  gathered := if n = 0 then some (.ok []) else none

/-- The jobs one after the other. -/
def sequential (n : Nat) : Except ε (List β) := (List.range n).mapM outcome

/-! ## What a step does -/

variable {limit outcome} {p p' : Pool ε β} {a : PoolAction}

theorem step_cases (h : p.step limit outcome a = some p') :
    (∃ i, p.jobs[i]? = some .waiting ∧ p.running < limit ∧
      p' = { p with jobs := p.jobs.set i .running }) ∨
    ∃ i, p.jobs[i]? = some .running ∧ p'.jobs = p.jobs.set i (.ended (outcome i)) ∧
      p'.gathered = p.gathered.or (match outcome i with
        | .error e => some (.error e)
        | .ok _ => (results p'.jobs).map .ok) := by
  cases a with
  | start i =>
      unfold step at h
      dsimp only at h
      split at h
      · next hjob =>
          split at h
          · next hlimit =>
              cases h
              exact .inl ⟨i, hjob, hlimit, rfl⟩
          · cases h
      · cases h
  | finish i =>
      unfold step at h
      dsimp only at h
      split at h
      · next hjob =>
          cases h
          exact .inr ⟨i, hjob, rfl, rfl⟩
      · cases h

theorem countP_set_of_getElem? (q : Job ε β → Bool) {jobs : List (Job ε β)} {i : Nat} {job : Job ε β}
    (h : jobs[i]? = some job) (job' : Job ε β) :
    (jobs.set i job').countP q + (if q job then 1 else 0) =
      jobs.countP q + if q job' then 1 else 0 := by
  obtain ⟨hi, hget⟩ := List.getElem?_eq_some_iff.1 h
  have hset := List.countP_set (p := q) (a := job') hi
  rw [hget] at hset
  have hpos : q job = true → 0 < jobs.countP q := fun hq =>
    List.countP_pos_iff.2 ⟨job, hget ▸ List.getElem_mem hi, hq⟩
  rw [hset]
  by_cases hq : q job = true
  · have hle := hpos hq
    rw [if_pos hq]
    omega
  · rw [if_neg hq]
    omega

/-- Each step takes one of the steps that are pending. -/
theorem pending_step (h : p.step limit outcome a = some p') : p'.pending + 1 = p.pending := by
  unfold pending running
  rcases step_cases h with ⟨i, hjob, -, rfl⟩ | ⟨i, hjob, hjobs, -⟩
  · have hwaiting := countP_set_of_getElem? Job.isWaiting hjob .running
    have hrunning := countP_set_of_getElem? Job.isRunning hjob .running
    simp only [Job.isWaiting, Job.isRunning, if_true, Bool.false_eq_true, if_false] at hwaiting hrunning
    dsimp only
    omega
  · have hwaiting := countP_set_of_getElem? Job.isWaiting hjob (.ended (outcome i))
    have hrunning := countP_set_of_getElem? Job.isRunning hjob (.ended (outcome i))
    simp only [Job.isWaiting, Job.isRunning, if_true, Bool.false_eq_true, if_false] at hwaiting hrunning
    rw [hjobs]
    omega

/-! ## Results -/

theorem results_eq_some {jobs : List (Job ε β)} {vs : List β} :
    results jobs = some vs ↔ jobs = vs.map fun b => .ended (.ok b) := by
  unfold results
  induction jobs generalizing vs with
  | nil => cases vs <;> simp
  | cons job jobs ih =>
      rw [List.mapM_cons]
      cases vs with
      | nil =>
          cases hjob : Job.result? job with
          | none => simp
          | some b =>
              cases hrest : jobs.mapM Job.result? with
              | none => simp
              | some bs => simp
      | cons v vs =>
          have hhead : Job.result? job = some v ↔ job = .ended (.ok v) := by
            cases job with
            | waiting => simp [Job.result?]
            | running => simp [Job.result?]
            | ended r =>
                cases r with
                | error e => simp [Job.result?]
                | ok b => simp [Job.result?]
          rw [List.map_cons, List.cons.injEq, ← hhead, ← ih]
          cases hjob : Job.result? job with
          | none => simp
          | some b =>
              cases hrest : jobs.mapM Job.result? with
              | none => simp
              | some bs => simp

/-- Jobs of which one has no result have none together. -/
theorem results_eq_none {jobs : List (Job ε β)} {i : Nat} {job : Job ε β} (h : jobs[i]? = some job)
    (hjob : ∀ b, job ≠ .ended (.ok b)) : results jobs = none := by
  rw [Option.eq_none_iff_forall_ne_some]
  intro vs hvs
  rw [results_eq_some.1 hvs, List.getElem?_map] at h
  obtain ⟨b, -, hb⟩ := Option.map_eq_some_iff.1 h
  exact hjob b hb.symm

/-! ## What every run keeps -/

/-- The jobs that have ended did so with their outcomes, and the gatherer knows as much as they tell. -/
structure Sound (limit : Nat) (outcome : Nat → Except ε β) (n : Nat) (p : Pool ε β) : Prop where
  length : p.jobs.length = n
  bounded : p.running ≤ limit
  ended : ∀ i r, p.jobs[i]? = some (.ended r) → r = outcome i
  unsettled : p.gathered = none → results p.jobs = none ∧ ∀ (i : Nat) e, p.jobs[i]? ≠ some (.ended (.error e))
  ok : ∀ vs, p.gathered = some (.ok vs) → results p.jobs = some vs
  error : ∀ e, p.gathered = some (.error e) → ∃ i < n, outcome i = .error e

theorem sound_init (n : Nat) : (init n : Pool ε β).Sound limit outcome n := by
  have hget : ∀ (i : Nat) (job : Job ε β),
      (List.replicate n (.waiting : Job ε β))[i]? = some job → job = .waiting := by
    intro i job h
    exact List.eq_of_mem_replicate (List.mem_of_getElem? h)
  unfold init
  constructor
  · exact List.length_replicate
  · simp [running, List.countP_replicate, Job.isRunning]
  · intro i r h
    cases hget i _ h
  · intro h
    cases n with
    | zero => cases h
    | succ n =>
        refine ⟨results_eq_none (i := 0) rfl (fun b hb => by cases hb), ?_⟩
        intro i e he
        cases hget i _ he
  · intro vs h
    cases n with
    | zero =>
        cases h
        rfl
    | succ n => cases h
  · intro e h
    cases n with
    | zero => cases h
    | succ n => cases h

theorem Sound.start {n i : Nat} (hp : p.Sound limit outcome n) (hjob : p.jobs[i]? = some .waiting)
    (hlimit : p.running < limit) :
    ({ p with jobs := p.jobs.set i .running } : Pool ε β).Sound limit outcome n := by
  have hi := (List.getElem?_eq_some_iff.1 hjob).1
  have hset : (p.jobs.set i Job.running)[i]? = some .running := List.getElem?_set_self hi
  have hnone := results_eq_none hset fun b hb => by cases hb
  have hbefore := results_eq_none hjob fun b hb => by cases hb
  have hother : ∀ {j : Nat} {r : Except ε β}, (p.jobs.set i Job.running)[j]? = some (.ended r) →
      p.jobs[j]? = some (.ended r) := by
    intro j r h
    by_cases hij : i = j
    · rw [← hij, hset] at h
      cases h
    · rwa [List.getElem?_set_ne hij] at h
  constructor
  · rw [List.length_set]
    exact hp.length
  · have hrunning := countP_set_of_getElem? Job.isRunning hjob .running
    simp only [Job.isRunning, if_true, Bool.false_eq_true, if_false] at hrunning
    unfold running at hlimit ⊢
    dsimp only
    omega
  · intro j r h
    exact hp.ended j r (hother h)
  · intro h
    refine ⟨hnone, ?_⟩
    intro j e he
    exact (hp.unsettled h).2 j e (hother he)
  · intro vs h
    cases hbefore.symm.trans (hp.ok vs h)
  · exact hp.error

theorem Sound.finish {n i : Nat} (hp : p.Sound limit outcome n) (hjob : p.jobs[i]? = some .running)
    (hjobs : p'.jobs = p.jobs.set i (.ended (outcome i)))
    (hgathered : p'.gathered = p.gathered.or (match outcome i with
      | .error e => some (.error e)
      | .ok _ => (results p'.jobs).map .ok)) :
    p'.Sound limit outcome n := by
  have hi := (List.getElem?_eq_some_iff.1 hjob).1
  have hset : p'.jobs[i]? = some (.ended (outcome i)) := by
    rw [hjobs]
    exact List.getElem?_set_self hi
  have hother : ∀ {j : Nat}, i ≠ j → p'.jobs[j]? = p.jobs[j]? := by
    intro j hij
    rw [hjobs, List.getElem?_set_ne hij]
  constructor
  · rw [hjobs, List.length_set]
    exact hp.length
  · have hrunning := countP_set_of_getElem? Job.isRunning hjob (.ended (outcome i))
    simp only [Job.isRunning, if_true, Bool.false_eq_true, if_false] at hrunning
    have hbounded := hp.bounded
    unfold running at hbounded ⊢
    rw [hjobs]
    omega
  · intro j r h
    by_cases hij : i = j
    · rw [← hij, hset] at h
      cases h
      rw [hij]
    · exact hp.ended j r (hother hij ▸ h)
  · intro h
    rw [hgathered, Option.or_eq_none_iff] at h
    cases houtcome : outcome i with
    | error e => simp [houtcome] at h
    | ok b =>
        rw [houtcome] at h
        refine ⟨Option.map_eq_none_iff.1 h.2, ?_⟩
        intro j e he
        by_cases hij : i = j
        · rw [← hij, hset, houtcome] at he
          cases he
        · exact (hp.unsettled h.1).2 j e (hother hij ▸ he)
  · intro vs h
    rw [hgathered, Option.or_eq_some_iff] at h
    rcases h with h | ⟨-, h⟩
    · cases (results_eq_none hjob fun b hb => by cases hb).symm.trans (hp.ok vs h)
    · cases houtcome : outcome i with
      | error e => simp [houtcome] at h
      | ok b =>
          rw [houtcome] at h
          obtain ⟨vs', hvs, heq⟩ := Option.map_eq_some_iff.1 h
          cases heq
          exact hvs
  · intro e h
    rw [hgathered, Option.or_eq_some_iff] at h
    rcases h with h | ⟨-, h⟩
    · exact hp.error e h
    · cases houtcome : outcome i with
      | error e' =>
          rw [houtcome] at h
          cases h
          exact ⟨i, hp.length ▸ hi, houtcome⟩
      | ok b => simp [houtcome] at h

theorem Sound.step {n : Nat} (hp : p.Sound limit outcome n) (h : p.step limit outcome a = some p') :
    p'.Sound limit outcome n := by
  rcases step_cases h with ⟨i, hjob, hlimit, rfl⟩ | ⟨i, hjob, hjobs, hgathered⟩
  · exact hp.start hjob hlimit
  · exact hp.finish hjob hjobs hgathered

/-! ## Runs -/

/-- A run from the beginning keeps the invariant, and takes a pending step with each action. -/
theorem sound_of_run {n : Nat} {as : List PoolAction}
    (h : runSteps (step limit outcome) (init n) as = some p) :
    p.Sound limit outcome n ∧ as.length + p.pending = 2 * n := by
  have hrun : ∀ (as : List PoolAction) (q : Pool ε β), q.Sound limit outcome n →
      runSteps (Pool.step limit outcome) q as = some p →
      p.Sound limit outcome n ∧ as.length + p.pending = q.pending := by
    intro as
    induction as with
    | nil =>
        intro q hq h
        cases h
        exact ⟨hq, Nat.zero_add _⟩
    | cons a as ih =>
        intro q hq h
        obtain ⟨q', hstep, h⟩ := Option.bind_eq_some_iff.1 h
        have hpending := pending_step hstep
        obtain ⟨hp, hlength⟩ := ih q' (hq.step hstep) h
        refine ⟨hp, ?_⟩
        rw [List.length_cons]
        omega
  have hinit : (init n : Pool ε β).pending = 2 * n := by
    simp [pending, running, init, List.countP_replicate, Job.isWaiting, Job.isRunning]
  have hboth := hrun as _ (sound_init n) h
  rw [hinit] at hboth
  exact hboth

/-- Where nothing can go on, every job has ended, if there is a permit at all. -/
theorem pending_of_stuck (hlimit : 1 ≤ limit) (hstuck : ∀ a, p.step limit outcome a = none) :
    p.pending = 0 := by
  have hrunning : p.running = 0 := by
    unfold running
    rw [List.countP_eq_zero]
    intro job hjob hrun
    obtain ⟨i, hi⟩ := List.getElem?_of_mem hjob
    cases job with
    | running =>
        have hnone := hstuck (.finish i)
        simp [Pool.step, hi] at hnone
    | waiting => cases hrun
    | ended r => cases hrun
  have hwaiting : p.jobs.countP Job.isWaiting = 0 := by
    rw [List.countP_eq_zero]
    intro job hjob hwait
    obtain ⟨i, hi⟩ := List.getElem?_of_mem hjob
    cases job with
    | waiting =>
        have hnone := hstuck (.start i)
        simp [Pool.step, hi, hrunning] at hnone
        omega
    | running => cases hwait
    | ended r => cases hwait
  unfold pending
  omega

theorem exists_results {jobs : List (Job ε β)} (h : ∀ job ∈ jobs, ∃ b, job = .ended (.ok b)) :
    ∃ vs, results jobs = some vs := by
  induction jobs with
  | nil => exact ⟨[], rfl⟩
  | cons job jobs ih =>
      rw [List.forall_mem_cons] at h
      obtain ⟨b, rfl⟩ := h.1
      obtain ⟨vs, hvs⟩ := ih h.2
      rw [results_eq_some] at hvs
      exact ⟨b :: vs, results_eq_some.2 (by rw [hvs, List.map_cons])⟩

/-- Once every job has ended, the gatherer knows. -/
theorem Sound.settled {n : Nat} (hp : p.Sound limit outcome n) (hpending : p.pending = 0) :
    p.gathered ≠ none := by
  intro hnone
  obtain ⟨hresults, hnoerror⟩ := hp.unsettled hnone
  unfold pending running at hpending
  have hwaiting : p.jobs.countP Job.isWaiting = 0 := by omega
  have hrunning : p.jobs.countP Job.isRunning = 0 := by omega
  rw [List.countP_eq_zero] at hwaiting hrunning
  obtain ⟨vs, hvs⟩ : ∃ vs, results p.jobs = some vs := by
    refine exists_results fun job hjob => ?_
    cases job with
    | waiting => exact absurd rfl (hwaiting _ hjob)
    | running => exact absurd rfl (hrunning _ hjob)
    | ended r =>
        cases r with
        | ok b => exact ⟨b, rfl⟩
        | error e =>
            obtain ⟨i, hi⟩ := List.getElem?_of_mem hjob
            exact absurd hi (hnoerror i e)
  cases hresults.symm.trans hvs

/-- What is gathered is what the jobs give one after the other, or the error of one of them. -/
theorem Sound.gathered_spec {n : Nat} (hp : p.Sound limit outcome n) {r : Except ε (List β)}
    (hr : p.gathered = some r) :
    (∀ vs, r = .ok vs ↔ sequential outcome n = .ok vs) ∧
      ∀ e, r = .error e → ∃ i < n, outcome i = .error e := by
  have hlength := hp.length
  cases r with
  | error e =>
      obtain ⟨i, hi, he⟩ := hp.error e hr
      refine ⟨fun vs => ⟨fun h => (by cases h), fun h => ?_⟩, fun e' h => ?_⟩
      · obtain ⟨b, hb⟩ := ok_of_mapM_eq_ok h (List.mem_range.2 hi)
        cases he.symm.trans hb
      · cases h
        exact ⟨i, hi, he⟩
  | ok vs =>
      have hjobs := results_eq_some.1 (hp.ok vs hr)
      have hseq : sequential outcome n = .ok vs := by
        unfold sequential
        rw [mapM_eq_ok, List.forall₂_iff_get]
        refine ⟨by rw [List.length_range, ← hlength, hjobs, List.length_map], fun i hi hi' => ?_⟩
        have hended : p.jobs[i]? = some (.ended (.ok (vs.get ⟨i, hi'⟩))) := by
          rw [hjobs, List.getElem?_map, List.getElem?_eq_getElem hi']
          rfl
        rw [List.get_eq_getElem, List.getElem_range]
        exact (hp.ended i _ hended).symm
      refine ⟨fun vs' => ?_, fun e h => by cases h⟩
      rw [hseq]

end Pool

end OpsKnowledge.Lib
