import Mathlib.Data.List.Nodup
import OpsKnowledge.Lib.Transition

/-!
# The document lifecycle job

The daily pass of `app/knowledge/lifecycle/tasks.py` over the documents of one knowledge
base, interleaved with what users do. Times are seconds. Every UPDATE of a row sets its
`updated_at`, the job's own included, so the pass that marks a document stale also renews
the timestamp by which the next pass decides. `staleFrom` is not a column: it records when
a document was first marked since a user last modified or used it.
-/

namespace OpsKnowledge.Knowledge

open OpsKnowledge.Lib

def days (n : Int) : Int := n * 86400

/-- `governance_config`, with the bounds of its schema. -/
structure GovernanceConfig where
  expirationThresholdDays : Int := 90
  autoArchiveIdleDays : Int := 30
  expiration_pos : 1 ≤ expirationThresholdDays := by decide
  idle_pos : 1 ≤ autoArchiveIdleDays := by decide

structure LifecycleDocument where
  id : Nat
  updatedAt : Int
  isStale : Bool := false
  staleSince : Option Int := none
  isArchived : Bool := false

/-- What the hit windows read of a chunk. -/
structure DocumentChunk where
  id : Nat
  documentId : Nat
  reviewExcluded : Bool := false

/-- A row of `chunk_usage_events` of type `hit`. -/
structure UsageHit where
  chunkId : Nat
  createdAt : Int

/-! ## One pass -/

/-- `_compute_doc_hit_windows`: the hits of the last 7 days and of the 7 days before. -/
def computeDocHitWindows (chunks : List DocumentChunk) (hits : List UsageHit) (now : Int)
    (docId : Nat) : Nat × Nat :=
  let joined := hits.filter fun e =>
    chunks.any fun c => c.id = e.chunkId ∧ c.documentId = docId ∧ !c.reviewExcluded
  (joined.countP fun e => now - days 7 ≤ e.createdAt,
    joined.countP fun e => now - days 14 ≤ e.createdAt ∧ e.createdAt < now - days 7)

/-- `hits_prev7 > 0 and hits7 < hits_prev7 * HIT_DROP_RATIO` -/
def heatCliff (windows : Nat × Nat) : Bool :=
  0 < windows.2 ∧ windows.1 * 10 < windows.2 * 3

def shouldBeStale (cfg : GovernanceConfig) (now : Int) (windows : Nat × Nat)
    (doc : LifecycleDocument) : Bool :=
  doc.updatedAt < now - days cfg.expirationThresholdDays || heatCliff windows

/-- The body of the loop over the documents; `stamp` is the `updated_at` of its commit. -/
def lifecycleDocument (cfg : GovernanceConfig) (now stamp : Int) (windows : Nat × Nat)
    (doc : LifecycleDocument) : LifecycleDocument :=
  if shouldBeStale cfg now windows doc && !doc.isStale then
    { doc with isStale := true, staleSince := some now, updatedAt := stamp }
  else if !shouldBeStale cfg now windows doc && doc.isStale then
    { doc with isStale := false, staleSince := none, updatedAt := stamp }
  else if doc.isStale && doc.staleSince.any (· < now - days cfg.autoArchiveIdleDays) then
    { doc with isArchived := true, updatedAt := stamp }
  else doc

/-! ## The system -/

structure LifecycleState where
  docs : List LifecycleDocument
  chunks : List DocumentChunk := []
  hits : List UsageHit := []
  clock : Int := 0
  lastRun : Option Int := none
  staleFrom : Nat → Option Int := fun _ => none

namespace LifecycleState

def windows (s : LifecycleState) (now : Int) (docId : Nat) : Nat × Nat :=
  computeDocHitWindows s.chunks s.hits now docId

/-- `_run_lifecycle`: archived documents are not selected. -/
def runLifecycle (cfg : GovernanceConfig) (now stamp : Int) (s : LifecycleState)
    (doc : LifecycleDocument) : LifecycleDocument :=
  if doc.isArchived then doc
  else lifecycleDocument cfg now stamp (s.windows now doc.id) doc

def marks (cfg : GovernanceConfig) (now : Int) (s : LifecycleState) (doc : LifecycleDocument) :
    Bool :=
  !doc.isArchived && shouldBeStale cfg now (s.windows now doc.id) doc && !doc.isStale

/-- A row the user changes. -/
def updateDocument (s : LifecycleState) (docId : Nat) (f : LifecycleDocument → LifecycleDocument) :
    List LifecycleDocument :=
  s.docs.map fun d => if d.id = docId then f d else d

def touch (s : LifecycleState) (touched : Nat → Bool) : Nat → Option Int :=
  fun i => if touched i then none else s.staleFrom i

end LifecycleState

inductive LifecycleAction where
  | job (now stamp : Int)
  | modify (docId : Nat) (time : Int)
  | toggleArchive (docId : Nat) (archive : Bool) (time : Int)
  | hit (chunkId : Nat) (time : Int)
  /-- Ingestion, review and deletion change the chunks that the windows join. -/
  | chunks (chunks : List DocumentChunk)

open LifecycleState in
/-- Time does not run backwards. -/
def lifecycleStep (cfg : GovernanceConfig) (s : LifecycleState) : LifecycleAction → Option LifecycleState
  | .job now stamp =>
      if s.clock ≤ now ∧ now ≤ stamp then
        some { s with
          docs := s.docs.map (s.runLifecycle cfg now stamp)
          clock := stamp
          lastRun := some now
          staleFrom := fun i =>
            (s.staleFrom i).or (if s.docs.any fun d => d.id = i ∧ s.marks cfg now d then some now else none) }
      else none
  | .modify docId time =>
      if s.clock ≤ time then
        some { s with
          docs := s.updateDocument docId fun d => { d with updatedAt := time }
          clock := time
          staleFrom := s.touch (· = docId) }
      else none
  | .toggleArchive docId archive time =>
      if s.clock ≤ time then
        some { s with
          docs := s.updateDocument docId fun d =>
            if archive then { d with isArchived := true, updatedAt := time }
            else { d with isArchived := false, isStale := false, staleSince := none, updatedAt := time }
          clock := time
          staleFrom := s.touch (· = docId) }
      else none
  | .hit chunkId time =>
      if s.clock ≤ time then
        some { s with
          hits := s.hits ++ [{ chunkId := chunkId, createdAt := time }]
          clock := time
          staleFrom := s.touch fun i => s.chunks.any fun c => c.id = chunkId ∧ c.documentId = i }
      else none
  | .chunks chunks => some { s with chunks := chunks }

/-- A document that nobody touched since it was marked is still stale, and is archived once the
last pass found it stale for longer than the idle period. -/
def StaleUntilTouched (cfg : GovernanceConfig) (s : LifecycleState) : Prop :=
  ∀ d ∈ s.docs, ∀ since, s.staleFrom d.id = some since →
    d.isStale = true ∧ ∀ run, s.lastRun = some run →
      since < run - days cfg.autoArchiveIdleDays → d.isArchived = true

/-- A pass still finds the reason to be stale of every document untouched since it was marked: it
comes more than the expiration period after the row's last UPDATE, or the heat cliff lasts. -/
def StillStale (cfg : GovernanceConfig) (s : LifecycleState) : LifecycleAction → Prop
  | .job now _ => ∀ d ∈ s.docs, d.isArchived = false → (s.staleFrom d.id).isSome →
      shouldBeStale cfg now (s.windows now d.id) d = true
  | _ => True

/-! ## The body of the loop -/

section Document

variable {cfg : GovernanceConfig} {now stamp : Int} {windows : Nat × Nat} {doc : LifecycleDocument}

theorem lifecycleDocument_marks (hstale : shouldBeStale cfg now windows doc = true)
    (hfresh : doc.isStale = false) : lifecycleDocument cfg now stamp windows doc =
      { doc with isStale := true, staleSince := some now, updatedAt := stamp } := by
  simp [lifecycleDocument, hstale, hfresh]

theorem lifecycleDocument_clears (hfresh : shouldBeStale cfg now windows doc = false)
    (hstale : doc.isStale = true) : lifecycleDocument cfg now stamp windows doc =
      { doc with isStale := false, staleSince := none, updatedAt := stamp } := by
  simp [lifecycleDocument, hstale, hfresh]

theorem lifecycleDocument_stays (hshould : shouldBeStale cfg now windows doc = true)
    (hstale : doc.isStale = true) : lifecycleDocument cfg now stamp windows doc =
      if doc.staleSince.any (· < now - days cfg.autoArchiveIdleDays) then
        { doc with isArchived := true, updatedAt := stamp }
      else doc := by
  simp [lifecycleDocument, hstale, hshould]

theorem lifecycleDocument_id : (lifecycleDocument cfg now stamp windows doc).id = doc.id := by
  unfold lifecycleDocument
  split_ifs <;> rfl

end Document

/-! ## Runs -/

/-- What a run keeps while its passes meet the condition: `stale_since` is the time of the mark. -/
structure MarksKept (cfg : GovernanceConfig) (s : LifecycleState) : Prop where
  nodup : (s.docs.map LifecycleDocument.id).Nodup
  marked : ∀ d ∈ s.docs, ∀ since, s.staleFrom d.id = some since →
    d.isStale = true ∧ d.staleSince = some since ∧ ∀ run, s.lastRun = some run →
      since < run - days cfg.autoArchiveIdleDays → d.isArchived = true

namespace LifecycleState

variable {cfg : GovernanceConfig} {s s' : LifecycleState} {now stamp : Int}

theorem runLifecycle_id (doc : LifecycleDocument) : (s.runLifecycle cfg now stamp doc).id = doc.id := by
  unfold runLifecycle
  split
  · rfl
  · exact lifecycleDocument_id

theorem touch_eq_some {touched : Nat → Bool} {i : Nat} {since : Int}
    (h : s.touch touched i = some since) : touched i = false ∧ s.staleFrom i = some since := by
  unfold touch at h
  cases ht : touched i with
  | true => simp [ht] at h
  | false => exact ⟨rfl, by simpa [ht] using h⟩

theorem map_id_updateDocument {docId : Nat} {f : LifecycleDocument → LifecycleDocument}
    (hf : ∀ d, (f d).id = d.id) :
    (s.updateDocument docId f).map LifecycleDocument.id = s.docs.map LifecycleDocument.id := by
  unfold updateDocument
  rw [List.map_map]
  apply List.map_congr_left
  intro d _
  by_cases h : d.id = docId <;> simp [h, hf]

end LifecycleState

open LifecycleState

variable {cfg : GovernanceConfig} {s s' : LifecycleState}

theorem MarksKept.staleUntilTouched (h : MarksKept cfg s) : StaleUntilTouched cfg s := by
  intro d hd since hsince
  obtain ⟨hstale, -, harchived⟩ := h.marked d hd since hsince
  exact ⟨hstale, harchived⟩

/-- The row of a touched document may change in any way. -/
theorem MarksKept.update (h : MarksKept cfg s) {docId : Nat} {time : Int}
    {f : LifecycleDocument → LifecycleDocument} (hf : ∀ d, (f d).id = d.id) :
    MarksKept cfg { s with docs := s.updateDocument docId f, clock := time
                           staleFrom := s.touch (· = docId) } := by
  constructor
  · show ((s.updateDocument docId f).map LifecycleDocument.id).Nodup
    rw [map_id_updateDocument hf]
    exact h.nodup
  · intro d' hd' since hsince
    have htouch : s.touch (· = docId) d'.id = some since := hsince
    obtain ⟨hother, hfrom⟩ := touch_eq_some htouch
    obtain ⟨d, hd, rfl⟩ := List.mem_map.1 hd'
    by_cases hid : d.id = docId
    · simp [hid, hf] at hother
    · simp only [hid, if_false] at hfrom ⊢
      exact h.marked d hd since hfrom

theorem MarksKept.touched (h : MarksKept cfg s) (touched : Nat → Bool) (hits : List UsageHit)
    (time : Int) :
    MarksKept cfg { s with hits := hits, clock := time, staleFrom := s.touch touched } := by
  refine ⟨h.nodup, ?_⟩
  intro d hd since hsince
  exact h.marked d hd since (touch_eq_some hsince).2

/-- The document that a pass marks is the one that the table has under its id. -/
theorem MarksKept.marks_of_any (h : MarksKept cfg s) {now : Int} {d : LifecycleDocument}
    (hd : d ∈ s.docs) (hany : (s.docs.any fun d' => d'.id = d.id ∧ s.marks cfg now d') = true) :
    s.marks cfg now d = true := by
  obtain ⟨d', hd', hmarks⟩ := List.any_eq_true.1 hany
  obtain ⟨hid, hm⟩ : d'.id = d.id ∧ s.marks cfg now d' = true := by simpa using hmarks
  have heq : d' = d := List.inj_on_of_nodup_map h.nodup hd' hd hid
  exact heq ▸ hm

theorem job_keeps (h : MarksKept cfg s) {now stamp : Int}
    (hstill : StillStale cfg s (.job now stamp))
    (hs' : lifecycleStep cfg s (.job now stamp) = some s') : MarksKept cfg s' := by
  simp only [lifecycleStep, Option.ite_none_right_eq_some, Option.some.injEq] at hs'
  obtain ⟨-, rfl⟩ := hs'
  constructor
  · have hids : (s.docs.map (s.runLifecycle cfg now stamp)).map LifecycleDocument.id =
        s.docs.map LifecycleDocument.id := by
      rw [List.map_map]
      exact List.map_congr_left fun d _ => runLifecycle_id d
    exact hids ▸ h.nodup
  · intro d' hd' since hsince
    obtain ⟨d, hd, rfl⟩ := List.mem_map.1 hd'
    simp only [runLifecycle_id] at hsince
    cases hfrom : s.staleFrom d.id with
    | some t =>
        have ht : t = since := by simpa [hfrom] using hsince
        subst ht
        obtain ⟨hstale, hsince', harchived⟩ := h.marked d hd t hfrom
        unfold runLifecycle
        cases harch : d.isArchived with
        | true => exact ⟨hstale, hsince', fun _ _ _ => harch⟩
        | false =>
            have hshould := hstill d hd harch (by simp [hfrom])
            simp only [Bool.false_eq_true, if_false]
            rw [lifecycleDocument_stays hshould hstale, hsince']
            by_cases hidle : t < now - days cfg.autoArchiveIdleDays
            · simp [hidle, hstale]
            · refine ⟨by simp [hidle, hstale], by simp [hidle, hsince'], ?_⟩
              intro run hrun hlt
              have hnow : now = run := Option.some.inj hrun
              omega
    | none =>
        -- A mark set by this pass.
        have hcase : (if s.docs.any fun d' => d'.id = d.id ∧ s.marks cfg now d' then some now
            else none) = some since := by
          simpa only [hfrom, Option.none_or] using hsince
        obtain ⟨hany, hnow⟩ := Option.ite_none_right_eq_some.1 hcase
        cases hnow
        have hmarks := h.marks_of_any hd hany
        simp only [LifecycleState.marks, Bool.and_eq_true, Bool.not_eq_true'] at hmarks
        obtain ⟨⟨harch, hshould⟩, hfresh⟩ := hmarks
        unfold runLifecycle
        rw [if_neg (by simp [harch]), lifecycleDocument_marks hshould hfresh]
        refine ⟨rfl, rfl, ?_⟩
        intro run hrun hlt
        have hnow : now = run := Option.some.inj hrun
        have hidle := cfg.idle_pos
        simp only [days] at hlt
        omega

theorem job_needs (h : MarksKept cfg s) {now stamp : Int}
    (hs' : lifecycleStep cfg s (.job now stamp) = some s') (hgood : StaleUntilTouched cfg s') :
    StillStale cfg s (.job now stamp) := by
  intro d hd harch hsome
  obtain ⟨since, hfrom⟩ := Option.isSome_iff_exists.1 hsome
  obtain ⟨hstale, -, -⟩ := h.marked d hd since hfrom
  by_contra hnot
  have hshould : shouldBeStale cfg now (s.windows now d.id) d = false := by simpa using hnot
  simp only [lifecycleStep, Option.ite_none_right_eq_some, Option.some.injEq] at hs'
  obtain ⟨-, rfl⟩ := hs'
  have hcleared : s.runLifecycle cfg now stamp d =
      { d with isStale := false, staleSince := none, updatedAt := stamp } := by
    simp [runLifecycle, harch, lifecycleDocument_clears hshould hstale]
  have hd' := List.mem_map_of_mem (f := s.runLifecycle cfg now stamp) hd
  have hgood' := hgood _ hd' since (by simp [runLifecycle_id, hfrom])
  rw [hcleared] at hgood'
  exact absurd hgood'.1 (by simp)

/-- A run keeps every untouched document stale until it archives it, exactly when each of its passes
still finds the documents marked earlier due. -/
theorem stale_until_touched_iff (hs : MarksKept cfg s) (as : List LifecycleAction) :
    Visits (lifecycleStep cfg) (StaleUntilTouched cfg) s as ↔
      EveryStep (lifecycleStep cfg) (StillStale cfg) s as := by
  refine visits_iff_everyStep_of_companion (fun _ h => h.staleUntilTouched) ?_ hs as
  intro s a s' h hs'
  cases a with
  | job now stamp => exact ⟨job_needs h hs', fun hstill => job_keeps h hstill hs'⟩
  | modify docId time =>
      refine ⟨fun _ => trivial, fun _ => ?_⟩
      simp only [lifecycleStep, Option.ite_none_right_eq_some, Option.some.injEq] at hs'
      obtain ⟨-, rfl⟩ := hs'
      exact h.update fun _ => rfl
  | toggleArchive docId archive time =>
      refine ⟨fun _ => trivial, fun _ => ?_⟩
      simp only [lifecycleStep, Option.ite_none_right_eq_some, Option.some.injEq] at hs'
      obtain ⟨-, rfl⟩ := hs'
      exact h.update fun _ => by cases archive <;> rfl
  | hit chunkId time =>
      refine ⟨fun _ => trivial, fun _ => ?_⟩
      simp only [lifecycleStep, Option.ite_none_right_eq_some, Option.some.injEq] at hs'
      obtain ⟨-, rfl⟩ := hs'
      exact h.touched _ _ _
  | chunks chunks =>
      refine ⟨fun _ => trivial, fun _ => ?_⟩
      cases hs'
      exact ⟨h.nodup, h.marked⟩

/-- One document, last updated at time 0; the default thresholds. -/
def oldDocument : LifecycleState := { docs := [{ id := 1, updatedAt := 0 }] }

theorem marksKept_oldDocument : MarksKept {} oldDocument :=
  ⟨List.nodup_singleton 1, by simp [oldDocument]⟩

/-- Marked on day 100, cleared on day 101 although nobody touched the document. -/
theorem stale_cleared_untouched :
    ¬ ∀ (cfg : GovernanceConfig) (s : LifecycleState) (as : List LifecycleAction), MarksKept cfg s →
      Visits (lifecycleStep cfg) (StaleUntilTouched cfg) s as := by
  intro hall
  have hvisits := hall {} oldDocument
    [.job (days 100) (days 100), .job (days 101) (days 101)] marksKept_oldDocument
  have hlast := hvisits.last rfl
  have hstale := (hlast { id := 1, updatedAt := days 101 } List.mem_cons_self (days 100) rfl).1
  exact absurd hstale (by decide)

/-- A second pass more than the expiration period after the first one keeps the mark and archives. -/
theorem stale_until_touched_oldDocument :
    Visits (lifecycleStep {}) (StaleUntilTouched {}) oldDocument
      [.job (days 100) (days 100), .job (days 200) (days 200)] := by
  apply (stale_until_touched_iff marksKept_oldDocument _).2
  intro s₁ h₁
  cases h₁
  refine ⟨by simp [StillStale, oldDocument], ?_⟩
  intro s₂ h₂
  cases h₂
  refine ⟨?_, trivial⟩
  intro d hd _ _
  obtain rfl := List.mem_singleton.1 hd
  decide

end OpsKnowledge.Knowledge
