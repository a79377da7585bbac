import Mathlib.Data.List.Nodup
import OpsKnowledge.Governance.Events
import OpsKnowledge.Lib.Transition

/-!
# The counters of chunks

Retrievals and citations write the ledger, reviews exclude chunks, and rebuilds read and write
statement by statement while that goes on. Each action commits.
-/

namespace OpsKnowledge.Governance

open OpsKnowledge.Lib

/-- A rebuild under way, with what it has read: the ledger for the dirty ids, for the counts and for
`last_map`, then the chunks for `static_map`. -/
structure RebuildRun where
  startedAt : Nat
  ledger : List ChunkUsageEvent
  counted : Option (List ChunkUsageEvent) := none
  stamped : Option (List ChunkUsageEvent) := none
  static : Option (List ScoredChunk) := none

structure Rollup where
  now : Nat := 0
  chunks : List ScoredChunk
  kbIds : List Nat
  events : List ChunkUsageEvent := []
  runs : List RebuildRun := []
  /-- The rebuild that the last action ended. -/
  finished : Option RebuildRun := none

inductive RollupAction where
  | pass (seconds : Nat)
  /-- `results` are the chunks that a retrieval returns, with their `source_kb_id`. -/
  | hits (results : List (Nat × Option Nat)) (createdAt : Nat)
  | adopted (pairs : List (Nat × Nat)) (messageId : Nat) (createdAt : Nat)
  | review (chunkIds : List Nat) (excluded : Bool)
  | startRebuild
  | advance (run : Nat)

/-! ## Steps -/

/-- The columns that a rebuild writes. -/
def ScoredChunk.withScores (c row : ScoredChunk) : ScoredChunk :=
  { row with id := c.id, reviewExcluded := c.reviewExcluded, qualityScore := c.qualityScore }

namespace RebuildRun

variable (run : RebuildRun)

def dirty : List Nat := dirtyIds run.ledger (run.startedAt - rebuildWindow)

/-- What the loop computes from the rows that it has read. -/
def rows (counted stamped : List ChunkUsageEvent) (static : List ScoredChunk) : List ScoredChunk :=
  (static.filter fun c => c.id ∈ run.dirty ∧ c.reviewExcluded = false).map fun c =>
    { recomputeChunk counted c with
      lastHitAt := lastEventAt stamped c.id .hit
      lastAdoptedAt := lastEventAt stamped c.id .adopted }

def write (counted stamped : List ChunkUsageEvent) (static chunks : List ScoredChunk) : List ScoredChunk :=
  chunks.map fun c =>
    match (run.rows counted stamped static).find? fun row => row.id = c.id with
    | some row => c.withScores row
    | none => c

end RebuildRun

namespace Rollup

variable (s : Rollup)

/-- An event has its chunk and its base. -/
def admits (e : ChunkUsageEvent) : Bool :=
  s.chunks.any (fun c => c.id = e.chunkId) && decide (e.kbId ∈ s.kbIds)

/-- Commits the events of a transaction that began at `createdAt`. -/
def record (events : List ChunkUsageEvent) (createdAt : Nat) : Option Rollup :=
  if createdAt ≤ s.now ∧ events.all s.admits then
    some { s with events := s.events ++ events, finished := none }
  else none

/-- `retrieve` counts a hit for each chunk and records it for those with a base. -/
def hits (results : List (Nat × Option Nat)) (createdAt : Nat) : Option Rollup :=
  let hitIds := results.map Prod.fst
  let hitPairs := results.filterMap fun r => r.2.map fun kbId => (r.1, kbId)
  record
    { s with
      chunks := updateWhere (fun c => c.id ∈ hitIds) (fun c => { c with hitCount := c.hitCount + 1 })
        s.chunks }
    (recordHitsBulk hitPairs none createdAt) createdAt

/-- Without dirty ids the rebuild ends at once. -/
def startRebuild : Rollup :=
  let run : RebuildRun := { startedAt := s.now, ledger := s.events }
  if run.dirty = [] then { s with finished := some run }
  else { s with runs := s.runs ++ [run], finished := none }

def advance (k : Nat) : Option Rollup :=
  s.runs[k]?.map fun run =>
    match run.counted with
    | none => { s with runs := s.runs.set k { run with counted := some s.events }, finished := none }
    | some counted =>
        match run.stamped with
        | none => { s with runs := s.runs.set k { run with stamped := some s.events }, finished := none }
        | some stamped =>
            match run.static with
            | none => { s with runs := s.runs.set k { run with static := some s.chunks }, finished := none }
            | some static =>
                { s with
                  chunks := run.write counted stamped static s.chunks
                  runs := s.runs.eraseIdx k
                  finished := some run }

def step (s : Rollup) : RollupAction → Option Rollup
  | .pass seconds => some { s with now := s.now + seconds, finished := none }
  | .hits results createdAt => s.hits results createdAt
  | .adopted pairs messageId createdAt =>
      s.record (recordAdopted pairs (some messageId) createdAt) createdAt
  | .review chunkIds excluded =>
      some { s with
        chunks := updateWhere (fun c => c.id ∈ chunkIds) (fun c => { c with reviewExcluded := excluded })
          s.chunks
        finished := none }
  | .startRebuild => some s.startRebuild
  | .advance k => s.advance k

end Rollup

/-! ## The property and the condition -/

/-- The counters of the chunk are the numbers of its events. -/
def ScoredChunk.UpToDate (c : ScoredChunk) (events : List ChunkUsageEvent) : Prop :=
  c.hitCount = eventCount events c.id .hit ∧ c.adoptedCount = eventCount events c.id .adopted

instance (c : ScoredChunk) (events : List ChunkUsageEvent) : Decidable (c.UpToDate events) := by
  unfold ScoredChunk.UpToDate
  infer_instance

namespace Rollup

variable (s : Rollup)

/-- After a rebuild during which no event was written, every chunk is up to date. -/
def CountsEvents : Prop :=
  ∀ run ∈ s.finished, run.ledger = s.events → ∀ c ∈ s.chunks, c.UpToDate s.events

/-- Nothing has been counted, and no rebuild is under way. -/
structure Initial : Prop where
  events : s.events = []
  counters : ∀ c ∈ s.chunks, c.hitCount = 0 ∧ c.adoptedCount = 0
  runs : s.runs = []
  finished : s.finished = none

/-- The rebuild that the action ends found an event of each chunk that is not up to date in the last ten
minutes before it started, and read the chunk while it was not excluded. -/
def Covers (a : RollupAction) : Prop :=
  match a with
  | .startRebuild =>
      (∀ e ∈ s.events, e.createdAt < s.now - rebuildWindow) → ∀ c ∈ s.chunks, c.UpToDate s.events
  | .advance k =>
      ∀ run ∈ s.runs[k]?, ∀ static ∈ run.static, run.ledger = s.events →
        ∀ c ∈ s.chunks, ¬ c.UpToDate s.events →
          (∃ e ∈ s.events, e.chunkId = c.id ∧ run.startedAt - rebuildWindow ≤ e.createdAt) ∧
            ∃ seen ∈ static, seen.id = c.id ∧ seen.reviewExcluded = false
  | _ => True

end Rollup

/-! ## What a rebuild writes -/

section Write

variable {run : RebuildRun} {counted stamped events : List ChunkUsageEvent}
  {static chunks : List ScoredChunk}

theorem recomputeChunk_upToDate (events : List ChunkUsageEvent) (c : ScoredChunk) :
    (recomputeChunk events c).UpToDate events :=
  ⟨rfl, rfl⟩

theorem mem_rows {row : ScoredChunk} : row ∈ run.rows counted stamped static ↔
    ∃ c ∈ static, (c.id ∈ run.dirty ∧ c.reviewExcluded = false) ∧
      row = { recomputeChunk counted c with
        lastHitAt := lastEventAt stamped c.id .hit
        lastAdoptedAt := lastEventAt stamped c.id .adopted } := by
  unfold RebuildRun.rows
  rw [List.mem_map]
  constructor
  · rintro ⟨c, hc, rfl⟩
    have hsplit := List.mem_filter.1 hc
    exact ⟨c, hsplit.1, of_decide_eq_true hsplit.2, rfl⟩
  · rintro ⟨c, hc, hread, rfl⟩
    exact ⟨c, List.mem_filter.2 ⟨hc, decide_eq_true hread⟩, rfl⟩

/-- The chunks that are up to date after a rebuild are those that it has counted and those that were. -/
theorem write_upToDate_iff : (∀ c ∈ run.write events stamped static chunks, c.UpToDate events) ↔
    ∀ c ∈ chunks, ¬ c.UpToDate events →
      c.id ∈ run.dirty ∧ ∃ seen ∈ static, seen.id = c.id ∧ seen.reviewExcluded = false := by
  unfold RebuildRun.write
  rw [List.forall_mem_map]
  apply forall₂_congr
  intro c _
  cases hfind : (run.rows events stamped static).find? fun row => row.id = c.id with
  | none =>
      constructor
      · intro h hbehind
        exact absurd h hbehind
      · intro h
        by_contra hbehind
        obtain ⟨hdirty, seen, hseen, hid, hvisible⟩ := h hbehind
        have hrow := List.find?_eq_none.1 hfind _
          (mem_rows.2 ⟨seen, hseen, ⟨hid ▸ hdirty, hvisible⟩, rfl⟩)
        apply hrow
        exact decide_eq_true hid
  | some row =>
      have hid : row.id = c.id := by simpa using List.find?_some hfind
      obtain ⟨seen, hseen, ⟨hdirty, hvisible⟩, rfl⟩ := mem_rows.1 (List.mem_of_find?_eq_some hfind)
      change seen.id = c.id at hid
      constructor
      · intro _ _
        exact ⟨hid ▸ hdirty, seen, hseen, hid, hvisible⟩
      · intro _
        have hrow := recomputeChunk_upToDate events seen
        unfold ScoredChunk.UpToDate at hrow ⊢
        show _ = eventCount events c.id _ ∧ _ = eventCount events c.id _
        rw [← hid]
        exact hrow

/-- A rebuild that reads everything at once is `chunk_score_rebuild`. -/
theorem write_at_once (hids : (chunks.map ScoredChunk.id).Nodup) (now : Nat) :
    RebuildRun.write { startedAt := now, ledger := events } events events chunks chunks =
      chunkScoreRebuild events now chunks := by
  unfold RebuildRun.write chunkScoreRebuild recompute updateWhere
  apply List.map_congr_left
  intro c hc
  cases hfind : (RebuildRun.rows { startedAt := now, ledger := events } events events chunks).find?
      fun row => row.id = c.id with
  | none =>
      rw [if_neg]
      intro hread
      have hrow := List.find?_eq_none.1 hfind (recomputeChunk events c)
        (mem_rows.2 ⟨c, hc, of_decide_eq_true hread, rfl⟩)
      exact hrow (decide_eq_true rfl)
  | some row =>
      have hid : row.id = c.id := by simpa using List.find?_some hfind
      obtain ⟨seen, hseen, hread, rfl⟩ := mem_rows.1 (List.mem_of_find?_eq_some hfind)
      obtain rfl := List.inj_on_of_nodup_map hids hseen hc hid
      exact (if_pos (decide_eq_true hread)).symm

end Write

/-! ## Runs -/

namespace Rollup

variable {s s' : Rollup} {a : RollupAction}

/-- The ledger grows: what a rebuild has read is a part of it. -/
def Tracked (s : Rollup) : Prop :=
  ∀ run ∈ s.runs, run.ledger <+: s.events ∧
    (∀ counted ∈ run.counted, run.ledger <+: counted ∧ counted <+: s.events) ∧
    (run.static.isSome → run.counted.isSome ∧ run.stamped.isSome)

theorem Initial.tracked (h : s.Initial) : s.Tracked := by
  intro run hrun
  rw [h.runs] at hrun
  cases hrun

theorem Initial.countsEvents (h : s.Initial) : s.CountsEvents := by
  intro run hrun
  rw [h.finished] at hrun
  cases hrun

/-- Actions that end no rebuild. -/
theorem countsEvents_of_none (h : s.finished = none) : s.CountsEvents := by
  intro run hrun
  rw [h] at hrun
  cases hrun

theorem record_eq_some {events : List ChunkUsageEvent} {createdAt : Nat}
    (h : s.record events createdAt = some s') :
    s' = { s with events := s.events ++ events, finished := none } := by
  unfold record at h
  split at h
  · exact (Option.some.inj h).symm
  · cases h

theorem advance_eq_some {k : Nat} (h : s.advance k = some s') : ∃ run, s.runs[k]? = some run ∧
    ((run.counted = none ∧
        s' = { s with runs := s.runs.set k { run with counted := some s.events }, finished := none }) ∨
      (∃ counted, run.counted = some counted ∧ run.stamped = none ∧
        s' = { s with runs := s.runs.set k { run with stamped := some s.events }, finished := none }) ∨
      (∃ counted stamped, run.counted = some counted ∧ run.stamped = some stamped ∧ run.static = none ∧
        s' = { s with runs := s.runs.set k { run with static := some s.chunks }, finished := none }) ∨
      ∃ counted stamped static, run.counted = some counted ∧ run.static = some static ∧
        s' = { s with
          chunks := run.write counted stamped static s.chunks
          runs := s.runs.eraseIdx k
          finished := some run }) := by
  obtain ⟨run, hrun, rfl⟩ := Option.map_eq_some_iff.1 h
  refine ⟨run, hrun, ?_⟩
  cases hcounted : run.counted with
  | none => exact .inl ⟨rfl, rfl⟩
  | some counted =>
      cases hstamped : run.stamped with
      | none => exact .inr (.inl ⟨counted, rfl, rfl, rfl⟩)
      | some stamped =>
          cases hstatic : run.static with
          | none => exact .inr (.inr (.inl ⟨counted, stamped, rfl, rfl, rfl, rfl⟩))
          | some static => exact .inr (.inr (.inr ⟨counted, stamped, static, rfl, rfl, rfl⟩))

/-- What an action that ends no rebuild and advances none does to the runs and the ledger. -/
theorem Tracked.append (h : s.Tracked) (events : List ChunkUsageEvent) (hruns : s'.runs = s.runs)
    (hevents : s'.events = s.events ++ events) : s'.Tracked := by
  intro run hrun
  rw [hruns] at hrun
  rw [hevents]
  have hgrow : s.events <+: s.events ++ events := List.prefix_append _ _
  obtain ⟨hledger, hcounted, hstatic⟩ := h run hrun
  refine ⟨hledger.trans hgrow, ?_, hstatic⟩
  intro counted hmem
  exact ⟨(hcounted counted hmem).1, (hcounted counted hmem).2.trans hgrow⟩

theorem Tracked.step (h : s.Tracked) (hs' : s.step a = some s') : s'.Tracked := by
  cases a with
  | pass seconds =>
      cases hs'
      exact h.append [] rfl (List.append_nil _).symm
  | hits results createdAt =>
      have heq := record_eq_some hs'
      rw [heq]
      exact h.append _ rfl rfl
  | adopted pairs messageId createdAt =>
      have heq := record_eq_some hs'
      rw [heq]
      exact h.append _ rfl rfl
  | review chunkIds excluded =>
      cases hs'
      exact h.append [] rfl (List.append_nil _).symm
  | startRebuild =>
      cases hs'
      unfold startRebuild
      dsimp only
      split
      · exact h.append [] rfl (List.append_nil _).symm
      · intro run hrun
        rcases mem_concat.1 hrun with hrun | rfl
        · exact h run hrun
        · refine ⟨List.prefix_rfl, ?_, ?_⟩
          · intro counted hcounted
            cases hcounted
          · intro hstatic
            cases hstatic
  | advance k =>
      obtain ⟨run, hrun, hcases⟩ := advance_eq_some hs'
      have hmem : run ∈ s.runs := List.mem_of_getElem? hrun
      obtain ⟨hledger, hcounted, hstatic⟩ := h run hmem
      rcases hcases with ⟨hnone, rfl⟩ | ⟨counted, hsome, hnone, rfl⟩ |
        ⟨counted, stamped, hsome, hstamps, hnone, rfl⟩ | ⟨counted, stamped, static, hsome, -, rfl⟩
      · intro run' hrun'
        rcases List.mem_or_eq_of_mem_set hrun' with hold | rfl
        · exact h run' hold
        · refine ⟨hledger, ?_, fun hread => ⟨rfl, (hstatic hread).2⟩⟩
          rintro counted ⟨⟩
          exact ⟨hledger, List.prefix_rfl⟩
      · intro run' hrun'
        rcases List.mem_or_eq_of_mem_set hrun' with hold | rfl
        · exact h run' hold
        · exact ⟨hledger, hcounted, fun hread => ⟨(hstatic hread).1, rfl⟩⟩
      · intro run' hrun'
        rcases List.mem_or_eq_of_mem_set hrun' with hold | rfl
        · exact h run' hold
        · refine ⟨hledger, hcounted, fun _ => ⟨?_, ?_⟩⟩
          · rw [hsome]
            rfl
          · rw [hstamps]
            rfl
      · intro run' hrun'
        exact h run' (List.mem_of_mem_eraseIdx hrun')

/-- When a rebuild ends, the chunks are up to date exactly if it covered them. -/
theorem Tracked.countsEvents_iff (h : s.Tracked) (hs' : s.step a = some s') :
    s'.CountsEvents ↔ s.Covers a := by
  cases a with
  | pass seconds =>
      cases hs'
      exact iff_of_true (countsEvents_of_none rfl) trivial
  | hits results createdAt =>
      rw [record_eq_some hs']
      exact iff_of_true (countsEvents_of_none rfl) trivial
  | adopted pairs messageId createdAt =>
      rw [record_eq_some hs']
      exact iff_of_true (countsEvents_of_none rfl) trivial
  | review chunkIds excluded =>
      cases hs'
      exact iff_of_true (countsEvents_of_none rfl) trivial
  | startRebuild =>
      cases hs'
      have hold : (∀ e ∈ s.events, e.createdAt < s.now - rebuildWindow) ↔
          dirtyIds s.events (s.now - rebuildWindow) = [] := by
        rw [List.eq_nil_iff_forall_not_mem]
        constructor
        · intro hall chunkId hdirty
          obtain ⟨e, he, -, hrecent⟩ := mem_dirtyIds.1 hdirty
          have := hall e he
          omega
        · intro hnone e he
          by_contra hrecent
          exact hnone e.chunkId (mem_dirtyIds.2 ⟨e, he, rfl, by omega⟩)
      unfold Covers startRebuild
      dsimp only
      rw [hold]
      split
      · next hnone =>
          constructor
          · intro hcounts _
            exact hcounts _ rfl rfl
          · intro hcovers run hrun _
            exact hcovers hnone
      · next hsome =>
          exact iff_of_true (countsEvents_of_none rfl) fun hnone => absurd hnone hsome
  | advance k =>
      obtain ⟨run, hrun, hcases⟩ := advance_eq_some hs'
      obtain ⟨hledger, hcounted, hstatic⟩ := h run (List.mem_of_getElem? hrun)
      have hcovers : s.Covers (.advance k) ↔ ∀ static ∈ run.static, run.ledger = s.events →
          ∀ c ∈ s.chunks, ¬ c.UpToDate s.events →
            (∃ e ∈ s.events, e.chunkId = c.id ∧ run.startedAt - rebuildWindow ≤ e.createdAt) ∧
              ∃ seen ∈ static, seen.id = c.id ∧ seen.reviewExcluded = false := by
        show (∀ run ∈ s.runs[k]?, _) ↔ _
        rw [hrun]
        simp only [Option.mem_some_iff, forall_eq']
      rw [hcovers]
      rcases hcases with ⟨hnone, rfl⟩ | ⟨counted, hsome, hnone, rfl⟩ |
        ⟨counted, stamped, hsome, -, hnone, rfl⟩ | ⟨counted, stamped, static, hsome, hread, rfl⟩
      · refine iff_of_true (countsEvents_of_none rfl) ?_
        intro static hmem
        have hsome := (hstatic (Option.isSome_iff_exists.2 ⟨static, hmem⟩)).1
        rw [hnone] at hsome
        cases hsome
      · refine iff_of_true (countsEvents_of_none rfl) ?_
        intro static hmem
        have hstamps := (hstatic (Option.isSome_iff_exists.2 ⟨static, hmem⟩)).2
        rw [hnone] at hstamps
        cases hstamps
      · refine iff_of_true (countsEvents_of_none rfl) ?_
        intro static hmem
        rw [hnone] at hmem
        cases hmem
      · -- nothing was written since the start, so the counts are those of the ledger
        have hsame : run.ledger = s.events → counted = s.events := by
          intro hquiet
          obtain ⟨hfrom, hto⟩ := hcounted counted hsome
          rw [hquiet] at hfrom
          exact hto.eq_of_length_le hfrom.length_le
        have hdirty : run.ledger = s.events → ∀ chunkId, chunkId ∈ run.dirty ↔
            ∃ e ∈ s.events, e.chunkId = chunkId ∧ run.startedAt - rebuildWindow ≤ e.createdAt := by
          intro hquiet chunkId
          unfold RebuildRun.dirty
          rw [hquiet]
          exact mem_dirtyIds
        constructor
        · intro hcounts seen hseen hquiet c hc hbehind
          rw [hread] at hseen
          cases hseen
          have hall := hcounts run rfl hquiet
          dsimp only at hall
          rw [hsame hquiet, write_upToDate_iff] at hall
          obtain ⟨hmem, hseen⟩ := hall c hc hbehind
          exact ⟨(hdirty hquiet c.id).1 hmem, hseen⟩
        · intro hcovers run' hrun' hquiet
          cases hrun'
          dsimp only
          rw [hsame hquiet, write_upToDate_iff]
          intro c hc hbehind
          obtain ⟨hrecent, hseen⟩ := hcovers static hread hquiet c hc hbehind
          exact ⟨(hdirty hquiet c.id).2 hrecent, hseen⟩

/-- Counters agree with the ledger after every rebuild of a run during which no event was written, exactly
where each of these rebuilds covers the chunks that are not up to date. -/
theorem countsEvents_visits_iff (h : s.Initial) (actions : List RollupAction) :
    Visits step CountsEvents s actions ↔ EveryStep step Covers s actions :=
  visits_iff_everyStep_of_inv (fun _ _ _ htracked hstep => htracked.step hstep)
    (fun _ _ _ htracked _ hstep => htracked.countsEvents_iff hstep) h.tracked h.countsEvents actions

def oneChunk : Rollup :=
  { now := 1000, chunks := [{ id := 7 }], kbIds := [1] }

theorem initial_oneChunk : oneChunk.Initial where
  events := rfl
  counters := by
    intro c hc
    rw [List.mem_singleton.1 hc]
    exact ⟨rfl, rfl⟩
  runs := rfl
  finished := rfl

/-- An adoption while the chunk is excluded is counted when it is hit again. -/
theorem excluded_adoption_counted : Visits step CountsEvents oneChunk
    [.hits [(7, some 1)] 0, .review [7] true, .adopted [(7, 1)] 5 0, .review [7] false,
      .hits [(7, some 1)] 1000, .startRebuild, .advance 0, .advance 0, .advance 0, .advance 0] := by
  apply (countsEvents_visits_iff initial_oneChunk _).2
  apply EveryStep.cons_of_eq rfl trivial
  apply EveryStep.cons_of_eq rfl trivial
  apply EveryStep.cons_of_eq rfl trivial
  apply EveryStep.cons_of_eq rfl trivial
  apply EveryStep.cons_of_eq rfl trivial
  apply EveryStep.cons_of_eq rfl
  · unfold Covers
    decide
  apply EveryStep.cons_of_eq rfl
  · unfold Covers
    decide
  apply EveryStep.cons_of_eq rfl
  · unfold Covers
    decide
  apply EveryStep.cons_of_eq rfl
  · unfold Covers
    decide
  apply EveryStep.cons_of_eq rfl
  · unfold Covers
    decide
  exact trivial

/-- A rebuild overwrites the count of a hit during it, and the next one is eleven minutes late. -/
theorem late_rebuild_misses_hit : ¬ ∀ (s : Rollup) (actions : List RollupAction), s.Initial →
    Visits step CountsEvents s actions := by
  intro h
  let hit : ChunkUsageEvent := { chunkId := 7, kbId := 1, eventType := .hit, createdAt := 1000 }
  let overwritten : ScoredChunk := { recomputeChunk [hit] { id := 7 } with hitCount := 1 }
  let late : RebuildRun := { startedAt := 1660, ledger := [hit, hit] }
  let s : Rollup :=
    { now := 1660, chunks := [overwritten], kbIds := [1], events := [hit, hit], finished := some late }
  have hrun : runSteps step oneChunk
      [.hits [(7, some 1)] 1000, .startRebuild, .advance 0, .advance 0, .advance 0, .hits [(7, some 1)] 1000,
        .advance 0, .pass 660, .startRebuild] = some s := rfl
  have hcounts := (h oneChunk _ initial_oneChunk).last hrun late rfl rfl overwritten List.mem_cons_self
  have hhit : 1 = eventCount [hit, hit] 7 .hit := hcounts.1
  have htwo : eventCount [hit, hit] 7 .hit = 2 := rfl
  omega

end Rollup

end OpsKnowledge.Governance
