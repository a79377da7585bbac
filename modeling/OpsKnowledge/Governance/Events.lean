import Mathlib.Algebra.Order.Field.Rat
import OpsKnowledge.Lib.Table

/-!
# Usage events and the scores of chunks

The ledger of `app/knowledge/governance/models.py`, its writers in `events.py`, and
`chunk_score_rebuild` of `tasks.py` with the formula of `scoring.py`. Times are in seconds; scores
are rationals.
-/

namespace OpsKnowledge.Governance

open OpsKnowledge.Lib

inductive EventType where
  | hit
  | adopted
  | feedbackPositive
  | feedbackNegative
  | feedbackReverse
  deriving DecidableEq

structure ChunkUsageEvent where
  chunkId : Nat
  kbId : Nat
  eventType : EventType
  messageId : Option Nat := none
  createdAt : Nat
  deriving DecidableEq

structure RetrievalNoResultEvent where
  kbId : Nat
  query : String
  createdAt : Nat
  deriving DecidableEq

/-- The rows of `record_hits_bulk`, `record_adopted` and `record_feedback`. -/
def usageEvents (eventType : EventType) (pairs : List (Nat × Nat)) (messageId : Option Nat)
    (createdAt : Nat) : List ChunkUsageEvent :=
  pairs.map fun pair =>
    { chunkId := pair.1
      kbId := pair.2
      eventType := eventType
      messageId := messageId
      createdAt := createdAt }

def recordHitsBulk (pairs : List (Nat × Nat)) (messageId : Option Nat) (createdAt : Nat) :
    List ChunkUsageEvent :=
  usageEvents .hit pairs messageId createdAt

def recordAdopted (pairs : List (Nat × Nat)) (messageId : Option Nat) (createdAt : Nat) :
    List ChunkUsageEvent :=
  usageEvents .adopted pairs messageId createdAt

/-- `sentiment` is 0 for a reversal. -/
def feedbackType (sentiment : Int) : EventType :=
  if 0 < sentiment then .feedbackPositive
  else if sentiment < 0 then .feedbackNegative
  else .feedbackReverse

def recordFeedback (pairs : List (Nat × Nat)) (sentiment : Int) (messageId : Option Nat)
    (createdAt : Nat) : List ChunkUsageEvent :=
  usageEvents (feedbackType sentiment) pairs messageId createdAt

def recordNoResult (kbId : Nat) (query : String) (createdAt : Nat) : RetrievalNoResultEvent :=
  { kbId := kbId, query := String.ofList (query.toList.take 2000), createdAt := createdAt }

/-! ## Scores -/

/-- The governance columns of a chunk. -/
structure ScoredChunk where
  id : Nat
  reviewExcluded : Bool := false
  qualityScore : Option Rat := none
  hitCount : Nat := 0
  adoptedCount : Nat := 0
  feedbackPositive : Nat := 0
  feedbackNegative : Nat := 0
  lastHitAt : Option Nat := none
  lastAdoptedAt : Option Nat := none
  qualityDynamic : Rat := 0
  qualityComposite : Rat := 0

structure ChunkStats where
  hit : Nat
  adopted : Nat
  feedbackPositive : Nat
  feedbackNegative : Nat

def computeDynamic (stats : ChunkStats) : Rat :=
  if stats.hit = 0 then 0
  else
    let adoptionRate : Rat := min (stats.adopted / stats.hit) 1
    let totalFb := stats.feedbackPositive + stats.feedbackNegative
    let feedbackComponent : Rat :=
      if 0 < totalFb then
        (((stats.feedbackPositive : Rat) - stats.feedbackNegative) / totalFb + 1) / 2
      else 1 / 2
    let hitComponent : Rat := stats.hit / (stats.hit + 5)
    1 / 2 * adoptionRate + 3 / 10 * feedbackComponent + 1 / 5 * hitComponent

def computeComposite (staticScore : Option Rat) (dynamicScore : Rat) (hit : Nat) : Rat :=
  match staticScore with
  | none => dynamicScore
  | some score =>
      let progress : Rat := (min hit 60 : Nat) / 60
      let ws := max (1 - 3 / 5 * progress) (2 / 5)
      ws * score + (1 - ws) * dynamicScore

/-! ## The rebuild -/

/-- `REBUILD_WINDOW_MINUTES` -/
def rebuildWindow : Nat := 10 * 60

section Rebuild

variable (events : List ChunkUsageEvent)

def eventCount (chunkId : Nat) (eventType : EventType) : Nat :=
  events.countP fun e => e.chunkId = chunkId ∧ e.eventType = eventType

/-- `func.max(created_at)` -/
def lastEventAt (chunkId : Nat) (eventType : EventType) : Option Nat :=
  ((events.filter fun e => e.chunkId = chunkId ∧ e.eventType = eventType).map
    ChunkUsageEvent.createdAt).max?

def dirtyIds (cutoff : Nat) : List Nat :=
  ((events.filter fun e => cutoff ≤ e.createdAt).map ChunkUsageEvent.chunkId).eraseDups

/-- The positive and the negative votes less those that the reversals cancel. -/
def netFeedback (pos neg reverse : Nat) : Nat × Nat :=
  let cancel := min reverse (pos + neg)
  let posCancel := min cancel pos
  let negCancel := cancel - posCancel
  (pos - posCancel, neg - negCancel)

def recomputeChunk (c : ScoredChunk) : ScoredChunk :=
  let hit := eventCount events c.id .hit
  let adopted := eventCount events c.id .adopted
  let (pos, neg) := netFeedback (eventCount events c.id .feedbackPositive)
    (eventCount events c.id .feedbackNegative) (eventCount events c.id .feedbackReverse)
  let dynamic := computeDynamic
    { hit := hit, adopted := adopted, feedbackPositive := pos, feedbackNegative := neg }
  { c with
    hitCount := hit
    adoptedCount := adopted
    feedbackPositive := pos
    feedbackNegative := neg
    qualityDynamic := dynamic
    qualityComposite := computeComposite c.qualityScore dynamic hit
    lastHitAt := lastEventAt events c.id .hit
    lastAdoptedAt := lastEventAt events c.id .adopted }

/-- The rebuild of the chunks with these ids; excluded ones are skipped. -/
def recompute (ids : List Nat) (chunks : List ScoredChunk) : List ScoredChunk :=
  updateWhere (fun c => c.id ∈ ids ∧ c.reviewExcluded = false) (recomputeChunk events) chunks

/-- `_run_chunk_score_rebuild` -/
def chunkScoreRebuild (now : Nat) (chunks : List ScoredChunk) : List ScoredChunk :=
  recompute events (dirtyIds events (now - rebuildWindow)) chunks

end Rebuild

/-! ## What the ledger counts -/

section Counts

variable {events more : List ChunkUsageEvent} {chunkId : Nat} {eventType : EventType}

theorem eventCount_append : eventCount (events ++ more) chunkId eventType =
    eventCount events chunkId eventType + eventCount more chunkId eventType :=
  List.countP_append

/-- New events count where their type is asked for. -/
theorem eventCount_usageEvents (written : EventType) (pairs : List (Nat × Nat)) (messageId : Option Nat)
    (createdAt : Nat) : eventCount (usageEvents written pairs messageId createdAt) chunkId eventType =
      if written = eventType then pairs.countP fun pair => pair.1 = chunkId else 0 := by
  unfold eventCount usageEvents
  rw [List.countP_map]
  by_cases h : written = eventType
  · rw [if_pos h]
    apply List.countP_congr
    intro pair _
    simp [h]
  · rw [if_neg h, List.countP_eq_zero]
    intro pair _
    simp [h]

theorem mem_dirtyIds {cutoff : Nat} : chunkId ∈ dirtyIds events cutoff ↔
    ∃ e ∈ events, e.chunkId = chunkId ∧ cutoff ≤ e.createdAt := by
  unfold dirtyIds
  rw [List.mem_eraseDups, List.mem_map]
  constructor
  · rintro ⟨e, he, rfl⟩
    obtain ⟨hmem, hcutoff⟩ := List.mem_filter.1 he
    exact ⟨e, hmem, rfl, of_decide_eq_true hcutoff⟩
  · rintro ⟨e, he, rfl, hcutoff⟩
    exact ⟨e, List.mem_filter.2 ⟨he, decide_eq_true hcutoff⟩, rfl⟩

end Counts

end OpsKnowledge.Governance
