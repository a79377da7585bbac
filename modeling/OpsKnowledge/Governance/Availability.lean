import OpsKnowledge.Governance.Events
import OpsKnowledge.Lib.Rounding

/-!
# The availability of a base

The events that `RetrievalService.retrieve` leaves, the counts of `_gather_stats` in `service.py` and the
score of `health.py`. Quotients are exact.
-/

namespace OpsKnowledge.Governance

open OpsKnowledge.Lib

/-- A result of a retrieval: its chunk, if it has one, and the base it came from. -/
structure RetrievalHit where
  chunkId : Option Nat := none
  sourceKbId : Option Nat := none

/-- A retrieval that has returned. -/
structure RetrievalCall where
  kbIds : List Nat
  query : String := ""
  results : List RetrievalHit
  /-- The answer came from the cache. -/
  cached : Bool := false
  isTest : Bool := false
  createdAt : Nat

/-- The ids that events can refer to, and the events. -/
structure UsageLedger where
  chunkIds : List Nat
  kbIds : List Nat
  events : List ChunkUsageEvent := []
  gaps : List RetrievalNoResultEvent := []

namespace UsageLedger

variable (s : UsageLedger)

/-- The events of a retrieval; a transaction with a dangling reference is lost. -/
def record (r : RetrievalCall) : UsageLedger :=
  if r.cached || r.isTest then s
  else if r.results.isEmpty then
    if r.kbIds.all (· ∈ s.kbIds) then
      { s with gaps := s.gaps ++ r.kbIds.map fun kbId => recordNoResult kbId r.query r.createdAt }
    else s
  else
    let hitPairs := r.results.filterMap fun hit =>
      hit.chunkId.bind fun chunkId => hit.sourceKbId.map fun kbId => (chunkId, kbId)
    if hitPairs.all fun pair => pair.1 ∈ s.chunkIds && pair.2 ∈ s.kbIds then
      { s with events := s.events ++ recordHitsBulk hitPairs none r.createdAt }
    else s

def recordAll (history : List RetrievalCall) : UsageLedger := history.foldl record s

end UsageLedger

/-! ## The score -/

/-- What `availability_score` reads. -/
structure FacetStats where
  totalChunks : Nat := 0
  totalDocs : Nat := 0
  totalRetrievals : Nat := 0
  successfulRetrievals : Nat := 0

structure AvailabilityDetail where
  total : Nat := 0
  successful : Nat := 0
  successRate : Option ℚ := none
  empty : Bool := false

/-- `AVAILABILITY_WINDOW_DAYS` -/
def availabilityWindow : Nat := 7 * 24 * 60 * 60

def availabilityScore (s : FacetStats) : ℚ × AvailabilityDetail :=
  if s.totalChunks = 0 ∧ s.totalDocs = 0 then (0, { empty := true })
  else if s.totalRetrievals = 0 then (100, {})
  else
    let rate : ℚ := s.successfulRetrievals / s.totalRetrievals
    (roundDecimals 1 (rate * 100),
      { total := s.totalRetrievals
        successful := s.successfulRetrievals
        successRate := some (roundDecimals 3 rate) })

/-- A base at the time of a report. -/
structure ReportedBase where
  id : Nat
  totalChunks : Nat
  totalDocs : Nat
  now : Nat

namespace ReportedBase

variable (kb : ReportedBase)

def cutoff : Nat := kb.now - availabilityWindow

/-- `COUNT(DISTINCT message_id)` over the hits of the window -/
def hitRetrievals (s : UsageLedger) : Nat :=
  ((s.events.filter fun e => e.kbId = kb.id ∧ e.eventType = .hit ∧ kb.cutoff ≤ e.createdAt).filterMap
    ChunkUsageEvent.messageId).eraseDups.length

def noResult (s : UsageLedger) : Nat :=
  s.gaps.countP fun e => e.kbId = kb.id ∧ kb.cutoff ≤ e.createdAt

def gatherStats (s : UsageLedger) : FacetStats :=
  { totalChunks := kb.totalChunks
    totalDocs := kb.totalDocs
    totalRetrievals := kb.hitRetrievals s + kb.noResult s
    successfulRetrievals := kb.hitRetrievals s }

def availability (s : UsageLedger) : ℚ := (availabilityScore (kb.gatherStats s)).1

/-! ## The property and the condition -/

/-- A retrieval of the window that asks for the base. -/
def Counts (r : RetrievalCall) : Prop :=
  r.isTest = false ∧ kb.id ∈ r.kbIds ∧ kb.cutoff ≤ r.createdAt

instance (r : RetrievalCall) : Decidable (kb.Counts r) := by
  unfold Counts
  infer_instance

def retrievals (history : List RetrievalCall) : Nat := history.countP fun r => kb.Counts r

def successes (history : List RetrievalCall) : Nat :=
  history.countP fun r => kb.Counts r ∧ r.results.isEmpty = false

/-- The report is the share of the retrievals that returned something, in percent. -/
def IsSuccessRate (s : UsageLedger) (history : List RetrievalCall) : Prop :=
  0 < kb.retrievals history → kb.availability (s.recordAll history) =
    roundDecimals 1 ((kb.successes history : ℚ) / kb.retrievals history * 100)

/-- Results instead of none do not lower the report. -/
def IsMonotone (s : UsageLedger) (history : List RetrievalCall) : Prop :=
  ∀ before r after results, history = before ++ r :: after → r.results = [] → results ≠ [] →
    kb.availability (s.recordAll history) ≤
      kb.availability (s.recordAll (before ++ { r with results := results } :: after))

/-- A retrieval of the window found nothing and was recorded as such: it did not come from the cache, and
all its bases exist. -/
def Missed (s : UsageLedger) (r : RetrievalCall) : Prop :=
  kb.Counts r ∧ r.cached = false ∧ r.results = [] ∧ ∀ kbId ∈ r.kbIds, kbId ∈ s.kbIds

/-- With a miss on record, or in an empty base, at most one retrieval in 2000 succeeds; otherwise at most
one in 2000 fails. -/
def OneSided (s : UsageLedger) (history : List RetrievalCall) : Prop :=
  (((kb.totalChunks = 0 ∧ kb.totalDocs = 0) ∨ ∃ r ∈ history, kb.Missed s r) →
      2000 * kb.successes history ≤ kb.retrievals history) ∧
    (¬ ((kb.totalChunks = 0 ∧ kb.totalDocs = 0) ∨ ∃ r ∈ history, kb.Missed s r) →
      2000 * (kb.retrievals history - kb.successes history) ≤ kb.retrievals history)

end ReportedBase

/-! ## The ledger of a history -/

section History

variable {s : UsageLedger} {kb : ReportedBase} {history : List RetrievalCall}

@[simp] theorem record_kbIds (r : RetrievalCall) : (s.record r).kbIds = s.kbIds := by
  unfold UsageLedger.record
  dsimp only
  split
  · rfl
  · split
    · split <;> rfl
    · split <;> rfl

/-- No retrieval passes its message. -/
theorem messageId_recordAll (h : ∀ e ∈ s.events, e.messageId = none) :
    ∀ e ∈ (s.recordAll history).events, e.messageId = none := by
  induction history generalizing s with
  | nil => exact h
  | cons r history ih =>
      apply ih
      unfold UsageLedger.record
      dsimp only
      split
      · exact h
      · split
        · split
          · exact h
          · exact h
        · split
          · intro e he
            rcases List.mem_append.1 he with he | he
            · exact h e he
            · obtain ⟨pair, -, rfl⟩ := List.mem_map.1 he
              rfl
          · exact h

/-- A hit is no message, so no retrieval is counted as successful. -/
theorem hitRetrievals_recordAll (h : s.events = []) : kb.hitRetrievals (s.recordAll history) = 0 := by
  have hnone : ∀ e ∈ (s.recordAll history).events, e.messageId = none := by
    apply messageId_recordAll
    rw [h]
    intro e he
    cases he
  unfold ReportedBase.hitRetrievals
  have hids : ((s.recordAll history).events.filter fun e =>
      e.kbId = kb.id ∧ e.eventType = .hit ∧ kb.cutoff ≤ e.createdAt).filterMap
        ChunkUsageEvent.messageId = [] := by
    rw [List.filterMap_eq_nil_iff]
    intro e he
    exact hnone e (List.mem_of_mem_filter he)
  rw [hids]
  rfl

/-- The misses that a retrieval adds. -/
theorem noResult_record_pos (r : RetrievalCall) :
    0 < kb.noResult (s.record r) ↔ 0 < kb.noResult s ∨ kb.Missed s r := by
  unfold ReportedBase.noResult UsageLedger.record ReportedBase.Missed ReportedBase.Counts
  dsimp only
  split
  · next hskip =>
      have hno : ¬ (r.cached = false ∧ r.isTest = false) := by
        intro hboth
        rw [hboth.1, hboth.2] at hskip
        cases hskip
      constructor
      · exact .inl
      · rintro (h | ⟨⟨htest, -⟩, hcached, -⟩)
        · exact h
        · exact absurd ⟨hcached, htest⟩ hno
  · next hkeep =>
      have hboth : r.cached = false ∧ r.isTest = false := by simpa using hkeep
      split
      · next hempty =>
          have hnone : r.results = [] := List.isEmpty_iff.1 hempty
          split
          · next hexist =>
              have hall : ∀ kbId ∈ r.kbIds, kbId ∈ s.kbIds := by simpa using hexist
              rw [List.countP_append, Nat.add_pos_iff_pos_or_pos]
              apply or_congr Iff.rfl
              rw [List.countP_pos_iff]
              constructor
              · rintro ⟨e, he, hcounted⟩
                obtain ⟨kbId, hkb, rfl⟩ := List.mem_map.1 he
                obtain ⟨hid, hrecent⟩ := of_decide_eq_true hcounted
                refine ⟨⟨hboth.2, ?_, hrecent⟩, hboth.1, hnone, hall⟩
                rw [← hid]
                exact hkb
              · rintro ⟨⟨-, hkb, hrecent⟩, -⟩
                exact ⟨_, List.mem_map_of_mem hkb, decide_eq_true ⟨rfl, hrecent⟩⟩
          · next hdangling =>
              constructor
              · exact .inl
              · rintro (h | ⟨-, -, -, hall⟩)
                · exact h
                · exact absurd (by simpa using hall) hdangling
      · next hsome =>
          have hno : ¬ r.results = [] := fun hnone => hsome (List.isEmpty_iff.2 hnone)
          have hsame : ∀ t : UsageLedger, t.gaps = s.gaps →
              (0 < t.gaps.countP (fun e => e.kbId = kb.id ∧ kb.cutoff ≤ e.createdAt) ↔
                0 < s.gaps.countP (fun e => e.kbId = kb.id ∧ kb.cutoff ≤ e.createdAt) ∨
                  (r.isTest = false ∧ kb.id ∈ r.kbIds ∧ kb.cutoff ≤ r.createdAt) ∧ r.cached = false ∧
                    r.results = [] ∧ ∀ kbId ∈ r.kbIds, kbId ∈ s.kbIds) := by
            intro t ht
            rw [ht]
            constructor
            · exact .inl
            · rintro (h | ⟨-, -, hnone, -⟩)
              · exact h
              · exact absurd hnone hno
          split
          · exact hsame _ rfl
          · exact hsame _ rfl

theorem noResult_recordAll_pos (s : UsageLedger) (kb : ReportedBase) (history : List RetrievalCall) :
    0 < kb.noResult (s.recordAll history) ↔ 0 < kb.noResult s ∨ ∃ r ∈ history, kb.Missed s r := by
  induction history generalizing s with
  | nil =>
      constructor
      · exact .inl
      · rintro (h | ⟨r, hr, -⟩)
        · exact h
        · cases hr
  | cons r history ih =>
      have hmissed : ∀ r', kb.Missed (s.record r) r' ↔ kb.Missed s r' := by
        intro r'
        unfold ReportedBase.Missed
        rw [record_kbIds]
      have hstep : s.recordAll (r :: history) = (s.record r).recordAll history := rfl
      rw [hstep, ih, noResult_record_pos, List.exists_mem_cons_iff, or_assoc]
      simp only [hmissed]

/-- The report is 0 or 100. -/
theorem availability_recordAll (kb : ReportedBase) (history : List RetrievalCall) (hevents : s.events = [])
    (hgaps : s.gaps = []) :
    (((kb.totalChunks = 0 ∧ kb.totalDocs = 0) ∨ ∃ r ∈ history, kb.Missed s r) →
        kb.availability (s.recordAll history) = 0) ∧
      (¬ ((kb.totalChunks = 0 ∧ kb.totalDocs = 0) ∨ ∃ r ∈ history, kb.Missed s r) →
        kb.availability (s.recordAll history) = 100) := by
  have hzero : kb.noResult s = 0 := by
    unfold ReportedBase.noResult
    rw [hgaps]
    rfl
  have hpos := noResult_recordAll_pos s kb history
  rw [hzero] at hpos
  have hstats : kb.gatherStats (s.recordAll history) =
      { totalChunks := kb.totalChunks
        totalDocs := kb.totalDocs
        totalRetrievals := kb.noResult (s.recordAll history)
        successfulRetrievals := 0 } := by
    unfold ReportedBase.gatherStats
    rw [hitRetrievals_recordAll hevents, Nat.zero_add]
  unfold ReportedBase.availability availabilityScore
  rw [hstats]
  dsimp only
  constructor
  · intro h
    by_cases hempty : kb.totalChunks = 0 ∧ kb.totalDocs = 0
    · rw [if_pos hempty]
    · rw [if_neg hempty]
      have hmissed := hpos.2 (.inr (h.resolve_left hempty))
      rw [if_neg (by omega)]
      show roundDecimals 1 (((0 : ℕ) : ℚ) / _ * 100) = 0
      rw [Nat.cast_zero, zero_div, zero_mul]
      exact roundDecimals_zero 1
  · intro h
    rw [if_neg fun hempty => h (.inl hempty), if_pos]
    have hno : ¬ 0 < kb.noResult (s.recordAll history) := by
      intro hsome
      rcases hpos.1 hsome with hlt | hmissed
      · omega
      · exact h (.inr hmissed)
    omega

/-! ## The rate -/

theorem successes_le : kb.successes history ≤ kb.retrievals history := by
  unfold ReportedBase.successes ReportedBase.retrievals
  apply List.countP_mono_left
  intro r _ hr
  exact decide_eq_true (of_decide_eq_true hr).1

/-- Rates that are rounded to 0 and to 100 percent. -/
theorem roundDecimals_rate_iff {successes retrievals : Nat} (hle : successes ≤ retrievals)
    (hpos : 0 < retrievals) :
    (roundDecimals 1 ((successes : ℚ) / retrievals * 100) = 0 ↔ 2000 * successes ≤ retrievals) ∧
      (roundDecimals 1 ((successes : ℚ) / retrievals * 100) = 100 ↔
        2000 * (retrievals - successes) ≤ retrievals) := by
  have hcast : (0 : ℚ) < retrievals := by exact_mod_cast hpos
  have hleCast : (successes : ℚ) ≤ retrievals := by exact_mod_cast hle
  have hnonneg : (0 : ℚ) ≤ successes := Nat.cast_nonneg _
  have hscale : (successes : ℚ) / retrievals * 100 * 10 ^ 1 = 1000 * successes / retrievals := by ring
  constructor
  · have hround := roundDecimals_eq_iff_of_even 1 ((successes : ℚ) / retrievals * 100)
      (show (0 : ℤ) % 2 = 0 from rfl)
    rw [hscale, Int.cast_zero, zero_div] at hround
    rw [hround]
    constructor
    · rintro ⟨-, h⟩
      rw [div_le_iff₀ hcast] at h
      have : (2000 * successes : ℚ) ≤ retrievals := by linarith
      exact_mod_cast this
    · intro h
      have : (2000 * successes : ℚ) ≤ retrievals := by exact_mod_cast h
      constructor
      · have : (0 : ℚ) ≤ 1000 * successes / retrievals := by positivity
        linarith
      · rw [div_le_iff₀ hcast]
        linarith
  · have hround := roundDecimals_eq_iff_of_even 1 ((successes : ℚ) / retrievals * 100)
      (show (1000 : ℤ) % 2 = 0 from rfl)
    rw [hscale] at hround
    have hhundred : (((1000 : ℤ) : ℚ) / 10 ^ 1) = 100 := by norm_num
    rw [hhundred] at hround
    rw [hround]
    have hsub : ((retrievals - successes : ℕ) : ℚ) = retrievals - successes := Nat.cast_sub hle
    constructor
    · rintro ⟨h, -⟩
      rw [le_div_iff₀ hcast] at h
      push_cast at h
      have : (2000 * ((retrievals - successes : ℕ) : ℚ)) ≤ retrievals := by
        rw [hsub]
        linarith
      exact_mod_cast this
    · intro h
      have : (2000 * ((retrievals - successes : ℕ) : ℚ)) ≤ retrievals := by exact_mod_cast h
      rw [hsub] at this
      push_cast
      constructor
      · rw [le_div_iff₀ hcast]
        linarith
      · rw [div_le_iff₀ hcast]
        linarith

theorem isSuccessRate_iff (kb : ReportedBase) (history : List RetrievalCall) (hevents : s.events = [])
    (hgaps : s.gaps = []) :
    kb.IsSuccessRate s history ↔ kb.OneSided s history := by
  unfold ReportedBase.IsSuccessRate ReportedBase.OneSided
  have hle : kb.successes history ≤ kb.retrievals history := successes_le
  obtain ⟨hzero, hhundred⟩ := availability_recordAll kb history hevents hgaps
  by_cases hpos : 0 < kb.retrievals history
  · obtain ⟨hnone, hall⟩ := roundDecimals_rate_iff hle hpos
    by_cases h : (kb.totalChunks = 0 ∧ kb.totalDocs = 0) ∨ ∃ r ∈ history, kb.Missed s r
    · rw [hzero h, eq_comm, hnone]
      constructor
      · intro hrate
        exact ⟨fun _ => hrate hpos, fun hno => absurd h hno⟩
      · intro hrate _
        exact hrate.1 h
    · rw [hhundred h, eq_comm, hall]
      constructor
      · intro hrate
        exact ⟨fun hyes => absurd hyes h, fun _ => hrate hpos⟩
      · intro hrate _
        exact hrate.2 h
  · refine iff_of_true (fun hsome => absurd hsome hpos) ?_
    constructor
    · intro _
      omega
    · intro _
      omega

/-- A miss less on record. -/
theorem isMonotone (hevents : s.events = []) (hgaps : s.gaps = []) : kb.IsMonotone s history := by
  intro before r after results hsplit _ hresults
  obtain ⟨hzero, hhundred⟩ := availability_recordAll kb history hevents hgaps
  obtain ⟨hzero', hhundred'⟩ := availability_recordAll kb
    (before ++ { r with results := results } :: after) hevents hgaps
  by_cases h : (kb.totalChunks = 0 ∧ kb.totalDocs = 0) ∨ ∃ r ∈ history, kb.Missed s r
  · rw [hzero h]
    by_cases h' : (kb.totalChunks = 0 ∧ kb.totalDocs = 0) ∨
        ∃ r' ∈ before ++ { r with results := results } :: after, kb.Missed s r'
    · rw [hzero' h']
    · rw [hhundred' h']
      norm_num
  · have h' : ¬ ((kb.totalChunks = 0 ∧ kb.totalDocs = 0) ∨
        ∃ r' ∈ before ++ { r with results := results } :: after, kb.Missed s r') := by
      rintro (hempty | ⟨r', hr', hmissed⟩)
      · exact h (.inl hempty)
      · apply h
        rw [List.mem_append, List.mem_cons] at hr'
        rcases hr' with hr' | rfl | hr'
        · exact .inr ⟨r', by rw [hsplit]; exact List.mem_append_left _ hr', hmissed⟩
        · exact absurd hmissed.2.2.1 hresults
        · exact .inr ⟨r', by
            rw [hsplit]
            exact List.mem_append_right _ (List.mem_cons_of_mem _ hr'), hmissed⟩
    rw [hhundred h, hhundred' h']

/-- From an empty ledger, the report is the success rate, and monotone, exactly where the outcomes of the
window are on one side. -/
theorem availability_iff (kb : ReportedBase) (chunkIds kbIds : List Nat) (history : List RetrievalCall) :
    let s : UsageLedger := { chunkIds := chunkIds, kbIds := kbIds }
    kb.IsSuccessRate s history ∧ kb.IsMonotone s history ↔ kb.OneSided s history := by
  intro s
  rw [isSuccessRate_iff kb history rfl rfl]
  exact and_iff_left (isMonotone rfl rfl)

/-- One retrieval in two succeeds, and the report is 0. -/
theorem half_available : ¬ ∀ (kb : ReportedBase) (chunkIds kbIds : List Nat) (history : List RetrievalCall),
    let s : UsageLedger := { chunkIds := chunkIds, kbIds := kbIds }
    kb.IsSuccessRate s history ∧ kb.IsMonotone s history := by
  intro h
  let kb : ReportedBase := { id := 1, totalChunks := 1, totalDocs := 1, now := 0 }
  let history : List RetrievalCall :=
    [{ kbIds := [1], results := [{ chunkId := some 7, sourceKbId := some 1 }], createdAt := 0 },
      { kbIds := [1], results := [], createdAt := 0 }]
  have hside := (isSuccessRate_iff kb history rfl rfl).1 (h kb [7] [1] history).1
  have hmissed :
      kb.Missed { chunkIds := [7], kbIds := [1] } { kbIds := [1], results := [], createdAt := 0 } :=
    ⟨⟨rfl, List.mem_cons_self, (Nat.zero_sub availabilityWindow).le⟩, rfl, rfl,
      fun _ hmem => hmem⟩
  have hrate : 2000 * kb.successes history ≤ kb.retrievals history :=
    hside.1 (.inr ⟨_, List.mem_cons_of_mem _ List.mem_cons_self, hmissed⟩)
  have hsuccesses : kb.successes history = 1 := by decide
  have hretrievals : kb.retrievals history = 2 := by decide
  omega

end History

end OpsKnowledge.Governance
