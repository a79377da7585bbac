import Mathlib.Data.List.Nodup
import OpsKnowledge.Governance.Events
import OpsKnowledge.Lib.Transition

/-!
# The feedback ledger

`ChatService.set_feedback` writes signed events for the chunks of a message, and the rebuild nets
them. `uuid` stands for Python's parser of ids.
-/

namespace OpsKnowledge.Governance

open OpsKnowledge.Lib

/-- An entry of `retrieval_chunks` in the metadata of a message. -/
structure RetrievalChunk where
  id : Option String := none
  chunkId : Option String := none
  sourceKbId : Option String := none

structure FeedbackMessage where
  id : Nat
  retrievalChunks : List RetrievalChunk := []
  feedback : Option Int := none

/-- The committed rows that a call reads and writes. -/
structure FeedbackState where
  messages : List FeedbackMessage
  chunks : List ScoredChunk
  kbIds : List Nat
  events : List ChunkUsageEvent := []

/-- A call of the endpoint, and its time. -/
structure FeedbackCall where
  messageId : Nat
  feedback : Option Int
  now : Nat

section Calls

variable (uuid : String → Option Nat)

/-- `c.get("id") or c.get("chunk_id")`, where it is an id. -/
def RetrievalChunk.chunk (c : RetrievalChunk) : Option Nat :=
  ((c.id.filter (· ≠ "")).or (c.chunkId.filter (· ≠ ""))).bind uuid

def RetrievalChunk.kb (c : RetrievalChunk) : Option Nat :=
  (c.sourceKbId.filter (· ≠ "")).bind uuid

def RetrievalChunk.pair (c : RetrievalChunk) : Option (Nat × Nat) :=
  (c.chunk uuid).bind fun chunkId => (c.kb uuid).map fun kbId => (chunkId, kbId)

namespace FeedbackMessage

variable (m : FeedbackMessage)

def pairs : List (Nat × Nat) := m.retrievalChunks.filterMap (RetrievalChunk.pair uuid)

/-- The events of a call: the reversal of the previous feedback, then the new one. -/
def feedbackEvents (feedback : Option Int) (now : Nat) : List ChunkUsageEvent :=
  let reversed :=
    if m.feedback.isSome ∧ m.feedback ≠ some (feedback.getD 0) then
      recordFeedback (m.pairs uuid) 0 (some m.id) now
    else []
  let recorded :=
    if feedback.isSome ∧ feedback ≠ some 0 ∧ feedback ≠ m.feedback then
      recordFeedback (m.pairs uuid) (feedback.getD 0) (some m.id) now
    else []
  reversed ++ recorded

end FeedbackMessage

namespace FeedbackState

variable (s : FeedbackState)

/-- An event has its chunk and its base. -/
def admits (e : ChunkUsageEvent) : Bool :=
  s.chunks.any (fun c => c.id = e.chunkId) && decide (e.kbId ∈ s.kbIds)

/-- `set_feedback`; a call whose rows are refused is rolled back. -/
def setFeedback (messageId : Nat) (feedback : Option Int) (now : Nat) : Option FeedbackState :=
  (s.messages.find? fun m => m.id = messageId).bind fun msg =>
    let events := msg.feedbackEvents uuid feedback now
    if events.all s.admits then
      some { s with
        messages := updateWhere (fun m => m.id = messageId)
          (fun m => { m with feedback := feedback }) s.messages
        events := s.events ++ events }
    else none

/-- The endpoint takes 1, -1, 0 and null. -/
def step (s : FeedbackState) (call : FeedbackCall) : Option FeedbackState :=
  if call.feedback.all (· ∈ [-1, 0, 1]) then
    s.setFeedback uuid call.messageId call.feedback call.now
  else none

end FeedbackState

/-! ## The property and the condition -/

/-- A message lists the chunk, with its base or without. -/
def FeedbackMessage.lists (m : FeedbackMessage) (chunkId : Nat) : Bool :=
  m.retrievalChunks.any fun c => c.chunk uuid = some chunkId

namespace FeedbackState

/-- The messages that list the chunk and have this feedback. -/
def votes (s : FeedbackState) (chunkId : Nat) (vote : Int) : Nat :=
  s.messages.countP fun m => m.lists uuid chunkId && decide (m.feedback = some vote)

/-- A rebuild gives each visible chunk that it covers the votes that it has. -/
def CountsVotes (s : FeedbackState) : Prop :=
  ∀ ids, ∀ c ∈ recompute s.events ids s.chunks, c.id ∈ ids → c.reviewExcluded = false →
    c.feedbackPositive = s.votes uuid c.id 1 ∧ c.feedbackNegative = s.votes uuid c.id (-1)

/-- No feedback has been given. -/
structure Unrated (s : FeedbackState) : Prop where
  ids : (s.messages.map FeedbackMessage.id).Nodup
  messages : ∀ m ∈ s.messages, m.feedback = none
  events : ∀ e ∈ s.events, e.eventType = .hit ∨ e.eventType = .adopted

/-- A call that changes a vote: its message lists each of its visible chunks once and with the base, and
did not have feedback 0. A negative vote is only withdrawn, and from chunks without positive ones; a
positive one is only given to chunks from which no negative vote was withdrawn. -/
def Nets (s : FeedbackState) (call : FeedbackCall) : Prop :=
  ∀ m ∈ s.messages, m.id = call.messageId → m.feedback.getD 0 ≠ call.feedback.getD 0 →
    ∀ c ∈ s.chunks, c.reviewExcluded = false → m.lists uuid c.id = true →
      (m.pairs uuid).countP (fun pair => pair.1 = c.id) = 1 ∧ m.feedback ≠ some 0 ∧
        (m.feedback = some (-1) → call.feedback ≠ some 1 ∧ s.votes uuid c.id 1 = 0) ∧
        (call.feedback = some 1 →
          eventCount s.events c.id .feedbackNegative ≤ s.votes uuid c.id (-1))

end FeedbackState

/-! ## The ledger of a chunk -/

/-- The votes that are given and those that are withdrawn. While there are positive votes, no negative
one has been withdrawn. -/
def Balances (pos neg reverse given against : Nat) : Prop :=
  ∃ withdrawn retracted, pos = given + withdrawn ∧ neg = against + retracted ∧
    reverse = withdrawn + retracted ∧ (retracted = 0 ∨ given = 0)

/-- Reversals cancel positive votes first. -/
theorem netFeedback_eq (pos neg reverse : Nat) :
    netFeedback pos neg reverse = (pos - reverse, neg - (reverse - pos)) := by
  unfold netFeedback
  apply Prod.ext
  · show pos - min _ _ = _
    omega
  · show neg - (min _ _ - min _ _) = neg - (reverse - pos)
    omega

theorem Balances.net {pos neg reverse given against : Nat} (h : Balances pos neg reverse given against) :
    netFeedback pos neg reverse = (given, against) := by
  obtain ⟨withdrawn, retracted, rfl, rfl, rfl, hcase⟩ := h
  rw [netFeedback_eq, Prod.mk.injEq]
  omega

def IsVote (feedback : Option Int) : Prop :=
  feedback = none ∨ feedback = some (-1) ∨ feedback = some 0 ∨ feedback = some 1

/-- Feedback of one sign is one vote. -/
theorem IsVote.of_getD {old new : Option Int} (hold : IsVote old)
    (hnew : new = some 1 ∨ new = some (-1)) (h : old.getD 0 = new.getD 0) :
    old = some 1 ∨ old = some (-1) := by
  rcases hold with rfl | rfl | rfl | rfl
  · rcases hnew with rfl | rfl <;> simp at h
  · exact .inr rfl
  · rcases hnew with rfl | rfl <;> simp at h
  · exact .inl rfl

/-- What a call does to the ledger of a chunk that its message lists `k` times with the base. -/
theorem net_vote_iff {previous feedback : Option Int} (hprevious : IsVote previous)
    (hfeedback : IsVote feedback) {k pos neg reverse given against given' against' : Nat}
    (h : Balances pos neg reverse given against)
    (hk : previous = some 1 ∨ previous = some (-1) → k = 1)
    (hgiven : given' + (if previous = some 1 then 1 else 0) =
      given + if feedback = some 1 then 1 else 0)
    (hagainst : against' + (if previous = some (-1) then 1 else 0) =
      against + if feedback = some (-1) then 1 else 0) :
    let pos' := pos + if feedback = some 1 ∧ feedback ≠ previous then k else 0
    let neg' := neg + if feedback = some (-1) ∧ feedback ≠ previous then k else 0
    let reverse' := reverse + if previous.isSome ∧ previous ≠ some (feedback.getD 0) then k else 0
    let keeps := previous.getD 0 ≠ feedback.getD 0 →
      k = 1 ∧ previous ≠ some 0 ∧ (previous = some (-1) → feedback ≠ some 1 ∧ given = 0) ∧
        (feedback = some 1 → neg ≤ against)
    (netFeedback pos' neg' reverse' = (given', against') → keeps) ∧
      (keeps → Balances pos' neg' reverse' given' against') := by
  obtain ⟨withdrawn, retracted, rfl, rfl, rfl, hcase⟩ := h
  intro pos' neg' reverse' keeps
  constructor
  · rw [netFeedback_eq, Prod.mk.injEq]
    unfold keeps pos' neg' reverse'
    rcases hprevious with rfl | rfl | rfl | rfl <;> rcases hfeedback with rfl | rfl | rfl | rfl <;>
      simp at hk hgiven hagainst ⊢ <;> omega
  · intro hkeeps
    refine ⟨withdrawn + (if previous = some 1 ∧ feedback ≠ some 1 then 1 else 0),
      retracted + (if previous = some (-1) ∧ feedback ≠ some (-1) then 1 else 0), ?_⟩
    unfold keeps at hkeeps
    unfold pos' neg' reverse'
    rcases hprevious with rfl | rfl | rfl | rfl <;> rcases hfeedback with rfl | rfl | rfl | rfl <;>
      simp at hk hgiven hagainst hkeeps ⊢ <;> omega

structure FeedbackState.Tracked (s : FeedbackState) : Prop where
  ids : (s.messages.map FeedbackMessage.id).Nodup
  values : ∀ m ∈ s.messages, IsVote m.feedback
  balances : ∀ c ∈ s.chunks, c.reviewExcluded = false →
    Balances (eventCount s.events c.id .feedbackPositive) (eventCount s.events c.id .feedbackNegative)
      (eventCount s.events c.id .feedbackReverse) (s.votes uuid c.id 1) (s.votes uuid c.id (-1))
  listed : ∀ c ∈ s.chunks, c.reviewExcluded = false → ∀ m ∈ s.messages, m.lists uuid c.id = true →
    m.feedback = some 1 ∨ m.feedback = some (-1) →
      (m.pairs uuid).countP (fun pair => pair.1 = c.id) = 1

/-! ## A call -/

section Call

variable {uuid : String → Option Nat} {s s' : FeedbackState} {m : FeedbackMessage} {chunkId : Nat}
  {feedback : Option Int} {now : Nat}

theorem eventCount_feedbackEvents (eventType : EventType) :
    eventCount (m.feedbackEvents uuid feedback now) chunkId eventType =
      (if (m.feedback.isSome ∧ m.feedback ≠ some (feedback.getD 0)) ∧ eventType = .feedbackReverse then
        (m.pairs uuid).countP fun pair => pair.1 = chunkId else 0) +
      if (feedback.isSome ∧ feedback ≠ some 0 ∧ feedback ≠ m.feedback) ∧
          eventType = feedbackType (feedback.getD 0) then
        (m.pairs uuid).countP fun pair => pair.1 = chunkId else 0 := by
  unfold FeedbackMessage.feedbackEvents
  dsimp only
  rw [eventCount_append]
  congr 1
  · split
    · next hreversed =>
        unfold recordFeedback
        rw [eventCount_usageEvents]
        simp [hreversed, feedbackType, eq_comm]
    · next hkept => simp [hkept, eventCount]
  · split
    · next hrecorded =>
        unfold recordFeedback
        rw [eventCount_usageEvents]
        simp [hrecorded, eq_comm]
    · next hkept => simp [hkept, eventCount]

/-- A message that does not list the chunk has no pair for it. -/
theorem countP_pairs_of_not_lists (h : m.lists uuid chunkId = false) :
    (m.pairs uuid).countP (fun pair => pair.1 = chunkId) = 0 := by
  rw [List.countP_eq_zero]
  intro pair hpair heq
  obtain ⟨c, hc, hsome⟩ := List.mem_filterMap.1 hpair
  obtain ⟨i, hi, hrest⟩ := Option.bind_eq_some_iff.1 hsome
  obtain ⟨k, -, rfl⟩ := Option.map_eq_some_iff.1 hrest
  have hno := List.any_eq_false.1 h c hc
  apply hno
  rw [hi]
  exact decide_eq_true (congrArg some (of_decide_eq_true heq))

theorem FeedbackState.step_eq_some {call : FeedbackCall} (h : s.step uuid call = some s') :
    ∃ m ∈ s.messages, m.id = call.messageId ∧ IsVote call.feedback ∧
      s' = { s with
        messages := updateWhere (fun m' => m'.id = m.id)
          (fun m' => { m' with feedback := call.feedback }) s.messages
        events := s.events ++ m.feedbackEvents uuid call.feedback call.now } := by
  unfold FeedbackState.step at h
  split at h
  · next hvote =>
      obtain ⟨m, hm, h⟩ := Option.bind_eq_some_iff.1 h
      have hid : m.id = call.messageId := by simpa using List.find?_some hm
      dsimp only at h
      split at h
      · cases h
        refine ⟨m, List.mem_of_find?_eq_some hm, hid, ?_, ?_⟩
        · unfold IsVote
          cases hfeedback : call.feedback with
          | none => exact .inl rfl
          | some f =>
              rw [hfeedback] at hvote
              simp at hvote
              simp [hvote]
        · rw [hid]
      · cases h
  · cases h

/-- The votes of a chunk after a call, by what the message of the call had and has. -/
theorem FeedbackState.votes_update (uuid : String → Option Nat) (chunkId : Nat) (feedback : Option Int)
    (hids : (s.messages.map FeedbackMessage.id).Nodup)
    (hm : m ∈ s.messages) (events : List ChunkUsageEvent) (vote : Int) :
    votes uuid
        { s with
          messages := updateWhere (fun m' => m'.id = m.id)
            (fun m' => { m' with feedback := feedback }) s.messages
          events := events } chunkId vote +
        (if m.lists uuid chunkId ∧ m.feedback = some vote then 1 else 0) =
      s.votes uuid chunkId vote +
        if m.lists uuid chunkId ∧ feedback = some vote then 1 else 0 := by
  have hcount := countP_updateWhere_key (f := fun m' => { m' with feedback := feedback }) hids hm
    (fun m' => m'.lists uuid chunkId && decide (m'.feedback = some vote))
  simp only [Bool.and_eq_true, decide_eq_true_eq] at hcount
  exact hcount

theorem eventCount_votes (uuid : String → Option Nat) (m : FeedbackMessage) (chunkId now : Nat)
    (hvote : IsVote feedback) :
    let k := (m.pairs uuid).countP fun pair => pair.1 = chunkId
    let events := m.feedbackEvents uuid feedback now
    (eventCount events chunkId .feedbackPositive =
      if feedback = some 1 ∧ feedback ≠ m.feedback then k else 0) ∧
      (eventCount events chunkId .feedbackNegative =
        if feedback = some (-1) ∧ feedback ≠ m.feedback then k else 0) ∧
      eventCount events chunkId .feedbackReverse =
        if m.feedback.isSome ∧ m.feedback ≠ some (feedback.getD 0) then k else 0 := by
  intro k events
  unfold events
  rw [eventCount_feedbackEvents, eventCount_feedbackEvents, eventCount_feedbackEvents]
  rcases hvote with rfl | rfl | rfl | rfl
  · simp [k]
  · simp [feedbackType, k]
  · simp [feedbackType, k]
  · simp [feedbackType, k]

/-! ## Runs -/

namespace FeedbackState

theorem countsVotes_iff : s.CountsVotes uuid ↔ ∀ c ∈ s.chunks, c.reviewExcluded = false →
    netFeedback (eventCount s.events c.id .feedbackPositive) (eventCount s.events c.id .feedbackNegative)
      (eventCount s.events c.id .feedbackReverse) = (s.votes uuid c.id 1, s.votes uuid c.id (-1)) := by
  constructor
  · intro h c hc hvisible
    have hmem : recomputeChunk s.events c ∈ recompute s.events [c.id] s.chunks := by
      unfold recompute
      rw [mem_updateWhere]
      refine ⟨c, hc, ?_⟩
      rw [if_pos]
      simp [hvisible]
    obtain ⟨hpos, hneg⟩ := h [c.id] _ hmem (List.mem_singleton_self _) hvisible
    exact Prod.ext hpos hneg
  · intro h ids c' hc' hid hvisible
    unfold recompute at hc'
    obtain ⟨c, hc, rfl⟩ := mem_updateWhere.1 hc'
    by_cases hcovered : c.id ∈ ids ∧ c.reviewExcluded = false
    · rw [if_pos (decide_eq_true hcovered)]
      have hnet := h c hc hcovered.2
      exact ⟨congrArg Prod.fst hnet, congrArg Prod.snd hnet⟩
    · rw [if_neg (by simpa using hcovered)] at hid hvisible
      exact absurd ⟨hid, hvisible⟩ hcovered

theorem Tracked.countsVotes (h : s.Tracked uuid) : s.CountsVotes uuid :=
  countsVotes_iff.2 fun c hc hvisible => (h.balances c hc hvisible).net

/-- Without feedback there is nothing to net. -/
theorem Unrated.tracked (h : s.Unrated) : s.Tracked uuid := by
  have hvotes : ∀ chunkId vote, s.votes uuid chunkId vote = 0 := by
    intro chunkId vote
    unfold votes
    rw [List.countP_eq_zero]
    intro m hm
    simp [h.messages m hm]
  have hevents : ∀ chunkId eventType, eventType ≠ .hit → eventType ≠ .adopted →
      eventCount s.events chunkId eventType = 0 := by
    intro chunkId eventType hhit hadopted
    unfold eventCount
    rw [List.countP_eq_zero]
    intro e he hcounted
    have htype := (of_decide_eq_true hcounted).2
    rcases h.events e he with hkind | hkind
    · exact hhit (htype.symm.trans hkind)
    · exact hadopted (htype.symm.trans hkind)
  refine ⟨h.ids, ?_, ?_, ?_⟩
  · intro m hm
    exact .inl (h.messages m hm)
  · intro c _ _
    rw [hvotes, hvotes, hevents _ _ (by decide) (by decide), hevents _ _ (by decide) (by decide),
      hevents _ _ (by decide) (by decide)]
    exact ⟨0, 0, rfl, rfl, rfl, .inl rfl⟩
  · intro c _ _ m hm _ hvote
    rw [h.messages m hm] at hvote
    simp at hvote

/-- What a call does to each chunk. -/
theorem Tracked.step (h : s.Tracked uuid) {call : FeedbackCall} (hs' : s.step uuid call = some s') :
    (s'.CountsVotes uuid → s.Nets uuid call) ∧ (s.Nets uuid call → s'.Tracked uuid) := by
  obtain ⟨m, hm, hid, hvote, rfl⟩ := step_eq_some hs'
  let events := s.events ++ m.feedbackEvents uuid call.feedback call.now
  let s' : FeedbackState := { s with
    messages := updateWhere (fun m' => m'.id = m.id)
      (fun m' => { m' with feedback := call.feedback }) s.messages
    events := events }
  -- the ledger and the votes of a chunk after the call
  have hchunk : ∀ c ∈ s.chunks, c.reviewExcluded = false → m.lists uuid c.id = true →
      let keeps := m.feedback.getD 0 ≠ call.feedback.getD 0 →
        (m.pairs uuid).countP (fun pair => pair.1 = c.id) = 1 ∧ m.feedback ≠ some 0 ∧
          (m.feedback = some (-1) → call.feedback ≠ some 1 ∧ s.votes uuid c.id 1 = 0) ∧
          (call.feedback = some 1 →
            eventCount s.events c.id .feedbackNegative ≤ s.votes uuid c.id (-1))
      (netFeedback (eventCount events c.id .feedbackPositive) (eventCount events c.id .feedbackNegative)
          (eventCount events c.id .feedbackReverse) = (s'.votes uuid c.id 1, s'.votes uuid c.id (-1)) →
        keeps) ∧
      (keeps → Balances (eventCount events c.id .feedbackPositive)
        (eventCount events c.id .feedbackNegative) (eventCount events c.id .feedbackReverse)
        (s'.votes uuid c.id 1) (s'.votes uuid c.id (-1))) := by
    intro c hc hvisible hlists
    obtain ⟨hpos, hneg, hreverse⟩ := eventCount_votes uuid m c.id call.now hvote
    unfold events
    rw [eventCount_append, eventCount_append, eventCount_append, hpos, hneg, hreverse]
    have hgiven := votes_update uuid c.id call.feedback h.ids hm events 1
    have hagainst := votes_update uuid c.id call.feedback h.ids hm events (-1)
    simp only [hlists, true_and] at hgiven hagainst
    exact net_vote_iff (h.values m hm) hvote (h.balances c hc hvisible)
      (h.listed c hc hvisible m hm hlists) hgiven hagainst
  constructor
  · intro hcounts m' hm' hid' hchange c hc hvisible hlists
    obtain rfl : m' = m := List.inj_on_of_nodup_map h.ids hm' hm (hid'.trans hid.symm)
    exact (hchunk c hc hvisible hlists).1 (countsVotes_iff.1 hcounts c hc hvisible) hchange
  · intro hnets
    have hkeeps := fun hchange c hc hvisible hlists => hnets m hm hid hchange c hc hvisible hlists
    refine ⟨?_, ?_, ?_, ?_⟩
    · have hids : s'.messages.map FeedbackMessage.id = s.messages.map FeedbackMessage.id :=
        map_updateWhere fun _ => rfl
      show (s'.messages.map FeedbackMessage.id).Nodup
      rw [hids]
      exact h.ids
    · intro m' hm'
      obtain ⟨old, hold, rfl⟩ := mem_updateWhere.1 hm'
      split
      · exact hvote
      · exact h.values old hold
    · intro c hc hvisible
      cases hlists : m.lists uuid c.id with
      | true => exact (hchunk c hc hvisible hlists).2 fun hchange => hkeeps hchange c hc hvisible hlists
      | false =>
          have hnone := countP_pairs_of_not_lists hlists
          have hevents : ∀ eventType,
              eventCount events c.id eventType = eventCount s.events c.id eventType := by
            intro eventType
            unfold events
            rw [eventCount_append, eventCount_feedbackEvents, hnone]
            simp
          have hvotes : ∀ vote, s'.votes uuid c.id vote = s.votes uuid c.id vote := by
            intro vote
            have hupdate := votes_update uuid c.id call.feedback h.ids hm events vote
            simp only [hlists, Bool.false_eq_true, false_and, if_false, Nat.add_zero] at hupdate
            exact hupdate
          show Balances (eventCount events c.id _) (eventCount events c.id _) (eventCount events c.id _)
            (s'.votes uuid c.id 1) (s'.votes uuid c.id (-1))
          rw [hevents, hevents, hevents, hvotes, hvotes]
          exact h.balances c hc hvisible
    · intro c hc hvisible m' hm' hlists hvoted
      obtain ⟨old, hold, rfl⟩ := mem_updateWhere.1 hm'
      by_cases hsame : old.id = m.id
      · obtain rfl := List.inj_on_of_nodup_map h.ids hold hm hsame
        rw [if_pos (decide_eq_true rfl)] at hlists hvoted ⊢
        by_cases hchange : old.feedback.getD 0 = call.feedback.getD 0
        · apply h.listed c hc hvisible old hold hlists
          exact (h.values old hold).of_getD hvoted hchange
        · exact (hkeeps hchange c hc hvisible hlists).1
      · rw [if_neg (by simpa using hsame)] at hlists hvoted ⊢
        exact h.listed c hc hvisible old hold hlists hvoted

/-- From a state without feedback, the votes of every visible chunk are counted in every state of a run
exactly where each of its calls can be netted. -/
theorem countsVotes_visits_iff (h : s.Unrated) (calls : List FeedbackCall) :
    Visits (FeedbackState.step uuid) (CountsVotes uuid) s calls ↔
      EveryStep (FeedbackState.step uuid) (Nets uuid) s calls :=
  visits_iff_everyStep_of_companion (fun _ htracked => htracked.countsVotes)
    (fun _ _ _ htracked hstep => htracked.step hstep) h.tracked calls

end FeedbackState

end Call

namespace FeedbackState

/-- A message that lists one chunk. -/
def ratedOnce : FeedbackState :=
  { messages := [{ id := 1, retrievalChunks := [{ id := some "c", sourceKbId := some "k" }] }]
    chunks := [{ id := 7 }]
    kbIds := [7] }

theorem unrated_ratedOnce : ratedOnce.Unrated where
  ids := List.nodup_singleton _
  messages := by
    intro m hm
    rw [List.mem_singleton.1 hm]
  events := by
    intro e he
    cases he

/-- A vote that is given, turned and taken back. -/
theorem turned_vote_counted : Visits (step fun _ => some 7) (CountsVotes fun _ => some 7) ratedOnce
    [{ messageId := 1, feedback := some 1, now := 0 }, { messageId := 1, feedback := some (-1), now := 1 },
      { messageId := 1, feedback := none, now := 2 }] := by
  apply (countsVotes_visits_iff unrated_ratedOnce _).2
  apply EveryStep.cons_of_eq rfl
  · unfold Nets
    decide
  apply EveryStep.cons_of_eq rfl
  · unfold Nets
    decide
  apply EveryStep.cons_of_eq rfl
  · unfold Nets
    decide
  exact trivial

/-- The reversal of a negative vote cancels the positive one that follows it. -/
theorem raised_vote_cancelled : ¬ ∀ (uuid : String → Option Nat) (s : FeedbackState)
    (calls : List FeedbackCall), s.Unrated → Visits (step uuid) (CountsVotes uuid) s calls := by
  intro h
  have hrun : ∃ s, runSteps (step fun _ => some 7) ratedOnce
      [{ messageId := 1, feedback := some (-1), now := 0 }, { messageId := 1, feedback := some 1, now := 1 }] =
        some s ∧ ∃ c ∈ recompute s.events [7] s.chunks, c.id = 7 ∧ c.reviewExcluded = false ∧
          c.feedbackPositive = 0 ∧ s.votes (fun _ => some 7) 7 1 = 1 :=
    ⟨_, rfl, _, List.mem_cons_self, rfl, rfl, rfl, rfl⟩
  obtain ⟨s, hrun, c, hc, hid, hvisible, hzero, hone⟩ := hrun
  have hcounts := (h _ ratedOnce _ unrated_ratedOnce).last hrun [7] c hc (by simp [hid]) hvisible
  have hpos := hcounts.1
  rw [hzero, hid, hone] at hpos
  cases hpos

end FeedbackState

end Calls

end OpsKnowledge.Governance
