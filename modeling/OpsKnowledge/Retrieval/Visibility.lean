import OpsKnowledge.Knowledge.ReviewIsolation
import OpsKnowledge.Retrieval.Service

/-!
# Visibility of results

Calls of `retrieve` between changes of the knowledge tables. A call that misses the cache
filters its hits and goes on to fusion and reranking while the tables may change; a call
that hits it returns what was stored.
-/

namespace OpsKnowledge.Knowledge.Tables

open OpsKnowledge.Lib
open Retrieval (SearchResult)

def unitArchived (t : Tables) : UnitType → Nat → Bool
  | .document, unitId => (t.getDocument unitId).any Document.isArchived
  | .entry, unitId => (t.getEntry unitId).any KnowledgeEntry.isArchived

/-- The archive endpoints of documents and of entries. -/
def setArchived (t : Tables) (unitType : UnitType) (unitId : Nat) (archived : Bool) : Tables :=
  match unitType with
  | .document => t.updateDocument unitId fun d => { d with isArchived := archived }
  | .entry => { t with
      entries := updateWhere (fun e => e.id = unitId) (fun e => { e with isArchived := archived }) t.entries }

/-- The unit is neither archived nor pending nor rejected, and the chunk is not flagged. -/
structure Shows (t : Tables) (c : Chunk) : Prop where
  flag : c.reviewExcluded = false
  archived : t.unitArchived c.unitType c.unitId = false
  review : ∀ status, t.unitReview c.unitType c.unitId = some status → excludedStatus status = false

def Visible (t : Tables) (r : SearchResult) : Prop := ∀ c ∈ t.chunks, c.id = r.chunkId → t.Shows c

end OpsKnowledge.Knowledge.Tables

namespace OpsKnowledge.Retrieval

open OpsKnowledge.Lib
open Knowledge (Tables TableAction UnitType excludedStatus tableStep)

/-- A call between its visibility filter and its return. -/
structure Call where
  args : RetrieveArgs
  queryUsed : String
  routedTags : List String
  totalSearched : Nat
  visible : List SearchResult

/-- `answer` holds what the last step returned to a caller. -/
structure RetrievalState where
  tables : Tables
  cache : L2Cache := Store.empty
  calls : List Call := []
  answer : List SearchResult := []

section Step

variable {Vec : Type} (digest : String → String) (countTokens : String → Nat) (s : RetrievalState)

end Step

namespace RetrievalState

variable {Vec : Type} {digest : String → String} {countTokens : String → Nat} {s s' : RetrievalState}

/-! ## The property and the condition -/

/-- What a call has just returned is visible. -/
def AnswersVisible (s : RetrievalState) : Prop := ∀ r ∈ s.answer, s.tables.Visible r

/-- Results that a later answer can be made of: of a cache entry, or of a running call. -/
def Holds (s : RetrievalState) (r : SearchResult) : Prop :=
  (∃ key c, s.cache key = some c ∧ r ∈ c.results) ∨ ∃ call ∈ s.calls, r ∈ call.visible

/-- Everything that an answer can be made of is visible. -/
structure AllVisible (s : RetrievalState) : Prop where
  held : ∀ r, s.Holds r → s.tables.Visible r
  answer : s.AnswersVisible

/-! ## Steps -/

theorem AllVisible.dropEntries (h : s.AllVisible) {cache : L2Cache}
    (hsub : ∀ key c, cache key = some c → s.cache key = some c) :
    ({ s with cache := cache, answer := [] } : RetrievalState).AllVisible := by
  refine ⟨?_, fun _ hr => nomatch hr⟩
  rintro r (⟨key, c, hc, hr⟩ | hr)
  · exact h.held r (.inl ⟨key, c, hsub key c hc, hr⟩)
  · exact h.held r (.inr hr)

end RetrievalState

/-- A document of one chunk, and no call yet. -/
def oneDocument : RetrievalState :=
  { tables :=
      { kbs := [{ id := 0, chunkCount := 1 }]
        documents := [{ id := 1, knowledgeBaseId := 0, chunkCount := 1 }]
        chunks := [{ id := 2, unitType := .document, unitId := 1, knowledgeBaseId := 0, content := "text" }]
        next := 3 } }

/-- Services that find the chunk. -/
def findsChunk : Services Unit := servicesOf (clientOf (fun _ => []) fun _ => [chunkHit])

end OpsKnowledge.Retrieval
