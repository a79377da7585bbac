import OpsKnowledge.Lib.Table
import OpsKnowledge.Lib.Transition
import OpsKnowledge.Knowledge.Chunking
import OpsKnowledge.Knowledge.ChunkService
import OpsKnowledge.Knowledge.Raptor

/-!
# The knowledge tables and what commits to them

Each action is one committed transaction of ingestion, of the chunk service, of the entry
endpoints, of RAPTOR, of the unit cascade or of the review service. `process_document`
commits twice: the removal of the old rows, and the new rows with the counters. A request
that fails is rolled back and is no step.
-/

namespace OpsKnowledge.Knowledge

open OpsKnowledge.Lib

/-- `processing` holds the documents whose worker is between its two commits. -/
structure Tables where
  kbs : List KnowledgeBase
  documents : List Document
  entries : List KnowledgeEntry := []
  chunks : List Chunk := []
  processing : List Nat := []
  next : Nat

/-- `_content_hash`, taken to be injective. -/
def contentHash (content : String) : String := content

/-- What ingestion chunks: the parsed text, with the strategy and its parameters from the base. Where the
strategy raises, the ingestion fails. -/
structure TextSource where
  strategy : Strategy
  params : ChunkParams := {}
  text : String
  returns : ∀ next, (strategy.chunk params text next).isSome

def TextSource.results (source : TextSource) (next : Nat) : List ChunkResult × Nat :=
  (source.strategy.chunk source.params source.text next).get (source.returns next)

theorem TextSource.results_drawn (source : TextSource) (next : Nat) :
    DrawnIn next (source.results next).2 (logicalIds (source.results next).1) :=
  source.strategy.chunk_drawn (Option.some_get (source.returns next)).symm

/-- The rows in insertion order. -/
def TextSource.rows (source : TextSource) (countTokens : String → Nat) (doc : Document) (next : Nat) :
    List Chunk × Nat :=
  let results := source.results next
  let objects := chunkObjects countTokens doc results.1 { next := results.2 }
  (insertOrder objects.1, objects.2.next)

structure EntryPayload where
  title : Option String := none
  content : Option String := none
  tags : Option (List String) := none
  folderId : Option (Option Nat) := none

namespace Tables

variable (t : Tables)

def getDocument (docId : Nat) : Option Document := t.documents.find? fun d => d.id = docId
def getKb (kbId : Nat) : Option KnowledgeBase := t.kbs.find? fun kb => kb.id = kbId
def getEntry (entryId : Nat) : Option KnowledgeEntry := t.entries.find? fun e => e.id = entryId

/-- The number of rows that `SELECT count(*)` finds. -/
def unitRows (unitType : UnitType) (unitId : Nat) : Nat := t.chunks.countP (Chunk.inUnit unitType unitId)

def kbRows (kbId : Nat) : Nat := t.chunks.countP fun c => c.knowledgeBaseId = kbId

/-! ## Statements -/

def updateDocument (docId : Nat) (f : Document → Document) : Tables :=
  { t with documents := updateWhere (fun d => d.id = docId) f t.documents }

def addChunkCount (kbId : Nat) (delta : Int) : Tables :=
  { t with
    kbs := updateWhere (fun kb => kb.id = kbId)
      (fun kb => { kb with chunkCount := kb.chunkCount + delta }) t.kbs }

def removeChunks (p : Chunk → Bool) : Tables := { t with chunks := deleteChunks p t.chunks }

def insertChunks (rows : List Chunk) (next : Nat) : Tables :=
  { t with chunks := t.chunks ++ rows, next := next }

/-- `ReviewService._set_chunks_excluded` -/
def setChunksExcluded (docId : Nat) (excluded : Bool) : Tables :=
  { t with
    chunks := updateWhere (Chunk.inUnit .document docId)
      (fun c => { c with reviewExcluded := excluded }) t.chunks }

def reviewRequired (kbId : Nat) : Bool := (t.getKb kbId).any KnowledgeBase.reviewRequired

/-! ## `process_document` -/

def addDocument (doc : Document) : Tables :=
  { t with documents := t.documents ++ [doc], next := t.next + 1 }

/-- A row whose ingestion is still to come. -/
def uploadDocument (kbId : Nat) (folderId : Option Nat) : Option Tables := do
  let _ ← t.getKb kbId
  some (t.addDocument { id := t.next, knowledgeBaseId := kbId, folderId := folderId })

/-- The status, and the removal of the previous chunks from the table and from the counter of the
base. -/
def clearIngested (docId kbId : Nat) : Tables :=
  let old := t.unitRows .document docId
  let t := t.updateDocument docId fun d => { d with status := .processing }
  let t := (t.removeChunks (Chunk.inUnit .document docId)).addChunkCount kbId (-(old : Int))
  { t with processing := docId :: t.processing }

/-- One worker at a time has the lock of a document. -/
def startIngest (docId : Nat) : Option Tables := do
  let doc ← t.getDocument docId
  if docId ∈ t.processing then none
  else some (t.clearIngested docId doc.knowledgeBaseId)

def setReviewStatus (docId : Nat) (status : ReviewStatus) : Tables :=
  t.updateDocument docId fun d => { d with reviewStatus := some status }

/-- `_submit_doc_for_review` -/
def submitDocForReview (docId : Nat) : Tables :=
  match t.getDocument docId with
  | none => t
  | some doc =>
      if doc.reviewStatus.isSome then t
      else (t.setReviewStatus docId .pending).setChunksExcluded docId true

/-- The new rows and the counters. -/
def saveIngested (docId kbId : Nat) (rows : List Chunk) (next : Nat) : Tables :=
  let t := (t.insertChunks rows next).updateDocument docId fun d =>
    { d with status := .completed, chunkCount := (rows.length : Int) }
  let t := t.addChunkCount kbId rows.length
  { t with processing := t.processing.filter (· ≠ docId) }

/-- The insertion of the new rows and the submission for review. -/
def finishIngest (countTokens : String → Nat) (docId : Nat) (source : TextSource) :
    Option Tables := do
  let doc ← t.getDocument docId
  if docId ∈ t.processing then
    let made := source.rows countTokens doc t.next
    let saved := t.saveIngested docId doc.knowledgeBaseId made.1 made.2
    some (if t.reviewRequired doc.knowledgeBaseId then saved.submitDocForReview docId else saved)
  else none

/-- A text that is too short, or an exception: the rows are gone, the counter of the document is
left. -/
def failIngest (docId : Nat) : Option Tables :=
  if docId ∈ t.processing then
    some { t.updateDocument docId fun d => { d with status := .error } with
      processing := t.processing.filter (· ≠ docId) }
  else none

/-! ## RAPTOR and the cascade -/

def buildRaptorForDocument {Vec : Type} (docId : Nat) (env : RaptorEnv Vec) : Option Tables := do
  let doc ← t.getDocument docId
  let build := buildRaptor env t.chunks doc t.next
  some ((t.insertChunks build.rows build.next).addChunkCount doc.knowledgeBaseId build.rows.length)

/-- `cascade_delete_unit`: the chunks and the row of the unit. -/
def cascadeDeleteUnit (unitType : UnitType) (unitId : Nat) : Tables :=
  let t := t.removeChunks (Chunk.inUnit unitType unitId)
  match unitType with
  | .document => { t with documents := t.documents.filter fun d => d.id ≠ unitId }
  | .entry => { t with entries := t.entries.filter fun e => e.id ≠ unitId }

/-! ## `ChunkService` -/

def editChunk (chunkId : Nat) (newContent : String) : Option Tables := do
  let _ ← (getChunk t.chunks chunkId).toOption
  some { t with
    chunks := updateWhere (fun c => c.id = chunkId) (fun c => editedChunk c newContent) t.chunks }

/-- New rows are inserted, the old ones deleted. -/
def replaceChunks (p : Chunk → Bool) (rows : List Chunk) : Tables :=
  { t with
    chunks := deleteChunks p t.chunks ++ rows.map (Chunk.detach ((t.chunks.filter p).map Chunk.id))
    next := t.next + rows.length }

def splitChunk (chunkId : Nat) (splitPositions : List Int) : Option Tables := do
  let chunk ← (getChunk t.chunks chunkId).toOption
  let rows ← (splitRows chunk splitPositions t.next).toOption
  some (t.replaceChunks (fun c => c.id = chunkId) rows)

def mergeChunks (chunkIds : List Nat) : Option Tables := do
  let (first, rest) ← (mergeSources t.chunks chunkIds).toOption
  some (t.replaceChunks (fun c => c.id ∈ chunkIds) [mergedChunk t.next first rest])

def deleteChunk (chunkId : Nat) : Option Tables := do
  let _ ← (getChunk t.chunks chunkId).toOption
  some (t.removeChunks fun c => c.id = chunkId)

/-- `create_chunks_for_unit` for an entry. -/
def createChunksForEntry (entry : KnowledgeEntry) (seeds : List ChunkSeed) : Tables :=
  t.insertChunks (seedRows .entry entry.id entry.knowledgeBaseId entry.reviewStatus
    (computeChunkTags entry.tags entry.autoTags) t.next seeds) (t.next + seeds.length)

/-! ## Entries -/

def addEntry (entry : KnowledgeEntry) : Tables :=
  { t with entries := t.entries ++ [entry], next := t.next + 1 }

/-- `create_unit`, then its chunks. -/
def createEntry (kbId : Nat) (title content : String) (tags : List String) (seeds : List ChunkSeed) :
    Option Tables := do
  let kb ← t.getKb kbId
  let entry : KnowledgeEntry :=
    { id := t.next, knowledgeBaseId := kbId, title := title, content := content
      contentHash := some (contentHash content), tags := tags
      reviewStatus := if kb.reviewRequired then some .pending else none }
  some ((t.addEntry entry).createChunksForEntry entry seeds)

end Tables

def EntryPayload.contentChanged (payload : EntryPayload) (entry : KnowledgeEntry) : Bool :=
  payload.content.any fun c => entry.contentHash ≠ some (contentHash c)

def EntryPayload.titleChanged (payload : EntryPayload) (entry : KnowledgeEntry) : Bool :=
  payload.title.any (· ≠ entry.title)

def EntryPayload.tagsChanged (payload : EntryPayload) (entry : KnowledgeEntry) : Bool :=
  payload.tags.any (· ≠ entry.tags)

/-- `any_review_relevant_change` -/
def EntryPayload.reviewRelevant (payload : EntryPayload) (entry : KnowledgeEntry) : Bool :=
  payload.contentChanged entry || payload.titleChanged entry || payload.tagsChanged entry

/-- The row that `update_unit` makes of an entry in a base that reviews or not. -/
def updatedEntry (entry : KnowledgeEntry) (payload : EntryPayload) (reviewRequired : Bool) :
    KnowledgeEntry :=
  { entry with
    title := payload.title.getD entry.title
    content := payload.content.getD entry.content
    contentHash := (payload.content.map contentHash).or entry.contentHash
    tags := payload.tags.getD entry.tags
    folderId := payload.folderId.getD entry.folderId
    reviewStatus :=
      if payload.reviewRelevant entry && reviewRequired then some .pending else entry.reviewStatus }

namespace Tables

variable (t : Tables)

/-- `update_unit` -/
def saveEntry (entry : KnowledgeEntry) (payload : EntryPayload) : Tables :=
  let reviewRequired := t.reviewRequired entry.knowledgeBaseId
  let t := { t with
    entries := updateWhere (fun e => e.id = entry.id)
      (fun e => updatedEntry e payload reviewRequired) t.entries }
  if payload.contentChanged entry then t.removeChunks (Chunk.inUnit .entry entry.id) else t

/-- `update_unit` and, where the entry then has no chunks, new ones. -/
def updateEntry (entryId : Nat) (payload : EntryPayload) (seeds : List ChunkSeed) :
    Option Tables := do
  let entry ← t.getEntry entryId
  let saved := t.saveEntry entry payload
  some (if saved.unitRows .entry entryId = 0 then
    saved.createChunksForEntry
      (updatedEntry entry payload (t.reviewRequired entry.knowledgeBaseId)) seeds
  else saved)

/-! ## `ReviewService` -/

def submitForReview (docId : Nat) : Option Tables := do
  let doc ← t.getDocument docId
  some (if t.reviewRequired doc.knowledgeBaseId then t.submitDocForReview docId else t)

/-- `_decide`; only an approval writes the flags of the chunks. -/
def decideReview (docId : Nat) (newStatus : ReviewStatus) : Option Tables := do
  let doc ← t.getDocument docId
  if doc.reviewStatus.isSome then
    let t := t.setReviewStatus docId newStatus
    some (if newStatus = .approved then t.setChunksExcluded docId false else t)
  else none

def approve (docId : Nat) : Option Tables := t.decideReview docId .approved
def reject (docId : Nat) : Option Tables := t.decideReview docId .rejected

/-- Withdrawing a decision sends the document back to the queue the same way. -/
def requestReReview (docId : Nat) : Option Tables := do
  let doc ← t.getDocument docId
  some (if t.reviewRequired doc.knowledgeBaseId then
    (t.setReviewStatus docId .pending).setChunksExcluded docId true
  else t)

def setReviewRequired (kbId : Nat) (reviewRequired : Bool) : Tables :=
  { t with
    kbs := updateWhere (fun kb => kb.id = kbId)
      (fun kb => { kb with reviewRequired := reviewRequired }) t.kbs }

end Tables

/-! ## The system -/

inductive TableAction (Vec : Type) where
  | uploadDocument (kbId : Nat) (folderId : Option Nat)
  | startIngest (docId : Nat)
  | finishIngest (docId : Nat) (source : TextSource)
  | failIngest (docId : Nat)
  | buildRaptor (docId : Nat) (env : RaptorEnv Vec)
  | cascadeDeleteUnit (unitType : UnitType) (unitId : Nat)
  | editChunk (chunkId : Nat) (newContent : String)
  | splitChunk (chunkId : Nat) (splitPositions : List Int)
  | mergeChunks (chunkIds : List Nat)
  | deleteChunk (chunkId : Nat)
  | createEntry (kbId : Nat) (title content : String) (tags : List String) (seeds : List ChunkSeed)
  | updateEntry (entryId : Nat) (payload : EntryPayload) (seeds : List ChunkSeed)
  | submitForReview (docId : Nat)
  | approve (docId : Nat)
  | reject (docId : Nat)
  | requestReReview (docId : Nat)
  | setReviewRequired (kbId : Nat) (reviewRequired : Bool)

def tableStep {Vec : Type} (countTokens : String → Nat) (t : Tables) : TableAction Vec → Option Tables
  | .uploadDocument kbId folderId => t.uploadDocument kbId folderId
  | .startIngest docId => t.startIngest docId
  | .finishIngest docId source => t.finishIngest countTokens docId source
  | .failIngest docId => t.failIngest docId
  | .buildRaptor docId env => t.buildRaptorForDocument docId env
  | .cascadeDeleteUnit unitType unitId => some (t.cascadeDeleteUnit unitType unitId)
  | .editChunk chunkId newContent => t.editChunk chunkId newContent
  | .splitChunk chunkId splitPositions => t.splitChunk chunkId splitPositions
  | .mergeChunks chunkIds => t.mergeChunks chunkIds
  | .deleteChunk chunkId => t.deleteChunk chunkId
  | .createEntry kbId title content tags seeds => t.createEntry kbId title content tags seeds
  | .updateEntry entryId payload seeds => t.updateEntry entryId payload seeds
  | .submitForReview docId => t.submitForReview docId
  | .approve docId => t.approve docId
  | .reject docId => t.reject docId
  | .requestReReview docId => t.requestReReview docId
  | .setReviewRequired kbId reviewRequired => some (t.setReviewRequired kbId reviewRequired)

end OpsKnowledge.Knowledge
