import OpsKnowledge.Lib.Rely
import OpsKnowledge.Knowledge.VectorFreshness

/-!
# Tasks that write collections

Embedding, reindexes, tag updates and the governance tasks of all bases, statement by statement,
beside requests that commit, edit and delete chunks and their vectors. A vector is its id here.
-/

namespace OpsKnowledge.Milvus

open OpsKnowledge.Lib OpsKnowledge.Knowledge

/-- `kb_collection_name`, and the collection that a reindex builds beside it. -/
inductive CollectionName where
  | live (kbId : Nat)
  | fresh (kbId : Nat)
  deriving DecidableEq

/-- The committed chunk rows, the collections, and the governance locks in redis. -/
structure Stores where
  chunks : List Chunk := []
  /-- Every id that a chunk has had: a UUID is not drawn twice. -/
  issued : List Nat := []
  collections : CollectionName → Option (List Nat) := fun _ => none
  locks : List Nat := []

/-- `embed_unit_chunks` after its first session; `created` once it has called `create_collection`. -/
structure UnitEmbed extends EmbedRun where
  kbId : Nat
  created : Bool := false

structure KbReindex extends Reindex where
  kbId : Nat

/-- `update_chunk_tags`, with the ids of the rows that it has queried. -/
structure TagWrite where
  kbId : Nat
  ids : List Nat
  rows : Option (List Nat) := none

inductive GovernancePhase where
  | locked
  | found
  | listed (milvusIds : List Nat)
  | deleting (orphanIds : List Nat)

/-- `clean_orphan_vectors` with its `batch_size`, or `scan_orphan_vectors`. -/
structure GovernanceRun where
  kbId : Nat
  batchSize : Option Nat
  phase : GovernancePhase := .locked

inductive MilvusTask where
  | embed (e : UnitEmbed)
  | reindex (r : KbReindex)
  | tags (w : TagWrite)
  | governance (g : GovernanceRun)

structure VectorState extends Stores where
  tasks : List MilvusTask := []

inductive VectorAction where
  | commitChunks (rows : List Chunk)
  | editChunk (chunkId : Nat) (newContent : String)
  | deleteChunks (ids : List Nat)
  | deleteVectors (kbId : Nat) (ids : List Nat)
  | dropCollection (name : CollectionName)
  | startEmbed (unitType : UnitType) (unitId kbId : Nat)
  /-- RAPTOR commits its summaries and embeds them. -/
  | startSummaries (rows : List Chunk) (kbId : Nat)
  | startReindex (kbId : Nat)
  | startTags (kbId : Nat) (ids : List Nat)
  /-- A governance task; without redis it gets the lock anyway. -/
  | startGovernance (kbId : Nat) (batchSize : Option Nat) (redisUp : Bool)
  | expireLock (kbId : Nat)
  /-- The next statement of a task. -/
  | advance (k : Nat)
  /-- A task raises, and runs its handlers. -/
  | fail (k : Nat)
  /-- The worker of a task dies. -/
  | kill (k : Nat)

namespace Stores

variable (st : Stores)

def setCollection (name : CollectionName) (ids : Option (List Nat)) : Stores :=
  { st with collections := Function.update st.collections name ids }

def createCollection (name : CollectionName) : Stores :=
  st.setCollection name (some ((st.collections name).getD []))

def releaseLock (kbId : Nat) : Stores := { st with locks := st.locks.filter (· ≠ kbId) }

/-- The primary keys of new rows are fresh. -/
def commitChunks (rows : List Chunk) : Option Stores :=
  if ∀ c ∈ rows, c.id ∉ st.issued then
    some { st with chunks := st.chunks ++ rows, issued := st.issued ++ rows.map Chunk.id }
  else none

/-- An edit clears the `vector_id`. -/
def editChunk (chunkId : Nat) (newContent : String) : Stores :=
  { st with
    chunks := updateWhere (fun c => c.id = chunkId)
      (fun c => { c with content := newContent, isManuallyEdited := true, vectorId := none }) st.chunks }

def deleteChunks (ids : List Nat) : Stores :=
  { st with chunks := st.chunks.filter fun c => c.id ∉ ids }

/-- `delete_by_ids`, and `delete_by_filter` with the ids that the filter selects. -/
def deleteByIds (name : CollectionName) (ids : List Nat) : Stores :=
  st.setCollection name ((st.collections name).map fun held => held.filter (· ∉ ids))

/-- `select(Chunk.id).where(Chunk.knowledge_base_id == kb_id)` -/
def chunkIds (kbId : Nat) : List Nat :=
  (st.chunks.filter fun c => c.knowledgeBaseId = kbId).map Chunk.id

end Stores

/-- `sorted(milvus_ids - pg_ids)` -/
def orphans (milvusIds pgIds : List Nat) : List Nat :=
  orderBy id (milvusIds.dedup.filter (· ∉ pgIds))

/-! ## The tasks, statement by statement -/

/-- The next statement of a task, which ends when no task is left. -/
def UnitEmbed.advance (e : UnitEmbed) (st : Stores) : Stores × Option MilvusTask :=
  if e.created then
    if e.pending = [] then
      ({ st with chunks := setVectorIds e.stored st.chunks }, none)
    else
      match st.collections (.live e.kbId) with
      | none => (st, none)
      | some held =>
        (st.setCollection (.live e.kbId) (some (held ∪ (e.pending.take batchSize).map Chunk.id)),
          some (.embed { e with toEmbedRun := e.toEmbedRun.next }))
  else (st.createCollection (.live e.kbId), some (.embed { e with created := true }))

/-- What a reindex does when it raises before its swap is over. -/
def KbReindex.cleanup (r : KbReindex) (st : Stores) : Stores :=
  if r.phase = .renamed then st else st.setCollection (.fresh r.kbId) none

def KbReindex.advance (r : KbReindex) (st : Stores) : Stores × Option MilvusTask :=
  match r.phase with
  | .started =>
    (st.createCollection (.fresh r.kbId),
      some (.reindex { r with phase := .building }))
  | .building =>
    if r.pending = [] then
      (st.setCollection (.live r.kbId) none, some (.reindex { r with phase := .dropped }))
    else
      match st.collections (.fresh r.kbId) with
      | none => (r.cleanup st, none)
      | some held =>
        (st.setCollection (.fresh r.kbId) (some (held ∪ (r.pending.take batchSize).map Chunk.id)),
          some (.reindex { r with toReindex := r.toReindex.next }))
  | .dropped =>
    -- a rename needs the new collection, and that the old name is free
    match st.collections (.fresh r.kbId), st.collections (.live r.kbId) with
    | some held, none =>
      ((st.setCollection (.live r.kbId) (some held)).setCollection (.fresh r.kbId) none,
        some (.reindex { r with phase := .renamed }))
    | _, _ => (r.cleanup st, none)
  | .renamed => ({ st with chunks := setVectorIds r.stored st.chunks }, none)

def TagWrite.advance (w : TagWrite) (st : Stores) : Stores × Option MilvusTask :=
  match st.collections (.live w.kbId) with
  | none => (st, none)
  | some held =>
    match w.rows with
    | none => (st, some (.tags { w with rows := some (held.filter (· ∈ w.ids)) }))
    | some rows => (st.setCollection (.live w.kbId) (some (held ∪ rows)), none)

def GovernanceRun.advance (g : GovernanceRun) (st : Stores) : Stores × Option MilvusTask :=
  match g.phase with
  | .locked =>
    if (st.collections (.live g.kbId)).isSome then
      (st, some (.governance { g with phase := .found }))
    else (st.releaseLock g.kbId, none)
  | .found =>
    match st.collections (.live g.kbId) with
    | none => (st.releaseLock g.kbId, none)
    | some held => (st, some (.governance { g with phase := .listed held }))
  | .listed milvusIds =>
    (st, some (.governance { g with phase := .deleting (orphans milvusIds (st.chunkIds g.kbId)) }))
  | .deleting orphanIds =>
    match g.batchSize with
    | none => (st.releaseLock g.kbId, none)
    | some batchSize =>
      -- `range` raises for a step of zero
      if orphanIds = [] ∨ batchSize = 0 ∨ st.collections (.live g.kbId) = none then
        (st.releaseLock g.kbId, none)
      else
        (st.deleteByIds (.live g.kbId) (orphanIds.take batchSize),
          some (.governance { g with phase := .deleting (orphanIds.drop batchSize) }))

def MilvusTask.advance : MilvusTask → Stores → Stores × Option MilvusTask
  | .embed e, st => e.advance st
  | .reindex r, st => r.advance st
  | .tags w, st => w.advance st
  | .governance g, st => g.advance st

/-- The `except` and `finally` of a task. -/
def MilvusTask.cleanup : MilvusTask → Stores → Stores
  | .embed _, st => st
  | .reindex r, st => r.cleanup st
  | .tags _, st => st
  | .governance g, st => st.releaseLock g.kbId

namespace VectorState

variable (s : VectorState)

def spawn (task : MilvusTask) : VectorState := { s with tasks := s.tasks ++ [task] }

def startEmbed (unitType : UnitType) (unitId kbId : Nat) : VectorState :=
  let chunks := unembedded unitType unitId s.chunks
  if chunks = [] then s else s.spawn (.embed { pending := chunks, kbId := kbId })

def startSummaries (rows : List Chunk) (kbId : Nat) : Option VectorState := do
  let st ← s.toStores.commitChunks rows
  some (VectorState.mk st (s.tasks ++ [.embed { pending := rows, kbId := kbId, created := true }]))

def startReindex (kbId : Nat) : VectorState :=
  let chunks := orderBy Chunk.position (s.chunks.filter fun c => c.knowledgeBaseId = kbId)
  if chunks = [] then s else s.spawn (.reindex { pending := chunks, kbId := kbId })

def startGovernance (kbId : Nat) (batchSize : Option Nat) (redisUp : Bool) : VectorState :=
  let run := MilvusTask.governance { kbId := kbId, batchSize := batchSize }
  if redisUp then
    if kbId ∈ s.locks then s
    else { s.spawn run with locks := s.locks ++ [kbId] }
  else s.spawn run

def advance (k : Nat) : Option VectorState := do
  let task ← s.tasks[k]?
  let next := task.advance s.toStores
  some { toStores := next.1, tasks := replaceTask s.tasks k next.2 }

def fail (k : Nat) : Option VectorState := do
  let task ← s.tasks[k]?
  some { toStores := task.cleanup s.toStores, tasks := s.tasks.eraseIdx k }

def kill (k : Nat) : Option VectorState := do
  let _ ← s.tasks[k]?
  some { s with tasks := s.tasks.eraseIdx k }

end VectorState

def vectorStep (s : VectorState) : VectorAction → Option VectorState
  | .commitChunks rows => (s.toStores.commitChunks rows).map fun st => { s with toStores := st }
  | .editChunk chunkId newContent => some { s with toStores := s.toStores.editChunk chunkId newContent }
  | .deleteChunks ids => some { s with toStores := s.toStores.deleteChunks ids }
  | .deleteVectors kbId ids => some { s with toStores := s.toStores.deleteByIds (.live kbId) ids }
  | .dropCollection name => some { s with toStores := s.toStores.setCollection name none }
  | .startEmbed unitType unitId kbId => some (s.startEmbed unitType unitId kbId)
  | .startSummaries rows kbId => s.startSummaries rows kbId
  | .startReindex kbId => some (s.startReindex kbId)
  | .startTags kbId ids => some (s.spawn (.tags { kbId := kbId, ids := ids }))
  | .startGovernance kbId batchSize redisUp => some (s.startGovernance kbId batchSize redisUp)
  | .expireLock kbId => some { s with toStores := s.toStores.releaseLock kbId }
  | .advance k => s.advance k
  | .fail k => s.fail k
  | .kill k => s.kill k

end OpsKnowledge.Milvus
