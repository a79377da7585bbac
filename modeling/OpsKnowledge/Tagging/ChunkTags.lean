import OpsKnowledge.Knowledge.StoreInvariant
import OpsKnowledge.Knowledge.VectorFreshness

/-!
# Tags of chunks

The tags of an entry and of its extraction are kept a second time in the `chunk_tags` of its chunks
and a third time beside the vectors of these. The requests and tasks that write them interleave
between their database sessions and their Milvus calls; the collection exists. Of an auto tag only
its name is kept.

`edit_chunk`, `split_chunk` and `merge_chunks` are the functions of the chunk service, in a session
that is committed. Their only endpoints ask the rows for a `document_id` that chunks do not have, so
the session of these is rolled back: such a request changes no table, and an embedding that it has
queued may start at any time as it is.
-/

namespace OpsKnowledge.Tagging

open OpsKnowledge.Lib
open OpsKnowledge.Knowledge

/-- A run of `extract_auto_tags`: the auto tags that it has read, and then those that it found. -/
structure Extraction where
  entryId : Nat
  old : List String
  found : Option (List String) := none

/-- The tables and the collection, with the tasks that are queued or running: `refresh_user_tags` by
entry, extractions, embeddings, runs of `update_chunk_tags`, and removals of the vectors of an
entry. -/
structure TagStores where
  tables : Tables
  live : Collection := Store.empty
  refreshes : List Nat := []
  extractions : List Extraction := []
  embeds : List EmbedTask := []
  updates : List TagUpdate := []
  purges : List Nat := []

inductive TagAction where
  | createEntry (kbId : Nat) (title content : String) (tags : List String) (seeds : List ChunkSeed)
  | updateEntry (entryId : Nat) (payload : EntryPayload) (seeds : List ChunkSeed)
  | deleteEntry (entryId : Nat)
  /-- The tag is the one that `normalize_tags` gave. -/
  | acceptAutoTag (entryId : Nat) (tag : String)
  | rejectAutoTag (entryId : Nat) (tag : String)
  | editChunk (chunkId : Nat) (newContent : String)
  | splitChunk (chunkId : Nat) (splitPositions : List Int)
  | mergeChunks (chunkIds : List Nat)
  | deleteChunk (chunkId : Nat)
  | refreshUserTags (k : Nat)
  | startExtract (entryId : Nat)
  | runExtract (k : Nat) (found : List String)
  | finishExtract (k : Nat)
  | failExtract (k : Nat)
  | startEmbed (unitType : UnitType) (unitId : Nat)
  | embedBatch (k : Nat) (threshold : Int)
  | finishEmbed (k : Nat)
  | failEmbed (k : Nat)
  | queryTags (k : Nat)
  | upsertTags (k : Nat)
  | failTags (k : Nat)
  | purge (k : Nat)

/-- The row of `accept_auto_tag`. -/
def acceptedEntry (entry : KnowledgeEntry) (tag : String) : KnowledgeEntry :=
  { entry with
    tags := if tag ∈ entry.tags then entry.tags else entry.tags ++ [tag]
    autoTags := entry.autoTags.filter (· ≠ tag) }

/-- The row of `reject_auto_tag`. -/
def rejectedEntry (entry : KnowledgeEntry) (tag : String) : KnowledgeEntry :=
  { entry with autoTags := entry.autoTags.filter (· ≠ strip tag) }

/-- `old_auto_tag_set != new_auto_tag_set` -/
def Extraction.changed (run : Extraction) (found : List String) : Bool :=
  !(run.old.all (· ∈ found) && found.all (· ∈ run.old))

/-- The ids of the chunks of the entry that have a vector. -/
def embeddedIds (entryId : Nat) (chunks : List Chunk) : List Nat :=
  (chunks.filter fun c => c.inUnit .entry entryId && c.vectorId.isSome).map Chunk.id

namespace TagStores

variable (s : TagStores)

/-- The columns `tags` and `auto_tags` of an entry. -/
def saveTags (entry : KnowledgeEntry) : TagStores :=
  { s with
    tables := { s.tables with
      entries := updateWhere (fun e => e.id = entry.id)
        (fun e => { e with tags := entry.tags, autoTags := entry.autoTags }) s.tables.entries } }

/-- `chunk_tags` of the chunks of an entry, and a run of `update_chunk_tags` where the writer calls
it. -/
def writeChunkTags (entry : KnowledgeEntry) (synced : Bool) : TagStores :=
  let tags := computeChunkTags entry.tags entry.autoTags
  let ids := embeddedIds entry.id s.tables.chunks
  { s with
    tables := { s.tables with
      chunks := updateWhere (Chunk.inUnit .entry entry.id) (fun c => { c with chunkTags := tags })
        s.tables.chunks }
    updates :=
      if synced && !ids.isEmpty then s.updates ++ [{ ids := ids, tags := tags }] else s.updates }

/-! ## Entries -/

def createEntry (kbId : Nat) (title content : String) (tags : List String) (seeds : List ChunkSeed) :
    Option TagStores :=
  (s.tables.createEntry kbId title content tags seeds).map fun tables => { s with tables := tables }

/-- New chunks replace the vectors of the old ones; other tags without new chunks are left to
`refresh_user_tags`. -/
def updateEntry (entryId : Nat) (payload : EntryPayload) (seeds : List ChunkSeed) :
    Option TagStores :=
  (s.tables.getEntry entryId).bind fun entry =>
    (s.tables.updateEntry entryId payload seeds).map fun tables =>
      if (s.tables.saveEntry entry payload).unitRows .entry entryId = 0 then
        { s with tables := tables, purges := s.purges ++ [entryId] }
      else if entry.tags ≠ payload.tags.getD entry.tags then
        { s with tables := tables, refreshes := s.refreshes ++ [entryId] }
      else { s with tables := tables }

def deleteEntry (entryId : Nat) : Option TagStores :=
  (s.tables.getEntry entryId).map fun _ =>
    { s with
      tables := s.tables.cascadeDeleteUnit .entry entryId
      purges := s.purges ++ [entryId] }

def acceptAutoTag (entryId : Nat) (tag : String) : Option TagStores :=
  (s.tables.getEntry entryId).map fun entry =>
    (s.saveTags (acceptedEntry entry tag)).writeChunkTags (acceptedEntry entry tag) false

def rejectAutoTag (entryId : Nat) (tag : String) : Option TagStores :=
  (s.tables.getEntry entryId).map fun entry =>
    (s.saveTags (rejectedEntry entry tag)).writeChunkTags (rejectedEntry entry tag) false

/-! ## Chunks -/

/-- A commit of the chunk service. -/
def withTables (tables : Option Tables) : Option TagStores :=
  tables.map fun tables => { s with tables := tables }

/-- Where the chunk has a vector, that goes too. -/
def deleteChunk (chunkId : Nat) : Option TagStores :=
  (s.tables.deleteChunk chunkId).map fun tables =>
    let embedded := s.tables.chunks.filter fun c => c.id = chunkId && c.vectorId.isSome
    { s with tables := tables, live := s.live.deleteIds (embedded.map Chunk.id) }

/-! ## Tag tasks -/

/-- A refresh of an entry that is gone does nothing. -/
def refreshUserTags (k : Nat) : Option TagStores :=
  s.refreshes[k]?.map fun entryId =>
    let left := { s with refreshes := s.refreshes.eraseIdx k }
    match s.tables.getEntry entryId with
    | none => left
    | some entry => left.writeChunkTags entry true

def startExtract (entryId : Nat) : Option TagStores :=
  (s.tables.getEntry entryId).map fun entry =>
    { s with extractions := s.extractions ++ [{ entryId := entryId, old := entry.autoTags }] }

/-- `_run_extract` -/
def runExtract (k : Nat) (found : List String) : Option TagStores :=
  s.extractions[k]?.bind fun run =>
    if run.found.isSome then none
    else some { s with extractions := s.extractions.set k { run with found := some found } }

def finishExtract (k : Nat) : Option TagStores :=
  s.extractions[k]?.bind fun run =>
    run.found.map fun found =>
      let left := { s with extractions := s.extractions.eraseIdx k }
      match s.tables.getEntry run.entryId with
      | none => left
      | some entry =>
          (left.saveTags { entry with autoTags := found }).writeChunkTags
            { entry with autoTags := found } (run.changed found)

def failExtract (k : Nat) : TagStores := { s with extractions := s.extractions.eraseIdx k }

/-! ## Vectors -/

def startEmbed (unitType : UnitType) (unitId : Nat) : TagStores :=
  let found := unembedded unitType unitId s.tables.chunks
  if found.isEmpty then s
  else { s with embeds := s.embeds ++ [{ pending := found, unitType := unitType, unitId := unitId }] }

def embedBatch (k : Nat) (threshold : Int) : Option TagStores :=
  s.embeds[k]?.bind fun task =>
    if task.pending.isEmpty then none
    else some { s with
      live := storeBatch threshold (task.pending.take batchSize) s.live
      embeds := s.embeds.set k task.next }

def finishEmbed (k : Nat) : Option TagStores :=
  s.embeds[k]?.bind fun task =>
    if task.pending.isEmpty then
      some { s with
        tables := { s.tables with chunks := setVectorIds task.stored s.tables.chunks }
        embeds := s.embeds.eraseIdx k }
    else none

def failEmbed (k : Nat) : TagStores := { s with embeds := s.embeds.eraseIdx k }

def queryTags (k : Nat) : Option TagStores :=
  s.updates[k]?.bind fun u =>
    if u.rows.isSome then none
    else some { s with updates := s.updates.set k { u with rows := some (u.found s.live) } }

def upsertTags (k : Nat) : Option TagStores :=
  s.updates[k]?.bind fun u =>
    u.rows.map fun rows =>
      { s with live := s.live.upsert (u.retagged rows), updates := s.updates.eraseIdx k }

/-- A Milvus call that fails is only logged. -/
def failTags (k : Nat) : TagStores := { s with updates := s.updates.eraseIdx k }

/-- `_purge_milvus_for_entries` -/
def purge (k : Nat) : Option TagStores :=
  s.purges[k]?.map fun entryId =>
    { s with
      live := s.live.deleteWhere fun row => row.documentId = entryId
      purges := s.purges.eraseIdx k }

def step (s : TagStores) : TagAction → Option TagStores
  | .createEntry kbId title content tags seeds => s.createEntry kbId title content tags seeds
  | .updateEntry entryId payload seeds => s.updateEntry entryId payload seeds
  | .deleteEntry entryId => s.deleteEntry entryId
  | .acceptAutoTag entryId tag => s.acceptAutoTag entryId tag
  | .rejectAutoTag entryId tag => s.rejectAutoTag entryId tag
  | .editChunk chunkId newContent => s.withTables (s.tables.editChunk chunkId newContent)
  | .splitChunk chunkId splitPositions => s.withTables (s.tables.splitChunk chunkId splitPositions)
  | .mergeChunks chunkIds => s.withTables (s.tables.mergeChunks chunkIds)
  | .deleteChunk chunkId => s.deleteChunk chunkId
  | .refreshUserTags k => s.refreshUserTags k
  | .startExtract entryId => s.startExtract entryId
  | .runExtract k found => s.runExtract k found
  | .finishExtract k => s.finishExtract k
  | .failExtract k => some (s.failExtract k)
  | .startEmbed unitType unitId => some (s.startEmbed unitType unitId)
  | .embedBatch k threshold => s.embedBatch k threshold
  | .finishEmbed k => s.finishEmbed k
  | .failEmbed k => some (s.failEmbed k)
  | .queryTags k => s.queryTags k
  | .upsertTags k => s.upsertTags k
  | .failTags k => some (s.failTags k)
  | .purge k => s.purge k

end TagStores

/-! ## The property and the condition -/

/-- The user tags and the auto tags of a unit; documents have none. -/
def unitTags (t : Tables) : UnitType → Nat → List String
  | .document, _ => []
  | .entry, unitId => (t.getEntry unitId).elim [] fun e => e.tags ++ e.autoTags

namespace TagStores

/-- Every task has finished. -/
structure Idle (s : TagStores) : Prop where
  refreshes : s.refreshes = []
  extractions : s.extractions = []
  embeds : s.embeds = []
  updates : s.updates = []
  purges : s.purges = []

/-- A chunk has the tags of its unit, each once, and its vector has them too. -/
structure Agrees (s : TagStores) (c : Chunk) : Prop where
  nodup : c.chunkTags.Nodup
  mem_iff : ∀ tag, tag ∈ c.chunkTags ↔ tag ∈ unitTags s.tables c.unitType c.unitId
  vector : c.vectorId ≠ none → ∀ row, s.live c.id = some row → row.chunkTags = c.chunkTags

def AgreesWhenIdle (s : TagStores) : Prop := s.Idle → ∀ c ∈ s.tables.chunks, s.Agrees c

/-- Tags that fit into the column and into the array of the collection. -/
structure Fits (tags autoTags : List String) : Prop where
  names : ∀ tag ∈ tags ++ autoTags, tag ≠ "" ∧ tag.length ≤ 64
  few : (tags ++ autoTags).eraseDups.length ≤ 20

/-- Some embedding has read the chunk. -/
def Read (s : TagStores) (i : Nat) : Prop :=
  ∃ task ∈ s.embeds, ∃ d ∈ task.pending ++ task.stored, d.id = i

/-- The update will find the row, or has found it. -/
def Reaches (u : TagUpdate) (i : Nat) : Prop :=
  i ∈ u.ids ∧ ∀ rows, u.rows = some rows → ∃ row, (i, row) ∈ rows

/-- One of the updates brings the tags of the chunk. -/
def Brings (updates : List TagUpdate) (c : Chunk) : Prop :=
  ∃ u ∈ updates, Reaches u c.id ∧ storedTags u.tags = c.chunkTags

/-- The tags of the entry fit. A chunk whose tags they change is read by no embedding, and has no vector
unless an update follows. -/
def WriteKeeps (s : TagStores) (entry : KnowledgeEntry) (synced : Bool) : Prop :=
  Fits entry.tags entry.autoTags ∧
    ∀ c ∈ s.tables.chunks, c.inUnit .entry entry.id = true →
      c.chunkTags = computeChunkTags entry.tags entry.autoTags ∨
        ¬ s.Read c.id ∧ (c.vectorId = none ∨ synced = true)

/-- A new chunk without tags: the unit has none, or a refresh of it is queued. -/
def Untagged (s : TagStores) (c : Chunk) : Prop :=
  unitTags s.tables c.unitType c.unitId = [] ∨ c.unitType = .entry ∧ c.unitId ∈ s.refreshes

/-- Tags fit, an edit of them reaches the vectors of all chunks that it changes, chunks whose split or
merge is committed have no tags to lose, and what an update writes or fails to write is what the
chunks have, or is written by another one. -/
def KeepsTags (s : TagStores) : TagAction → Prop
  | .createEntry _ _ _ tags _ => Fits tags []
  | .updateEntry entryId payload _ => ∀ entry, s.tables.getEntry entryId = some entry →
      Fits (payload.tags.getD entry.tags) entry.autoTags
  | .acceptAutoTag entryId tag => ∀ entry, s.tables.getEntry entryId = some entry →
      s.WriteKeeps (acceptedEntry entry tag) false
  | .rejectAutoTag entryId tag => ∀ entry, s.tables.getEntry entryId = some entry →
      s.WriteKeeps (rejectedEntry entry tag) false
  | .splitChunk chunkId _ => ∀ c ∈ s.tables.chunks, c.id = chunkId → s.Untagged c
  | .mergeChunks chunkIds => ∀ c ∈ s.tables.chunks, c.id ∈ chunkIds → s.Untagged c
  | .refreshUserTags k => ∀ entryId, s.refreshes[k]? = some entryId →
      ∀ entry, s.tables.getEntry entryId = some entry → s.WriteKeeps entry true
  | .finishExtract k => ∀ run, s.extractions[k]? = some run → ∀ found, run.found = some found →
      ∀ entry, s.tables.getEntry run.entryId = some entry →
        s.WriteKeeps { entry with autoTags := found } (run.changed found)
  | .upsertTags k => ∀ u, s.updates[k]? = some u → ∀ rows, u.rows = some rows →
      ∀ c ∈ s.tables.chunks, (∃ row, (c.id, row) ∈ rows) →
        storedTags u.tags = c.chunkTags ∨ Brings (s.updates.eraseIdx k) c
  | .failTags k => ∀ u, s.updates[k]? = some u → ∀ c ∈ s.tables.chunks, c.id ∈ u.ids →
      (∀ row, s.live c.id = some row → row.chunkTags = c.chunkTags) ∨ Brings (s.updates.eraseIdx k) c
  | .deleteEntry _ | .editChunk _ _ | .deleteChunk _ | .startExtract _ | .runExtract _ _
  | .failExtract _ | .startEmbed _ _ | .embedBatch _ _ | .finishEmbed _ | .failEmbed _ | .queryTags _
  | .purge _ => True

end TagStores

end OpsKnowledge.Tagging
