import OpsKnowledge.Knowledge.Vectors
import OpsKnowledge.Review.Endpoints

/-!
# The endpoints of units and chunks

The requests of `document_router.py`, `entry_router.py` and `chunk_router.py` in
`app/knowledge` on units and chunks that are there. Bodies have passed their schemas. What
a request has not committed when it fails is rolled back; what it did to the vector store
and what it handed to the workers is not.
-/

namespace OpsKnowledge.Units

open OpsKnowledge.Lib
open Knowledge (Exn Tables Document KnowledgeEntry Chunk UnitType Collection EntryPayload ChunkSeed
  getChunk)
open Review (HttpError Organisation User requireKbAccess)

/-- The title of a document and the object at its `file_path`. -/
structure DocumentFile where
  title : String
  content : Option (List UInt8)

/-- `status` of a base is `DELETING`; it has an embedding model. -/
structure KbColumns where
  deleting : Bool := false
  hasEmbedding : Bool := true

/-- The database, the objects and the vectors. `collections` has those of the bases that have one. -/
structure Site where
  tables : Tables
  kbColumns : Nat → KbColumns := fun _ => {}
  files : Nat → DocumentFile := fun _ => { title := "", content := none }
  collections : Nat → Option Collection := fun _ => none

inductive Task where
  | processDocument (docId : Nat)
  | embedUnitChunks (unitType : UnitType) (unitId kbId : Nat)
  | refreshUserTags (entryId : Nat)
  deriving DecidableEq, Repr

/-- What fails outside of the database. The purge of vectors fails after the given number of its
deletions has taken effect. -/
structure Faults where
  milvus : Option Nat := none
  message : String := ""
  minio : Nat → Bool := fun _ => false

inductive Body where
  | noContent
  | document (doc : Document) (title : String)
  | file (title : String) (content : List UInt8)
  | preview (content : List UInt8)
  | archived (docId : Nat) (isArchived : Bool)
  | dispatched (n : Nat)
  | entry (entry : KnowledgeEntry)
  | completed (n : Nat)
  | page (total : Nat)
  | segments (items : List (String × Nat))

structure Outcome where
  reply : Except HttpError Body
  site : Site
  tasks : List Task := []

/-! ## Errors -/

def notFoundError (resource : String) (id : Nat) : HttpError :=
  ⟨404, resource ++ " with id '" ++ toString id ++ "' not found"⟩

def validationError (message : String) : HttpError := ⟨422, message⟩

/-- A response that does not fit its model, or another exception. -/
def internalError : HttpError := ⟨500, "Internal Server Error"⟩

def httpError : Exn → HttpError
  | .notFound resource id => notFoundError resource id
  | .validation message => validationError message
  | .forbidden message => ⟨403, message⟩

/-- The rows of a service call, or its exception as a response. -/
def orHttp {α : Type} : Except Exn α → Except HttpError α
  | .ok a => .ok a
  | .error e => .error (httpError e)

/-- `unavailable` of the purge in a document request. -/
def documentsUnavailable (faults : Faults) : HttpError :=
  ⟨503, "向量库暂时不可用，重试 3 次后失败；请稍后再试。 " ++ Knowledge.slice faults.message 0 200⟩

def entriesUnavailable (faults : Faults) : HttpError :=
  ⟨503, "向量库（Milvus）暂时不可用，已重试 3 次仍失败；为避免产生不一致数据，本次更新已阻止。请稍后重试。 错误: " ++
    Knowledge.slice faults.message 0 200⟩

/-! ## The purge of vectors -/

/-- `delete_by_filter` for each of the units. -/
def deleteVectors (unitIds : List Nat) (collection : Collection) : Collection :=
  collection.deleteWhere fun row => row.documentId ∈ unitIds

/-- The deletions that a purge makes: none without a collection. -/
def purgeTargets (collection : Option Collection) (unitIds : List Nat) : List Nat :=
  if collection.isSome then unitIds else []

/-- The purge fails at a deletion, or before or after all of them. -/
def purgeFails (collection : Option Collection) (unitIds : List Nat) (failure : Option Nat) : Bool :=
  failure.any fun n => n ≤ (purgeTargets collection unitIds).length

/-- What has been deleted when the purge ends or fails. -/
def purged (unitIds : List Nat) (failure : Option Nat) (collection : Collection) : Collection :=
  deleteVectors (unitIds.take (failure.getD unitIds.length)) collection

namespace Site

variable (site : Site)

/-- A purge of vectors in the collection of a base. -/
def purge (kbId : Nat) (unitIds : List Nat) (failure : Option Nat) : Site :=
  { site with
    collections := Function.update site.collections kbId
      ((site.collections kbId).map (purged unitIds failure)) }

/-- A failed check ends the request where it began. -/
def after {α : Type} (checks : Except HttpError α) (act : α → Outcome) : Outcome :=
  match checks with
  | .error e => ⟨.error e, site, []⟩
  | .ok a => act a

/-- A request that changes nothing. -/
def answer (reply : Except HttpError Body) : Outcome := ⟨reply, site, []⟩

/-- The rest of a request whose purge is made before its commit. -/
def purgeThen (kbId : Nat) (unitIds : List Nat) (faults : Faults) (commit : Site → Site) : Outcome :=
  let purged := site.purge kbId unitIds faults.milvus
  if purgeFails (site.collections kbId) unitIds faults.milvus then
    ⟨.error (documentsUnavailable faults), purged, []⟩
  else ⟨.ok .noContent, commit purged, []⟩

/-- The rest of a request that has committed and purges then. -/
def thenPurge (kbId : Nat) (unitIds : List Nat) (faults : Faults) (body : Body) (tasks : List Task) :
    Outcome :=
  let purged := site.purge kbId unitIds faults.milvus
  if purgeFails (site.collections kbId) unitIds faults.milvus then
    ⟨.error (entriesUnavailable faults), purged, []⟩
  else ⟨.ok body, purged, tasks⟩

end Site

section Requests

variable (org : Organisation) (user : User) (kbId : Nat) (site : Site)

/-! ## Documents -/

/-- `get_kb` and `check_resource_access` -/
def requireKb (requiredLevel : String) : Except HttpError Unit := do
  raiseIf ((site.tables.getKb kbId).isNone ∨ (site.kbColumns kbId).deleting = true)
    (notFoundError "KnowledgeBase" kbId)
  requireKbAccess org user kbId requiredLevel

/-- A document, whatever its base. -/
def findDocument (docId : Nat) : Except HttpError Document :=
  orRaise (site.tables.getDocument docId) (notFoundError "Document" docId)

/-- `doc is None or doc.knowledge_base_id != kb_id` -/
def ownDocument (docId : Nat) (e : HttpError) : Except HttpError Document :=
  orRaise ((site.tables.getDocument docId).filter fun d => d.knowledgeBaseId = kbId) e

def getDocument (docId : Nat) : Outcome :=
  site.answer do
    requireKb org user kbId site "view"
    let doc ← findDocument site docId
    return .document doc (site.files docId).title

/-- The title goes into a header, which is encoded in Latin-1. -/
def downloadDocument (docId : Nat) : Outcome :=
  site.answer do
    requireKb org user kbId site "view"
    let _ ← findDocument site docId
    let content ← orRaise (site.files docId).content internalError
    raiseIf ((site.files docId).title.toList.any fun c => 256 ≤ c.toNat) internalError
    return .file (site.files docId).title content

/-- `PREVIEW_EXTENSIONS` -/
def previewExtensions : List String := [".md", ".markdown", ".txt", ".csv"]

/-- `special` is the case mapping of characters outside of ASCII. The response has the content
decoded. -/
def previewDocument (special : String → Nat → List Char) (docId : Nat) : Outcome :=
  site.answer do
    requireKb org user kbId site "view"
    let _ ← findDocument site docId
    let ext := extension (lower special (site.files docId).title)
    raiseIf (ext ∉ previewExtensions)
      (validationError ("Preview not supported for '" ++ ext ++ "' files"))
    let content ← orRaise (site.files docId).content internalError
    return .preview content

def archiveDocument (docId : Nat) (archive : Bool) : Outcome :=
  site.after (do
    requireKb org user kbId site "edit"
    ownDocument kbId site docId (notFoundError "Document" docId))
    fun _ =>
      ⟨.ok (.archived docId archive),
        { site with
          tables := site.tables.updateDocument docId fun d => { d with isArchived := archive } }, []⟩

def batchReprocessDocuments (ids : List Nat) : Outcome :=
  site.after (do
    requireKb org user kbId site "edit"
    raiseIf (ids = []) (validationError "No document IDs provided"))
    fun _ => ⟨.ok (.dispatched ids.length), site, ids.map .processDocument⟩

/-- The chunks and the rows of documents, and their objects as far as these can be deleted. -/
def dropDocuments (docIds : List Nat) (minio : Nat → Bool) : Site :=
  let tables := site.tables.removeChunks fun c => c.unitType = .document ∧ c.unitId ∈ docIds
  { site with
    tables := { tables with documents := tables.documents.filter fun d => d.id ∉ docIds }
    files := fun docId =>
      if docId ∈ docIds ∧ minio docId = false then { site.files docId with content := none }
      else site.files docId }

/-- The documents of the base among those named, in the order of the query. -/
def selectDocuments (ids : List Nat) : List Document :=
  site.tables.documents.filter fun d => d.id ∈ ids ∧ d.knowledgeBaseId = kbId

def batchDeleteDocuments (ids : List Nat) (faults : Faults) : Outcome :=
  let docIds := (selectDocuments kbId site ids).map Document.id
  site.after (do
    requireKb org user kbId site "edit"
    raiseIf (ids = []) (validationError "No document IDs provided")
    raiseIf (docIds = []) (validationError "No matching documents found"))
    fun _ => site.purgeThen kbId docIds faults fun site => dropDocuments site docIds faults.minio

def batchMoveDocuments (ids : List Nat) (targetFolderId : Option Nat) : Outcome :=
  site.after (do
    requireKb org user kbId site "edit"
    raiseIf (ids = []) (validationError "No document IDs provided"))
    fun _ =>
      ⟨.ok .noContent,
        { site with
          tables := { site.tables with
            documents := updateWhere (fun d => d.id ∈ ids ∧ d.knowledgeBaseId = kbId)
              (fun d => { d with folderId := targetFolderId }) site.tables.documents } }, []⟩

def deleteDocument (docId : Nat) (faults : Faults) : Outcome :=
  site.after (do
    requireKb org user kbId site "edit"
    ownDocument kbId site docId (validationError "Document not found"))
    fun _ => site.purgeThen kbId [docId] faults fun site => dropDocuments site [docId] faults.minio

def reprocessDocument (docId : Nat) : Outcome :=
  site.after (do
    requireKb org user kbId site "edit"
    ownDocument kbId site docId (validationError "Document not found"))
    fun _ => ⟨.ok (.dispatched 1), site, [.processDocument docId]⟩

/-! ## Entries -/

def requireEntryKb (requiredLevel : String) : Except HttpError Unit := do
  raiseIf (site.tables.getKb kbId).isNone ⟨404, "Knowledge base not found"⟩
  requireKbAccess org user kbId requiredLevel

def ownEntry (entryId : Nat) : Except HttpError KnowledgeEntry :=
  orRaise ((site.tables.getEntry entryId).filter fun e => e.knowledgeBaseId = kbId)
    ⟨404, "Entry not found"⟩

def getEntry (entryId : Nat) : Outcome :=
  site.answer do
    requireEntryKb org user kbId site "view"
    let entry ← ownEntry kbId site entryId
    return .entry entry

/-- The entry has no chunks once it is saved. -/
def rechunks (entry : KnowledgeEntry) (payload : EntryPayload) : Bool :=
  (site.tables.saveEntry entry payload).unitRows .entry entry.id = 0

/-- `_require_embedding_config` -/
def requireEmbeddingConfig : Except HttpError Unit :=
  raiseIf ((site.kbColumns kbId).hasEmbedding = false)
    ⟨400, "该知识库尚未配置 Embedding 模型；请先在「知识库配置 → Embedding」中选择一个模型，再添加 / 修改条目。"⟩

/-- The checks of an update, which find the entry. -/
def checkUpdate (entryId : Nat) (payload : EntryPayload) : Except HttpError KnowledgeEntry := do
  requireEntryKb org user kbId site "edit"
  let entry ← ownEntry kbId site entryId
  if rechunks site entry payload then
    requireEmbeddingConfig kbId site
  return entry

/-- The tags of the payload are normalized, and the seeds are those of the saved entry. -/
def updateEntry (entryId : Nat) (payload : EntryPayload) (seeds : List ChunkSeed) (faults : Faults) :
    Outcome :=
  site.after (checkUpdate org user kbId site entryId payload)
    fun entry =>
      let updated := Knowledge.updatedEntry entry payload
        (site.tables.reviewRequired entry.knowledgeBaseId)
      let saved := site.tables.saveEntry entry payload
      if rechunks site entry payload then
        { site with tables := saved.createChunksForEntry updated seeds }.thenPurge kbId [entryId] faults
          (.entry updated) [.embedUnitChunks .entry entryId kbId]
      else if payload.tagsChanged entry then
        ⟨.ok (.entry updated), { site with tables := saved }, [.refreshUserTags entryId]⟩
      else ⟨.ok (.entry updated), { site with tables := saved }, []⟩

def checkBatch (ids : List Nat) : Except HttpError Unit := do
  raiseIf (ids = []) ⟨400, "ids list required"⟩
  raiseIf (100 < ids.length) ⟨400, "max 100 ids per batch"⟩

/-- The chunks of the entries named, and the rows of those in the base. -/
def dropEntries (ids : List Nat) : Tables :=
  let tables := site.tables.removeChunks fun c => c.unitType = .entry ∧ c.unitId ∈ ids
  { tables with entries := tables.entries.filter fun e => ¬ (e.knowledgeBaseId = kbId ∧ e.id ∈ ids) }

def batchDeleteEntries (ids : List Nat) (faults : Faults) : Outcome :=
  site.after (do
    requireEntryKb org user kbId site "edit"
    checkBatch ids)
    fun _ =>
      { site with tables := dropEntries kbId site ids }.thenPurge kbId ids faults
        (.completed ids.length) []

def batchArchiveEntries (ids : List Nat) : Outcome :=
  site.after (do
    requireEntryKb org user kbId site "edit"
    checkBatch ids)
    fun _ =>
      ⟨.ok (.completed ids.length),
        { site with
          tables := { site.tables with
            entries := updateWhere (fun e => e.knowledgeBaseId = kbId ∧ e.id ∈ ids)
              (fun e => { e with isArchived := true }) site.tables.entries } }, []⟩

def deleteEntry (entryId : Nat) (faults : Faults) : Outcome :=
  site.after (do
    requireEntryKb org user kbId site "edit"
    ownEntry kbId site entryId)
    fun _ =>
      { site with tables := site.tables.cascadeDeleteUnit .entry entryId }.thenPurge kbId [entryId] faults
        .noContent []

/-! ## Chunks -/

/-- A chunk, whatever its base. -/
def findChunk (chunkId : Nat) : Except HttpError Chunk :=
  orHttp (getChunk site.tables.chunks chunkId)

/-- `ChunkResponse` requires a `document_id`, a column that chunks no longer have: the response
fails, and with it the request. -/
def chunkResponse : Except HttpError Body := .error internalError

def listChunks (documentId : Option Nat) (offset limit : Nat) : Outcome :=
  site.answer do
    requireKb org user kbId site "view"
    let rows := site.tables.chunks.filter fun c =>
      c.knowledgeBaseId = kbId ∧ documentId.all fun docId => c.inUnit .document docId
    if ((orderBy Chunk.position rows).drop offset).take limit = [] then
      return .page rows.length
    chunkResponse

def getChunkById (chunkId : Nat) : Outcome :=
  site.answer do
    requireKb org user kbId site "view"
    let _ ← findChunk site chunkId
    chunkResponse

/-- The task is on its way when the response fails and the edit is rolled back. -/
def editChunk (chunkId : Nat) : Outcome :=
  site.after (do
    requireKb org user kbId site "edit"
    findChunk site chunkId)
    fun chunk => ⟨chunkResponse, site, [.embedUnitChunks chunk.unitType chunk.unitId kbId]⟩

def splitChunkPreview (chunkId : Nat) (splitPositions : List Int) : Outcome :=
  site.answer do
    requireKb org user kbId site "view"
    let chunk ← findChunk site chunkId
    let rows ← orHttp (Knowledge.splitRows chunk splitPositions site.tables.next)
    return .segments (rows.map fun r => (r.content, r.tokenCount))

/-- The handler reads `document_id` of the new rows, which raises. -/
def splitChunk (chunkId : Nat) (splitPositions : List Int) : Outcome :=
  site.answer do
    requireKb org user kbId site "edit"
    let chunk ← findChunk site chunkId
    let _ ← orHttp (Knowledge.splitRows chunk splitPositions site.tables.next)
    throw internalError

/-- The handler reads `document_id` of the new row, which raises. -/
def mergeChunks (chunkIds : List Nat) : Outcome :=
  site.answer do
    requireKb org user kbId site "edit"
    let _ ← orHttp (Knowledge.mergeSources site.tables.chunks chunkIds)
    throw internalError

/-- The vector is deleted from the collection of the chunk's own base, as far as that succeeds. -/
def deleteChunk (chunkId : Nat) (faults : Faults) : Outcome :=
  site.after (do
    requireKb org user kbId site "edit"
    findChunk site chunkId)
    fun chunk =>
      let collections := match chunk.vectorId, faults.milvus with
        | some vectorId, none => Function.update site.collections chunk.knowledgeBaseId
            ((site.collections chunk.knowledgeBaseId).map fun rows => rows.deleteIds [vectorId])
        | _, _ => site.collections
      ⟨.ok .noContent,
        { site with
          tables := site.tables.removeChunks fun c => c.id = chunkId
          collections := collections }, []⟩

def annotateChunk (chunkId : Nat) : Outcome :=
  site.answer do
    requireKb org user kbId site "edit"
    let _ ← findChunk site chunkId
    chunkResponse

end Requests

/-! ## Checks -/

section Checks

variable {org : Organisation} {user : User} {kbId : Nat} {site : Site} {docId entryId : Nat}

theorem ownDocument_eq_ok {doc : Document} {e : HttpError} : ownDocument kbId site docId e = .ok doc ↔
    site.tables.getDocument docId = some doc ∧ doc.knowledgeBaseId = kbId := by
  unfold ownDocument
  rw [orRaise_eq_ok, Option.filter_eq_some_iff]
  simp

theorem ownEntry_eq_ok {entry : KnowledgeEntry} :
    ownEntry kbId site entryId = .ok entry ↔
      site.tables.getEntry entryId = some entry ∧ entry.knowledgeBaseId = kbId := by
  unfold ownEntry
  rw [orRaise_eq_ok, Option.filter_eq_some_iff]
  simp

theorem unitRows_removeChunks (t : Tables) (unitType : UnitType) (unitId : Nat) :
    (t.removeChunks (Chunk.inUnit unitType unitId)).unitRows unitType unitId = 0 := by
  unfold Tables.unitRows
  rw [List.countP_eq_zero]
  intro c hc
  obtain ⟨d, -, hout, gone, rfl⟩ := Knowledge.mem_deleteChunks hc
  simp [hout]

/-- The saved entry has no chunks where the content changes or where it had none. -/
theorem rechunks_eq (entry : KnowledgeEntry) (payload : EntryPayload) : rechunks site entry payload =
    (payload.contentChanged entry || site.tables.unitRows .entry entry.id = 0) := by
  unfold rechunks Tables.saveEntry
  cases hchanged : payload.contentChanged entry with
  | false => rfl
  | true =>
      rw [if_pos rfl, unitRows_removeChunks]
      rfl

theorem checkUpdate_eq_ok {payload : EntryPayload} {entry : KnowledgeEntry} :
    checkUpdate org user kbId site entryId payload = .ok entry ↔
      requireEntryKb org user kbId site "edit" = .ok () ∧ site.tables.getEntry entryId = some entry ∧
        entry.knowledgeBaseId = kbId ∧
          (rechunks site entry payload = true → (site.kbColumns kbId).hasEmbedding = true) := by
  have hrest : ∀ e, (if rechunks site e payload then do
      requireEmbeddingConfig kbId site
      return e
    else return e : Except HttpError KnowledgeEntry) = .ok entry ↔
      e = entry ∧ (rechunks site entry payload = true → (site.kbColumns kbId).hasEmbedding = true) := by
    intro e
    unfold requireEmbeddingConfig
    split
    · next h =>
        rw [raiseIf_bind_eq_ok, pure_eq_ok]
        constructor
        · rintro ⟨hembedding, rfl⟩
          exact ⟨rfl, fun _ => by simpa using hembedding⟩
        · rintro ⟨rfl, hembedding⟩
          exact ⟨by simpa using hembedding h, rfl⟩
    · next h =>
        rw [pure_eq_ok]
        constructor
        · rintro rfl
          exact ⟨rfl, fun hre => absurd hre h⟩
        · exact fun hboth => hboth.1
  unfold checkUpdate
  rw [check_bind_eq_ok, bind_eq_ok]
  constructor
  · rintro ⟨hadmitted, e, he, h⟩
    obtain ⟨rfl, hembedding⟩ := (hrest e).1 h
    obtain ⟨hentry, hhome⟩ := ownEntry_eq_ok.1 he
    exact ⟨hadmitted, hentry, hhome, hembedding⟩
  · rintro ⟨hadmitted, hentry, hhome, hembedding⟩
    exact ⟨hadmitted, entry, ownEntry_eq_ok.2 ⟨hentry, hhome⟩, (hrest entry).2 ⟨rfl, hembedding⟩⟩

end Checks

/-! ## Requests -/

inductive UnitCall where
  | getDocument (docId : Nat)
  | downloadDocument (docId : Nat)
  | previewDocument (docId : Nat)
  | archiveDocument (docId : Nat) (archive : Bool)
  | batchReprocessDocuments (ids : List Nat)
  | batchDeleteDocuments (ids : List Nat)
  | batchMoveDocuments (ids : List Nat) (targetFolderId : Option Nat)
  | deleteDocument (docId : Nat)
  | reprocessDocument (docId : Nat)
  | getEntry (entryId : Nat)
  | updateEntry (entryId : Nat) (payload : EntryPayload) (seeds : List ChunkSeed)
  | batchDeleteEntries (ids : List Nat)
  | batchArchiveEntries (ids : List Nat)
  | deleteEntry (entryId : Nat)
  | listChunks (documentId : Option Nat) (offset limit : Nat)
  | getChunk (chunkId : Nat)
  | editChunk (chunkId : Nat) (content : String)
  | splitChunkPreview (chunkId : Nat) (splitPositions : List Int)
  | splitChunk (chunkId : Nat) (splitPositions : List Int)
  | mergeChunks (chunkIds : List Nat)
  | deleteChunk (chunkId : Nat)
  | annotateChunk (chunkId : Nat) (tags : Option (List String)) (notes : Option String)

def respond (special : String → Nat → List Char) (org : Organisation) (user : User) (kbId : Nat)
    (faults : Faults) (site : Site) : UnitCall → Outcome
  | .getDocument docId => getDocument org user kbId site docId
  | .downloadDocument docId => downloadDocument org user kbId site docId
  | .previewDocument docId => previewDocument org user kbId site special docId
  | .archiveDocument docId archive => archiveDocument org user kbId site docId archive
  | .batchReprocessDocuments ids => batchReprocessDocuments org user kbId site ids
  | .batchDeleteDocuments ids => batchDeleteDocuments org user kbId site ids faults
  | .batchMoveDocuments ids target => batchMoveDocuments org user kbId site ids target
  | .deleteDocument docId => deleteDocument org user kbId site docId faults
  | .reprocessDocument docId => reprocessDocument org user kbId site docId
  | .getEntry entryId => getEntry org user kbId site entryId
  | .updateEntry entryId payload seeds => updateEntry org user kbId site entryId payload seeds faults
  | .batchDeleteEntries ids => batchDeleteEntries org user kbId site ids faults
  | .batchArchiveEntries ids => batchArchiveEntries org user kbId site ids
  | .deleteEntry entryId => deleteEntry org user kbId site entryId faults
  | .listChunks documentId offset limit => listChunks org user kbId site documentId offset limit
  | .getChunk chunkId => getChunkById org user kbId site chunkId
  | .editChunk chunkId _ => editChunk org user kbId site chunkId
  | .splitChunkPreview chunkId positions => splitChunkPreview org user kbId site chunkId positions
  | .splitChunk chunkId positions => splitChunk org user kbId site chunkId positions
  | .mergeChunks chunkIds => mergeChunks org user kbId site chunkIds
  | .deleteChunk chunkId => deleteChunk org user kbId site chunkId faults
  | .annotateChunk chunkId _ _ => annotateChunk org user kbId site chunkId

end OpsKnowledge.Units
