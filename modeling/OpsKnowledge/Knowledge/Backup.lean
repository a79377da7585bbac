import Mathlib.Algebra.Order.Field.Rat
import OpsKnowledge.Knowledge.Folders
import OpsKnowledge.Knowledge.Models
import OpsKnowledge.Lib.Renumber

/-!
# Export and import

`ExportService`: a base is written to an archive and read back as a new base. The archive is its parsed
content, with the entries of the zip under the ids of their documents.
-/

namespace OpsKnowledge.Knowledge

open OpsKnowledge.Lib
open Workflow (Json)

/-- `file` is the object at `file_path`, if it can be read. -/
structure BackupDocument where
  id : Nat
  title : String
  sourceType : String
  folderId : Option Nat := none
  fileSize : Nat := 0
  fileHash : String := ""
  chunkCount : Nat := 0
  tokenCount : Nat := 0
  isArchived : Bool := false
  file : Option (List UInt8) := none

structure BackupChunk extends Chunk where
  qualityScore : Option ℚ := none

/-- `config.json` -/
structure OkaConfig where
  name : String
  description : Option String := none
  embeddingModelName : Option String := none
  chunkingConfig : Option Json := none
  retrievalConfig : Option Json := none

/-- A base with its rows. -/
structure BackupBase where
  id : Nat
  config : OkaConfig
  sourceType : String := "file"
  documentCount : Nat := 0
  chunkCount : Nat := 0
  createdBy : Nat
  folders : List Folder := []
  documents : List BackupDocument := []
  entries : List KnowledgeEntry := []
  chunks : List BackupChunk := []

structure OkaFolder where
  id : Nat
  name : String
  parentFolderId : Option Nat
  position : Int

/-- `meta.json` and the file of a document. -/
structure OkaDocument where
  id : Nat
  title : String
  sourceType : String
  folderId : Option Nat
  fileSize : Nat
  fileHash : String
  chunkCount : Nat
  tokenCount : Nat
  file : Option (List UInt8)

/-- A line of `chunks.jsonl`. -/
structure OkaChunk where
  id : Nat
  documentId : Nat
  unitType : UnitType
  unitId : Nat
  folderId : Option Nat
  content : String
  level : Nat
  position : Nat
  tokenCount : Nat
  qualityScore : Option ℚ
  metadata : Dict String Json

structure OkaArchive where
  okaVersion : String
  kbId : Nat
  kbName : String
  config : OkaConfig
  folders : List OkaFolder
  documents : List OkaDocument
  chunks : List OkaChunk

def Folder.toOka (f : Folder) : OkaFolder :=
  { id := f.id, name := f.name, parentFolderId := f.parentFolderId, position := f.position }

def BackupDocument.toOka (d : BackupDocument) : OkaDocument :=
  { id := d.id
    title := d.title
    sourceType := d.sourceType
    folderId := d.folderId
    fileSize := d.fileSize
    fileHash := d.fileHash
    chunkCount := d.chunkCount
    tokenCount := d.tokenCount
    file := d.file }

def BackupChunk.toOka (c : BackupChunk) : OkaChunk :=
  { id := c.id
    documentId := c.unitId
    unitType := c.unitType
    unitId := c.unitId
    folderId := c.folderId
    content := c.content
    level := c.level
    position := c.position
    tokenCount := c.tokenCount
    qualityScore := c.qualityScore
    metadata := c.metadata }

/-- The order in which a set is iterated. -/
structure SetOrder (α : Type) where
  iterate : List α → List α
  perm : ∀ l, (iterate l).Perm l

/-- What an import is given besides the archive: the time, the caller, and the first ids that are free in
the tables. -/
structure ImportContext where
  now : Nat
  userId : Nat
  kbId : Nat
  firstFolder : Nat
  firstDocument : Nat
  firstChunk : Nat
  docDirs : SetOrder OkaDocument

namespace BackupBase

variable (kb : BackupBase)

/-! ## The two directions -/

def exportKb : OkaArchive :=
  { okaVersion := "1.0"
    kbId := kb.id
    kbName := kb.config.name
    config := kb.config
    folders := kb.folders.map Folder.toOka
    documents := (kb.documents.filter fun d => !d.isArchived).map BackupDocument.toOka
    chunks := kb.chunks.map BackupChunk.toOka }

end BackupBase

namespace OkaArchive

variable (archive : OkaArchive) (ctx : ImportContext)

def folderIdMap : Dict Nat Nat := renumber ctx.firstFolder (archive.folders.map OkaFolder.id)

def docDirs : List OkaDocument := ctx.docDirs.iterate archive.documents

def docIdMap : Dict Nat Nat :=
  renumber ctx.firstDocument ((archive.docDirs ctx).map OkaDocument.id)

def importFolder (fd : OkaFolder) (i : Nat) : Folder :=
  { id := ctx.firstFolder + i
    knowledgeBaseId := ctx.kbId
    name := fd.name
    parentFolderId := fd.parentFolderId.bind (archive.folderIdMap ctx).get?
    position := fd.position
    createdAt := ctx.now }

def importDocument (d : OkaDocument) (i : Nat) : BackupDocument :=
  { id := ctx.firstDocument + i
    title := d.title
    sourceType := d.sourceType
    folderId := d.folderId.bind (archive.folderIdMap ctx).get?
    fileSize := d.fileSize
    fileHash := d.fileHash
    chunkCount := d.chunkCount
    tokenCount := d.tokenCount
    file := d.file }

/-- A chunk whose document was not imported is skipped. -/
def importChunk (cd : OkaChunk) (i : Nat) : Option BackupChunk :=
  ((archive.docIdMap ctx).get? cd.documentId).map fun newDocId =>
    { id := ctx.firstChunk + i
      unitType := .document
      unitId := newDocId
      knowledgeBaseId := ctx.kbId
      folderId := cd.folderId.bind (archive.folderIdMap ctx).get?
      content := cd.content
      level := cd.level
      position := cd.position
      tokenCount := cd.tokenCount
      qualityScore := cd.qualityScore
      metadata := cd.metadata }

/-- `import_kb` without `re_chunk`; the column `chunk_count` keeps its default. -/
def importKb : BackupBase :=
  { id := ctx.kbId
    config := archive.config
    documentCount := (archive.docIdMap ctx).keys.length
    chunkCount := 0
    createdBy := ctx.userId
    folders := archive.folders.zipIdx.map fun p => archive.importFolder ctx p.1 p.2
    documents := (archive.docDirs ctx).zipIdx.map fun p => archive.importDocument ctx p.1 p.2
    chunks := archive.chunks.zipIdx.filterMap fun p => archive.importChunk ctx p.1 p.2 }

end OkaArchive

/-! ## The property and the condition -/

structure FolderShape where
  id : Nat
  name : String
  parent : Option Nat
  position : Int

structure DocumentShape where
  id : Nat
  title : String
  sourceType : String
  folder : Option Nat
  chunkCount : Nat
  tokenCount : Nat

structure EntryShape where
  id : Nat
  title : String
  content : String
  tags : List String
  folder : Option Nat

structure ChunkShape where
  id : Nat
  unitType : UnitType
  unit : Option Nat
  folder : Option Nat
  content : String
  level : Nat
  position : Nat
  parent : Option Nat
  tags : List String
  reviewExcluded : Bool

/-- New ids for the rows of a base. -/
structure Renaming where
  folder : Nat → Nat
  document : Nat → Nat
  entry : Nat → Nat
  chunk : Nat → Nat

namespace BackupBase

variable (kb : BackupBase)

def folderIds : List Nat := kb.folders.map Folder.id

def documentIds : List Nat := kb.documents.map BackupDocument.id

def entryIds : List Nat := kb.entries.map KnowledgeEntry.id

def chunkIds : List Nat := kb.chunks.map fun c => c.id

/-- Rows with their references into the base. -/
def folderShape (f : Folder) : FolderShape :=
  { id := f.id, name := f.name, parent := within kb.folderIds f.parentFolderId, position := f.position }

def documentShape (d : BackupDocument) : DocumentShape :=
  { id := d.id
    title := d.title
    sourceType := d.sourceType
    folder := within kb.folderIds d.folderId
    chunkCount := d.chunkCount
    tokenCount := d.tokenCount }

def entryShape (e : KnowledgeEntry) : EntryShape :=
  { id := e.id, title := e.title, content := e.content, tags := e.tags
    folder := within kb.folderIds e.folderId }

def unitIds : UnitType → List Nat
  | .document => kb.documentIds
  | .entry => kb.entryIds

def chunkShape (c : BackupChunk) : ChunkShape :=
  { id := c.id
    unitType := c.unitType
    unit := within (kb.unitIds c.unitType) (some c.unitId)
    folder := within kb.folderIds c.folderId
    content := c.content
    level := c.level
    position := c.position
    parent := within kb.chunkIds c.parentChunkId
    tags := c.chunkTags
    reviewExcluded := c.reviewExcluded }

end BackupBase

namespace Renaming

variable (φ : Renaming)

def unit : UnitType → Nat → Nat
  | .document => φ.document
  | .entry => φ.entry

def folderShape (f : FolderShape) : FolderShape :=
  { f with id := φ.folder f.id, parent := f.parent.map φ.folder }

def documentShape (d : DocumentShape) : DocumentShape :=
  { d with id := φ.document d.id, folder := d.folder.map φ.folder }

def entryShape (e : EntryShape) : EntryShape :=
  { e with id := φ.entry e.id, folder := e.folder.map φ.folder }

def chunkShape (c : ChunkShape) : ChunkShape :=
  { c with
    id := φ.chunk c.id
    unit := c.unit.map (φ.unit c.unitType)
    folder := c.folder.map φ.folder
    parent := c.parent.map φ.chunk }

end Renaming

/-- `kb'` has the rows of `kb` under new ids. -/
structure SameRows (φ : Renaming) (kb kb' : BackupBase) : Prop where
  folder_inj : ∀ a ∈ kb.folderIds, ∀ b ∈ kb.folderIds, φ.folder a = φ.folder b → a = b
  document_inj : ∀ a ∈ kb.documentIds, ∀ b ∈ kb.documentIds, φ.document a = φ.document b → a = b
  entry_inj : ∀ a ∈ kb.entryIds, ∀ b ∈ kb.entryIds, φ.entry a = φ.entry b → a = b
  chunk_inj : ∀ a ∈ kb.chunkIds, ∀ b ∈ kb.chunkIds, φ.chunk a = φ.chunk b → a = b
  config : kb'.config = kb.config
  sourceType : kb'.sourceType = kb.sourceType
  folders : (kb'.folders.map kb'.folderShape).Perm
    (kb.folders.map fun f => φ.folderShape (kb.folderShape f))
  documents : (kb'.documents.map kb'.documentShape).Perm
    (kb.documents.map fun d => φ.documentShape (kb.documentShape d))
  entries : (kb'.entries.map kb'.entryShape).Perm
    (kb.entries.map fun e => φ.entryShape (kb.entryShape e))
  chunks : (kb'.chunks.map kb'.chunkShape).Perm
    (kb.chunks.map fun c => φ.chunkShape (kb.chunkShape c))

/-- And it counts its documents and its chunks. -/
structure IsoBy (φ : Renaming) (kb kb' : BackupBase) : Prop extends SameRows φ kb kb' where
  documentCount : kb'.documentCount = kb'.documents.length
  chunkCount : kb'.chunkCount = kb'.chunks.length

def Isomorphic (kb kb' : BackupBase) : Prop := ∃ φ, IsoBy φ kb kb'

namespace BackupBase

variable (kb : BackupBase)

/-- Primary keys. -/
structure Keyed : Prop where
  folders : kb.folderIds.Nodup
  documents : kb.documentIds.Nodup
  chunks : kb.chunkIds.Nodup

/-- A base of files, none archived, whose chunks belong to them and have no parent, no tag and no
exclusion. -/
structure PortableRows : Prop where
  sourceType : kb.sourceType = "file"
  entries : kb.entries = []
  documents : ∀ d ∈ kb.documents, d.isArchived = false
  units : ∀ c ∈ kb.chunks, c.unitType = .document ∧ c.unitId ∈ kb.documentIds
  parents : ∀ c ∈ kb.chunks, ∀ p ∈ c.parentChunkId, p ∉ kb.chunkIds
  tags : ∀ c ∈ kb.chunks, c.chunkTags = []
  reviewed : ∀ c ∈ kb.chunks, c.reviewExcluded = false

/-- Without chunks, which the import does not count. -/
structure Portable : Prop extends kb.PortableRows where
  chunks : kb.chunks = []

variable {kb} (ctx : ImportContext)

/-! ## The imported rows -/

theorem docDirs_perm : (kb.exportKb.docDirs ctx).Perm kb.exportKb.documents :=
  ctx.docDirs.perm _

theorem docDirs_ids_perm : ((kb.exportKb.docDirs ctx).map OkaDocument.id).Perm
    ((kb.documents.filter fun d => !d.isArchived).map BackupDocument.id) := by
  have hperm : ((kb.exportKb.docDirs ctx).map OkaDocument.id).Perm _ :=
    (docDirs_perm ctx).map OkaDocument.id
  rwa [exportKb, List.map_map] at hperm

theorem docDirs_ids_nodup (h : kb.Keyed) : ((kb.exportKb.docDirs ctx).map OkaDocument.id).Nodup :=
  (docDirs_ids_perm ctx).nodup_iff.2 (h.documents.sublist (List.filter_sublist.map _))

/-- The new ids. -/
def newIds (kb : BackupBase) : Renaming where
  folder := fun k => ctx.firstFolder + kb.folderIds.idxOf k
  document := fun k => ctx.firstDocument + ((kb.exportKb.docDirs ctx).map OkaDocument.id).idxOf k
  entry := fun k => k
  chunk := fun k => ctx.firstChunk + kb.chunkIds.idxOf k

theorem export_folders_ids : kb.exportKb.folders.map OkaFolder.id = kb.folderIds := by
  show (kb.folders.map Folder.toOka).map OkaFolder.id = kb.folders.map Folder.id
  rw [List.map_map]
  rfl

theorem export_chunks_ids : kb.exportKb.chunks.map OkaChunk.id = kb.chunkIds := by
  show (kb.chunks.map BackupChunk.toOka).map OkaChunk.id = kb.chunks.map fun c => c.id
  rw [List.map_map]
  rfl

theorem import_folders (h : kb.Keyed) : (kb.exportKb.importKb ctx).folders =
    kb.exportKb.folders.map fun fd => kb.exportKb.importFolder ctx fd (kb.folderIds.idxOf fd.id) := by
  have hnodup : (kb.exportKb.folders.map OkaFolder.id).Nodup := by
    rw [export_folders_ids]
    exact h.folders
  have hmap := map_zipIdx_of_nodup hnodup (kb.exportKb.importFolder ctx)
  rw [export_folders_ids] at hmap
  exact hmap

theorem import_folderIds (h : kb.Keyed) :
    (kb.exportKb.importKb ctx).folderIds = kb.folderIds.map (kb.newIds ctx).folder := by
  have hids : kb.folderIds.map (kb.newIds ctx).folder =
      (kb.exportKb.folders.map OkaFolder.id).map (kb.newIds ctx).folder := by
    rw [export_folders_ids]
  rw [hids]
  unfold folderIds
  rw [import_folders ctx h, List.map_map, List.map_map]
  rfl

/-- A reference to a folder becomes one to its copy. -/
theorem import_folder_ref (h : kb.Keyed) (ref : Option Nat) :
    within (kb.exportKb.importKb ctx).folderIds (ref.bind (kb.exportKb.folderIdMap ctx).get?) =
      (within kb.folderIds ref).map (kb.newIds ctx).folder := by
  rw [import_folderIds ctx h]
  unfold OkaArchive.folderIdMap
  rw [export_folders_ids]
  exact within_bind_renumber h.folders ref

theorem import_documents (h : kb.Keyed) : (kb.exportKb.importKb ctx).documents =
    (kb.exportKb.docDirs ctx).map fun d => kb.exportKb.importDocument ctx d
      (((kb.exportKb.docDirs ctx).map OkaDocument.id).idxOf d.id) :=
  map_zipIdx_of_nodup (docDirs_ids_nodup ctx h) (kb.exportKb.importDocument ctx)

theorem import_documentIds (h : kb.Keyed) : (kb.exportKb.importKb ctx).documentIds =
    ((kb.exportKb.docDirs ctx).map OkaDocument.id).map (kb.newIds ctx).document := by
  unfold documentIds
  rw [import_documents ctx h, List.map_map, List.map_map]
  rfl

theorem import_documents_length :
    (kb.exportKb.importKb ctx).documents.length = (kb.documents.filter fun d => !d.isArchived).length := by
  have hlength : (kb.exportKb.docDirs ctx).length = _ := (docDirs_perm ctx).length_eq
  unfold OkaArchive.importKb
  rw [List.length_map, List.length_zipIdx, hlength]
  unfold exportKb
  rw [List.length_map]

/-- The chunks of a copy belong to its documents; the other columns have their defaults. -/
theorem mem_import_chunks (h : kb.Keyed) {c : BackupChunk} (hc : c ∈ (kb.exportKb.importKb ctx).chunks) :
    c.unitType = .document ∧ c.unitId ∈ (kb.exportKb.importKb ctx).documentIds ∧
      c.parentChunkId = none ∧ c.chunkTags = [] ∧ c.reviewExcluded = false := by
  obtain ⟨p, -, hp⟩ := List.mem_filterMap.1 hc
  obtain ⟨newDocId, hget, rfl⟩ := Option.map_eq_some_iff.1 hp
  refine ⟨rfl, ?_, rfl, rfl, rfl⟩
  rw [import_documentIds ctx h]
  unfold OkaArchive.docIdMap at hget
  rw [get?_renumber (docDirs_ids_nodup ctx h)] at hget
  obtain ⟨hmem, ⟨⟩⟩ := Option.ite_none_right_eq_some.1 hget
  exact List.mem_map.2 ⟨_, hmem, rfl⟩

/-! ## The round trip -/

/-- What a copy with the same rows says about the base. -/
theorem SameRows.portableRows (h : kb.Keyed) {φ : Renaming}
    (hφ : SameRows φ kb (kb.exportKb.importKb ctx)) : kb.PortableRows := by
  -- the shape of a chunk is that of a copy
  have hcopy : ∀ c ∈ kb.chunks, ∃ c' ∈ (kb.exportKb.importKb ctx).chunks,
      (kb.exportKb.importKb ctx).chunkShape c' = φ.chunkShape (kb.chunkShape c) := by
    intro c hc
    have hmem := hφ.chunks.mem_iff.2 (List.mem_map.2 ⟨c, hc, rfl⟩)
    exact List.mem_map.1 hmem
  refine ⟨hφ.sourceType.symm, ?_, ?_, ?_, ?_, ?_, ?_⟩
  · have hlength := hφ.entries.length_eq
    rw [List.length_map, List.length_map] at hlength
    exact List.length_eq_zero_iff.1 hlength.symm
  · have hlength := hφ.documents.length_eq
    rw [List.length_map, List.length_map, import_documents_length] at hlength
    have hall := List.length_filter_eq_length_iff.1 hlength
    intro d hd
    simpa using hall d hd
  · intro c hc
    obtain ⟨c', hc', hshape⟩ := hcopy c hc
    obtain ⟨htype, hunit, -⟩ := mem_import_chunks ctx h hc'
    have hkind : c.unitType = .document := (congrArg ChunkShape.unitType hshape).symm.trans htype
    refine ⟨hkind, ?_⟩
    have hsome := congrArg ChunkShape.unit hshape
    change within ((kb.exportKb.importKb ctx).unitIds c'.unitType) (some c'.unitId) =
      (within (kb.unitIds c.unitType) (some c.unitId)).map _ at hsome
    rw [htype, hkind] at hsome
    change within (kb.exportKb.importKb ctx).documentIds _ = (within kb.documentIds _).map _ at hsome
    rw [within_some, if_pos hunit, within_some] at hsome
    by_contra hout
    rw [if_neg hout] at hsome
    cases hsome
  · intro c hc
    obtain ⟨c', hc', hshape⟩ := hcopy c hc
    obtain ⟨-, -, hparent, -⟩ := mem_import_chunks ctx h hc'
    have hnone := congrArg ChunkShape.parent hshape
    change within _ c'.parentChunkId = (within kb.chunkIds c.parentChunkId).map _ at hnone
    rw [hparent] at hnone
    exact within_eq_none_iff.1 (Option.map_eq_none_iff.1 hnone.symm)
  · intro c hc
    obtain ⟨c', hc', hshape⟩ := hcopy c hc
    obtain ⟨-, -, -, htags, -⟩ := mem_import_chunks ctx h hc'
    exact (congrArg ChunkShape.tags hshape).symm.trans htags
  · intro c hc
    obtain ⟨c', hc', hshape⟩ := hcopy c hc
    obtain ⟨-, -, -, -, hexcluded⟩ := mem_import_chunks ctx h hc'
    exact (congrArg ChunkShape.reviewExcluded hshape).symm.trans hexcluded

/-- A copy that counts its chunks has none. -/
theorem Isomorphic.portable (h : kb.Keyed) (hiso : Isomorphic kb (kb.exportKb.importKb ctx)) :
    kb.Portable := by
  obtain ⟨φ, hφ⟩ := hiso
  refine ⟨SameRows.portableRows ctx h hφ.toSameRows, ?_⟩
  have hsame := hφ.chunks.length_eq
  rw [List.length_map, List.length_map] at hsame
  have hcount : 0 = (kb.exportKb.importKb ctx).chunks.length := hφ.chunkCount
  exact List.length_eq_zero_iff.1 (hsame.symm.trans hcount.symm)

theorem PortableRows.filter_documents (h : kb.PortableRows) :
    (kb.documents.filter fun d => !d.isArchived) = kb.documents := by
  rw [List.filter_eq_self]
  intro d hd
  rw [h.documents d hd]
  rfl

theorem PortableRows.mem_docDirs_ids (h : kb.PortableRows) {k : Nat} :
    k ∈ (kb.exportKb.docDirs ctx).map OkaDocument.id ↔ k ∈ kb.documentIds := by
  rw [(docDirs_ids_perm ctx).mem_iff, h.filter_documents]
  rfl

/-- A copy of every chunk, in order. -/
theorem PortableRows.import_chunks (hkeyed : kb.Keyed) (h : kb.PortableRows) :
    (kb.exportKb.importKb ctx).chunks = kb.chunks.map fun c =>
      { id := (kb.newIds ctx).chunk c.id
        unitType := .document
        unitId := (kb.newIds ctx).document c.unitId
        knowledgeBaseId := ctx.kbId
        folderId := c.folderId.bind (kb.exportKb.folderIdMap ctx).get?
        content := c.content
        level := c.level
        position := c.position
        tokenCount := c.tokenCount
        qualityScore := c.qualityScore
        metadata := c.metadata } := by
  have hnodup : (kb.exportKb.chunks.map OkaChunk.id).Nodup := by
    rw [export_chunks_ids]
    exact hkeyed.chunks
  have hmap := map_zipIdx_of_nodup hnodup (kb.exportKb.importChunk ctx)
  rw [export_chunks_ids] at hmap
  have hfilter : (kb.exportKb.importKb ctx).chunks =
      (kb.exportKb.chunks.zipIdx.map fun p => kb.exportKb.importChunk ctx p.1 p.2).filterMap fun c => c := by
    rw [List.filterMap_map]
    rfl
  have hlines : kb.exportKb.chunks = kb.chunks.map BackupChunk.toOka := rfl
  rw [hfilter, hmap, hlines, List.map_map, List.filterMap_map, ← List.filterMap_eq_map]
  apply List.filterMap_congr
  intro c hc
  have hget : (kb.exportKb.docIdMap ctx).get? c.unitId = some ((kb.newIds ctx).document c.unitId) := by
    unfold OkaArchive.docIdMap
    rw [get?_renumber (docDirs_ids_nodup ctx hkeyed)]
    exact if_pos ((h.mem_docDirs_ids ctx).2 (h.units c hc).2)
  show ((kb.exportKb.docIdMap ctx).get? c.unitId).map _ = _
  rw [hget]
  rfl

theorem PortableRows.sameRows (hkeyed : kb.Keyed) (h : kb.PortableRows) :
    SameRows (kb.newIds ctx) kb (kb.exportKb.importKb ctx) := by
  refine
    { folder_inj := fun a ha b _ hab => injOn_renumber ha hab
      document_inj := fun a ha b _ hab => injOn_renumber ((h.mem_docDirs_ids ctx).2 ha) hab
      entry_inj := fun a _ b _ hab => hab
      chunk_inj := fun a ha b _ hab => injOn_renumber ha hab
      config := rfl
      sourceType := h.sourceType.symm
      folders := ?_
      documents := ?_
      entries := ?_
      chunks := ?_ }
  · apply List.Perm.of_eq
    have hentries : kb.exportKb.folders = kb.folders.map Folder.toOka := rfl
    rw [import_folders ctx hkeyed, hentries, List.map_map, List.map_map]
    apply List.map_congr_left
    intro f _
    have href := import_folder_ref ctx hkeyed f.parentFolderId
    exact congrArg (fun parent => FolderShape.mk ((kb.newIds ctx).folder f.id) f.name parent f.position) href
  · rw [import_documents ctx hkeyed, List.map_map]
    refine ((docDirs_perm ctx).map _).trans (List.Perm.of_eq ?_)
    have hentries : kb.exportKb.documents = kb.documents.map BackupDocument.toOka :=
      congrArg (List.map BackupDocument.toOka) h.filter_documents
    rw [hentries, List.map_map]
    apply List.map_congr_left
    intro d _
    have href := import_folder_ref ctx hkeyed d.folderId
    exact congrArg
      (fun folder => DocumentShape.mk ((kb.newIds ctx).document d.id) d.title d.sourceType folder d.chunkCount
        d.tokenCount) href
  · rw [h.entries]
    exact .refl _
  · apply List.Perm.of_eq
    have hids : (kb.exportKb.importKb ctx).documentIds =
        ((kb.exportKb.docDirs ctx).map OkaDocument.id).map (kb.newIds ctx).document :=
      import_documentIds ctx hkeyed
    rw [h.import_chunks ctx hkeyed, List.map_map]
    apply List.map_congr_left
    intro c hc
    obtain ⟨hkind, hunit⟩ := h.units c hc
    have hfolder := import_folder_ref ctx hkeyed c.folderId
    have hdoc : (kb.newIds ctx).document c.unitId ∈ (kb.exportKb.importKb ctx).documentIds := by
      rw [hids]
      exact List.mem_map_of_mem ((h.mem_docDirs_ids ctx).2 hunit)
    have hparent : within kb.chunkIds c.parentChunkId = none := within_eq_none_iff.2 (h.parents c hc)
    have hold : kb.chunkShape c =
        { id := c.id
          unitType := .document
          unit := some c.unitId
          folder := within kb.folderIds c.folderId
          content := c.content
          level := c.level
          position := c.position
          parent := none
          tags := []
          reviewExcluded := false } := by
      unfold chunkShape
      rw [hkind, hparent, h.tags c hc, h.reviewed c hc]
      show ChunkShape.mk _ _ (within kb.documentIds (some c.unitId)) _ _ _ _ _ _ _ = _
      rw [within_some, if_pos hunit]
    rw [hold]
    show ChunkShape.mk _ _ (within (kb.exportKb.importKb ctx).documentIds _) (within _ _) _ _ _ _ _ _ = _
    rw [within_some, if_pos hdoc, hfolder]
    rfl
theorem import_documentCount (h : kb.Keyed) :
    (kb.exportKb.importKb ctx).documentCount = (kb.exportKb.importKb ctx).documents.length := by
  have hlength : (kb.exportKb.docIdMap ctx).keys.length = _ :=
    (keys_renumber_perm (docDirs_ids_nodup ctx h)).length_eq
  rw [List.length_map] at hlength
  rw [import_documents ctx h, List.length_map]
  exact hlength

theorem Portable.isomorphic (hkeyed : kb.Keyed) (h : kb.Portable) :
    Isomorphic kb (kb.exportKb.importKb ctx) := by
  have hrows := h.toPortableRows.sameRows ctx hkeyed
  refine ⟨kb.newIds ctx, hrows, import_documentCount ctx hkeyed, ?_⟩
  have hlength := hrows.chunks.length_eq
  rw [List.length_map, List.length_map, h.chunks, List.length_nil] at hlength
  exact hlength.symm

/-- A copy is isomorphic exactly for portable bases; it has the same rows for more of them. -/
theorem isomorphic_import_export_iff (h : kb.Keyed) :
    (Isomorphic kb (kb.exportKb.importKb ctx) ↔ kb.Portable) ∧
      ((∃ φ, SameRows φ kb (kb.exportKb.importKb ctx)) ↔ kb.PortableRows) := by
  refine ⟨⟨Isomorphic.portable ctx h, fun hportable => hportable.isomorphic ctx h⟩, ?_, fun hrows => ?_⟩
  · rintro ⟨φ, hφ⟩
    exact SameRows.portableRows ctx h hφ
  · exact ⟨kb.newIds ctx, hrows.sameRows ctx h⟩

def someContext : ImportContext where
  now := 0
  userId := 1
  kbId := 2
  firstFolder := 10
  firstDocument := 20
  firstChunk := 30
  docDirs := { iterate := List.reverse, perm := List.reverse_perm }

/-- Two folders, the child first, and two documents. -/
def flatBase : BackupBase where
  id := 1
  config := { name := "kb" }
  createdBy := 1
  folders :=
    [{ id := 4, knowledgeBaseId := 1, name := "b", parentFolderId := some 3, position := 0, createdAt := 0 },
      { id := 3, knowledgeBaseId := 1, name := "a", parentFolderId := none, position := 0, createdAt := 0 }]
  documents :=
    [{ id := 5, title := "x.md", sourceType := "markdown", folderId := some 4 },
      { id := 6, title := "y.md", sourceType := "markdown" }]
  chunks := [{ id := 7, unitType := .document, unitId := 6, knowledgeBaseId := 1, content := "c" }]

theorem flatBase_portableRows : flatBase.PortableRows := by
  constructor
  · rfl
  · rfl
  · decide
  · decide
  · intro c hc p hp
    rw [List.mem_singleton.1 hc] at hp
    cases hp
  · intro c hc
    rw [List.mem_singleton.1 hc]
  · intro c hc
    rw [List.mem_singleton.1 hc]

/-- The base before its documents are processed. -/
def unprocessedBase : BackupBase := { flatBase with chunks := [] }

/-- Both come back with their rows, but the chunk of the first is not counted. -/
theorem flatBase_round_trip :
    (∃ φ, SameRows φ flatBase (flatBase.exportKb.importKb someContext)) ∧
      ¬ Isomorphic flatBase (flatBase.exportKb.importKb someContext) ∧
      Isomorphic unprocessedBase (unprocessedBase.exportKb.importKb someContext) := by
  obtain ⟨hcounted, hrows⟩ := isomorphic_import_export_iff someContext
    (⟨by decide, by decide, by decide⟩ : flatBase.Keyed)
  obtain ⟨hcounted', -⟩ := isomorphic_import_export_iff someContext
    (⟨by decide, by decide, by decide⟩ : unprocessedBase.Keyed)
  refine ⟨hrows.2 flatBase_portableRows, fun hiso => ?_, hcounted'.2 ⟨?_, rfl⟩⟩
  · cases (hcounted.1 hiso).chunks
  · exact ⟨rfl, rfl, by decide, by simp [unprocessedBase], by simp [unprocessedBase],
      by simp [unprocessedBase], by simp [unprocessedBase]⟩

/-- A chunk below another one. -/
def nestedBase : BackupBase where
  id := 1
  config := { name := "kb" }
  createdBy := 1
  documents := [{ id := 5, title := "x.md", sourceType := "markdown" }]
  chunks :=
    [{ id := 7, unitType := .document, unitId := 5, knowledgeBaseId := 1, content := "c" },
      { id := 8, unitType := .document, unitId := 5, knowledgeBaseId := 1, content := "d", level := 1,
        parentChunkId := some 7 }]

/-- The copy of a chunk has lost its parent. -/
theorem nested_chunk_orphaned : ¬ ∀ (kb : BackupBase) (ctx : ImportContext), kb.Keyed →
    Isomorphic kb (kb.exportKb.importKb ctx) := by
  intro h
  have hkeyed : nestedBase.Keyed := ⟨by decide, by decide, by decide⟩
  have hportable := Isomorphic.portable someContext hkeyed (h nestedBase someContext hkeyed)
  have hout : 7 ∉ nestedBase.chunkIds :=
    hportable.parents _ (List.mem_cons_of_mem _ List.mem_cons_self) 7 rfl
  exact hout List.mem_cons_self

end BackupBase

end OpsKnowledge.Knowledge
