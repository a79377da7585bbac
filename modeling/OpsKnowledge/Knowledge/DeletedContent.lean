import OpsKnowledge.Lib.Transition
import OpsKnowledge.Knowledge.Vectors

/-!
# Deleted content and the collection

The chunks of one knowledge base, its Milvus collection, and the work in between: queued
and running embedding tasks, edits before their commit, deletions between the vectors and
the rows, and documents whose rows are gone and whose vectors are still to be removed. An
edit is dispatched for embedding before it is committed.
-/

namespace OpsKnowledge.Knowledge

open OpsKnowledge.Lib

/-- What `delete_chunk` and `cascade_delete_unit` remove. -/
inductive RemovalTarget where
  | chunk (chunkId : Nat)
  | unit (unitType : UnitType) (unitId : Nat)

def RemovalTarget.covers : RemovalTarget → Chunk → Bool
  | .chunk chunkId, c => c.id = chunkId
  | .unit unitType unitId, c => c.inUnit unitType unitId

/-- A deletion that has read its `vector_id`s and has not committed. -/
structure Removal where
  target : RemovalTarget
  vectorIds : List Nat

structure SyncState where
  chunks : List Chunk
  live : Collection := Store.empty
  next : Nat
  queued : List (UnitType × Nat) := []
  tasks : List EmbedTask := []
  edits : List ChunkEdit := []
  removals : List Removal := []
  clearing : List Nat := []

inductive SyncAction where
  /-- The new rows of a unit, from ingestion or from an entry. -/
  | addChunks (rows : List Chunk)
  | enqueue (unitType : UnitType) (unitId : Nat)
  | beginEdit (chunkId : Nat) (newContent : String)
  | commitEdit (k : Nat)
  | splitChunk (chunkId : Nat) (splitPositions : List Int)
  | mergeChunks (chunkIds : List Nat)
  | beginDelete (chunkId : Nat)
  | beginCascade (unitType : UnitType) (unitId : Nat)
  /-- Whether Milvus answers; a failure is logged and passed over. -/
  | purgeVectors (k : Nat) (reached : Bool)
  | commitRemoval (k : Nat)
  /-- The two halves of the cleanup before a document is processed again. -/
  | clearDocument (docId : Nat)
  | purgeDocument (docId : Nat) (reached : Bool)
  | startEmbed (k : Nat)
  | embedBatch (k : Nat) (threshold : Int)
  | finishEmbed (k : Nat)
  | failEmbed (k : Nat) (retry : Bool)

namespace SyncState

variable (s : SyncState)

def addChunks (rows : List Chunk) : SyncState :=
  { s with
    chunks := s.chunks ++ rows.mapIdx fun i c => { c with id := s.next + i, vectorId := none }
    next := s.next + rows.length }

def enqueue (unitType : UnitType) (unitId : Nat) : SyncState :=
  { s with queued := s.queued ++ [(unitType, unitId)] }

def beginEdit (chunkId : Nat) (newContent : String) : Option SyncState := do
  let c ← (getChunk s.chunks chunkId).toOption
  some { s.enqueue c.unitType c.unitId with
    edits := s.edits ++ [{ read := c, newContent := newContent }] }

def commitEdit (k : Nat) : Option SyncState := do
  let e ← s.edits[k]?
  some { s with
    chunks := updateWhere (fun c => c.id = e.read.id) e.flush s.chunks
    edits := s.edits.eraseIdx k }

def replaceChunks (p : Chunk → Bool) (rows : List Chunk) : SyncState :=
  { s with
    chunks := deleteChunks p s.chunks ++ rows.map (Chunk.detach ((s.chunks.filter p).map Chunk.id))
    next := s.next + rows.length }

def splitChunk (chunkId : Nat) (splitPositions : List Int) : Option SyncState := do
  let chunk ← (getChunk s.chunks chunkId).toOption
  let rows ← (splitRows chunk splitPositions s.next).toOption
  some (s.replaceChunks (fun c => c.id = chunkId) rows)

def mergeChunks (chunkIds : List Nat) : Option SyncState := do
  let sources ← (OpsKnowledge.Knowledge.mergeSources s.chunks chunkIds).toOption
  some (s.replaceChunks (fun c => c.id ∈ chunkIds) [mergedChunk s.next sources.1 sources.2])

/-- The rows of a target, with the `vector_id`s that they have now. -/
def beginRemoval (target : RemovalTarget) : SyncState :=
  { s with removals := s.removals ++
      [{ target := target, vectorIds := (s.chunks.filter target.covers).filterMap Chunk.vectorId }] }

def beginDelete (chunkId : Nat) : Option SyncState := do
  let _ ← (getChunk s.chunks chunkId).toOption
  some (s.beginRemoval (.chunk chunkId))

def beginCascade (unitType : UnitType) (unitId : Nat) : SyncState :=
  s.beginRemoval (.unit unitType unitId)

def purgeVectors (k : Nat) (reached : Bool) : Option SyncState := do
  let r ← s.removals[k]?
  some { s with live := if reached then s.live.deleteIds r.vectorIds else s.live }

def commitRemoval (k : Nat) : Option SyncState := do
  let r ← s.removals[k]?
  some { s with
    chunks := deleteChunks r.target.covers s.chunks
    removals := s.removals.eraseIdx k }

def clearDocument (docId : Nat) : SyncState :=
  if s.chunks.any (Chunk.inUnit .document docId) then
    { s with
      chunks := deleteChunks (Chunk.inUnit .document docId) s.chunks
      clearing := docId :: s.clearing }
  else s

/-- `delete_by_filter` on `document_id` -/
def purgeDocument (docId : Nat) (reached : Bool) : Option SyncState :=
  if docId ∈ s.clearing then
    some { s with
      live := if reached then s.live.deleteWhere fun row => row.documentId = docId else s.live
      clearing := s.clearing.filter (· ≠ docId) }
  else none

def startEmbed (k : Nat) : Option SyncState := do
  let u ← s.queued[k]?
  let found := unembedded u.1 u.2 s.chunks
  some { s with
    queued := s.queued.eraseIdx k
    tasks := if found.isEmpty then s.tasks
      else s.tasks ++ [{ unitType := u.1, unitId := u.2, pending := found }] }

def embedBatch (k : Nat) (threshold : Int) : Option SyncState := do
  let task ← s.tasks[k]?
  if task.pending.isEmpty then none
  else some { s with
    live := storeBatch threshold (task.pending.take batchSize) s.live
    tasks := s.tasks.set k task.next }

def finishEmbed (k : Nat) : Option SyncState := do
  let task ← s.tasks[k]?
  if task.pending.isEmpty then
    some { s with chunks := setVectorIds task.stored s.chunks, tasks := s.tasks.eraseIdx k }
  else none

/-- An exception: the task is queued again, or its retries are used up. -/
def failEmbed (k : Nat) (retry : Bool) : Option SyncState := do
  let task ← s.tasks[k]?
  let t := { s with tasks := s.tasks.eraseIdx k }
  some (if retry then t.enqueue task.unitType task.unitId else t)

end SyncState

def syncStep (s : SyncState) : SyncAction → Option SyncState
  | .addChunks rows => some (s.addChunks rows)
  | .enqueue unitType unitId => some (s.enqueue unitType unitId)
  | .beginEdit chunkId newContent => s.beginEdit chunkId newContent
  | .commitEdit k => s.commitEdit k
  | .splitChunk chunkId splitPositions => s.splitChunk chunkId splitPositions
  | .mergeChunks chunkIds => s.mergeChunks chunkIds
  | .beginDelete chunkId => s.beginDelete chunkId
  | .beginCascade unitType unitId => some (s.beginCascade unitType unitId)
  | .purgeVectors k reached => s.purgeVectors k reached
  | .commitRemoval k => s.commitRemoval k
  | .clearDocument docId => some (s.clearDocument docId)
  | .purgeDocument docId reached => s.purgeDocument docId reached
  | .startEmbed k => s.startEmbed k
  | .embedBatch k threshold => s.embedBatch k threshold
  | .finishEmbed k => s.finishEmbed k
  | .failEmbed k retry => s.failEmbed k retry

namespace SyncState

variable {s s' : SyncState}

/-! ## The property and the condition -/

/-- No task, request or cleanup is under way. -/
structure Idle (s : SyncState) : Prop where
  queued : s.queued = []
  tasks : s.tasks = []
  edits : s.edits = []
  removals : s.removals = []
  clearing : s.clearing = []

/-- Every vector belongs to a chunk with the content that it was stored for. -/
def NoneLeft (s : SyncState) : Prop :=
  ∀ i row, s.live i = some row → ∃ c ∈ s.chunks, c.id = i ∧ row.content = storedContent c

def DeletedIsGone (s : SyncState) : Prop := s.Idle → s.NoneLeft

/-- The chunk is among those that some task has still to store. -/
def Pending (s : SyncState) (i : Nat) : Prop := ∃ task ∈ s.tasks, ∃ d ∈ task.pending, d.id = i

/-- Some task has read the chunk and not set its `vector_id` yet. -/
def Held (s : SyncState) (i : Nat) : Prop :=
  ∃ task ∈ s.tasks, ∃ d ∈ task.pending ++ task.stored, d.id = i

/-- The rows can go: the collection has no vector of them, and no task will store one. -/
def Removable (s : SyncState) (p : Chunk → Bool) : Prop :=
  ∀ c ∈ s.chunks, p c = true → s.live c.id = none ∧ ¬ s.Pending c.id

/-- The edit changes nothing, or no task has read the chunk, and where there is a vector to replace the
chunk loses its `vector_id` and a task for it is still queued. -/
def Absorbs (s : SyncState) (e : ChunkEdit) (c : Chunk) : Prop :=
  e.SameContent c ∨ ¬ s.Held c.id ∧ (s.live c.id = none ∨
    (e.read.vectorId ≠ none ∨ c.vectorId = none) ∧ (c.unitType, c.unitId) ∈ s.queued)

/-- What each step has to meet: an edit has to be absorbed. Rows are removed when no vector of theirs is left
and none is on its way. A cleanup reaches Milvus, and a task that is given up leaves no outdated vector. -/
def KeepsSync (s : SyncState) : SyncAction → Prop
  | .commitEdit k => ∀ e, s.edits[k]? = some e → ∀ c ∈ s.chunks, c.id = e.read.id → s.Absorbs e c
  | .splitChunk chunkId _ => s.Removable fun c => c.id = chunkId
  | .mergeChunks chunkIds => s.Removable fun c => c.id ∈ chunkIds
  | .commitRemoval k => ∀ r, s.removals[k]? = some r → s.Removable r.target.covers
  | .clearDocument docId => ∀ c ∈ s.chunks, c.inUnit .document docId = true → ¬ s.Pending c.id
  | .purgeDocument docId reached => reached = true ∨
      ∀ i row, s.live i = some row → row.documentId ≠ docId
  | .failEmbed k retry => retry = true ∨ ∀ task, s.tasks[k]? = some task → ∀ d ∈ task.pending,
      ∀ row, s.live d.id = some row → row.content = storedContent d
  | _ => True

/-- What the schema, the id supply and the embedding of earlier chunks give. -/
structure Valid (s : SyncState) : Prop where
  nodup : (s.chunks.map Chunk.id).Nodup
  below : ∀ c ∈ s.chunks, c.id < s.next
  liveBelow : ∀ i row, s.live i = some row → i < s.next
  owner : ∀ i row, s.live i = some row → ∀ c ∈ s.chunks, c.id = i → row.documentId = c.unitId

/-- Why a vector is there: its content is current, or it will be replaced or removed. -/
def Backed (s : SyncState) (i : Nat) (row : VectorRow) : Prop :=
  row.documentId ∈ s.clearing ∨ ∃ c ∈ s.chunks, c.id = i ∧ (row.content = storedContent c ∨
    c.vectorId = none ∧ ((c.unitType, c.unitId) ∈ s.queued ∨ s.Pending i))

/-- The chunk that a task read is still there, with the content that it read. -/
def Current (s : SyncState) (d : Chunk) : Prop :=
  ∃ c ∈ s.chunks, c.id = d.id ∧ c.unitType = d.unitType ∧ c.unitId = d.unitId ∧
    c.content = d.content

structure Synced (s : SyncState) : Prop where
  valid : s.Valid
  pending : ∀ task ∈ s.tasks, ∀ d ∈ task.pending,
    d.inUnit task.unitType task.unitId = true ∧ s.Current d
  stored : ∀ task ∈ s.tasks, ∀ d ∈ task.stored, d.id < s.next ∧
    (∀ c ∈ s.chunks, c.id = d.id → c.content = d.content) ∧
    ∀ row, s.live d.id = some row → row.content = storedContent d
  backed : ∀ i row, s.live i = some row → s.Backed i row

theorem Synced.of_idle (hvalid : s.Valid) (hidle : s.Idle) (h : s.NoneLeft) : s.Synced := by
  refine ⟨hvalid, ?_, ?_, ?_⟩
  · intro task htask
    rw [hidle.tasks] at htask
    cases htask
  · intro task htask
    rw [hidle.tasks] at htask
    cases htask
  · intro i row hrow
    obtain ⟨c, hc, hid, hcontent⟩ := h i row hrow
    exact .inr ⟨c, hc, hid, .inl hcontent⟩

theorem Synced.deletedIsGone (h : s.Synced) : s.DeletedIsGone := by
  intro hidle i row hrow
  rcases h.backed i row hrow with hclearing | ⟨c, hc, hid, hcontent | ⟨-, hqueued | hpending⟩⟩
  · rw [hidle.clearing] at hclearing
    cases hclearing
  · exact ⟨c, hc, hid, hcontent⟩
  · rw [hidle.queued] at hqueued
    cases hqueued
  · obtain ⟨task, htask, -⟩ := hpending
    rw [hidle.tasks] at htask
    cases htask

/-! ## Steps that write neither chunks nor vectors -/

theorem Backed.mono {i : Nat} {row : VectorRow} (h : s.Backed i row)
    (hclearing : ∀ docId ∈ s.clearing, docId ∈ s'.clearing) (hchunks : s'.chunks = s.chunks)
    (hcomes : ∀ c ∈ s.chunks, c.id = i → c.vectorId = none →
      (c.unitType, c.unitId) ∈ s.queued ∨ s.Pending i →
        (c.unitType, c.unitId) ∈ s'.queued ∨ s'.Pending i ∨ row.content = storedContent c) :
    s'.Backed i row := by
  rcases h with h | ⟨c, hc, hid, hcontent | ⟨hnone, hcoming⟩⟩
  · exact .inl (hclearing _ h)
  · exact .inr ⟨c, hchunks ▸ hc, hid, .inl hcontent⟩
  · have hmem : c ∈ s'.chunks := hchunks ▸ hc
    rcases hcomes c hc hid hnone hcoming with hqueued | hpending | hcontent
    · exact .inr ⟨c, hmem, hid, .inr ⟨hnone, .inl hqueued⟩⟩
    · exact .inr ⟨c, hmem, hid, .inr ⟨hnone, .inr hpending⟩⟩
    · exact .inr ⟨c, hmem, hid, .inl hcontent⟩

theorem Synced.enqueue (h : s.Synced) (unitType : UnitType) (unitId : Nat) :
    (s.enqueue unitType unitId).Synced := by
  refine ⟨⟨h.valid.nodup, h.valid.below, h.valid.liveBelow, h.valid.owner⟩, h.pending, h.stored, ?_⟩
  intro i row hrow
  refine (h.backed i row hrow).mono (fun _ hd => hd) rfl ?_
  intro c _ _ _ hcoming
  rcases hcoming with hqueued | hpending
  · exact .inl (List.mem_append_left _ hqueued)
  · exact .inr (.inl hpending)

theorem startEmbed_synced (h : s.Synced) {k : Nat} (hs' : s.startEmbed k = some s') : s'.Synced := by
  simp only [startEmbed, Option.bind_eq_bind, Option.bind_eq_some_iff, Option.some.injEq] at hs'
  obtain ⟨u, hu, rfl⟩ := hs'
  let found := unembedded u.1 u.2 s.chunks
  have hnew : ∀ task ∈ (if found.isEmpty then s.tasks
      else s.tasks ++ [{ unitType := u.1, unitId := u.2, pending := found }]),
      task ∈ s.tasks ∨ task = { unitType := u.1, unitId := u.2, pending := found } := by
    intro task htask
    split at htask
    · exact .inl htask
    · exact mem_concat.1 htask
  have hold : ∀ task ∈ s.tasks, task ∈ (if found.isEmpty then s.tasks
      else s.tasks ++ [{ unitType := u.1, unitId := u.2, pending := found }]) := by
    intro task htask
    split
    · exact htask
    · exact List.mem_append_left _ htask
  refine ⟨⟨h.valid.nodup, h.valid.below, h.valid.liveBelow, h.valid.owner⟩, ?_, ?_, ?_⟩
  · intro task htask d hd
    rcases hnew task htask with htask | rfl
    · exact h.pending task htask d hd
    · obtain ⟨hmem, hin, -⟩ := mem_unembedded.1 hd
      exact ⟨hin, d, hmem, rfl, rfl, rfl, rfl⟩
  · intro task htask d hd
    rcases hnew task htask with htask | rfl
    · exact h.stored task htask d hd
    · cases hd
  · intro i row hrow
    refine (h.backed i row hrow).mono (fun _ hd => hd) rfl ?_
    intro c hc hid hnone hcoming
    rcases hcoming with hqueued | ⟨task, htask, d, hd, hdi⟩
    · -- The unit is the one taken from the queue, or still in it.
      by_cases hunit : u = (c.unitType, c.unitId)
      · right
        left
        have hfound : c ∈ found := by
          rw [mem_unembedded, hunit]
          exact ⟨hc, by simp [Chunk.inUnit], hnone⟩
        refine ⟨{ unitType := u.1, unitId := u.2, pending := found }, ?_, c, hfound, hid⟩
        show _ ∈ (if found.isEmpty then _ else _)
        rw [if_neg (by simpa using List.ne_nil_of_mem hfound)]
        exact List.mem_append_right _ (List.mem_singleton_self _)
      · left
        obtain ⟨j, hj⟩ := List.mem_iff_getElem?.1 hqueued
        refine List.mem_eraseIdx_iff_getElem?.2 ⟨j, ?_, hj⟩
        rintro rfl
        rw [hu] at hj
        exact hunit (Option.some.inj hj)
    · exact .inr (.inl ⟨task, hold task htask, d, hd, hdi⟩)

/-! ## Vectors that go -/

theorem Synced.live_sub (h : s.Synced) {live : Collection} (removals : List Removal)
    (hsub : ∀ i row, live i = some row → s.live i = some row) :
    ({ s with live := live, removals := removals } : SyncState).Synced := by
  refine ⟨⟨h.valid.nodup, h.valid.below, ?_, ?_⟩, h.pending, ?_, ?_⟩
  · exact fun i row hrow => h.valid.liveBelow i row (hsub i row hrow)
  · exact fun i row hrow => h.valid.owner i row (hsub i row hrow)
  · intro task htask d hd
    obtain ⟨hlt, hcontent, hrow⟩ := h.stored task htask d hd
    exact ⟨hlt, hcontent, fun row hlive => hrow row (hsub d.id row hlive)⟩
  · exact fun i row hrow => h.backed i row (hsub i row hrow)

theorem purgeVectors_synced (h : s.Synced) {k : Nat} {reached : Bool}
    (hs' : s.purgeVectors k reached = some s') : s'.Synced := by
  simp only [purgeVectors, Option.bind_eq_bind, Option.bind_eq_some_iff, Option.some.injEq] at hs'
  obtain ⟨r, -, rfl⟩ := hs'
  apply h.live_sub s.removals
  intro i row hrow
  cases reached with
  | true => exact (Store.deleteIds_eq_some.1 hrow).2
  | false => exact hrow

theorem purgeDocument_synced (h : s.Synced) {docId : Nat} {reached : Bool}
    (hkeeps : reached = true ∨ ∀ i row, s.live i = some row → row.documentId ≠ docId)
    (hs' : s.purgeDocument docId reached = some s') : s'.Synced := by
  simp only [purgeDocument, Option.ite_none_right_eq_some, Option.some.injEq] at hs'
  obtain ⟨-, rfl⟩ := hs'
  have hleft : ∀ i row, (if reached then s.live.deleteWhere fun row => row.documentId = docId
      else s.live) i = some row → s.live i = some row ∧ row.documentId ≠ docId := by
    intro i row hrow
    cases reached with
    | true =>
        obtain ⟨hlive, hne⟩ := Store.deleteWhere_eq_some.1 hrow
        exact ⟨hlive, of_decide_eq_false hne⟩
    | false =>
        rcases hkeeps with hreached | hnone
        · cases hreached
        · exact ⟨hrow, hnone i row hrow⟩
  have hsub := h.live_sub s.removals fun i row hrow => (hleft i row hrow).1
  refine ⟨⟨h.valid.nodup, h.valid.below, hsub.valid.liveBelow, hsub.valid.owner⟩, h.pending,
    hsub.stored, ?_⟩
  intro i row hrow
  obtain ⟨hlive, hne⟩ := hleft i row hrow
  rcases h.backed i row hlive with hclearing | hchunk
  · exact .inl (List.mem_filter.2 ⟨hclearing, by simpa using hne⟩)
  · exact .inr hchunk

/-! ## Rows that come and go -/

/-- Rows may be replaced when their vectors are gone or about to be removed with their document. -/
theorem Synced.replace (h : s.Synced) (p : Chunk → Bool) (rows : List Chunk) (next : Nat)
    (clearing : List Nat) (removals : List Removal) (hnext : s.next ≤ next)
    (hclearing : ∀ docId ∈ s.clearing, docId ∈ clearing)
    (hnodup : (rows.map Chunk.id).Nodup) (hfresh : ∀ c ∈ rows, s.next ≤ c.id ∧ c.id < next)
    (hpending : ∀ c ∈ s.chunks, p c = true → ¬ s.Pending c.id)
    (hlive : ∀ c ∈ s.chunks, p c = true → ∀ row, s.live c.id = some row → row.documentId ∈ clearing) :
    ({ s with chunks := deleteChunks p s.chunks ++ rows, next := next, clearing := clearing
              removals := removals } : SyncState).Synced := by
  have hkept : ∀ c ∈ s.chunks, p c = false → ∃ c' ∈ deleteChunks p s.chunks ++ rows,
      c'.id = c.id ∧ c'.unitType = c.unitType ∧ c'.unitId = c.unitId ∧ c'.content = c.content ∧
        c'.vectorId = c.vectorId := by
    intro c hc hp
    refine ⟨c.detach ((s.chunks.filter p).map Chunk.id), List.mem_append_left _ ?_, by simp, by simp,
      by simp, by simp, by simp⟩
    exact List.mem_map_of_mem (List.mem_filter.2 ⟨hc, by simpa using hp⟩)
  have hcases : ∀ c' ∈ deleteChunks p s.chunks ++ rows, (∃ c ∈ s.chunks, c'.id = c.id ∧
      c'.unitId = c.unitId ∧ c'.content = c.content) ∨ s.next ≤ c'.id ∧ c'.id < next := by
    intro c' hc'
    rcases List.mem_append.1 hc' with hc' | hc'
    · obtain ⟨c, hc, -, gone, rfl⟩ := mem_deleteChunks hc'
      exact .inl ⟨c, hc, by simp, by simp, by simp⟩
    · exact .inr (hfresh c' hc')
  refine ⟨⟨?_, ?_, ?_, ?_⟩, ?_, ?_, ?_⟩
  · show ((deleteChunks p s.chunks ++ rows).map Chunk.id).Nodup
    rw [List.map_append, List.nodup_append]
    refine ⟨?_, hnodup, ?_⟩
    · have hids : (deleteChunks p s.chunks).map Chunk.id =
          (s.chunks.filter fun c => !p c).map Chunk.id := by
        simp [deleteChunks, List.map_map, Function.comp_def]
      rw [hids]
      exact h.valid.nodup.sublist (List.filter_sublist.map Chunk.id)
    · intro i hi j hj hij
      obtain ⟨c', hc', rfl⟩ := List.mem_map.1 hi
      obtain ⟨r, hr, rfl⟩ := List.mem_map.1 hj
      obtain ⟨c, hc, -, gone, rfl⟩ := mem_deleteChunks hc'
      have hold := h.valid.below c hc
      have hnew := (hfresh r hr).1
      rw [detach_id] at hij
      omega
  · intro c' hc'
    show c'.id < next
    rcases hcases c' hc' with ⟨c, hc, hid, -, -⟩ | hnew
    · have hold := h.valid.below c hc
      omega
    · exact hnew.2
  · intro i row hrow
    exact lt_of_lt_of_le (h.valid.liveBelow i row hrow) hnext
  · intro i row hrow c' hc' hid
    rcases hcases c' hc' with ⟨c, hc, hid', hunit, -⟩ | hnew
    · rw [hunit]
      exact h.valid.owner i row hrow c hc (hid'.symm.trans hid)
    · have hold := h.valid.liveBelow i row hrow
      omega
  · intro task htask d hd
    obtain ⟨hin, c, hc, hid, htype, hunit, hcontent⟩ := h.pending task htask d hd
    refine ⟨hin, ?_⟩
    cases hp : p c with
    | true => exact absurd ⟨task, htask, d, hd, hid.symm⟩ (hpending c hc hp)
    | false =>
        obtain ⟨c', hc', hid', htype', hunit', hcontent', -⟩ := hkept c hc hp
        exact ⟨c', hc', hid'.trans hid, htype'.trans htype, hunit'.trans hunit,
          hcontent'.trans hcontent⟩
  · intro task htask d hd
    obtain ⟨hlt, hcontent, hrow⟩ := h.stored task htask d hd
    refine ⟨lt_of_lt_of_le hlt hnext, ?_, hrow⟩
    intro c' hc' hid
    rcases hcases c' hc' with ⟨c, hc, hid', -, hcontent'⟩ | hnew
    · rw [hcontent']
      exact hcontent c hc (hid'.symm.trans hid)
    · omega
  · intro i row hrow
    rcases h.backed i row hrow with hclear | ⟨c, hc, hid, hwhy⟩
    · exact .inl (hclearing _ hclear)
    · cases hp : p c with
      | true => exact .inl (hlive c hc hp row (hid ▸ hrow))
      | false =>
          obtain ⟨c', hc', hid', htype', hunit', hcontent', hvector'⟩ := hkept c hc hp
          refine .inr ⟨c', hc', hid'.trans hid, ?_⟩
          have hsame : storedContent c' = storedContent c := by simp only [storedContent, hcontent']
          rw [hsame, hvector', htype', hunit']
          exact hwhy

theorem Synced.replaceChunks (h : s.Synced) {p : Chunk → Bool} {rows : List Chunk}
    {unitType : UnitType} {unitId kbId : Nat}
    (hnew : NewRows unitType unitId kbId s.next (s.next + rows.length) rows) (hgone : s.Removable p) :
    (s.replaceChunks p rows).Synced := by
  have hdetached := hnew.map_detach ((s.chunks.filter p).map Chunk.id)
  refine h.replace _ _ _ _ _ (Nat.le_add_right _ _) (fun _ hd => hd) hdetached.nodup hdetached.fresh
    (fun c hc hp => (hgone c hc hp).2) ?_
  intro c hc hp row hrow
  rw [(hgone c hc hp).1] at hrow
  cases hrow

theorem splitChunk_synced (h : s.Synced) {chunkId : Nat} {splitPositions : List Int}
    (hgone : s.Removable fun c => c.id = chunkId)
    (hs' : s.splitChunk chunkId splitPositions = some s') : s'.Synced := by
  simp only [splitChunk, Option.bind_eq_bind, Option.bind_eq_some_iff, toOption_eq_some,
    Option.some.injEq] at hs'
  obtain ⟨c, -, rows, hrows, rfl⟩ := hs'
  obtain ⟨-, hnew, -⟩ := splitRows_spec hrows
  exact h.replaceChunks hnew hgone

theorem mergeChunks_synced (h : s.Synced) {chunkIds : List Nat}
    (hgone : s.Removable fun c => c.id ∈ chunkIds)
    (hs' : s.mergeChunks chunkIds = some s') : s'.Synced := by
  simp only [mergeChunks, Option.bind_eq_bind, Option.bind_eq_some_iff, toOption_eq_some,
    Option.some.injEq] at hs'
  obtain ⟨sources, -, rfl⟩ := hs'
  have hnew : NewRows sources.1.unitType sources.1.unitId sources.1.knowledgeBaseId s.next
      (s.next + [mergedChunk s.next sources.1 sources.2].length)
      [mergedChunk s.next sources.1 sources.2] := mergedChunk_new _ _ _
  exact h.replaceChunks hnew hgone

theorem commitRemoval_synced (h : s.Synced) {k : Nat}
    (hgone : ∀ r, s.removals[k]? = some r → s.Removable r.target.covers)
    (hs' : s.commitRemoval k = some s') : s'.Synced := by
  simp only [commitRemoval, Option.bind_eq_bind, Option.bind_eq_some_iff, Option.some.injEq] at hs'
  obtain ⟨r, hr, rfl⟩ := hs'
  have hcovered := hgone r hr
  have hreplaced := h.replace r.target.covers [] s.next s.clearing (s.removals.eraseIdx k)
    le_rfl (fun _ hd => hd) List.nodup_nil (by simp) (fun c hc hp => (hcovered c hc hp).2)
    (fun c hc hp row hrow => by rw [(hcovered c hc hp).1] at hrow; cases hrow)
  rwa [List.append_nil] at hreplaced

theorem Synced.clearDocument (h : s.Synced) {docId : Nat}
    (hpending : ∀ c ∈ s.chunks, c.inUnit .document docId = true → ¬ s.Pending c.id) :
    (s.clearDocument docId).Synced := by
  unfold SyncState.clearDocument
  split
  · have hreplaced := h.replace (Chunk.inUnit .document docId) [] s.next (docId :: s.clearing)
      s.removals le_rfl (fun _ hd => List.mem_cons_of_mem docId hd) List.nodup_nil
      (by simp) hpending ?_
    · rwa [List.append_nil] at hreplaced
    · intro c hc hin row hrow
      have hunit : c.unitType = .document ∧ c.unitId = docId := Chunk.inUnit_iff.1 hin
      rw [h.valid.owner c.id row hrow c hc rfl, hunit.2]
      exact List.mem_cons_self
  · exact h

theorem addChunks_synced (h : s.Synced) (rows : List Chunk) : (s.addChunks rows).Synced := by
  let new := rows.mapIdx fun i c => { c with id := s.next + i, vectorId := none }
  have hids : new.map Chunk.id = List.range' s.next rows.length := by
    apply List.ext_getElem
    · simp [new]
    · intro i hi hi'
      simp [new]
  have hreplaced := h.replace (fun _ => false) new (s.next + rows.length) s.clearing
    s.removals (Nat.le_add_right _ _) (fun _ hd => hd) (by rw [hids]; exact List.nodup_range')
    ?_ (by simp) (by simp)
  · rwa [deleteChunks_of_none fun _ _ => rfl] at hreplaced
  · intro c hc
    have hmem : c.id ∈ List.range' s.next rows.length := hids ▸ List.mem_map_of_mem hc
    rwa [List.mem_range'_1] at hmem

/-! ## Rows that are rewritten -/

theorem storedContent_congr {c d : Chunk} (h : c.content = d.content) :
    storedContent c = storedContent d := by
  simp only [storedContent, h]

theorem Valid.eq_of_id (h : s.Valid) {c d : Chunk} (hc : c ∈ s.chunks) (hd : d ∈ s.chunks)
    (hid : c.id = d.id) : c = d :=
  List.inj_on_of_nodup_map h.nodup hc hd hid

/-- A row keeps its unit, and its content unless no task has read it. Why its vector is there has to
hold of the new row as well. -/
theorem Synced.rewrite (h : s.Synced) (p : Chunk → Bool) (f : Chunk → Chunk) (tasks : List EmbedTask)
    (edits : List ChunkEdit) (hid : ∀ c, (f c).id = c.id) (htype : ∀ c, (f c).unitType = c.unitType)
    (hunit : ∀ c, (f c).unitId = c.unitId) (htasks : ∀ t ∈ tasks, t ∈ s.tasks)
    (hcontent : ∀ c ∈ s.chunks, (if p c then f c else c).content = c.content ∨ ¬ s.Held c.id)
    (hbacked : ∀ c ∈ s.chunks, ∀ row, s.live c.id = some row →
      row.content = storedContent c ∨
        c.vectorId = none ∧ ((c.unitType, c.unitId) ∈ s.queued ∨ s.Pending c.id) →
      row.content = storedContent (if p c then f c else c) ∨ (if p c then f c else c).vectorId = none ∧
        ((c.unitType, c.unitId) ∈ s.queued ∨ ({ s with tasks := tasks } : SyncState).Pending c.id)) :
    ({ s with chunks := updateWhere p f s.chunks, tasks := tasks, edits := edits } : SyncState).Synced := by
  have hids : (updateWhere p f s.chunks).map Chunk.id = s.chunks.map Chunk.id := map_updateWhere hid
  have hkept : ∀ c, (if p c then f c else c).id = c.id ∧ (if p c then f c else c).unitType = c.unitType ∧
      (if p c then f c else c).unitId = c.unitId := by
    intro c
    split
    · exact ⟨hid c, htype c, hunit c⟩
    · exact ⟨rfl, rfl, rfl⟩
  have hmem : ∀ c ∈ s.chunks, (if p c then f c else c) ∈ updateWhere p f s.chunks :=
    fun c hc => mem_updateWhere.2 ⟨c, hc, rfl⟩
  refine ⟨⟨?_, ?_, h.valid.liveBelow, ?_⟩, ?_, ?_, ?_⟩
  · exact hids ▸ h.valid.nodup
  · intro c' hc'
    obtain ⟨c, hc, rfl⟩ := mem_updateWhere.1 hc'
    rw [(hkept c).1]
    exact h.valid.below c hc
  · intro i row hrow c' hc' hi
    obtain ⟨c, hc, rfl⟩ := mem_updateWhere.1 hc'
    rw [(hkept c).2.2]
    exact h.valid.owner i row hrow c hc ((hkept c).1.symm.trans hi)
  · intro task htask d hd
    obtain ⟨hin, c, hc, hcid, hctype, hcunit, hsame⟩ := h.pending task (htasks task htask) d hd
    refine ⟨hin, _, hmem c hc, (hkept c).1.trans hcid, (hkept c).2.1.trans hctype,
      (hkept c).2.2.trans hcunit, ?_⟩
    rcases hcontent c hc with hsame' | hheld
    · exact hsame'.trans hsame
    · exact absurd ⟨task, htasks task htask, d, List.mem_append_left _ hd, hcid.symm⟩ hheld
  · intro task htask d hd
    obtain ⟨hlt, hsame, hrow⟩ := h.stored task (htasks task htask) d hd
    refine ⟨hlt, ?_, hrow⟩
    intro c' hc' hi
    obtain ⟨c, hc, rfl⟩ := mem_updateWhere.1 hc'
    have hcid : c.id = d.id := (hkept c).1.symm.trans hi
    rcases hcontent c hc with hsame' | hheld
    · exact hsame'.trans (hsame c hc hcid)
    · exact absurd ⟨task, htasks task htask, d, List.mem_append_right _ hd, hcid.symm⟩ hheld
  · intro i row hrow
    rcases h.backed i row hrow with hclear | ⟨c, hc, rfl, hwhy⟩
    · exact .inl hclear
    · refine .inr ⟨_, hmem c hc, (hkept c).1, ?_⟩
      rw [(hkept c).2.1, (hkept c).2.2]
      exact hbacked c hc row hrow hwhy

/-! ## Edits -/

theorem beginEdit_synced (h : s.Synced) {chunkId : Nat} {newContent : String}
    (hs' : s.beginEdit chunkId newContent = some s') : s'.Synced := by
  simp only [beginEdit, Option.bind_eq_bind, Option.bind_eq_some_iff, Option.some.injEq] at hs'
  obtain ⟨c, -, rfl⟩ := hs'
  have hqueued := h.enqueue c.unitType c.unitId
  exact ⟨⟨hqueued.valid.nodup, hqueued.valid.below, hqueued.valid.liveBelow, hqueued.valid.owner⟩,
    hqueued.pending, hqueued.stored, hqueued.backed⟩

theorem commitEdit_synced (h : s.Synced) {k : Nat}
    (hkeeps : ∀ e, s.edits[k]? = some e → ∀ c ∈ s.chunks, c.id = e.read.id → s.Absorbs e c)
    (hs' : s.commitEdit k = some s') : s'.Synced := by
  simp only [commitEdit, Option.bind_eq_bind, Option.bind_eq_some_iff, Option.some.injEq] at hs'
  obtain ⟨e, he, rfl⟩ := hs'
  have habsorbs := hkeeps e he
  apply h.rewrite _ e.flush _ _ (fun _ => rfl) (fun _ => rfl) (fun _ => rfl) fun _ ht => ht
  · intro c hc
    by_cases hid : c.id = e.read.id
    · rw [if_pos (decide_eq_true hid)]
      rcases habsorbs c hc hid with hsame | ⟨hheld, -⟩
      · exact .inl (flush_content hsame)
      · exact .inr hheld
    · rw [if_neg (by simpa using hid)]
      exact .inl rfl
  · intro c hc row hrow hwhy
    by_cases hid : c.id = e.read.id
    · rw [if_pos (decide_eq_true hid)]
      rcases habsorbs c hc hid with hsame | ⟨-, hnone | ⟨hvector, hqueued⟩⟩
      · rw [storedContent_congr (flush_content hsame)]
        rcases hwhy with hcontent | ⟨hnone, hcoming⟩
        · exact .inl hcontent
        · exact .inr ⟨flush_vectorId (.inr hnone), hcoming⟩
      · rw [hrow] at hnone
        cases hnone
      · exact .inr ⟨flush_vectorId hvector, .inl hqueued⟩
    · rw [if_neg (by simpa using hid)]
      exact hwhy

/-! ## Embedding -/

theorem embedBatch_synced (h : s.Synced) {k : Nat} {threshold : Int}
    (hs' : s.embedBatch k threshold = some s') : s'.Synced := by
  simp only [embedBatch, Option.bind_eq_bind, Option.bind_eq_some_iff, Option.ite_none_left_eq_some,
    Option.some.injEq] at hs'
  obtain ⟨task, htask, -, rfl⟩ := hs'
  have hmem : task ∈ s.tasks := List.mem_of_getElem? htask
  have hread : ∀ d ∈ task.pending.take batchSize,
      d.inUnit task.unitType task.unitId = true ∧ s.Current d :=
    fun d hd => h.pending task hmem d (List.mem_of_mem_take hd)
  -- A vector is one of the batch, with the content that its chunk has, or it was there before.
  have hlive : ∀ i row, storeBatch threshold (task.pending.take batchSize) s.live i = some row →
      (∃ d ∈ task.pending.take batchSize, d.id = i ∧ row = milvusRow threshold d) ∨
        (∀ d ∈ task.pending.take batchSize, d.id ≠ i) ∧ s.live i = some row := by
    intro i row hrow
    rcases storeBatch_cases threshold (task.pending.take batchSize) s.live i with
      ⟨d, hd, hid, heq⟩ | ⟨hnone, heq⟩
    · rw [heq] at hrow
      exact .inl ⟨d, hd, hid, (Option.some.inj hrow).symm⟩
    · rw [heq] at hrow
      exact .inr ⟨hnone, hrow⟩
  have htasks : ∀ t ∈ s.tasks.set k task.next, t ∈ s.tasks ∨ t = task.next :=
    fun t ht => List.mem_or_eq_of_mem_set ht
  have hnext : task.next ∈ s.tasks.set k task.next := by
    have hlt := (List.getElem?_eq_some_iff.1 htask).1
    exact List.mem_set hlt _
  have hstored : ∀ d, (d ∈ task.pending.take batchSize ∨ ∃ t ∈ s.tasks, d ∈ t.stored) →
      d.id < s.next ∧ (∀ c ∈ s.chunks, c.id = d.id → c.content = d.content) ∧
        ∀ row, storeBatch threshold (task.pending.take batchSize) s.live d.id = some row →
          row.content = storedContent d := by
    intro d hd
    have hkeys : d.id < s.next ∧ (∀ c ∈ s.chunks, c.id = d.id → c.content = d.content) := by
      rcases hd with hd | ⟨t, ht, hd⟩
      · obtain ⟨-, c, hc, hid, -, -, hcontent⟩ := hread d hd
        refine ⟨hid ▸ h.valid.below c hc, ?_⟩
        intro c' hc' hid'
        rw [h.valid.eq_of_id hc' hc (hid'.trans hid.symm)]
        exact hcontent
      · obtain ⟨hlt, hcontent, -⟩ := h.stored t ht d hd
        exact ⟨hlt, hcontent⟩
    refine ⟨hkeys.1, hkeys.2, ?_⟩
    intro row hrow
    rcases hlive d.id row hrow with ⟨d', hd', hid', rfl⟩ | ⟨hout, hold⟩
    · obtain ⟨-, c, hc, hid, -, -, hcontent⟩ := hread d' hd'
      have hsame := hkeys.2 c hc (hid.trans hid')
      exact storedContent_congr (hcontent.symm.trans hsame)
    · rcases hd with hd | ⟨t, ht, hd⟩
      · exact absurd rfl (hout d hd)
      · exact (h.stored t ht d hd).2.2 row hold
  refine ⟨⟨h.valid.nodup, h.valid.below, ?_, ?_⟩, ?_, ?_, ?_⟩
  · intro i row hrow
    rcases hlive i row hrow with ⟨d, hd, rfl, -⟩ | ⟨-, hold⟩
    · exact (hstored d (.inl hd)).1
    · exact h.valid.liveBelow i row hold
  · intro i row hrow c hc hid
    rcases hlive i row hrow with ⟨d, hd, rfl, rfl⟩ | ⟨-, hold⟩
    · obtain ⟨-, c', hc', hid', -, hunit, -⟩ := hread d hd
      rw [h.valid.eq_of_id hc hc' (hid.trans hid'.symm)]
      exact hunit.symm
    · exact h.valid.owner i row hold c hc hid
  · intro t ht d hd
    rcases htasks t ht with ht | rfl
    · exact h.pending t ht d hd
    · exact h.pending task hmem d (mem_pending_of_next hd)
  · intro t ht d hd
    rcases htasks t ht with ht | rfl
    · exact hstored d (.inr ⟨t, ht, hd⟩)
    · rcases mem_next_stored hd with hd | hd
      · exact hstored d (.inr ⟨task, hmem, hd⟩)
      · exact hstored d (.inl hd)
  · intro i row hrow
    rcases hlive i row hrow with ⟨d, hd, rfl, rfl⟩ | ⟨hout, hold⟩
    · obtain ⟨-, c, hc, hid, -, -, hcontent⟩ := hread d hd
      exact .inr ⟨c, hc, hid, .inl (storedContent_congr hcontent.symm)⟩
    · refine (h.backed i row hold).mono (fun _ hd => hd) rfl ?_
      intro c hc _ _ hcoming
      rcases hcoming with hqueued | ⟨t, ht, d, hd, hid⟩
      · exact .inl hqueued
      · -- A chunk out of the batch is still to be stored.
        right
        left
        obtain ⟨j, hj⟩ := List.mem_iff_getElem?.1 ht
        by_cases hjk : j = k
        · subst hjk
          rw [htask] at hj
          obtain rfl := Option.some.inj hj
          rcases mem_take_or_next hd with hd | hd
          · exact absurd hid (hout d hd)
          · exact ⟨task.next, hnext, d, hd, hid⟩
        · refine ⟨t, ?_, d, hd, hid⟩
          exact List.mem_of_getElem? ((lookup_set_of_ne hjk task.next).trans hj)

theorem finishEmbed_synced (h : s.Synced) {k : Nat} (hs' : s.finishEmbed k = some s') :
    s'.Synced := by
  simp only [finishEmbed, Option.bind_eq_bind, Option.bind_eq_some_iff, Option.ite_none_right_eq_some,
    Option.some.injEq, List.isEmpty_iff] at hs'
  obtain ⟨task, htask, hdone, rfl⟩ := hs'
  have hmem : task ∈ s.tasks := List.mem_of_getElem? htask
  apply h.rewrite _ (fun c => { c with vectorId := some c.id }) _ _ (fun _ => rfl) (fun _ => rfl)
    (fun _ => rfl) fun _ ht => List.mem_of_mem_eraseIdx ht
  · intro c _
    left
    split <;> rfl
  · intro c hc row hrow hwhy
    by_cases hstored : c.id ∈ task.stored.map Chunk.id
    · -- What the task stored is what the chunk says.
      left
      rw [if_pos (decide_eq_true hstored)]
      obtain ⟨d, hd, hdid⟩ := List.mem_map.1 hstored
      obtain ⟨-, hcontent, hrow'⟩ := h.stored task hmem d hd
      rw [hrow' row (hdid ▸ hrow)]
      exact storedContent_congr (hcontent c hc hdid.symm).symm
    · rw [if_neg (by simpa using hstored)]
      rcases hwhy with hcontent | ⟨hnone, hqueued | ⟨t, ht, d, hd, hdi⟩⟩
      · exact .inl hcontent
      · exact .inr ⟨hnone, .inl hqueued⟩
      · refine .inr ⟨hnone, .inr ⟨t, ?_, d, hd, hdi⟩⟩
        obtain ⟨j, hj⟩ := List.mem_iff_getElem?.1 ht
        refine List.mem_eraseIdx_iff_getElem?.2 ⟨j, ?_, hj⟩
        rintro rfl
        rw [htask] at hj
        obtain rfl := Option.some.inj hj
        rw [hdone] at hd
        cases hd

theorem failEmbed_synced (h : s.Synced) {k : Nat} {retry : Bool}
    (hkeeps : retry = true ∨ ∀ task, s.tasks[k]? = some task → ∀ d ∈ task.pending,
      ∀ row, s.live d.id = some row → row.content = storedContent d)
    (hs' : s.failEmbed k retry = some s') : s'.Synced := by
  simp only [failEmbed, Option.bind_eq_bind, Option.bind_eq_some_iff, Option.some.injEq] at hs'
  obtain ⟨task, htask, hs'⟩ := hs'
  have hqueued : s'.queued = if retry then s.queued ++ [(task.unitType, task.unitId)] else s.queued := by
    rw [← hs']
    cases retry <;> rfl
  have hfields : s'.chunks = s.chunks ∧ s'.live = s.live ∧ s'.next = s.next ∧
      s'.clearing = s.clearing ∧ s'.tasks = s.tasks.eraseIdx k := by
    rw [← hs']
    cases retry <;> exact ⟨rfl, rfl, rfl, rfl, rfl⟩
  obtain ⟨hchunks, hlive, hnext, hclearing, htasks⟩ := hfields
  have hsub : ∀ t ∈ s'.tasks, t ∈ s.tasks := by
    intro t ht
    rw [htasks] at ht
    exact List.mem_of_mem_eraseIdx ht
  refine ⟨⟨?_, ?_, ?_, ?_⟩, ?_, ?_, ?_⟩
  · rw [hchunks]; exact h.valid.nodup
  · rw [hchunks, hnext]; exact h.valid.below
  · rw [hlive, hnext]; exact h.valid.liveBelow
  · rw [hlive, hchunks]; exact h.valid.owner
  · intro t ht d hd
    rw [Current, hchunks]
    exact h.pending t (hsub t ht) d hd
  · intro t ht d hd
    rw [hchunks, hlive, hnext]
    exact h.stored t (hsub t ht) d hd
  · intro i row hrow
    rw [hlive] at hrow
    apply (h.backed i row hrow).mono (by rw [hclearing]; exact fun _ hd => hd) hchunks
    intro c hc hid _ hcoming
    rw [hqueued]
    rcases hcoming with hold | ⟨t, ht, d, hd, hdi⟩
    · left
      cases retry with
      | true => exact List.mem_append_left _ hold
      | false => exact hold
    · obtain ⟨j, hj⟩ := List.mem_iff_getElem?.1 ht
      by_cases hjk : j = k
      · -- The chunk was to be stored by the task that failed.
        subst hjk
        rw [htask] at hj
        obtain rfl := Option.some.inj hj
        obtain ⟨hin, c', hc', hid', htype, hunit, hcontent⟩ := h.pending task ht d hd
        obtain rfl := h.valid.eq_of_id hc hc' (hid.trans (hdi.symm.trans hid'.symm))
        have hunit' : d.unitType = task.unitType ∧ d.unitId = task.unitId := by
          simpa [Chunk.inUnit] using hin
        cases retry with
        | true =>
            left
            have hpair : (c.unitType, c.unitId) = (task.unitType, task.unitId) := by
              rw [htype, hunit, hunit'.1, hunit'.2]
            rw [hpair]
            exact List.mem_append_right _ (List.mem_singleton_self _)
        | false =>
            right
            right
            rcases hkeeps with hretry | hcurrent
            · cases hretry
            · rw [hcurrent task htask d hd row (hdi ▸ hrow)]
              exact storedContent_congr hcontent.symm
      · right
        left
        refine ⟨t, ?_, d, hd, hdi⟩
        rw [htasks]
        exact List.mem_eraseIdx_iff_getElem?.2 ⟨j, hjk, hj⟩

/-! ## Runs -/

theorem Synced.beginRemoval (h : s.Synced) (target : RemovalTarget) :
    (s.beginRemoval target).Synced :=
  h.live_sub _ fun _ _ hrow => hrow

theorem beginDelete_synced (h : s.Synced) {chunkId : Nat} (hs' : s.beginDelete chunkId = some s') :
    s'.Synced := by
  simp only [beginDelete, Option.bind_eq_bind, Option.bind_eq_some_iff, Option.some.injEq] at hs'
  obtain ⟨-, -, rfl⟩ := hs'
  exact h.beginRemoval (.chunk chunkId)

theorem syncStep_synced {a : SyncAction} (h : s.Synced) (hkeeps : s.KeepsSync a)
    (hs' : syncStep s a = some s') : s'.Synced := by
  cases a with
  | addChunks rows =>
      cases hs'
      exact addChunks_synced h rows
  | enqueue unitType unitId =>
      cases hs'
      exact h.enqueue unitType unitId
  | beginEdit chunkId newContent => exact beginEdit_synced h hs'
  | commitEdit k => exact commitEdit_synced h hkeeps hs'
  | splitChunk chunkId splitPositions => exact splitChunk_synced h hkeeps hs'
  | mergeChunks chunkIds => exact mergeChunks_synced h hkeeps hs'
  | beginDelete chunkId => exact beginDelete_synced h hs'
  | beginCascade unitType unitId =>
      cases hs'
      exact h.beginRemoval (.unit unitType unitId)
  | purgeVectors k reached => exact purgeVectors_synced h hs'
  | commitRemoval k => exact commitRemoval_synced h hkeeps hs'
  | clearDocument docId =>
      cases hs'
      exact h.clearDocument hkeeps
  | purgeDocument docId reached => exact purgeDocument_synced h hkeeps hs'
  | startEmbed k => exact startEmbed_synced h hs'
  | embedBatch k threshold => exact embedBatch_synced h hs'
  | finishEmbed k => exact finishEmbed_synced h hs'
  | failEmbed k retry => exact failEmbed_synced h hkeeps hs'

/-- Whenever the work is done, every vector belongs to a chunk with its content, if each step of the
run met the condition. -/
theorem deletedIsGone_of_keepsSync (hvalid : s.Valid) (hidle : s.Idle) (h : s.NoneLeft)
    {as : List SyncAction} (hsteps : EveryStep syncStep KeepsSync s as) :
    Visits syncStep DeletedIsGone s as := by
  have hsynced : Visits syncStep Synced s as :=
    hsteps.visits (fun _ _ _ h hkeeps hs' => syncStep_synced h hkeeps hs')
      (Synced.of_idle hvalid hidle h)
  exact hsynced.mono fun _ h => h.deletedIsGone

end SyncState

/-- One chunk of one document, not embedded yet. -/
def newChunk : SyncState :=
  { chunks := [{ id := 0, unitType := .document, unitId := 7, knowledgeBaseId := 0, content := "text" }]
    next := 1 }

theorem newChunk_valid : newChunk.Valid := by
  refine ⟨List.nodup_singleton 0, ?_, ?_, ?_⟩
  · intro c hc
    obtain rfl := List.mem_singleton.1 hc
    decide
  · intro i row hrow
    cases hrow
  · intro i row hrow
    cases hrow

theorem newChunk_idle : newChunk.Idle := ⟨rfl, rfl, rfl, rfl, rfl⟩

theorem newChunk_noneLeft : newChunk.NoneLeft := by
  intro i row hrow
  cases hrow

/-- A chunk that is deleted while a task has read it: it has no `vector_id` to delete by, and the task
stores its vector afterwards. -/
theorem vector_outlives_chunk :
    ¬ ∀ (s : SyncState) (as : List SyncAction), s.Valid → s.Idle → s.NoneLeft →
      Visits syncStep SyncState.DeletedIsGone s as := by
  intro hall
  have hlast := (hall newChunk [.enqueue .document 7, .startEmbed 0, .beginDelete 0,
    .purgeVectors 0 true, .commitRemoval 0, .embedBatch 0 contextPrefixCharThreshold, .finishEmbed 0]
    newChunk_valid newChunk_idle newChunk_noneLeft).last rfl
  obtain ⟨c, hc, -⟩ := hlast ⟨rfl, rfl, rfl, rfl, rfl⟩ 0 _ rfl
  cases hc

/-- The same deletion after the task has finished. -/
theorem deletedIsGone_newChunk :
    Visits syncStep SyncState.DeletedIsGone newChunk
      [.enqueue .document 7, .startEmbed 0, .embedBatch 0 contextPrefixCharThreshold, .finishEmbed 0,
        .beginDelete 0, .purgeVectors 0 true, .commitRemoval 0] := by
  apply SyncState.deletedIsGone_of_keepsSync newChunk_valid newChunk_idle newChunk_noneLeft
  apply EveryStep.cons_of_eq rfl trivial
  apply EveryStep.cons_of_eq rfl trivial
  apply EveryStep.cons_of_eq rfl trivial
  apply EveryStep.cons_of_eq rfl trivial
  apply EveryStep.cons_of_eq rfl trivial
  apply EveryStep.cons_of_eq rfl trivial
  intro s _
  refine ⟨?_, trivial⟩
  intro r hr c hc _
  cases hr
  obtain rfl := List.mem_singleton.1 hc
  refine ⟨rfl, ?_⟩
  rintro ⟨task, htask, -⟩
  cases htask

end OpsKnowledge.Knowledge
