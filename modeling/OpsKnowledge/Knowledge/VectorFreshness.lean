import OpsKnowledge.Lib.Transition
import OpsKnowledge.Knowledge.Vectors

/-!
# Freshness of vectors

The chunks of one knowledge base, its live collection, the one that a reindex builds beside
it, and the work that writes them: edits, embedding tasks, reindexes, and tag updates, which
read rows of the collection and write them back. All of it interleaves between its database
sessions and its Milvus calls. A session that called `edit_chunk` may be committed or rolled
back; its only endpoint always rolls it back, since the response asks for a `document_id` that
chunks do not have, and only the embedding task that it has queued runs.
-/

namespace OpsKnowledge.Knowledge

open OpsKnowledge.Lib

/-- `embed_unit_chunks` after its first session; `created` once it has called `create_collection`. -/
structure StoreTask extends EmbedRun where
  created : Bool := false

inductive ReindexPhase where
  | started
  | building
  | dropped
  | renamed
  deriving DecidableEq

/-- A run of `reindex_kb` after its first session. -/
structure Reindex extends EmbedRun where
  phase : ReindexPhase := .started

/-- A run of `update_chunk_tags`, with the rows that it has queried. -/
structure TagUpdate where
  ids : List Nat
  tags : List String
  rows : Option (List (Nat × VectorRow)) := none

structure IndexState where
  chunks : List Chunk
  live : Option Collection := none
  /-- The collection named with `_new`. -/
  fresh : Option Collection := none
  edits : List ChunkEdit := []
  tasks : List StoreTask := []
  reindexes : List Reindex := []
  tagUpdates : List TagUpdate := []

inductive IndexAction where
  | beginEdit (chunkId : Nat) (newContent : String)
  | commitEdit (k : Nat)
  | rollbackEdit (k : Nat)
  | startEmbed (unitType : UnitType) (unitId : Nat)
  | createLive (k : Nat)
  | embedBatch (k : Nat) (threshold : Int)
  | finishEmbed (k : Nat)
  | failEmbed (k : Nat)
  /-- The session of a tag task; `changed` when it goes on to the collection. -/
  | setChunkTags (entryId : Nat) (tags : List String) (changed : Bool)
  | queryTags (k : Nat)
  | upsertTags (k : Nat)
  | failTags (k : Nat)
  | startReindex
  | createFresh (k : Nat)
  | reindexBatch (k : Nat)
  | dropOld (k : Nat)
  | renameNew (k : Nat)
  | finishReindex (k : Nat)
  | failReindex (k : Nat)

def StoreTask.next (task : StoreTask) : StoreTask := { task with toEmbedRun := task.toEmbedRun.next }

def Reindex.next (r : Reindex) : Reindex := { r with toEmbedRun := r.toEmbedRun.next }

/-- `create_collection`, which leaves a collection that exists. -/
def createCollection (collection : Option Collection) : Option Collection :=
  some (collection.getD Store.empty)

/-- The query of `update_chunk_tags`: the rows of the ids that the collection has. -/
def TagUpdate.found (u : TagUpdate) (live : Collection) : List (Nat × VectorRow) :=
  u.ids.filterMap fun i => (live i).map fun row => (i, row)

def TagUpdate.retagged (u : TagUpdate) (rows : List (Nat × VectorRow)) : List (Nat × VectorRow) :=
  rows.map fun r => (r.1, { r.2 with chunkTags := storedTags u.tags })

namespace IndexState

variable (s : IndexState)

def beginEdit (chunkId : Nat) (newContent : String) : Option IndexState := do
  let c ← (getChunk s.chunks chunkId).toOption
  some { s with edits := s.edits ++ [{ read := c, newContent := newContent }] }

def commitEdit (k : Nat) : Option IndexState := do
  let e ← s.edits[k]?
  some { s with
    chunks := updateWhere (fun c => c.id = e.read.id) e.flush s.chunks
    edits := s.edits.eraseIdx k }

def rollbackEdit (k : Nat) : Option IndexState := do
  let _ ← s.edits[k]?
  some { s with edits := s.edits.eraseIdx k }

def startEmbed (unitType : UnitType) (unitId : Nat) : IndexState :=
  let found := unembedded unitType unitId s.chunks
  if found.isEmpty then s else { s with tasks := s.tasks ++ [{ pending := found }] }

def createLive (k : Nat) : Option IndexState := do
  let task ← s.tasks[k]?
  if task.created then none
  else some { s with
    live := createCollection s.live
    tasks := s.tasks.set k { task with created := true } }

/-- An upsert; without the collection it raises, and the task fails. -/
def embedBatch (k : Nat) (threshold : Int) : Option IndexState := do
  let task ← s.tasks[k]?
  let live ← s.live
  if task.created && !task.pending.isEmpty then
    some { s with
      live := some (storeBatch threshold (task.pending.take batchSize) live)
      tasks := s.tasks.set k task.next }
  else none

def finishEmbed (k : Nat) : Option IndexState := do
  let task ← s.tasks[k]?
  if task.pending.isEmpty then
    some { s with chunks := setVectorIds task.stored s.chunks, tasks := s.tasks.eraseIdx k }
  else none

def failEmbed (k : Nat) : Option IndexState := do
  let _ ← s.tasks[k]?
  some { s with tasks := s.tasks.eraseIdx k }

def setChunkTags (entryId : Nat) (tags : List String) (changed : Bool) : IndexState :=
  let unit := s.chunks.filter (Chunk.inUnit .entry entryId)
  let ids := (unit.filter fun c => c.vectorId.isSome).map Chunk.id
  { s with
    chunks := updateWhere (Chunk.inUnit .entry entryId) (fun c => { c with chunkTags := tags }) s.chunks
    tagUpdates :=
      if changed && !ids.isEmpty then s.tagUpdates ++ [{ ids := ids, tags := tags }] else s.tagUpdates }

def queryTags (k : Nat) : Option IndexState := do
  let u ← s.tagUpdates[k]?
  let live ← s.live
  if u.rows.isSome then none
  else some { s with tagUpdates := s.tagUpdates.set k { u with rows := some (u.found live) } }

def upsertTags (k : Nat) : Option IndexState := do
  let u ← s.tagUpdates[k]?
  let rows ← u.rows
  let live ← s.live
  some { s with live := some (live.upsert (u.retagged rows)), tagUpdates := s.tagUpdates.eraseIdx k }

def failTags (k : Nat) : Option IndexState := do
  let _ ← s.tagUpdates[k]?
  some { s with tagUpdates := s.tagUpdates.eraseIdx k }

/-- Every chunk of the base, embedded or not. -/
def startReindex : IndexState :=
  if s.chunks.isEmpty then s
  else { s with reindexes := s.reindexes ++ [{ pending := orderBy Chunk.position s.chunks }] }

def createFresh (k : Nat) : Option IndexState := do
  let r ← s.reindexes[k]?
  if r.phase = .started then
    some { s with
      fresh := createCollection s.fresh
      reindexes := s.reindexes.set k { r with phase := .building } }
  else none

/-- A batch for the new collection, with the default threshold. -/
def reindexBatch (k : Nat) : Option IndexState := do
  let r ← s.reindexes[k]?
  let fresh ← s.fresh
  if r.phase = .building ∧ r.pending ≠ [] then
    some { s with
      fresh := some (storeBatch contextPrefixCharThreshold (r.pending.take batchSize) fresh)
      reindexes := s.reindexes.set k r.next }
  else none

def dropOld (k : Nat) : Option IndexState := do
  let r ← s.reindexes[k]?
  if r.phase = .building ∧ r.pending = [] then
    some { s with live := none, reindexes := s.reindexes.set k { r with phase := .dropped } }
  else none

/-- Without the new collection, or beside a collection of the old name, it raises. -/
def renameNew (k : Nat) : Option IndexState := do
  let r ← s.reindexes[k]?
  let fresh ← s.fresh
  if r.phase = .dropped ∧ s.live.isNone then
    some { s with
      live := some fresh
      fresh := none
      reindexes := s.reindexes.set k { r with phase := .renamed } }
  else none

def finishReindex (k : Nat) : Option IndexState := do
  let r ← s.reindexes[k]?
  if r.phase = .renamed then
    some { s with chunks := setVectorIds r.stored s.chunks, reindexes := s.reindexes.eraseIdx k }
  else none

/-- Until the swap is over the new collection is cleaned up. -/
def failReindex (k : Nat) : Option IndexState := do
  let r ← s.reindexes[k]?
  some { s with
    fresh := if r.phase = .renamed then s.fresh else none
    reindexes := s.reindexes.eraseIdx k }

end IndexState

def indexStep (s : IndexState) : IndexAction → Option IndexState
  | .beginEdit chunkId newContent => s.beginEdit chunkId newContent
  | .commitEdit k => s.commitEdit k
  | .rollbackEdit k => s.rollbackEdit k
  | .startEmbed unitType unitId => some (s.startEmbed unitType unitId)
  | .createLive k => s.createLive k
  | .embedBatch k threshold => s.embedBatch k threshold
  | .finishEmbed k => s.finishEmbed k
  | .failEmbed k => s.failEmbed k
  | .setChunkTags entryId tags changed => some (s.setChunkTags entryId tags changed)
  | .queryTags k => s.queryTags k
  | .upsertTags k => s.upsertTags k
  | .failTags k => s.failTags k
  | .startReindex => some s.startReindex
  | .createFresh k => s.createFresh k
  | .reindexBatch k => s.reindexBatch k
  | .dropOld k => s.dropOld k
  | .renameNew k => s.renameNew k
  | .finishReindex k => s.finishReindex k
  | .failReindex k => s.failReindex k

/-! ## The property and the condition -/

/-- The row was computed from the content that the chunk has. -/
def VectorRow.UpToDate (row : VectorRow) (c : Chunk) : Prop :=
  row.content = storedContent c ∧ ∃ threshold, row.denseVector = buildEmbeddingText threshold c

def HasVector (collection : Option Collection) (c : Chunk) : Prop :=
  ∃ rows row, collection = some rows ∧ rows c.id = some row ∧ row.UpToDate c

namespace IndexState

variable {s s' : IndexState}

/-- Every task has finished. -/
structure Idle (s : IndexState) : Prop where
  tasks : s.tasks = []
  reindexes : s.reindexes = []
  tagUpdates : s.tagUpdates = []

def VectorsFresh (s : IndexState) : Prop :=
  ∀ c ∈ s.chunks, c.vectorId ≠ none → HasVector s.live c

def FreshWhenIdle (s : IndexState) : Prop := s.Idle → s.VectorsFresh

/-- Some embedding or reindex has read the row. -/
def Read (s : IndexState) (d : Chunk) : Prop :=
  (∃ task ∈ s.tasks, d ∈ task.pending ++ task.stored) ∨
    ∃ r ∈ s.reindexes, d ∈ r.pending ++ r.stored

/-- Some task will set the `vector_id` without storing the chunk again. -/
def Stored (s : IndexState) (d : Chunk) : Prop :=
  (∃ task ∈ s.tasks, d ∈ task.stored) ∨ ∃ r ∈ s.reindexes, r.phase = .renamed ∧ d ∈ r.stored

def Swapping (s : IndexState) : Prop := ∃ r ∈ s.reindexes, r.phase = .dropped

/-- The rows that a tag update holds are of the present contents, or of chunks that are still to be
embedded. -/
def WritesBack (s : IndexState) (u : TagUpdate) : Prop :=
  ∀ rows, u.rows = some rows → ∀ i row, (i, row) ∈ rows →
    (∀ c ∈ s.chunks, c.id = i → row.UpToDate c ∨ c.vectorId = none ∧ ∀ d, s.Stored d → d.id ≠ i)

/-- An edit that changes a content finds no task that has read the chunk, and clears its `vector_id`. No
collection is created, and no reindex fails, between the drop and the rename; reindexes do not overlap;
tags are not written back with an outdated vector. -/
def KeepsFresh (s : IndexState) : IndexAction → Prop
  | .commitEdit k => ∀ e, s.edits[k]? = some e → ∀ c ∈ s.chunks, c.id = e.read.id →
      e.SameContent c ∨
        (∀ d, s.Read d → d.id ≠ c.id) ∧ (e.read.vectorId ≠ none ∨ c.vectorId = none)
  | .createLive _ => ¬ s.Swapping
  | .upsertTags k => ∀ u, s.tagUpdates[k]? = some u → s.WritesBack u
  | .startReindex => s.reindexes = []
  | .failReindex k => ∀ r, s.reindexes[k]? = some r → r.phase ≠ .dropped
  | _ => True

/-! ## The invariant -/

def SameText (c d : Chunk) : Prop := c.content = d.content ∧ c.metadata = d.metadata

/-- The collection that there will be after a swap. -/
def view (s : IndexState) : Option Collection :=
  if s.reindexes.any fun r => r.phase = .dropped then s.fresh else s.live

/-- A swap loses nothing, since the only reindex has read every chunk. -/
structure Tracked (s : IndexState) : Prop where
  nodup : (s.chunks.map Chunk.id).Nodup
  current : ∀ d, s.Read d → ∃ c ∈ s.chunks, c.id = d.id ∧ SameText c d
  embedded : ∀ c ∈ s.chunks, c.vectorId ≠ none → HasVector s.view c
  stored : ∀ d, s.Stored d → HasVector s.view d
  built : ∀ r ∈ s.reindexes, r.phase ≠ .renamed → ∀ d ∈ r.stored, HasVector s.fresh d
  covers : ∀ r ∈ s.reindexes, ∀ c ∈ s.chunks, ∃ d ∈ r.pending ++ r.stored, d.id = c.id
  single : s.reindexes.length ≤ 1
  window : ∀ r ∈ s.reindexes, r.phase = .dropped → s.live = none ∧ r.pending = []

theorem SameText.symm {c d : Chunk} (h : SameText c d) : SameText d c := ⟨h.1.symm, h.2.symm⟩

theorem buildEmbeddingText_congr {c d : Chunk} (h : SameText c d) (threshold : Int) :
    buildEmbeddingText threshold c = buildEmbeddingText threshold d := by
  obtain ⟨hcontent, hmetadata⟩ := h
  cases c
  cases d
  cases hcontent
  cases hmetadata
  rfl

theorem upToDate_congr {row : VectorRow} {c d : Chunk} (h : SameText c d) (hrow : row.UpToDate d) :
    row.UpToDate c := by
  obtain ⟨hcontent, threshold, hvector⟩ := hrow
  have hstored : storedContent c = storedContent d := by simp only [storedContent, h.1]
  exact ⟨hcontent.trans hstored.symm, threshold, hvector.trans (buildEmbeddingText_congr h threshold).symm⟩

theorem hasVector_congr {collection : Option Collection} {c d : Chunk} (hid : c.id = d.id)
    (h : SameText c d) (hrow : HasVector collection d) : HasVector collection c := by
  obtain ⟨rows, row, hrows, hrow, hup⟩ := hrow
  exact ⟨rows, row, hrows, hid ▸ hrow, upToDate_congr h hup⟩

theorem milvusRow_upToDate (threshold : Int) (d : Chunk) : (milvusRow threshold d).UpToDate d :=
  ⟨rfl, threshold, rfl⟩

theorem Stored.read {d : Chunk} (h : s.Stored d) : s.Read d := by
  rcases h with ⟨task, htask, hd⟩ | ⟨r, hr, -, hd⟩
  · exact .inl ⟨task, htask, List.mem_append_right _ hd⟩
  · exact .inr ⟨r, hr, List.mem_append_right _ hd⟩

theorem view_of_not_swapping (h : ¬ s.Swapping) : s.view = s.live := by
  unfold view
  rw [if_neg]
  intro hany
  obtain ⟨r, hr, hphase⟩ := List.any_eq_true.1 hany
  exact h ⟨r, hr, of_decide_eq_true hphase⟩

theorem Tracked.not_swapping (h : s.Tracked) {live : Collection} (hlive : s.live = some live) :
    ¬ s.Swapping := by
  rintro ⟨r, hr, hphase⟩
  rw [(h.window r hr hphase).1] at hlive
  cases hlive

/-- What a task has read is the text that the chunk has. -/
theorem Tracked.sameText (h : s.Tracked) {c d : Chunk} (hd : s.Read d) (hc : c ∈ s.chunks)
    (hid : c.id = d.id) : SameText c d := by
  obtain ⟨c', hc', hid', htext⟩ := h.current d hd
  rw [List.inj_on_of_nodup_map h.nodup hc hc' (hid.trans hid'.symm)]
  exact htext

theorem Tracked.of_idle (hnodup : (s.chunks.map Chunk.id).Nodup) (hidle : s.Idle)
    (h : s.VectorsFresh) : s.Tracked := by
  have hread : ∀ d, ¬ s.Read d := by
    intro d hd
    unfold Read at hd
    rw [hidle.tasks, hidle.reindexes] at hd
    rcases hd with ⟨_, hmem, -⟩ | ⟨_, hmem, -⟩ <;> cases hmem
  have hnone : ∀ r, r ∉ s.reindexes := by
    intro r hr
    rw [hidle.reindexes] at hr
    cases hr
  have hview : s.view = s.live := view_of_not_swapping fun ⟨r, hr, _⟩ => hnone r hr
  refine ⟨hnodup, fun d hd => absurd hd (hread d), ?_, fun d hd => absurd hd.read (hread d),
    fun r hr => absurd hr (hnone r), fun r hr => absurd hr (hnone r), ?_,
    fun r hr => absurd hr (hnone r)⟩
  · rw [hview]
    exact h
  · rw [hidle.reindexes]
    exact Nat.zero_le 1

theorem Tracked.freshWhenIdle (h : s.Tracked) : s.FreshWhenIdle := by
  intro hidle c hc hvector
  have hview : s.view = s.live := by
    apply view_of_not_swapping
    rintro ⟨r, hr, -⟩
    rw [hidle.reindexes] at hr
    cases hr
  rw [← hview]
  exact h.embedded c hc hvector

/-! ## Edits, tags and vector ids -/

theorem Tracked.updateChunks (h : s.Tracked) (p : Chunk → Bool) (f : Chunk → Chunk)
    (hid : ∀ c, (f c).id = c.id)
    (htext : ∀ c ∈ s.chunks, p c = true → SameText (f c) c ∨ ∀ d, s.Read d → d.id ≠ c.id)
    (hvector : ∀ c ∈ s.chunks, p c = true → (f c).vectorId ≠ none → HasVector s.view (f c))
    (edits : List ChunkEdit) (tagUpdates : List TagUpdate) :
    ({ s with chunks := updateWhere p f s.chunks, edits := edits, tagUpdates := tagUpdates } :
      IndexState).Tracked := by
  refine ⟨?_, ?_, ?_, h.stored, h.built, ?_, h.single, h.window⟩
  · have hids : (updateWhere p f s.chunks).map Chunk.id = s.chunks.map Chunk.id := map_updateWhere hid
    exact hids ▸ h.nodup
  · intro d hd
    obtain ⟨c, hc, hcd, hsame⟩ := h.current d hd
    refine ⟨_, mem_updateWhere.2 ⟨c, hc, rfl⟩, ?_⟩
    split
    · next hp =>
        refine ⟨(hid c).trans hcd, ?_⟩
        rcases htext c hc hp with htext | hnone
        · exact ⟨htext.1.trans hsame.1, htext.2.trans hsame.2⟩
        · exact absurd hcd.symm (hnone d hd)
    · exact ⟨hcd, hsame⟩
  · intro c' hc' hnone
    obtain ⟨c, hc, rfl⟩ := mem_updateWhere.1 hc'
    split at hnone
    · next hp =>
        rw [if_pos hp]
        exact hvector c hc hp hnone
    · next hp =>
        rw [if_neg hp]
        exact h.embedded c hc hnone
  · intro r hr c' hc'
    obtain ⟨c, hc, rfl⟩ := mem_updateWhere.1 hc'
    obtain ⟨d, hd, hdc⟩ := h.covers r hr c hc
    refine ⟨d, hd, hdc.trans ?_⟩
    split
    · exact (hid c).symm
    · rfl

theorem commitEdit_tracked (h : s.Tracked) {k : Nat}
    (hkeeps : ∀ e, s.edits[k]? = some e → ∀ c ∈ s.chunks, c.id = e.read.id → e.SameContent c ∨
      (∀ d, s.Read d → d.id ≠ c.id) ∧ (e.read.vectorId ≠ none ∨ c.vectorId = none))
    (hs' : s.commitEdit k = some s') : s'.Tracked := by
  simp only [commitEdit, Option.bind_eq_bind, Option.bind_eq_some_iff, Option.some.injEq] at hs'
  obtain ⟨e, he, rfl⟩ := hs'
  refine h.updateChunks _ e.flush (fun _ => rfl) ?_ ?_ _ s.tagUpdates
  · intro c hc hid
    rcases hkeeps e he c hc (of_decide_eq_true hid) with hsame | ⟨hread, -⟩
    · exact .inl ⟨flush_content hsame, rfl⟩
    · exact .inr hread
  · intro c hc hid hvector
    rcases hkeeps e he c hc (of_decide_eq_true hid) with hsame | ⟨-, hclears⟩
    · have hold : c.vectorId ≠ none := by
        rcases flush_vectorId_cases e c with heq | hnone
        · exact heq ▸ hvector
        · exact absurd hnone hvector
      have hid' : (e.flush c).id = c.id := rfl
      exact hasVector_congr hid' ⟨flush_content hsame, rfl⟩ (h.embedded c hc hold)
    · exact absurd (flush_vectorId hclears) hvector

theorem Tracked.setChunkTags (h : s.Tracked) (entryId : Nat) (tags : List String) (changed : Bool) :
    (s.setChunkTags entryId tags changed).Tracked := by
  refine h.updateChunks _ (fun c => { c with chunkTags := tags }) (fun _ => rfl)
    (fun _ _ _ => .inl ⟨rfl, rfl⟩) ?_ s.edits _
  intro c hc _ hvector
  exact hasVector_congr (c := { c with chunkTags := tags }) (d := c) rfl ⟨rfl, rfl⟩
    (h.embedded c hc hvector)

/-- The `vector_id`s of rows that the collection has. -/
theorem Tracked.setVectorIds (h : s.Tracked) {stored : List Chunk} (hstored : ∀ d ∈ stored, s.Stored d) :
    ({ s with chunks := setVectorIds stored s.chunks } : IndexState).Tracked := by
  refine h.updateChunks _ (fun c => { c with vectorId := some c.id }) (fun _ => rfl)
    (fun _ _ _ => .inl ⟨rfl, rfl⟩) ?_ s.edits s.tagUpdates
  intro c hc hmem _
  obtain ⟨d, hd, hid⟩ := List.mem_map.1 (of_decide_eq_true hmem)
  have htext : SameText c d := h.sameText (hstored d hd).read hc hid.symm
  have hvector : HasVector s.view c := hasVector_congr hid.symm htext (h.stored d (hstored d hd))
  exact hasVector_congr (c := { c with vectorId := some c.id }) (d := c) rfl ⟨rfl, rfl⟩ hvector

/-! ## Embedding tasks -/

/-- Tasks that have read chunks as they are, and stored some of them. -/
theorem Tracked.setTasks (h : s.Tracked) {tasks : List StoreTask}
    (hread : ∀ task ∈ tasks, ∀ d ∈ task.pending ++ task.stored, s.Read d ∨ d ∈ s.chunks)
    (hstored : ∀ task ∈ tasks, ∀ d ∈ task.stored, HasVector s.view d) :
    ({ s with tasks := tasks } : IndexState).Tracked := by
  refine ⟨h.nodup, ?_, h.embedded, ?_, h.built, h.covers, h.single, h.window⟩
  · intro d hd
    rcases hd with ⟨task, htask, hd⟩ | hd
    · rcases hread task htask d hd with hd | hd
      · exact h.current d hd
      · exact ⟨d, hd, rfl, rfl, rfl⟩
    · exact h.current d (.inr hd)
  · intro d hd
    rcases hd with ⟨task, htask, hd⟩ | hd
    · exact hstored task htask d hd
    · exact h.stored d (.inr hd)

theorem Tracked.dropTask (h : s.Tracked) (k : Nat) :
    ({ s with tasks := s.tasks.eraseIdx k } : IndexState).Tracked := by
  apply h.setTasks
  · intro task htask d hd
    exact .inl (.inl ⟨task, List.mem_of_mem_eraseIdx htask, hd⟩)
  · intro task htask d hd
    exact h.stored d (.inl ⟨task, List.mem_of_mem_eraseIdx htask, hd⟩)

theorem Tracked.startEmbed (h : s.Tracked) (unitType : UnitType) (unitId : Nat) :
    (s.startEmbed unitType unitId).Tracked := by
  unfold IndexState.startEmbed
  dsimp only
  split
  · exact h
  · apply h.setTasks
    · intro task htask d hd
      rcases mem_concat.1 htask with htask | rfl
      · exact .inl (.inl ⟨task, htask, hd⟩)
      · rw [List.append_nil] at hd
        exact .inr (mem_unembedded.1 hd).1
    · intro task htask d hd
      rcases mem_concat.1 htask with htask | rfl
      · exact h.stored d (.inl ⟨task, htask, hd⟩)
      · cases hd

/-- Nothing that is up to date and still needed is lost from the live collection. -/
theorem Tracked.setLive (h : s.Tracked) {live live' : Collection} (hlive : s.live.getD Store.empty = live)
    (hswap : ¬ s.Swapping)
    (hkeep : ∀ c, (c ∈ s.chunks ∧ c.vectorId ≠ none ∨ s.Stored c) → HasVector (some live) c →
      HasVector (some live') c) (tagUpdates : List TagUpdate) :
    ({ s with live := some live', tagUpdates := tagUpdates } : IndexState).Tracked := by
  have hview : ({ s with live := some live', tagUpdates := tagUpdates } : IndexState).view = some live' :=
    view_of_not_swapping hswap
  have hold : ∀ c, HasVector s.view c → HasVector (some live) c := by
    intro c hc
    rw [view_of_not_swapping hswap] at hc
    obtain ⟨rows, row, hrows, hrest⟩ := hc
    rw [hrows] at hlive
    exact ⟨rows, row, congrArg some hlive.symm, hrest⟩
  refine ⟨h.nodup, h.current, ?_, ?_, h.built, h.covers, h.single, ?_⟩
  · intro c hc hvector
    rw [hview]
    exact hkeep c (.inl ⟨hc, hvector⟩) (hold c (h.embedded c hc hvector))
  · intro d hd
    rw [hview]
    exact hkeep d (.inr hd) (hold d (h.stored d hd))
  · intro r hr hphase
    exact absurd ⟨r, hr, hphase⟩ hswap

theorem createLive_tracked (h : s.Tracked) {k : Nat} (hswap : ¬ s.Swapping)
    (hs' : s.createLive k = some s') : s'.Tracked := by
  simp only [createLive, Option.bind_eq_bind, Option.bind_eq_some_iff, Option.ite_none_left_eq_some,
    Option.some.injEq] at hs'
  obtain ⟨task, htask, -, rfl⟩ := hs'
  have hmem : task ∈ s.tasks := List.mem_of_getElem? htask
  have hlive := h.setLive rfl hswap (fun _ _ hc => hc) s.tagUpdates
  apply hlive.setTasks
  · intro t ht d hd
    rcases List.mem_or_eq_of_mem_set ht with ht | rfl
    · exact .inl (.inl ⟨t, ht, hd⟩)
    · exact .inl (.inl ⟨task, hmem, hd⟩)
  · intro t ht d hd
    rcases List.mem_or_eq_of_mem_set ht with ht | rfl
    · exact hlive.stored d (.inl ⟨t, ht, hd⟩)
    · exact hlive.stored d (.inl ⟨task, hmem, hd⟩)

/-- A batch leaves each row as it was or replaces it by one of a text that its chunk has. -/
theorem hasVector_storeBatch {threshold : Int} {batch : List Chunk} {collection : Collection} {c : Chunk}
    (hbatch : ∀ d ∈ batch, d.id = c.id → SameText c d)
    (h : c ∈ batch ∨ HasVector (some collection) c) :
    HasVector (some (storeBatch threshold batch collection)) c := by
  rcases storeBatch_cases threshold batch collection c.id with ⟨d, hd, hid, heq⟩ | ⟨hnone, heq⟩
  · exact ⟨_, _, rfl, heq, upToDate_congr (hbatch d hd hid) (milvusRow_upToDate threshold d)⟩
  · rcases h with hc | ⟨rows, row, hrows, hrow, hup⟩
    · exact absurd rfl (hnone c hc)
    · cases hrows
      exact ⟨_, row, rfl, heq.trans hrow, hup⟩

/-- Two chunks of one id that were read, or one that was read and the row itself. -/
theorem Tracked.sameText_read (h : s.Tracked) {c d : Chunk} (hc : c ∈ s.chunks ∨ s.Read c)
    (hd : s.Read d) (hid : d.id = c.id) : SameText c d := by
  rcases hc with hc | hc
  · exact h.sameText hd hc hid.symm
  · obtain ⟨b, hb, hbc, htext⟩ := h.current c hc
    have hsame := h.sameText hd hb (hbc.trans hid.symm)
    exact ⟨htext.1.symm.trans hsame.1, htext.2.symm.trans hsame.2⟩

theorem embedBatch_tracked (h : s.Tracked) {k : Nat} {threshold : Int}
    (hs' : s.embedBatch k threshold = some s') : s'.Tracked := by
  simp only [embedBatch, Option.bind_eq_bind, Option.bind_eq_some_iff, Option.ite_none_right_eq_some,
    Option.some.injEq] at hs'
  obtain ⟨task, htask, live, hlive, -, rfl⟩ := hs'
  have hmem : task ∈ s.tasks := List.mem_of_getElem? htask
  have hread : ∀ d ∈ task.pending.take batchSize, s.Read d := by
    intro d hd
    exact .inl ⟨task, hmem, List.mem_append_left _ (List.mem_of_mem_take hd)⟩
  have hstored : ({ s with live := some (storeBatch threshold (task.pending.take batchSize) live) } :
      IndexState).Tracked := by
    refine h.setLive (congrArg (Option.getD · Store.empty) hlive) (h.not_swapping hlive) ?_ s.tagUpdates
    intro c hc hvector
    have hc' : c ∈ s.chunks ∨ s.Read c := hc.imp And.left Stored.read
    exact hasVector_storeBatch (fun d hd hid => h.sameText_read hc' (hread d hd) hid) (.inr hvector)
  have hview : ({ s with live := some (storeBatch threshold (task.pending.take batchSize) live) } :
      IndexState).view = some (storeBatch threshold (task.pending.take batchSize) live) :=
    view_of_not_swapping (h.not_swapping hlive)
  apply hstored.setTasks
  · intro t ht d hd
    rcases List.mem_or_eq_of_mem_set ht with ht | rfl
    · exact .inl (.inl ⟨t, ht, hd⟩)
    · exact .inl (.inl ⟨task, hmem, mem_next.1 hd⟩)
  · intro t ht d hd
    rcases List.mem_or_eq_of_mem_set ht with ht | rfl
    · exact hstored.stored d (.inl ⟨t, ht, hd⟩)
    · rcases mem_next_stored hd with hd | hd
      · exact hstored.stored d (.inl ⟨task, hmem, hd⟩)
      · rw [hview]
        exact hasVector_storeBatch
          (fun b hb hid => h.sameText_read (.inr (hread d hd)) (hread b hb) hid) (.inl hd)

theorem finishEmbed_tracked (h : s.Tracked) {k : Nat} (hs' : s.finishEmbed k = some s') :
    s'.Tracked := by
  simp only [finishEmbed, Option.bind_eq_bind, Option.bind_eq_some_iff, Option.ite_none_right_eq_some,
    Option.some.injEq] at hs'
  obtain ⟨task, htask, -, rfl⟩ := hs'
  have hmem : task ∈ s.tasks := List.mem_of_getElem? htask
  exact (h.setVectorIds fun d hd => .inl ⟨task, hmem, hd⟩).dropTask k

/-! ## Tag updates -/

theorem Tracked.setTagUpdates (h : s.Tracked) (tagUpdates : List TagUpdate) :
    ({ s with tagUpdates := tagUpdates } : IndexState).Tracked :=
  ⟨h.nodup, h.current, h.embedded, h.stored, h.built, h.covers, h.single, h.window⟩

theorem queryTags_tracked (h : s.Tracked) {k : Nat} (hs' : s.queryTags k = some s') : s'.Tracked := by
  simp only [queryTags, Option.bind_eq_bind, Option.bind_eq_some_iff, Option.ite_none_left_eq_some,
    Option.some.injEq] at hs'
  obtain ⟨u, -, live, -, -, rfl⟩ := hs'
  exact h.setTagUpdates _

theorem upsertTags_tracked (h : s.Tracked) {k : Nat}
    (hkeeps : ∀ u, s.tagUpdates[k]? = some u → s.WritesBack u) (hs' : s.upsertTags k = some s') :
    s'.Tracked := by
  simp only [upsertTags, Option.bind_eq_bind, Option.bind_eq_some_iff, Option.some.injEq] at hs'
  obtain ⟨u, hu, rows, hrows, live, hlive, rfl⟩ := hs'
  refine h.setLive (congrArg (Option.getD · Store.empty) hlive) (h.not_swapping hlive) ?_ _
  intro d hd hvector
  rcases Store.upsert_cases live (u.retagged rows) d.id with ⟨row, hrow, heq⟩ | ⟨-, heq⟩
  · obtain ⟨⟨i, held⟩, hheld, hpair⟩ := List.mem_map.1 hrow
    obtain ⟨rfl, rfl⟩ := Prod.mk.inj hpair
    -- What was held is of the chunk's content, or nothing depends on the row yet.
    have hback := hkeeps u hu rows hrows d.id held hheld
    have hup : held.UpToDate d := by
      rcases hd with ⟨hc, hne⟩ | hstored
      · rcases hback d hc rfl with hup | ⟨hnone, -⟩
        · exact hup
        · exact absurd hnone hne
      · obtain ⟨c, hc, hid, htext⟩ := h.current d hstored.read
        rcases hback c hc hid with hup | ⟨-, hnone⟩
        · exact upToDate_congr htext.symm hup
        · exact absurd rfl (hnone d hstored)
    exact ⟨_, _, rfl, heq, hup⟩
  · obtain ⟨_, row, hsome, hrow, hup⟩ := hvector
    cases hsome
    exact ⟨_, row, rfl, heq.trans hrow, hup⟩

theorem failTags_tracked (h : s.Tracked) {k : Nat} (hs' : s.failTags k = some s') : s'.Tracked := by
  simp only [failTags, Option.bind_eq_bind, Option.bind_eq_some_iff, Option.some.injEq] at hs'
  obtain ⟨u, -, rfl⟩ := hs'
  exact h.setTagUpdates _

/-! ## Reindexing -/

theorem Tracked.eq_single (h : s.Tracked) {k : Nat} {r : Reindex} (hr : s.reindexes[k]? = some r) :
    s.reindexes = [r] ∧ k = 0 := by
  obtain ⟨hlt, heq⟩ := List.getElem?_eq_some_iff.1 hr
  have hsingle := h.single
  obtain ⟨r', hr'⟩ : ∃ r', s.reindexes = [r'] := List.length_eq_one_iff.1 (by omega)
  have hk : k = 0 := by omega
  subst hk
  rw [hr'] at hr
  exact ⟨hr'.trans (by simpa using hr), rfl⟩

theorem view_single {r : Reindex} (hr : s.reindexes = [r]) :
    s.view = if r.phase = .dropped then s.fresh else s.live := by
  simp [view, hr]

/-- The reindex goes on to its next phase, with the same chunks. -/
theorem Tracked.advance (h : s.Tracked) {k : Nat} {r : Reindex} (hr : s.reindexes[k]? = some r)
    (r' : Reindex) (live fresh : Option Collection)
    (hruns : ∀ d, d ∈ r'.pending ++ r'.stored ↔ d ∈ r.pending ++ r.stored)
    (hview : ∀ d, (d ∈ s.chunks ∨ s.Read d) → HasVector (if r.phase = .dropped then s.fresh else s.live) d →
      HasVector (if r'.phase = .dropped then fresh else live) d)
    (hbuilt : r'.phase ≠ .renamed → ∀ d ∈ r'.stored, HasVector fresh d)
    (hrenamed : r'.phase = .renamed → ∀ d ∈ r'.stored, HasVector live d)
    (hwindow : r'.phase = .dropped → live = none ∧ r'.pending = []) :
    ({ s with live := live, fresh := fresh, reindexes := s.reindexes.set k r' } : IndexState).Tracked := by
  obtain ⟨hone, rfl⟩ := h.eq_single hr
  have hset : s.reindexes.set 0 r' = [r'] := by rw [hone, List.set_cons_zero]
  rw [hset]
  have hkept : ∀ d, (d ∈ s.chunks ∨ s.Read d) → HasVector s.view d →
      HasVector (if r'.phase = .dropped then fresh else live) d := by
    intro d hd hvector
    rw [view_single hone] at hvector
    exact hview d hd hvector
  have hnew : ({ s with live := live, fresh := fresh, reindexes := [r'] } : IndexState).view =
      if r'.phase = .dropped then fresh else live := view_single rfl
  have hread : ∀ d, ({ s with live := live, fresh := fresh, reindexes := [r'] } : IndexState).Read d →
      s.Read d := by
    rintro d (⟨task, htask, hd⟩ | ⟨t, ht, hd⟩)
    · exact .inl ⟨task, htask, hd⟩
    · obtain rfl := List.mem_singleton.1 ht
      exact .inr ⟨r, by rw [hone]; exact List.mem_singleton_self r, (hruns d).1 hd⟩
  refine ⟨h.nodup, fun d hd => h.current d (hread d hd), ?_, ?_, ?_, ?_, le_rfl, ?_⟩
  · intro c hc hvector
    rw [hnew]
    exact hkept c (.inl hc) (h.embedded c hc hvector)
  · intro d hd
    rw [hnew]
    rcases hd with ⟨task, htask, hd⟩ | ⟨t, ht, hphase, hd⟩
    · have hstored : s.Stored d := .inl ⟨task, htask, hd⟩
      exact hkept d (.inr hstored.read) (h.stored d hstored)
    · obtain rfl := List.mem_singleton.1 ht
      rw [if_neg (by rw [hphase]; decide)]
      exact hrenamed hphase d hd
  · intro t ht
    obtain rfl := List.mem_singleton.1 ht
    exact hbuilt
  · intro t ht c hc
    obtain rfl := List.mem_singleton.1 ht
    obtain ⟨d, hd, hid⟩ := h.covers r (by rw [hone]; exact List.mem_singleton_self r) c hc
    exact ⟨d, (hruns d).2 hd, hid⟩
  · intro t ht
    obtain rfl := List.mem_singleton.1 ht
    exact hwindow

theorem startReindex_tracked (h : s.Tracked) (hkeeps : s.reindexes = []) : s.startReindex.Tracked := by
  unfold startReindex
  split
  · exact h
  · have hall : ∀ d, d ∈ orderBy Chunk.position s.chunks ++ [] ↔ d ∈ s.chunks := by
      intro d
      rw [List.append_nil, mem_orderBy]
    rw [hkeeps, List.nil_append]
    have hlive : s.view = s.live := by simp [view, hkeeps]
    have hnew : ({ s with reindexes := [{ pending := orderBy Chunk.position s.chunks }] } :
        IndexState).view = s.live := by simp [view]
    refine ⟨h.nodup, ?_, ?_, ?_, ?_, ?_, le_rfl, ?_⟩
    · rintro d (hd | ⟨t, ht, hd⟩)
      · exact h.current d (.inl hd)
      · obtain rfl := List.mem_singleton.1 ht
        exact ⟨d, (hall d).1 hd, rfl, rfl, rfl⟩
    · rw [hnew, ← hlive]
      exact h.embedded
    · rintro d (hd | ⟨t, ht, -, hd⟩)
      · rw [hnew, ← hlive]
        exact h.stored d (.inl hd)
      · obtain rfl := List.mem_singleton.1 ht
        cases hd
    · intro t ht _ d hd
      obtain rfl := List.mem_singleton.1 ht
      cases hd
    · intro t ht c hc
      obtain rfl := List.mem_singleton.1 ht
      exact ⟨c, (hall c).2 hc, rfl⟩
    · intro t ht hphase
      obtain rfl := List.mem_singleton.1 ht
      cases hphase

theorem createFresh_tracked (h : s.Tracked) {k : Nat} (hs' : s.createFresh k = some s') : s'.Tracked := by
  simp only [createFresh, Option.bind_eq_bind, Option.bind_eq_some_iff, Option.ite_none_right_eq_some,
    Option.some.injEq] at hs'
  obtain ⟨r, hr, hphase, rfl⟩ := hs'
  have hmem : r ∈ s.reindexes := List.mem_of_getElem? hr
  refine h.advance hr _ s.live _ (fun _ => Iff.rfl) ?_ ?_ ?_ ?_
  · intro d _ hvector
    rw [hphase] at hvector
    exact hvector
  · intro _ d hd
    obtain ⟨rows, row, hrows, hrest⟩ := h.built r hmem (by rw [hphase]; decide) d hd
    exact ⟨rows, row, by rw [hrows]; rfl, hrest⟩
  · intro hrenamed
    cases hrenamed
  · intro hdropped
    cases hdropped

theorem reindexBatch_tracked (h : s.Tracked) {k : Nat} (hs' : s.reindexBatch k = some s') :
    s'.Tracked := by
  simp only [reindexBatch, Option.bind_eq_bind, Option.bind_eq_some_iff, Option.ite_none_right_eq_some,
    Option.some.injEq] at hs'
  obtain ⟨r, hr, fresh, hfresh, ⟨hphase, -⟩, rfl⟩ := hs'
  have hmem : r ∈ s.reindexes := List.mem_of_getElem? hr
  have hphase' : r.next.phase = .building := hphase
  have hread : ∀ d ∈ r.pending ++ r.stored, s.Read d := fun d hd => .inr ⟨r, hmem, hd⟩
  have hbatch : ∀ d ∈ r.pending.take batchSize, s.Read d :=
    fun d hd => hread d (List.mem_append_left _ (List.mem_of_mem_take hd))
  refine h.advance hr r.next s.live _ (fun _ => mem_next) ?_ ?_ ?_ ?_
  · intro d _ hvector
    rw [hphase] at hvector
    rw [hphase']
    exact hvector
  · intro _ d hd
    have hd' : s.Read d := hread d (mem_next.1 (List.mem_append_right _ hd))
    apply hasVector_storeBatch fun b hb hid => h.sameText_read (.inr hd') (hbatch b hb) hid
    rcases mem_next_stored hd with hd | hd
    · right
      rw [← hfresh]
      exact h.built r hmem (by rw [hphase]; decide) d hd
    · exact .inl hd
  · intro hrenamed
    rw [hphase'] at hrenamed
    cases hrenamed
  · intro hdropped
    rw [hphase'] at hdropped
    cases hdropped

/-- All that was read is in the new collection when the old one is dropped. -/
theorem dropOld_tracked (h : s.Tracked) {k : Nat} (hs' : s.dropOld k = some s') : s'.Tracked := by
  simp only [dropOld, Option.bind_eq_bind, Option.bind_eq_some_iff, Option.ite_none_right_eq_some,
    Option.some.injEq] at hs'
  obtain ⟨r, hr, ⟨hphase, hdone⟩, rfl⟩ := hs'
  have hmem : r ∈ s.reindexes := List.mem_of_getElem? hr
  have hbuilt := h.built r hmem (by rw [hphase]; decide)
  refine h.advance hr _ none s.fresh (fun _ => Iff.rfl) ?_ (fun _ => hbuilt) ?_ (fun _ => ⟨rfl, hdone⟩)
  · intro d hd _
    obtain ⟨c, hc, hid⟩ : ∃ c ∈ s.chunks, c.id = d.id := by
      rcases hd with hd | hd
      · exact ⟨d, hd, rfl⟩
      · obtain ⟨c, hc, hid, -⟩ := h.current d hd
        exact ⟨c, hc, hid⟩
    obtain ⟨b, hb, hbc⟩ := h.covers r hmem c hc
    rw [hdone, List.nil_append] at hb
    have hread : s.Read b := .inr ⟨r, hmem, List.mem_append_right _ hb⟩
    have hbd : b.id = d.id := hbc.trans hid
    exact hasVector_congr hbd.symm (h.sameText_read hd hread hbd) (hbuilt b hb)
  · intro hrenamed
    cases hrenamed

theorem renameNew_tracked (h : s.Tracked) {k : Nat} (hs' : s.renameNew k = some s') : s'.Tracked := by
  simp only [renameNew, Option.bind_eq_bind, Option.bind_eq_some_iff, Option.ite_none_right_eq_some,
    Option.some.injEq] at hs'
  obtain ⟨r, hr, fresh, hfresh, ⟨hphase, -⟩, rfl⟩ := hs'
  have hmem : r ∈ s.reindexes := List.mem_of_getElem? hr
  refine h.advance hr _ (some fresh) none (fun _ => Iff.rfl) ?_ (fun hne => absurd rfl hne) ?_ ?_
  · intro d _ hvector
    rw [if_pos hphase, hfresh] at hvector
    exact hvector
  · intro _ d hd
    rw [← hfresh]
    exact h.built r hmem (by rw [hphase]; decide) d hd
  · intro hdropped
    cases hdropped

/-- A reindex that ends outside the swap leaves the live collection to what it was. -/
theorem Tracked.dropReindex (h : s.Tracked) {k : Nat} {r : Reindex} (hr : s.reindexes[k]? = some r)
    (hphase : r.phase ≠ .dropped) (fresh : Option Collection) :
    ({ s with fresh := fresh, reindexes := s.reindexes.eraseIdx k } : IndexState).Tracked := by
  obtain ⟨hone, rfl⟩ := h.eq_single hr
  have hnil : s.reindexes.eraseIdx 0 = [] := by rw [hone]; rfl
  rw [hnil]
  have hlive : s.view = s.live := by rw [view_single hone, if_neg hphase]
  have hnew : ({ s with fresh := fresh, reindexes := [] } : IndexState).view = s.live := by simp [view]
  have hnone : ∀ t : Reindex, t ∉ ([] : List Reindex) := fun _ => List.not_mem_nil
  refine ⟨h.nodup, ?_, ?_, ?_, fun t ht => absurd ht (hnone t), fun t ht => absurd ht (hnone t),
    Nat.zero_le 1, fun t ht => absurd ht (hnone t)⟩
  · rintro d (hd | ⟨t, ht, -⟩)
    · exact h.current d (.inl hd)
    · cases ht
  · rw [hnew, ← hlive]
    exact h.embedded
  · rintro d (hd | ⟨t, ht, -⟩)
    · rw [hnew, ← hlive]
      exact h.stored d (.inl hd)
    · cases ht

theorem finishReindex_tracked (h : s.Tracked) {k : Nat} (hs' : s.finishReindex k = some s') :
    s'.Tracked := by
  simp only [finishReindex, Option.bind_eq_bind, Option.bind_eq_some_iff, Option.ite_none_right_eq_some,
    Option.some.injEq] at hs'
  obtain ⟨r, hr, hphase, rfl⟩ := hs'
  have hmem : r ∈ s.reindexes := List.mem_of_getElem? hr
  have hset := h.setVectorIds fun d hd => .inr ⟨r, hmem, hphase, hd⟩
  exact hset.dropReindex hr (by rw [hphase]; decide) s.fresh

theorem failReindex_tracked (h : s.Tracked) {k : Nat}
    (hkeeps : ∀ r, s.reindexes[k]? = some r → r.phase ≠ .dropped) (hs' : s.failReindex k = some s') :
    s'.Tracked := by
  simp only [failReindex, Option.bind_eq_bind, Option.bind_eq_some_iff, Option.some.injEq] at hs'
  obtain ⟨r, hr, rfl⟩ := hs'
  exact h.dropReindex hr (hkeeps r hr) _

/-! ## Runs -/

theorem indexStep_tracked {a : IndexAction} (h : s.Tracked) (hkeeps : s.KeepsFresh a)
    (hs' : indexStep s a = some s') : s'.Tracked := by
  cases a with
  | beginEdit chunkId newContent =>
      obtain ⟨c, -, heq⟩ := Option.bind_eq_some_iff.1 hs'
      cases heq
      exact ⟨h.nodup, h.current, h.embedded, h.stored, h.built, h.covers, h.single, h.window⟩
  | commitEdit k => exact commitEdit_tracked h hkeeps hs'
  | rollbackEdit k =>
      obtain ⟨e, -, heq⟩ := Option.bind_eq_some_iff.1 hs'
      cases heq
      exact ⟨h.nodup, h.current, h.embedded, h.stored, h.built, h.covers, h.single, h.window⟩
  | startEmbed unitType unitId =>
      cases hs'
      exact h.startEmbed unitType unitId
  | createLive k => exact createLive_tracked h hkeeps hs'
  | embedBatch k threshold => exact embedBatch_tracked h hs'
  | finishEmbed k => exact finishEmbed_tracked h hs'
  | failEmbed k =>
      obtain ⟨task, -, heq⟩ := Option.bind_eq_some_iff.1 hs'
      cases heq
      exact h.dropTask k
  | setChunkTags entryId tags changed =>
      cases hs'
      exact h.setChunkTags entryId tags changed
  | queryTags k => exact queryTags_tracked h hs'
  | upsertTags k => exact upsertTags_tracked h hkeeps hs'
  | failTags k => exact failTags_tracked h hs'
  | startReindex =>
      cases hs'
      exact startReindex_tracked h hkeeps
  | createFresh k => exact createFresh_tracked h hs'
  | reindexBatch k => exact reindexBatch_tracked h hs'
  | dropOld k => exact dropOld_tracked h hs'
  | renameNew k => exact renameNew_tracked h hs'
  | finishReindex k => exact finishReindex_tracked h hs'
  | failReindex k => exact failReindex_tracked h hkeeps hs'

/-- Whenever every task has finished, each embedded chunk has the vector of its present content, if each
step of the run met the condition. -/
theorem freshWhenIdle_of_keepsFresh (hnodup : (s.chunks.map Chunk.id).Nodup) (hidle : s.Idle)
    (h : s.VectorsFresh) {as : List IndexAction} (hsteps : EveryStep indexStep KeepsFresh s as) :
    Visits indexStep FreshWhenIdle s as := by
  have htracked : Visits indexStep Tracked s as :=
    hsteps.visits (fun _ _ _ h hkeeps hs' => indexStep_tracked h hkeeps hs')
      (Tracked.of_idle hnodup hidle h)
  exact htracked.mono fun _ h => h.freshWhenIdle

end IndexState

/-- One chunk of one entry, not embedded yet. -/
def oneEntryChunk : IndexState :=
  { chunks := [{ id := 0, unitType := .entry, unitId := 7, knowledgeBaseId := 0, content := "old" }] }

theorem oneEntryChunk_fresh : oneEntryChunk.VectorsFresh := by
  intro c hc hvector
  obtain rfl := List.mem_singleton.1 hc
  exact absurd rfl hvector

/-- Two reindexes fill the same collection; the second one drops the live collection behind the swap of the
first, has nothing left to rename, and its two retries fail as well. -/
theorem overlapping_reindexes_drop :
    ¬ ∀ (s : IndexState) (as : List IndexAction), (s.chunks.map Chunk.id).Nodup → s.Idle →
      s.VectorsFresh → Visits indexStep IndexState.FreshWhenIdle s as := by
  intro hall
  have hlast := (hall oneEntryChunk [.startReindex, .startReindex, .createFresh 0, .createFresh 1,
    .reindexBatch 0, .reindexBatch 1, .dropOld 0, .renameNew 0, .finishReindex 0, .dropOld 0, .failReindex 0,
    .startReindex, .failReindex 0, .startReindex, .failReindex 0]
    (List.nodup_singleton 0) ⟨rfl, rfl, rfl⟩ oneEntryChunk_fresh).last rfl
  obtain ⟨rows, row, hrows, -⟩ := hlast ⟨rfl, rfl, rfl⟩ _ List.mem_cons_self (Option.some_ne_none 0)
  cases hrows

/-- The chunk is embedded, an edit of it is rolled back, and the base is reindexed. -/
theorem freshWhenIdle_oneEntryChunk :
    Visits indexStep IndexState.FreshWhenIdle oneEntryChunk
      [.startEmbed .entry 7, .createLive 0, .embedBatch 0 contextPrefixCharThreshold, .finishEmbed 0,
        .beginEdit 0 "new", .rollbackEdit 0, .startReindex, .createFresh 0, .reindexBatch 0, .dropOld 0,
        .renameNew 0, .finishReindex 0] := by
  have hnodup : (oneEntryChunk.chunks.map Chunk.id).Nodup := List.nodup_singleton 0
  apply IndexState.freshWhenIdle_of_keepsFresh hnodup ⟨rfl, rfl, rfl⟩ oneEntryChunk_fresh
  apply EveryStep.cons_of_eq rfl trivial
  intro s₂ h₂
  constructor
  · rintro ⟨r, hr, -⟩
    cases hr
  cases h₂
  apply EveryStep.cons_of_eq rfl trivial
  apply EveryStep.cons_of_eq rfl trivial
  apply EveryStep.cons_of_eq rfl trivial
  apply EveryStep.cons_of_eq rfl trivial
  refine EveryStep.cons_of_eq rfl ?_ ?_
  · -- no other reindex is running
    rfl
  apply EveryStep.cons_of_eq rfl trivial
  apply EveryStep.cons_of_eq rfl trivial
  apply EveryStep.cons_of_eq rfl trivial
  apply EveryStep.cons_of_eq rfl trivial
  apply EveryStep.cons_of_eq rfl trivial
  trivial

end OpsKnowledge.Knowledge
