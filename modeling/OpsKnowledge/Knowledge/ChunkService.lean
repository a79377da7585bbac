import Mathlib.Data.List.Dedup
import OpsKnowledge.Lib.Loop
import OpsKnowledge.Lib.OrderBy
import OpsKnowledge.Lib.Text
import OpsKnowledge.Knowledge.Models

/-!
# The chunk service

What the operations of `ChunkService` do to chunk rows: editing, splitting, merging,
deleting, and the rows made for a new unit. New rows take their ids from a counter. A
deleted row disappears from the `parent_chunk_id` of the others.
-/

namespace OpsKnowledge.Knowledge

open OpsKnowledge.Lib
open Workflow (Json)

/-! ## Rows -/

/-- `ondelete="SET NULL"` of the self reference. -/
def Chunk.detach (gone : List Nat) (c : Chunk) : Chunk :=
  if c.parentChunkId.any (· ∈ gone) then { c with parentChunkId := none } else c

/-- `DELETE FROM chunks WHERE p` -/
def deleteChunks (p : Chunk → Bool) (chunks : List Chunk) : List Chunk :=
  (chunks.filter fun c => !p c).map (Chunk.detach ((chunks.filter p).map Chunk.id))

def getChunk (chunks : List Chunk) (chunkId : Nat) : Except Exn Chunk :=
  match chunks.find? fun c => c.id = chunkId with
  | none => .error (.notFound "Chunk" chunkId)
  | some c => .ok c

/-- `len(s.split())` -/
def wordCount (s : String) : Nat :=
  ((s.toList.splitOnP isSpace).filter fun w => !w.isEmpty).length

/-- `s[a:b]` within the bounds of `s` -/
def slice (s : String) (a b : Nat) : String := String.ofList ((s.toList.drop a).take (b - a))

/-! ## Editing operations -/

def editedChunk (c : Chunk) (newContent : String) : Chunk :=
  { c with content := newContent, isManuallyEdited := true, vectorId := none
           tokenCount := wordCount newContent }

/-- What a flush leaves in a column: the session writes the attributes that were changed. -/
def flushed {α : Type} [DecidableEq α] (read new current : α) : α := if new = read then current else new

/-- An `edit_chunk` between its read of the row and its commit. -/
structure ChunkEdit where
  read : Chunk
  newContent : String

def ChunkEdit.flush (e : ChunkEdit) (c : Chunk) : Chunk :=
  let new := editedChunk e.read e.newContent
  { c with
    content := flushed e.read.content new.content c.content
    isManuallyEdited := flushed e.read.isManuallyEdited new.isManuallyEdited c.isManuallyEdited
    vectorId := flushed e.read.vectorId new.vectorId c.vectorId
    tokenCount := flushed e.read.tokenCount new.tokenCount c.tokenCount }

/-- The edit leaves the content as it is. -/
def ChunkEdit.SameContent (e : ChunkEdit) (c : Chunk) : Prop :=
  e.newContent = e.read.content ∨ e.newContent = c.content

theorem flush_content {e : ChunkEdit} {c : Chunk} (h : e.SameContent c) :
    (e.flush c).content = c.content := by
  show flushed e.read.content e.newContent c.content = c.content
  unfold flushed
  rcases h with h | h
  · rw [if_pos h]
  · split
    · rfl
    · exact h

theorem flush_vectorId {e : ChunkEdit} {c : Chunk} (h : e.read.vectorId ≠ none ∨ c.vectorId = none) :
    (e.flush c).vectorId = none := by
  show flushed e.read.vectorId none c.vectorId = none
  unfold flushed
  split
  · next heq => exact h.resolve_left fun hne => hne heq.symm
  · rfl

theorem flush_vectorId_cases (e : ChunkEdit) (c : Chunk) :
    (e.flush c).vectorId = c.vectorId ∨ (e.flush c).vectorId = none := by
  show flushed e.read.vectorId none c.vectorId = c.vectorId ∨ flushed e.read.vectorId none c.vectorId = none
  unfold flushed
  split
  · exact .inl rfl
  · exact .inr rfl

def sortedPositions (splitPositions : List Int) : List Int := orderBy id splitPositions.dedup

/-- The contents between the boundaries `[0, *positions, len(content)]`. -/
def segments (content : String) (positions : List Int) : List String :=
  let boundaries := 0 :: positions.map Int.toNat
  let ends := positions.map Int.toNat ++ [content.length]
  List.zipWith (slice content) boundaries ends

def splitPiece (c : Chunk) (next i : Nat) (seg : String) : Chunk :=
  { id := next + i, unitType := c.unitType, unitId := c.unitId
    knowledgeBaseId := c.knowledgeBaseId, folderId := c.folderId, content := seg
    parentChunkId := c.parentChunkId, level := c.level, position := c.position + i
    tokenCount := wordCount seg, isManuallyEdited := true, reviewExcluded := c.reviewExcluded }

/-- `new_chunks` of `split_chunk`. -/
def splitRows (c : Chunk) (splitPositions : List Int) (next : Nat) : Except Exn (List Chunk) :=
  let positions := sortedPositions splitPositions
  if positions.isEmpty || positions.any fun p => p ≤ 0 ∨ (c.content.length : Int) ≤ p then
    .error (.validation "Invalid split positions")
  else .ok ((segments c.content positions).mapIdx (splitPiece c next))

/-- `merged` of `merge_chunks`, for the chunks in position order. -/
def mergedChunk (next : Nat) (first : Chunk) (rest : List Chunk) : Chunk :=
  let content := "\n\n".intercalate ((first :: rest).map Chunk.content)
  { id := next, unitType := first.unitType, unitId := first.unitId
    knowledgeBaseId := first.knowledgeBaseId, folderId := first.folderId, content := content
    parentChunkId := first.parentChunkId, level := first.level, position := first.position
    tokenCount := wordCount content, isManuallyEdited := true
    reviewExcluded := (first :: rest).any Chunk.reviewExcluded }

/-- The source chunks of `merge_chunks` in position order, all of one unit. -/
def mergeSources (chunks : List Chunk) (chunkIds : List Nat) : Except Exn (Chunk × List Chunk) := do
  if chunkIds.length < 2 then
    throw (.validation "At least 2 chunks required to merge")
  let sources ← chunkIds.mapM (getChunk chunks)
  if 1 < (sources.map fun c => (c.unitType, c.unitId)).dedup.length then
    throw (.validation "All chunks must belong to the same unit")
  match orderBy Chunk.position sources with
  | [] => throw (.validation "At least 2 chunks required to merge")
  | first :: rest => return (first, rest)

/-- What a plugin's `to_chunk_seeds` gives for a unit. -/
structure ChunkSeed where
  content : String
  level : Nat := 0
  position : Nat := 0
  tokenCount : Nat := 0
  folderId : Option Nat := none
  metadata : Dict String Json := Dict.empty

/-- `_compute_chunk_tags_from_unit` -/
def computeChunkTags (tags autoTags : List String) : List String :=
  ((tags ++ autoTags).filter (· ≠ "")).eraseDups.map fun t => slice t 0 64

/-- `getattr(unit, "review_status", None) in ("pending", "rejected")` -/
def excludedStatus : Option ReviewStatus → Bool
  | some .pending => true
  | some .rejected => true
  | _ => false

/-- The rows of `create_chunks_for_unit`. -/
def seedRows (unitType : UnitType) (unitId kbId : Nat) (reviewStatus : Option ReviewStatus)
    (chunkTags : List String) (next : Nat) (seeds : List ChunkSeed) : List Chunk :=
  seeds.mapIdx fun i seed =>
    { id := next + i, unitType := unitType, unitId := unitId, knowledgeBaseId := kbId
      folderId := seed.folderId, content := seed.content, level := seed.level
      position := seed.position, tokenCount := seed.tokenCount, metadata := seed.metadata
      reviewExcluded := excludedStatus reviewStatus, chunkTags := chunkTags }

/-! ## What they do to a table -/

section Detach

variable (gone : List Nat) (c : Chunk)

@[simp] theorem detach_id : (c.detach gone).id = c.id := by unfold Chunk.detach; split <;> rfl

@[simp] theorem detach_unitType : (c.detach gone).unitType = c.unitType := by
  unfold Chunk.detach; split <;> rfl

@[simp] theorem detach_unitId : (c.detach gone).unitId = c.unitId := by
  unfold Chunk.detach; split <;> rfl

@[simp] theorem detach_knowledgeBaseId : (c.detach gone).knowledgeBaseId = c.knowledgeBaseId := by
  unfold Chunk.detach; split <;> rfl

@[simp] theorem detach_content : (c.detach gone).content = c.content := by
  unfold Chunk.detach; split <;> rfl

@[simp] theorem detach_vectorId : (c.detach gone).vectorId = c.vectorId := by
  unfold Chunk.detach; split <;> rfl

@[simp] theorem detach_reviewExcluded : (c.detach gone).reviewExcluded = c.reviewExcluded := by
  unfold Chunk.detach; split <;> rfl

@[simp] theorem detach_inUnit (unitType : UnitType) (unitId : Nat) :
    (c.detach gone).inUnit unitType unitId = c.inUnit unitType unitId := by
  simp [Chunk.inUnit]

end Detach

theorem mem_deleteChunks {p : Chunk → Bool} {chunks : List Chunk} {c : Chunk}
    (h : c ∈ deleteChunks p chunks) :
    ∃ d ∈ chunks, p d = false ∧ ∃ gone, c = d.detach gone := by
  obtain ⟨d, hd, rfl⟩ := List.mem_map.1 h
  obtain ⟨hd, hp⟩ := List.mem_filter.1 hd
  exact ⟨d, hd, by simpa using hp, _, rfl⟩

/-- What a deletion takes from a count that does not look at parents. -/
theorem countP_deleteChunks (p q : Chunk → Bool) (chunks : List Chunk)
    (hq : ∀ c gone, q (c.detach gone) = q c) :
    (deleteChunks p chunks).countP q + chunks.countP (fun c => q c && p c) = chunks.countP q := by
  have hdetach : (deleteChunks p chunks).countP q = (chunks.filter fun c => !p c).countP q := by
    unfold deleteChunks
    rw [List.countP_map]
    apply List.countP_congr
    intro c _
    simp [hq]
  rw [hdetach, ← List.countP_filter, List.countP_eq_countP_filter_add chunks q p, Nat.add_comm]

theorem deleteChunks_of_none {p : Chunk → Bool} {chunks : List Chunk}
    (h : ∀ c ∈ chunks, p c = false) : deleteChunks p chunks = chunks := by
  have hkeep : chunks.filter (fun c => !p c) = chunks := by
    rw [List.filter_eq_self]
    intro c hc
    simp [h c hc]
  have hgone : chunks.filter p = [] := by
    rw [List.filter_eq_nil_iff]
    intro c hc
    simp [h c hc]
  unfold deleteChunks
  rw [hkeep, hgone]
  have hid : ∀ c ∈ chunks, Chunk.detach [] c = c := by
    intro c _
    simp [Chunk.detach]
  exact (List.map_congr_left hid).trans (List.map_id chunks)

theorem getChunk_eq_ok {chunks : List Chunk} {chunkId : Nat} {c : Chunk}
    (h : getChunk chunks chunkId = .ok c) : c ∈ chunks ∧ c.id = chunkId := by
  unfold getChunk at h
  cases hf : chunks.find? fun c => c.id = chunkId with
  | none => simp [hf] at h
  | some d =>
      have hd : d = c := by simpa [hf] using h
      subst hd
      exact ⟨List.mem_of_find?_eq_some hf, by simpa using List.find?_some hf⟩

theorem length_segments (content : String) (positions : List Int) :
    (segments content positions).length = positions.length + 1 := by
  simp [segments]

/-- Rows of one unit, with ids drawn between two states of the supply. -/
structure NewRows (unitType : UnitType) (unitId kbId next next' : Nat) (rows : List Chunk) : Prop where
  le : next ≤ next'
  nodup : (rows.map Chunk.id).Nodup
  fresh : ∀ c ∈ rows, next ≤ c.id ∧ c.id < next'
  unit : ∀ c ∈ rows, c.unitType = unitType ∧ c.unitId = unitId ∧ c.knowledgeBaseId = kbId

theorem NewRows.nil (unitType : UnitType) (unitId kbId : Nat) {next next' : Nat}
    (h : next ≤ next') : NewRows unitType unitId kbId next next' [] :=
  ⟨h, List.nodup_nil, by simp, by simp⟩

theorem newRows_mapIdx {α : Type*} {unitType : UnitType} {unitId kbId next : Nat}
    {f : Nat → α → Chunk} (hid : ∀ i x, (f i x).id = next + i)
    (hunit : ∀ i x, (f i x).unitType = unitType ∧ (f i x).unitId = unitId ∧
      (f i x).knowledgeBaseId = kbId) (xs : List α) :
    NewRows unitType unitId kbId next (next + xs.length) (xs.mapIdx f) := by
  have hids : (xs.mapIdx f).map Chunk.id = List.range' next xs.length := by
    apply List.ext_getElem
    · simp
    · intro i hi hi'
      simp [hid]
  refine ⟨Nat.le_add_right _ _, ?_, ?_, ?_⟩
  · rw [hids]
    exact List.nodup_range'
  · intro c hc
    have hmem : c.id ∈ List.range' next xs.length := hids ▸ List.mem_map_of_mem hc
    rwa [List.mem_range'_1] at hmem
  · intro c hc
    obtain ⟨i, hi, rfl⟩ := List.mem_mapIdx.1 hc
    exact hunit i _

theorem NewRows.map_detach {unitType : UnitType} {unitId kbId next next' : Nat} {rows : List Chunk}
    (h : NewRows unitType unitId kbId next next' rows) (gone : List Nat) :
    NewRows unitType unitId kbId next next' (rows.map (Chunk.detach gone)) := by
  refine ⟨h.le, ?_, ?_, ?_⟩
  · have hids : (rows.map (Chunk.detach gone)).map Chunk.id = rows.map Chunk.id := by
      simp [List.map_map, Function.comp_def]
    exact hids ▸ h.nodup
  · intro c hc
    obtain ⟨d, hd, rfl⟩ := List.mem_map.1 hc
    simpa using h.fresh d hd
  · intro c hc
    obtain ⟨d, hd, rfl⟩ := List.mem_map.1 hc
    simpa using h.unit d hd

/-- A split makes at least two rows of the same unit, flagged as the source is. -/
theorem splitRows_spec {c : Chunk} {splitPositions : List Int} {next : Nat} {rows : List Chunk}
    (h : splitRows c splitPositions next = .ok rows) :
    2 ≤ rows.length ∧
      NewRows c.unitType c.unitId c.knowledgeBaseId next (next + rows.length) rows ∧
      ∀ r ∈ rows, r.reviewExcluded = c.reviewExcluded ∧ r.vectorId = none := by
  unfold splitRows at h
  simp only at h
  split at h
  · cases h
  · next hvalid =>
      have hne : (sortedPositions splitPositions).length ≠ 0 := by
        intro hzero
        simp [List.length_eq_zero_iff.1 hzero] at hvalid
      cases h
      refine ⟨?_, ?_, ?_⟩
      · rw [List.length_mapIdx, length_segments]
        omega
      · rw [List.length_mapIdx]
        exact newRows_mapIdx (f := splitPiece c next) (fun _ _ => rfl) (fun _ _ => ⟨rfl, rfl, rfl⟩) _
      · intro r hr
        obtain ⟨i, hi, rfl⟩ := List.mem_mapIdx.1 hr
        exact ⟨rfl, rfl⟩

theorem mergedChunk_new (next : Nat) (first : Chunk) (rest : List Chunk) :
    NewRows first.unitType first.unitId first.knowledgeBaseId next (next + 1)
      [mergedChunk next first rest] :=
  ⟨Nat.le_succ next, List.nodup_singleton _, by simp [mergedChunk], by simp [mergedChunk]⟩

structure MergeSources (chunks : List Chunk) (chunkIds : List Nat) (first : Chunk)
    (rest : List Chunk) : Prop where
  named : ∀ c, c ∈ first :: rest ↔ ∃ i ∈ chunkIds, getChunk chunks i = .ok c
  found : ∀ i ∈ chunkIds, ∃ c, getChunk chunks i = .ok c
  unit : ∀ c ∈ rest, c.unitType = first.unitType ∧ c.unitId = first.unitId
  many : 2 ≤ chunkIds.length

theorem eq_of_dedup_length_le_one {α : Type*} [DecidableEq α] {xs : List α}
    (h : xs.dedup.length ≤ 1) {a b : α} (ha : a ∈ xs) (hb : b ∈ xs) : a = b := by
  have ha' := List.mem_dedup.2 ha
  have hb' := List.mem_dedup.2 hb
  cases hd : xs.dedup with
  | nil => simp [hd] at ha'
  | cons x rest =>
      cases rest with
      | nil =>
          rw [hd, List.mem_singleton] at ha' hb'
          rw [ha', hb']
      | cons y ys =>
          rw [hd] at h
          simp at h

theorem mergeSources_eq_ok {chunks : List Chunk} {chunkIds : List Nat} {first : Chunk}
    {rest : List Chunk} (h : mergeSources chunks chunkIds = .ok (first, rest)) :
    2 ≤ chunkIds.length ∧ ∃ sources, chunkIds.mapM (getChunk chunks) = .ok sources ∧
      (sources.map fun c => (c.unitType, c.unitId)).dedup.length ≤ 1 ∧
      orderBy Chunk.position sources = first :: rest := by
  unfold mergeSources at h
  simp only [bind, Except.bind, pure, Except.pure, throw, throwThe, MonadExceptOf.throw] at h
  split at h
  · cases h
  · next hmany =>
      cases hs : chunkIds.mapM (getChunk chunks) with
      | error e => simp [hs] at h
      | ok sources =>
          simp only [hs] at h
          split at h
          · cases h
          · next hone =>
              cases ho : orderBy Chunk.position sources with
              | nil => simp [ho] at h
              | cons f r =>
                  have hfr : f = first ∧ r = rest := by simpa [ho] using h
                  obtain ⟨rfl, rfl⟩ := hfr
                  exact ⟨Nat.not_lt.1 hmany, sources, rfl, Nat.not_lt.1 hone, ho⟩

theorem mergeSources_spec {chunks : List Chunk} {chunkIds : List Nat} {first : Chunk}
    {rest : List Chunk} (h : mergeSources chunks chunkIds = .ok (first, rest)) :
    MergeSources chunks chunkIds first rest := by
  obtain ⟨hmany, sources, hs, hone, ho⟩ := mergeSources_eq_ok h
  have hmem : ∀ c, c ∈ first :: rest ↔ c ∈ sources := by
    intro c
    rw [← ho]
    exact mem_orderBy
  refine ⟨?_, ?_, ?_, hmany⟩
  · intro c
    rw [hmem]
    exact mem_of_mapM_eq_ok hs
  · intro i hi
    exact ok_of_mapM_eq_ok hs hi
  · intro c hc
    have hcs := (hmem c).1 (List.mem_cons_of_mem first hc)
    have hfs := (hmem first).1 List.mem_cons_self
    have heq := eq_of_dedup_length_le_one hone
      (List.mem_map_of_mem (f := fun c : Chunk => (c.unitType, c.unitId)) hcs)
      (List.mem_map_of_mem (f := fun c : Chunk => (c.unitType, c.unitId)) hfs)
    exact ⟨congrArg Prod.fst heq, congrArg Prod.snd heq⟩

section SeedRows

variable {unitType : UnitType} {unitId kbId next : Nat} {reviewStatus : Option ReviewStatus}
  {chunkTags : List String} {seeds : List ChunkSeed}

theorem length_seedRows :
    (seedRows unitType unitId kbId reviewStatus chunkTags next seeds).length = seeds.length := by
  simp [seedRows]

theorem seedRows_new : NewRows unitType unitId kbId next (next + seeds.length)
    (seedRows unitType unitId kbId reviewStatus chunkTags next seeds) := by
  unfold seedRows
  apply newRows_mapIdx
  · intro i seed
    rfl
  · intro i seed
    exact ⟨rfl, rfl, rfl⟩

theorem seedRows_fields :
    ∀ r ∈ seedRows unitType unitId kbId reviewStatus chunkTags next seeds,
      r.reviewExcluded = excludedStatus reviewStatus ∧ r.vectorId = none := by
  intro r hr
  obtain ⟨i, hi, rfl⟩ := List.mem_mapIdx.1 hr
  exact ⟨rfl, rfl⟩

end SeedRows

end OpsKnowledge.Knowledge
