import Mathlib.Data.List.Infix
import OpsKnowledge.Lib.KeyValue
import OpsKnowledge.Lib.Table
import OpsKnowledge.Knowledge.ChunkService

/-!
# Vectors of chunks

The row that embedding stores for a chunk, and the steps of `embed_unit_chunks` on the
table of chunks and on a collection: it reads the chunks without a vector, stores them
batch by batch, and sets their vector ids at the end. A vector is named by the text that
it was computed from.
-/

namespace OpsKnowledge.Knowledge

open OpsKnowledge.Lib
open Workflow (Json)

structure VectorRow where
  denseVector : String
  content : String
  documentId : Nat
  folderId : Option Nat
  level : Nat
  position : Nat
  chunkTags : List String

abbrev Collection := Store Nat VectorRow

/-- `_CONTEXT_PREFIX_CHAR_THRESHOLD` -/
def contextPrefixCharThreshold : Int := 100

/-- `metadata.get("heading") or ""`; headings are strings. -/
def Chunk.heading (c : Chunk) : String :=
  match c.metadata.get? "heading" with
  | some (.str s) => s
  | _ => ""

/-- `_build_embedding_text` -/
def buildEmbeddingText (threshold : Int) (c : Chunk) : String :=
  let start := c.heading ++ "\n\n"
  if c.heading ≠ "" ∧ 0 < threshold ∧ (c.content.length : Int) < threshold ∧
      ¬ start.toList <:+: c.content.toList then
    start ++ c.content
  else c.content

/-- The content field of the collection. -/
def storedContent (c : Chunk) : String := slice c.content 0 65535

/-- The tags as the collection holds them. -/
def storedTags (tags : List String) : List String :=
  ((tags.filter (· ≠ "")).map fun t => slice t 0 64).take 20

def milvusRow (threshold : Int) (c : Chunk) : VectorRow :=
  { denseVector := buildEmbeddingText threshold c, content := storedContent c
    documentId := c.unitId, folderId := c.folderId, level := c.level, position := c.position
    chunkTags := storedTags c.chunkTags }

/-! ## Embedding -/

/-- A run of `embed_and_store`: the chunks that it has still to store, and those that it stored. -/
structure EmbedRun where
  pending : List Chunk
  stored : List Chunk := []

/-- A run of `embed_unit_chunks` -/
structure EmbedTask extends EmbedRun where
  unitType : UnitType
  unitId : Nat

/-- The chunks whose `vector_id` is still to be set, in position order. -/
def unembedded (unitType : UnitType) (unitId : Nat) (chunks : List Chunk) : List Chunk :=
  orderBy Chunk.position (chunks.filter fun c => c.inUnit unitType unitId && c.vectorId.isNone)

def batchSize : Nat := 64

/-- One batch of `embed_and_store`. -/
def storeBatch (threshold : Int) (batch : List Chunk) (collection : Collection) : Collection :=
  collection.upsert (batch.map fun c => (c.id, milvusRow threshold c))

def EmbedRun.next (run : EmbedRun) : EmbedRun :=
  { pending := run.pending.drop batchSize, stored := run.stored ++ run.pending.take batchSize }

def EmbedTask.next (task : EmbedTask) : EmbedTask :=
  { task with toEmbedRun := task.toEmbedRun.next }

/-- The last session of a task: `vector_id` of every chunk that it stored. -/
def setVectorIds (stored chunks : List Chunk) : List Chunk :=
  updateWhere (fun c => c.id ∈ stored.map Chunk.id) (fun c => { c with vectorId := some c.id }) chunks

theorem mem_unembedded {unitType : UnitType} {unitId : Nat} {chunks : List Chunk} {c : Chunk} :
    c ∈ unembedded unitType unitId chunks ↔
      c ∈ chunks ∧ c.inUnit unitType unitId = true ∧ c.vectorId = none := by
  unfold unembedded
  rw [mem_orderBy, List.mem_filter, Bool.and_eq_true, Option.isNone_iff_eq_none]

/-- What a batch leaves under an id: a row of the batch, or the old row of a chunk out of it. -/
theorem storeBatch_cases (threshold : Int) (batch : List Chunk) (collection : Collection) (i : Nat) :
    (∃ d ∈ batch, d.id = i ∧ storeBatch threshold batch collection i = some (milvusRow threshold d)) ∨
      (∀ d ∈ batch, d.id ≠ i) ∧ storeBatch threshold batch collection i = collection i := by
  unfold storeBatch
  rcases Store.upsert_cases collection (batch.map fun c => (c.id, milvusRow threshold c)) i with
    ⟨row, hrow, heq⟩ | ⟨hnone, heq⟩
  · obtain ⟨d, hd, hpair⟩ := List.mem_map.1 hrow
    obtain ⟨rfl, rfl⟩ := Prod.mk.inj hpair
    exact .inl ⟨d, hd, rfl, heq⟩
  · refine .inr ⟨?_, heq⟩
    intro d hd hid
    exact hnone (milvusRow threshold d) (List.mem_map.2 ⟨d, hd, by rw [hid]⟩)

theorem mem_next_stored {run : EmbedRun} {d : Chunk} (h : d ∈ run.next.stored) :
    d ∈ run.stored ∨ d ∈ run.pending.take batchSize := List.mem_append.1 h

theorem mem_pending_of_next {run : EmbedRun} {d : Chunk} (h : d ∈ run.next.pending) :
    d ∈ run.pending := List.mem_of_mem_drop h

theorem mem_take_or_next {run : EmbedRun} {d : Chunk} (h : d ∈ run.pending) :
    d ∈ run.pending.take batchSize ∨ d ∈ run.next.pending := by
  rw [← List.take_append_drop batchSize run.pending] at h
  exact List.mem_append.1 h

/-- A batch moves chunks from one part of the run to the other. -/
theorem mem_next {run : EmbedRun} {d : Chunk} :
    d ∈ run.next.pending ++ run.next.stored ↔ d ∈ run.pending ++ run.stored := by
  have hsplit : d ∈ run.pending ↔ d ∈ run.pending.take batchSize ∨ d ∈ run.pending.drop batchSize := by
    rw [← List.mem_append, List.take_append_drop]
  simp only [EmbedRun.next, List.mem_append, hsplit]
  tauto

end OpsKnowledge.Knowledge
