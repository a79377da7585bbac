import OpsKnowledge.Knowledge.Vectors
import OpsKnowledge.Lib.Packing

/-!
# Storing vectors batch by batch

`EmbeddingService.embed_and_store`, whose provider may answer a batch with any number of vectors
or raise, and the ids that `embed_unit_chunks` writes with what it returns.
-/

namespace OpsKnowledge.Knowledge

open OpsKnowledge.Lib
open Workflow (Json)

/-- A row of a collection, less its id. -/
structure MilvusRow (Vec : Type) where
  denseVector : Vec
  content : String
  documentId : Nat
  folderId : Option Nat
  level : Nat
  position : Nat
  title : String
  metadataJson : String
  chunkTags : List String

/-- The arguments of a run, and what the provider and Milvus do on its batches. -/
structure EmbedEnv (Vec ε : Type) where
  threshold : Int := contextPrefixCharThreshold
  title : String := ""
  /-- `json.dumps` -/
  dumps : Dict String Json → String
  respond : Nat → List String → Except ε (List Vec)
  upsert : Nat → Except ε Unit

inductive EmbedError (ε : Type) where
  | valueError (message : String)
  | raised (e : ε)

/-- The rows that have gone to the collection, and `all_ids`. -/
structure EmbedProgress (Vec : Type) where
  rows : List (Nat × MilvusRow Vec) := []
  allIds : List Nat := []

section Run

variable {Vec ε : Type} (env : EmbedEnv Vec ε)

def EmbedEnv.row (c : Chunk) (vec : Vec) : MilvusRow Vec where
  denseVector := vec
  content := storedContent c
  documentId := c.unitId
  folderId := c.folderId
  level := c.level
  position := c.position
  title := slice env.title 0 500
  metadataJson := slice (env.dumps c.metadata) 0 65535
  chunkTags := storedTags c.chunkTags

/-- `zip(batch, vectors)` -/
def EmbedEnv.rows (batch : List Chunk) (vectors : List Vec) : List (Nat × MilvusRow Vec) :=
  List.zipWith (fun c vec => (c.id, env.row c vec)) batch vectors

/-- The texts of a batch go to the provider. -/
def EmbedEnv.vectors (k : Nat) (batch : List Chunk) : Except ε (List Vec) :=
  env.respond k (batch.map (buildEmbeddingText env.threshold))

def batchesOf (batchSize : Int) (chunks : List Chunk) : Except (EmbedError ε) (List (List Chunk)) :=
  if batchSize = 0 then .error (.valueError "range() arg 3 must not be zero")
  else if batchSize < 0 then .ok []
  else .ok (slices batchSize.toNat chunks)

/-- The loop, from batch `k` on. -/
def storeBatches : Nat → List (List Chunk) → EmbedProgress Vec → Except (EmbedError ε) (EmbedProgress Vec)
  | _, [], progress => .ok progress
  | k, batch :: batches, progress =>
      match env.vectors k batch, env.upsert k with
      | .ok vectors, .ok () =>
          storeBatches (k + 1) batches {
            rows := progress.rows ++ env.rows batch vectors
            allIds := progress.allIds ++ batch.map Chunk.id }
      | .error e, _ => .error (.raised e)
      | .ok _, .error e => .error (.raised e)

/-- `embed_and_store`; it returns `all_ids`. -/
def embedAndStore (batchSize : Int) (chunks : List Chunk) : Except (EmbedError ε) (EmbedProgress Vec) := do
  storeBatches env 0 (← batchesOf batchSize chunks) {}

/-- The update of `embed_unit_chunks` for each returned id. -/
def writeVectorIds (vectorIds : List Nat) (table : List Chunk) : List Chunk :=
  updateWhere (fun c => c.id ∈ vectorIds) (fun c => { c with vectorId := some c.id }) table

/-! ## What is returned and what is stored -/

/-- A run returns the ids of its rows, and a chunk that the caller then changes has its row in the
collection. -/
structure ReturnsStored (batchSize : Int) (chunks : List Chunk) : Prop where
  exact : ∀ progress, embedAndStore env batchSize chunks = .ok progress →
    ∀ i, i ∈ progress.allIds ↔ i ∈ progress.rows.map Prod.fst
  backed : ∀ progress, embedAndStore env batchSize chunks = .ok progress →
    ∀ (collection : Store Nat (MilvusRow Vec)) (table : List Chunk),
      ∀ c ∈ writeVectorIds progress.allIds table, c ∉ table →
        ∃ row, (c.id, row) ∈ progress.rows ∧ collection.upsert progress.rows c.id = some row

/-- The chunks that get a vector when no batch raises. -/
def answered : Nat → List (List Chunk) → Option (List Chunk)
  | _, [] => some []
  | k, batch :: batches =>
      match env.vectors k batch, env.upsert k with
      | .ok vectors, .ok () => (answered (k + 1) batches).map (batch.take vectors.length ++ ·)
      | _, _ => none

variable {env} {batchSize : Int} {chunks : List Chunk}

theorem map_fst_rows (batch : List Chunk) (vectors : List Vec) :
    (env.rows batch vectors).map Prod.fst = (batch.take vectors.length).map Chunk.id := by
  unfold EmbedEnv.rows
  induction batch generalizing vectors with
  | nil => simp
  | cons c batch ih =>
      cases vectors with
      | nil => rfl
      | cons vec vectors => simp [ih vectors]

/-- The loop adds the ids of all chunks, and rows for those that are answered. -/
theorem storeBatches_eq_ok {k : Nat} {batches : List (List Chunk)} {progress done : EmbedProgress Vec}
    (h : storeBatches env k batches progress = .ok done) : ∃ got, answered env k batches = some got ∧
      done.allIds = progress.allIds ++ batches.flatten.map Chunk.id ∧
      done.rows.map Prod.fst = progress.rows.map Prod.fst ++ got.map Chunk.id := by
  induction batches generalizing k progress with
  | nil =>
      cases h
      exact ⟨[], rfl, by simp, by simp⟩
  | cons batch batches ih =>
      rw [storeBatches] at h
      rw [answered]
      split at h
      · next vectors hvectors hupsert =>
          obtain ⟨got, hgot, hids, hrows⟩ := ih h
          refine ⟨batch.take vectors.length ++ got, by simp [hvectors, hupsert, hgot], ?_, ?_⟩
          · rw [hids, List.flatten_cons, List.map_append, List.append_assoc]
          · rw [hrows, List.map_append, List.map_append, map_fst_rows, List.append_assoc]
      · cases h
      · cases h

/-- When no batch raises, the loop comes to its end. -/
theorem exists_storeBatches {k : Nat} {batches : List (List Chunk)} {got : List Chunk}
    (h : answered env k batches = some got) (progress : EmbedProgress Vec) :
    ∃ done, storeBatches env k batches progress = .ok done := by
  induction batches generalizing k got progress with
  | nil => exact ⟨progress, rfl⟩
  | cons batch batches ih =>
      rw [answered] at h
      rw [storeBatches]
      split at h
      · next vectors hvectors hupsert =>
          obtain ⟨rest, hrest, -⟩ := Option.map_eq_some_iff.1 h
          simp only [hvectors, hupsert]
          exact ih hrest _
      · cases h

theorem answered_sublist {k : Nat} {batches : List (List Chunk)} {got : List Chunk}
    (h : answered env k batches = some got) : got.Sublist batches.flatten := by
  induction batches generalizing k got with
  | nil =>
      cases h
      exact List.Sublist.refl _
  | cons batch batches ih =>
      rw [answered] at h
      split at h
      · obtain ⟨rest, hrest, rfl⟩ := Option.map_eq_some_iff.1 h
        exact (List.take_sublist _ batch).append (ih hrest)
      · cases h

/-- An upserted id is found in the collection, with one of the rows. -/
theorem exists_upsert_eq (collection : Store Nat (MilvusRow Vec)) {rows : List (Nat × MilvusRow Vec)}
    {i : Nat} (h : i ∈ rows.map Prod.fst) : ∃ row, (i, row) ∈ rows ∧ collection.upsert rows i = some row := by
  obtain ⟨⟨_, row⟩, hrow, rfl⟩ := List.mem_map.1 h
  rcases Store.upsert_cases collection rows _ with hstored | ⟨hnone, -⟩
  · exact hstored
  · exact absurd hrow (hnone row)

theorem id_mem_of_changed {vectorIds : List Nat} {table : List Chunk} {c : Chunk}
    (h : c ∈ writeVectorIds vectorIds table) (hchanged : c ∉ table) : c.id ∈ vectorIds := by
  obtain ⟨a, ha, rfl⟩ := mem_updateWhere.1 h
  by_cases hid : a.id ∈ vectorIds
  · simp [hid]
  · simp only [hid, decide_false] at hchanged
    exact absurd ha hchanged

/-- The ids are exact when a batch raises, or each chunk has the id of one that is answered. -/
theorem returnsStored_iff (env : EmbedEnv Vec ε) (batchSize : Int) (chunks : List Chunk) :
    ReturnsStored env batchSize chunks ↔
      ∀ batches got, batchesOf batchSize chunks = .ok (ε := EmbedError ε) batches →
        answered env 0 batches = some got → ∀ c ∈ batches.flatten, ∃ c' ∈ got, c'.id = c.id := by
  constructor
  · intro h batches got hbatches hgot c hc
    obtain ⟨done, hdone⟩ := exists_storeBatches hgot {}
    obtain ⟨got', hgot', hids, hrows⟩ := storeBatches_eq_ok hdone
    cases hgot.symm.trans hgot'
    have hexact := h.exact done (bind_eq_ok.2 ⟨batches, hbatches, hdone⟩) c.id
    rw [hids, hrows] at hexact
    obtain ⟨c', hc', hid⟩ := List.mem_map.1 (hexact.1 (List.mem_map_of_mem hc))
    exact ⟨c', hc', hid⟩
  · intro h
    have hexact : ∀ progress, embedAndStore env batchSize chunks = .ok progress →
        ∀ i, i ∈ progress.allIds ↔ i ∈ progress.rows.map Prod.fst := by
      intro progress hrun i
      obtain ⟨batches, hbatches, hrun⟩ := bind_eq_ok.1 hrun
      obtain ⟨got, hgot, hids, hrows⟩ := storeBatches_eq_ok hrun
      rw [hids, hrows]
      show i ∈ batches.flatten.map Chunk.id ↔ i ∈ got.map Chunk.id
      constructor
      · intro hi
        obtain ⟨c, hc, rfl⟩ := List.mem_map.1 hi
        obtain ⟨c', hc', hid⟩ := h batches got hbatches hgot c hc
        exact List.mem_map.2 ⟨c', hc', hid⟩
      · exact fun hi => ((answered_sublist hgot).map Chunk.id).subset hi
    refine ⟨hexact, ?_⟩
    intro progress hrun collection table c hc hchanged
    exact exists_upsert_eq collection ((hexact progress hrun c.id).1 (id_mem_of_changed hc hchanged))

end Run

/-- With a vector for each text, named by the text, a batch stores the rows of `storeBatch`. -/
theorem rows_named {ε : Type} (env : EmbedEnv String ε) (batch : List Chunk) :
    (env.rows batch (batch.map (buildEmbeddingText env.threshold))).map (fun row =>
      (row.1, { denseVector := row.2.denseVector, content := row.2.content, documentId := row.2.documentId
                folderId := row.2.folderId, level := row.2.level, position := row.2.position
                chunkTags := row.2.chunkTags : VectorRow })) =
      batch.map fun c => (c.id, milvusRow env.threshold c) := by
  unfold EmbedEnv.rows
  induction batch with
  | nil => rfl
  | cons c batch ih => simpa [EmbedEnv.row, milvusRow] using ih

/-- A provider that leaves the last text of a batch out. -/
def shortProvider : EmbedEnv Unit Empty where
  dumps _ := "\x7b\x7d"
  respond _ texts := .ok (texts.tail.map fun _ => ())
  upsert _ := .ok ()

def twoChunks : List Chunk :=
  [{ id := 1, unitType := .document, unitId := 1, knowledgeBaseId := 1, content := "first" },
   { id := 2, unitType := .document, unitId := 1, knowledgeBaseId := 1, content := "second" }]

/-- The second chunk is returned, and has no row. -/
theorem shortProvider_not_returnsStored : ¬ ∀ (env : EmbedEnv Unit Empty) (batchSize : Int)
    (chunks : List Chunk), ReturnsStored env batchSize chunks := by
  intro h
  have hexact := (h shortProvider 64 twoChunks).exact _ rfl 2
  revert hexact
  decide

end OpsKnowledge.Knowledge
