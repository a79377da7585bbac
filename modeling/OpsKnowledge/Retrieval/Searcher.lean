import Mathlib.Algebra.Order.Field.Rat
import OpsKnowledge.Lib.Dict
import OpsKnowledge.Lib.OrderBy
import OpsKnowledge.Workflow.Dsl

/-!
# Hybrid search

`searcher.py`: the dense and the keyword search of one collection, merged by reciprocal rank
with a boost for tags, and the search over several bases. Milvus is a client whose answers
are not determined here; a filter expression is taken for the predicate that it spells.
Scores are rational numbers, and rounding is left out.
-/

namespace OpsKnowledge.Retrieval

open OpsKnowledge.Lib
open Workflow (Json)

/-- `xs[:k]` -/
def sliceTo {α : Type} (k : Int) (xs : List α) : List α :=
  if 0 ≤ k then xs.take k.toNat else xs.take (xs.length - (-k).toNat)

@[simp] theorem sliceTo_nil {α : Type} (k : Int) : sliceTo k ([] : List α) = [] := by
  unfold sliceTo
  split <;> exact List.take_nil

/-- The output fields of a row; the metadata as `_parse_meta` reads them. -/
structure Entity where
  content : String
  documentId : Nat
  folderId : String
  level : Nat
  title : String
  metadata : Dict String Json
  chunkTags : List String

structure Hit where
  id : Nat
  distance : ℚ
  entity : Entity

structure SearchResult where
  chunkId : Nat
  content : String
  score : ℚ
  documentId : Nat
  folderId : String
  level : Nat
  title : String
  metadata : Dict String Json
  sourceKbId : Option String := none
  denseScore : Option ℚ := none
  bm25Score : Option ℚ := none
  rerankScore : Option ℚ := none

/-- A `tag_filter`; an absent key is an empty list. -/
structure TagFilter where
  anyOf : List String := []
  allOf : List String := []
  notIn : List String := []

/-- `_build_tag_filter_expr`; `_quote_list` drops empty tags. -/
def TagFilter.admits (f : TagFilter) (tags : List String) : Bool :=
  let quoted (xs : List String) := xs.filter (· ≠ "")
  (f.anyOf.isEmpty || tags.any (· ∈ quoted f.anyOf)) && (quoted f.allOf).all (· ∈ tags) &&
    !tags.any (· ∈ quoted f.notIn)

/-- The filter expression of a search. -/
def rowFilter (folderIds : List String) (tagFilter : TagFilter) (e : Entity) : Bool :=
  (folderIds.isEmpty || e.folderId ∈ folderIds) && tagFilter.admits e.chunkTags

/-- The searches of the client, of a collection with a limit and a filter; `none` when one raises. A hit
passes the filter. -/
structure MilvusClient (Vec : Type) where
  collectionExists : String → Bool
  searchDense : String → Vec → Nat → (Entity → Bool) → Option (List Hit)
  searchBm25 : String → String → Nat → (Entity → Bool) → Option (List Hit)
  dense_passes : ∀ {collection vector limit filter hits},
    searchDense collection vector limit filter = some hits → ∀ h ∈ hits, filter h.entity = true
  bm25_passes : ∀ {collection text limit filter hits},
    searchBm25 collection text limit filter = some hits → ∀ h ∈ hits, filter h.entity = true

/-- The arguments that every base is searched with. -/
structure SearchRequest (Vec : Type) where
  queryVector : Vec
  queryText : String
  topK : Int
  folderIds : List String
  bm25Weight : ℚ
  vectorWeight : ℚ
  tagFilter : TagFilter
  tagBoostWeight : ℚ

/-! ## Merging the two routes -/

def rrfK : ℚ := 60

/-- A row of the merged hits. -/
structure MergedRow where
  entity : Entity
  denseScore : Option ℚ := none
  denseRank : Option Nat := none
  bm25Score : Option ℚ := none
  bm25Rank : Option Nat := none
  fused : ℚ := 0

def mergeDense (merged : Dict Nat MergedRow) (ranked : Hit × Nat) : Dict Nat MergedRow :=
  let hit := ranked.1
  let row := (merged.get? hit.id).getD { entity := hit.entity }
  merged.set hit.id { row with denseScore := some hit.distance, denseRank := some ranked.2 }

def mergeBm25 (merged : Dict Nat MergedRow) (ranked : Hit × Nat) : Dict Nat MergedRow :=
  let hit := ranked.1
  let row := (merged.get? hit.id).getD { entity := hit.entity }
  merged.set hit.id { row with bm25Score := some hit.distance, bm25Rank := some ranked.2 }

/-- The hits of both routes by chunk, in the order of their first occurrence. -/
def mergeHits (denseHits bm25Hits : List Hit) : Dict Nat MergedRow :=
  bm25Hits.zipIdx.foldl mergeBm25 (denseHits.zipIdx.foldl mergeDense Dict.empty)

/-- The part of a route in the fused score, by its 0-based rank. -/
def rrfPart (weight : ℚ) : Option Nat → ℚ
  | none => 0
  | some rank => weight * (1 / (rrfK + rank + 1))

def MergedRow.rrf (row : MergedRow) (vectorWeight bm25Weight : ℚ) : ℚ :=
  rrfPart vectorWeight row.denseRank + rrfPart bm25Weight row.bm25Rank

/-! ## Tag boost -/

/-- `_DEFAULT_TOP_K_CANONICALS` -/
def defaultTopKCanonicals : Nat := 5

/-- `_select_relevant_canonicals` -/
def selectRelevantCanonicals {Vec : Type} (cosineSim : Vec → Vec → ℚ) (queryVector : Vec)
    (canonicalEmbeddings : List (String × Vec)) : List String :=
  let scored := canonicalEmbeddings.map fun c => (c.1, cosineSim queryVector c.2)
  (((orderByDesc Prod.snd scored).take defaultTopKCanonicals).filter fun c => 0 < c.2).map Prod.fst

/-- What `_apply_tag_boost` adds to a row. -/
def tagBoost (relevant : List String) (boostWeight : ℚ) (row : MergedRow) : ℚ :=
  if 0 < boostWeight then row.entity.chunkTags.countP (· ∈ relevant) * boostWeight else 0

/-! ## Search -/

/-- `kb_collection_name` -/
def kbCollectionName (kbId : String) : String :=
  "kb_" ++ String.ofList (kbId.toList.map fun c => if c = '-' then '_' else c)

def MergedRow.toResult (row : MergedRow) (chunkId : Nat) : SearchResult :=
  { chunkId := chunkId, content := row.entity.content, score := row.fused
    documentId := row.entity.documentId, folderId := row.entity.folderId, level := row.entity.level
    title := row.entity.title, metadata := row.entity.metadata
    denseScore := row.denseScore, bm25Score := row.bm25Score }

section Search

variable {Vec : Type} (client : MilvusClient Vec) (cosineSim : Vec → Vec → ℚ)

def perRouteK (topK : Int) : Nat := (max (topK * 2) 20).toNat

/-- The merged rows with their final scores. -/
def scoredRows (request : SearchRequest Vec) (canonicalEmbeddings : List (String × Vec))
    (denseHits bm25Hits : List Hit) : List (Nat × MergedRow) :=
  let relevant := selectRelevantCanonicals cosineSim request.queryVector canonicalEmbeddings
  (mergeHits denseHits bm25Hits).entries.map fun e =>
    (e.1, { e.2 with fused := e.2.rrf request.vectorWeight request.bm25Weight +
                      tagBoost relevant request.tagBoostWeight e.2 })

/-- `HybridSearcher.search` -/
def search (request : SearchRequest Vec) (canonicalEmbeddings : List (String × Vec))
    (collectionName : String) : Option (List SearchResult) :=
  if !client.collectionExists collectionName then some []
  else do
    let filterExpr := rowFilter request.folderIds request.tagFilter
    let limit := perRouteK request.topK
    let denseHits ← client.searchDense collectionName request.queryVector limit filterExpr
    let bm25Hits ← client.searchBm25 collectionName request.queryText limit filterExpr
    let rows := scoredRows cosineSim request canonicalEmbeddings denseHits bm25Hits
    let ranked := sliceTo request.topK (orderByDesc (fun e => e.2.fused) rows)
    some (ranked.map fun e => e.2.toResult e.1)

/-- `_search_one`; a base whose search raises is left out. -/
def searchOne (request : SearchRequest Vec) (canonicalEmbeddingsByKb : Dict String (List (String × Vec)))
    (kbId : String) : List SearchResult :=
  let canonicalEmbeddings := (canonicalEmbeddingsByKb.get? kbId).getD []
  let hits := (search client cosineSim request canonicalEmbeddings (kbCollectionName kbId)).getD []
  hits.map fun r => { r with sourceKbId := some kbId }

/-- `HybridSearcher.multi_kb_search` -/
def multiKbSearch (request : SearchRequest Vec)
    (canonicalEmbeddingsByKb : Dict String (List (String × Vec))) (kbIds : List String) :
    List SearchResult :=
  sliceTo request.topK
    (orderByDesc SearchResult.score
      (kbIds.flatMap (searchOne client cosineSim request canonicalEmbeddingsByKb)))

variable {client} {cosineSim} {request : SearchRequest Vec} {emb : Dict String (List (String × Vec))}

theorem searchOne_of_hits {kbId : String} {denseHits bm25Hits : List Hit}
    (hexists : client.collectionExists (kbCollectionName kbId) = true)
    (hdense : client.searchDense (kbCollectionName kbId) request.queryVector (perRouteK request.topK)
      (rowFilter request.folderIds request.tagFilter) = some denseHits)
    (hbm25 : client.searchBm25 (kbCollectionName kbId) request.queryText (perRouteK request.topK)
      (rowFilter request.folderIds request.tagFilter) = some bm25Hits) :
    searchOne client cosineSim request emb kbId =
      (sliceTo request.topK (orderByDesc (fun e => e.2.fused)
        (scoredRows cosineSim request ((emb.get? kbId).getD []) denseHits bm25Hits))).map fun e =>
          { e.2.toResult e.1 with sourceKbId := some kbId } := by
  unfold searchOne search
  simp [hexists, hdense, hbm25]

/-- Where no row passes the filter, no route has a hit. -/
theorem searchOne_eq_nil (hfilter : ∀ e, rowFilter request.folderIds request.tagFilter e = false)
    (kbId : String) : searchOne client cosineSim request emb kbId = [] := by
  have hnone : ∀ hits : List Hit,
      (∀ h ∈ hits, rowFilter request.folderIds request.tagFilter h.entity = true) → hits = [] := by
    intro hits hpass
    apply List.eq_nil_iff_forall_not_mem.2
    intro h hh
    exact absurd (hpass h hh) (by rw [hfilter]; decide)
  cases hexists : client.collectionExists (kbCollectionName kbId) with
  | false => simp [searchOne, search, hexists]
  | true =>
      cases hdense : client.searchDense (kbCollectionName kbId) request.queryVector (perRouteK request.topK)
          (rowFilter request.folderIds request.tagFilter) with
      | none => simp [searchOne, search, hexists, hdense]
      | some denseHits =>
          cases hbm25 : client.searchBm25 (kbCollectionName kbId) request.queryText
              (perRouteK request.topK) (rowFilter request.folderIds request.tagFilter) with
          | none => simp [searchOne, search, hexists, hdense, hbm25]
          | some bm25Hits =>
              rw [searchOne_of_hits hexists hdense hbm25, hnone _ (client.dense_passes hdense),
                hnone _ (client.bm25_passes hbm25)]
              exact congrArg (List.map _) (sliceTo_nil request.topK)

/-- A search reads the folders and the tags through the filter that they give. -/
theorem multiKbSearch_congr {request' : SearchRequest Vec} {kbIds : List String}
    (hfilter : ∀ e, rowFilter request.folderIds request.tagFilter e =
      rowFilter request'.folderIds request'.tagFilter e)
    (hrest : { request with folderIds := request'.folderIds, tagFilter := request'.tagFilter } = request') :
    multiKbSearch client cosineSim request emb kbIds = multiKbSearch client cosineSim request' emb kbIds := by
  have hrow : rowFilter request.folderIds request.tagFilter =
      rowFilter request'.folderIds request'.tagFilter := funext hfilter
  rw [← hrest] at hrow ⊢
  unfold multiKbSearch searchOne search
  rw [hrow]
  rfl

end Search

end OpsKnowledge.Retrieval
