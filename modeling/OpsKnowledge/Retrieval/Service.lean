import Mathlib.Data.String.Basic
import OpsKnowledge.Lib.KeyValue
import OpsKnowledge.Knowledge.Store
import OpsKnowledge.Retrieval.QueryRewriter
import OpsKnowledge.Retrieval.Reranker

/-!
# The retrieval service

`RetrievalService.retrieve`: the stages of a computed answer, and the L2 cache before them.
What the models, Milvus and the statistics of the bases answer are the services of a call;
the visibility filter reads the knowledge tables.
-/

namespace OpsKnowledge.Retrieval

open OpsKnowledge.Lib
open Knowledge (Tables)

/-- The arguments of `retrieve` that its results depend on; an absent list is empty. -/
structure RetrieveArgs where
  query : String
  kbIds : List String
  embeddingProviderId : Option String := none
  embeddingModelName : Option String := none
  topK : Int := 10
  folderIds : List String := []
  rewrite : Bool := false
  rewriteHistory : List Message := []
  rewriteProviderId : Option String := none
  rewriteModelName : Option String := none
  rewriteRegistryId : Option String := none
  rewriteMemorySummary : Option String := none
  rerankerProviderId : Option String := none
  rerankerModelName : Option String := none
  embeddingModelRegistryId : Option String := none
  bm25Weight : ℚ := 1
  vectorWeight : ℚ := 1
  scoreThreshold : Option ℚ := none
  tagFilter : TagFilter := {}
  enableTagRouting : Bool := true

structure Services (Vec : Type) where
  /-- `none` when the call fails or its text cannot be read. -/
  chat : RewriteRequest → Option RewriteReply
  embed : ModelRef → String → Option Vec
  /-- Of a base and a query; no tags when it fails or is not enabled. -/
  routeQueryToTags : String → String → List String
  tagBoostWeight : String → Option ℚ
  canonicalEmbeddings : String → List (String × Vec)
  cosineSim : Vec → Vec → ℚ
  milvus : MilvusClient Vec
  /-- Whether the session of the visibility filter answers. -/
  filterAnswers : Bool
  healthScore : String → Option ℚ
  /-- `none` when the query fails. -/
  redundancyPairs : Option (List (Nat × Nat))
  rerank : RerankRequest → Option (List RankedItem)
  cacheReads : Bool
  cacheWrites : Bool

namespace RetrieveArgs

variable (a : RetrieveArgs)

def embeddingModel : Option ModelRef :=
  modelRef a.embeddingModelRegistryId a.embeddingProviderId a.embeddingModelName

/-- What is sent to the rewriting model, if anything. -/
def rewriteRequest : Option RewriteRequest :=
  if a.rewrite then
    Retrieval.rewriteRequest a.query a.rewriteHistory
      (modelRef a.rewriteRegistryId a.rewriteProviderId a.rewriteModelName) a.rewriteMemorySummary
  else none

/-- Whether the query is routed to tags. -/
def routesTags : Bool := a.enableTagRouting && a.tagFilter.anyOf.isEmpty && a.kbIds.length = 1

def reranker : Option (String × String) :=
  match truthy a.rerankerProviderId, truthy a.rerankerModelName with
  | some p, some m => some (p, m)
  | _, _ => none

end RetrieveArgs

section Stages

variable {Vec : Type} (svc : Services Vec) (a : RetrieveArgs)

/-! ## Up to the search -/

def queryUsed : String := rewrittenQuery a.query (a.rewriteRequest.bind svc.chat)

def routedTags : List String :=
  if a.routesTags then a.kbIds.flatMap fun kbId => svc.routeQueryToTags kbId (queryUsed svc a) else []

def effectiveTagFilter : TagFilter :=
  if (routedTags svc a).isEmpty then a.tagFilter else { a.tagFilter with anyOf := routedTags svc a }

/-- One base of the loop that collects embeddings and the largest weight. -/
def boostStep (st : Dict String (List (String × Vec)) × ℚ) (kbId : String) :
    Dict String (List (String × Vec)) × ℚ :=
  match svc.tagBoostWeight kbId with
  | none => st
  | some weight =>
      let emb := svc.canonicalEmbeddings kbId
      if weight ≤ 0 || emb.isEmpty then st
      else (st.1.set kbId emb, if st.2 < weight then weight else st.2)

def boostSetup : Dict String (List (String × Vec)) × ℚ := a.kbIds.foldl (boostStep svc) (Dict.empty, 0)

def searchRequest (queryVector : Vec) : SearchRequest Vec :=
  { queryVector := queryVector, queryText := queryUsed svc a, topK := a.topK, folderIds := a.folderIds
    bm25Weight := a.bm25Weight, vectorWeight := a.vectorWeight, tagFilter := effectiveTagFilter svc a
    tagBoostWeight := (boostSetup svc a).2 }

/-- The hits of `multi_kb_search`; without an embedding of the query it raises. -/
def searchHits : Option (List SearchResult) := do
  let model ← a.embeddingModel
  let queryVector ← svc.embed model (queryUsed svc a)
  some (multiKbSearch svc.milvus svc.cosineSim (searchRequest svc a queryVector) (boostSetup svc a).1 a.kbIds)

/-! ## Visibility -/

/-- `_filter_invisible`; a failure lets everything through. -/
def filterInvisible (answers : Bool) (t : Tables) (results : List SearchResult) : List SearchResult :=
  if answers then
    let invisibleChunks := (t.chunks.filter fun c =>
      c.id ∈ results.map SearchResult.chunkId && c.reviewExcluded).map Knowledge.Chunk.id
    let invisibleDocs := (t.documents.filter fun d =>
      d.id ∈ results.map SearchResult.documentId && d.isArchived).map Knowledge.Document.id
    results.filter fun r => r.chunkId ∉ invisibleChunks && r.documentId ∉ invisibleDocs
  else results

/-! ## After the filter -/

/-- `_apply_fusion`; a failure leaves the results as they are. -/
def applyFusion (results : List SearchResult) : List SearchResult :=
  let sourceWeights := Dict.ofList (a.kbIds.map fun kbId => (kbId, healthToWeight (svc.healthScore kbId)))
  let chunkIds := (results.map SearchResult.chunkId).dedup
  let dedupPairs :=
    if 1 < chunkIds.length then
      svc.redundancyPairs.map fun pairs => pairs.filter fun p => p.1 ∈ chunkIds && p.2 ∈ chunkIds
    else some []
  match dedupPairs with
  | none => results
  | some pairs => fuseResults {} results sourceWeights pairs a.topK

def fuseStage (results : List SearchResult) : List SearchResult :=
  if 1 < a.kbIds.length then applyFusion svc a results else results

def rerankStage (query : String) (results : List SearchResult) : List SearchResult :=
  match a.reranker with
  | none => results
  | some (providerId, modelName) =>
      if results.isEmpty then results
      else
        let request : RerankRequest :=
          { providerId := providerId, modelName := modelName, query := query
            documents := results.map SearchResult.content, topN := a.topK }
        rerankResults (svc.rerank request) results

/-- Results without a dense score stay. -/
def thresholdStage (results : List SearchResult) : List SearchResult :=
  match a.scoreThreshold with
  | none => results
  | some threshold => results.filter fun r => r.denseScore.all fun s => threshold ≤ s

def postProcess (query : String) (results : List SearchResult) : List SearchResult :=
  thresholdStage a (rerankStage svc a query (fuseStage svc a results))

variable {svc} {a}

variable (svc) (a)

/-! ## The computed answer -/

structure RetrievalResult where
  results : List SearchResult
  queryUsed : String
  totalSearched : Nat
  routedTags : List String

/-- `retrieve` without a cache hit; `none` when it raises. -/
def compute (t : Tables) : Option RetrievalResult := do
  let hits ← searchHits svc a
  let visible := filterInvisible svc.filterAnswers t hits
  some { results := postProcess svc a (queryUsed svc a) visible, queryUsed := queryUsed svc a
         totalSearched := hits.length, routedTags := routedTags svc a }

end Stages

/-! ## The results of a computed answer -/

section Results

variable {Vec : Type} (svc : Services Vec) (a : RetrieveArgs)

/-- Routed tags only narrow the filter, and they take the place of no other ones. -/
theorem rowFilter_effectiveTagFilter (e : Entity) :
    rowFilter a.folderIds (effectiveTagFilter svc a) e = (rowFilter a.folderIds a.tagFilter e &&
      ((routedTags svc a).isEmpty || e.chunkTags.any (· ∈ (routedTags svc a).filter (· ≠ "")))) := by
  unfold effectiveTagFilter
  cases hempty : (routedTags svc a).isEmpty with
  | true => simp
  | false =>
      have hroutes : a.routesTags = true := by
        cases hroutes : a.routesTags with
        | true => rfl
        | false =>
            unfold routedTags at hempty
            rw [hroutes] at hempty
            cases hempty
      have hany : a.tagFilter.anyOf.isEmpty = true := by
        unfold RetrieveArgs.routesTags at hroutes
        simp only [Bool.and_eq_true] at hroutes
        exact hroutes.1.2
      simp only [rowFilter, TagFilter.admits, hempty, hany, Bool.false_eq_true, if_false, Bool.true_or,
        Bool.false_or, Bool.true_and]
      grind

/-- The vector of the query that is searched for. -/
def queryVector : Option Vec :=
  a.embeddingModel.bind fun model => svc.embed model (queryUsed svc a)

theorem searchHits_eq_map : searchHits svc a = (queryVector svc a).map fun v =>
    multiKbSearch svc.milvus svc.cosineSim (searchRequest svc a v) (boostSetup svc a).1 a.kbIds := by
  unfold searchHits queryVector
  cases a.embeddingModel with
  | none => rfl
  | some model => cases hvector : svc.embed model (queryUsed svc a) <;> simp [hvector]

/-- The results without the cache; a call without a vector raises. -/
def resultsFor (t : Tables) (queryVector : Vec) : List SearchResult :=
  postProcess svc a (queryUsed svc a) (filterInvisible svc.filterAnswers t
    (multiKbSearch svc.milvus svc.cosineSim (searchRequest svc a queryVector) (boostSetup svc a).1 a.kbIds))

theorem compute_results (t : Tables) :
    (compute svc a t).map RetrievalResult.results = (queryVector svc a).map (resultsFor svc a t) := by
  unfold compute
  rw [searchHits_eq_map]
  cases queryVector svc a with
  | none => rfl
  | some vector => rfl

@[simp] theorem postProcess_nil (query : String) : postProcess svc a query [] = [] := by
  have hfuse : fuseStage svc a [] = [] := by
    unfold fuseStage applyFusion
    split
    · simp [fuseResults]
    · rfl
  have hrerank : rerankStage svc a query [] = [] := by
    unfold rerankStage
    split <;> rfl
  unfold postProcess
  rw [hfuse, hrerank]
  unfold thresholdStage
  split <;> rfl

end Results

/-! ## The L2 cache -/

/-- An entry of the cache; what was stored comes back as it was. -/
structure CachedRetrieval where
  results : List SearchResult
  queryUsed : String
  totalSearched : Nat

abbrev L2Cache := Store String CachedRetrieval

def embKey (a : RetrieveArgs) : String :=
  match truthy a.embeddingModelRegistryId with
  | some registryId => "reg:" ++ registryId
  | none => "prov:" ++ a.embeddingProviderId.getD "None" ++ ":" ++ a.embeddingModelName.getD ""

/-- `cache_key_parts` -/
def cacheKeyParts (a : RetrieveArgs) : List String :=
  [String.intercalate "," (orderBy id a.kbIds), a.query, toString a.topK,
    String.intercalate "," (orderBy id a.folderIds), a.rerankerModelName.getD "", embKey a]

/-- The key of `get_retrieval` and `set_retrieval`, by the digest that `_hash_key` takes. -/
def cacheKey (digest : String → String) (a : RetrieveArgs) : String :=
  "l2:" ++ digest (String.intercalate ":" (cacheKeyParts a))

def RetrievalResult.toCached (r : RetrievalResult) : CachedRetrieval :=
  { results := r.results, queryUsed := r.queryUsed, totalSearched := r.totalSearched }

/-- The answer on a cache hit. -/
def CachedRetrieval.toResult (c : CachedRetrieval) : RetrievalResult :=
  { results := c.results, queryUsed := c.queryUsed, totalSearched := c.totalSearched, routedTags := [] }

/-- The entry that a call finds; a failing cache is a miss. -/
def cached {Vec : Type} (digest : String → String) (svc : Services Vec) (cache : L2Cache)
    (a : RetrieveArgs) : Option CachedRetrieval :=
  if svc.cacheReads then cache (cacheKey digest a) else none

def storeAnswer {Vec : Type} (digest : String → String) (svc : Services Vec) (cache : L2Cache)
    (a : RetrieveArgs) (r : RetrievalResult) : L2Cache :=
  if svc.cacheWrites then cache.put (cacheKey digest a) r.toCached else cache

def retrieve {Vec : Type} (digest : String → String) (svc : Services Vec) (t : Tables) (cache : L2Cache)
    (a : RetrieveArgs) : Option (RetrievalResult × L2Cache) :=
  match cached digest svc cache a with
  | some c => some (c.toResult, cache)
  | none => do
      let r ← compute svc a t
      some (r, storeAnswer digest svc cache a r)

/-! ## Services with given hits -/

/-- The hits of each collection that pass the filter, by route. -/
def clientOf (dense bm25 : String → List Hit) : MilvusClient Unit where
  collectionExists _ := true
  searchDense collection _ _ filter := some ((dense collection).filter fun h => filter h.entity)
  searchBm25 collection _ _ filter := some ((bm25 collection).filter fun h => filter h.entity)
  dense_passes := by
    intro collection vector limit filter hits heq h hh
    cases heq
    exact (List.mem_filter.1 hh).2
  bm25_passes := by
    intro collection text limit filter hits heq h hh
    cases heq
    exact (List.mem_filter.1 hh).2

/-- Every query is embedded, nothing is rewritten, routed, boosted, weighted or reranked. -/
def servicesOf (client : MilvusClient Unit) : Services Unit where
  chat _ := none
  embed _ _ := some ()
  routeQueryToTags _ _ := []
  tagBoostWeight _ := none
  canonicalEmbeddings _ := []
  cosineSim _ _ := 0
  milvus := client
  filterAnswers := true
  healthScore _ := none
  redundancyPairs := some []
  rerank _ := none
  cacheReads := true
  cacheWrites := true

def chunkHit : Hit :=
  { id := 2, distance := 1
    entity := { content := "text", documentId := 1, folderId := "None", level := 0, title := ""
                metadata := Dict.empty, chunkTags := [] } }

def oneQuery : RetrieveArgs := { query := "text", kbIds := ["0"], embeddingModelRegistryId := some "m" }

end OpsKnowledge.Retrieval
