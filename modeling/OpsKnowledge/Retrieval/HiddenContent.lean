import OpsKnowledge.Retrieval.Visibility

/-!
# Hidden content

The results of `retrieve` in two states of the bases that differ only in hidden chunks: chunks
under exclusion, and chunks of archived units. The searches rank and cut the rows of the
collections, hidden ones too, and the filter drops what is hidden after that.
-/

namespace OpsKnowledge.Knowledge.Tables

def hides (t : Tables) (c : Chunk) : Bool := c.reviewExcluded || t.unitArchived c.unitType c.unitId

def hiddenIds (t : Tables) : List Nat := (t.chunks.filter t.hides).map Chunk.id

end OpsKnowledge.Knowledge.Tables

namespace OpsKnowledge.Retrieval

open OpsKnowledge.Lib
open Knowledge (Tables)

/-! ## What the searches answer -/

/-- A row of a collection. -/
structure IndexRow (Vec : Type) where
  id : Nat
  vector : Vec
  entity : Entity

/-- The rows of the collections that exist. -/
abbrev Collections (Vec : Type) := String → Option (List (IndexRow Vec))

/-- The scores of the two routes. A keyword score depends on all rows of the collection; a row without
one is no hit. -/
structure Scoring (Vec : Type) where
  similarity : Vec → Vec → ℚ
  bm25 : List (IndexRow Vec) → String → IndexRow Vec → Option ℚ

section Rows

variable {Vec : Type}

def scoredHits (score : IndexRow Vec → Option ℚ) (rows : List (IndexRow Vec)) : List Hit :=
  rows.filterMap fun r => (score r).map fun s => { id := r.id, distance := s, entity := r.entity }

/-- The best of the rows that pass the filter. -/
def topHits (score : IndexRow Vec → Option ℚ) (limit : Nat) (filter : Entity → Bool)
    (rows : List (IndexRow Vec)) : List Hit :=
  (orderByDesc Hit.distance (scoredHits score (rows.filter fun r => filter r.entity))).take limit

/-- The client answers from the collections: each search returns the rows with the best scores. -/
structure Answers (scoring : Scoring Vec) (client : MilvusClient Vec) (collections : Collections Vec) :
    Prop where
  existing : ∀ collection, client.collectionExists collection = (collections collection).isSome
  dense : ∀ {collection rows}, collections collection = some rows → ∀ vector limit filter,
    client.searchDense collection vector limit filter =
      some (topHits (fun r => some (scoring.similarity vector r.vector)) limit filter rows)
  bm25 : ∀ {collection rows}, collections collection = some rows → ∀ text limit filter,
    client.searchBm25 collection text limit filter =
      some (topHits (scoring.bm25 rows text) limit filter rows)

/-! ## Two states -/

/-- What `retrieve` reads of the bases. -/
structure KnowledgeState (Vec : Type) where
  tables : Tables
  collections : Collections Vec
  healthScore : String → Option ℚ := fun _ => none
  /-- `none` when the query fails. -/
  redundancyPairs : Option (List (Nat × Nat)) := some []

/-- The services of a call in a state; `milvus` is the client of given collections. -/
def KnowledgeState.services (w : KnowledgeState Vec) (milvus : Collections Vec → MilvusClient Vec)
    (svc : Services Vec) : Services Vec :=
  { svc with
    milvus := milvus w.collections, healthScore := w.healthScore, redundancyPairs := w.redundancyPairs }

def visibleRows (t : Tables) (rows : List (IndexRow Vec)) : List (IndexRow Vec) :=
  rows.filter fun r => r.id ∉ t.hiddenIds

def visiblePairs (t : Tables) (pairs : List (Nat × Nat)) : List (Nat × Nat) :=
  pairs.filter fun p => p.1 ∉ t.hiddenIds && p.2 ∉ t.hiddenIds

/-- The states differ only in hidden chunks, their rows and what is derived from them. -/
structure SameVisible (w₁ w₂ : KnowledgeState Vec) : Prop where
  documents : w₁.tables.documents = w₂.tables.documents
  entries : w₁.tables.entries = w₂.tables.entries
  chunks : w₁.tables.chunks.filter (fun c => !w₁.tables.hides c) =
    w₂.tables.chunks.filter fun c => !w₂.tables.hides c
  rows : ∀ collection, (w₁.collections collection).map (visibleRows w₁.tables) =
    (w₂.collections collection).map (visibleRows w₂.tables)
  pairs : w₁.redundancyPairs.map (visiblePairs w₁.tables) = w₂.redundancyPairs.map (visiblePairs w₂.tables)

/-- One of the searches of a collection returns the hits. -/
inductive RouteReturns (client : MilvusClient Vec) (request : SearchRequest Vec) (collection : String) :
    List Hit → Prop where
  | dense {hits : List Hit} (hexists : client.collectionExists collection = true)
      (h : client.searchDense collection request.queryVector (perRouteK request.topK)
        (rowFilter request.folderIds request.tagFilter) = some hits) :
      RouteReturns client request collection hits
  | bm25 {hits : List Hit} (hexists : client.collectionExists collection = true)
      (h : client.searchBm25 collection request.queryText (perRouteK request.topK)
        (rowFilter request.folderIds request.tagFilter) = some hits) :
      RouteReturns client request collection hits

/-- No search of the call has a hit among the hidden chunks. -/
def NoHiddenHits (milvus : Collections Vec → MilvusClient Vec) (svc : Services Vec) (a : RetrieveArgs)
    (w : KnowledgeState Vec) : Prop :=
  ∀ v, queryVector svc a = some v → ∀ kbId ∈ a.kbIds, ∀ hits,
    RouteReturns (milvus w.collections) (searchRequest svc a v) (kbCollectionName kbId) hits →
      ∀ h ∈ hits, h.id ∉ w.tables.hiddenIds

/-- The visible rows have the same keyword scores for the query in both states. -/
def SameKeywordScores (scoring : Scoring Vec) (query : String) (kbIds : List String)
    (w₁ w₂ : KnowledgeState Vec) : Prop :=
  ∀ kbId ∈ kbIds, ∀ rows₁ rows₂, w₁.collections (kbCollectionName kbId) = some rows₁ →
    w₂.collections (kbCollectionName kbId) = some rows₂ → ∀ r ∈ visibleRows w₁.tables rows₁,
      scoring.bm25 rows₁ query r = scoring.bm25 rows₂ query r

/-- The call sees no difference but hidden chunks that it does not find. -/
structure Unaffected (scoring : Scoring Vec) (milvus : Collections Vec → MilvusClient Vec)
    (svc : Services Vec) (a : RetrieveArgs) (w₁ w₂ : KnowledgeState Vec) : Prop where
  left : NoHiddenHits milvus svc a w₁
  right : NoHiddenHits milvus svc a w₂
  keyword : SameKeywordScores scoring (queryUsed svc a) a.kbIds w₁ w₂
  /-- The bases are weighted when there are several. -/
  health : 1 < a.kbIds.length → ∀ kbId ∈ a.kbIds, w₁.healthScore kbId = w₂.healthScore kbId

variable {scoring : Scoring Vec} {milvus : Collections Vec → MilvusClient Vec} {svc : Services Vec}
  {a : RetrieveArgs} {w₁ w₂ : KnowledgeState Vec}

/-! ## One search -/

theorem scoredHits_filter (score : IndexRow Vec → Option ℚ) (p : Nat → Bool) (rows : List (IndexRow Vec)) :
    scoredHits score (rows.filter fun r => p r.id) = (scoredHits score rows).filter fun h => p h.id := by
  induction rows with
  | nil => rfl
  | cons r rows ih =>
      cases hs : score r with
      | none => cases hp : p r.id <;> simpa [scoredHits, hs, hp] using ih
      | some s => cases hp : p r.id <;> simpa [scoredHits, hs, hp] using ih

/-- Rows of ids that are not among the hits can be left out. -/
theorem topHits_filter {score : IndexRow Vec → Option ℚ} {limit : Nat} {filter : Entity → Bool}
    {p : Nat → Bool} {rows : List (IndexRow Vec)} (h : ∀ x ∈ topHits score limit filter rows, p x.id = true) :
    topHits score limit filter (rows.filter fun r => p r.id) = topHits score limit filter rows := by
  have hswap : ((rows.filter fun r => p r.id).filter fun r => filter r.entity) =
      (rows.filter fun r => filter r.entity).filter fun r => p r.id := by
    simp [List.filter_filter, Bool.and_comm]
  unfold topHits
  rw [hswap, scoredHits_filter]
  exact take_orderByDesc_filter (fun x : Hit => p x.id) h

theorem topHits_congr {score score' : IndexRow Vec → Option ℚ} {limit : Nat} {filter : Entity → Bool}
    {rows : List (IndexRow Vec)} (h : ∀ r ∈ rows, score r = score' r) :
    topHits score limit filter rows = topHits score' limit filter rows := by
  have hhits : scoredHits score (rows.filter fun r => filter r.entity) =
      scoredHits score' (rows.filter fun r => filter r.entity) := by
    apply List.filterMap_congr
    intro r hr
    rw [h r (List.mem_of_mem_filter hr)]
  unfold topHits
  rw [hhits]

/-- In both states the hits are the best of the visible rows. -/
theorem topHits_eq_of_visibleRows {score₁ score₂ : IndexRow Vec → Option ℚ} {limit : Nat}
    {filter : Entity → Bool} {t₁ t₂ : Tables} {rows₁ rows₂ : List (IndexRow Vec)}
    (hrows : visibleRows t₁ rows₁ = visibleRows t₂ rows₂)
    (hscores : ∀ r ∈ visibleRows t₁ rows₁, score₁ r = score₂ r)
    (h₁ : ∀ h ∈ topHits score₁ limit filter rows₁, h.id ∉ t₁.hiddenIds)
    (h₂ : ∀ h ∈ topHits score₂ limit filter rows₂, h.id ∉ t₂.hiddenIds) :
    topHits score₁ limit filter rows₁ = topHits score₂ limit filter rows₂ := by
  calc topHits score₁ limit filter rows₁
      = topHits score₁ limit filter (visibleRows t₁ rows₁) :=
        (topHits_filter (p := fun id => decide (id ∉ t₁.hiddenIds)) (by simpa using h₁)).symm
    _ = topHits score₂ limit filter (visibleRows t₁ rows₁) := topHits_congr hscores
    _ = topHits score₂ limit filter (visibleRows t₂ rows₂) := by rw [hrows]
    _ = topHits score₂ limit filter rows₂ :=
        topHits_filter (p := fun id => decide (id ∉ t₂.hiddenIds)) (by simpa using h₂)

/-! ## The hits of a base -/

theorem searchOne_congr {client client' : MilvusClient Vec} {cosineSim : Vec → Vec → ℚ}
    {request : SearchRequest Vec} {emb : Dict String (List (String × Vec))} {kbId : String}
    (hexists : client.collectionExists (kbCollectionName kbId) =
      client'.collectionExists (kbCollectionName kbId))
    (hdense : client.collectionExists (kbCollectionName kbId) = true →
      client.searchDense (kbCollectionName kbId) request.queryVector (perRouteK request.topK)
          (rowFilter request.folderIds request.tagFilter) =
        client'.searchDense (kbCollectionName kbId) request.queryVector (perRouteK request.topK)
          (rowFilter request.folderIds request.tagFilter))
    (hbm25 : client.collectionExists (kbCollectionName kbId) = true →
      client.searchBm25 (kbCollectionName kbId) request.queryText (perRouteK request.topK)
          (rowFilter request.folderIds request.tagFilter) =
        client'.searchBm25 (kbCollectionName kbId) request.queryText (perRouteK request.topK)
          (rowFilter request.folderIds request.tagFilter)) :
    searchOne client cosineSim request emb kbId = searchOne client' cosineSim request emb kbId := by
  unfold searchOne search
  cases h : client.collectionExists (kbCollectionName kbId) with
  | false => simp [← hexists, h]
  | true => simp [← hexists, h, hdense h, hbm25 h]

/-- Where both states have no hidden hits, a base has the same hits in both. -/
theorem searchOne_eq (hmilvus : ∀ collections, Answers scoring (milvus collections) collections)
    (hsame : SameVisible w₁ w₂) (h : Unaffected scoring milvus svc a w₁ w₂) {v : Vec}
    (hv : queryVector svc a = some v) (cosineSim : Vec → Vec → ℚ)
    (emb : Dict String (List (String × Vec))) {kbId : String} (hkb : kbId ∈ a.kbIds) :
    searchOne (milvus w₁.collections) cosineSim (searchRequest svc a v) emb kbId =
      searchOne (milvus w₂.collections) cosineSim (searchRequest svc a v) emb kbId := by
  have hanswers₁ := hmilvus w₁.collections
  have hanswers₂ := hmilvus w₂.collections
  have hrows := hsame.rows (kbCollectionName kbId)
  have hexists : (milvus w₁.collections).collectionExists (kbCollectionName kbId) =
      (milvus w₂.collections).collectionExists (kbCollectionName kbId) := by
    rw [hanswers₁.existing, hanswers₂.existing]
    simpa using congrArg Option.isSome hrows
  apply searchOne_congr hexists
  all_goals
    intro hexists₁
    have hexists₂ := hexists ▸ hexists₁
    obtain ⟨rows₁, hrows₁⟩ := Option.isSome_iff_exists.1 ((hanswers₁.existing _).symm.trans hexists₁)
    obtain ⟨rows₂, hrows₂⟩ := Option.isSome_iff_exists.1 ((hanswers₂.existing _).symm.trans hexists₂)
    rw [hrows₁, hrows₂] at hrows
    have hvisible := Option.some.inj hrows
  · have hdense₁ := hanswers₁.dense hrows₁ v (perRouteK a.topK)
      (rowFilter a.folderIds (effectiveTagFilter svc a))
    have hdense₂ := hanswers₂.dense hrows₂ v (perRouteK a.topK)
      (rowFilter a.folderIds (effectiveTagFilter svc a))
    have hhits := topHits_eq_of_visibleRows hvisible (fun _ _ => rfl)
      (h.left v hv kbId hkb _ (.dense hexists₁ hdense₁)) (h.right v hv kbId hkb _ (.dense hexists₂ hdense₂))
    exact hdense₁.trans ((congrArg some hhits).trans hdense₂.symm)
  · have hbm25₁ := hanswers₁.bm25 hrows₁ (queryUsed svc a) (perRouteK a.topK)
      (rowFilter a.folderIds (effectiveTagFilter svc a))
    have hbm25₂ := hanswers₂.bm25 hrows₂ (queryUsed svc a) (perRouteK a.topK)
      (rowFilter a.folderIds (effectiveTagFilter svc a))
    have hhits := topHits_eq_of_visibleRows hvisible (h.keyword kbId hkb rows₁ rows₂ hrows₁ hrows₂)
      (h.left v hv kbId hkb _ (.bm25 hexists₁ hbm25₁)) (h.right v hv kbId hkb _ (.bm25 hexists₂ hbm25₂))
    exact hbm25₁.trans ((congrArg some hhits).trans hbm25₂.symm)

theorem multiKbSearch_eq (hmilvus : ∀ collections, Answers scoring (milvus collections) collections)
    (hsame : SameVisible w₁ w₂) (h : Unaffected scoring milvus svc a w₁ w₂) {v : Vec}
    (hv : queryVector svc a = some v) (cosineSim : Vec → Vec → ℚ)
    (emb : Dict String (List (String × Vec))) :
    multiKbSearch (milvus w₁.collections) cosineSim (searchRequest svc a v) emb a.kbIds =
      multiKbSearch (milvus w₂.collections) cosineSim (searchRequest svc a v) emb a.kbIds := by
  unfold multiKbSearch
  congr 2
  apply List.flatMap_congr
  intro kbId hkb
  exact searchOne_eq hmilvus hsame h hv cosineSim emb hkb

/-! ## Where results come from -/

theorem mem_keys_foldl {f : Dict Nat MergedRow → Hit × Nat → Dict Nat MergedRow}
    (hf : ∀ merged x k, k ∈ (f merged x).keys → k = x.1.id ∨ k ∈ merged.keys) (hits : List Hit) (n : Nat)
    {merged : Dict Nat MergedRow} {k : Nat} (h : k ∈ ((hits.zipIdx n).foldl f merged).keys) :
    k ∈ merged.keys ∨ k ∈ hits.map Hit.id := by
  induction hits generalizing n merged with
  | nil => exact .inl h
  | cons x hits ih =>
      rw [List.zipIdx_cons, List.foldl_cons] at h
      rw [List.map_cons, List.mem_cons]
      rcases ih (n + 1) h with hk | hk
      · rcases hf _ _ _ hk with rfl | hk
        · exact .inr (.inl rfl)
        · exact .inl hk
      · exact .inr (.inr hk)

theorem mem_keys_mergeHits {denseHits bm25Hits : List Hit} {k : Nat}
    (h : k ∈ (mergeHits denseHits bm25Hits).keys) : k ∈ denseHits.map Hit.id ∨ k ∈ bm25Hits.map Hit.id := by
  rcases mem_keys_foldl (fun _ _ _ hk => Dict.mem_keys_set.1 hk) bm25Hits 0 h with hk | hk
  · rcases mem_keys_foldl (fun _ _ _ hk => Dict.mem_keys_set.1 hk) denseHits 0 hk with hk | hk
    · cases hk
    · exact .inl hk
  · exact .inr hk

/-- The chunk of a result is a hit of one of the routes. -/
theorem hit_of_mem_searchOne {client : MilvusClient Vec} {cosineSim : Vec → Vec → ℚ}
    {request : SearchRequest Vec} {emb : Dict String (List (String × Vec))} {kbId : String}
    {r : SearchResult} (hr : r ∈ searchOne client cosineSim request emb kbId) :
    ∃ hits, RouteReturns client request (kbCollectionName kbId) hits ∧ r.chunkId ∈ hits.map Hit.id := by
  cases hexists : client.collectionExists (kbCollectionName kbId) with
  | false => simp [searchOne, search, hexists] at hr
  | true =>
      cases hdense : client.searchDense (kbCollectionName kbId) request.queryVector (perRouteK request.topK)
          (rowFilter request.folderIds request.tagFilter) with
      | none => simp [searchOne, search, hexists, hdense] at hr
      | some denseHits =>
          cases hbm25 : client.searchBm25 (kbCollectionName kbId) request.queryText
              (perRouteK request.topK) (rowFilter request.folderIds request.tagFilter) with
          | none => simp [searchOne, search, hexists, hdense, hbm25] at hr
          | some bm25Hits =>
              rw [searchOne_of_hits hexists hdense hbm25] at hr
              obtain ⟨e, he, rfl⟩ := List.mem_map.1 hr
              have hscored := mem_orderByDesc.1 (mem_of_mem_sliceTo he)
              obtain ⟨e₀, he₀, rfl⟩ := List.mem_map.1 hscored
              rcases mem_keys_mergeHits (List.mem_map_of_mem he₀) with hk | hk
              · exact ⟨denseHits, .dense hexists hdense, hk⟩
              · exact ⟨bm25Hits, .bm25 hexists hbm25, hk⟩

theorem chunkId_notMem_hiddenIds (h : NoHiddenHits milvus svc a w₁) {v : Vec}
    (hv : queryVector svc a = some v) {cosineSim : Vec → Vec → ℚ} {emb : Dict String (List (String × Vec))}
    {r : SearchResult} (hr : r ∈ multiKbSearch (milvus w₁.collections) cosineSim (searchRequest svc a v) emb
      a.kbIds) : r.chunkId ∉ w₁.tables.hiddenIds := by
  have hfound := mem_orderByDesc.1 (mem_of_mem_sliceTo hr)
  obtain ⟨kbId, hkb, hr⟩ := List.mem_flatMap.1 hfound
  obtain ⟨hits, hreturns, hid⟩ := hit_of_mem_searchOne hr
  obtain ⟨x, hx, hxid⟩ := List.mem_map.1 hid
  rw [← hxid]
  exact h v hv kbId hkb hits hreturns x hx

/-! ## After the search -/

theorem mem_hiddenIds_of_reviewExcluded {t : Tables} {c : Knowledge.Chunk} (hc : c ∈ t.chunks)
    (hflag : c.reviewExcluded = true) : c.id ∈ t.hiddenIds := by
  apply List.mem_map_of_mem
  apply List.mem_filter.2
  exact ⟨hc, by simp [Tables.hides, hflag]⟩

/-- The filter finds no flag on results that are not hidden, and the documents are the same. -/
theorem filterInvisible_eq {t₁ t₂ : Tables} {xs : List SearchResult} (answers : Bool)
    (hdocs : t₁.documents = t₂.documents) (h₁ : ∀ r ∈ xs, r.chunkId ∉ t₁.hiddenIds)
    (h₂ : ∀ r ∈ xs, r.chunkId ∉ t₂.hiddenIds) :
    filterInvisible answers t₁ xs = filterInvisible answers t₂ xs := by
  have hnone : ∀ t : Tables, (∀ r ∈ xs, r.chunkId ∉ t.hiddenIds) → ∀ r ∈ xs,
      r.chunkId ∉ (t.chunks.filter fun c =>
        c.id ∈ xs.map SearchResult.chunkId && c.reviewExcluded).map Knowledge.Chunk.id := by
    intro t h r hr hflagged
    obtain ⟨c, hc, hid⟩ := List.mem_map.1 hflagged
    obtain ⟨hc, hflag⟩ := List.mem_filter.1 hc
    rw [Bool.and_eq_true] at hflag
    exact h r hr (hid ▸ mem_hiddenIds_of_reviewExcluded hc hflag.2)
  cases answers with
  | false => rfl
  | true =>
      apply List.filter_congr
      intro r hr
      rw [decide_eq_true (hnone t₁ h₁ r hr), decide_eq_true (hnone t₂ h₂ r hr), hdocs]

theorem mem_of_mem_filterInvisible {answers : Bool} {t : Tables} {xs : List SearchResult} {r : SearchResult}
    (h : r ∈ filterInvisible answers t xs) : r ∈ xs := by
  cases answers with
  | false => exact h
  | true => exact List.mem_of_mem_filter h

/-- The pairs among ids that are not hidden are the same in both states. -/
theorem pairs_eq_of_visiblePairs {t₁ t₂ : Tables} {pairs₁ pairs₂ : Option (List (Nat × Nat))}
    (hpairs : pairs₁.map (visiblePairs t₁) = pairs₂.map (visiblePairs t₂)) {ids : List Nat}
    (h₁ : ∀ id ∈ ids, id ∉ t₁.hiddenIds) (h₂ : ∀ id ∈ ids, id ∉ t₂.hiddenIds) :
    (pairs₁.map fun pairs => pairs.filter fun p => p.1 ∈ ids && p.2 ∈ ids) =
      pairs₂.map fun pairs => pairs.filter fun p => p.1 ∈ ids && p.2 ∈ ids := by
  have hvisible : ∀ t : Tables, (∀ id ∈ ids, id ∉ t.hiddenIds) → ∀ pairs : Option (List (Nat × Nat)),
      (pairs.map fun pairs => pairs.filter fun p => p.1 ∈ ids && p.2 ∈ ids) =
        (pairs.map (visiblePairs t)).map fun pairs => pairs.filter fun p => p.1 ∈ ids && p.2 ∈ ids := by
    intro t h pairs
    rw [Option.map_map]
    congr 1
    funext pairs
    rw [Function.comp_apply, visiblePairs, List.filter_filter]
    apply List.filter_congr
    intro p _
    grind
  rw [hvisible t₁ h₁ pairs₁, hvisible t₂ h₂ pairs₂, hpairs]

theorem fuseStage_eq (hsame : SameVisible w₁ w₂)
    (hhealth : 1 < a.kbIds.length → ∀ kbId ∈ a.kbIds, w₁.healthScore kbId = w₂.healthScore kbId)
    {xs : List SearchResult} (h₁ : ∀ r ∈ xs, r.chunkId ∉ w₁.tables.hiddenIds)
    (h₂ : ∀ r ∈ xs, r.chunkId ∉ w₂.tables.hiddenIds) :
    fuseStage (w₁.services milvus svc) a xs = fuseStage (w₂.services milvus svc) a xs := by
  unfold fuseStage
  split
  · next hmany =>
      have hweights : (a.kbIds.map fun kbId => (kbId, healthToWeight (w₁.healthScore kbId))) =
          a.kbIds.map fun kbId => (kbId, healthToWeight (w₂.healthScore kbId)) := by
        apply List.map_congr_left
        intro kbId hkb
        rw [hhealth hmany kbId hkb]
      have hids : ∀ t : Tables, (∀ r ∈ xs, r.chunkId ∉ t.hiddenIds) →
          ∀ id ∈ (xs.map SearchResult.chunkId).dedup, id ∉ t.hiddenIds := by
        intro t h id hid
        obtain ⟨r, hr, rfl⟩ := List.mem_map.1 (List.mem_dedup.1 hid)
        exact h r hr
      have hpairs := pairs_eq_of_visiblePairs hsame.pairs (hids _ h₁) (hids _ h₂)
      unfold applyFusion
      simp only [KnowledgeState.services]
      rw [hweights, hpairs]
  · rfl

/-- What is made of the hits, where none of them is hidden. -/
theorem postProcess_eq (milvus : Collections Vec → MilvusClient Vec) (svc : Services Vec)
    (hsame : SameVisible w₁ w₂)
    (hhealth : 1 < a.kbIds.length → ∀ kbId ∈ a.kbIds, w₁.healthScore kbId = w₂.healthScore kbId)
    (query : String) {xs : List SearchResult} (h₁ : ∀ r ∈ xs, r.chunkId ∉ w₁.tables.hiddenIds)
    (h₂ : ∀ r ∈ xs, r.chunkId ∉ w₂.tables.hiddenIds) :
    postProcess (w₁.services milvus svc) a query (filterInvisible svc.filterAnswers w₁.tables xs) =
      postProcess (w₂.services milvus svc) a query (filterInvisible svc.filterAnswers w₂.tables xs) := by
  have hvisible := filterInvisible_eq svc.filterAnswers hsame.documents h₁ h₂
  have hfused : fuseStage (w₁.services milvus svc) a (filterInvisible svc.filterAnswers w₂.tables xs) =
      fuseStage (w₂.services milvus svc) a (filterInvisible svc.filterAnswers w₂.tables xs) := by
    apply fuseStage_eq hsame hhealth
    · intro r hr
      exact h₁ r (mem_of_mem_filterInvisible hr)
    · intro r hr
      exact h₂ r (mem_of_mem_filterInvisible hr)
  unfold postProcess
  rw [hvisible, hfused]
  rfl

/-! ## Both states -/

theorem compute_eq_of_unaffected
    (hmilvus : ∀ collections, Answers scoring (milvus collections) collections)
    (hsame : SameVisible w₁ w₂) (h : Unaffected scoring milvus svc a w₁ w₂) :
    compute (w₁.services milvus svc) a w₁.tables = compute (w₂.services milvus svc) a w₂.tables := by
  have hvector : ∀ w : KnowledgeState Vec, queryVector (w.services milvus svc) a = queryVector svc a :=
    fun _ => rfl
  unfold compute
  rw [searchHits_eq_map, searchHits_eq_map, hvector, hvector]
  cases hv : queryVector svc a with
  | none => rfl
  | some v =>
      have hhits := multiKbSearch_eq hmilvus hsame h hv svc.cosineSim (boostSetup svc a).1
      have hresults := postProcess_eq milvus svc hsame h.health (queryUsed svc a)
        (fun r hr => chunkId_notMem_hiddenIds h.left hv hr)
        (fun r hr => chunkId_notMem_hiddenIds h.right hv (hhits ▸ hr))
      show some (RetrievalResult.mk _ _ _ _) = some (RetrievalResult.mk _ _ _ _)
      congr 2
      · apply hresults.trans
        rw [hhits]
        rfl
      · exact congrArg List.length hhits

theorem retrieve_eq_of_unaffected (digest : String → String)
    (hmilvus : ∀ collections, Answers scoring (milvus collections) collections)
    (hsame : SameVisible w₁ w₂) (cache : L2Cache)
    (h : cached digest svc cache a = none → Unaffected scoring milvus svc a w₁ w₂) :
    retrieve digest (w₁.services milvus svc) w₁.tables cache a =
      retrieve digest (w₂.services milvus svc) w₂.tables cache a := by
  have hcached : ∀ w : KnowledgeState Vec,
      cached digest (w.services milvus svc) cache a = cached digest svc cache a := fun _ => rfl
  unfold retrieve
  rw [hcached, hcached]
  cases hmiss : cached digest svc cache a with
  | some c => rfl
  | none =>
      dsimp only
      rw [compute_eq_of_unaffected hmilvus hsame (h hmiss)]
      rfl

end Rows

/-! ## A hidden row beside a visible one -/

theorem topHits_passes {Vec : Type} {score : IndexRow Vec → Option ℚ} {limit : Nat}
    {filter : Entity → Bool} {rows : List (IndexRow Vec)} {h : Hit}
    (hh : h ∈ topHits score limit filter rows) : filter h.entity = true := by
  have hscored := mem_orderByDesc.1 (List.mem_of_mem_take hh)
  obtain ⟨r, hr, hscore⟩ := List.mem_filterMap.1 hscored
  obtain ⟨s, -, rfl⟩ := Option.map_eq_some_iff.1 hscore
  exact (List.mem_filter.1 hr).2

/-- A client that searches the rows. -/
def indexClient {Vec : Type} (scoring : Scoring Vec) (collections : Collections Vec) : MilvusClient Vec where
  collectionExists collection := (collections collection).isSome
  searchDense collection vector limit filter := (collections collection).map fun rows =>
    topHits (fun r => some (scoring.similarity vector r.vector)) limit filter rows
  searchBm25 collection text limit filter := (collections collection).map fun rows =>
    topHits (scoring.bm25 rows text) limit filter rows
  dense_passes := by
    intro collection vector limit filter hits heq h hh
    obtain ⟨rows, -, rfl⟩ := Option.map_eq_some_iff.1 heq
    exact topHits_passes hh
  bm25_passes := by
    intro collection text limit filter hits heq h hh
    obtain ⟨rows, -, rfl⟩ := Option.map_eq_some_iff.1 heq
    exact topHits_passes hh

theorem indexClient_answers {Vec : Type} (scoring : Scoring Vec) (collections : Collections Vec) :
    Answers scoring (indexClient scoring collections) collections where
  existing _ := rfl
  dense hrows _ _ _ := by simp [indexClient, hrows]
  bm25 hrows _ _ _ := by simp [indexClient, hrows]

/-- Vectors with one coordinate, and no row with a word of the query. -/
def oneCoordinate : Scoring ℚ where
  similarity v x := v * x
  bm25 _ _ _ := none

def oneCoordinateServices : Services ℚ where
  chat _ := none
  embed _ _ := some 1
  routeQueryToTags _ _ := []
  tagBoostWeight _ := none
  canonicalEmbeddings _ := []
  cosineSim _ _ := 0
  milvus := indexClient oneCoordinate fun _ => none
  filterAnswers := true
  healthScore _ := none
  redundancyPairs := some []
  rerank _ := none
  cacheReads := true
  cacheWrites := true

def visibleRow : IndexRow ℚ := { id := 2, vector := 1 / 2, entity := chunkHit.entity }

/-- A row of document 4, which is under review, in a folder of its own. -/
def hiddenRow : IndexRow ℚ :=
  { id := 3, vector := 1, entity := { chunkHit.entity with documentId := 4, folderId := "drafts" } }

def withoutHidden : KnowledgeState ℚ where
  tables :=
    { kbs := [{ id := 0, chunkCount := 1 }]
      documents := [{ id := 1, knowledgeBaseId := 0, chunkCount := 1 },
        { id := 4, knowledgeBaseId := 0, reviewStatus := some .pending }]
      chunks := [{ id := 2, unitType := .document, unitId := 1, knowledgeBaseId := 0, content := "text" }]
      next := 5 }
  collections := fun collection => if collection = "kb_0" then some [visibleRow] else none

def withHidden : KnowledgeState ℚ where
  tables :=
    { withoutHidden.tables with
      chunks := withoutHidden.tables.chunks ++
        [{ id := 3, unitType := .document, unitId := 4, knowledgeBaseId := 0, content := "draft"
           reviewExcluded := true }] }
  collections := fun collection => if collection = "kb_0" then some [visibleRow, hiddenRow] else none

theorem sameVisible_withHidden : SameVisible withHidden withoutHidden where
  documents := rfl
  entries := rfl
  chunks := rfl
  rows collection := by
    by_cases h : collection = "kb_0"
    · rw [h]
      rfl
    · simp [withHidden, withoutHidden, h]
  pairs := rfl

/-- The row under review is outside the folder that is searched. -/
theorem retrieve_eq_inFolder :
    retrieve id (withHidden.services (indexClient oneCoordinate) oneCoordinateServices) withHidden.tables
        Store.empty { oneQuery with topK := 1, folderIds := ["None"] } =
      retrieve id (withoutHidden.services (indexClient oneCoordinate) oneCoordinateServices)
        withoutHidden.tables Store.empty { oneQuery with topK := 1, folderIds := ["None"] } := by
  apply retrieve_eq_of_unaffected id (indexClient_answers oneCoordinate) sameVisible_withHidden
  intro _
  refine ⟨?_, ?_, fun _ _ _ _ _ _ _ _ => rfl, fun _ _ _ => rfl⟩
  · intro v hv kbId hkb hits hreturns h hh
    obtain rfl := List.mem_singleton.1 hkb
    cases hv
    cases hreturns with
    | dense _ heq =>
      cases heq
      have hfound : h ∈ [({ id := 2, distance := 1 * (1 / 2), entity := chunkHit.entity } : Hit)] := hh
      rw [List.mem_singleton.1 hfound]
      decide
    | bm25 _ heq =>
      cases heq
      cases hh
  · intro v hv kbId hkb hits hreturns h hh
    exact List.not_mem_nil

theorem hidden_row_displaces : ¬ ∀ (scoring : Scoring ℚ) (milvus : Collections ℚ → MilvusClient ℚ)
    (svc : Services ℚ) (w₁ w₂ : KnowledgeState ℚ) (cache : L2Cache) (a : RetrieveArgs),
    (∀ collections, Answers scoring (milvus collections) collections) → SameVisible w₁ w₂ →
      (retrieve id (w₁.services milvus svc) w₁.tables cache a).map (fun p => p.1.results) =
        (retrieve id (w₂.services milvus svc) w₂.tables cache a).map fun p => p.1.results := by
  intro h
  have hsame := h oneCoordinate (indexClient oneCoordinate) oneCoordinateServices withHidden withoutHidden
    Store.empty { oneQuery with topK := 1 } (indexClient_answers oneCoordinate) sameVisible_withHidden
  have hlengths := congrArg (Option.map List.length) hsame
  revert hlengths
  decide +kernel

end OpsKnowledge.Retrieval
