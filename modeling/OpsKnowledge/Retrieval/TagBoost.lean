import Mathlib.Tactic.NormNum
import OpsKnowledge.Retrieval.Ranking

/-!
# The boost of each base

Every base has a boost weight of its own. A call collects the largest of them and hands it to
the search of every base.
-/

namespace OpsKnowledge.Retrieval

open OpsKnowledge.Lib

/-- What the statistics of the bases say about tags. -/
structure TagSettings (Vec : Type) where
  boostWeight : String → Option ℚ
  canonicalEmbeddings : String → List (String × Vec)
  cosineSim : Vec → Vec → ℚ

def Services.tagSettings {Vec : Type} (svc : Services Vec) : TagSettings Vec where
  boostWeight := svc.tagBoostWeight
  canonicalEmbeddings := svc.canonicalEmbeddings
  cosineSim := svc.cosineSim

namespace TagSettings

variable {Vec : Type} (st : TagSettings Vec)

/-- The weight configured for a base. -/
def weight (kbId : String) : ℚ := (st.boostWeight kbId).getD 0

/-- The tags of a base that are relevant to a query. -/
def relevant (queryVector : Vec) (kbId : String) : List String :=
  selectRelevantCanonicals st.cosineSim queryVector (st.canonicalEmbeddings kbId)

def Boosts (kbId : String) : Prop := 0 < st.weight kbId ∧ st.canonicalEmbeddings kbId ≠ []

/-- A base that boosts, and has relevant tags for some query. -/
def CanBoost (kbId : String) : Prop := 0 < st.weight kbId ∧ ∃ v, st.relevant v kbId ≠ []

/-- A score with the boost that is configured for the base. -/
def OwnScore (request : SearchRequest Vec) (client : MilvusClient Vec) (kbId : String)
    (r : SearchResult) : Prop :=
  ∃ denseHits bm25Hits,
    client.searchDense (kbCollectionName kbId) request.queryVector (perRouteK request.topK)
      (rowFilter request.folderIds request.tagFilter) = some denseHits ∧
    client.searchBm25 (kbCollectionName kbId) request.queryText (perRouteK request.topK)
      (rowFilter request.folderIds request.tagFilter) = some bm25Hits ∧
    r.score = hybridScore { request with tagBoostWeight := st.weight kbId }
      (st.relevant request.queryVector kbId) denseHits bm25Hits r.chunkId

/-- In every call that searches these bases, each hit is boosted as its base asks for. -/
def OwnBoosts (kbIds : List String) : Prop :=
  ∀ (svc : Services Vec) (a : RetrieveArgs), svc.tagSettings = st → a.kbIds = kbIds →
    ∀ model v, a.embeddingModel = some model → svc.embed model (queryUsed svc a) = some v →
      ∀ hits, searchHits svc a = some hits → ∀ r ∈ hits,
        ∃ kbId, r.sourceKbId = some kbId ∧ st.OwnScore (searchRequest svc a v) svc.milvus kbId r

theorem relevant_eq_nil {kbId : String} (h : st.canonicalEmbeddings kbId = []) (v : Vec) :
    st.relevant v kbId = [] := by
  unfold relevant
  rw [h]
  rfl

variable {st}

theorem CanBoost.boosts {kbId : String} (h : st.CanBoost kbId) : st.Boosts kbId := by
  obtain ⟨hpos, v, hrelevant⟩ := h
  exact ⟨hpos, fun hnil => hrelevant (st.relevant_eq_nil hnil v)⟩

end TagSettings

/-! ## What a call collects -/

section Setup

variable {Vec : Type} {svc : Services Vec} {kbId : String} {collected : Dict String (List (String × Vec)) × ℚ}

theorem boostStep_of_boosts (h : svc.tagSettings.Boosts kbId) :
    boostStep svc collected kbId =
      (collected.1.set kbId (svc.canonicalEmbeddings kbId),
        max collected.2 (svc.tagSettings.weight kbId)) := by
  obtain ⟨hpos, hne⟩ := h
  change 0 < (svc.tagBoostWeight kbId).getD 0 at hpos
  change svc.canonicalEmbeddings kbId ≠ [] at hne
  show boostStep svc collected kbId = (_, max collected.2 ((svc.tagBoostWeight kbId).getD 0))
  unfold boostStep
  cases hweight : svc.tagBoostWeight kbId with
  | none => simp [hweight] at hpos
  | some weight =>
      rw [hweight] at hpos
      change 0 < weight at hpos
      simp only [Option.getD_some]
      rw [if_neg (by simp [hne, hpos]), max_def]
      split
      · next hlt => rw [if_pos hlt.le]
      · next hge =>
          rcases (not_lt.1 hge).eq_or_lt with heq | hlt
          · rw [if_pos heq.symm.le, heq]
          · rw [if_neg (not_le.2 hlt)]

theorem boostStep_of_not_boosts (h : ¬ svc.tagSettings.Boosts kbId) :
    boostStep svc collected kbId = collected := by
  unfold boostStep
  cases hweight : svc.tagBoostWeight kbId with
  | none => rfl
  | some weight =>
      dsimp only
      rw [if_pos]
      by_contra hgo
      simp only [Bool.or_eq_true, decide_eq_true_eq, not_or, not_le, List.isEmpty_iff] at hgo
      refine h ⟨?_, hgo.2⟩
      show 0 < (svc.tagBoostWeight kbId).getD 0
      rw [hweight]
      exact hgo.1

/-- The embeddings of the bases that boost, and the largest of their weights. -/
structure Collected (svc : Services Vec) (kbIds : List String)
    (collected : Dict String (List (String × Vec)) × ℚ) : Prop where
  embeddings : ∀ kbId ∈ kbIds, svc.tagSettings.Boosts kbId →
    collected.1.get? kbId = some (svc.canonicalEmbeddings kbId)
  others : ∀ kbId, ¬ svc.tagSettings.Boosts kbId → collected.1.get? kbId = none
  bound : ∀ kbId ∈ kbIds, svc.tagSettings.Boosts kbId → svc.tagSettings.weight kbId ≤ collected.2
  attained : collected.2 = 0 ∨
    ∃ kbId ∈ kbIds, svc.tagSettings.Boosts kbId ∧ collected.2 = svc.tagSettings.weight kbId

theorem foldl_boostStep (svc : Services Vec) (kbIds : List String) :
    Collected svc kbIds (kbIds.foldl (boostStep svc) (Dict.empty, 0)) := by
  induction kbIds using List.reverseRecOn with
  | nil => exact ⟨nofun, fun _ _ => rfl, nofun, .inl rfl⟩
  | append_singleton kbIds kbId ih =>
      rw [List.foldl_append, List.foldl_cons, List.foldl_nil]
      by_cases hboosts : svc.tagSettings.Boosts kbId
      · rw [boostStep_of_boosts hboosts]
        constructor
        · intro kbId' hmem hboosts'
          rw [Dict.get?_set]
          by_cases heq : kbId' = kbId
          · rw [if_pos heq, heq]
          · rw [if_neg heq]
            exact ih.embeddings kbId' (by simpa [heq] using hmem) hboosts'
        · intro kbId' hnot
          have hne : kbId' ≠ kbId := fun heq => hnot (heq ▸ hboosts)
          rw [Dict.get?_set, if_neg hne]
          exact ih.others kbId' hnot
        · intro kbId' hmem hboosts'
          rcases List.mem_append.1 hmem with hmem | hmem
          · exact (ih.bound kbId' hmem hboosts').trans (le_max_left _ _)
          · rw [List.mem_singleton.1 hmem]
            exact le_max_right _ _
        · right
          rcases max_choice (kbIds.foldl (boostStep svc) (Dict.empty, 0)).2 (svc.tagSettings.weight kbId) with
            hleft | hright
          · rcases ih.attained with hzero | ⟨best, hbest, hbestBoosts, hattained⟩
            · have hle : svc.tagSettings.weight kbId ≤ 0 := hzero ▸ max_eq_left_iff.1 hleft
              exact absurd hboosts.1 (not_lt.2 hle)
            · exact ⟨best, List.mem_append_left _ hbest, hbestBoosts, hleft.trans hattained⟩
          · exact ⟨kbId, List.mem_append_right _ List.mem_cons_self, hboosts, hright⟩
      · rw [boostStep_of_not_boosts hboosts]
        have hold : ∀ kbId' ∈ kbIds ++ [kbId], svc.tagSettings.Boosts kbId' → kbId' ∈ kbIds := by
          intro kbId' hmem hboosts'
          rcases List.mem_append.1 hmem with hmem | hmem
          · exact hmem
          · rw [List.mem_singleton.1 hmem] at hboosts'
            exact absurd hboosts' hboosts
        constructor
        · exact fun kbId' hmem hboosts' => ih.embeddings kbId' (hold kbId' hmem hboosts') hboosts'
        · exact ih.others
        · exact fun kbId' hmem hboosts' => ih.bound kbId' (hold kbId' hmem hboosts') hboosts'
        · rcases ih.attained with hzero | ⟨best, hbest, hrest⟩
          · exact .inl hzero
          · exact .inr ⟨best, List.mem_append_left _ hbest, hrest⟩

theorem boostSetup_collected (svc : Services Vec) (a : RetrieveArgs) :
    Collected svc a.kbIds (boostSetup svc a) :=
  foldl_boostStep svc a.kbIds

end Setup

/-! ## The hits of one base -/

section Hits

variable {Vec : Type} {client : MilvusClient Vec} {cosineSim : Vec → Vec → ℚ} {request : SearchRequest Vec}
  {emb : Dict String (List (String × Vec))} {kbId : String} {r : SearchResult}

theorem score_of_mem_searchOne (hr : r ∈ searchOne client cosineSim request emb kbId) :
    r.sourceKbId = some kbId ∧ ∃ denseHits bm25Hits,
      client.searchDense (kbCollectionName kbId) request.queryVector (perRouteK request.topK)
        (rowFilter request.folderIds request.tagFilter) = some denseHits ∧
      client.searchBm25 (kbCollectionName kbId) request.queryText (perRouteK request.topK)
        (rowFilter request.folderIds request.tagFilter) = some bm25Hits ∧
      r.score = hybridScore request
        (selectRelevantCanonicals cosineSim request.queryVector ((emb.get? kbId).getD []))
        denseHits bm25Hits r.chunkId := by
  unfold searchOne at hr
  obtain ⟨r₀, hr₀, rfl⟩ := List.mem_map.1 hr
  refine ⟨rfl, ?_⟩
  cases hexists : client.collectionExists (kbCollectionName kbId) with
  | false => simp [search, hexists] at hr₀
  | true =>
      cases hdense : client.searchDense (kbCollectionName kbId) request.queryVector (perRouteK request.topK)
          (rowFilter request.folderIds request.tagFilter) with
      | none => simp [search, hexists, hdense] at hr₀
      | some denseHits =>
          cases hbm25 : client.searchBm25 (kbCollectionName kbId) request.queryText
              (perRouteK request.topK) (rowFilter request.folderIds request.tagFilter) with
          | none => simp [search, hexists, hdense, hbm25] at hr₀
          | some bm25Hits =>
              have hranked : ∃ results, search client cosineSim request ((emb.get? kbId).getD [])
                  (kbCollectionName kbId) = some results ∧
                HybridRanking request _ denseHits bm25Hits results :=
                search_hybridRanking hexists hdense hbm25
              obtain ⟨results, hsearch, hranking⟩ := hranked
              rw [hsearch] at hr₀
              exact ⟨denseHits, bm25Hits, rfl, rfl, hranking.scored r₀ hr₀⟩

/-- Without relevant tags no weight matters. -/
theorem hybridScore_nil (denseHits bm25Hits : List Hit) (weight : ℚ) (id : Nat) :
    hybridScore request [] denseHits bm25Hits id =
      hybridScore { request with tagBoostWeight := weight } [] denseHits bm25Hits id := by
  have hzero : ∀ (w : ℚ) (h : Hit),
      (if 0 < w then (h.entity.chunkTags.countP (· ∈ ([] : List String)) : ℚ) * w else 0) = 0 := by
    intro w h
    split
    · simp
    · rfl
  simp only [hybridScore, hzero]

end Hits

/-! ## One weight for all -/

namespace TagSettings

variable {Vec : Type} {st : TagSettings Vec} {kbIds : List String}

/-- A base whose tags can be relevant has the largest weight. -/
def LargestWeight (st : TagSettings Vec) (kbIds : List String) : Prop :=
  ∀ kbId ∈ kbIds, st.CanBoost kbId → ∀ kbId' ∈ kbIds, st.Boosts kbId' → st.weight kbId' ≤ st.weight kbId

theorem ownBoosts_of_largestWeight (h : st.LargestWeight kbIds) : st.OwnBoosts kbIds := by
  rintro svc a rfl rfl model v hmodel hv hits hhits r hr
  have hsearch : hits = multiKbSearch svc.milvus svc.cosineSim (searchRequest svc a v) (boostSetup svc a).1
      a.kbIds := by
    simp only [searchHits, hmodel, hv, Option.bind_eq_bind, Option.bind_some, Option.some.injEq] at hhits
    exact hhits.symm
  rw [hsearch] at hr
  have hfound := mem_orderByDesc.1 (mem_of_mem_sliceTo hr)
  obtain ⟨kbId, hkb, hone⟩ := List.mem_flatMap.1 hfound
  obtain ⟨hsource, denseHits, bm25Hits, hdense, hbm25, hscore⟩ := score_of_mem_searchOne hone
  refine ⟨kbId, hsource, denseHits, bm25Hits, hdense, hbm25, hscore.trans ?_⟩
  have hcollected := boostSetup_collected svc a
  by_cases hboosts : svc.tagSettings.Boosts kbId
  · rw [hcollected.embeddings kbId hkb hboosts]
    show hybridScore (searchRequest svc a v) (svc.tagSettings.relevant v kbId) denseHits bm25Hits r.chunkId =
      hybridScore _ (svc.tagSettings.relevant v kbId) denseHits bm25Hits r.chunkId
    by_cases hrelevant : svc.tagSettings.relevant v kbId = []
    · rw [hrelevant]
      exact hybridScore_nil _ _ _ _
    · -- the tags count, so this base has the weight that was collected
      have hcan : svc.tagSettings.CanBoost kbId := ⟨hboosts.1, v, hrelevant⟩
      have hweight : (boostSetup svc a).2 = svc.tagSettings.weight kbId := by
        apply le_antisymm
        · rcases hcollected.attained with hzero | ⟨best, hbest, hbestBoosts, hattained⟩
          · rw [hzero]
            exact hboosts.1.le
          · rw [hattained]
            exact h kbId hkb hcan best hbest hbestBoosts
        · exact hcollected.bound kbId hkb hboosts
      rw [← hweight]
      rfl
  · rw [hcollected.others kbId hboosts]
    show hybridScore (searchRequest svc a v) [] _ _ _ = _
    rw [hybridScore_nil _ _ (svc.tagSettings.weight kbId)]
    by_cases hpos : 0 < svc.tagSettings.weight kbId
    · have hnil : svc.tagSettings.relevant v kbId = [] := by
        apply relevant_eq_nil
        by_contra hne
        exact hboosts ⟨hpos, hne⟩
      rw [show (searchRequest svc a v).queryVector = v from rfl, hnil]
    · simp only [hybridScore, if_neg hpos]

/-! ## Two weights -/

/-- A hit with one tag. -/
def taggedHit (tag : String) : Hit :=
  { id := 2, distance := 1
    entity := { content := "text", documentId := 1, folderId := "None", level := 0, title := ""
                metadata := Dict.empty, chunkTags := [tag] } }

/-- A dense hit for every base. -/
def taggedClient (Vec : Type) (tag : String) : MilvusClient Vec where
  collectionExists _ := true
  searchDense _ _ _ filter := some ([taggedHit tag].filter fun h => filter h.entity)
  searchBm25 _ _ _ _ := some []
  dense_passes := by
    intro collection vector limit filter hits heq h hh
    cases heq
    exact (List.mem_filter.1 hh).2
  bm25_passes := by
    intro collection text limit filter hits heq h hh
    cases heq
    cases hh

/-- Services with these settings, for which every base has a hit with the tag. -/
def taggedServices (st : TagSettings Vec) (v : Vec) (tag : String) : Services Vec where
  chat _ := none
  embed _ _ := some v
  routeQueryToTags _ _ := []
  tagBoostWeight := st.boostWeight
  canonicalEmbeddings := st.canonicalEmbeddings
  cosineSim := st.cosineSim
  milvus := taggedClient Vec tag
  filterAnswers := true
  healthScore _ := none
  redundancyPairs := some []
  rerank _ := none
  cacheReads := true
  cacheWrites := true

def largeCall (kbIds : List String) : RetrieveArgs :=
  { query := "text", kbIds := kbIds, topK := kbIds.length, embeddingModelRegistryId := some "m"
    enableTagRouting := false }

section Tagged

variable (st) (kbIds) (v : Vec) (tag : String)

theorem searchOne_tagged (hne : kbIds ≠ []) (kbId : String) :
    ∃ r, searchOne (taggedServices st v tag).milvus st.cosineSim
        (searchRequest (taggedServices st v tag) (largeCall kbIds) v)
        (boostSetup (taggedServices st v tag) (largeCall kbIds)).1 kbId = [r] ∧ r.chunkId = 2 := by
  let svc := taggedServices st v tag
  let request := searchRequest svc (largeCall kbIds) v
  let emb := (((boostSetup svc (largeCall kbIds)).1.get? kbId).getD [])
  have hranked : ∃ results,
      search svc.milvus st.cosineSim request emb (kbCollectionName kbId) = some results ∧
      HybridRanking request _ [taggedHit tag] [] results := search_hybridRanking rfl rfl rfl
  obtain ⟨results, hsearch, hranking⟩ := hranked
  have hlength : results.length = 1 := by
    rw [hranking.size]
    have hpos : 0 < kbIds.length := List.length_pos_iff.2 hne
    show (if (0 : Int) ≤ (kbIds.length : Int) then min (kbIds.length : Int).toNat 1 else _) = 1
    rw [if_pos (by omega)]
    omega
  obtain ⟨r₀, rfl⟩ := List.length_eq_one_iff.1 hlength
  refine ⟨{ r₀ with sourceKbId := some kbId }, ?_, ?_⟩
  · show List.map _ ((search svc.milvus st.cosineSim request emb (kbCollectionName kbId)).getD []) = _
    rw [hsearch]
    rfl
  · have hid := hranking.candidates r₀ List.mem_cons_self
    change r₀.chunkId ∈ [2] at hid
    exact List.mem_singleton.1 hid

theorem searchHits_tagged (hne : kbIds ≠ []) {kbId : String} (hkb : kbId ∈ kbIds) :
    ∃ hits, searchHits (taggedServices st v tag) (largeCall kbIds) = some hits ∧
      ∃ r ∈ hits, r.chunkId = 2 ∧ r ∈ searchOne (taggedServices st v tag).milvus st.cosineSim
        (searchRequest (taggedServices st v tag) (largeCall kbIds) v)
        (boostSetup (taggedServices st v tag) (largeCall kbIds)).1 kbId := by
  have hone := searchOne_tagged st kbIds v tag hne
  obtain ⟨r, hr, hid⟩ := hone kbId
  refine ⟨_, rfl, r, ?_, hid, hr ▸ List.mem_cons_self⟩
  have hshort : ∀ xs : List String, (xs.flatMap (searchOne (taggedServices st v tag).milvus st.cosineSim
      (searchRequest (taggedServices st v tag) (largeCall kbIds) v)
      (boostSetup (taggedServices st v tag) (largeCall kbIds)).1)).length = xs.length := by
    intro xs
    induction xs with
    | nil => rfl
    | cons x xs ih =>
        obtain ⟨r, hr, -⟩ := hone x
        rw [List.flatMap_cons, List.length_append, ih, hr, List.length_singleton, List.length_cons]
        omega
  show r ∈ sliceTo (kbIds.length : Int) _
  rw [sliceTo_eq_take, if_pos (by omega), List.take_of_length_le]
  · apply mem_orderByDesc.2
    apply List.mem_flatMap.2
    exact ⟨kbId, hkb, hr ▸ List.mem_cons_self⟩
  · rw [(orderByDesc_perm _ _).length_eq]
    exact (hshort kbIds).le

end Tagged

theorem hybridScore_tagged (request : SearchRequest Vec) {relevant : List String} {tag : String}
    (htag : tag ∈ relevant) (hpos : 0 < request.tagBoostWeight) :
    hybridScore request relevant [taggedHit tag] [] 2 =
      rankPart request.vectorWeight (some 1) + request.tagBoostWeight := by
  have hfirst : firstHit [taggedHit tag] [] 2 = some (taggedHit tag) := rfl
  have hranks : rankIn [taggedHit tag] 2 = some 1 ∧ rankIn [] 2 = none := ⟨rfl, rfl⟩
  have htags : (taggedHit tag).entity.chunkTags.countP (· ∈ relevant) = 1 := by simp [taggedHit, htag]
  have hnone : rankPart request.bm25Weight none = 0 := rfl
  simp only [hybridScore, hfirst, hranks.1, hranks.2, hnone, htags, Option.map_some, Option.getD_some,
    if_pos hpos, Nat.cast_one, one_mul, add_zero]

theorem largestWeight_of_ownBoosts (h : st.OwnBoosts kbIds) : st.LargestWeight kbIds := by
  intro kbId hkb hcan kbId' hkb' hboosts'
  have hboosts := hcan.boosts
  obtain ⟨hpos, v, hrelevant⟩ := hcan
  obtain ⟨tag, htag⟩ := List.exists_mem_of_ne_nil _ hrelevant
  let svc := taggedServices st v tag
  obtain ⟨hits, hhits, r, hr, hid, hone⟩ := searchHits_tagged st kbIds v tag (List.ne_nil_of_mem hkb) hkb
  obtain ⟨kbId₁, hsource₁, denseHits₁, bm25Hits₁, hdense₁, hbm25₁, hown⟩ :=
    h svc (largeCall kbIds) rfl rfl _ v rfl rfl hits hhits r hr
  obtain ⟨hsource, denseHits, bm25Hits, hdense, hbm25, hscore⟩ := score_of_mem_searchOne hone
  cases hsource.symm.trans hsource₁
  cases hdense
  cases hbm25
  cases hdense₁
  cases hbm25₁
  have hcollected := boostSetup_collected svc (largeCall kbIds)
  have hbound : st.weight kbId' ≤ (boostSetup svc (largeCall kbIds)).2 := hcollected.bound kbId' hkb' hboosts'
  have hlargest : 0 < (boostSetup svc (largeCall kbIds)).2 := hboosts'.1.trans_le hbound
  rw [hid] at hscore hown
  rw [hcollected.embeddings kbId hkb hboosts] at hscore
  have hgiven := hscore.trans (hybridScore_tagged _ htag hlargest)
  have hasked := hown.trans (hybridScore_tagged _ htag hpos)
  have hsame : (boostSetup svc (largeCall kbIds)).2 = st.weight kbId :=
    add_left_cancel (hgiven.symm.trans hasked)
  rw [← hsame]
  exact hbound

/-- The bases of every call are boosted as they ask for exactly when those that can be boosted have
the largest weight. -/
theorem ownBoosts_iff_largestWeight : st.OwnBoosts kbIds ↔ st.LargestWeight kbIds :=
  ⟨largestWeight_of_ownBoosts, ownBoosts_of_largestWeight⟩

/-- Two bases with the same tag and different weights. -/
def twoWeights : TagSettings Unit where
  boostWeight kbId := some (if kbId = "a" then 3 / 100 else 5 / 100)
  canonicalEmbeddings _ := [("refund", ())]
  cosineSim _ _ := 1

/-- Searched together with the other base, a base has its boost by the weight of that one. -/
theorem smaller_weight_overridden :
    ¬ ∀ (st : TagSettings Unit) (kbIds : List String), st.OwnBoosts kbIds := by
  intro h
  have hlargest := largestWeight_of_ownBoosts (h twoWeights ["a", "b"])
  have ha : twoWeights.weight "a" = 3 / 100 := rfl
  have hb : twoWeights.weight "b" = 5 / 100 := rfl
  have hcan : twoWeights.CanBoost "a" := by
    refine ⟨by rw [ha]; norm_num, (), ?_⟩
    decide
  have hboosts : twoWeights.Boosts "b" := ⟨by rw [hb]; norm_num, List.cons_ne_nil _ _⟩
  have hle := hlargest "a" (by decide) hcan "b" (by decide) hboosts
  rw [ha, hb] at hle
  norm_num at hle

end TagSettings

end OpsKnowledge.Retrieval
