import OpsKnowledge.Retrieval.Service

/-!
# The ranking of a hybrid search

What a chunk scores, from its ranks in the answers of the two routes, and what a search
returns of the candidates that they give.
-/

namespace OpsKnowledge.Retrieval

open OpsKnowledge.Lib

/-- The last hit of a chunk, with its 0-based rank. -/
def lastHit (hits : List Hit) (id : Nat) : Option (Hit × Nat) :=
  hits.zipIdx.reverse.find? fun h => h.1.id = id

/-- The 1-based rank of a chunk in the answer of a route. -/
def rankIn (hits : List Hit) (id : Nat) : Option Nat := (lastHit hits id).map fun h => h.2 + 1

/-- The hit whose fields a chunk has: the first one, of the dense route if it has one. -/
def firstHit (denseHits bm25Hits : List Hit) (id : Nat) : Option Hit :=
  (denseHits ++ bm25Hits).find? fun h => h.id = id

def rankPart (weight : ℚ) : Option Nat → ℚ
  | none => 0
  | some rank => weight * (1 / (60 + rank))

/-- Weighted reciprocal rank fusion, with the tag boost. -/
def hybridScore {Vec : Type} (request : SearchRequest Vec) (relevant : List String)
    (denseHits bm25Hits : List Hit) (id : Nat) : ℚ :=
  rankPart request.vectorWeight (rankIn denseHits id) + rankPart request.bm25Weight (rankIn bm25Hits id) +
    ((firstHit denseHits bm25Hits id).map fun h =>
      if 0 < request.tagBoostWeight then
        (h.entity.chunkTags.countP (· ∈ relevant) : ℚ) * request.tagBoostWeight
      else 0).getD 0

def candidateIds (denseHits bm25Hits : List Hit) : List Nat := ((denseHits ++ bm25Hits).map Hit.id).dedup

/-! ## Ranks -/

section Ranks

variable {hits denseHits bm25Hits : List Hit} {id : Nat}

theorem lastHit_concat (hits : List Hit) (h : Hit) (id : Nat) :
    lastHit (hits ++ [h]) id = if h.id = id then some (h, hits.length) else lastHit hits id := by
  unfold lastHit
  rw [List.zipIdx_append, List.reverse_append]
  by_cases hid : h.id = id
  · simp [hid]
  · simp [hid]

theorem lastHit_eq_none_iff : lastHit hits id = none ↔ ∀ h ∈ hits, h.id ≠ id := by
  induction hits using List.reverseRecOn with
  | nil => simp [lastHit]
  | append_singleton hits h ih =>
      rw [lastHit_concat]
      by_cases hid : h.id = id
      · simp [hid]
      · simp [hid, ih, or_imp, forall_and]

end Ranks

/-! ## The merged rows -/

section Merge

variable (denseHits bm25Hits : List Hit) (id : Nat)

theorem get?_mergeDense :
    (denseHits.zipIdx.foldl mergeDense Dict.empty).get? id =
      (firstHit denseHits [] id).map fun h =>
        { entity := h.entity
          denseScore := (lastHit denseHits id).map fun h => h.1.distance
          denseRank := (lastHit denseHits id).map Prod.snd } := by
  unfold firstHit
  induction denseHits using List.reverseRecOn with
  | nil => rfl
  | append_singleton hits h ih =>
      rw [List.zipIdx_append, List.foldl_append]
      simp only [List.append_nil] at ih ⊢
      simp only [List.zipIdx_cons, List.zipIdx_nil, List.foldl_cons, List.foldl_nil, mergeDense,
        Dict.get?_set, lastHit_concat, List.find?_append, Nat.zero_add]
      by_cases hid : h.id = id
      · subst hid
        rw [ih]
        cases hfirst : hits.find? fun h' => h'.id = h.id with
        | none => simp
        | some h' => simp
      · rw [if_neg (Ne.symm hid), ih]
        simp [hid]

theorem get?_mergeHits :
    (mergeHits denseHits bm25Hits).get? id =
      (firstHit denseHits bm25Hits id).map fun h =>
        { entity := h.entity
          denseScore := (lastHit denseHits id).map fun h => h.1.distance
          denseRank := (lastHit denseHits id).map Prod.snd
          bm25Score := (lastHit bm25Hits id).map fun h => h.1.distance
          bm25Rank := (lastHit bm25Hits id).map Prod.snd } := by
  unfold mergeHits
  induction bm25Hits using List.reverseRecOn with
  | nil => exact get?_mergeDense denseHits id
  | append_singleton hits h ih =>
      rw [List.zipIdx_append, List.foldl_append]
      simp only [List.zipIdx_cons, List.zipIdx_nil, List.foldl_cons, List.foldl_nil, mergeBm25,
        Dict.get?_set, lastHit_concat, firstHit, ← List.append_assoc, Nat.zero_add]
      rw [List.find?_append]
      by_cases hid : h.id = id
      · subst hid
        rw [ih]
        unfold firstHit
        cases hfirst : (denseHits ++ hits).find? fun h' => h'.id = h.id with
        | some h' => simp
        | none =>
            have hdense : lastHit denseHits h.id = none := by
              rw [lastHit_eq_none_iff]
              intro h' hh'
              simpa using List.find?_eq_none.1 hfirst h' (List.mem_append_left _ hh')
            simp [hdense]
      · rw [if_neg (Ne.symm hid), ih]
        unfold firstHit
        simp [hid]

theorem keys_mergeHits_perm : (mergeHits denseHits bm25Hits).keys.Perm (candidateIds denseHits bm25Hits) := by
  apply (List.perm_ext_iff_of_nodup (mergeHits denseHits bm25Hits).nodup (List.nodup_dedup _)).2
  intro id
  show id ∈ (mergeHits denseHits bm25Hits).keys ↔ _
  rw [Dict.mem_keys_iff, get?_mergeHits, List.mem_dedup]
  unfold firstHit
  cases hfirst : (denseHits ++ bm25Hits).find? fun h => h.id = id with
  | none =>
      have hnone := List.find?_eq_none.1 hfirst
      simp only [decide_eq_true_eq] at hnone
      simp only [Option.map_none, reduceCtorEq, exists_false, false_iff, List.mem_map, not_exists, not_and]
      exact hnone
  | some h =>
      have hid : h.id = id := by simpa using List.find?_some hfirst
      simp only [Option.map_some, Option.some.injEq, exists_eq', true_iff]
      rw [← hid]
      exact List.mem_map_of_mem (List.mem_of_find?_eq_some hfirst)

/-- The scored rows are the candidates with their hybrid scores. -/
theorem fused_of_mem_scoredRows {Vec : Type} {cosineSim : Vec → Vec → ℚ} {request : SearchRequest Vec}
    {canonicalEmbeddings : List (String × Vec)} {e : Nat × MergedRow}
    (he : e ∈ scoredRows cosineSim request canonicalEmbeddings denseHits bm25Hits) :
    e.2.fused = hybridScore request
      (selectRelevantCanonicals cosineSim request.queryVector canonicalEmbeddings)
      denseHits bm25Hits e.1 := by
  obtain ⟨e₀, he₀, rfl⟩ := List.mem_map.1 he
  have hget : (mergeHits denseHits bm25Hits).get? e₀.1 = some e₀.2 := Dict.get?_eq_some_iff.2 he₀
  rw [get?_mergeHits] at hget
  obtain ⟨h, hfirst, hrow⟩ := Option.map_eq_some_iff.1 hget
  have hpart : ∀ weight (found : Option (Hit × Nat)),
      rrfPart weight (found.map Prod.snd) = rankPart weight (found.map fun h => h.2 + 1) := by
    intro weight found
    cases found with
    | none => rfl
    | some found =>
        simp only [rrfPart, rankPart, rrfK, Option.map_some, Nat.cast_add, Nat.cast_one, add_assoc]
  simp only [hybridScore, hfirst, MergedRow.rrf, tagBoost, rankIn, ← hrow, hpart, Option.map_some,
    Option.getD_some]

theorem scoredRows_keys {Vec : Type} (cosineSim : Vec → Vec → ℚ) (request : SearchRequest Vec)
    (canonicalEmbeddings : List (String × Vec)) :
    (scoredRows cosineSim request canonicalEmbeddings denseHits bm25Hits).map Prod.fst =
      (mergeHits denseHits bm25Hits).keys := by
  simp [scoredRows, Dict.keys]

end Merge

/-! ## Slices of a ranking -/

theorem sliceTo_eq_take {α : Type} (k : Int) (xs : List α) :
    sliceTo k xs = xs.take (if 0 ≤ k then k.toNat else xs.length - (-k).toNat) := by
  unfold sliceTo
  split
  · rfl
  · rfl

/-- What is cut from a list that falls is not above what is left of it. -/
theorem le_of_mem_of_notMem_take {α κ : Type*} [LinearOrder κ] {key : α → κ} {xs : List α} {n : Nat}
    (h : xs.Pairwise fun a b => key b ≤ key a) {a b : α} (ha : a ∈ xs.take n) (hb : b ∈ xs)
    (hout : b ∉ xs.take n) : key b ≤ key a := by
  rw [← List.take_append_drop n xs, List.pairwise_append] at h
  rw [← List.take_append_drop n xs] at hb
  exact h.2.2 a ha b ((List.mem_append.1 hb).resolve_left hout)

/-! ## The answer -/

/-- The results of a search are the best candidates, with their scores. -/
structure HybridRanking {Vec : Type} (request : SearchRequest Vec) (relevant : List String)
    (denseHits bm25Hits : List Hit) (results : List SearchResult) : Prop where
  size : results.length =
    if 0 ≤ request.topK then min request.topK.toNat (candidateIds denseHits bm25Hits).length
    else (candidateIds denseHits bm25Hits).length - (-request.topK).toNat
  distinct : (results.map SearchResult.chunkId).Nodup
  candidates : ∀ r ∈ results, r.chunkId ∈ candidateIds denseHits bm25Hits
  scored : ∀ r ∈ results, r.score = hybridScore request relevant denseHits bm25Hits r.chunkId
  ordered : results.Pairwise fun a b => b.score ≤ a.score
  best : ∀ id ∈ candidateIds denseHits bm25Hits, id ∉ results.map SearchResult.chunkId →
    ∀ r ∈ results, hybridScore request relevant denseHits bm25Hits id ≤ r.score

section Search

variable {Vec : Type} {client : MilvusClient Vec} {cosineSim : Vec → Vec → ℚ} {request : SearchRequest Vec}
  {canonicalEmbeddings : List (String × Vec)} {collectionName : String} {denseHits bm25Hits : List Hit}

theorem search_of_hits (hexists : client.collectionExists collectionName = true)
    (hdense : client.searchDense collectionName request.queryVector (perRouteK request.topK)
      (rowFilter request.folderIds request.tagFilter) = some denseHits)
    (hbm25 : client.searchBm25 collectionName request.queryText (perRouteK request.topK)
      (rowFilter request.folderIds request.tagFilter) = some bm25Hits) :
    search client cosineSim request canonicalEmbeddings collectionName =
      some ((sliceTo request.topK (orderByDesc (fun e => e.2.fused)
        (scoredRows cosineSim request canonicalEmbeddings denseHits bm25Hits))).map
          fun e => e.2.toResult e.1) := by
  simp [search, hexists, hdense, hbm25]

/-- Whatever the two routes answer, a search returns the best candidates. -/
theorem search_hybridRanking (hexists : client.collectionExists collectionName = true)
    (hdense : client.searchDense collectionName request.queryVector (perRouteK request.topK)
      (rowFilter request.folderIds request.tagFilter) = some denseHits)
    (hbm25 : client.searchBm25 collectionName request.queryText (perRouteK request.topK)
      (rowFilter request.folderIds request.tagFilter) = some bm25Hits) :
    ∃ results, search client cosineSim request canonicalEmbeddings collectionName = some results ∧
      HybridRanking request (selectRelevantCanonicals cosineSim request.queryVector canonicalEmbeddings)
        denseHits bm25Hits results := by
  let rows := scoredRows cosineSim request canonicalEmbeddings denseHits bm25Hits
  let ranked := orderByDesc (fun e => e.2.fused) rows
  have hperm : ranked.Perm rows := orderByDesc_perm _ rows
  have hkeys : (rows.map Prod.fst).Perm (candidateIds denseHits bm25Hits) := by
    rw [scoredRows_keys]
    exact keys_mergeHits_perm denseHits bm25Hits
  have hids : ∀ xs : List (Nat × MergedRow),
      (xs.map fun e => e.2.toResult e.1).map SearchResult.chunkId = xs.map Prod.fst := by
    intro xs
    rw [List.map_map]
    rfl
  have hlength : ranked.length = (candidateIds denseHits bm25Hits).length := by
    rw [hperm.length_eq, ← hkeys.length_eq, List.length_map]
  have hsorted : ranked.Pairwise fun a b => b.2.fused ≤ a.2.fused := orderByDesc_pairwise _ rows
  have hscored : ∀ e ∈ ranked, e.2.fused = hybridScore request
      (selectRelevantCanonicals cosineSim request.queryVector canonicalEmbeddings) denseHits bm25Hits e.1 :=
    fun e he => fused_of_mem_scoredRows denseHits bm25Hits (hperm.mem_iff.1 he)
  refine ⟨_, search_of_hits hexists hdense hbm25, ?_, ?_, ?_, ?_, ?_, ?_⟩
  · show ((sliceTo request.topK ranked).map _).length = _
    rw [List.length_map, sliceTo_eq_take, List.length_take, hlength]
    split
    · rfl
    · exact Nat.min_eq_left (Nat.sub_le _ _)
  · show (((sliceTo request.topK ranked).map _).map _).Nodup
    rw [hids, sliceTo_eq_take]
    have hnodup : (ranked.map Prod.fst).Nodup :=
      ((hperm.map Prod.fst).trans hkeys).nodup_iff.2 (List.nodup_dedup _)
    exact hnodup.sublist ((List.take_sublist _ _).map Prod.fst)
  · intro r hr
    obtain ⟨e, he, rfl⟩ := List.mem_map.1 hr
    have hmem : e ∈ ranked := List.mem_of_mem_take (sliceTo_eq_take request.topK ranked ▸ he)
    exact hkeys.mem_iff.1 (List.mem_map_of_mem (hperm.mem_iff.1 hmem))
  · intro r hr
    obtain ⟨e, he, rfl⟩ := List.mem_map.1 hr
    exact hscored e (List.mem_of_mem_take (sliceTo_eq_take request.topK ranked ▸ he))
  · show ((sliceTo request.topK ranked).map _).Pairwise _
    rw [sliceTo_eq_take, List.pairwise_map]
    exact hsorted.sublist (List.take_sublist _ _)
  · intro id hid hout r hr
    obtain ⟨e, he, rfl⟩ := List.mem_map.1 hr
    obtain ⟨e', he', rfl⟩ := List.mem_map.1 (hkeys.mem_iff.2 hid)
    have hin' : e' ∈ ranked := hperm.mem_iff.2 he'
    rw [hids] at hout
    rw [← hscored e' hin']
    change e ∈ sliceTo request.topK ranked at he
    change e'.1 ∉ (sliceTo request.topK ranked).map Prod.fst at hout
    rw [sliceTo_eq_take] at he hout
    exact le_of_mem_of_notMem_take hsorted he hin' fun hin => hout (List.mem_map_of_mem hin)

end Search

def hitOf (id : Nat) (chunkTags : List String) : Hit :=
  { id := id, distance := 1
    entity := { content := "text", documentId := 1, folderId := "None", level := 0, title := ""
                metadata := Dict.empty, chunkTags := chunkTags } }

/-- Both routes find the second chunk; the third one has a tag. -/
def bothRoutes : MilvusClient Unit :=
  clientOf (fun _ => [hitOf 1 [], hitOf 2 [], hitOf 3 ["net"]]) fun _ => [hitOf 2 [], hitOf 4 []]

def boostedRequest (topK : Int) : SearchRequest Unit :=
  { queryVector := (), queryText := "text", topK := topK, folderIds := [], bm25Weight := 1
    vectorWeight := 1, tagFilter := {}, tagBoostWeight := 1 / 20 }

/-- The tag lifts the third chunk above the one that both routes find, and two are cut. -/
theorem search_hybridRanking_bothRoutes :
    ∃ results, search bothRoutes (fun _ _ => 1) (boostedRequest 2) [("net", ())] "kb_0" = some results ∧
      HybridRanking (boostedRequest 2) ["net"] [hitOf 1 [], hitOf 2 [], hitOf 3 ["net"]]
        [hitOf 2 [], hitOf 4 []] results ∧
      results.map (fun r => (r.chunkId, r.score)) = [(3, 1 / 63 + 1 / 20), (2, 1 / 62 + 1 / 61)] := by
  have hrelevant : selectRelevantCanonicals (fun _ _ : Unit => (1 : ℚ)) () [("net", ())] = ["net"] := by
    decide +kernel
  have hscores : (search bothRoutes (fun _ _ => 1) (boostedRequest 2) [("net", ())] "kb_0").map
      (fun results => results.map fun r => (r.chunkId, r.score)) =
      some [(3, 1 / 63 + 1 / 20), (2, 1 / 62 + 1 / 61)] := by
    decide +kernel
  obtain ⟨results, hsearch, hranking⟩ := @search_hybridRanking Unit bothRoutes (fun _ _ => 1)
    (boostedRequest 2) [("net", ())] "kb_0" _ _ rfl rfl rfl
  rw [hsearch, Option.map_some, Option.some.injEq] at hscores
  rw [← hrelevant]
  exact ⟨results, hsearch, hranking, hscores⟩

/-- A negative limit is a bound of a slice, and no result list is that short. -/
theorem negative_topK_exceeded :
    ¬ ∀ (client : MilvusClient Unit) (request : SearchRequest Unit) (results : List SearchResult),
      search client (fun _ _ => 0) request [] "kb_0" = some results →
        (results.length : Int) ≤ request.topK := by
  intro h
  have hle := h (clientOf (fun _ => [chunkHit]) fun _ => [chunkHit]) (boostedRequest (-1)) [] rfl
  exact absurd hle (by decide)

end OpsKnowledge.Retrieval
