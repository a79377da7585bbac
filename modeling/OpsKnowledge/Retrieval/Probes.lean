import Mathlib.Logic.Equiv.List
import Mathlib.Tactic.NormNum
import OpsKnowledge.Retrieval.Service

/-!
# Services that show the arguments of a search

Clients with a few given rows. Under services that leave the hits alone, the results of a
call on them show the arguments that it was made with.
-/

namespace OpsKnowledge.Retrieval

open OpsKnowledge.Lib
open Knowledge (Tables)

def emptyTables : Tables := { kbs := [], documents := [], next := 0 }

/-- Fusion fails on two results or more. Every query is routed to `tags`, and the one reranker that
answers ranks the first result alone. -/
def probeServices (client : MilvusClient Unit) (tags : List String) (reranker : Option (String × String)) :
    Services Unit :=
  { servicesOf client with
    redundancyPairs := none
    routeQueryToTags := fun _ _ => tags
    rerank := fun r => if reranker = some (r.providerId, r.modelName) then some [⟨some 0, some 5⟩] else none }

/-- The call asks for the answering reranker. -/
def reranks (reranker : Option (String × String)) (a : RetrieveArgs) : Bool :=
  a.reranker.isSome && a.reranker = reranker

def ranked (r : SearchResult) : SearchResult := { r with rerankScore := some 5, score := 5 }

theorem sliceTo_of_pos {α : Type} {topK : Int} (htop : 1 ≤ topK) (xs : List α) :
    sliceTo topK xs = xs.take topK.toNat := by
  unfold sliceTo
  rw [if_pos (by omega)]

theorem sliceTo_singleton {α : Type} {topK : Int} (htop : 1 ≤ topK) (x : α) : sliceTo topK [x] = [x] := by
  rw [sliceTo_of_pos htop, List.take_of_length_le (by simp; omega)]

section Stages

variable (client : MilvusClient Unit) (tags : List String) (reranker : Option (String × String))
  (a : RetrieveArgs)

@[simp] theorem queryUsed_probe : queryUsed (probeServices client tags reranker) a = a.query := by
  unfold queryUsed
  cases a.rewriteRequest <;> rfl

@[simp] theorem boostSetup_probe : boostSetup (probeServices client tags reranker) a = (Dict.empty, 0) := by
  unfold boostSetup
  induction a.kbIds with
  | nil => rfl
  | cons kbId kbIds ih => exact ih

@[simp] theorem routedTags_probe (hroutes : a.routesTags = true) :
    routedTags (probeServices client tags reranker) a = tags := by
  have hone : a.kbIds.length = 1 := by
    unfold RetrieveArgs.routesTags at hroutes
    simp only [Bool.and_eq_true, decide_eq_true_eq] at hroutes
    exact hroutes.2
  obtain ⟨kbId, hkbId⟩ := List.length_eq_one_iff.1 hone
  unfold routedTags
  rw [if_pos hroutes, hkbId]
  exact List.append_nil tags

def probeHits : List SearchResult :=
  multiKbSearch client (fun _ _ => 0) (searchRequest (probeServices client tags reranker) a ()) Dict.empty
    a.kbIds

variable {client tags reranker a}

theorem fuseResults_singleton {sourceWeights : Dict String ℚ} (hweights : ∀ kbId w,
    sourceWeights.get? kbId = some w → w = 1) {topK : Int} (htop : 1 ≤ topK) (r : SearchResult) :
    fuseResults {} [r] sourceWeights [] topK = [r] := by
  have hweight : (sourceWeights.get? (r.sourceKbId.getD "")).getD 1 = 1 := by
    cases h : sourceWeights.get? (r.sourceKbId.getD "") with
    | none => rfl
    | some w => exact hweights _ w h
  have hsource : sourceStage {} [r] sourceWeights = [r] := by
    unfold sourceStage
    split
    · show [{ r with score := r.score * (sourceWeights.get? (r.sourceKbId.getD "")).getD 1 }] = [r]
      rw [hweight, mul_one]
    · rfl
  unfold fuseResults
  simp only [hsource]
  exact sliceTo_singleton htop r

theorem fuseStage_probe (htop : 1 ≤ a.topK) {xs : List SearchResult}
    (hids : (xs.map SearchResult.chunkId).Nodup) :
    fuseStage (probeServices client tags reranker) a xs = xs := by
  unfold fuseStage
  split
  · have hweights : ∀ kbId w, (Dict.ofList (a.kbIds.map fun kbId =>
        (kbId, healthToWeight ((probeServices client tags reranker).healthScore kbId)))).get? kbId = some w →
        w = 1 := by
      intro kbId w hw
      rw [Dict.get?_ofList] at hw
      have hmem := List.mem_reverse.1 (mem_of_lookup_eq_some hw)
      obtain ⟨kbId', -, heq⟩ := List.mem_map.1 hmem
      exact (congrArg Prod.snd heq).symm
    unfold applyFusion
    simp only [hids.dedup, List.length_map]
    rcases xs with _ | ⟨r, _ | ⟨r', xs⟩⟩
    · rfl
    · exact fuseResults_singleton hweights htop r
    · rfl
  · rfl

theorem resultsFor_probe (htop : 1 ≤ a.topK)
    (hids : ((probeHits client tags reranker a).map SearchResult.chunkId).Nodup) :
    resultsFor (probeServices client tags reranker) a emptyTables () =
      thresholdStage a (rerankStage (probeServices client tags reranker) a a.query
        (probeHits client tags reranker a)) := by
  have hvisible : ∀ xs, filterInvisible true emptyTables xs = xs := by
    intro xs
    simp [filterInvisible, emptyTables]
  unfold resultsFor postProcess
  rw [queryUsed_probe, boostSetup_probe]
  show thresholdStage a (rerankStage _ a a.query (fuseStage _ a
    (filterInvisible true emptyTables (probeHits client tags reranker a)))) = _
  rw [hvisible, fuseStage_probe htop hids]

theorem rerankResults_first (r : SearchResult) (xs : List SearchResult) :
    rerankResults (some [⟨some 0, some 5⟩]) (r :: xs) = [ranked r] := by
  have hindex : pyIndex (xs.length + 1) 0 = some 0 := by simp [pyIndex]
  have hstep : rerankStep (r :: xs, []) ⟨some 0, some 5⟩ =
      .ok (ranked r :: xs, [0]) := by
    unfold rerankStep
    simp [hindex, ranked]
  unfold rerankResults
  simp only [List.foldlM_cons, List.foldlM_nil, hstep]
  rfl

/-- The answering reranker leaves the first result. -/
theorem rerankStage_probe {query : String} {xs : List SearchResult} :
    rerankStage (probeServices client tags reranker) a query xs =
      if reranks reranker a then xs.head?.toList.map ranked else xs := by
  unfold rerankStage reranks
  cases hrr : a.reranker with
  | none => rfl
  | some pm =>
      cases xs with
      | nil => simp
      | cons r xs =>
          by_cases hsame : some pm = reranker
          · subst hsame
            simpa [probeServices] using rerankResults_first r xs
          · have hne : reranker ≠ some (pm.1, pm.2) := fun h => hsame h.symm
            simp [probeServices, rerankResults, hne, hsame]

end Stages

/-! ## One row in each of some collections -/

section OneRow

variable (inCollection : String → Bool) (entity : Entity)

def chunkIdOf (collection : String) : Nat := Encodable.encode (collection.toList.map Char.toNat)

theorem chunkIdOf_injective : Function.Injective chunkIdOf := by
  intro c c' h
  have hchars : Function.Injective Char.toNat := fun _ _ heq => Char.toNat_inj.1 heq
  exact String.toList_injective (hchars.list_map (Encodable.encode_injective h))

def rowIn (distance : ℚ) (collection : String) : List Hit :=
  if inCollection collection then [⟨chunkIdOf collection, distance, entity⟩] else []

inductive Route where
  | dense
  | keyword

/-- A row with a hit on one route in each of the collections. -/
def rowsOn (distance : ℚ) : Route → MilvusClient Unit
  | .dense => clientOf (rowIn inCollection entity distance) fun _ => []
  | .keyword => clientOf (fun _ => []) (rowIn inCollection entity distance)

def Route.weight {Vec : Type} (request : SearchRequest Vec) : Route → ℚ
  | .dense => request.vectorWeight
  | .keyword => request.bm25Weight

/-- The merged row of the only hit of a route. -/
def Route.row (entity : Entity) (distance fused : ℚ) : Route → MergedRow
  | .dense => { entity := entity, denseScore := some distance, denseRank := some 0, fused := fused }
  | .keyword => { entity := entity, bm25Score := some distance, bm25Rank := some 0, fused := fused }

def resultIn (row : MergedRow) (kbId : String) : SearchResult :=
  { row.toResult (chunkIdOf (kbCollectionName kbId)) with sourceKbId := some kbId }

variable {inCollection entity} {request : SearchRequest Unit} {distance : ℚ} {route : Route}

theorem searchOne_clientOf (dense bm25 : String → List Hit) (kbId : String) :
    searchOne (clientOf dense bm25) (fun _ _ => 0) request Dict.empty kbId =
      (sliceTo request.topK (orderByDesc (fun e => e.2.fused) (scoredRows (fun _ _ => 0) request []
        ((dense (kbCollectionName kbId)).filter fun h =>
          rowFilter request.folderIds request.tagFilter h.entity)
        ((bm25 (kbCollectionName kbId)).filter fun h =>
          rowFilter request.folderIds request.tagFilter h.entity)))).map fun e =>
            { e.2.toResult e.1 with sourceKbId := some kbId } :=
  searchOne_of_hits rfl rfl rfl

theorem scoredRows_keyword (hboost : request.tagBoostWeight = 0) (hit : Hit) :
    scoredRows (fun _ _ => 0) request [] [] [hit] =
      [(hit.id, Route.keyword.row hit.entity hit.distance (request.bm25Weight * (1 / 61)))] := by
  have hrank : (60 + 1 : ℚ) = 61 := by norm_num
  simp [scoredRows, mergeHits, mergeBm25, MergedRow.rrf, rrfPart, rrfK, tagBoost, hboost, Dict.set, assign,
    Dict.empty, Dict.get?, hrank, Route.row]

theorem scoredRows_dense (hboost : request.tagBoostWeight = 0) (hit : Hit) :
    scoredRows (fun _ _ => 0) request [] [hit] [] =
      [(hit.id, Route.dense.row hit.entity hit.distance (request.vectorWeight * (1 / 61)))] := by
  have hrank : (60 + 1 : ℚ) = 61 := by norm_num
  simp [scoredRows, mergeHits, mergeDense, MergedRow.rrf, rrfPart, rrfK, tagBoost, hboost, Dict.set, assign,
    Dict.empty, Dict.get?, hrank, Route.row]

theorem searchOne_rowsOn (htop : 1 ≤ request.topK) (hboost : request.tagBoostWeight = 0) (kbId : String) :
    searchOne (rowsOn inCollection entity distance route) (fun _ _ => 0) request Dict.empty kbId =
      if inCollection (kbCollectionName kbId) && rowFilter request.folderIds request.tagFilter entity then
        [resultIn (route.row entity distance (route.weight request * (1 / 61))) kbId]
      else [] := by
  cases hin : inCollection (kbCollectionName kbId) &&
      rowFilter request.folderIds request.tagFilter entity with
  | false =>
      have hnone : (rowIn inCollection entity distance (kbCollectionName kbId)).filter
          (fun h => rowFilter request.folderIds request.tagFilter h.entity) = [] := by
        unfold rowIn
        split
        · simp_all
        · rfl
      cases route with
      | dense =>
          rw [rowsOn, searchOne_clientOf, hnone]
          exact congrArg (List.map _) (sliceTo_nil _)
      | keyword =>
          rw [rowsOn, searchOne_clientOf, hnone]
          exact congrArg (List.map _) (sliceTo_nil _)
  | true =>
      obtain ⟨hin, hpass⟩ := Bool.and_eq_true_iff.1 hin
      have hone : (rowIn inCollection entity distance (kbCollectionName kbId)).filter
          (fun h => rowFilter request.folderIds request.tagFilter h.entity) =
            [⟨chunkIdOf (kbCollectionName kbId), distance, entity⟩] := by
        simp [rowIn, hin, hpass]
      cases route with
      | dense =>
          rw [rowsOn, searchOne_clientOf, hone, List.filter_nil, scoredRows_dense hboost]
          exact congrArg (List.map _) (sliceTo_singleton htop _)
      | keyword =>
          rw [rowsOn, searchOne_clientOf, hone, List.filter_nil, scoredRows_keyword hboost]
          exact congrArg (List.map _) (sliceTo_singleton htop _)

/-! ## Their results -/

variable {tags : List String} {reranker : Option (String × String)} {a : RetrieveArgs}

/-- Whether a row passes the filter of a call whose query is routed to `tags`. -/
def passes (tags : List String) (a : RetrieveArgs) (entity : Entity) : Bool :=
  rowFilter a.folderIds a.tagFilter entity &&
    (!a.routesTags || tags.isEmpty || entity.chunkTags.any (· ∈ tags.filter (· ≠ "")))

theorem rowFilter_probe (client : MilvusClient Unit) :
    rowFilter a.folderIds (effectiveTagFilter (probeServices client tags reranker) a) entity =
      passes tags a entity := by
  rw [rowFilter_effectiveTagFilter]
  unfold passes
  cases hroutes : a.routesTags with
  | false => simp [routedTags, hroutes]
  | true =>
      rw [routedTags_probe client tags reranker a hroutes]
      rfl

theorem flatMap_if {α β : Type} (p : α → Bool) (f : α → β) (xs : List α) :
    (xs.flatMap fun x => if p x then [f x] else []) = (xs.filter p).map f := by
  induction xs with
  | nil => rfl
  | cons x xs ih =>
      rw [List.flatMap_cons, ih]
      cases hp : p x with
      | false => simp [hp]
      | true => simp [hp]

/-- The weight of a route in a call. -/
def Route.weightOf (a : RetrieveArgs) : Route → ℚ
  | .dense => a.vectorWeight
  | .keyword => a.bm25Weight

theorem Route.weight_searchRequest {Vec : Type} (svc : Services Vec) (vector : Vec) :
    route.weight (searchRequest svc a vector) = route.weightOf a := by
  cases route <;> rfl

/-- The result of the base `kbId`. -/
def rowResult (route : Route) (entity : Entity) (distance : ℚ) (a : RetrieveArgs) (kbId : String) :
    SearchResult :=
  resultIn (route.row entity distance (route.weightOf a * (1 / 61))) kbId

variable (inCollection entity) in
/-- The bases with a row that is found. -/
def foundIn (tags : List String) (a : RetrieveArgs) : List String :=
  a.kbIds.filter fun kbId => inCollection (kbCollectionName kbId) && passes tags a entity

theorem probeHits_rowsOn (htop : 1 ≤ a.topK) :
    probeHits (rowsOn inCollection entity distance route) tags reranker a =
      ((foundIn inCollection entity tags a).map (rowResult route entity distance a)).take a.topK.toNat := by
  have hone : searchOne (rowsOn inCollection entity distance route) (fun _ _ => 0)
      (searchRequest (probeServices (rowsOn inCollection entity distance route) tags reranker) a ()) Dict.empty =
        fun kbId => if inCollection (kbCollectionName kbId) && passes tags a entity then
          [rowResult route entity distance a kbId] else [] := by
    funext kbId
    have hboost : (searchRequest (probeServices (rowsOn inCollection entity distance route) tags reranker) a
        ()).tagBoostWeight = 0 := congrArg Prod.snd (boostSetup_probe _ tags reranker a)
    rw [searchOne_rowsOn htop hboost, Route.weight_searchRequest,
      ← rowFilter_probe (rowsOn inCollection entity distance route)]
    rfl
  have hscore : ∀ r ∈ (foundIn inCollection entity tags a).map (rowResult route entity distance a),
      r.score = route.weightOf a * (1 / 61) := by
    intro r hr
    obtain ⟨kbId, -, rfl⟩ := List.mem_map.1 hr
    cases route with
    | dense => rfl
    | keyword => rfl
  unfold probeHits multiKbSearch
  rw [hone, flatMap_if]
  show sliceTo a.topK (orderByDesc SearchResult.score
    ((foundIn inCollection entity tags a).map (rowResult route entity distance a))) = _
  rw [orderByDesc_eq_self, sliceTo_of_pos htop]
  apply List.pairwise_of_forall_mem_list
  intro r hr r' hr'
  rw [hscore r hr, hscore r' hr']

/-- The threshold keeps the results of a row. -/
def keeps (a : RetrieveArgs) (route : Route) (distance : ℚ) : Bool :=
  match route with
  | .dense => a.scoreThreshold.all fun threshold => threshold ≤ distance
  | .keyword => true

/-- The threshold is for dense scores. -/
theorem thresholdStage_eq_self {xs : List SearchResult} (hdense : ∀ r ∈ xs, r.denseScore = none) :
    thresholdStage a xs = xs := by
  unfold thresholdStage
  cases a.scoreThreshold with
  | none => rfl
  | some threshold =>
      apply List.filter_eq_self.2
      intro r hr
      simp [hdense r hr]

theorem thresholdStage_rowsOn {xs : List SearchResult}
    (hdense : ∀ r ∈ xs, r.denseScore = (route.row entity distance 0).denseScore) :
    thresholdStage a xs = if keeps a route distance then xs else [] := by
  cases route with
  | dense =>
      have hdense : ∀ r ∈ xs, r.denseScore = some distance := hdense
      unfold thresholdStage keeps
      cases hthreshold : a.scoreThreshold with
      | none => rfl
      | some threshold =>
          by_cases hle : threshold ≤ distance
          · rw [if_pos (by simpa using hle)]
            apply List.filter_eq_self.2
            intro r hr
            simpa [hdense r hr] using hle
          · rw [if_neg (by simpa using hle)]
            apply List.filter_eq_nil_iff.2
            intro r hr
            simpa [hdense r hr] using hle
  | keyword =>
      exact thresholdStage_eq_self hdense

theorem foundIn_ids (hnames : (a.kbIds.map kbCollectionName).Nodup) :
    (((foundIn inCollection entity tags a).map (rowResult route entity distance a)).map
      SearchResult.chunkId).Nodup := by
  have hids : ((foundIn inCollection entity tags a).map (rowResult route entity distance a)).map
      SearchResult.chunkId = ((foundIn inCollection entity tags a).map kbCollectionName).map chunkIdOf := by
    rw [List.map_map, List.map_map]
    apply List.map_congr_left
    intro kbId _
    rfl
  rw [hids]
  exact (hnames.sublist (List.filter_sublist.map _)).map chunkIdOf_injective

/-- The first result: of the first base that has a row, unless the threshold drops it. -/
def firstResult (route : Route) (inCollection : String → Bool) (entity : Entity) (distance : ℚ)
    (tags : List String) (reranker : Option (String × String)) (a : RetrieveArgs) : Option SearchResult :=
  if keeps a route distance then (foundIn inCollection entity tags a).head?.map fun kbId =>
    if reranks reranker a then ranked (rowResult route entity distance a kbId)
    else rowResult route entity distance a kbId
  else none

theorem head?_resultsFor (htop : 1 ≤ a.topK) (hnames : (a.kbIds.map kbCollectionName).Nodup) :
    (resultsFor (probeServices (rowsOn inCollection entity distance route) tags reranker) a emptyTables
      ()).head? = firstResult route inCollection entity distance tags reranker a := by
  have hhits : probeHits (rowsOn inCollection entity distance route) tags reranker a = _ :=
    probeHits_rowsOn htop
  have htake : a.topK.toNat ≠ 0 := by omega
  have hids : ((probeHits (rowsOn inCollection entity distance route) tags reranker a).map
      SearchResult.chunkId).Nodup := by
    rw [hhits]
    exact (foundIn_ids hnames).sublist ((List.take_sublist _ _).map _)
  have hhead : (((foundIn inCollection entity tags a).map (rowResult route entity distance a)).take
      a.topK.toNat).head? =
      (foundIn inCollection entity tags a).head?.map (rowResult route entity distance a) := by
    rw [List.head?_take, if_neg htake, List.head?_map]
  have hdense : ∀ kbId, (rowResult route entity distance a kbId).denseScore =
      (route.row entity distance 0).denseScore := by
    intro kbId
    cases route <;> rfl
  have hresult : ∀ r ∈ ((foundIn inCollection entity tags a).map (rowResult route entity distance a)).take
      a.topK.toNat, r.denseScore = (route.row entity distance 0).denseScore := by
    intro r hr
    obtain ⟨kbId, -, rfl⟩ := List.mem_map.1 (List.mem_of_mem_take hr)
    exact hdense kbId
  rw [resultsFor_probe htop hids, rerankStage_probe, hhits]
  unfold firstResult
  cases reranks reranker a with
  | true =>
      have hreranked : ∀ r ∈ (((foundIn inCollection entity tags a).map
          (rowResult route entity distance a)).take a.topK.toNat).head?.toList.map ranked,
          r.denseScore = (route.row entity distance 0).denseScore := by
        intro r hr
        obtain ⟨x, hx, rfl⟩ := List.mem_map.1 hr
        exact hresult x (List.mem_of_head? (Option.mem_toList.1 hx))
      rw [if_pos rfl, thresholdStage_rowsOn hreranked, hhead]
      split
      · cases (foundIn inCollection entity tags a).head? <;> rfl
      · rfl
  | false =>
      rw [if_neg Bool.false_ne_true, thresholdStage_rowsOn hresult]
      split
      · exact hhead
      · rfl

end OneRow

/-! ## Many rows in one collection -/

section ManyRows

variable {request : SearchRequest Unit} {a : RetrieveArgs}

/-- Hits of one route with ids of their own keep their order. -/
theorem mergeHits_keyword (hits : List Hit) (hids : (hits.map Hit.id).Nodup) :
    (mergeHits [] hits).entries = hits.zipIdx.map fun h =>
      (h.1.id, { entity := h.1.entity, bm25Score := some h.1.distance, bm25Rank := some h.2 }) := by
  induction hits using List.reverseRecOn with
  | nil => rfl
  | append_singleton hits hit ih =>
      rw [List.map_append, List.map_singleton, List.nodup_append] at hids
      have hold := ih hids.1
      have hnew : hit.id ∉ (mergeHits [] hits).keys := by
        intro hmem
        unfold Dict.keys at hmem
        rw [hold, List.map_map] at hmem
        obtain ⟨h, hh, heq⟩ := List.mem_map.1 hmem
        exact hids.2.2 h.1.id (List.mem_map_of_mem (List.fst_mem_of_mem_zipIdx hh)) hit.id
          (List.mem_singleton.2 rfl) heq
      have hstep : mergeHits [] (hits ++ [hit]) = mergeBm25 (mergeHits [] hits) (hit, hits.length) := by
        simp [mergeHits, List.zipIdx_append]
      rw [hstep, List.zipIdx_append, List.map_append, ← hold]
      unfold mergeBm25
      rw [Dict.entries_set_of_notMem hnew, Dict.get?_eq_none_iff.2 hnew]
      simp

def manyRows (n : Nat) (collection : String) (entity : Entity) : MilvusClient Unit :=
  clientOf (fun _ => []) fun c => if c = collection then (List.range n).map fun i => ⟨i, 0, entity⟩ else []

/-- What is found in the collection of `kbId`. -/
def rowsFound (request : SearchRequest Unit) (n : Nat) (entity : Entity) (kbId : String) :
    List SearchResult :=
  searchOne (manyRows n (kbCollectionName kbId) entity) (fun _ _ => 0) request Dict.empty kbId

theorem rowsFound_spec (n : Nat) (kbId : String) {entity : Entity} (htop : 1 ≤ request.topK)
    (hpass : rowFilter request.folderIds request.tagFilter entity = true) :
    (rowsFound request n entity kbId).length = min request.topK.toNat n ∧
      ((rowsFound request n entity kbId).map SearchResult.chunkId).Nodup ∧
      ∀ r ∈ rowsFound request n entity kbId, r.denseScore = none := by
  let hits : List Hit := (List.range n).map fun i => ⟨i, 0, entity⟩
  let scored := scoredRows (fun _ _ => 0) request [] [] hits
  have hids : hits.map Hit.id = List.range n := by
    simp [hits, Function.comp_def]
  have hmerged := mergeHits_keyword hits (by rw [hids]; exact List.nodup_range)
  have hfst : scored.map Prod.fst = List.range n := by
    have hkeys : scored.map Prod.fst = (mergeHits [] hits).entries.map Prod.fst := List.map_map
    rw [hkeys, hmerged, List.map_map, ← hids]
    show hits.zipIdx.map (Hit.id ∘ Prod.fst) = hits.map Hit.id
    rw [← List.map_map, List.zipIdx_map_fst]
  have hdense : ∀ e ∈ scored, e.2.denseScore = none := by
    intro e he
    obtain ⟨e', he', rfl⟩ := List.mem_map.1 he
    rw [hmerged] at he'
    obtain ⟨h, -, rfl⟩ := List.mem_map.1 he'
    rfl
  have hpassed : hits.filter (fun h => rowFilter request.folderIds request.tagFilter h.entity) = hits := by
    apply List.filter_eq_self.2
    intro h hh
    obtain ⟨i, -, rfl⟩ := List.mem_map.1 hh
    exact hpass
  have hperm := orderByDesc_perm (fun e => e.2.fused) scored
  have hfound : rowsFound request n entity kbId =
      ((orderByDesc (fun e => e.2.fused) scored).take request.topK.toNat).map fun e =>
        { e.2.toResult e.1 with sourceKbId := some kbId } := by
    unfold rowsFound
    rw [manyRows, searchOne_clientOf, if_pos rfl, hpassed, sliceTo_of_pos htop]
    rfl
  rw [hfound]
  refine ⟨?_, ?_, ?_⟩
  · have hlength : scored.length = n := by
      rw [← List.length_map Prod.fst, hfst, List.length_range]
    rw [List.length_map, List.length_take, hperm.length_eq, hlength]
  · rw [List.map_map]
    show (((orderByDesc (fun e => e.2.fused) scored).take request.topK.toNat).map Prod.fst).Nodup
    apply ((hperm.map Prod.fst).nodup_iff.2 ?_).sublist ((List.take_sublist _ _).map _)
    rw [hfst]
    exact List.nodup_range
  · intro r hr
    obtain ⟨e, he, rfl⟩ := List.mem_map.1 hr
    exact hdense e (hperm.mem_iff.1 (List.mem_of_mem_take he))

theorem searchOne_otherCollection {n : Nat} {collection kbId : String} {entity : Entity}
    (hne : kbCollectionName kbId ≠ collection) :
    searchOne (manyRows n collection entity) (fun _ _ => 0) request Dict.empty kbId = [] := by
  rw [manyRows, searchOne_clientOf, if_neg hne]
  exact congrArg (List.map _) (sliceTo_nil _)

theorem probeHits_manyRows {n : Nat} {kbId : String} {kbIds : List String} {entity : Entity}
    (htop : 1 ≤ a.topK) (hnames : (a.kbIds.map kbCollectionName).Nodup) (hkbIds : a.kbIds = kbId :: kbIds) :
    probeHits (manyRows n (kbCollectionName kbId) entity) [] none a =
      (orderByDesc SearchResult.score (rowsFound (searchRequest
        (probeServices (manyRows n (kbCollectionName kbId) entity) [] none) a ()) n entity kbId)).take
          a.topK.toNat := by
  rw [hkbIds, List.map_cons, List.nodup_cons] at hnames
  have hrest : kbIds.flatMap (searchOne (manyRows n (kbCollectionName kbId) entity) (fun _ _ => 0)
      (searchRequest (probeServices (manyRows n (kbCollectionName kbId) entity) [] none) a ()) Dict.empty) =
        [] := by
    rw [List.flatMap_eq_nil_iff]
    intro kbId' hmem
    apply searchOne_otherCollection
    intro heq
    exact hnames.1 (heq ▸ List.mem_map_of_mem hmem)
  unfold probeHits multiKbSearch
  rw [hkbIds, List.flatMap_cons, hrest, List.append_nil]
  exact sliceTo_of_pos htop _

/-- As many results as the call asks for, where there are as many rows. -/
theorem length_resultsFor {n : Nat} {kbId : String} {kbIds : List String} {entity : Entity}
    (htop : 1 ≤ a.topK) (hnames : (a.kbIds.map kbCollectionName).Nodup) (hkbIds : a.kbIds = kbId :: kbIds)
    (hpass : passes [] a entity = true) :
    (resultsFor (probeServices (manyRows n (kbCollectionName kbId) entity) [] none) a emptyTables ()).length =
      min a.topK.toNat n := by
  let client := manyRows n (kbCollectionName kbId) entity
  let request := searchRequest (probeServices client [] none) a ()
  have hadmits : rowFilter request.folderIds request.tagFilter entity = true :=
    (rowFilter_probe client).trans hpass
  have hspec : (rowsFound request n entity kbId).length = min a.topK.toNat n ∧ _ ∧ _ :=
    rowsFound_spec n kbId htop hadmits
  obtain ⟨hlength, hids, hdense⟩ := hspec
  have hhits : probeHits client [] none a = _ := probeHits_manyRows htop hnames hkbIds
  have hperm := orderByDesc_perm SearchResult.score (rowsFound request n entity kbId)
  have hnodup : ((probeHits client [] none a).map SearchResult.chunkId).Nodup := by
    rw [hhits]
    exact ((hperm.map _).nodup_iff.2 hids).sublist ((List.take_sublist _ _).map _)
  have hthreshold : thresholdStage a (probeHits client [] none a) = probeHits client [] none a := by
    have hnone : ∀ r ∈ probeHits client [] none a, r.denseScore = none := by
      intro r hr
      rw [hhits] at hr
      exact hdense r (hperm.mem_iff.1 (List.mem_of_mem_take hr))
    exact thresholdStage_eq_self hnone
  have hreranks : reranks none a = false := by
    unfold reranks
    cases a.reranker <;> rfl
  rw [resultsFor_probe htop hnodup, rerankStage_probe, hreranks, if_neg Bool.false_ne_true]
  show (thresholdStage a (probeHits client [] none a)).length = _
  rw [hthreshold, hhits, List.length_take, hperm.length_eq, hlength]
  show min a.topK.toNat (min a.topK.toNat n) = min a.topK.toNat n
  omega

end ManyRows

end OpsKnowledge.Retrieval
