import Mathlib.Tactic.Linarith
import OpsKnowledge.Retrieval.Probes

/-!
# Answers from the cache

The key of the L2 cache covers a part of the arguments, so that calls with other arguments
find the answer of this one. Here it is said for which of them that answer is what they
would have computed. In the other direction it is shown by services under which the two
computed answers differ.
-/

namespace OpsKnowledge.Retrieval

open OpsKnowledge.Lib
open Knowledge (Tables)

/-! ## Calls with one answer -/

namespace RetrieveArgs

/-- No row can be found: there is no base, or no row passes the filter. -/
def Barren (a : RetrieveArgs) : Prop := a.kbIds = [] ∨ ∀ e, rowFilter a.folderIds a.tagFilter e = false

/-- The same text is searched for, with the same embedding. -/
structure SameQuery (a b : RetrieveArgs) : Prop where
  embeddingModel : a.embeddingModel = b.embeddingModel
  query : a.query = b.query
  rewriteRequest : a.rewriteRequest = b.rewriteRequest

/-- The same bases are searched in the same order, and their rows are treated alike. -/
structure SameSearch (a b : RetrieveArgs) : Prop where
  kbIds : a.kbIds = b.kbIds
  topK : a.topK = b.topK
  rowFilter : ∀ e, rowFilter a.folderIds a.tagFilter e = rowFilter b.folderIds b.tagFilter e
  routesTags : a.routesTags = b.routesTags
  bm25Weight : a.bm25Weight = b.bm25Weight
  vectorWeight : a.vectorWeight = b.vectorWeight
  scoreThreshold : a.scoreThreshold = b.scoreThreshold
  reranker : a.reranker = b.reranker

/-- Without an embedding model the first call raises, and nothing is stored. -/
def Interchangeable (a b : RetrieveArgs) : Prop :=
  a.embeddingModel = none ∨ SameQuery a b ∧ (a.Barren ∧ b.Barren ∨ SameSearch a b)

end RetrieveArgs

/-- A second call that is answered from the entry of the first, with other entries of the cache
written or deleted in between, returns the results that it would have computed. -/
def Transparent (digest : String → String) (a b : RetrieveArgs) : Prop :=
  ∀ (Vec : Type) (svc : Services Vec) (t : Tables) (cache after later : L2Cache)
    (first second : RetrievalResult) (rest : L2Cache),
    svc.cacheReads = true → svc.cacheWrites = true → cache (cacheKey digest a) = none →
    retrieve digest svc t cache a = some (first, after) →
    cacheKey digest b = cacheKey digest a → later (cacheKey digest b) = after (cacheKey digest a) →
    retrieve digest svc t later b = some (second, rest) →
      ∃ own, compute svc b t = some own ∧ own.results = second.results

/-- Whatever the first call computes, the second computes the same results. -/
def Agrees (a b : RetrieveArgs) : Prop :=
  ∀ (Vec : Type) (svc : Services Vec) (t : Tables) (first : RetrievalResult), compute svc a t = some first →
    ∃ own, compute svc b t = some own ∧ own.results = first.results

section Cache

variable {digest : String → String} {a b : RetrieveArgs}

theorem retrieve_of_miss {Vec : Type} {svc : Services Vec} {t : Tables} {cache : L2Cache}
    (h : cache (cacheKey digest a) = none) :
    retrieve digest svc t cache a = (compute svc a t).map fun r => (r, storeAnswer digest svc cache a r) := by
  have hmiss : cached digest svc cache a = none := by
    unfold cached
    split
    · exact h
    · rfl
  unfold retrieve
  rw [hmiss]
  cases compute svc a t with
  | none => rfl
  | some r => rfl

theorem retrieve_of_hit {Vec : Type} {svc : Services Vec} {t : Tables} {cache : L2Cache}
    {c : CachedRetrieval} (hreads : svc.cacheReads = true) (h : cache (cacheKey digest a) = some c) :
    retrieve digest svc t cache a = some (c.toResult, cache) := by
  have hhit : cached digest svc cache a = some c := by
    unfold cached
    rw [if_pos hreads]
    exact h
  unfold retrieve
  rw [hhit]

theorem storeAnswer_self {Vec : Type} {svc : Services Vec} {cache : L2Cache} {r : RetrievalResult}
    (hwrites : svc.cacheWrites = true) :
    storeAnswer digest svc cache a r (cacheKey digest a) = some r.toCached := by
  unfold storeAnswer
  rw [if_pos hwrites]
  exact if_pos rfl

/-- Only keys that are equal matter, and for them the computed answers. -/
theorem transparent_iff_agrees :
    Transparent digest a b ↔ (cacheKey digest b = cacheKey digest a → Agrees a b) := by
  constructor
  · intro h hkey Vec svc t first hfirst
    let open' : Services Vec := { svc with cacheReads := true, cacheWrites := true }
    have hmiss : (Store.empty : L2Cache) (cacheKey digest a) = none := rfl
    have hrun : retrieve digest open' t Store.empty a =
        some (first, storeAnswer digest open' Store.empty a first) := by
      have hcompute : compute open' a t = some first := hfirst
      rw [retrieve_of_miss hmiss, hcompute]
      rfl
    have hstored :
        storeAnswer digest open' Store.empty a first (cacheKey digest b) = some first.toCached := by
      rw [hkey]
      exact storeAnswer_self rfl
    have hsecond : retrieve digest open' t (storeAnswer digest open' Store.empty a first) b =
        some (first.toCached.toResult, storeAnswer digest open' Store.empty a first) :=
      retrieve_of_hit rfl hstored
    exact h Vec open' t _ _ _ _ first.toCached.toResult _ rfl rfl hmiss hrun hkey (congrArg _ hkey) hsecond
  · intro h Vec svc t cache after later first second rest hreads hwrites hmiss hfirst hkey hlater hsecond
    rw [retrieve_of_miss hmiss] at hfirst
    obtain ⟨r, hr, heq⟩ := Option.map_eq_some_iff.1 hfirst
    cases heq
    obtain ⟨own, hown, hresults⟩ := h hkey Vec svc t _ hr
    rw [storeAnswer_self hwrites] at hlater
    rw [retrieve_of_hit hreads hlater] at hsecond
    cases hsecond
    exact ⟨own, hown, hresults⟩

end Cache

/-! ## What the computation reads -/

section Compute

variable {Vec : Type} (svc : Services Vec) {a b : RetrieveArgs}

theorem RetrieveArgs.SameQuery.queryUsed_eq (h : a.SameQuery b) : queryUsed svc a = queryUsed svc b := by
  unfold queryUsed
  rw [h.query, h.rewriteRequest]

theorem RetrieveArgs.SameQuery.queryVector_eq (h : a.SameQuery b) :
    queryVector svc a = queryVector svc b := by
  unfold queryVector
  rw [h.embeddingModel, h.queryUsed_eq svc]

theorem RetrieveArgs.Barren.results_eq_nil (h : a.Barren) (t : Tables) (vector : Vec) :
    resultsFor svc a t vector = [] := by
  have hnone : multiKbSearch svc.milvus svc.cosineSim (searchRequest svc a vector) (boostSetup svc a).1
      a.kbIds = [] := by
    unfold multiKbSearch
    rcases h with hnone | hfilter
    · rw [hnone]
      exact sliceTo_nil _
    · have heffective : ∀ e, rowFilter (searchRequest svc a vector).folderIds
          (searchRequest svc a vector).tagFilter e = false := by
        intro e
        have hrow := rowFilter_effectiveTagFilter svc a e
        rw [hfilter, Bool.false_and] at hrow
        exact hrow
      have hflat : a.kbIds.flatMap (searchOne svc.milvus svc.cosineSim (searchRequest svc a vector)
          (boostSetup svc a).1) = [] := by
        rw [List.flatMap_eq_nil_iff]
        exact fun kbId _ => searchOne_eq_nil heffective kbId
      rw [hflat]
      exact sliceTo_nil _
  unfold resultsFor
  rw [hnone]
  unfold filterInvisible
  split
  · exact postProcess_nil svc a _
  · exact postProcess_nil svc a _

theorem RetrieveArgs.SameSearch.results_eq (hquery : a.SameQuery b) (h : a.SameSearch b) (t : Tables)
    (vector : Vec) : resultsFor svc a t vector = resultsFor svc b t vector := by
  have hused := hquery.queryUsed_eq svc
  have hrouted : routedTags svc a = routedTags svc b := by
    unfold routedTags
    rw [h.routesTags, h.kbIds, hused]
  have hboost : boostSetup svc a = boostSetup svc b := congrArg (List.foldl (boostStep svc) _) h.kbIds
  have hsearch :
      multiKbSearch svc.milvus svc.cosineSim (searchRequest svc a vector) (boostSetup svc a).1 a.kbIds =
      multiKbSearch svc.milvus svc.cosineSim (searchRequest svc b vector) (boostSetup svc b).1 b.kbIds := by
    rw [h.kbIds, hboost]
    apply multiKbSearch_congr
    · intro e
      have ha := rowFilter_effectiveTagFilter svc a e
      have hb := rowFilter_effectiveTagFilter svc b e
      rw [h.rowFilter, hrouted] at ha
      exact ha.trans hb.symm
    · unfold searchRequest
      rw [hused, h.topK, h.bm25Weight, h.vectorWeight, hboost]
  have hfuse : fuseStage svc a = fuseStage svc b := by
    unfold fuseStage applyFusion
    rw [h.kbIds, h.topK]
  have hrerank : rerankStage svc a = rerankStage svc b := by
    unfold rerankStage
    rw [h.reranker, h.topK]
  have hthreshold : thresholdStage a = thresholdStage b := by
    unfold thresholdStage
    rw [h.scoreThreshold]
  unfold resultsFor postProcess
  rw [hsearch, hused, hfuse, hrerank, hthreshold]

end Compute

/-- What is computed is decided by the query and by the search. -/
theorem agrees_of_interchangeable {a b : RetrieveArgs} (h : a.Interchangeable b) : Agrees a b := by
  intro Vec svc t first hfirst
  have ha := compute_results svc a t
  have hb := compute_results svc b t
  rw [hfirst] at ha
  obtain ⟨vector, hvector, hresults⟩ := Option.map_eq_some_iff.1 ha.symm
  rcases h with hnone | ⟨hquery, hsame⟩
  · unfold queryVector at hvector
    rw [hnone] at hvector
    cases hvector
  · rw [← hquery.queryVector_eq svc, hvector] at hb
    obtain ⟨own, hown, heq⟩ := Option.map_eq_some_iff.1 hb
    refine ⟨own, hown, ?_⟩
    rw [heq, ← hresults]
    rcases hsame with ⟨hbarren, hbarren'⟩ | hsearch
    · rw [hbarren.results_eq_nil svc, hbarren'.results_eq_nil svc]
    · exact (hsearch.results_eq svc hquery t vector).symm

/-! ## Calls with one answer are interchangeable -/

/-- Another text than the query, which the rewriting model may answer with. -/
def otherWord (query : String) : String := if query = "x" then "y" else "x"

theorem otherWord_ne (query : String) : otherWord query ≠ query := by
  unfold otherWord
  split
  · next h =>
      rw [h]
      decide
  · next h => exact fun heq => h heq.symm

theorem rewrittenQuery_otherWord (query : String) :
    rewrittenQuery query (some ⟨true, otherWord query⟩) = otherWord query := by
  have hstrip : strip (otherWord query) = otherWord query := by
    unfold otherWord
    split <;> rfl
  have hnonempty : (otherWord query).isEmpty = false := by
    unfold otherWord
    split <;> rfl
  unfold rewrittenQuery
  simp [hstrip, hnonempty, otherWord_ne]

/-- A model that answers to one request shows that it is sent. -/
theorem eq_some_of_rewrittenQuery {query : String} {sent sent' : Option RewriteRequest}
    (h : ∀ chat, rewrittenQuery query (sent.bind chat) = rewrittenQuery query (sent'.bind chat))
    {request : RewriteRequest} (hsent : sent = some request) : sent' = some request := by
  let chat (r : RewriteRequest) : Option RewriteReply :=
    if r = request then some ⟨true, otherWord query⟩ else none
  have hother : rewrittenQuery query (sent'.bind chat) = otherWord query := by
    rw [← h chat, hsent, Option.bind_some, show chat request = some ⟨true, otherWord query⟩ from if_pos rfl]
    exact rewrittenQuery_otherWord query
  cases hsent' : sent'.bind chat with
  | none =>
      rw [hsent'] at hother
      exact absurd hother.symm (otherWord_ne query)
  | some reply =>
      obtain ⟨request', heq, hreply⟩ := Option.bind_eq_some_iff.1 hsent'
      have hsame : request' = request := by
        by_contra hne
        rw [show chat request' = none from if_neg hne] at hreply
        cases hreply
      rw [heq, hsame]

section Queries

variable {a b : RetrieveArgs} {model : ModelRef}

theorem Agrees.results_eq (h : Agrees a b) {Vec : Type} {svc : Services Vec} {v : Vec} (t : Tables)
    (hv : queryVector svc a = some v) :
    ∃ v', queryVector svc b = some v' ∧ resultsFor svc b t v' = resultsFor svc a t v := by
  have ha := compute_results svc a t
  have hb := compute_results svc b t
  rw [hv] at ha
  obtain ⟨first, hfirst, hresults⟩ := Option.map_eq_some_iff.1 ha
  obtain ⟨own, hown, heq⟩ := h Vec svc t first hfirst
  rw [hown] at hb
  obtain ⟨v', hv', hresults'⟩ := Option.map_eq_some_iff.1 hb.symm
  exact ⟨v', hv', hresults'.trans (heq.trans hresults)⟩

/-- An embedding model that knows one text only shows that both calls search for it. -/
theorem Agrees.queryUsed_eq (h : Agrees a b) (hmodel : a.embeddingModel = some model)
    (svc : Services Unit) : b.embeddingModel = some model ∧ queryUsed svc b = queryUsed svc a := by
  let knowing : Services Unit :=
    { svc with embed := fun m q => if m = model ∧ q = queryUsed svc a then some () else none }
  have ha : queryVector knowing a = some () := by
    unfold queryVector
    rw [hmodel]
    exact if_pos ⟨rfl, rfl⟩
  obtain ⟨v, hb, -⟩ := h.results_eq emptyTables ha
  unfold queryVector at hb
  obtain ⟨model', hmodel', hembed⟩ := Option.bind_eq_some_iff.1 hb
  have hsame : model' = model ∧ queryUsed svc b = queryUsed svc a := by
    by_contra hne
    have hnone : knowing.embed model' (queryUsed knowing b) = none := if_neg hne
    rw [hnone] at hembed
    cases hembed
  rw [hmodel', hsame.1]
  exact ⟨rfl, hsame.2⟩

theorem Agrees.sameQuery (h : Agrees a b) (hmodel : a.embeddingModel = some model) : a.SameQuery b := by
  let client := clientOf (fun _ => []) fun _ => []
  obtain ⟨hmodel', hquery⟩ := h.queryUsed_eq hmodel (probeServices client [] none)
  rw [queryUsed_probe, queryUsed_probe] at hquery
  have hused : ∀ chat, rewrittenQuery a.query (b.rewriteRequest.bind chat) =
      rewrittenQuery a.query (a.rewriteRequest.bind chat) := by
    intro chat
    have heq := (h.queryUsed_eq hmodel { servicesOf client with chat := chat }).2
    unfold queryUsed at heq
    rw [hquery] at heq
    exact heq
  have hrequest : a.rewriteRequest = b.rewriteRequest := by
    apply Option.ext
    intro request
    exact ⟨eq_some_of_rewrittenQuery fun chat => (hused chat).symm, eq_some_of_rewrittenQuery hused⟩
  exact ⟨hmodel.trans hmodel'.symm, hquery.symm, hrequest⟩

end Queries

section Searches

variable {a b : RetrieveArgs}

/-- A list without two elements of one image is known by the first ones of its sublists. -/
theorem eq_of_head?_filter {α β : Type} [DecidableEq β] (f : α → β) {xs ys : List α}
    (hxs : (xs.map f).Nodup) (hys : (ys.map f).Nodup)
    (h : ∀ p : β → Bool, (xs.filter fun x => p (f x)).head? = (ys.filter fun y => p (f y)).head?) :
    xs = ys := by
  induction xs generalizing ys with
  | nil =>
      cases ys with
      | nil => rfl
      | cons y ys => cases h fun _ => true
  | cons x xs ih =>
      cases ys with
      | nil => cases h fun _ => true
      | cons y ys =>
          have hhead : x = y := Option.some.inj (h fun _ => true)
          subst hhead
          rw [List.map_cons, List.nodup_cons] at hxs hys
          congr 1
          apply ih hxs.2 hys.2
          intro p
          have hrest := h fun c => p c && c ≠ f x
          have hskip : ∀ zs : List α, f x ∉ zs.map f →
              ((x :: zs).filter fun z => p (f z) && f z ≠ f x) = zs.filter fun z => p (f z) := by
            intro zs hzs
            rw [List.filter_cons_of_neg (by simp)]
            apply List.filter_congr
            intro z hz
            have hne : f z ≠ f x := fun heq => hzs (heq ▸ List.mem_map_of_mem hz)
            simp [hne]
          rw [hskip xs hxs.1, hskip ys hys.1] at hrest
          exact hrest

/-- The results of both calls are the same under every probe. -/
def SameProbes (a b : RetrieveArgs) : Prop :=
  ∀ client tags reranker, resultsFor (probeServices client tags reranker) a emptyTables () =
    resultsFor (probeServices client tags reranker) b emptyTables ()

theorem Agrees.sameProbes (h : Agrees a b) {model : ModelRef} (hmodel : a.embeddingModel = some model) :
    SameProbes a b := by
  intro client tags reranker
  have ha : queryVector (probeServices client tags reranker) a = some () := by
    unfold queryVector
    rw [hmodel]
    rfl
  obtain ⟨v, -, hresults⟩ := h.results_eq emptyTables ha
  exact hresults.symm

theorem SameProbes.symm (h : SameProbes a b) : SameProbes b a :=
  fun client tags reranker => (h client tags reranker).symm

/-- The call asks for results, and its bases have collections of their own. -/
structure RetrieveArgs.Regular (a : RetrieveArgs) : Prop where
  topK : 1 ≤ a.topK
  collections : (a.kbIds.map kbCollectionName).Nodup

variable (h : SameProbes a b) (ha : a.Regular) (hb : b.Regular)

include h ha hb

theorem SameProbes.firstResult_eq (route : Route) (inCollection : String → Bool) (entity : Entity)
    (distance : ℚ) (tags : List String) (reranker : Option (String × String)) :
    firstResult route inCollection entity distance tags reranker a =
      firstResult route inCollection entity distance tags reranker b := by
  have heads := congrArg List.head? (h (rowsOn inCollection entity distance route) tags reranker)
  rw [head?_resultsFor ha.topK ha.collections, head?_resultsFor hb.topK hb.collections] at heads
  exact heads

theorem SameProbes.head?_foundIn (inCollection : String → Bool) (entity : Entity) (tags : List String) :
    (foundIn inCollection entity tags a).head? = (foundIn inCollection entity tags b).head? := by
  have hfirst := h.firstResult_eq ha hb .keyword inCollection entity 0 tags none
  have hsource : ∀ c : RetrieveArgs, (firstResult .keyword inCollection entity 0 tags none c).bind
      SearchResult.sourceKbId = (foundIn inCollection entity tags c).head? := by
    intro c
    unfold firstResult
    rw [keeps, if_pos rfl, Option.bind_map]
    cases (foundIn inCollection entity tags c).head? with
    | none => rfl
    | some kbId =>
        show (if reranks none c then ranked (rowResult .keyword entity 0 c kbId)
          else rowResult .keyword entity 0 c kbId).sourceKbId = some kbId
        split <;> rfl
  rw [← hsource, ← hsource, hfirst]

/-- A row that the one call finds is found by the other. -/
theorem SameProbes.admits {entity : Entity} (hkbs : a.kbIds ≠ [])
    (hpass : rowFilter a.folderIds a.tagFilter entity = true) :
    b.kbIds ≠ [] ∧ rowFilter b.folderIds b.tagFilter entity = true := by
  have hheads := h.head?_foundIn ha hb (fun _ => true) entity []
  have hall : foundIn (fun _ => true) entity [] a = a.kbIds := by
    unfold foundIn passes
    simp [hpass]
  obtain ⟨kbId, kbIds, hkbIds⟩ := List.exists_cons_of_ne_nil hkbs
  rw [hall, hkbIds, List.head?_cons] at hheads
  have hmem : kbId ∈ foundIn (fun _ => true) entity [] b := List.mem_of_head? hheads.symm
  obtain ⟨hkbId, hfound⟩ := List.mem_filter.1 hmem
  unfold passes at hfound
  simp only [Bool.true_and, Bool.and_eq_true] at hfound
  exact ⟨List.ne_nil_of_mem hkbId, hfound.1⟩

/-- Unless neither call can find a row, there is one that both find. -/
theorem SameProbes.barren_or_admits : a.Barren ∧ b.Barren ∨ ∃ entity, a.kbIds ≠ [] ∧ b.kbIds ≠ [] ∧
    rowFilter a.folderIds a.tagFilter entity = true ∧ rowFilter b.folderIds b.tagFilter entity = true := by
  have hadmitted : ∀ c : RetrieveArgs, ¬ c.Barren →
      ∃ entity, c.kbIds ≠ [] ∧ rowFilter c.folderIds c.tagFilter entity = true := by
    intro c hc
    unfold RetrieveArgs.Barren at hc
    rw [not_or, not_forall] at hc
    obtain ⟨hkbs, entity, hpass⟩ := hc
    exact ⟨entity, hkbs, by simpa using hpass⟩
  by_cases hbarren : a.Barren
  · by_cases hbarren' : b.Barren
    · exact .inl ⟨hbarren, hbarren'⟩
    · obtain ⟨entity, hkbs, hpass⟩ := hadmitted b hbarren'
      obtain ⟨hkbs', hpass'⟩ := h.symm.admits hb ha hkbs hpass
      exact .inr ⟨entity, hkbs', hkbs, hpass', hpass⟩
  · obtain ⟨entity, hkbs, hpass⟩ := hadmitted a hbarren
    obtain ⟨hkbs', hpass'⟩ := h.admits ha hb hkbs hpass
    exact .inr ⟨entity, hkbs, hkbs', hpass, hpass'⟩

theorem SameProbes.rowFilter_eq (hkbs : a.kbIds ≠ []) (hkbs' : b.kbIds ≠ []) (entity : Entity) :
    rowFilter a.folderIds a.tagFilter entity = rowFilter b.folderIds b.tagFilter entity := by
  rw [Bool.eq_iff_iff]
  exact ⟨fun hpass => (h.admits ha hb hkbs hpass).2, fun hpass => (h.symm.admits hb ha hkbs' hpass).2⟩

variable {entity : Entity} (hpass : rowFilter a.folderIds a.tagFilter entity = true)
  (hpass' : rowFilter b.folderIds b.tagFilter entity = true)

include hpass hpass'

theorem SameProbes.kbIds_eq : a.kbIds = b.kbIds := by
  apply eq_of_head?_filter kbCollectionName ha.collections hb.collections
  intro p
  have hheads := h.head?_foundIn ha hb p entity []
  unfold foundIn passes at hheads
  simpa [hpass, hpass'] using hheads

end Searches

/-- Two calls that find the row of `entity` in the same bases. -/
structure BothFind (entity : Entity) (kbId : String) (kbIds : List String) (a b : RetrieveArgs) : Prop where
  probes : SameProbes a b
  regular : a.Regular
  regular' : b.Regular
  admits : rowFilter a.folderIds a.tagFilter entity = true
  admits' : rowFilter b.folderIds b.tagFilter entity = true
  kbIds_eq : a.kbIds = kbId :: kbIds
  kbIds_eq' : b.kbIds = kbId :: kbIds

namespace BothFind

variable {entity : Entity} {kbId : String} {kbIds : List String} {a b : RetrieveArgs}

theorem symm (h : BothFind entity kbId kbIds a b) : BothFind entity kbId kbIds b a where
  probes := h.probes.symm
  regular := h.regular'
  regular' := h.regular
  admits := h.admits'
  admits' := h.admits
  kbIds_eq := h.kbIds_eq'
  kbIds_eq' := h.kbIds_eq

/-- What is shown by a row in every collection. -/
theorem head?_eq (h : BothFind entity kbId kbIds a b) (route : Route) (distance : ℚ)
    (reranker : Option (String × String)) :
    (resultsFor (probeServices (rowsOn (fun _ => true) entity distance route) [] reranker) a emptyTables
      ()).head? =
      if keeps a route distance then
        some (if reranks reranker a then ranked (rowResult route entity distance a kbId)
          else rowResult route entity distance a kbId)
      else none := by
  have hall : foundIn (fun _ => true) entity [] a = kbId :: kbIds := by
    rw [← h.kbIds_eq]
    unfold foundIn passes
    simp [h.admits]
  rw [head?_resultsFor h.regular.topK h.regular.collections]
  unfold firstResult
  rw [hall]
  rfl

variable (h : BothFind entity kbId kbIds a b)

include h

theorem shown_eq (route : Route) (distance : ℚ) (reranker : Option (String × String)) :
    (if keeps a route distance then
      some (if reranks reranker a then ranked (rowResult route entity distance a kbId)
        else rowResult route entity distance a kbId)
    else none) =
    if keeps b route distance then
      some (if reranks reranker b then ranked (rowResult route entity distance b kbId)
        else rowResult route entity distance b kbId)
    else none := by
  rw [← h.head?_eq, ← h.symm.head?_eq, h.probes]

theorem keeps_eq (distance : ℚ) : keeps a .dense distance = keeps b .dense distance := by
  have hshown := congrArg Option.isSome (h.shown_eq .dense distance none)
  cases hka : keeps a .dense distance <;> cases hkb : keeps b .dense distance <;> simp_all

theorem scoreThreshold_le {threshold : ℚ} (hthreshold : a.scoreThreshold = some threshold) :
    ∃ threshold', b.scoreThreshold = some threshold' ∧ threshold ≤ threshold' := by
  cases hb : b.scoreThreshold with
  | none =>
      have hkeeps := h.keeps_eq (threshold - 1)
      simp only [keeps, hthreshold, hb, Option.all_some, Option.all_none, decide_eq_true_eq] at hkeeps
      linarith
  | some threshold' =>
      have hkeeps := h.keeps_eq threshold'
      simp only [keeps, hthreshold, hb, Option.all_some, le_refl, decide_true, decide_eq_true_eq] at hkeeps
      exact ⟨threshold', rfl, hkeeps⟩

theorem scoreThreshold_eq : a.scoreThreshold = b.scoreThreshold := by
  cases ha : a.scoreThreshold with
  | none =>
      cases hb : b.scoreThreshold with
      | none => rfl
      | some threshold =>
          obtain ⟨threshold', heq, -⟩ := h.symm.scoreThreshold_le hb
          rw [ha] at heq
          cases heq
  | some threshold =>
      obtain ⟨threshold', hb, hle⟩ := h.scoreThreshold_le ha
      obtain ⟨threshold'', ha', hge⟩ := h.symm.scoreThreshold_le hb
      cases ha.symm.trans ha'
      rw [hb, le_antisymm hle hge]

theorem weightOf_eq (route : Route) (distance : ℚ) (hkeeps : keeps a route distance = true) :
    route.weightOf a = route.weightOf b := by
  have hkeeps' : keeps b route distance = true := by
    rw [← hkeeps]
    cases route with
    | dense => exact (h.keeps_eq distance).symm
    | keyword => rfl
  have hreranks : ∀ c, reranks none c = false := by
    intro c
    unfold reranks
    cases c.reranker <;> rfl
  have hshown := h.shown_eq route distance none
  rw [if_pos hkeeps, if_pos hkeeps', hreranks, hreranks] at hshown
  have hscore : ∀ c, (rowResult route entity distance c kbId).score = route.weightOf c * (1 / 61) := by
    intro c
    cases route <;> rfl
  have heq := congrArg SearchResult.score (Option.some.inj hshown)
  rw [if_neg Bool.false_ne_true, if_neg Bool.false_ne_true, hscore, hscore] at heq
  linarith

theorem vectorWeight_eq : a.vectorWeight = b.vectorWeight := by
  apply h.weightOf_eq .dense (a.scoreThreshold.getD 0)
  unfold keeps
  cases a.scoreThreshold with
  | none => rfl
  | some threshold => simp

theorem bm25Weight_eq : a.bm25Weight = b.bm25Weight := h.weightOf_eq .keyword 0 rfl

theorem reranker_eq_some {pm : String × String} (hreranker : a.reranker = some pm) :
    b.reranker = some pm := by
  have hreranks : reranks (some pm) a = true := by simp [reranks, hreranker]
  have hshown := h.shown_eq .keyword 0 (some pm)
  rw [if_pos (show keeps a .keyword 0 = true from rfl), if_pos (show keeps b .keyword 0 = true from rfl),
    hreranks, if_pos rfl] at hshown
  have hscore := congrArg SearchResult.rerankScore (Option.some.inj hshown)
  cases hreranks' : reranks (some pm) b with
  | true =>
      unfold reranks at hreranks'
      simp only [Bool.and_eq_true, decide_eq_true_eq] at hreranks'
      exact hreranks'.2
  | false =>
      rw [hreranks', if_neg Bool.false_ne_true] at hscore
      cases hscore

theorem reranker_eq : a.reranker = b.reranker := by
  apply Option.ext
  intro pm
  exact ⟨h.reranker_eq_some, h.symm.reranker_eq_some⟩

/-- A tag that the row does not have hides it from the call that is routed to it. -/
theorem routesTags_of_routesTags (hroutes : a.routesTags = true) : b.routesTags = true := by
  obtain ⟨tag, htag⟩ := Infinite.exists_notMem_finset ("" :: entity.chunkTags).toFinset
  rw [List.mem_toFinset, List.mem_cons, not_or] at htag
  have hheads := h.probes.head?_foundIn h.regular h.regular' (fun _ => true) entity [tag]
  by_contra hb
  rw [Bool.not_eq_true] at hb
  have hhidden : passes [tag] a entity = false := by
    unfold passes
    have hother : ∀ x ∈ entity.chunkTags, x ≠ tag := fun x hx heq => htag.2 (heq ▸ hx)
    simp [hroutes, htag.1]
    exact fun _ => hother
  have hpassed : passes [tag] b entity = true := by
    unfold passes
    simp [hb, h.admits']
  unfold foundIn at hheads
  simp [hhidden, hpassed, h.kbIds_eq'] at hheads

theorem routesTags_eq : a.routesTags = b.routesTags := by
  rw [Bool.eq_iff_iff]
  exact ⟨h.routesTags_of_routesTags, h.symm.routesTags_of_routesTags⟩

theorem topK_eq : a.topK = b.topK := by
  have htop := h.regular.topK
  have htop' := h.regular'.topK
  have hpasses : passes [] a entity = true := by
    unfold passes
    simp [h.admits]
  have hpasses' : passes [] b entity = true := by
    unfold passes
    simp [h.admits']
  have hlength := congrArg List.length
    (h.probes (manyRows (a.topK + b.topK).toNat (kbCollectionName kbId) entity) [] none)
  rw [length_resultsFor htop h.regular.collections h.kbIds_eq hpasses,
    length_resultsFor htop' h.regular'.collections h.kbIds_eq' hpasses'] at hlength
  omega

theorem sameSearch : a.SameSearch b where
  kbIds := h.kbIds_eq.trans h.kbIds_eq'.symm
  topK := h.topK_eq
  rowFilter := h.probes.rowFilter_eq h.regular h.regular' (by simp [h.kbIds_eq]) (by simp [h.kbIds_eq'])
  routesTags := h.routesTags_eq
  bm25Weight := h.bm25Weight_eq
  vectorWeight := h.vectorWeight_eq
  scoreThreshold := h.scoreThreshold_eq
  reranker := h.reranker_eq

end BothFind

/-! ## When the cache is transparent -/

theorem interchangeable_of_agrees {a b : RetrieveArgs} (ha : a.Regular) (hb : b.Regular) (h : Agrees a b) :
    a.Interchangeable b := by
  cases hmodel : a.embeddingModel with
  | none => exact .inl hmodel
  | some model =>
      have hprobes := h.sameProbes hmodel
      refine .inr ⟨h.sameQuery hmodel, ?_⟩
      rcases hprobes.barren_or_admits ha hb with hbarren | ⟨entity, hkbs, -, hpass, hpass'⟩
      · exact .inl hbarren
      · obtain ⟨kbId, kbIds, hkbIds⟩ := List.exists_cons_of_ne_nil hkbs
        have hsame := hprobes.kbIds_eq ha hb hpass hpass'
        have hboth : BothFind entity kbId kbIds a b :=
          { probes := hprobes, regular := ha, regular' := hb, admits := hpass, admits' := hpass'
            kbIds_eq := hkbIds, kbIds_eq' := hsame.symm.trans hkbIds }
        exact .inr hboth.sameSearch

/-- Calls with one key get one answer. It is the second call's own where the calls are
interchangeable, and for regular calls only there. -/
theorem transparent_iff_interchangeable (digest : String → String) (a b : RetrieveArgs) :
    (cacheKey digest b ≠ cacheKey digest a ∨ a.Interchangeable b → Transparent digest a b) ∧
      (a.Regular → b.Regular → Transparent digest a b →
        cacheKey digest b ≠ cacheKey digest a ∨ a.Interchangeable b) := by
  rw [transparent_iff_agrees]
  constructor
  · intro h hkey
    rcases h with hne | hsame
    · exact absurd hkey hne
    · exact agrees_of_interchangeable hsame
  · intro ha hb h
    by_cases hkey : cacheKey digest b = cacheKey digest a
    · exact .inr (interchangeable_of_agrees ha hb (h hkey))
    · exact .inl hkey

def scoredQuery : RetrieveArgs := { oneQuery with scoreThreshold := some 1 }

/-- The threshold is no part of the key. -/
theorem scoredQuery_key : cacheKey id scoredQuery = cacheKey id oneQuery := by
  unfold cacheKey
  rw [show cacheKeyParts scoredQuery = cacheKeyParts oneQuery from rfl]

/-- Services that find the chunk at the distance 0. -/
def findsFar : Services Unit :=
  servicesOf (clientOf (fun _ => [{ chunkHit with distance := 0 }]) fun _ => [])

theorem findsFar_results : (resultsFor findsFar oneQuery emptyTables ()).length = 1 ∧
    (resultsFor findsFar scoredQuery emptyTables ()).length = 0 := by
  decide +kernel

/-- A threshold that the hit is below comes after a call without one. -/
theorem threshold_not_in_key : ¬ ∀ a b, Transparent id a b := by
  intro h
  have hagrees := transparent_iff_agrees.1 (h oneQuery scoredQuery) scoredQuery_key
  have hvector : queryVector findsFar oneQuery = some () := rfl
  obtain ⟨v, -, hresults⟩ := hagrees.results_eq emptyTables hvector
  have hlength := congrArg List.length hresults
  rw [findsFar_results.1, findsFar_results.2] at hlength
  cases hlength

/-- The history is read for rewriting only. -/
theorem interchangeable_history {a : RetrieveArgs} (hrewrite : a.rewrite = false) (history : List Message) :
    a.Interchangeable { a with rewriteHistory := history } := by
  have hrequest : a.rewriteRequest = RetrieveArgs.rewriteRequest { a with rewriteHistory := history } := by
    unfold RetrieveArgs.rewriteRequest
    simp [hrewrite]
  exact .inr ⟨⟨rfl, rfl, hrequest⟩, .inr ⟨rfl, rfl, fun _ => rfl, rfl, rfl, rfl, rfl, rfl⟩⟩

/-- A history that is not used leaves the answer, and a threshold does not. -/
theorem transparent_history :
    Transparent id oneQuery { oneQuery with rewriteHistory := [⟨"user", "before"⟩] } ∧
    ¬ Transparent id oneQuery scoredQuery := by
  constructor
  · apply (transparent_iff_interchangeable id _ _).1
    exact .inr (interchangeable_history rfl _)
  · intro h
    have hregular : oneQuery.Regular := ⟨by decide, by decide⟩
    have hregular' : scoredQuery.Regular := ⟨hregular.topK, hregular.collections⟩
    rcases (transparent_iff_interchangeable id oneQuery scoredQuery).2 hregular hregular' h with
      hkey | hmodel | ⟨-, hbarren | hsearch⟩
    · exact hkey scoredQuery_key
    · cases hmodel
    · rcases hbarren.1 with hkbs | hfilter
      · cases hkbs
      · exact absurd (hfilter chunkHit.entity) (by decide)
    · cases hsearch.scoreThreshold

end OpsKnowledge.Retrieval
