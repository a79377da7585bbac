import OpsKnowledge.Lib.Rely
import OpsKnowledge.Lib.Transition
import OpsKnowledge.Retrieval.Visibility

/-!
# Agentic retrieval

`retrieve_agentic` runs `retrieve` for each sub-query of a plan, concurrently and on one service:
the runs share the cache, and the Milvus client, which each of them closes after its search. They
interleave between their statements and, since the bases are searched in threads, between their
calls of the client. A client that has been closed raises.
-/

namespace OpsKnowledge.Retrieval

open OpsKnowledge.Lib
open Knowledge (Tables)

/-- The search of one base, by the calls of the client that it has made. -/
inductive SearchStage where
  | started
  | found
  | dense (denseHits : List Hit)
  /-- `none` when a call has raised. -/
  | finished (results : Option (List SearchResult))

structure KbSearch where
  kbId : String
  stage : SearchStage := .started

inductive SubPhase (Vec : Type) where
  | started
  /-- The cache has no answer. -/
  | missed
  | searching (queryVector : Vec) (bases : List KbSearch)
  | searched (hits : List SearchResult)
  | done (r : RetrievalResult)
  | failed

/-- A run of `retrieve` for a sub-query. -/
structure SubRun (Vec : Type) where
  args : RetrieveArgs
  phase : SubPhase Vec := .started

/-- What the runs share. -/
structure SharedService where
  cache : L2Cache
  isOpen : Bool := true

structure AgenticState (Vec : Type) extends SharedService where
  runs : List (SubRun Vec)

inductive AgenticAction where
  /-- The next statement of a sub-query. -/
  | advance (k : Nat)
  /-- The next call of the client in the search of a base. -/
  | call (k j : Nat)

section Steps

variable {Vec : Type} (digest : String → String) (svc : Services Vec) (t : Tables)

/-- The results of a collection from the hits of both routes. -/
def rankHits (request : SearchRequest Vec) (canonicalEmbeddings : List (String × Vec))
    (denseHits bm25Hits : List Hit) : List SearchResult :=
  let rows := scoredRows svc.cosineSim request canonicalEmbeddings denseHits bm25Hits
  (sliceTo request.topK (orderByDesc (fun e => e.2.fused) rows)).map fun e => e.2.toResult e.1

/-- The next call of `search`; none is left when it has finished. -/
def SearchStage.next (request : SearchRequest Vec) (canonicalEmbeddings : List (String × Vec))
    (collectionName : String) : SearchStage → Option SearchStage
  | .started =>
    some (if svc.milvus.collectionExists collectionName then .found else .finished (some []))
  | .found =>
    match svc.milvus.searchDense collectionName request.queryVector (perRouteK request.topK)
        (rowFilter request.folderIds request.tagFilter) with
    | none => some (.finished none)
    | some denseHits => some (.dense denseHits)
  | .dense denseHits =>
    match svc.milvus.searchBm25 collectionName request.queryText (perRouteK request.topK)
        (rowFilter request.folderIds request.tagFilter) with
    | none => some (.finished none)
    | some bm25Hits => some (.finished (some (rankHits svc request canonicalEmbeddings denseHits bm25Hits)))
  | .finished _ => none

/-- A call in the search of a base, which raises when the client has been closed. -/
def KbSearch.call (isOpen : Bool) (a : RetrieveArgs) (queryVector : Vec) (b : KbSearch) :
    Option KbSearch := do
  let stage ← b.stage.next svc (searchRequest svc a queryVector)
    (((boostSetup svc a).1.get? b.kbId).getD []) (kbCollectionName b.kbId)
  some { b with stage := if isOpen then stage else .finished none }

def KbSearch.isFinished (b : KbSearch) : Bool :=
  match b.stage with
  | .finished _ => true
  | _ => false

/-- The batch of a base; one that has raised is left out. -/
def KbSearch.batch (b : KbSearch) : List SearchResult :=
  match b.stage with
  | .finished (some results) => results.map fun r => { r with sourceKbId := some b.kbId }
  | _ => []

/-- The end of `multi_kb_search`. -/
def mergeBatches (topK : Int) (bases : List KbSearch) : List SearchResult :=
  sliceTo topK (orderByDesc SearchResult.score (bases.flatMap KbSearch.batch))

/-- What `retrieve` makes of the hits. -/
def answerFor (a : RetrieveArgs) (hits : List SearchResult) : RetrievalResult :=
  { results := postProcess svc a (queryUsed svc a) (filterInvisible svc.filterAnswers t hits)
    queryUsed := queryUsed svc a, totalSearched := hits.length, routedTags := routedTags svc a }

/-- The next statement of `retrieve`; the calls of the client are waited for. -/
def SubRun.advance (r : SubRun Vec) (shared : SharedService) : Option (SharedService × SubRun Vec) :=
  match r.phase with
  | .started =>
    match cached digest svc shared.cache r.args with
    | some c => some (shared, { r with phase := .done c.toResult })
    | none => some (shared, { r with phase := .missed })
  | .missed =>
    match queryVector svc r.args with
    | none => some (shared, { r with phase := .failed })
    | some v =>
      some (shared, { r with phase := .searching v (r.args.kbIds.map fun kbId => { kbId := kbId }) })
  | .searching _ bases =>
    if bases.all KbSearch.isFinished then
      -- the `finally` closes the client of all runs
      some ({ shared with isOpen := false }, { r with phase := .searched (mergeBatches r.args.topK bases) })
    else none
  | .searched hits =>
    let answer := answerFor svc t r.args hits
    some ({ shared with cache := storeAnswer digest svc shared.cache r.args answer },
      { r with phase := .done answer })
  | .done _ => none
  | .failed => none

def SubRun.call (j : Nat) (r : SubRun Vec) (shared : SharedService) : Option (SubRun Vec) :=
  match r.phase with
  | .searching v bases => do
    let b ← bases[j]?
    let b' ← b.call svc shared.isOpen r.args v
    some { r with phase := .searching v (bases.set j b') }
  | _ => none

def agenticStep (s : AgenticState Vec) : AgenticAction → Option (AgenticState Vec)
  | .advance k => do
    let r ← s.runs[k]?
    let next ← r.advance digest svc t s.toSharedService
    some { toSharedService := next.1, runs := s.runs.set k next.2 }
  | .call k j => do
    let r ← s.runs[k]?
    let r' ← r.call svc j s.toSharedService
    some { s with runs := s.runs.set k r' }

/-- The arguments of a sub-query. -/
def subArgs (a : RetrieveArgs) (perSubqueryK : Int) (sub : String) : RetrieveArgs :=
  { a with query := sub, topK := perSubqueryK }

/-- `gather` has started every sub-query. -/
def startAgentic (cache : L2Cache) (a : RetrieveArgs) (perSubqueryK : Int) (subqueries : List String) :
    AgenticState Vec :=
  { cache := cache, runs := subqueries.map fun sub => { args := subArgs a perSubqueryK sub } }

/-! ## The property and the condition -/

/-- What the run of a sub-query alone returns, timing and routed tags apart; `none` when it raises. -/
def aloneAnswer (cache : L2Cache) (a : RetrieveArgs) : Option CachedRetrieval :=
  (retrieve digest svc t cache a).map fun p => p.1.toCached

/-- What a run that has ended returns. -/
def SubRun.outcome (r : SubRun Vec) : Option (Option CachedRetrieval) :=
  match r.phase with
  | .done answer => some (some answer.toCached)
  | .failed => some none
  | _ => none

/-- Every sub-query that has ended has the result that it has alone. -/
def RunsIsolated (cache : L2Cache) (s : AgenticState Vec) : Prop :=
  ∀ r ∈ s.runs, ∀ o, r.outcome = some o → o = aloneAnswer digest svc t cache r.args

/-- A base whose search has finished has the hits that the sub-query finds in it alone. -/
def KeepsHits (s : AgenticState Vec) : Prop :=
  ∀ r ∈ s.runs, ∀ v bases, r.phase = .searching v bases → ∀ b ∈ bases, b.isFinished = true →
    b.batch = searchOne svc.milvus svc.cosineSim (searchRequest svc r.args v) (boostSetup svc r.args).1
      b.kbId

structure Isolated (cache : L2Cache) (s : AgenticState Vec) : Prop where
  results : RunsIsolated digest svc t cache s
  hits : KeepsHits svc s

/-- A call finds the client open, or searches a base in which its sub-query has no hits. -/
def CallsOpenClient (s : AgenticState Vec) : AgenticAction → Prop
  | .call k j => s.isOpen = true ∨ ∀ r v bases b, s.runs[k]? = some r → r.phase = .searching v bases →
      bases[j]? = some b → searchOne svc.milvus svc.cosineSim (searchRequest svc r.args v)
        (boostSetup svc r.args).1 b.kbId = []
  | _ => True

/-- Different sub-queries have different keys. -/
def KeysApart (a : RetrieveArgs) (perSubqueryK : Int) (subqueries : List String) : Prop :=
  ∀ sub ∈ subqueries, ∀ sub' ∈ subqueries,
    cacheKey digest (subArgs a perSubqueryK sub) = cacheKey digest (subArgs a perSubqueryK sub') →
      sub = sub'

end Steps

section Isolation

variable {Vec : Type} {digest : String → String} {svc : Services Vec} {t : Tables} {cache : L2Cache}
  {a : RetrieveArgs} {perSubqueryK : Int} {subqueries : List String}

/-! ## The search of a base -/

/-- What a search has seen is what the client answers. -/
def KbSearch.Agrees (svc : Services Vec) (a : RetrieveArgs) (v : Vec) (b : KbSearch) : Prop :=
  match b.stage with
  | .started => True
  | .found => svc.milvus.collectionExists (kbCollectionName b.kbId) = true
  | .dense denseHits =>
    svc.milvus.collectionExists (kbCollectionName b.kbId) = true ∧
      svc.milvus.searchDense (kbCollectionName b.kbId) (searchRequest svc a v).queryVector
        (perRouteK (searchRequest svc a v).topK)
        (rowFilter (searchRequest svc a v).folderIds (searchRequest svc a v).tagFilter) = some denseHits
  | .finished _ =>
    b.batch = searchOne svc.milvus svc.cosineSim (searchRequest svc a v) (boostSetup svc a).1 b.kbId

theorem KbSearch.next_agrees {v : Vec} {b : KbSearch} {stage : SearchStage} (h : b.Agrees svc a v)
    (hstage : b.stage.next svc (searchRequest svc a v) (((boostSetup svc a).1.get? b.kbId).getD [])
      (kbCollectionName b.kbId) = some stage) : ({ b with stage := stage } : KbSearch).Agrees svc a v := by
  obtain ⟨kbId, old⟩ := b
  cases old with
  | started =>
    cases hexists : svc.milvus.collectionExists (kbCollectionName kbId) with
    | true =>
      simp only [SearchStage.next, hexists, if_true] at hstage
      cases hstage
      exact hexists
    | false =>
      simp only [SearchStage.next, hexists, Bool.false_eq_true, if_false] at hstage
      cases hstage
      show [] = searchOne _ _ _ _ kbId
      simp [searchOne, search, hexists]
  | found =>
    have hexists : svc.milvus.collectionExists (kbCollectionName kbId) = true := h
    unfold SearchStage.next at hstage
    dsimp only at hstage
    split at hstage
    · next hdense =>
      cases hstage
      show [] = searchOne _ _ _ _ kbId
      simp [searchOne, search, hexists, hdense]
    · next denseHits hdense =>
      cases hstage
      exact ⟨hexists, hdense⟩
  | dense denseHits =>
    have hexists : svc.milvus.collectionExists (kbCollectionName kbId) = true := h.1
    have hdense := h.2
    unfold SearchStage.next at hstage
    dsimp only at hstage
    split at hstage
    · next hbm25 =>
      cases hstage
      show [] = searchOne _ _ _ _ kbId
      simp [searchOne, search, hexists, hdense, hbm25]
    · next bm25Hits hbm25 =>
      cases hstage
      show (rankHits svc _ _ denseHits bm25Hits).map _ = searchOne _ _ _ _ kbId
      rw [searchOne_of_hits hexists hdense hbm25]
      unfold rankHits
      rw [List.map_map]
      rfl
  | finished results => cases hstage

theorem KbSearch.Agrees.batch {v : Vec} {b : KbSearch} (h : b.Agrees svc a v) (hdone : b.isFinished = true) :
    b.batch = searchOne svc.milvus svc.cosineSim (searchRequest svc a v) (boostSetup svc a).1 b.kbId := by
  unfold KbSearch.Agrees at h
  unfold KbSearch.isFinished at hdone
  cases hstage : b.stage with
  | finished results =>
    rw [hstage] at h
    exact h
  | _ =>
    rw [hstage] at hdone
    cases hdone

/-- With the client closed a search ends without hits. -/
theorem KbSearch.call_agrees {isOpen : Bool} {v : Vec} {b b' : KbSearch} (h : b.Agrees svc a v)
    (hopen : isOpen = true ∨ searchOne svc.milvus svc.cosineSim (searchRequest svc a v)
      (boostSetup svc a).1 b.kbId = []) (hb' : b.call svc isOpen a v = some b') :
    b'.Agrees svc a v ∧ b'.kbId = b.kbId := by
  obtain ⟨stage, hstage, heq⟩ := Option.bind_eq_some_iff.1 hb'
  cases heq
  constructor
  · cases isOpen with
    | true => exact KbSearch.next_agrees h hstage
    | false =>
      cases hopen with
      | inl hfalse => cases hfalse
      | inr hnone => exact hnone.symm
  · rfl

/-- Batches of bases that have finished are those of the whole search. -/
theorem mergeBatches_eq {v : Vec} {bases : List KbSearch} (hkbs : bases.map KbSearch.kbId = a.kbIds)
    (h : ∀ b ∈ bases, b.Agrees svc a v) (hfinished : bases.all KbSearch.isFinished = true) :
    mergeBatches a.topK bases =
      multiKbSearch svc.milvus svc.cosineSim (searchRequest svc a v) (boostSetup svc a).1 a.kbIds := by
  have hbatch : ∀ b ∈ bases, b.batch =
      searchOne svc.milvus svc.cosineSim (searchRequest svc a v) (boostSetup svc a).1 b.kbId := by
    intro b hb
    exact (h b hb).batch (List.all_eq_true.1 hfinished b hb)
  unfold mergeBatches multiKbSearch
  rw [← hkbs, List.flatMap_map]
  have hflat := List.flatMap_congr hbatch
  rw [hflat]
  rfl

/-! ## The answer of a run -/

theorem compute_eq (svc : Services Vec) (t : Tables) (a : RetrieveArgs) : compute svc a t =
    (queryVector svc a).map fun v => answerFor svc t a
      (multiKbSearch svc.milvus svc.cosineSim (searchRequest svc a v) (boostSetup svc a).1 a.kbIds) := by
  unfold compute
  rw [searchHits_eq_map]
  cases queryVector svc a with
  | none => rfl
  | some vector => rfl

theorem aloneAnswer_of_cached {c : CachedRetrieval} (h : cached digest svc cache a = some c) :
    aloneAnswer digest svc t cache a = some c := by
  unfold aloneAnswer retrieve
  rw [h]
  rfl

theorem aloneAnswer_of_missed (h : cached digest svc cache a = none) :
    aloneAnswer digest svc t cache a = (compute svc a t).map RetrievalResult.toCached := by
  unfold aloneAnswer retrieve
  rw [h]
  cases compute svc a t with
  | none => rfl
  | some r => rfl

/-! ## What a run knows -/

/-- The cache answers a sub-query as it did, or with the result that the sub-query has alone. -/
structure CacheAgrees (digest : String → String) (svc : Services Vec) (t : Tables) (cache : L2Cache)
    (a : RetrieveArgs) (now : L2Cache) : Prop where
  missed : cached digest svc now a = none → cached digest svc cache a = none
  found : ∀ c, cached digest svc now a = some c → aloneAnswer digest svc t cache a = some c

def SubRun.Knows (digest : String → String) (svc : Services Vec) (t : Tables) (cache : L2Cache)
    (r : SubRun Vec) : Prop :=
  match r.phase with
  | .started => True
  | .missed => cached digest svc cache r.args = none
  | .searching v bases =>
    cached digest svc cache r.args = none ∧ queryVector svc r.args = some v ∧
      bases.map KbSearch.kbId = r.args.kbIds ∧ ∀ b ∈ bases, b.Agrees svc r.args v
  | .searched hits => aloneAnswer digest svc t cache r.args = some (answerFor svc t r.args hits).toCached
  | .done answer => aloneAnswer digest svc t cache r.args = some answer.toCached
  | .failed => aloneAnswer digest svc t cache r.args = none

abbrev agenticRely (digest : String → String) (svc : Services Vec) (t : Tables) (cache : L2Cache)
    (a : RetrieveArgs) (perSubqueryK : Int) (subqueries : List String) :
    Rely SharedService (SubRun Vec) where
  inv := fun shared => ∀ sub ∈ subqueries,
    CacheAgrees digest svc t cache (subArgs a perSubqueryK sub) shared.cache
  later := fun _ _ => True
  knows := fun r _ => (∃ sub ∈ subqueries, r.args = subArgs a perSubqueryK sub) ∧
    r.Knows digest svc t cache
  refl := fun _ => trivial
  stable := fun _ _ _ _ h => h

/-- An answer that is stored is the one that every sub-query with the key has alone. -/
theorem storeAnswer_agrees (hkeys : KeysApart digest a perSubqueryK subqueries) {now : L2Cache}
    (h : ∀ sub ∈ subqueries, CacheAgrees digest svc t cache (subArgs a perSubqueryK sub) now)
    {sub : String} (hsub : sub ∈ subqueries) {answer : RetrievalResult}
    (halone : aloneAnswer digest svc t cache (subArgs a perSubqueryK sub) = some answer.toCached) :
    ∀ other ∈ subqueries, CacheAgrees digest svc t cache (subArgs a perSubqueryK other)
      (storeAnswer digest svc now (subArgs a perSubqueryK sub) answer) := by
  intro other hother
  by_cases hkey : cacheKey digest (subArgs a perSubqueryK other) =
      cacheKey digest (subArgs a perSubqueryK sub)
  · have hsame := hkeys other hother sub hsub hkey
    subst hsame
    have hstored : cached digest svc (storeAnswer digest svc now (subArgs a perSubqueryK other) answer)
        (subArgs a perSubqueryK other) = some answer.toCached ∨
        cached digest svc (storeAnswer digest svc now (subArgs a perSubqueryK other) answer)
          (subArgs a perSubqueryK other) = cached digest svc now (subArgs a perSubqueryK other) := by
      unfold cached storeAnswer
      cases svc.cacheReads with
      | false => exact .inr rfl
      | true =>
        cases svc.cacheWrites with
        | false => exact .inr rfl
        | true => exact .inl (by simp [Store.put])
    cases hstored with
    | inl hnew =>
      constructor
      · intro hmissed
        rw [hnew] at hmissed
        cases hmissed
      · intro c hc
        rw [hnew] at hc
        cases hc
        exact halone
    | inr hold =>
      constructor
      · rw [hold]
        exact (h other hother).missed
      · rw [hold]
        exact (h other hother).found
  · have hsame : cached digest svc (storeAnswer digest svc now (subArgs a perSubqueryK sub) answer)
        (subArgs a perSubqueryK other) = cached digest svc now (subArgs a perSubqueryK other) := by
      unfold cached storeAnswer
      cases svc.cacheReads with
      | false => rfl
      | true =>
        cases svc.cacheWrites with
        | false => rfl
        | true => exact if_neg hkey
    constructor
    · rw [hsame]
      exact (h other hother).missed
    · rw [hsame]
      exact (h other hother).found

theorem SubRun.advance_knows {r r' : SubRun Vec} {shared shared' : SharedService}
    (hcache : CacheAgrees digest svc t cache r.args shared.cache) (hr : r.Knows digest svc t cache)
    (hnext : r.advance digest svc t shared = some (shared', r')) :
    r'.args = r.args ∧ r'.Knows digest svc t cache ∧ (shared'.cache = shared.cache ∨
      ∃ answer, shared'.cache = storeAnswer digest svc shared.cache r.args answer ∧
        aloneAnswer digest svc t cache r.args = some answer.toCached) := by
  obtain ⟨args, phase⟩ := r
  unfold SubRun.advance at hnext
  dsimp only at hnext
  cases phase with
  | started =>
    dsimp only at hnext
    split at hnext
    · next c hc =>
      cases hnext
      exact ⟨rfl, hcache.found c hc, .inl rfl⟩
    · next hc =>
      cases hnext
      exact ⟨rfl, hcache.missed hc, .inl rfl⟩
  | missed =>
    have hmissed : cached digest svc cache args = none := hr
    dsimp only at hnext
    split at hnext
    · next hvector =>
      cases hnext
      have halone : aloneAnswer digest svc t cache args = none := by
        rw [aloneAnswer_of_missed hmissed, compute_eq, hvector]
        rfl
      exact ⟨rfl, halone, .inl rfl⟩
    · next v hvector =>
      cases hnext
      have hkbs : (args.kbIds.map fun kbId => ({ kbId := kbId } : KbSearch)).map KbSearch.kbId =
          args.kbIds := by
        rw [List.map_map]
        exact List.map_id _
      have hbases : ∀ b ∈ args.kbIds.map fun kbId => ({ kbId := kbId } : KbSearch),
          b.Agrees svc args v := by
        intro b hb
        obtain ⟨kbId, -, rfl⟩ := List.mem_map.1 hb
        trivial
      exact ⟨rfl, ⟨hmissed, hvector, hkbs, hbases⟩, .inl rfl⟩
  | searching v bases =>
    obtain ⟨hmissed, hvector, hkbs, hbases⟩ := hr
    dsimp only at hmissed hvector hkbs hbases hnext
    split at hnext
    · next hfinished =>
      cases hnext
      have halone : aloneAnswer digest svc t cache args =
          some (answerFor svc t args (mergeBatches args.topK bases)).toCached := by
        rw [aloneAnswer_of_missed hmissed, compute_eq, hvector, mergeBatches_eq hkbs hbases hfinished]
        rfl
      exact ⟨rfl, halone, .inl rfl⟩
    · cases hnext
  | searched hits =>
    have halone : aloneAnswer digest svc t cache args = some (answerFor svc t args hits).toCached := hr
    cases hnext
    exact ⟨rfl, halone, .inr ⟨answerFor svc t args hits, rfl, halone⟩⟩
  | done answer => cases hnext
  | failed => cases hnext

theorem SubRun.advance_keeps (hkeys : KeysApart digest a perSubqueryK subqueries) {r r' : SubRun Vec}
    {shared shared' : SharedService}
    (hinv : (agenticRely digest svc t cache a perSubqueryK subqueries).inv shared)
    (hr : (agenticRely digest svc t cache a perSubqueryK subqueries).knows r shared)
    (hnext : r.advance digest svc t shared = some (shared', r')) :
    (agenticRely digest svc t cache a perSubqueryK subqueries).Keeps shared (shared', some r') := by
  obtain ⟨⟨sub, hsub, hargs⟩, hknows⟩ := hr
  have hcache := hinv sub hsub
  rw [← hargs] at hcache
  obtain ⟨hsame, hnew, hwrite⟩ := SubRun.advance_knows hcache hknows hnext
  apply Rely.Keeps.next
  · cases hwrite with
    | inl hcache =>
      intro other hother
      show CacheAgrees digest svc t cache _ shared'.cache
      rw [hcache]
      exact hinv other hother
    | inr hstored =>
      obtain ⟨answer, hcache, halone⟩ := hstored
      intro other hother
      show CacheAgrees digest svc t cache _ shared'.cache
      rw [hargs] at hcache halone
      rw [hcache]
      exact storeAnswer_agrees hkeys hinv hsub halone other hother
  · trivial
  · exact ⟨⟨sub, hsub, hsame.trans hargs⟩, hnew⟩

theorem SubRun.call_knows {j : Nat} {r r' : SubRun Vec} {shared : SharedService}
    (hr : r.Knows digest svc t cache)
    (hopen : shared.isOpen = true ∨ ∀ v bases b, r.phase = .searching v bases → bases[j]? = some b →
      searchOne svc.milvus svc.cosineSim (searchRequest svc r.args v) (boostSetup svc r.args).1 b.kbId = [])
    (hnext : r.call svc j shared = some r') : r'.args = r.args ∧ r'.Knows digest svc t cache := by
  obtain ⟨args, phase⟩ := r
  unfold SubRun.call at hnext
  cases phase with
  | searching v bases =>
    obtain ⟨hmissed, hvector, hkbs, hbases⟩ := hr
    obtain ⟨b, hb, hnext⟩ := Option.bind_eq_some_iff.1 hnext
    obtain ⟨b', hb', heq⟩ := Option.bind_eq_some_iff.1 hnext
    cases heq
    have hopenb : shared.isOpen = true ∨ searchOne svc.milvus svc.cosineSim (searchRequest svc args v)
        (boostSetup svc args).1 b.kbId = [] := by
      cases hopen with
      | inl hopen => exact .inl hopen
      | inr hnone => exact .inr (hnone v bases b rfl hb)
    obtain ⟨hagrees, hid⟩ := KbSearch.call_agrees (hbases b (List.mem_of_getElem? hb)) hopenb hb'
    constructor
    · rfl
    · show _ ∧ _ ∧ _ ∧ _
      constructor
      · exact hmissed
      constructor
      · exact hvector
      constructor
      · rw [← hkbs, List.map_set, hid]
        obtain ⟨hlt, rfl⟩ := List.getElem?_eq_some_iff.1 hb
        have hlen : j < (bases.map KbSearch.kbId).length := by simpa using hlt
        have hcolumn : bases[j].kbId = (bases.map KbSearch.kbId)[j] := by simp
        rw [hcolumn, List.set_getElem_self hlen]
      · intro x hx
        cases List.mem_or_eq_of_mem_set hx with
        | inl hold => exact hbases x hold
        | inr hnew =>
          rw [hnew]
          exact hagrees
  | _ => cases hnext

/-! ## Every run -/

theorem startAgentic_sound (digest : String → String) (svc : Services Vec) (t : Tables) (cache : L2Cache)
    (a : RetrieveArgs) (perSubqueryK : Int) (subqueries : List String) :
    (agenticRely digest svc t cache a perSubqueryK subqueries).Sound
      (startAgentic cache a perSubqueryK subqueries : AgenticState Vec).toSharedService
      (startAgentic cache a perSubqueryK subqueries : AgenticState Vec).runs := by
  constructor
  · intro sub _
    constructor
    · intro hmissed
      exact hmissed
    · intro c hc
      exact aloneAnswer_of_cached hc
  · intro r hr
    obtain ⟨sub, hsub, rfl⟩ := List.mem_map.1 hr
    exact ⟨⟨sub, hsub, rfl⟩, trivial⟩

theorem agenticStep_sound (hkeys : KeysApart digest a perSubqueryK subqueries) {s s' : AgenticState Vec}
    (h : (agenticRely digest svc t cache a perSubqueryK subqueries).Sound s.toSharedService s.runs)
    {act : AgenticAction} (hopen : CallsOpenClient svc s act)
    (hs' : agenticStep digest svc t s act = some s') :
    (agenticRely digest svc t cache a perSubqueryK subqueries).Sound s'.toSharedService s'.runs := by
  cases act with
  | advance k =>
    obtain ⟨r, hr, hs'⟩ := Option.bind_eq_some_iff.1 hs'
    obtain ⟨next, hnext, heq⟩ := Option.bind_eq_some_iff.1 hs'
    cases heq
    exact h.replace (SubRun.advance_keeps hkeys h.inv (h.knows r (List.mem_of_getElem? hr)) hnext) k
  | call k j =>
    obtain ⟨r, hr, hs'⟩ := Option.bind_eq_some_iff.1 hs'
    obtain ⟨r', hr', heq⟩ := Option.bind_eq_some_iff.1 hs'
    cases heq
    obtain ⟨⟨sub, hsub, hargs⟩, hknows⟩ := h.knows r (List.mem_of_getElem? hr)
    have hopenr : s.isOpen = true ∨ ∀ v bases b, r.phase = .searching v bases → bases[j]? = some b →
        searchOne svc.milvus svc.cosineSim (searchRequest svc r.args v) (boostSetup svc r.args).1
          b.kbId = [] := by
      cases hopen with
      | inl hopen => exact .inl hopen
      | inr hnone => exact .inr fun v bases b => hnone r v bases b hr
    obtain ⟨hsame, hnew⟩ := SubRun.call_knows hknows hopenr hr'
    exact h.replace (Rely.Keeps.read h.inv ⟨⟨sub, hsub, hsame.trans hargs⟩, hnew⟩) k

theorem isolated_of_sound {s : AgenticState Vec}
    (h : (agenticRely digest svc t cache a perSubqueryK subqueries).Sound s.toSharedService s.runs) :
    Isolated digest svc t cache s := by
  constructor
  · intro r hr o ho
    have hknows := (h.knows r hr).2
    obtain ⟨args, phase⟩ := r
    cases phase with
    | done answer =>
      cases ho
      exact hknows.symm
    | failed =>
      cases ho
      exact hknows.symm
    | _ => cases ho
  · intro r hr v bases hphase b hb hdone
    have hknows := (h.knows r hr).2
    unfold SubRun.Knows at hknows
    rw [hphase] at hknows
    exact (hknows.2.2.2 b hb).batch hdone

/-- A call that finds the client closed finishes the search without hits. -/
theorem callsOpenClient_of_keepsHits {s s' : AgenticState Vec} {act : AgenticAction}
    (hs' : agenticStep digest svc t s act = some s') (h : KeepsHits svc s') : CallsOpenClient svc s act := by
  cases act with
  | advance k => trivial
  | call k j =>
    cases hopen : s.isOpen with
    | true => exact .inl hopen
    | false =>
      right
      intro r v bases b hr hphase hb
      obtain ⟨r₀, hr₀, hs'⟩ := Option.bind_eq_some_iff.1 hs'
      obtain ⟨r', hr', heq⟩ := Option.bind_eq_some_iff.1 hs'
      cases heq
      rw [hr] at hr₀
      cases hr₀
      unfold SubRun.call at hr'
      rw [hphase] at hr'
      obtain ⟨b₀, hb₀, hr'⟩ := Option.bind_eq_some_iff.1 hr'
      obtain ⟨b', hb', heq⟩ := Option.bind_eq_some_iff.1 hr'
      cases heq
      rw [hb] at hb₀
      cases hb₀
      obtain ⟨stage, -, heq⟩ := Option.bind_eq_some_iff.1 hb'
      cases heq
      have hrun := List.mem_of_getElem? (lookup_set hr
        ({ r with phase := .searching v (bases.set j
          { b with stage := if s.isOpen then stage else .finished none }) } : SubRun Vec))
      have hbase := List.mem_of_getElem? (lookup_set hb
        ({ b with stage := if s.isOpen then stage else .finished none } : KbSearch))
      have hdone : ({ b with stage := if s.isOpen then stage else .finished none } : KbSearch).isFinished =
          true := by
        rw [hopen]
        rfl
      have hbatch := h _ hrun v _ rfl _ hbase hdone
      rw [hopen] at hbatch
      exact hbatch.symm

/-- With keys apart, every sub-query is isolated along a run exactly when each call of the client finds it
open, or searches where there is nothing to find. -/
theorem isolated_visits_iff (svc : Services Vec) (t : Tables) (cache : L2Cache)
    (hkeys : KeysApart digest a perSubqueryK subqueries) (acts : List AgenticAction) :
    Visits (agenticStep digest svc t) (Isolated digest svc t cache)
        (startAgentic cache a perSubqueryK subqueries) acts ↔
      EveryStep (agenticStep digest svc t) (CallsOpenClient svc)
        (startAgentic cache a perSubqueryK subqueries) acts :=
  visits_iff_everyStep_of_companion (fun _ hs => isolated_of_sound hs)
    (fun _ _ _ hs hs' => ⟨fun hp => callsOpenClient_of_keepsHits hs' hp.hits,
      fun hopen => agenticStep_sound hkeys hs hopen hs'⟩)
    (startAgentic_sound digest svc t cache a perSubqueryK subqueries) acts

end Isolation

/-! ## Two sub-queries -/

def twoSubqueries : AgenticState Unit := startAgentic Store.empty oneQuery 3 ["left", "right"]

theorem keysApart_twoSubqueries : KeysApart id oneQuery 3 ["left", "right"] := by
  unfold KeysApart
  decide

/-- Both search before one of them closes the client. -/
def lockstep : List AgenticAction :=
  [.advance 0, .advance 1, .advance 0, .advance 1, .call 0 0, .call 1 0, .call 0 0, .call 1 0, .call 0 0,
    .call 1 0, .advance 0, .advance 1, .advance 0, .advance 1]

theorem lockstep_isolated :
    Visits (agenticStep id findsChunk oneDocument.tables)
      (Isolated id findsChunk oneDocument.tables Store.empty) twoSubqueries lockstep := by
  apply (isolated_visits_iff findsChunk oneDocument.tables Store.empty keysApart_twoSubqueries lockstep).2
  iterate 4 apply EveryStep.cons_of_eq rfl trivial
  iterate 6 apply EveryStep.cons_of_eq rfl (.inl rfl)
  iterate 4 apply EveryStep.cons_of_eq rfl trivial
  trivial

/-- The second sub-query searches after the first one has ended. -/
def oneAfterAnother : List AgenticAction :=
  [.advance 0, .advance 0, .call 0 0, .call 0 0, .call 0 0, .advance 0, .advance 0,
    .advance 1, .advance 1, .call 1 0, .advance 1, .advance 1]

theorem second_subquery_loses_hits : ¬ ∀ (a : RetrieveArgs) (perSubqueryK : Int) (subqueries : List String)
    (acts : List AgenticAction), KeysApart id a perSubqueryK subqueries →
      Visits (agenticStep id findsChunk oneDocument.tables)
        (RunsIsolated id findsChunk oneDocument.tables Store.empty)
        (startAgentic Store.empty a perSubqueryK subqueries) acts := by
  intro h
  have hlast := (h oneQuery 3 _ oneAfterAnother keysApart_twoSubqueries).last rfl
  have hsame := hlast _ (List.mem_cons_of_mem _ List.mem_cons_self) _ rfl
  have hfound := congrArg (fun o => o.map CachedRetrieval.totalSearched) hsame
  cases hfound

end OpsKnowledge.Retrieval
