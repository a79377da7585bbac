import OpsKnowledge.Retrieval.Searcher

/-!
# Fusion across bases

`fusion.py`: the weight of a base, one chunk of each redundant pair, and the diversity of
what is picked.
-/

namespace OpsKnowledge.Retrieval

open OpsKnowledge.Lib

structure FusionConfig where
  enableSourceWeighting : Bool := true
  enableCrossKbDedup : Bool := true
  enableMmr : Bool := true
  mmrLambda : ℚ := 7 / 10

def healthToWeight : Option ℚ → ℚ
  | none => 1
  | some healthScore => max (1 / 2) (min (3 / 2) (1 / 2 + healthScore / 100))

/-! ## Tokens -/

/-- `ch.lower()`, where it gives characters that are kept. -/
def lowerChar (ch : Char) : List Char :=
  if ch = Char.ofNat 0x212A then ['k']
  else if ch = Char.ofNat 0x130 then ['i', Char.ofNat 0x307]
  else [ch.toLower]

/-- The finished tokens and the characters of the one that is being read. -/
def tokenStep (st : List String × List Char) (ch : Char) : List String × List Char :=
  if ch.isAlphanum then (st.1, st.2 ++ [ch])
  else
    let out := if st.2.isEmpty then st.1 else st.1 ++ [String.ofList st.2]
    (if 0x4E00 ≤ ch.toNat ∧ ch.toNat ≤ 0x9FFF then out ++ [String.ofList [ch]] else out, [])

/-- `_content_tokens`, each token once. -/
def contentTokens (text : String) : List String :=
  let st := (text.toList.flatMap lowerChar).foldl tokenStep ([], [])
  (if st.2.isEmpty then st.1 else st.1 ++ [String.ofList st.2]).dedup

/-- `_jaccard` -/
def jaccard (a b : List String) : ℚ :=
  if a.isEmpty || b.isEmpty then 0
  else
    let inter := (a.filter (· ∈ b)).length
    inter / (a.length + b.length - inter : ℚ)

/-! ## The stages -/

/-- Scores by the weight of their base, and the order that they give. -/
def weighSources (sourceWeights : Dict String ℚ) (results : List SearchResult) : List SearchResult :=
  let weight (r : SearchResult) := (sourceWeights.get? (r.sourceKbId.getD "")).getD 1
  orderByDesc SearchResult.score (results.map fun r => { r with score := r.score * weight r })

def isPair (dedupPairs : List (Nat × Nat)) (a b : Nat) : Bool := (a, b) ∈ dedupPairs || (b, a) ∈ dedupPairs

/-- A result is dropped when one that was kept forms a pair with it. -/
def dropRedundant (dedupPairs : List (Nat × Nat)) (results : List SearchResult) : List SearchResult :=
  results.foldl (fun ordered r =>
    if ordered.any fun existing => isPair dedupPairs r.chunkId existing.chunkId then ordered
    else ordered ++ [r]) []

section Mmr

variable (mmrLambda : ℚ) (results : List SearchResult)

/-- The score of a chunk id; of results with one id the last. -/
def scoreOf (chunkId : Nat) : ℚ :=
  ((Dict.ofList (results.map fun r => (r.chunkId, r.score))).get? chunkId).getD 0

def tokensOf (chunkId : Nat) : List String :=
  ((Dict.ofList (results.map fun r => (r.chunkId, contentTokens r.content))).get? chunkId).getD []

/-- `max(scores.values()) or 1.0` -/
def maxScore : ℚ :=
  let scores := results.map fun r => scoreOf results r.chunkId
  let best := scores.foldl max (scores.headD 0)
  if best = 0 then 1 else best

def mmrScore (picked : List SearchResult) (c : SearchResult) : ℚ :=
  let maxSim := picked.foldl (fun m p =>
    max m (jaccard (tokensOf results c.chunkId) (tokensOf results p.chunkId))) 0
  mmrLambda * (scoreOf results c.chunkId / maxScore results) - (1 - mmrLambda) * maxSim

/-- The first candidate with the best score above `-1e9`, and failing that the first one. -/
def bestIdx (picked candidates : List SearchResult) : Nat :=
  (candidates.zipIdx.foldl (fun (best : Nat × ℚ) (c : SearchResult × Nat) =>
    let mmr := mmrScore mmrLambda results picked c.1
    if best.2 < mmr then (c.2, mmr) else best) (0, -1000000000)).1

/-- The loop, as long as there are candidates and fewer than `top_k` are picked. -/
def pickMmr (topK : Int) : Nat → List SearchResult → List SearchResult → List SearchResult
  | 0, picked, _ => picked
  | fuel + 1, picked, candidates =>
      let i := bestIdx mmrLambda results picked candidates
      match candidates[i]? with
      | some c =>
          if (picked.length : Int) < topK then pickMmr topK fuel (picked ++ [c]) (candidates.eraseIdx i)
          else picked
      | none => picked

def diversify (topK : Int) : List SearchResult :=
  match orderByDesc (fun r => scoreOf results r.chunkId) results with
  | [] => []
  | seed :: candidates => pickMmr mmrLambda results topK candidates.length [seed] candidates

end Mmr

section Stages

variable (config : FusionConfig) (results : List SearchResult)

def sourceStage (sourceWeights : Dict String ℚ) : List SearchResult :=
  if config.enableSourceWeighting && !sourceWeights.entries.isEmpty then weighSources sourceWeights results
  else results

def dedupStage (dedupPairs : List (Nat × Nat)) : List SearchResult :=
  if config.enableCrossKbDedup && !dedupPairs.isEmpty then dropRedundant dedupPairs results else results

def mmrStage (topK : Int) : List SearchResult :=
  if config.enableMmr && 1 < results.length then diversify config.mmrLambda results topK else results

def fuseResults (sourceWeights : Dict String ℚ) (dedupPairs : List (Nat × Nat)) (topK : Int) :
    List SearchResult :=
  if results.isEmpty then []
  else
    let weighted := sourceStage config results sourceWeights
    let distinct := dedupStage config weighted dedupPairs
    sliceTo topK (mmrStage config distinct topK)

end Stages

/-! ## What comes out -/

/-- A result of `xs` under scores of its own: the same chunk of the same unit. -/
def ComesFrom (xs : List SearchResult) (r : SearchResult) : Prop :=
  ∃ x ∈ xs, r.chunkId = x.chunkId ∧ r.documentId = x.documentId

variable {xs ys : List SearchResult} {r : SearchResult}

theorem ComesFrom.of_mem (h : r ∈ xs) : ComesFrom xs r := ⟨r, h, rfl, rfl⟩

theorem ComesFrom.trans (h : ComesFrom ys r) (hxs : ∀ y ∈ ys, ComesFrom xs y) : ComesFrom xs r := by
  obtain ⟨y, hy, hid, hdoc⟩ := h
  obtain ⟨x, hx, hid', hdoc'⟩ := hxs y hy
  exact ⟨x, hx, hid.trans hid', hdoc.trans hdoc'⟩

theorem mem_of_mem_sliceTo {α : Type} {k : Int} {xs : List α} {a : α} (h : a ∈ sliceTo k xs) : a ∈ xs := by
  unfold sliceTo at h
  split at h
  · exact List.mem_of_mem_take h
  · exact List.mem_of_mem_take h

end OpsKnowledge.Retrieval
