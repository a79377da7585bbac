import OpsKnowledge.Retrieval.Fusion

/-!
# Reranking

`reranker.py`. The results are objects: scores that were written before an item fails stay.
-/

namespace OpsKnowledge.Retrieval

open OpsKnowledge.Lib

structure RerankRequest where
  providerId : String
  modelName : String
  query : String
  documents : List String
  topN : Int

/-- An item of the provider's answer; a key may be missing. -/
structure RankedItem where
  index : Option Int
  relevanceScore : Option ℚ

/-- The position that `results[idx]` reads. -/
def pyIndex (n : Nat) (idx : Int) : Option Nat :=
  if 0 ≤ idx then (if idx.toNat < n then some idx.toNat else none)
  else if (-idx).toNat ≤ n then some (n - (-idx).toNat) else none

theorem pyIndex_lt {n i : Nat} {idx : Int} (h : pyIndex n idx = some i) : i < n := by
  unfold pyIndex at h
  split at h
  · split at h
    · next hlt =>
        cases h
        exact hlt
    · cases h
  · split at h
    · cases h
      omega
    · cases h

/-- The results with the scores written so far, and the positions of the ranked ones. -/
def rerankStep (st : List SearchResult × List Nat) (item : RankedItem) :
    Except (List SearchResult) (List SearchResult × List Nat) :=
  match item.index.bind (pyIndex st.1.length), item.relevanceScore with
  | some i, some relevance =>
      .ok (st.1.modify i fun r => { r with rerankScore := some relevance, score := relevance }, st.2 ++ [i])
  | _, _ => .error st.1

/-- `rerank_results`, with the provider's answer or `none` when it fails. -/
def rerankResults (ranked : Option (List RankedItem)) (results : List SearchResult) : List SearchResult :=
  match ranked with
  | none => results
  | some items =>
      match items.foldlM rerankStep (results, []) with
      | .error written => written
      | .ok (written, order) => orderByDesc SearchResult.score (order.filterMap fun i => written[i]?)

end OpsKnowledge.Retrieval
