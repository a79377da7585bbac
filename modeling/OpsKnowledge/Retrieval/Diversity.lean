import Mathlib.Algebra.Order.Field.Basic
import Mathlib.Data.List.Nodup
import Mathlib.Data.List.Pairwise
import Mathlib.Tactic.Linarith
import Mathlib.Tactic.NormNum
import OpsKnowledge.Lib.Greedy
import OpsKnowledge.Retrieval.Fusion

/-!
# What fusion keeps

The three stages in one call: what is dropped has a better near-duplicate that stays, and
each result that is picked is the best trade of relevance and similarity at its turn.
-/

namespace OpsKnowledge.Retrieval

open OpsKnowledge.Lib

/-! ## Maximal marginal relevance -/

def similarity (a b : SearchResult) : ℚ := jaccard (contentTokens a.content) (contentTokens b.content)

/-- The similarity to the closest of the results that were picked. -/
def maxSimilarity (picked : List SearchResult) (c : SearchResult) : ℚ :=
  (picked.map (similarity c)).foldl max 0

def topScore (survivors : List SearchResult) : ℚ :=
  let best := (survivors.map SearchResult.score).foldl max 0
  if best = 0 then 1 else best

def marginalRelevance (mmrLambda : ℚ) (survivors picked : List SearchResult) (c : SearchResult) : ℚ :=
  mmrLambda * (c.score / topScore survivors) - (1 - mmrLambda) * maxSimilarity picked c

section Bounds

theorem foldl_max_le {bound start : ℚ} {xs : List ℚ} (hstart : start ≤ bound) (h : ∀ x ∈ xs, x ≤ bound) :
    xs.foldl max start ≤ bound := by
  induction xs generalizing start with
  | nil => exact hstart
  | cons x xs ih =>
      exact ih (max_le hstart (h x List.mem_cons_self)) fun y hy => h y (List.mem_cons_of_mem x hy)

theorem le_foldl_max (start : ℚ) (xs : List ℚ) : start ≤ xs.foldl max start := by
  induction xs generalizing start with
  | nil => exact le_refl start
  | cons x xs ih => exact (le_max_left start x).trans (ih (max start x))

theorem contentTokens_nodup (text : String) : (contentTokens text).Nodup := List.nodup_dedup _

theorem jaccard_le_one {a b : List String} (ha : a.Nodup) : jaccard a b ≤ 1 := by
  unfold jaccard
  split
  · exact zero_le_one
  · next hne =>
      have hleft : (a.filter (· ∈ b)).length ≤ a.length := List.length_filter_le _ _
      have hright : (a.filter (· ∈ b)).length ≤ b.length := by
        apply List.Subperm.length_le
        apply List.subperm_of_subset (ha.filter _)
        intro x hx
        simpa using (List.mem_filter.1 hx).2
      have hpos : 0 < a.length := List.length_pos_iff.2 fun hnil => hne (by simp [hnil])
      have hleft' : ((a.filter (· ∈ b)).length : ℚ) ≤ a.length := by exact_mod_cast hleft
      have hright' : ((a.filter (· ∈ b)).length : ℚ) ≤ b.length := by exact_mod_cast hright
      have hpos' : (0 : ℚ) < a.length := by exact_mod_cast hpos
      by_cases hzero : (a.length + b.length - (a.filter (· ∈ b)).length : ℚ) = 0
      · dsimp only
        rw [hzero, div_zero]
        exact zero_le_one
      · have hden : (0 : ℚ) < a.length + b.length - (a.filter (· ∈ b)).length := by
          rcases (sub_nonneg.2 (hright'.trans (le_add_of_nonneg_left hpos'.le))).lt_or_eq with hlt | heq
          · exact hlt
          · exact absurd heq.symm hzero
        rw [div_le_one hden, le_sub_iff_add_le]
        exact add_le_add hleft' hright'

theorem maxSimilarity_le_one (picked : List SearchResult) (c : SearchResult) :
    maxSimilarity picked c ≤ 1 := by
  apply foldl_max_le zero_le_one
  intro x hx
  obtain ⟨p, -, rfl⟩ := List.mem_map.1 hx
  exact jaccard_le_one (contentTokens_nodup _)

theorem topScore_pos (survivors : List SearchResult) : 0 < topScore survivors := by
  unfold topScore
  dsimp only
  split
  · exact zero_lt_one
  · next hne => exact lt_of_le_of_ne (le_foldl_max 0 _) (Ne.symm hne)

theorem floor_lt_marginalRelevance {mmrLambda : ℚ} (h₀ : 0 ≤ mmrLambda) (h₁ : mmrLambda ≤ 1)
    {c : SearchResult} (hc : 0 ≤ c.score) (survivors picked : List SearchResult) :
    -1000000000 < marginalRelevance mmrLambda survivors picked c := by
  have hrel : 0 ≤ mmrLambda * (c.score / topScore survivors) :=
    mul_nonneg h₀ (div_nonneg hc (topScore_pos survivors).le)
  have hsim : (1 - mmrLambda) * maxSimilarity picked c ≤ 1 - mmrLambda :=
    mul_le_of_le_one_right (sub_nonneg.2 h₁) (maxSimilarity_le_one picked c)
  have hge : (-1 : ℚ) ≤ marginalRelevance mmrLambda survivors picked c := by
    unfold marginalRelevance
    linarith
  exact lt_of_lt_of_le (by norm_num) hge

end Bounds

/-! ## The values of the loop -/

section Values

variable {results picked : List SearchResult} (hids : (results.map SearchResult.chunkId).Nodup)

include hids

theorem get?_ofList_chunkId {β : Type} (f : SearchResult → β) {r : SearchResult} (hr : r ∈ results) :
    (Dict.ofList (results.map fun r => (r.chunkId, f r))).get? r.chunkId = some (f r) := by
  have hn : ((results.map fun r => (r.chunkId, f r)).map Prod.fst).Nodup := by
    rw [List.map_map]
    exact hids
  exact (Dict.get?_ofList_of_nodup hn).2 (List.mem_map_of_mem hr)

theorem scoreOf_eq {r : SearchResult} (hr : r ∈ results) : scoreOf results r.chunkId = r.score := by
  unfold scoreOf
  rw [get?_ofList_chunkId hids _ hr, Option.getD_some]

theorem tokensOf_eq {r : SearchResult} (hr : r ∈ results) :
    tokensOf results r.chunkId = contentTokens r.content := by
  unfold tokensOf
  rw [get?_ofList_chunkId hids _ hr, Option.getD_some]

theorem maxScore_eq (hscores : ∀ r ∈ results, 0 ≤ r.score) : maxScore results = topScore results := by
  have hmap : (results.map fun r => scoreOf results r.chunkId) = results.map SearchResult.score :=
    List.map_congr_left fun r hr => scoreOf_eq hids hr
  have hstart : (results.map SearchResult.score).foldl max ((results.map SearchResult.score).headD 0) =
      (results.map SearchResult.score).foldl max 0 := by
    cases results with
    | nil => rfl
    | cons r results =>
        have hr := hscores r List.mem_cons_self
        simp [max_eq_right hr]
  unfold maxScore topScore
  dsimp only
  rw [hmap, hstart]

theorem mmrScore_eq (hscores : ∀ r ∈ results, 0 ≤ r.score) {mmrLambda : ℚ}
    (hpicked : ∀ p ∈ picked, p ∈ results) {c : SearchResult} (hc : c ∈ results) :
    mmrScore mmrLambda results picked c = marginalRelevance mmrLambda results picked c := by
  have hsim : picked.foldl (fun m p =>
      max m (jaccard (tokensOf results c.chunkId) (tokensOf results p.chunkId))) 0 =
      maxSimilarity picked c := by
    unfold maxSimilarity
    rw [List.foldl_map]
    apply List.foldl_ext
    intro m p hp
    rw [tokensOf_eq hids hc, tokensOf_eq hids (hpicked p hp)]
    rfl
  unfold mmrScore marginalRelevance
  rw [hsim, scoreOf_eq hids hc, maxScore_eq hids hscores]

end Values

/-! ## The loop -/

section Loop

variable {results : List SearchResult} {mmrLambda : ℚ} {topK : Int}

/-- The loop stops because nothing is left or enough is picked. -/
theorem picks_nothing {value : List SearchResult → SearchResult → ℚ} {picked candidates : List SearchResult}
    (hroom : (picked.length : Int) ≤ topK) (hend : candidates.length = 0 ∨ topK ≤ picked.length) :
    ∃ tail, picked = picked ++ tail ∧ Picks value picked candidates tail ∧
      ((picked ++ tail).length : Int) = min topK (picked.length + candidates.length) := by
  refine ⟨[], (List.append_nil _).symm, .nil _ _, ?_⟩
  rw [List.append_nil]
  omega

theorem pickMmr_picks (hids : (results.map SearchResult.chunkId).Nodup)
    (hscores : ∀ r ∈ results, 0 ≤ r.score) (h₀ : 0 ≤ mmrLambda) (h₁ : mmrLambda ≤ 1) (topK : Int)
    (fuel : Nat) (picked candidates : List SearchResult) (hpicked : ∀ p ∈ picked, p ∈ results)
    (hcandidates : ∀ c ∈ candidates, c ∈ results) (hfuel : candidates.length ≤ fuel)
    (hroom : (picked.length : Int) ≤ topK) :
    ∃ tail, pickMmr mmrLambda results topK fuel picked candidates = picked ++ tail ∧
      Picks (marginalRelevance mmrLambda results) picked candidates tail ∧
      ((picked ++ tail).length : Int) = min topK (picked.length + candidates.length) := by
  induction fuel generalizing picked candidates with
  | zero => exact picks_nothing hroom (.inl (Nat.le_zero.1 hfuel))
  | succ fuel ih =>
      unfold pickMmr
      dsimp only
      split
      · next c hc =>
          split
          · next hmore =>
              have hvalue : ∀ d ∈ candidates,
                  mmrScore mmrLambda results picked d = marginalRelevance mmrLambda results picked d :=
                fun d hd => mmrScore_eq hids hscores hpicked (hcandidates d hd)
              obtain ⟨best, hbest, hlargest⟩ := getElem?_argmaxFrom (mmrScore mmrLambda results picked)
                (-1000000000) (List.ne_nil_of_mem (List.mem_of_getElem? hc)) fun d hd => by
                  rw [hvalue d hd]
                  exact floor_lt_marginalRelevance h₀ h₁ (hscores d (hcandidates d hd)) _ _
              have hsame : c = best := Option.some.inj (hc.symm.trans hbest)
              have hmem : c ∈ candidates := List.mem_of_getElem? hc
              have hpicked' : ∀ p ∈ picked ++ [c], p ∈ results := by
                intro p hp
                rcases List.mem_append.1 hp with hp | hp
                · exact hpicked p hp
                · rw [List.mem_singleton.1 hp]
                  exact hcandidates c hmem
              have hlast : (picked ++ [c]).length = picked.length + 1 := by
                rw [List.length_append, List.length_singleton]
              have hindex : bestIdx mmrLambda results picked candidates < candidates.length :=
                (List.getElem?_eq_some_iff.1 hc).1
              have herase := List.length_eraseIdx_of_lt hindex
              obtain ⟨tail, heq, hpicks, hlength⟩ :=
                ih (picked ++ [c]) (candidates.eraseIdx (bestIdx mmrLambda results picked candidates))
                  hpicked'
                  (fun d hd => hcandidates d (List.mem_of_mem_eraseIdx hd)) (by omega) (by omega)
              refine ⟨c :: tail, ?_, .cons hc ?_ hpicks, ?_⟩
              · rw [heq, List.append_assoc]
                rfl
              · intro d hd
                rw [← hvalue d hd, ← hvalue c hmem, hsame]
                exact hlargest d hd
              · rw [List.append_assoc, List.singleton_append] at hlength
                omega
          · next hfull => exact picks_nothing hroom (.inr (not_lt.1 hfull))
      · next hnone =>
          refine picks_nothing hroom (.inl ?_)
          by_contra hleft
          have hne : candidates ≠ [] := List.ne_nil_of_length_pos (Nat.pos_of_ne_zero hleft)
          obtain ⟨best, hbest, -⟩ := getElem?_argmaxFrom (mmrScore mmrLambda results picked)
            (-1000000000) hne fun d hd => by
              rw [mmrScore_eq hids hscores hpicked (hcandidates d hd)]
              exact floor_lt_marginalRelevance h₀ h₁ (hscores d (hcandidates d hd)) _ _
          cases hnone.symm.trans hbest

/-- What is returned after a seed is picked from what is left. -/
theorem diversify_picks (hids : (results.map SearchResult.chunkId).Nodup)
    (hscores : ∀ r ∈ results, 0 ≤ r.score) (h₀ : 0 ≤ mmrLambda) (h₁ : mmrLambda ≤ 1) (hne : results ≠ [])
    (htopK : 1 ≤ topK) :
    ∃ seed candidates tail, (seed :: candidates).Perm results ∧ (∀ x ∈ results, x.score ≤ seed.score) ∧
      diversify mmrLambda results topK = seed :: tail ∧
      Picks (marginalRelevance mmrLambda results) [seed] candidates tail ∧
      ((seed :: tail).length : Int) = min topK results.length := by
  have hperm := orderByDesc_perm (fun r => scoreOf results r.chunkId) results
  have hsorted := orderByDesc_pairwise (fun r => scoreOf results r.chunkId) results
  unfold diversify
  cases horder : orderByDesc (fun r => scoreOf results r.chunkId) results with
  | nil =>
      rw [horder] at hperm
      exact absurd hperm.symm.eq_nil hne
  | cons seed candidates =>
      rw [horder] at hperm hsorted
      have hmem : ∀ x ∈ seed :: candidates, x ∈ results := fun x hx => hperm.mem_iff.1 hx
      have hseed := hmem seed List.mem_cons_self
      obtain ⟨tail, heq, hpicks, hlength⟩ := pickMmr_picks hids hscores h₀ h₁ topK candidates.length [seed]
        candidates (fun p hp => List.mem_singleton.1 hp ▸ hseed)
        (fun c hc => hmem c (List.mem_cons_of_mem seed hc)) (le_refl _) htopK
      have hsize : ((seed :: tail).length : Int) = min topK results.length := by
        have hall : (1 : Int) + candidates.length = results.length := by
          rw [← hperm.length_eq, List.length_cons]
          omega
        rwa [List.singleton_append, List.length_singleton, Nat.cast_one, hall] at hlength
      refine ⟨seed, candidates, tail, hperm, ?_, heq, hpicks, hsize⟩
      intro x hx
      rcases List.mem_cons.1 (hperm.mem_iff.2 hx) with rfl | hx'
      · exact le_refl _
      · have hle := (List.pairwise_cons.1 hsorted).1 x hx'
        rw [scoreOf_eq hids hx, scoreOf_eq hids hseed] at hle
        exact hle

end Loop

/-! ## All stages -/

def weighedBy (sourceWeights : Dict String ℚ) (r : SearchResult) : SearchResult :=
  { r with score := r.score * (sourceWeights.get? (r.sourceKbId.getD "")).getD 1 }

/-- The weighted candidates, those that the redundant pairs leave, and what is returned of them: as many
as there are, up to `topK`. -/
structure FusedWell (mmrLambda : ℚ) (dedupPairs : List (Nat × Nat)) (topK : Int)
    (weighted survivors out : List SearchResult) : Prop where
  size : (out.length : Int) = min topK survivors.length
  distinct : (out.map SearchResult.chunkId).Nodup
  chosen : ∀ r ∈ out, r ∈ survivors
  apart : out.Pairwise fun a b => isPair dedupPairs a.chunkId b.chunkId = false
  first : ∀ r ∈ out.head?, ∀ x ∈ weighted, x.score ≤ r.score
  left : survivors.Sublist weighted
  covered : ∀ x ∈ weighted, x ∉ survivors →
    ∃ y ∈ survivors, isPair dedupPairs x.chunkId y.chunkId = true ∧ x.score ≤ y.score
  largest : ∀ front c rest, out = front ++ c :: rest → front ≠ [] → ∀ d ∈ survivors, d ∉ front →
    marginalRelevance mmrLambda survivors front d ≤ marginalRelevance mmrLambda survivors front c

section Stages

variable {results : List SearchResult} {sourceWeights : Dict String ℚ} {dedupPairs : List (Nat × Nat)}
  {mmrLambda : ℚ} {topK : Int}

theorem sourceStage_perm (config : FusionConfig) (h : config.enableSourceWeighting = true) :
    (sourceStage config results sourceWeights).Perm (results.map (weighedBy sourceWeights)) := by
  unfold sourceStage
  rw [h, Bool.true_and]
  split
  · exact orderByDesc_perm _ _
  · next hnone =>
      have hentries : sourceWeights.entries = [] := by simpa using hnone
      have hid : results.map (weighedBy sourceWeights) = results.map id := by
        apply List.map_congr_left
        intro r _
        simp [weighedBy, Dict.get?, hentries]
      rw [hid, List.map_id]

theorem sourceStage_sorted (config : FusionConfig) (h : config.enableSourceWeighting = true)
    (hsorted : results.Pairwise (fun a b => b.score ≤ a.score) ∨ sourceWeights.entries ≠ []) :
    (sourceStage config results sourceWeights).Pairwise fun a b => b.score ≤ a.score := by
  unfold sourceStage
  rw [h, Bool.true_and]
  split
  · exact orderByDesc_pairwise _ _
  · next hnone =>
      have hentries : sourceWeights.entries = [] := by simpa using hnone
      exact hsorted.resolve_right fun hne => hne hentries

theorem dedupStage_eq (config : FusionConfig) (h : config.enableCrossKbDedup = true)
    (xs : List SearchResult) :
    dedupStage config xs dedupPairs = thin (fun r e => isPair dedupPairs r.chunkId e.chunkId) xs := by
  unfold dedupStage
  rw [h, Bool.true_and]
  split
  · rfl
  · next hnone =>
      have hpairs : dedupPairs = [] := by simpa using hnone
      subst hpairs
      symm
      induction xs using List.reverseRecOn with
      | nil => rfl
      | append_singleton xs x ih =>
          rw [thin_concat, ih]
          simp [isPair]

theorem isPair_comm (a b : Nat) : isPair dedupPairs a b = isPair dedupPairs b a := Bool.or_comm _ _

/-! ### What the pairs leave -/

section Survivors

variable (dedupPairs) (weighted : List SearchResult)

def survivorsOf : List SearchResult := thin (fun r e => isPair dedupPairs r.chunkId e.chunkId) weighted

variable {weighted}

theorem survivorsOf_sublist : (survivorsOf dedupPairs weighted).Sublist weighted := thin_sublist _ weighted

theorem isPair_of_survivorsOf {a b : SearchResult} (ha : a ∈ survivorsOf dedupPairs weighted)
    (hb : b ∈ survivorsOf dedupPairs weighted) (hne : a ≠ b) :
    isPair dedupPairs a.chunkId b.chunkId = false := by
  have hsymm : Std.Symm fun a b : SearchResult => isPair dedupPairs b.chunkId a.chunkId = false :=
    ⟨fun a b h => isPair_comm b.chunkId a.chunkId ▸ h⟩
  exact (thin_pairwise (fun r e => isPair dedupPairs r.chunkId e.chunkId) weighted).forall hb ha hne.symm

variable (hsorted : weighted.Pairwise fun a b => b.score ≤ a.score)

include hsorted

/-- What is dropped is a pair with a result before it, which has no lower score. -/
theorem exists_of_notMem_survivorsOf {x : SearchResult} (hx : x ∈ weighted)
    (hgone : x ∉ survivorsOf dedupPairs weighted) :
    ∃ y ∈ survivorsOf dedupPairs weighted,
      isPair dedupPairs x.chunkId y.chunkId = true ∧ x.score ≤ y.score := by
  obtain ⟨y, hy, hpair, hbefore⟩ := exists_of_notMem_thin _ hx hgone
  have hle := hsorted.sublist hbefore
  exact ⟨y, hy, hpair, (List.pairwise_cons.1 hle).1 x List.mem_cons_self⟩

/-- The first result survives, and none is above it. -/
theorem score_le_of_survivorsOf {bound : ℚ} (h : ∀ x ∈ survivorsOf dedupPairs weighted, x.score ≤ bound) :
    ∀ x ∈ weighted, x.score ≤ bound := by
  intro x hx
  cases hw : weighted with
  | nil =>
      rw [hw] at hx
      cases hx
  | cons top rest =>
      have hhead : (survivorsOf dedupPairs weighted).head? = some top := by
        unfold survivorsOf
        rw [head?_thin, hw]
        rfl
      have htop := h top (List.mem_of_head? hhead)
      rw [hw] at hx hsorted
      rcases List.mem_cons.1 hx with rfl | hx
      · exact htop
      · exact ((List.pairwise_cons.1 hsorted).1 x hx).trans htop

end Survivors

theorem sliceTo_of_length_le {α : Type} {k : Int} {xs : List α} (h : (xs.length : Int) ≤ k) :
    sliceTo k xs = xs := by
  unfold sliceTo
  rw [if_pos (by omega)]
  exact List.take_of_length_le (by omega)

section Together

variable {weighted : List SearchResult} (hids : (weighted.map SearchResult.chunkId).Nodup)
  (hscores : ∀ r ∈ weighted, 0 ≤ r.score) (hsorted : weighted.Pairwise fun a b => b.score ≤ a.score)

include hids in
theorem distinct_and_apart {out : List SearchResult} (h : out.Subperm (survivorsOf dedupPairs weighted)) :
    (out.map SearchResult.chunkId).Nodup ∧
      out.Pairwise fun a b => isPair dedupPairs a.chunkId b.chunkId = false := by
  have hleft : ((survivorsOf dedupPairs weighted).map SearchResult.chunkId).Nodup :=
    hids.sublist ((survivorsOf_sublist dedupPairs).map _)
  obtain ⟨ys, hperm, hsub⟩ := h
  have hnodup : (out.map SearchResult.chunkId).Nodup :=
    (hperm.map _).nodup_iff.1 (hleft.sublist (hsub.map _))
  refine ⟨hnodup, hnodup.of_map.pairwise_of_forall_ne ?_⟩
  intro a ha b hb hne
  exact isPair_of_survivorsOf dedupPairs (hsub.subset (hperm.mem_iff.2 ha))
    (hsub.subset (hperm.mem_iff.2 hb)) hne

include hids hsorted in
/-- At most one survivor: it is returned. -/
theorem fusedWell_of_few (hfew : (survivorsOf dedupPairs weighted).length ≤ 1) (htopK : 1 ≤ topK) :
    FusedWell mmrLambda dedupPairs topK weighted (survivorsOf dedupPairs weighted)
      (survivorsOf dedupPairs weighted) := by
  obtain ⟨hdistinct, hpairs⟩ := distinct_and_apart hids (List.Subperm.refl _)
  refine ⟨by omega, hdistinct, fun r hr => hr, hpairs, ?_, survivorsOf_sublist dedupPairs, ?_, ?_⟩
  · intro r hr
    apply score_le_of_survivorsOf dedupPairs hsorted
    intro x hx
    cases hsurvivors : survivorsOf dedupPairs weighted with
    | nil =>
        rw [hsurvivors] at hx
        cases hx
    | cons top rest =>
        rw [hsurvivors] at hr hx hfew
        have hrest : rest = [] := by
          apply List.eq_nil_of_length_eq_zero
          rw [List.length_cons] at hfew
          omega
        cases hr
        rw [hrest, List.mem_singleton] at hx
        rw [hx]
  · exact fun x hx hgone => exists_of_notMem_survivorsOf dedupPairs hsorted hx hgone
  · intro front c rest hsplit hfront d hd hnew
    exfalso
    have hlength := congrArg List.length hsplit
    rw [List.length_append, List.length_cons] at hlength
    have hpos := List.length_pos_iff.2 hfront
    omega

include hids hscores hsorted in
/-- More than one: the seed and what is picked next to it. -/
theorem fusedWell_of_many (hmany : 1 < (survivorsOf dedupPairs weighted).length) (h₀ : 0 ≤ mmrLambda)
    (h₁ : mmrLambda ≤ 1) (htopK : 1 ≤ topK) :
    FusedWell mmrLambda dedupPairs topK weighted (survivorsOf dedupPairs weighted)
      (diversify mmrLambda (survivorsOf dedupPairs weighted) topK) := by
  have hleft : (survivorsOf dedupPairs weighted).Sublist weighted := survivorsOf_sublist dedupPairs
  have hne : survivorsOf dedupPairs weighted ≠ [] := List.ne_nil_of_length_pos (by omega)
  obtain ⟨seed, candidates, tail, hperm, hseed, heq, hpicks, hlength⟩ :=
    diversify_picks (hids.sublist (hleft.map _)) (fun r hr => hscores r (hleft.subset hr)) h₀ h₁ hne htopK
  have hsub : (seed :: tail).Subperm (survivorsOf dedupPairs weighted) :=
    ((List.subperm_cons _).2 hpicks.subperm).trans hperm.subperm
  obtain ⟨hdistinct, hpairs⟩ := distinct_and_apart hids hsub
  rw [heq]
  refine ⟨hlength, hdistinct, fun r hr => hsub.subset hr, hpairs, ?_, hleft, ?_, ?_⟩
  · intro r hr
    cases hr
    exact score_le_of_survivorsOf dedupPairs hsorted hseed
  · exact fun x hx hgone => exists_of_notMem_survivorsOf dedupPairs hsorted hx hgone
  · intro front c rest hsplit hfront d hd hnew
    cases front with
    | nil => exact absurd rfl hfront
    | cons first front =>
        cases hsplit
        have hd' : d ∈ candidates := by
          rcases List.mem_cons.1 (hperm.mem_iff.2 hd) with rfl | hmem
          · exact absurd List.mem_cons_self hnew
          · exact hmem
        exact hpicks.largest rfl hd' fun hmem => hnew (List.mem_cons_of_mem _ hmem)

include hids hscores hsorted in
/-- What the last two stages return of the weighted candidates. -/
theorem fusedWell_of_stages (h₀ : 0 ≤ mmrLambda) (h₁ : mmrLambda ≤ 1) (htopK : 1 ≤ topK) :
    FusedWell mmrLambda dedupPairs topK weighted (survivorsOf dedupPairs weighted)
      (sliceTo topK (mmrStage { mmrLambda := mmrLambda } (survivorsOf dedupPairs weighted) topK)) := by
  unfold mmrStage
  dsimp only
  by_cases hmany : 1 < (survivorsOf dedupPairs weighted).length
  · have hwell := fusedWell_of_many hids hscores hsorted hmany h₀ h₁ htopK
    rw [if_pos (by simpa using hmany), sliceTo_of_length_le (hwell.size.trans_le (min_le_left _ _))]
    exact hwell
  · rw [if_neg (by simpa using hmany), sliceTo_of_length_le (by omega)]
    exact fusedWell_of_few hids hsorted (Nat.not_lt.1 hmany) htopK

end Together

theorem weighedBy_score_nonneg {r : SearchResult} (hr : 0 ≤ r.score)
    (hweights : ∀ kb weight, sourceWeights.get? kb = some weight → 0 ≤ weight) :
    0 ≤ (weighedBy sourceWeights r).score := by
  apply mul_nonneg hr
  cases hget : sourceWeights.get? (r.sourceKbId.getD "") with
  | none => exact zero_le_one
  | some weight => exact hweights _ weight hget

theorem stages_nil :
    sliceTo topK (mmrStage { mmrLambda := mmrLambda } (survivorsOf dedupPairs []) topK) = [] := by
  have hstage : mmrStage { mmrLambda := mmrLambda } (survivorsOf dedupPairs []) topK = [] := rfl
  rw [hstage]
  unfold sliceTo
  split <;> exact List.take_nil

/-- All stages are on, and the scores are those of a ranking. -/
theorem fuseResults_wellFused (results : List SearchResult) (sourceWeights : Dict String ℚ)
    (dedupPairs : List (Nat × Nat)) (mmrLambda : ℚ) (topK : Int)
    (hids : (results.map SearchResult.chunkId).Nodup) (hscores : ∀ r ∈ results, 0 ≤ r.score)
    (hsorted : results.Pairwise (fun a b => b.score ≤ a.score) ∨ sourceWeights.entries ≠ [])
    (hweights : ∀ kb weight, sourceWeights.get? kb = some weight → 0 ≤ weight)
    (h₀ : 0 ≤ mmrLambda) (h₁ : mmrLambda ≤ 1) (htopK : 1 ≤ topK) :
    let config : FusionConfig := { mmrLambda := mmrLambda }
    let weighted := sourceStage config results sourceWeights
    weighted.Perm (results.map (weighedBy sourceWeights)) ∧
      FusedWell mmrLambda dedupPairs topK weighted (dedupStage config weighted dedupPairs)
        (fuseResults config results sourceWeights dedupPairs topK) := by
  intro config weighted
  have hperm : weighted.Perm (results.map (weighedBy sourceWeights)) := sourceStage_perm config rfl
  have hsame : results.map SearchResult.chunkId =
      (results.map (weighedBy sourceWeights)).map SearchResult.chunkId := by
    rw [List.map_map]
    rfl
  have hids' : (weighted.map SearchResult.chunkId).Nodup := by
    rw [(hperm.map _).nodup_iff, ← hsame]
    exact hids
  have hscores' : ∀ r ∈ weighted, 0 ≤ r.score := by
    intro r hr
    obtain ⟨x, hx, rfl⟩ := List.mem_map.1 (hperm.mem_iff.1 hr)
    exact weighedBy_score_nonneg (hscores x hx) hweights
  have hdistinct : dedupStage config weighted dedupPairs = survivorsOf dedupPairs weighted :=
    dedupStage_eq config rfl weighted
  have hwell : FusedWell mmrLambda dedupPairs topK weighted (survivorsOf dedupPairs weighted)
      (sliceTo topK (mmrStage config (survivorsOf dedupPairs weighted) topK)) :=
    fusedWell_of_stages hids' hscores' (sourceStage_sorted config rfl hsorted) h₀ h₁ htopK
  refine ⟨hperm, ?_⟩
  rw [hdistinct]
  have hout : fuseResults config results sourceWeights dedupPairs topK =
      sliceTo topK (mmrStage config (survivorsOf dedupPairs weighted) topK) := by
    unfold fuseResults
    split
    · next hnil =>
        rw [List.isEmpty_iff.1 hnil, List.map_nil] at hperm
        rw [hperm.eq_nil]
        exact stages_nil.symm
    · rw [← hdistinct]
  rw [hout]
  exact hwell

end Stages

/-- Two redundant chunks, one that is close to them and one that is not. -/
def fourHits : List SearchResult :=
  let hit (chunkId : Nat) (content : String) (score : ℚ) (kb : String) : SearchResult :=
    { chunkId := chunkId, content := content, score := score, documentId := chunkId, folderId := ""
      level := 0, title := "", metadata := Dict.empty, sourceKbId := some kb }
  [hit 1 "reset the router" (1 / 2) "a", hit 2 "reset the router" (1 / 3) "b",
    hit 3 "replace a fan" (1 / 4) "b", hit 4 "reset the switch" (4 / 15) "b"]

def healthOfB : Dict String ℚ := Dict.ofList [("b", 3 / 2)]

theorem fuseResults_wellFused_fourHits :
    let config : FusionConfig := { mmrLambda := 7 / 10 }
    let weighted := sourceStage config fourHits healthOfB
    weighted.Perm (fourHits.map (weighedBy healthOfB)) ∧
      FusedWell (7 / 10) [(1, 2)] 2 weighted (dedupStage config weighted [(1, 2)])
        (fuseResults config fourHits healthOfB [(1, 2)] 2) ∧
      (fuseResults config fourHits healthOfB [(1, 2)] 2).map SearchResult.chunkId = [1, 3] := by
  intro config weighted
  have hscores : ∀ r ∈ fourHits, 0 ≤ r.score := by
    intro r hr
    simp only [fourHits, List.mem_cons, List.not_mem_nil, or_false] at hr
    rcases hr with rfl | rfl | rfl | rfl <;> norm_num
  have hweights : ∀ kb weight, healthOfB.get? kb = some weight → 0 ≤ weight := by
    intro kb weight hget
    have hmem : (kb, weight) ∈ [("b", (3 / 2 : ℚ))] := Dict.get?_eq_some_iff.1 hget
    have hweight : weight = 3 / 2 := congrArg Prod.snd (List.mem_singleton.1 hmem)
    rw [hweight]
    norm_num
  obtain ⟨hperm, hwell⟩ := fuseResults_wellFused fourHits healthOfB [(1, 2)] (7 / 10) 2 (by decide) hscores
    (.inr (by decide)) hweights (by norm_num) (by norm_num) (by decide)
  exact ⟨hperm, hwell, by decide +kernel⟩

end OpsKnowledge.Retrieval
