import Mathlib.Data.String.Basic
import OpsKnowledge.Lib.OrderBy
import OpsKnowledge.Lib.Table
import OpsKnowledge.Retrieval.Reranker

/-!
# What a rerank leaves of its candidates

`rerank_results` writes scores to the candidates while it reads the provider's answer, and its
handler returns the same objects. Here the objects are positions of the candidate list, and a
score of the answer may be a value that cannot be sorted.
-/

namespace OpsKnowledge.Retrieval

open OpsKnowledge.Lib

/-- `<` compares numbers with numbers and strings with strings. Lists, which it orders by the first items that
differ, are left out: whether a sort of lists raises depends on the pairs that it compares. -/
inductive RelevanceScore where
  | number (value : ℚ)
  | text (value : String)
  /-- `None`, or an object. -/
  | unordered
  deriving DecidableEq

namespace RelevanceScore

def number? : RelevanceScore → Option ℚ
  | number value => some value
  | _ => none

def text? : RelevanceScore → Option String
  | text value => some value
  | _ => none

def AtLeast : RelevanceScore → RelevanceScore → Prop
  | number a, number b => b ≤ a
  | text a, text b => b ≤ a
  | _, _ => False

end RelevanceScore

/-- An item of the answer. An index that is no integer is as good as none. -/
structure RankedObject where
  index : Option Int
  relevanceScore : Option RelevanceScore

/-- A candidate, and what has been written to its `score` and its `rerank_score`. -/
structure Candidate where
  result : SearchResult
  written : Option RelevanceScore := none

def Candidate.score (c : Candidate) : RelevanceScore := c.written.getD (.number c.result.score)

/-- The candidate and the score that an item names. -/
def readItem (n : Nat) (item : RankedObject) : Option (Nat × RelevanceScore) :=
  (item.index.bind (pyIndex n)).bind fun i => item.relevanceScore.map fun score => (i, score)

def rerankItem (st : List Candidate × List Nat) (item : RankedObject) :
    Except (List Candidate) (List Candidate × List Nat) :=
  match readItem st.1.length item with
  | some (i, score) => .ok (st.1.modify i fun c => { c with written := some score }, st.2 ++ [i])
  | none => .error st.1

def scoreAt (candidates : List Candidate) (i : Nat) : RelevanceScore :=
  candidates[i]?.elim .unordered Candidate.score

/-- `reranked.sort(key=lambda r: r.score, reverse=True)`, where no comparison raises. -/
def sortReranked (score : Nat → RelevanceScore) (order : List Nat) : Option (List Nat) :=
  if order.length ≤ 1 then some order
  else if ∀ i ∈ order, (score i).number?.isSome then
    some (orderByDesc (fun i => (score i).number?.getD 0) order)
  else if ∀ i ∈ order, (score i).text?.isSome then
    some (orderByDesc (fun i => (score i).text?.getD "") order)
  else none

/-- How a call ends: the candidates that it returns, by their positions, and what it left of all. -/
structure Reranked where
  failed : Bool
  returned : List Nat
  candidates : List Candidate

/-- The handler: `results`, as they are by then. -/
def rerankFailed (candidates : List Candidate) : Reranked :=
  { failed := true, returned := List.range candidates.length, candidates := candidates }

def rerankObjects (ranked : Option (List RankedObject)) (results : List SearchResult) : Reranked :=
  let candidates : List Candidate := results.map fun r => { result := r }
  if results.isEmpty then { failed := false, returned := [], candidates := candidates }
  else match ranked with
    | none => rerankFailed candidates
    | some items =>
        match items.foldlM rerankItem (candidates, []) with
        | .error written => rerankFailed written
        | .ok (written, order) =>
            match sortReranked (scoreAt written) order with
            | none => rerankFailed written
            | some order => { failed := false, returned := order, candidates := written }

/-! ## The law -/

def Candidate.Unchanged (c : Candidate) : Prop :=
  ∀ score, c.written = some score → score = .number c.result.score ∧
    c.result.rerankScore = some c.result.score

/-- Some of the candidates, each once, from the highest rerank score down. -/
structure Reranked.Ranks (out : Reranked) (results : List SearchResult) : Prop where
  same : out.candidates.map Candidate.result = results
  nodup : out.returned.Nodup
  scored : ∀ i ∈ out.returned, ∃ c, out.candidates[i]? = some c ∧ c.written.isSome
  ordered : out.returned.Pairwise fun i j =>
    (scoreAt out.candidates i).AtLeast (scoreAt out.candidates j)

/-- The candidates as they came. -/
structure Reranked.FallsBack (out : Reranked) (results : List SearchResult) : Prop where
  same : out.candidates.map Candidate.result = results
  returned : out.returned = List.range results.length
  unchanged : ∀ c ∈ out.candidates, c.Unchanged

def Reranked.Lawful (out : Reranked) (results : List SearchResult) : Prop :=
  if out.failed then out.FallsBack results else out.Ranks results

/-! ## The condition -/

/-- What the items say, up to the first that cannot be read. -/
def readItems (n : Nat) : List RankedObject → List (Nat × RelevanceScore)
  | [] => []
  | item :: items =>
      match readItem n item with
      | none => []
      | some write => write :: readItems n items

/-- The last score that an answer has for a candidate. -/
def lastScore (writes : List (Nat × RelevanceScore)) (i : Nat) : Option RelevanceScore :=
  (writes.filter fun w => w.1 = i).getLast?.map Prod.snd

def Sortable (writes : List (Nat × RelevanceScore)) : Prop :=
  writes.length ≤ 1 ∨ (∀ w ∈ writes, ∃ q, lastScore writes w.1 = some (.number q)) ∨
    ∀ w ∈ writes, ∃ s, lastScore writes w.1 = some (.text s)

/-- Every item can be read, and what they say can be sorted. -/
def Usable (n : Nat) (items : List RankedObject) : Prop :=
  (∀ item ∈ items, (readItem n item).isSome) ∧ Sortable (readItems n items)

/-- A usable answer names no candidate twice; one that is not usable says nothing new before it
fails. -/
structure Harmless (results : List SearchResult) (items : List RankedObject) : Prop where
  apart : Usable results.length items → ((readItems results.length items).map Prod.fst).Nodup
  kept : ¬ Usable results.length items → ∀ i r score, results[i]? = some r →
    lastScore (readItems results.length items) i = some score →
      score = .number r.score ∧ r.rerankScore = some r.score

/-! ## Writes -/

section Writes

variable {n : Nat} {items : List RankedObject} {candidates : List Candidate}
  {writes : List (Nat × RelevanceScore)}

def writeScore (candidates : List Candidate) (w : Nat × RelevanceScore) : List Candidate :=
  candidates.modify w.1 fun c => { c with written := some w.2 }

def writeScores (candidates : List Candidate) (writes : List (Nat × RelevanceScore)) : List Candidate :=
  writes.foldl writeScore candidates

theorem length_writeScores : (writeScores candidates writes).length = candidates.length := by
  unfold writeScores
  induction writes generalizing candidates with
  | nil => rfl
  | cons w writes ih =>
      rw [List.foldl_cons, ih]
      exact List.length_modify ..

theorem map_result_writeScores :
    (writeScores candidates writes).map Candidate.result = candidates.map Candidate.result := by
  unfold writeScores
  induction writes generalizing candidates with
  | nil => rfl
  | cons w writes ih =>
      rw [List.foldl_cons, ih]
      apply List.ext_getElem?
      intro i
      unfold writeScore
      rw [List.getElem?_map, List.getElem?_map, List.getElem?_modify, Option.map_eq_map, Option.map_map]
      congr 1
      funext c
      by_cases h : w.1 = i
      · simp [h]
      · simp [h]

theorem lastScore_concat (w : Nat × RelevanceScore) (i : Nat) :
    lastScore (writes ++ [w]) i = if w.1 = i then some w.2 else lastScore writes i := by
  unfold lastScore
  rw [List.filter_append]
  split
  · next h => simp [h]
  · next h => simp [h]

theorem lastScore_of_mem {w : Nat × RelevanceScore} (hw : w ∈ writes) :
    ∃ score, lastScore writes w.1 = some score := by
  have hmem : w ∈ writes.filter fun v => v.1 = w.1 := List.mem_filter.2 ⟨hw, decide_eq_true rfl⟩
  have hne := List.ne_nil_of_mem hmem
  exact ⟨_, by rw [lastScore, List.getLast?_eq_some_getLast hne]; rfl⟩

/-- The last write to an object is what it has. -/
theorem getElem?_writeScores (i : Nat) : (writeScores candidates writes)[i]? =
    candidates[i]?.map fun c => { c with written := (lastScore writes i).orElse fun _ => c.written } := by
  induction writes using List.reverseRecOn with
  | nil =>
      show candidates[i]? = _
      simp [lastScore]
  | append_singleton writes w ih =>
      have hlast : writeScores candidates (writes ++ [w]) = writeScore (writeScores candidates writes) w :=
        List.foldl_concat ..
      rw [hlast, writeScore, List.getElem?_modify, ih, Option.map_eq_map, Option.map_map, lastScore_concat]
      congr 1
      funext c
      by_cases h : w.1 = i
      · simp [h]
      · simp [h]

/-- What the loop writes before an item fails, and where it goes when none does. -/
theorem foldlM_rerankItem (order : List Nat) (hlen : candidates.length = n) :
    items.foldlM rerankItem (candidates, order) =
      if ∀ item ∈ items, (readItem n item).isSome then
        .ok (writeScores candidates (readItems n items), order ++ (readItems n items).map Prod.fst)
      else .error (writeScores candidates (readItems n items)) := by
  induction items generalizing candidates order with
  | nil => simp [readItems, writeScores, pure, Except.pure]
  | cons item items ih =>
      rw [List.foldlM_cons]
      cases hread : readItem n item with
      | none =>
          have hstep : rerankItem (candidates, order) item = .error candidates := by
            simp [rerankItem, hlen, hread]
          rw [hstep, if_neg]
          · simp [readItems, hread, writeScores, bind, Except.bind]
          · intro hall
            have hsome := hall item List.mem_cons_self
            rw [hread] at hsome
            cases hsome
      | some w =>
          have hstep : rerankItem (candidates, order) item =
              .ok (writeScore candidates w, order ++ [w.1]) := by
            simp [rerankItem, hlen, hread, writeScore]
          have hlen' : (writeScore candidates w).length = n := (List.length_modify ..).trans hlen
          rw [hstep]
          show items.foldlM rerankItem (writeScore candidates w, order ++ [w.1]) = _
          rw [ih (order ++ [w.1]) hlen']
          simp only [List.forall_mem_cons, hread, Option.isSome_some, true_and, readItems,
            List.map_cons, List.append_assoc, List.singleton_append]
          rfl

theorem fst_lt_of_mem_readItems {w : Nat × RelevanceScore} (hw : w ∈ readItems n items) : w.1 < n := by
  induction items with
  | nil => cases hw
  | cons item items ih =>
      unfold readItems at hw
      split at hw
      · cases hw
      · next write hread =>
          rcases List.mem_cons.1 hw with rfl | hw
          · obtain ⟨i, hi, hscore⟩ := Option.bind_eq_some_iff.1 hread
            obtain ⟨score, -, rfl⟩ := Option.map_eq_some_iff.1 hscore
            obtain ⟨idx, -, hidx⟩ := Option.bind_eq_some_iff.1 hi
            exact pyIndex_lt hidx
          · exact ih hw

end Writes

/-! ## The sort -/

section Sorting

variable {score : Nat → RelevanceScore} {order : List Nat}

theorem AtLeast.of_number {a b : RelevanceScore} (ha : a.number?.isSome) (hb : b.number?.isSome)
    (h : b.number?.getD 0 ≤ a.number?.getD 0) : a.AtLeast b := by
  cases a <;> cases b <;> simp_all [RelevanceScore.number?, RelevanceScore.AtLeast]

theorem AtLeast.of_text {a b : RelevanceScore} (ha : a.text?.isSome) (hb : b.text?.isSome)
    (h : b.text?.getD "" ≤ a.text?.getD "") : a.AtLeast b := by
  cases a <;> cases b <;> simp_all [RelevanceScore.text?, RelevanceScore.AtLeast]

theorem pairwise_of_forall_mem {r r' : Nat → Nat → Prop} {xs : List Nat} (h : xs.Pairwise r)
    (himp : ∀ i ∈ xs, ∀ j ∈ xs, r i j → r' i j) : xs.Pairwise r' :=
  h.imp_of_mem fun hi hj hr => himp _ hi _ hj hr

theorem sortReranked_eq_some {sorted : List Nat} (h : sortReranked score order = some sorted) :
    sorted.Perm order ∧ sorted.Pairwise fun i j => (score i).AtLeast (score j) := by
  unfold sortReranked at h
  split at h
  · next hshort =>
      cases h
      refine ⟨List.Perm.refl _, ?_⟩
      match order, hshort with
      | [], _ => exact List.Pairwise.nil
      | [i], _ => exact List.pairwise_singleton ..
  · split at h
    · next hnumbers =>
        cases h
        have hperm := orderByDesc_perm (fun i => (score i).number?.getD 0) order
        refine ⟨hperm, pairwise_of_forall_mem (orderByDesc_pairwise _ _) ?_⟩
        intro i hi j hj hle
        exact AtLeast.of_number (hnumbers i (hperm.mem_iff.1 hi)) (hnumbers j (hperm.mem_iff.1 hj)) hle
    · split at h
      · next htexts =>
          cases h
          have hperm := orderByDesc_perm (fun i => (score i).text?.getD "") order
          refine ⟨hperm, pairwise_of_forall_mem (orderByDesc_pairwise _ _) ?_⟩
          intro i hi j hj hle
          exact AtLeast.of_text (htexts i (hperm.mem_iff.1 hi)) (htexts j (hperm.mem_iff.1 hj)) hle
      · cases h

theorem sortReranked_isSome_iff : (sortReranked score order).isSome ↔ order.length ≤ 1 ∨
    (∀ i ∈ order, (score i).number?.isSome) ∨ ∀ i ∈ order, (score i).text?.isSome := by
  unfold sortReranked
  split
  · next h => simp [h]
  · next h =>
      split
      · next hnumbers => exact iff_of_true rfl (Or.inr (Or.inl hnumbers))
      · next hnumbers =>
          split
          · next htexts => exact iff_of_true rfl (Or.inr (Or.inr htexts))
          · next htexts =>
              refine iff_of_false Bool.false_ne_true ?_
              rintro (hshort | hall | hall)
              · exact h hshort
              · exact hnumbers hall
              · exact htexts hall

end Sorting

/-! ## A call -/

section Call

variable {results : List SearchResult} {items : List RankedObject}

/-- The candidates as they come from retrieval. -/
def fresh (results : List SearchResult) : List Candidate := results.map fun r => { result := r }

theorem map_result_fresh : (fresh results).map Candidate.result = results := by
  simp [fresh, Function.comp_def]

theorem scoreAt_writeScores {writes : List (Nat × RelevanceScore)} {w : Nat × RelevanceScore}
    (hw : w ∈ writes) (hlt : w.1 < results.length) :
    some (scoreAt (writeScores (fresh results) writes) w.1) = lastScore writes w.1 := by
  obtain ⟨score, hscore⟩ := lastScore_of_mem hw
  unfold scoreAt
  rw [getElem?_writeScores, hscore]
  simp [fresh, hlt, Candidate.score]

theorem sortReranked_isSome_iff_sortable :
    (sortReranked (scoreAt (writeScores (fresh results) (readItems results.length items)))
      ((readItems results.length items).map Prod.fst)).isSome ↔
        Sortable (readItems results.length items) := by
  have hscore : ∀ w ∈ readItems results.length items,
      some (scoreAt (writeScores (fresh results) (readItems results.length items)) w.1) =
        lastScore (readItems results.length items) w.1 :=
    fun w hw => scoreAt_writeScores hw (fst_lt_of_mem_readItems hw)
  have hnumber : ∀ a : RelevanceScore, a.number?.isSome ↔ ∃ q, some a = some (.number q) := by
    intro a
    cases a <;> simp [RelevanceScore.number?]
  have htext : ∀ a : RelevanceScore, a.text?.isSome ↔ ∃ s, some a = some (.text s) := by
    intro a
    cases a <;> simp [RelevanceScore.text?]
  rw [sortReranked_isSome_iff, Sortable, List.length_map, List.forall_mem_map, List.forall_mem_map]
  refine or_congr Iff.rfl (or_congr ?_ ?_)
  · refine forall₂_congr fun w hw => ?_
    rw [hnumber, hscore w hw]
  · refine forall₂_congr fun w hw => ?_
    rw [htext, hscore w hw]

theorem length_fresh : (fresh results).length = results.length := List.length_map ..

theorem rerankObjects_of_usable (hne : results ≠ []) (h : Usable results.length items) :
    ∃ sorted, rerankObjects (some items) results =
        { failed := false
          returned := sorted
          candidates := writeScores (fresh results) (readItems results.length items) } ∧
      sorted.Perm ((readItems results.length items).map Prod.fst) ∧
      sorted.Pairwise fun i j =>
        (scoreAt (writeScores (fresh results) (readItems results.length items)) i).AtLeast
          (scoreAt (writeScores (fresh results) (readItems results.length items)) j) := by
  obtain ⟨hread, hsortable⟩ := h
  have hloop := @foldlM_rerankItem _ items _ [] (@length_fresh results)
  rw [if_pos hread, List.nil_append] at hloop
  obtain ⟨sorted, hsorted⟩ := Option.isSome_iff_exists.1 (sortReranked_isSome_iff_sortable.2 hsortable)
  refine ⟨sorted, ?_, sortReranked_eq_some hsorted⟩
  unfold fresh at hloop hsorted
  simp only [rerankObjects, List.isEmpty_iff, hne, if_false, hloop, hsorted]
  rfl

theorem rerankObjects_of_not_usable (hne : results ≠ []) (h : ¬ Usable results.length items) :
    rerankObjects (some items) results =
      rerankFailed (writeScores (fresh results) (readItems results.length items)) := by
  have hloop := @foldlM_rerankItem _ items _ [] (@length_fresh results)
  by_cases hread : ∀ item ∈ items, (readItem results.length item).isSome
  · have hsort := mt sortReranked_isSome_iff_sortable.1 fun hsortable => h ⟨hread, hsortable⟩
    rw [Bool.not_eq_true, Option.isSome_eq_false_iff, Option.isNone_iff_eq_none] at hsort
    rw [if_pos hread, List.nil_append] at hloop
    unfold fresh at hloop hsort
    simp only [rerankObjects, List.isEmpty_iff, hne, if_false, hloop, hsort]
    rfl
  · rw [if_neg hread] at hloop
    unfold fresh at hloop
    simp only [rerankObjects, List.isEmpty_iff, hne, if_false, hloop]
    rfl

/-- Scores that have been written to no object but say what it said already. -/
theorem unchanged_iff : (∀ c ∈ writeScores (fresh results) (readItems results.length items), c.Unchanged) ↔
    ∀ i r score, results[i]? = some r → lastScore (readItems results.length items) i = some score →
      score = .number r.score ∧ r.rerankScore = some r.score := by
  have hat : ∀ i, (writeScores (fresh results) (readItems results.length items))[i]? =
      results[i]?.map fun r =>
        ({ result := r, written := lastScore (readItems results.length items) i } : Candidate) := by
    intro i
    rw [getElem?_writeScores]
    unfold fresh
    rw [List.getElem?_map, Option.map_map]
    congr 1
    funext r
    simp
  constructor
  · intro h i r score hr hscore
    have hc := hat i
    rw [hr, Option.map_some] at hc
    exact h _ (List.mem_of_getElem? hc) score hscore
  · intro h c hc score hscore
    obtain ⟨i, hi⟩ := List.mem_iff_getElem?.1 hc
    rw [hat i] at hi
    obtain ⟨r, hr, rfl⟩ := Option.map_eq_some_iff.1 hi
    exact h i r score hr hscore

theorem ranks_of_perm {sorted : List Nat} {out : Reranked}
    (hperm : sorted.Perm ((readItems results.length items).map Prod.fst))
    (hordered : sorted.Pairwise fun i j =>
      (scoreAt (writeScores (fresh results) (readItems results.length items)) i).AtLeast
        (scoreAt (writeScores (fresh results) (readItems results.length items)) j))
    (hout : out = {
      failed := false
      returned := sorted
      candidates := writeScores (fresh results) (readItems results.length items) }) :
    out.Ranks results ↔ ((readItems results.length items).map Prod.fst).Nodup := by
  subst hout
  constructor
  · intro h
    exact hperm.nodup_iff.1 h.nodup
  · intro h
    refine ⟨map_result_writeScores.trans map_result_fresh, hperm.nodup_iff.2 h, ?_, hordered⟩
    intro i hi
    obtain ⟨w, hw, rfl⟩ := List.mem_map.1 (hperm.mem_iff.1 hi)
    obtain ⟨score, hscore⟩ := lastScore_of_mem hw
    have hlt := fst_lt_of_mem_readItems hw
    refine ⟨{ result := results[w.1], written := some score }, ?_, rfl⟩
    show (writeScores (fresh results) (readItems results.length items))[w.1]? = _
    rw [getElem?_writeScores, hscore]
    simp [fresh, hlt]

theorem rerankObjects_none (hne : results ≠ []) :
    rerankObjects none results = rerankFailed (fresh results) := by
  simp only [rerankObjects, List.isEmpty_iff, hne, if_false]
  rfl

/-- Whatever the provider answers: the call ranks or falls back as it should exactly when the answer is
harmless, and so it does when the provider fails. -/
theorem lawful_rerankObjects_iff {ranked : Option (List RankedObject)} :
    (rerankObjects ranked results).Lawful results ↔
      ∀ items, ranked = some items → Harmless results items := by
  by_cases hne : results = []
  · subst hne
    have hread : ∀ items, readItems 0 items = [] := by
      intro items
      apply List.eq_nil_iff_forall_not_mem.2
      intro w hw
      exact absurd (fst_lt_of_mem_readItems hw) (Nat.not_lt_zero _)
    refine iff_of_true ⟨rfl, List.nodup_nil, (fun i hi => nomatch hi), List.Pairwise.nil⟩ ?_
    intro items _
    refine ⟨fun _ => ?_, fun _ i r score hr => nomatch hr⟩
    rw [List.length_nil, hread]
    exact List.nodup_nil
  · cases ranked with
    | none =>
        rw [rerankObjects_none hne]
        have hback : (rerankFailed (fresh results)).FallsBack results := by
          refine ⟨map_result_fresh, congrArg List.range length_fresh, ?_⟩
          intro c hc score hscore
          obtain ⟨r, -, rfl⟩ := List.mem_map.1 hc
          cases hscore
        exact iff_of_true hback fun items hitems => nomatch hitems
    | some items =>
        have hone : (∀ items', some items = some items' → Harmless results items') ↔
            Harmless results items :=
          ⟨fun h => h items rfl, fun h items' hitems => Option.some.inj hitems ▸ h⟩
        rw [hone]
        by_cases h : Usable results.length items
        · obtain ⟨sorted, hout, hperm, hordered⟩ := rerankObjects_of_usable hne h
          rw [hout]
          refine (ranks_of_perm hperm hordered rfl).trans ?_
          exact ⟨fun hnodup => ⟨fun _ => hnodup, fun hnot => absurd h hnot⟩, fun hall => hall.apart h⟩
        · rw [rerankObjects_of_not_usable hne h]
          constructor
          · intro (hlaw : Reranked.FallsBack _ _)
            exact ⟨fun husable => absurd husable h, fun _ => unchanged_iff.1 hlaw.unchanged⟩
          · intro hall
            show Reranked.FallsBack _ _
            refine ⟨map_result_writeScores.trans map_result_fresh, ?_, unchanged_iff.2 (hall.kept h)⟩
            exact congrArg List.range (length_writeScores.trans length_fresh)

end Call

/-! ## Answers of numbers -/

section Numbers

def RankedItem.toObject (item : RankedItem) : RankedObject :=
  { index := item.index, relevanceScore := item.relevanceScore.map .number }

/-- The result with the numbers that have been written to it. -/
def Candidate.current (c : Candidate) : SearchResult :=
  match c.written with
  | some (.number q) => { c.result with rerankScore := some q, score := q }
  | _ => c.result

def Reranked.results (out : Reranked) : List SearchResult :=
  out.returned.filterMap fun i => out.candidates[i]?.map Candidate.current

/-- Nothing but numbers has been written. -/
def Numeric (candidates : List Candidate) : Prop :=
  ∀ c ∈ candidates, ∀ score, c.written = some score → ∃ q, score = .number q

variable {candidates : List Candidate} {order : List Nat} {results : List SearchResult}

theorem map_current_modify (i : Nat) (q : ℚ) :
    (candidates.modify i fun c => { c with written := some (.number q) }).map Candidate.current =
      (candidates.map Candidate.current).modify i fun r => { r with rerankScore := some q, score := q } := by
  apply List.ext_getElem?
  intro j
  rw [List.getElem?_map, List.getElem?_modify, List.getElem?_modify, List.getElem?_map]
  simp only [Option.map_eq_map, Option.map_map]
  congr 1
  funext c
  by_cases h : i = j
  · rcases c with ⟨r, _ | _ | _ | _⟩ <;> simp [h, Candidate.current]
  · simp [h]

theorem numeric_modify (h : Numeric candidates) (i : Nat) (q : ℚ) :
    Numeric (candidates.modify i fun c => { c with written := some (.number q) }) := by
  intro c hc score hscore
  obtain ⟨j, hj⟩ := List.mem_iff_getElem?.1 hc
  rw [List.getElem?_modify] at hj
  obtain ⟨c', hc', rfl⟩ := Option.map_eq_some_iff.1 hj
  split at hscore
  · cases hscore
    exact ⟨q, rfl⟩
  · exact h c' (List.mem_of_getElem? hc') score hscore

/-- The step over results and the step over objects. -/
theorem foldlM_toObject (items : List RankedItem) (hnumeric : Numeric candidates)
    (horder : ∀ i ∈ order, i < candidates.length) :
    match (items.map RankedItem.toObject).foldlM rerankItem (candidates, order) with
    | .error written =>
        items.foldlM rerankStep (candidates.map Candidate.current, order) =
          .error (written.map Candidate.current)
    | .ok (written, order') =>
        items.foldlM rerankStep (candidates.map Candidate.current, order) =
          .ok (written.map Candidate.current, order') ∧
        Numeric written ∧ ∀ i ∈ order', i < written.length := by
  induction items generalizing candidates order with
  | nil => exact ⟨rfl, hnumeric, horder⟩
  | cons item items ih =>
      rw [List.map_cons, List.foldlM_cons, List.foldlM_cons]
      cases hindex : item.index.bind (pyIndex candidates.length) with
      | none =>
          have hread : readItem candidates.length item.toObject = none := by
            simp [readItem, RankedItem.toObject, hindex]
          simp only [rerankItem, hread, rerankStep, List.length_map, hindex, bind, Except.bind]
      | some i =>
          cases hscore : item.relevanceScore with
          | none =>
              have hread : readItem candidates.length item.toObject = none := by
                simp [readItem, RankedItem.toObject, hindex, hscore]
              simp only [rerankItem, hread, rerankStep, List.length_map, hindex, hscore, bind, Except.bind]
          | some q =>
              have hread : readItem candidates.length item.toObject = some (i, .number q) := by
                simp [readItem, RankedItem.toObject, hindex, hscore]
              obtain ⟨idx, -, hidx⟩ := Option.bind_eq_some_iff.1 hindex
              have hbound : ∀ j ∈ order ++ [i], j <
                  (candidates.modify i fun c => { c with written := some (.number q) }).length := by
                intro j hj
                rw [List.length_modify]
                rcases mem_concat.1 hj with hj | rfl
                · exact horder j hj
                · exact pyIndex_lt hidx
              have hrest := ih (numeric_modify hnumeric i q) hbound
              rw [map_current_modify] at hrest
              simp only [rerankItem, hread, rerankStep, List.length_map, hindex, hscore, bind, Except.bind]
              exact hrest

theorem sortReranked_numeric (hnumeric : Numeric candidates) (horder : ∀ i ∈ order, i < candidates.length) :
    ∃ sorted, sortReranked (scoreAt candidates) order = some sorted ∧
      orderByDesc SearchResult.score (order.filterMap fun i => (candidates.map Candidate.current)[i]?) =
        sorted.filterMap fun i => candidates[i]?.map Candidate.current := by
  have hnumber : ∀ i ∈ order, ∃ r, (candidates.map Candidate.current)[i]? = some r ∧
      scoreAt candidates i = .number r.score := by
    intro i hi
    obtain ⟨c, hc⟩ : ∃ c, candidates[i]? = some c := ⟨_, List.getElem?_eq_getElem (horder i hi)⟩
    refine ⟨c.current, by rw [List.getElem?_map, hc]; rfl, ?_⟩
    unfold scoreAt
    rw [hc]
    show c.score = _
    cases hwritten : c.written with
    | none => simp [Candidate.score, Candidate.current, hwritten]
    | some score =>
        obtain ⟨q, rfl⟩ := hnumeric c (List.mem_of_getElem? hc) score hwritten
        simp [Candidate.score, Candidate.current, hwritten]
  have hsorted : orderByDesc SearchResult.score
      (order.filterMap fun i => (candidates.map Candidate.current)[i]?) =
        (orderByDesc (fun i => (scoreAt candidates i).number?.getD 0) order).filterMap
          fun i => (candidates.map Candidate.current)[i]? := by
    apply orderByDesc_filterMap
    intro i hi
    obtain ⟨r, hr, hscore⟩ := hnumber i hi
    exact ⟨r, hr, by rw [hscore]; rfl⟩
  have hall : ∀ i ∈ order, (scoreAt candidates i).number?.isSome := by
    intro i hi
    obtain ⟨r, -, hscore⟩ := hnumber i hi
    rw [hscore]
    rfl
  simp only [List.getElem?_map] at hsorted ⊢
  by_cases hshort : order.length ≤ 1
  · refine ⟨order, by simp [sortReranked, hshort], hsorted.trans ?_⟩
    rw [orderByDesc_eq_self]
    match order, hshort with
    | [], _ => exact List.Pairwise.nil
    | [i], _ => exact List.pairwise_singleton ..
  · exact ⟨_, by rw [sortReranked, if_neg hshort, if_pos hall], hsorted⟩

theorem range_filterMap_getElem? {α : Type*} (xs : List α) :
    (List.range xs.length).filterMap (fun i => xs[i]?) = xs := by
  induction xs using List.reverseRecOn with
  | nil => rfl
  | append_singleton xs x ih =>
      rw [List.length_append, List.length_singleton, List.range_succ, List.filterMap_append]
      have hold : (List.range xs.length).filterMap (fun i => (xs ++ [x])[i]?) = xs := by
        conv_rhs => rw [← ih]
        apply List.filterMap_congr
        intro i hi
        exact List.getElem?_append_left (List.mem_range.1 hi)
      rw [hold]
      simp

theorem results_rerankFailed (candidates : List Candidate) :
    (rerankFailed candidates).results = candidates.map Candidate.current := by
  have hrange := range_filterMap_getElem? (candidates.map Candidate.current)
  rw [List.length_map] at hrange
  simp only [List.getElem?_map] at hrange
  exact hrange

theorem map_current_fresh (results : List SearchResult) :
    (fresh results).map Candidate.current = results := by
  simp [fresh, Candidate.current, Function.comp_def]

theorem numeric_fresh (results : List SearchResult) : Numeric (fresh results) := by
  intro c hc score hscore
  obtain ⟨r, -, rfl⟩ := List.mem_map.1 hc
  cases hscore

/-- Every item names a candidate that is not there. -/
theorem rerankResults_nil (ranked : Option (List RankedItem)) : rerankResults ranked [] = [] := by
  cases ranked with
  | none => rfl
  | some items =>
      cases items with
      | nil => rfl
      | cons item items =>
          have hstep : rerankStep ([], []) item = .error [] := by
            unfold rerankStep
            cases hindex : item.index.bind (pyIndex 0) with
            | none => rfl
            | some i =>
                obtain ⟨idx, -, hidx⟩ := Option.bind_eq_some_iff.1 hindex
                exact absurd (pyIndex_lt hidx) (Nat.not_lt_zero i)
          unfold rerankResults
          simp only [List.foldlM_cons, hstep]
          rfl

/-- On an answer of numbers the two readings of the loop return the same. -/
theorem rerankResults_eq (ranked : Option (List RankedItem)) (results : List SearchResult) :
    rerankResults ranked results =
      (rerankObjects (ranked.map fun items => items.map RankedItem.toObject) results).results := by
  by_cases hne : results = []
  · subst hne
    rw [rerankResults_nil]
    cases ranked with
    | none => rfl
    | some items => rfl
  · cases ranked with
    | none =>
        show results = (rerankObjects none results).results
        rw [rerankObjects_none hne, results_rerankFailed, map_current_fresh]
    | some items =>
        have hfold := @foldlM_toObject _ [] items (numeric_fresh results) fun i hi => nomatch hi
        rw [map_current_fresh] at hfold
        unfold fresh at hfold
        simp only [Option.map_some, rerankResults, rerankObjects, List.isEmpty_iff, hne, if_false]
        split at hfold
        · next written hloop =>
            rw [hfold]
            exact (results_rerankFailed written).symm
        · next written order hloop =>
            obtain ⟨hfold, hwritten, horder⟩ := hfold
            obtain ⟨sorted, hsort, hresults⟩ := sortReranked_numeric hwritten horder
            rw [hfold]
            simp only [hsort]
            exact hresults

end Numbers

/-! ## A failure after the first item -/

def sampleCandidates : List SearchResult :=
  [{ chunkId := 1, content := "a", score := 1, documentId := 1, folderId := "", level := 0, title := "",
      metadata := .empty },
    { chunkId := 2, content := "b", score := 1 / 2, documentId := 1, folderId := "", level := 0,
      title := "", metadata := .empty }]

/-- The second item names no candidate; by then the first one has its new score. -/
theorem partial_answer_changes_scores : ¬ ∀ ranked results,
    (rerankObjects ranked results).Lawful results := by
  intro hall
  have hlaw : Reranked.FallsBack _ _ :=
    hall (some [⟨some 0, some (.number (1 / 4))⟩, ⟨some 2, some (.number 1)⟩]) sampleCandidates
  have hchanged := hlaw.unchanged { result := sampleCandidates[0], written := some (.number (1 / 4)) }
    List.mem_cons_self _ rfl
  exact absurd hchanged.2 (by decide)

end OpsKnowledge.Retrieval
