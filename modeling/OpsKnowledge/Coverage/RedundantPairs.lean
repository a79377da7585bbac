import Mathlib.Algebra.Order.Field.Rat
import Mathlib.Data.List.GetD
import Mathlib.Data.List.Sort
import OpsKnowledge.Lib.Loop
import OpsKnowledge.Lib.OrderBy
import OpsKnowledge.Lib.Packing
import OpsKnowledge.Retrieval.Searcher

/-!
# Pairs of similar vectors

`find_redundant_pairs` for the chunks of one base and `find_cross_kb_pairs` for two bases.
Similarities are computed block by block, exactly; `norm` is the norm of a vector.
-/

namespace OpsKnowledge.Coverage

open OpsKnowledge.Lib
open Retrieval (sliceTo)

inductive PairsError where
  | valueError (message : String)
  | matmul (dim dim' : Nat)
  | indexError
deriving DecidableEq

/-- An array of two dimensions. -/
structure Matrix (K : Type) where
  dim : Nat
  rows : List (List K)
  width : ∀ row ∈ rows, row.length = dim

/-- `np.ndarray` -/
inductive NdArray (K : Type) where
  | matrix (m : Matrix K)
  | other

/-- A pair of chunks, `RedundancyPair` and `CrossKBPair`. -/
structure SimilarPair (K : Type) where
  aId : String
  bId : String
  similarity : K

section Similarity

variable {K : Type} [Field K] [LinearOrder K] (norm : List K → K)

def dot (u v : List K) : K := (List.zipWith (· * ·) u v).sum

/-- A row of `norms`, after `norms[norms == 0] = 1.0`. -/
def rowNorm (row : List K) : K := if norm row = 0 then 1 else norm row

def normalizeRow (row : List K) : List K := row.map (· / rowNorm norm row)

/-- `_normalize_rows` -/
def normalizeRows (m : Matrix K) : Matrix K where
  dim := m.dim
  rows := m.rows.map (normalizeRow norm)
  width := by
    intro row hrow
    obtain ⟨row', hrow', rfl⟩ := List.mem_map.1 hrow
    rw [normalizeRow, List.length_map]
    exact m.width row' hrow'

/-- `m[i0:i1]` -/
def Matrix.block (m : Matrix K) (i0 i1 : Nat) : Matrix K where
  dim := m.dim
  rows := (m.rows.drop i0).take (i1 - i0)
  width := fun row hrow => m.width row (List.mem_of_mem_drop (List.mem_of_mem_take hrow))

/-- `block @ m.T` -/
def matmulT (block m : Matrix K) : Except PairsError (List (List K)) :=
  if block.dim = m.dim then .ok (block.rows.map fun u => m.rows.map fun v => dot u v)
  else .error (.matmul block.dim m.dim)

def index {α : Type} (xs : List α) (i : Nat) : Except PairsError α :=
  match xs[i]? with
  | some a => .ok a
  | none => .error .indexError

/-- `range(0, n, block_size)` -/
def blockStarts (n : Nat) (blockSize : Int) : Except PairsError (List Nat) :=
  if blockSize = 0 then .error (.valueError "range() arg 3 must not be zero")
  else if blockSize < 0 then .ok []
  else .ok (rangeStep n blockSize.toNat)

/-- The loop over the rows of a block: `body i sims[row_off]`. -/
def forBlock {β : Type} (m m' : Matrix K) (i0 i1 : Nat)
    (body : Nat → List K → Except PairsError (List β)) : Except PairsError (List β) := do
  let sims ← matmulT (m.block i0 i1) m'
  let parts ← (List.range' i0 (i1 - i0)).zipIdx.mapM fun (i, rowOff) => do
    body i (← index sims rowOff)
  pure parts.flatten

/-- The loop over the blocks of `n` rows. -/
def forRows {β : Type} (m m' : Matrix K) (n : Nat) (blockSize : Int)
    (body : Nat → List K → Except PairsError (List β)) : Except PairsError (List β) := do
  let starts ← blockStarts n blockSize
  let parts ← starts.mapM fun i0 => forBlock m m' i0 (min (i0 + blockSize.toNat) n) body
  pure parts.flatten

/-- The pairs of row `i` with each of `js`. -/
def rowPairs (idsA idsB : List String) (i : Nat) (sims : List K) (js : List Nat) :
    Except PairsError (List (SimilarPair K)) :=
  js.mapM fun j => do
    pure { aId := ← index idsA i, bId := ← index idsB j, similarity := ← index sims j }

def findRedundantPairs (ids : List String) (vectors : NdArray K) (threshold : K) (blockSize : Int) :
    Except PairsError (List (SimilarPair K)) :=
  match vectors with
  | .other => .error (.valueError "vectors shape mismatch ids length")
  | .matrix m => do
      if m.rows.length ≠ ids.length then .error (.valueError "vectors shape mismatch ids length")
      else if ids.length < 2 then pure []
      else
        let normed := normalizeRows norm m
        let pairs ← forRows normed normed ids.length blockSize fun i sims =>
          -- only the upper triangle, behind `i`
          rowPairs ids ids i sims (((sims.drop (i + 1)).findIdxs fun s => threshold ≤ s).map (· + (i + 1)))
        pure (orderByDesc SimilarPair.similarity pairs)

def findCrossKbPairs (idsA : List String) (vectorsA : NdArray K) (idsB : List String)
    (vectorsB : NdArray K) (threshold : K) (maxPairs blockSize : Int) :
    Except PairsError (List (SimilarPair K)) :=
  match vectorsA, vectorsB with
  | .matrix ma, .matrix mb => do
      if ma.rows.length ≠ idsA.length ∨ mb.rows.length ≠ idsB.length then
        .error (.valueError "ids/vectors length mismatch")
      else if idsA.isEmpty ∨ idsB.isEmpty then pure []
      else
        let pairs ← forRows (normalizeRows norm ma) (normalizeRows norm mb) idsA.length blockSize
          fun i sims => rowPairs idsA idsB i sims (sims.findIdxs fun s => threshold ≤ s)
        pure (sliceTo maxPairs (orderByDesc SimilarPair.similarity pairs))
  | _, _ => .error (.valueError "vectors must be 2D")

/-! ## The loops over the rows -/

theorem index_eq_ok {α : Type} {xs : List α} {i : Nat} (h : i < xs.length) (d : α) :
    index xs i = .ok (xs.getD i d) := by
  unfold index
  rw [List.getD_eq_getElem xs d h, List.getElem?_eq_getElem h]

theorem blockStarts_eq {blockSize : Int} (hsize : 1 ≤ blockSize) (n : Nat) :
    blockStarts n blockSize = .ok (rangeStep n blockSize.toNat) := by
  unfold blockStarts
  rw [if_neg (by omega), if_neg (by omega)]

omit [Field K] [LinearOrder K] in
/-- The row of `sims` at an offset of the block is the one of the row of `m` behind the start. -/
theorem getD_block {m : Matrix K} {i0 i1 off : Nat} (hoff : off < i1 - i0) (f : List K → List K) :
    ((m.block i0 i1).rows.map f).getD off (f []) = f (m.rows.getD (i0 + off) []) := by
  rw [List.getD_map]
  congr 1
  simp [Matrix.block, List.getD_eq_getElem?_getD, hoff]

section Loops

variable {β : Type} {m m' : Matrix K} {body : Nat → List K → Except PairsError (List β)} {g : Nat → List β}
  (hdim : m.dim = m'.dim)
  (hbody : ∀ i < m.rows.length, body i (m'.rows.map (dot (m.rows.getD i []))) = .ok (g i))

include hdim hbody

omit [LinearOrder K] in
theorem forBlock_eq {i0 i1 : Nat} (hlast : i1 ≤ m.rows.length) :
    forBlock m m' i0 i1 body = .ok ((List.range' i0 (i1 - i0)).flatMap g) := by
  have hmul : matmulT (m.block i0 i1) m' =
      .ok ((m.block i0 i1).rows.map fun u => m'.rows.map (dot u)) := if_pos hdim
  have hparts : (List.range' i0 (i1 - i0)).zipIdx.mapM
      (fun (i, rowOff) => do
        body i (← index ((m.block i0 i1).rows.map fun u => m'.rows.map (dot u)) rowOff)) =
      .ok ((List.range' i0 (i1 - i0)).zipIdx.map (g ∘ Prod.fst)) := by
    apply mapM_eq_ok_map
    rintro ⟨i, off⟩ hmem
    obtain ⟨-, hoff, hi⟩ := List.mem_zipIdx hmem
    simp only [List.length_range', List.getElem_range', Nat.one_mul, Nat.sub_zero,
      Nat.zero_add] at hoff hi
    subst hi
    have hlength : off < ((m.block i0 i1).rows.map fun u => m'.rows.map (dot u)).length := by
      simp only [Matrix.block, List.length_map, List.length_take, List.length_drop]
      omega
    dsimp only
    rw [index_eq_ok hlength (m'.rows.map (dot [])), getD_block hoff fun u => m'.rows.map (dot u)]
    exact hbody (i0 + off) (by omega)
  unfold forBlock
  rw [hmul]
  simp only [bind, Except.bind] at hparts ⊢
  rw [hparts, ← List.map_map, List.zipIdx_map_fst]
  rfl

omit [LinearOrder K] in
/-- The blocks give each row of the matrix to the body once, in order, with its row of similarities. -/
theorem forRows_eq {blockSize : Int} (hsize : 1 ≤ blockSize) :
    forRows m m' m.rows.length blockSize body = .ok ((List.range m.rows.length).flatMap g) := by
  have hparts : (rangeStep m.rows.length blockSize.toNat).mapM
      (fun i0 => forBlock m m' i0 (min (i0 + blockSize.toNat) m.rows.length) body) =
      .ok ((rangeStep m.rows.length blockSize.toNat).map fun i0 =>
        (List.range' i0 (min (i0 + blockSize.toNat) m.rows.length - i0)).flatMap g) :=
    mapM_eq_ok_map fun i0 _ => forBlock_eq hdim hbody (Nat.min_le_right _ _)
  have hranges : ((rangeStep m.rows.length blockSize.toNat).flatMap fun i0 =>
      List.range' i0 (min (i0 + blockSize.toNat) m.rows.length - i0)) = List.range m.rows.length :=
    flatMap_rangeStep (by omega)
  unfold forRows
  rw [blockStarts_eq hsize, ← hranges, List.flatMap_assoc]
  simp only [bind, Except.bind] at hparts ⊢
  rw [hparts]
  rfl

end Loops

/-! ## The pairs of the whole matrices -/

variable (m m' : Matrix K)

/-- The similarity of row `i` of one matrix and row `j` of the other. -/
def similarityAt (i j : Nat) : K :=
  dot ((normalizeRows norm m).rows.getD i []) ((normalizeRows norm m').rows.getD j [])

def pairAt (idsA idsB : List String) (p : Nat × Nat) : SimilarPair K where
  aId := idsA.getD p.1 ""
  bId := idsB.getD p.2 ""
  similarity := similarityAt norm m m' p.1 p.2

/-- The pairs of `range` that reach the threshold, each once, from the most similar down. -/
structure Ranked (threshold : K) (range : Nat → Nat → Prop) (pairs : List (Nat × Nat)) : Prop where
  nodup : pairs.Nodup
  mem_iff : ∀ i j, (i, j) ∈ pairs ↔ range i j ∧ threshold ≤ similarityAt norm m m' i j
  falling : pairs.Pairwise fun p q => similarityAt norm m m' q.1 q.2 ≤ similarityAt norm m m' p.1 p.2

/-- The row of similarities that the loop reads at row `i`. -/
def simsRow (i : Nat) : List K :=
  (normalizeRows norm m').rows.map (dot ((normalizeRows norm m).rows.getD i []))

/-- The columns that the loop of `find_redundant_pairs` visits at row `i`. -/
def columnsBehind (threshold : K) (i : Nat) : List Nat :=
  (((simsRow norm m m' i).drop (i + 1)).findIdxs fun s => threshold ≤ s).map (· + (i + 1))

/-- Those of `find_cross_kb_pairs`. -/
def columns (threshold : K) (i : Nat) : List Nat := (simsRow norm m m' i).findIdxs fun s => threshold ≤ s

variable {norm m m'} {threshold : K}

theorem length_simsRow (i : Nat) : (simsRow norm m m' i).length = m'.rows.length := by
  simp [simsRow, normalizeRows]

theorem getElem_simsRow {i j : Nat} (h : j < (simsRow norm m m' i).length) :
    (simsRow norm m m' i)[j] = similarityAt norm m m' i j := by
  have hj : j < (normalizeRows norm m').rows.length := by
    rw [simsRow, List.length_map] at h
    exact h
  rw [similarityAt, List.getD_eq_getElem _ _ hj]
  simp only [simsRow, List.getElem_map]

theorem mem_columns {i j : Nat} : j ∈ columns norm m m' threshold i ↔
    j < m'.rows.length ∧ threshold ≤ similarityAt norm m m' i j := by
  unfold columns
  rw [List.mem_findIdxs_iff_exists_getElem_pos]
  constructor
  · rintro ⟨hj, hreach⟩
    rw [getElem_simsRow] at hreach
    exact ⟨by rwa [length_simsRow] at hj, of_decide_eq_true hreach⟩
  · rintro ⟨hj, hreach⟩
    refine ⟨by rwa [length_simsRow], ?_⟩
    rw [getElem_simsRow]
    exact decide_eq_true hreach

theorem mem_columnsBehind {i j : Nat} : j ∈ columnsBehind norm m m' threshold i ↔
    (i < j ∧ j < m'.rows.length) ∧ threshold ≤ similarityAt norm m m' i j := by
  unfold columnsBehind
  rw [List.mem_map]
  constructor
  · rintro ⟨off, hoff, rfl⟩
    obtain ⟨hlength, hreach⟩ := List.mem_findIdxs_iff_exists_getElem_pos.1 hoff
    rw [List.length_drop, length_simsRow] at hlength
    rw [List.getElem_drop, getElem_simsRow] at hreach
    rw [Nat.add_comm off]
    exact ⟨⟨by omega, by omega⟩, of_decide_eq_true hreach⟩
  · rintro ⟨⟨hbehind, hlength⟩, hreach⟩
    refine ⟨j - (i + 1), List.mem_findIdxs_iff_exists_getElem_pos.2 ⟨?_, ?_⟩, by omega⟩
    · rw [List.length_drop, length_simsRow]
      omega
    · have hj : i + 1 + (j - (i + 1)) = j := by omega
      rw [List.getElem_drop, getElem_simsRow, hj]
      exact decide_eq_true hreach

theorem nodup_columns (i : Nat) : (columns norm m m' threshold i).Nodup := List.nodup_findIdxs

theorem nodup_columnsBehind (i : Nat) : (columnsBehind norm m m' threshold i).Nodup :=
  List.nodup_findIdxs.map fun _ _ h => Nat.add_right_cancel h

theorem rowPairs_eq {idsA idsB : List String} {i : Nat} {js : List Nat} (hi : i < idsA.length)
    (hids : m'.rows.length = idsB.length) (hjs : ∀ j ∈ js, j < m'.rows.length) :
    rowPairs idsA idsB i (simsRow norm m m' i) js =
      .ok (js.map fun j => pairAt norm m m' idsA idsB (i, j)) := by
  unfold rowPairs
  apply mapM_eq_ok_map
  intro j hj
  have hlength := hjs j hj
  have hsims : j < (simsRow norm m m' i).length := by rwa [length_simsRow]
  rw [index_eq_ok hi "", index_eq_ok (hids ▸ hlength) "", index_eq_ok hsims 0,
    List.getD_eq_getElem _ _ hsims, getElem_simsRow]
  rfl

/-- Sorting the pairs of the loops over the rows gives them ranked. -/
theorem exists_ranked {cols : Nat → List Nat} {range : Nat → Nat → Prop} (idsA idsB : List String) (n : Nat)
    (hnodup : ∀ i, (cols i).Nodup)
    (hcols : ∀ i j, i < n ∧ j ∈ cols i ↔ range i j ∧ threshold ≤ similarityAt norm m m' i j) :
    ∃ pairs, Ranked norm m m' threshold range pairs ∧
      orderByDesc SimilarPair.similarity
        ((List.range n).flatMap fun i => (cols i).map fun j => pairAt norm m m' idsA idsB (i, j)) =
      pairs.map (pairAt norm m m' idsA idsB) := by
  let found := (List.range n).flatMap fun i => (cols i).map fun j => (i, j)
  let key : Nat × Nat → K := fun p => similarityAt norm m m' p.1 p.2
  have hmem : ∀ i j, (i, j) ∈ found ↔ i < n ∧ j ∈ cols i := by
    intro i j
    simp [found]
  have hfound : found.Nodup := by
    apply List.nodup_flatMap.2
    refine ⟨fun i _ => (hnodup i).map fun j j' h => (Prod.mk.inj h).2, ?_⟩
    refine List.nodup_range.imp ?_
    intro i i' hne p hp hp'
    obtain ⟨j, -, rfl⟩ := List.mem_map.1 hp
    obtain ⟨j', -, heq⟩ := List.mem_map.1 hp'
    exact hne (Prod.mk.inj heq).1.symm
  refine ⟨orderByDesc key found, ⟨?_, ?_, orderByDesc_pairwise key found⟩, ?_⟩
  · exact (orderByDesc_perm key found).nodup_iff.2 hfound
  · intro i j
    rw [mem_orderByDesc, hmem, hcols]
  · have hmap : ((List.range n).flatMap fun i => (cols i).map fun j => pairAt norm m m' idsA idsB (i, j)) =
        found.filterMap (some ∘ pairAt norm m m' idsA idsB) := by
      rw [List.filterMap_eq_map]
      simp only [found, List.map_flatMap, List.map_map, Function.comp_def]
    have hsorted : orderByDesc SimilarPair.similarity (found.filterMap (some ∘ pairAt norm m m' idsA idsB)) =
        (orderByDesc key found).filterMap (some ∘ pairAt norm m m' idsA idsB) :=
      orderByDesc_filterMap fun p _ => ⟨pairAt norm m m' idsA idsB p, rfl, rfl⟩
    rw [hmap, hsorted, List.filterMap_eq_map]

/-! ## Results -/

theorem findRedundantPairs_eq {ids : List String} {blockSize : Int} (hids : m.rows.length = ids.length)
    (hsize : 1 ≤ blockSize) :
    findRedundantPairs norm ids (.matrix m) threshold blockSize =
      .ok (orderByDesc SimilarPair.similarity ((List.range m.rows.length).flatMap fun i =>
        (columnsBehind norm m m threshold i).map fun j => pairAt norm m m ids ids (i, j))) := by
  have hn : (normalizeRows norm m).rows.length = m.rows.length := List.length_map _
  have hbody : ∀ i < (normalizeRows norm m).rows.length, rowPairs ids ids i (simsRow norm m m i)
      (columnsBehind norm m m threshold i) =
        .ok ((columnsBehind norm m m threshold i).map fun j => pairAt norm m m ids ids (i, j)) := by
    intro i hi
    exact rowPairs_eq (by omega) hids fun j hj => (mem_columnsBehind.1 hj).1.2
  have hrows : forRows (normalizeRows norm m) (normalizeRows norm m) (normalizeRows norm m).rows.length
      blockSize (fun i sims => rowPairs ids ids i sims
        (((sims.drop (i + 1)).findIdxs fun s => threshold ≤ s).map (· + (i + 1)))) = .ok _ :=
    forRows_eq rfl hbody hsize
  unfold findRedundantPairs
  dsimp only
  rw [if_neg (not_not.2 hids)]
  split
  · next hfew =>
      -- one row has none behind it
      have hnone : ∀ i ∈ List.range m.rows.length, columnsBehind norm m m threshold i = [] := by
        intro i hi
        rw [List.eq_nil_iff_forall_not_mem]
        intro j hj
        have := (mem_columnsBehind.1 hj).1
        omega
      rw [List.flatMap_eq_nil_iff.2 fun i hi => by rw [hnone i hi]; rfl]
      rfl
  · rw [hn, hids] at hrows
    rw [hrows, hids]
    rfl

theorem findCrossKbPairs_eq {idsA idsB : List String} {maxPairs blockSize : Int}
    (hidsA : m.rows.length = idsA.length) (hidsB : m'.rows.length = idsB.length) (hdim : m.dim = m'.dim)
    (hsize : 1 ≤ blockSize) :
    findCrossKbPairs norm idsA (.matrix m) idsB (.matrix m') threshold maxPairs blockSize =
      .ok (sliceTo maxPairs (orderByDesc SimilarPair.similarity ((List.range m.rows.length).flatMap fun i =>
        (columns norm m m' threshold i).map fun j => pairAt norm m m' idsA idsB (i, j)))) := by
  have hn : (normalizeRows norm m).rows.length = m.rows.length := List.length_map _
  have hbody : ∀ i < (normalizeRows norm m).rows.length, rowPairs idsA idsB i (simsRow norm m m' i)
      (columns norm m m' threshold i) =
        .ok ((columns norm m m' threshold i).map fun j => pairAt norm m m' idsA idsB (i, j)) := by
    intro i hi
    exact rowPairs_eq (by omega) hidsB fun j hj => (mem_columns.1 hj).1
  have hnormed : (normalizeRows norm m).dim = (normalizeRows norm m').dim := hdim
  have hrows : forRows (normalizeRows norm m) (normalizeRows norm m') (normalizeRows norm m).rows.length
      blockSize (fun i sims => rowPairs idsA idsB i sims (sims.findIdxs fun s => threshold ≤ s)) = .ok _ :=
    forRows_eq hnormed hbody hsize
  unfold findCrossKbPairs
  dsimp only
  rw [if_neg (by omega)]
  split
  · next hempty =>
      have hnone : ∀ i ∈ List.range m.rows.length, columns norm m m' threshold i = [] := by
        intro i hi
        rw [List.eq_nil_iff_forall_not_mem]
        intro j hj
        have hlength := (mem_columns.1 hj).1
        rw [List.mem_range] at hi
        rcases hempty with hnil | hnil
        · rw [List.isEmpty_iff.1 hnil, List.length_nil] at hidsA
          omega
        · rw [List.isEmpty_iff.1 hnil, List.length_nil] at hidsB
          omega
      rw [List.flatMap_eq_nil_iff.2 fun i hi => by rw [hnone i hi]; rfl]
      simp [orderByDesc, pure, Except.pure]
  · rw [hn, hidsA] at hrows
    rw [hrows, hidsA]
    rfl

/-- With any size of the blocks: `find_redundant_pairs` returns each pair of a row and one behind it that
reaches the threshold, and `find_cross_kb_pairs` the first ones of all such pairs of the two lists. -/
theorem similarPairs_ranked (norm : List K → K) (threshold : K) :
    (∀ (ids : List String) (m : Matrix K), m.rows.length = ids.length →
      ∃ pairs, Ranked norm m m threshold (fun i j => i < j ∧ j < ids.length) pairs ∧
        ∀ blockSize, 1 ≤ blockSize → findRedundantPairs norm ids (.matrix m) threshold blockSize =
          .ok (pairs.map (pairAt norm m m ids ids))) ∧
    (∀ (idsA idsB : List String) (ma mb : Matrix K), ma.rows.length = idsA.length →
      mb.rows.length = idsB.length → ma.dim = mb.dim →
      ∃ pairs, Ranked norm ma mb threshold (fun i j => i < idsA.length ∧ j < idsB.length) pairs ∧
        ∀ (maxPairs : Nat) (blockSize : Int), 1 ≤ blockSize →
          findCrossKbPairs norm idsA (.matrix ma) idsB (.matrix mb) threshold maxPairs blockSize =
            .ok ((pairs.take maxPairs).map (pairAt norm ma mb idsA idsB))) := by
  constructor
  · intro ids m hids
    have hcols : ∀ i j, i < m.rows.length ∧ j ∈ columnsBehind norm m m threshold i ↔
        (i < j ∧ j < ids.length) ∧ threshold ≤ similarityAt norm m m i j := by
      intro i j
      rw [mem_columnsBehind]
      constructor
      · rintro ⟨-, ⟨hbehind, hj⟩, hreach⟩
        exact ⟨⟨hbehind, by omega⟩, hreach⟩
      · rintro ⟨⟨hbehind, hj⟩, hreach⟩
        exact ⟨by omega, ⟨hbehind, by omega⟩, hreach⟩
    obtain ⟨pairs, hranked, hsorted⟩ := exists_ranked ids ids m.rows.length nodup_columnsBehind hcols
    refine ⟨pairs, hranked, ?_⟩
    intro blockSize hsize
    rw [findRedundantPairs_eq hids hsize, hsorted]
  · intro idsA idsB ma mb hidsA hidsB hdim
    have hcols : ∀ i j, i < ma.rows.length ∧ j ∈ columns norm ma mb threshold i ↔
        (i < idsA.length ∧ j < idsB.length) ∧ threshold ≤ similarityAt norm ma mb i j := by
      intro i j
      rw [mem_columns, hidsA, hidsB, and_assoc]
    obtain ⟨pairs, hranked, hsorted⟩ := exists_ranked idsA idsB ma.rows.length nodup_columns hcols
    refine ⟨pairs, hranked, ?_⟩
    intro maxPairs blockSize hsize
    rw [findCrossKbPairs_eq hidsA hidsB hdim hsize, hsorted]
    simp [sliceTo, List.map_take]

end Similarity

/-- The Euclidean norm, where the sum of the squares is the square of an integer. -/
def integerNorm (v : List ℚ) : ℚ := Nat.sqrt (dot v v).num.toNat

def threeVectors : Matrix ℚ := ⟨2, [[3, 4], [4, 3], [0, 5]], by simp⟩

def oneVector : Matrix ℚ := ⟨2, [[5, 0]], by simp⟩

/-- Three vectors in blocks of two, and the two best pairs of them with another one. -/
theorem similarPairs_ranked_three :
    (∃ pairs, Ranked integerNorm threeVectors threeVectors (9 / 10) (fun i j => i < j ∧ j < 3) pairs ∧
      findRedundantPairs integerNorm ["a", "b", "c"] (.matrix threeVectors) (9 / 10) 2 =
        .ok (pairs.map (pairAt integerNorm threeVectors threeVectors ["a", "b", "c"] ["a", "b", "c"]))) ∧
    ∃ pairs, Ranked integerNorm threeVectors oneVector (1 / 2) (fun i j => i < 3 ∧ j < 1) pairs ∧
      findCrossKbPairs integerNorm ["a", "b", "c"] (.matrix threeVectors) ["d"] (.matrix oneVector)
        (1 / 2) 2 2 =
          .ok ((pairs.take 2).map (pairAt integerNorm threeVectors oneVector ["a", "b", "c"] ["d"])) := by
  constructor
  · obtain ⟨pairs, hranked, hpairs⟩ := (similarPairs_ranked integerNorm (9 / 10)).1 ["a", "b", "c"]
      threeVectors rfl
    exact ⟨pairs, hranked, hpairs 2 (by decide)⟩
  · obtain ⟨pairs, hranked, hpairs⟩ := (similarPairs_ranked integerNorm (1 / 2)).2 ["a", "b", "c"] ["d"]
      threeVectors oneVector rfl rfl rfl
    exact ⟨pairs, hranked, hpairs 2 2 (by decide)⟩

end OpsKnowledge.Coverage
