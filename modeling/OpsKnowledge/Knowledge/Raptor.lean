import Mathlib.Data.List.Nodup
import Mathlib.Data.Nat.Sqrt
import OpsKnowledge.Lib.OrderBy
import OpsKnowledge.Lib.Text
import OpsKnowledge.Lib.Transition
import OpsKnowledge.Knowledge.Models

/-!
# RAPTOR builds

One run of `build_raptor_for_document`: the seeds it selects, the levels of summaries it
builds over them, the rows it inserts. Clustering, the summarising model and the embedding
model are parameters. Leaves and summaries are rows of one table; a summary is a row whose
metadata names its `raptor_children`.
-/

namespace OpsKnowledge.Knowledge

open OpsKnowledge.Lib
open Workflow (Json)

structure RaptorSeed (Vec : Type) where
  id : Nat
  content : String
  embedding : Vec

structure RaptorSummary where
  id : Nat
  summary : String
  memberIds : List Nat
  level : Nat

/-- What one run meets outside the database. -/
structure RaptorEnv (Vec : Type) where
  /-- `_fetch_milvus_vectors` -/
  vectors : Nat → Option Vec
  kmeans : List Vec → Nat → List Nat
  /-- `none` where the call raises -/
  summarize : List String → Option String
  embed : List String → Option (List Vec)
  maxLevels : Nat := 3
  /-- whether `_embed_summary_chunks` comes to its end -/
  embedded : Bool := true

variable {Vec : Type}

/-! ## Building the levels -/

def pickK (n : Nat) : Nat :=
  if n < 4 then 1 else min (max 2 (Nat.sqrt (n / 2))) 20

def minClusterSize : Nat := 2

/-- The clusters in the order in which their labels first occur. -/
def clusters (env : RaptorEnv Vec) (current : List (RaptorSeed Vec)) (k : Nat) :
    List (List (RaptorSeed Vec)) :=
  let labels := env.kmeans (current.map RaptorSeed.embedding) k
  (Dict.groupBy Prod.snd (current.zip labels)).entries.map fun p => p.2.map Prod.fst

/-- The summaries of one level: small clusters, failed calls and blank texts give none. -/
def levelSummaries (env : RaptorEnv Vec) (level : Nat) :
    List (List (RaptorSeed Vec)) → Nat → List RaptorSummary × Nat
  | [], next => ([], next)
  | members :: rest, next =>
      if members.length < minClusterSize then levelSummaries env level rest next
      else
        match env.summarize (members.map RaptorSeed.content) with
        | none => levelSummaries env level rest next
        | some text =>
            if strip text = "" then levelSummaries env level rest next
            else
              let tail := levelSummaries env level rest (next + 1)
              ({ id := next, summary := strip text, memberIds := members.map RaptorSeed.id
                 level := level } :: tail.1, tail.2)

/-- `build_raptor_levels`, from `level` on with `remaining` levels to go. -/
def buildRaptorLevels (env : RaptorEnv Vec) :
    Nat → Nat → List (RaptorSeed Vec) → Nat → List RaptorSummary × Nat
  | 0, _, _, next => ([], next)
  | remaining + 1, level, current, next =>
      if current.length < minClusterSize * 2 then ([], next)
      else if pickK current.length ≤ 1 then ([], next)
      else
        let found := levelSummaries env level (clusters env current (pickK current.length)) next
        if found.1.isEmpty then ([], found.2)
        else
          match env.embed (found.1.map RaptorSummary.summary) with
          | none => found
          | some vecs =>
              let seeds := (found.1.zip vecs).map fun p =>
                { id := p.1.id, content := p.1.summary, embedding := p.2 }
              let rest := buildRaptorLevels env remaining (level + 1) seeds found.2
              (found.1 ++ rest.1, rest.2)

/-! ## One run -/

/-- The chunks that a run reads: level 0, embedded, in position order. -/
def l0Chunks (chunks : List Chunk) (docId : Nat) : List Chunk :=
  orderBy Chunk.position
    (chunks.filter fun c => c.inUnit .document docId ∧ c.level = 0 ∧ c.vectorId.isSome)

def raptorSeeds (env : RaptorEnv Vec) (l0 : List Chunk) : List (RaptorSeed Vec) :=
  l0.filterMap fun c => (env.vectors c.id).map fun v =>
    { id := c.id, content := c.content, embedding := v }

def summaryRow (env : RaptorEnv Vec) (doc : Document) (position : Nat) (s : RaptorSummary) : Chunk :=
  { id := s.id, unitType := .document, unitId := doc.id, knowledgeBaseId := doc.knowledgeBaseId
    folderId := doc.folderId, content := s.summary, level := s.level, position := position
    tokenCount := s.summary.length / 3
    metadata := Dict.empty.set "raptor_children" (.arr (s.memberIds.map fun i => .num i))
    vectorId := if env.embedded then some s.id else none }

structure RaptorBuild where
  seeds : List Nat
  rows : List Chunk
  next : Nat

def buildRaptor (env : RaptorEnv Vec) (chunks : List Chunk) (doc : Document) (next : Nat) :
    RaptorBuild :=
  let l0 := l0Chunks chunks doc.id
  let seeds := raptorSeeds env l0
  let ids := seeds.map RaptorSeed.id
  if l0.length < 4 then { seeds := ids, rows := [], next := next }
  else if seeds.length < 4 then { seeds := ids, rows := [], next := next }
  else
    let built := buildRaptorLevels env env.maxLevels 1 seeds next
    { seeds := ids, next := built.2
      rows := built.1.mapIdx fun i s => summaryRow env doc (l0.length + i) s }

def Chunk.isSummary (c : Chunk) : Bool := (c.metadata.get? "raptor_children").isSome

/-! ## What a run inserts -/

/-- The ids are distinct and drawn between two states of the supply; the levels are at least `level`. -/
structure SummariesIn (level n n' : Nat) (summaries : List RaptorSummary) : Prop where
  le : n ≤ n'
  nodup : (summaries.map RaptorSummary.id).Nodup
  bounds : ∀ s ∈ summaries, level ≤ s.level ∧ n ≤ s.id ∧ s.id < n'

theorem SummariesIn.nil {level n n' : Nat} (h : n ≤ n') : SummariesIn level n n' [] :=
  ⟨h, List.nodup_nil, by simp⟩

theorem SummariesIn.append {level n m k : Nat} {xs ys : List RaptorSummary}
    (h : SummariesIn level n m xs) (h' : SummariesIn level m k ys) :
    SummariesIn level n k (xs ++ ys) := by
  have hle := h.le
  have hle' := h'.le
  refine ⟨by omega, ?_, ?_⟩
  · rw [List.map_append, List.nodup_append]
    refine ⟨h.nodup, h'.nodup, ?_⟩
    intro i hi j hj hij
    obtain ⟨x, hx, rfl⟩ := List.mem_map.1 hi
    obtain ⟨y, hy, rfl⟩ := List.mem_map.1 hj
    have hlow := (h.bounds x hx).2
    have hhigh := (h'.bounds y hy).2
    omega
  · intro s hs
    rcases List.mem_append.1 hs with hs | hs
    · have hb := h.bounds s hs
      omega
    · have hb := h'.bounds s hs
      omega

theorem SummariesIn.of_le {level level' n n' : Nat} {xs : List RaptorSummary}
    (h : SummariesIn level' n n' xs) (hle : level ≤ level') : SummariesIn level n n' xs :=
  ⟨h.le, h.nodup, fun s hs => ⟨hle.trans (h.bounds s hs).1, (h.bounds s hs).2⟩⟩

theorem levelSummaries_in (env : RaptorEnv Vec) (level : Nat) (cs : List (List (RaptorSeed Vec)))
    (next : Nat) :
    SummariesIn level next (levelSummaries env level cs next).2 (levelSummaries env level cs next).1 := by
  induction cs generalizing next with
  | nil => exact .nil le_rfl
  | cons members rest ih =>
      unfold levelSummaries
      split
      · exact ih next
      · split
        · exact ih next
        · split
          · exact ih next
          · next text _ _ =>
              have hhead : SummariesIn level next (next + 1)
                  [{ id := next, summary := strip text, memberIds := members.map RaptorSeed.id
                     level := level }] := ⟨Nat.le_succ next, by simp, by simp⟩
              exact hhead.append (ih (next + 1))

theorem buildRaptorLevels_in (env : RaptorEnv Vec) (remaining level : Nat)
    (current : List (RaptorSeed Vec)) (next : Nat) :
    SummariesIn level next (buildRaptorLevels env remaining level current next).2
      (buildRaptorLevels env remaining level current next).1 := by
  induction remaining generalizing level current next with
  | zero => exact .nil le_rfl
  | succ remaining ih =>
      have hfound := levelSummaries_in env level (clusters env current (pickK current.length)) next
      unfold buildRaptorLevels
      split
      · exact .nil le_rfl
      · split
        · exact .nil le_rfl
        · simp only
          split
          · exact .nil hfound.le
          · split
            · exact hfound
            · exact hfound.append ((ih (level + 1) _ _).of_le (Nat.le_succ level))

theorem isSummary_summaryRow (env : RaptorEnv Vec) (doc : Document) (position : Nat)
    (s : RaptorSummary) : (summaryRow env doc position s).isSummary = true := by
  simp [Chunk.isSummary, summaryRow]

/-- The inserted rows are new summaries of the document, above level 0. -/
structure SummaryRows (doc : Document) (next : Nat) (b : RaptorBuild) : Prop where
  le : next ≤ b.next
  nodup : (b.rows.map Chunk.id).Nodup
  fresh : ∀ c ∈ b.rows, next ≤ c.id ∧ c.id < b.next
  unit : ∀ c ∈ b.rows, c.inUnit .document doc.id = true ∧ c.knowledgeBaseId = doc.knowledgeBaseId
  summary : ∀ c ∈ b.rows, c.isSummary = true ∧ 1 ≤ c.level
  visible : ∀ c ∈ b.rows, c.reviewExcluded = false

theorem SummaryRows.nil (doc : Document) (next : Nat) (ids : List Nat) :
    SummaryRows doc next { seeds := ids, rows := [], next := next } :=
  ⟨le_rfl, List.nodup_nil, by simp, by simp, by simp, by simp⟩

theorem summaryRows_mapIdx {doc : Document} {next next' : Nat} {summaries : List RaptorSummary}
    (h : SummariesIn 1 next next' summaries) (env : RaptorEnv Vec) (ids : List Nat) (base : Nat) :
    SummaryRows doc next { seeds := ids, next := next'
                           rows := summaries.mapIdx fun i s => summaryRow env doc (base + i) s } := by
  have hids : (summaries.mapIdx fun i s => summaryRow env doc (base + i) s).map Chunk.id =
      summaries.map RaptorSummary.id := by
    apply List.ext_getElem
    · simp
    · intro i hi hi'
      simp [summaryRow]
  have hmem : ∀ c ∈ summaries.mapIdx fun i s => summaryRow env doc (base + i) s,
      ∃ s ∈ summaries, ∃ position, c = summaryRow env doc position s := by
    intro c hc
    obtain ⟨i, hi, rfl⟩ := List.mem_mapIdx.1 hc
    exact ⟨_, List.getElem_mem hi, _, rfl⟩
  refine ⟨h.le, hids ▸ h.nodup, ?_, ?_, ?_, ?_⟩
  · intro c hc
    obtain ⟨s, hs, position, rfl⟩ := hmem c hc
    exact (h.bounds s hs).2
  · intro c hc
    obtain ⟨s, -, position, rfl⟩ := hmem c hc
    exact ⟨by simp [Chunk.inUnit, summaryRow], rfl⟩
  · intro c hc
    obtain ⟨s, hs, position, rfl⟩ := hmem c hc
    exact ⟨isSummary_summaryRow env doc position s, (h.bounds s hs).1⟩
  · intro c hc
    obtain ⟨s, -, position, rfl⟩ := hmem c hc
    rfl

theorem buildRaptor_rows (env : RaptorEnv Vec) (chunks : List Chunk) (doc : Document) (next : Nat) :
    SummaryRows doc next (buildRaptor env chunks doc next) := by
  unfold buildRaptor
  simp only
  split
  · exact .nil doc next _
  · split
    · exact .nil doc next _
    · exact summaryRows_mapIdx (buildRaptorLevels_in env env.maxLevels 1 _ next) env _ _

/-- What a run needs to insert a row: four seeds, and a text for one of their clusters. -/
structure SummaryDue (env : RaptorEnv Vec) (seeds : List (RaptorSeed Vec)) : Prop where
  levels : env.maxLevels ≠ 0
  many : 4 ≤ seeds.length
  cluster : ∃ members ∈ clusters env seeds (pickK seeds.length), minClusterSize ≤ members.length ∧
    ∃ text, env.summarize (members.map RaptorSeed.content) = some text ∧ strip text ≠ ""

theorem levelSummaries_eq_nil_iff (env : RaptorEnv Vec) (level : Nat)
    (cs : List (List (RaptorSeed Vec))) (next : Nat) :
    (levelSummaries env level cs next).1 = [] ↔
      ¬ ∃ members ∈ cs, minClusterSize ≤ members.length ∧
        ∃ text, env.summarize (members.map RaptorSeed.content) = some text ∧ strip text ≠ "" := by
  induction cs generalizing next with
  | nil => simp [levelSummaries]
  | cons members rest ih =>
      rw [levelSummaries, List.exists_mem_cons_iff, not_or]
      by_cases hsmall : members.length < minClusterSize
      · rw [if_pos hsmall, ih next]
        simp [hsmall]
      · rw [if_neg hsmall]
        cases htext : env.summarize (members.map RaptorSeed.content) with
        | none =>
            simp only [ih next]
            simp
        | some text =>
            by_cases hblank : strip text = ""
            · simp only [hblank, if_true, ih next]
              simp [hblank]
            · simp [hblank, Nat.not_lt.1 hsmall]

theorem one_lt_pickK {n : Nat} (h : 4 ≤ n) : 1 < pickK n := by
  unfold pickK
  rw [if_neg (by omega)]
  omega

theorem buildRaptor_rows_eq_nil_iff (env : RaptorEnv Vec) (chunks : List Chunk) (doc : Document)
    (next : Nat) : (buildRaptor env chunks doc next).rows = [] ↔
      ¬ SummaryDue env (raptorSeeds env (l0Chunks chunks doc.id)) := by
  let seeds := raptorSeeds env (l0Chunks chunks doc.id)
  have hle : seeds.length ≤ (l0Chunks chunks doc.id).length := List.length_filterMap_le _ _
  by_cases hfew : seeds.length < 4
  · have hrows : (buildRaptor env chunks doc next).rows = [] := by
      unfold buildRaptor
      simp only
      rw [apply_ite RaptorBuild.rows, if_pos hfew, ite_self]
    have hfew' : ¬ 4 ≤ seeds.length := Nat.not_le.2 hfew
    have hnot : ¬ SummaryDue env seeds := fun h => absurd h.many hfew'
    exact iff_of_true hrows hnot
  · have hmany : ¬ (l0Chunks chunks doc.id).length < 4 := by omega
    have hrows : (buildRaptor env chunks doc next).rows = [] ↔
        (buildRaptorLevels env env.maxLevels 1 seeds next).1 = [] := by
      unfold buildRaptor
      simp only
      rw [if_neg hmany, if_neg hfew]
      exact List.mapIdx_eq_nil_iff
    rw [hrows]
    cases hlevels : env.maxLevels with
    | zero =>
        have hnot : ¬ SummaryDue env seeds := fun h => h.levels hlevels
        exact iff_of_true rfl hnot
    | succ remaining =>
        have hnil := levelSummaries_eq_nil_iff env 1 (clusters env seeds (pickK seeds.length)) next
        have hdue : SummaryDue env seeds ↔ _ := ⟨SummaryDue.cluster, fun h => ⟨by omega, by omega, h⟩⟩
        rw [hdue, ← hnil]
        unfold buildRaptorLevels
        have hk := one_lt_pickK (Nat.not_lt.1 hfew)
        rw [if_neg (by simpa [minClusterSize] using Nat.not_lt.1 hfew), if_neg (Nat.not_le.2 hk)]
        simp only
        split
        · next hempty => simpa using hempty
        · next hsome =>
            have hne := mt List.isEmpty_iff.2 hsome
            split
            · exact Iff.rfl
            · simp [hne]

theorem mem_buildRaptor_seeds (env : RaptorEnv Vec) (chunks : List Chunk) (doc : Document)
    (next i : Nat) : i ∈ (buildRaptor env chunks doc next).seeds ↔
      ∃ c ∈ chunks, c.inUnit .document doc.id = true ∧ c.level = 0 ∧ c.vectorId.isSome ∧
        (env.vectors c.id).isSome ∧ c.id = i := by
  have hseeds : (buildRaptor env chunks doc next).seeds =
      (raptorSeeds env (l0Chunks chunks doc.id)).map RaptorSeed.id := by
    unfold buildRaptor
    simp only
    split_ifs <;> rfl
  rw [hseeds]
  simp only [List.mem_map, raptorSeeds, List.mem_filterMap, l0Chunks, mem_orderBy, List.mem_filter,
    decide_eq_true_eq, Option.map_eq_some_iff]
  constructor
  · intro h
    obtain ⟨s, ⟨c, ⟨hc, hunit, hlevel, hvector⟩, v, hv, rfl⟩, rfl⟩ := h
    exact ⟨c, hc, hunit, hlevel, hvector, by simp [hv], rfl⟩
  · intro h
    obtain ⟨c, hc, hunit, hlevel, hvector, hv, rfl⟩ := h
    obtain ⟨v, hv⟩ := Option.isSome_iff_exists.1 hv
    exact ⟨⟨c.id, c.content, v⟩, ⟨c, ⟨hc, hunit, hlevel, hvector⟩, v, hv, rfl⟩, rfl⟩

/-! ## Repeated runs on one document -/

/-- `last` is what the last run selected and inserted. -/
structure RaptorState where
  doc : Document
  chunks : List Chunk
  next : Nat
  last : Option RaptorBuild := none

def raptorStep (s : RaptorState) (env : RaptorEnv Vec) : Option RaptorState :=
  let build := buildRaptor env s.chunks s.doc s.next
  some { s with chunks := s.chunks ++ build.rows, next := build.next, last := some build }

def RaptorState.leaf (s : RaptorState) (c : Chunk) : Prop :=
  c ∈ s.chunks ∧ c.inUnit .document s.doc.id = true ∧ c.isSummary = false

def RaptorState.summary (s : RaptorState) (c : Chunk) : Prop :=
  c ∈ s.chunks ∧ c.inUnit .document s.doc.id = true ∧ c.isSummary = true

/-- The summary rows are those of the build, its seeds are the leaves, and no summary has the level
and position of a leaf. -/
structure OnlyFrom (s : RaptorState) (b : RaptorBuild) : Prop where
  summaries : ∀ c, s.summary c ↔ c ∈ b.rows
  seeds : ∀ i, i ∈ b.seeds ↔ ∃ c, s.leaf c ∧ c.id = i
  apart : ∀ c d, s.summary c → s.leaf d → (c.level, c.position) ≠ (d.level, d.position)

def SummariesOfLastRun (s : RaptorState) : Prop := ∀ b, s.last = some b → OnlyFrom s b

/-- No summary is there yet, and every leaf is at level 0, embedded, and found in Milvus. -/
def FirstFullRun (s : RaptorState) (env : RaptorEnv Vec) : Prop :=
  (∀ c, ¬ s.summary c) ∧
    ∀ c, s.leaf c → c.level = 0 ∧ c.vectorId.isSome ∧ (env.vectors c.id).isSome

structure RaptorValid (s : RaptorState) : Prop where
  nodup : (s.chunks.map Chunk.id).Nodup
  below : ∀ c ∈ s.chunks, c.id < s.next
  levels : ∀ c ∈ s.chunks, c.isSummary = true → 1 ≤ c.level

theorem raptorStep_valid {s s' : RaptorState} {env : RaptorEnv Vec} (h : RaptorValid s)
    (hs' : raptorStep s env = some s') : RaptorValid s' := by
  have hrows := buildRaptor_rows env s.chunks s.doc s.next
  cases hs'
  refine ⟨?_, ?_, ?_⟩
  · rw [List.map_append, List.nodup_append]
    refine ⟨h.nodup, hrows.nodup, ?_⟩
    intro i hi j hj hij
    obtain ⟨c, hc, rfl⟩ := List.mem_map.1 hi
    obtain ⟨d, hd, rfl⟩ := List.mem_map.1 hj
    have hold := h.below c hc
    have hnew := (hrows.fresh d hd).1
    omega
  · intro c hc
    have hle := hrows.le
    rcases List.mem_append.1 hc with hc | hc
    · have hold := h.below c hc
      show c.id < (buildRaptor env s.chunks s.doc s.next).next
      omega
    · exact (hrows.fresh c hc).2
  · intro c hc hsummary
    rcases List.mem_append.1 hc with hc | hc
    · exact h.levels c hc hsummary
    · exact (hrows.summary c hc).2

/-- A run leaves the leaves as they were. -/
theorem leaf_raptorStep {s s' : RaptorState} {env : RaptorEnv Vec}
    (hs' : raptorStep s env = some s') (c : Chunk) : s'.leaf c ↔ s.leaf c := by
  have hrows := buildRaptor_rows env s.chunks s.doc s.next
  cases hs'
  constructor
  · intro h
    obtain ⟨hc, hunit, hleaf⟩ := h
    rcases List.mem_append.1 hc with hc | hc
    · exact ⟨hc, hunit, hleaf⟩
    · rw [(hrows.summary c hc).1] at hleaf
      cases hleaf
  · intro h
    obtain ⟨hc, hunit, hleaf⟩ := h
    exact ⟨List.mem_append_left _ hc, hunit, hleaf⟩

theorem summary_raptorStep {s s' : RaptorState} {env : RaptorEnv Vec}
    (hs' : raptorStep s env = some s') (c : Chunk) :
    s'.summary c ↔ s.summary c ∨ c ∈ (buildRaptor env s.chunks s.doc s.next).rows := by
  have hrows := buildRaptor_rows env s.chunks s.doc s.next
  cases hs'
  constructor
  · intro h
    obtain ⟨hc, hunit, hsummary⟩ := h
    rcases List.mem_append.1 hc with hc | hc
    · exact .inl ⟨hc, hunit, hsummary⟩
    · exact .inr hc
  · intro h
    rcases h with h | h
    · obtain ⟨hc, hunit, hsummary⟩ := h
      exact ⟨List.mem_append_left _ hc, hunit, hsummary⟩
    · exact ⟨List.mem_append_right _ h, (hrows.unit c h).1, (hrows.summary c h).1⟩

theorem raptorStep_good_iff {s s' : RaptorState} {env : RaptorEnv Vec} (h : RaptorValid s)
    (hs' : raptorStep s env = some s') : SummariesOfLastRun s' ↔ FirstFullRun s env := by
  have hvalid := raptorStep_valid h hs'
  have hrows := buildRaptor_rows env s.chunks s.doc s.next
  have hlast : s'.last = some (buildRaptor env s.chunks s.doc s.next) := by
    cases hs'
    rfl
  have hseeds := mem_buildRaptor_seeds env s.chunks s.doc s.next
  constructor
  · intro hgood
    obtain ⟨hsummaries, hleaves, -⟩ := hgood _ hlast
    constructor
    · intro c hc
      have hmem := (hsummaries c).1 ((summary_raptorStep hs' c).2 (.inl hc))
      have hold := h.below c hc.1
      have hnew := (hrows.fresh c hmem).1
      omega
    · intro c hc
      have hmem := (hleaves c.id).2 ⟨c, (leaf_raptorStep hs' c).2 hc, rfl⟩
      obtain ⟨d, hd, -, hlevel, hvector, hfetched, hid⟩ := (hseeds c.id).1 hmem
      have heq : d = c := List.inj_on_of_nodup_map h.nodup hd hc.1 hid
      exact heq ▸ ⟨hlevel, hvector, hfetched⟩
  · intro hfirst b hb
    obtain ⟨hnone, hfull⟩ := hfirst
    cases hlast.symm.trans hb
    have hnew : ∀ c, s'.summary c → c ∈ (buildRaptor env s.chunks s.doc s.next).rows := by
      intro c hc
      exact ((summary_raptorStep hs' c).1 hc).resolve_left (hnone c)
    refine ⟨?_, ?_, ?_⟩
    · intro c
      exact ⟨hnew c, fun hc => (summary_raptorStep hs' c).2 (.inr hc)⟩
    · intro i
      rw [hseeds]
      constructor
      · intro hi
        obtain ⟨c, hc, hunit, -, -, -, hid⟩ := hi
        refine ⟨c, (leaf_raptorStep hs' c).2 ⟨hc, hunit, ?_⟩, hid⟩
        by_contra hsummary
        exact hnone c ⟨hc, hunit, by simpa using hsummary⟩
      · intro hi
        obtain ⟨c, hc, hid⟩ := hi
        have hleaf := (leaf_raptorStep hs' c).1 hc
        obtain ⟨hlevel, hvector, hfetched⟩ := hfull c hleaf
        exact ⟨c, hleaf.1, hleaf.2.1, hlevel, hvector, hfetched, hid⟩
    · intro c d hc hd heq
      have hlevel := (hfull d ((leaf_raptorStep hs' d).1 hd)).1
      have hpos := hvalid.levels c hc.1 hc.2.2
      have hsame : c.level = d.level := congrArg Prod.fst heq
      omega

/-- After every run the summaries are those of that run, over all the leaves, exactly when each run is
the first to insert any and finds every leaf at level 0 with its vector. -/
theorem rebuild_iff {s : RaptorState} (h : RaptorValid s) (hlast : s.last = none)
    (envs : List (RaptorEnv Vec)) :
    Visits raptorStep SummariesOfLastRun s envs ↔ EveryStep raptorStep FirstFullRun s envs :=
  visits_iff_everyStep_of_inv (fun _ _ _ hvalid hs' => raptorStep_valid hvalid hs')
    (fun _ _ _ hvalid _ hs' => raptorStep_good_iff hvalid hs') h
    (fun b hb => by rw [hlast] at hb; cases hb) envs

/-! ## A document with four chunks -/

def embeddedChunk (i : Nat) : Chunk :=
  { id := i, unitType := .document, unitId := 0, knowledgeBaseId := 0, content := "text"
    position := i, vectorId := some i }

def fourChunks : RaptorState :=
  { doc := { id := 0, knowledgeBaseId := 0 }, next := 4
    chunks := [embeddedChunk 0, embeddedChunk 1, embeddedChunk 2, embeddedChunk 3] }

/-- One cluster and one level. -/
def oneCluster : RaptorEnv Unit :=
  { vectors := fun _ => some (), kmeans := fun vs _ => vs.map fun _ => 0
    summarize := fun _ => some "s", embed := fun _ => none }

theorem raptorValid_fourChunks : RaptorValid fourChunks := ⟨by decide, by decide, by decide⟩

theorem leaf_fourChunks {c : Chunk} (h : fourChunks.leaf c) :
    c.level = 0 ∧ c.vectorId.isSome ∧ (oneCluster.vectors c.id).isSome := by
  have hall : ∀ d ∈ fourChunks.chunks, d.level = 0 ∧ d.vectorId.isSome = true := by decide
  exact ⟨(hall c h.1).1, (hall c h.1).2, rfl⟩

theorem not_summary_fourChunks (c : Chunk) : ¬ fourChunks.summary c := by
  intro h
  have hall : ∀ d ∈ fourChunks.chunks, d.isSummary = false := by decide
  have hnot := hall c h.1
  rw [h.2.2] at hnot
  cases hnot

/-- One run over the four chunks. -/
theorem rebuild_fourChunks : Visits raptorStep SummariesOfLastRun fourChunks [oneCluster] :=
  (rebuild_iff raptorValid_fourChunks rfl [oneCluster]).2
    fun _ _ => ⟨⟨not_summary_fourChunks, fun _ => leaf_fourChunks⟩, trivial⟩

/-- A second run leaves the summary of the first one in place. -/
theorem summaries_accumulate :
    ¬ ∀ (s : RaptorState) (envs : List (RaptorEnv Unit)), RaptorValid s → s.last = none →
      Visits raptorStep SummariesOfLastRun s envs := by
  intro hall
  have hvisits := hall fourChunks [oneCluster, oneCluster] raptorValid_fourChunks rfl
  have hsecond := hvisits.2 _ rfl
  have hgood := (hsecond.2 _ rfl).head
  have hfirst := (raptorStep_good_iff (raptorStep_valid raptorValid_fourChunks rfl) rfl).1 hgood
  have hrow : (buildRaptor oneCluster fourChunks.chunks fourChunks.doc 4).rows ≠ [] := by
    decide +kernel
  obtain ⟨c, hc⟩ := List.exists_mem_of_ne_nil _ hrow
  exact hfirst.1 c ((summary_raptorStep rfl c).2 (.inr hc))

end OpsKnowledge.Knowledge
