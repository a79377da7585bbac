import Mathlib.Data.List.Perm.Subperm
import Mathlib.Data.List.Range
import OpsKnowledge.Knowledge.Raptor

/-!
# The shape of a RAPTOR build

`build_raptor_levels` for any cluster size, with collaborators that may answer each call as they
like: the labels of each level, the summary of each cluster, the embeddings of each level. What
comes back is a forest over the leaves whose levels shrink by half. `uuid.uuid4` is a supply of
ids.
-/

namespace OpsKnowledge.Knowledge

open OpsKnowledge.Lib

/-- What a build asks of others. -/
structure RaptorCalls (Vec : Type) where
  /-- By level; `none` where numpy raises. -/
  kmeans : Nat → List Vec → Nat → Option (List Nat)
  /-- By level and by the place of the cluster in it; `none` where the call raises. -/
  summarize : Nat → Nat → List String → Option String
  embed : Nat → List String → Option (List Vec)
  /-- By the number of summaries that have been made. -/
  uuid4 : Nat → Nat

variable {Vec : Type}

def clustersOf (current : List (RaptorSeed Vec)) (labels : List Nat) : List (List (RaptorSeed Vec)) :=
  (Dict.groupBy Prod.snd (current.zip labels)).entries.map fun p => p.2.map Prod.fst

namespace RaptorCalls

variable (calls : RaptorCalls Vec) (minClusterSize : Nat)

/-- The loop over the clusters of a level: `place` clusters are behind, `made` summaries exist. -/
def summarizeClusters (level : Nat) : Nat → Nat → List (List (RaptorSeed Vec)) → List RaptorSummary
  | _, _, [] => []
  | place, made, members :: rest =>
      if members.length < minClusterSize then summarizeClusters level (place + 1) made rest
      else
        match calls.summarize level place (members.map RaptorSeed.content) with
        | none => summarizeClusters level (place + 1) made rest
        | some text =>
            if strip text = "" then summarizeClusters level (place + 1) made rest
            else
              { id := calls.uuid4 made, summary := strip text
                memberIds := members.map RaptorSeed.id, level := level } ::
                summarizeClusters level (place + 1) (made + 1) rest

/-- The seeds of the next level: a summary behind the end of the embeddings has none. -/
def nextSeeds (found : List RaptorSummary) (vecs : List Vec) : List (RaptorSeed Vec) :=
  (found.zip vecs).map fun p => { id := p.1.id, content := p.1.summary, embedding := p.2 }

/-- The loop over the levels, with `remaining` of them to go; `none` where the clustering raises. -/
def buildLevels : Nat → Nat → List (RaptorSeed Vec) → Nat → Option (List RaptorSummary)
  | 0, _, _, _ => some []
  | remaining + 1, level, current, made =>
      if current.length < minClusterSize * 2 then some []
      else if pickK current.length ≤ 1 then some []
      else
        (calls.kmeans level (current.map RaptorSeed.embedding) (pickK current.length)).bind fun labels =>
          let found := calls.summarizeClusters minClusterSize level 0 made (clustersOf current labels)
          if found.isEmpty then some []
          else
            match calls.embed level (found.map RaptorSummary.summary) with
            | none => some found
            | some vecs =>
                (buildLevels remaining (level + 1) (nextSeeds found vecs) (made + found.length)).map
                  fun rest => found ++ rest

def buildRaptorLevels (seeds : List (RaptorSeed Vec)) (maxLevels : Int) : Option (List RaptorSummary) :=
  if seeds.isEmpty ∨ maxLevels < 1 then some []
  else calls.buildLevels minClusterSize maxLevels.toNat 1 seeds 0

end RaptorCalls

/-! ## Forests -/

/-- The nodes of a level; those of level 0 are the leaves. -/
def raptorNodes (leaves : List Nat) (summaries : List RaptorSummary) : Nat → List Nat
  | 0 => leaves
  | level + 1 => (summaries.filter fun s => s.level = level + 1).map RaptorSummary.id

structure RaptorForest (minClusterSize : Nat) (leaves : List Nat) (summaries : List RaptorSummary) :
    Prop where
  distinct : (leaves ++ summaries.map RaptorSummary.id).Nodup
  /-- No node has two parents, or one parent twice. -/
  parents : (summaries.flatMap RaptorSummary.memberIds).Nodup
  below : ∀ s ∈ summaries, ∃ level, s.level = level + 1 ∧
    ∀ i ∈ s.memberIds, i ∈ raptorNodes leaves summaries level
  size : ∀ s ∈ summaries, minClusterSize ≤ s.memberIds.length
  halves : ∀ level, 2 * (raptorNodes leaves summaries (level + 1)).length ≤
    (raptorNodes leaves summaries level).length

/-! ## One level -/

section Level

variable {calls : RaptorCalls Vec} {minClusterSize level place made : Nat}
  {current : List (RaptorSeed Vec)} {cs : List (List (RaptorSeed Vec))}

theorem map_fst_zip_sublist {α β : Type*} (xs : List α) (ys : List β) :
    ((xs.zip ys).map Prod.fst).Sublist xs := by
  induction xs generalizing ys with
  | nil => exact List.Sublist.refl _
  | cons x xs ih =>
      cases ys with
      | nil => exact List.nil_sublist _
      | cons y ys => exact (ih ys).cons_cons x

/-- Whatever the labels are, the clusters share the nodes of the level out. -/
theorem flatten_clustersOf_subperm (current : List (RaptorSeed Vec)) (labels : List Nat) :
    (clustersOf current labels).flatten.Subperm current := by
  have hperm : (clustersOf current labels).flatten.Perm ((current.zip labels).map Prod.fst) := by
    have hgroups := Dict.flatMap_groupBy_perm Prod.snd (current.zip labels)
    have hmap := hgroups.map Prod.fst
    rw [List.map_flatMap] at hmap
    rwa [clustersOf, ← List.flatMap_def]
  exact hperm.subperm.trans (map_fst_zip_sublist _ _).subperm

/-- The members of the summaries are those of some of the clusters, in their order. -/
theorem members_summarizeClusters_sublist :
    ((calls.summarizeClusters minClusterSize level place made cs).flatMap RaptorSummary.memberIds).Sublist
      (cs.flatMap fun members => members.map RaptorSeed.id) := by
  induction cs generalizing place made with
  | nil => exact List.Sublist.refl _
  | cons members rest ih =>
      rw [List.flatMap_cons]
      unfold RaptorCalls.summarizeClusters
      split
      · exact ih.trans (List.sublist_append_right _ _)
      · split
        · exact ih.trans (List.sublist_append_right _ _)
        · split
          · exact ih.trans (List.sublist_append_right _ _)
          · exact (List.Sublist.refl _).append ih

theorem mem_summarizeClusters {s : RaptorSummary}
    (hs : s ∈ calls.summarizeClusters minClusterSize level place made cs) :
    s.level = level ∧ minClusterSize ≤ s.memberIds.length := by
  induction cs generalizing place made with
  | nil => cases hs
  | cons members rest ih =>
      unfold RaptorCalls.summarizeClusters at hs
      split at hs
      · exact ih hs
      · next hsize =>
          split at hs
          · exact ih hs
          · split at hs
            · exact ih hs
            · rcases List.mem_cons.1 hs with rfl | hs
              · refine ⟨rfl, ?_⟩
                rw [List.length_map]
                exact Nat.le_of_not_lt hsize
              · exact ih hs

theorem ids_summarizeClusters :
    (calls.summarizeClusters minClusterSize level place made cs).map RaptorSummary.id =
      (List.range' made (calls.summarizeClusters minClusterSize level place made cs).length).map
        calls.uuid4 := by
  induction cs generalizing place made with
  | nil => rfl
  | cons members rest ih =>
      unfold RaptorCalls.summarizeClusters
      split
      · exact ih
      · split
        · exact ih
        · split
          · exact ih
          · rw [List.map_cons, ih, List.length_cons, List.range'_succ, List.map_cons]

/-- The members of a level's summaries are nodes of the level below, each of them once at most. -/
theorem members_subperm (labels : List Nat) :
    ((calls.summarizeClusters minClusterSize level place made (clustersOf current labels)).flatMap
      RaptorSummary.memberIds).Subperm (current.map RaptorSeed.id) := by
  obtain ⟨part, hperm, hsub⟩ := flatten_clustersOf_subperm current labels
  have hids := hperm.map RaptorSeed.id
  rw [List.map_flatten, ← List.flatMap_def] at hids
  exact members_summarizeClusters_sublist.subperm.trans ⟨_, hids, hsub.map _⟩

end Level

/-! ## All levels -/

section Levels

variable {calls : RaptorCalls Vec} {minClusterSize level made : Nat}

def levelCount (summaries : List RaptorSummary) (level : Nat) : Nat :=
  (summaries.filter fun s => s.level = level).length

/-- The shape of what is built from `level` on over the nodes `current`. -/
structure LevelsOver (minClusterSize level : Nat) (current : List Nat) (summaries : List RaptorSummary) :
    Prop where
  parents : (summaries.flatMap RaptorSummary.memberIds).Nodup
  below : ∀ s ∈ summaries, s.level = level ∧ (∀ i ∈ s.memberIds, i ∈ current) ∨
    level < s.level ∧ ∀ i ∈ s.memberIds, ∃ t ∈ summaries, t.level + 1 = s.level ∧ t.id = i
  size : ∀ s ∈ summaries, minClusterSize ≤ s.memberIds.length
  first : 2 * levelCount summaries level ≤ current.length
  halves : ∀ l, level ≤ l → 2 * levelCount summaries (l + 1) ≤ levelCount summaries l

theorem LevelsOver.nil (minClusterSize level : Nat) (current : List Nat) :
    LevelsOver minClusterSize level current [] :=
  ⟨List.nodup_nil, (fun s hs => nomatch hs), (fun s hs => nomatch hs), by simp [levelCount],
    by simp [levelCount]⟩

theorem levelCount_append (xs ys : List RaptorSummary) (l : Nat) :
    levelCount (xs ++ ys) l = levelCount xs l + levelCount ys l := by
  rw [levelCount, List.filter_append, List.length_append]
  rfl

theorem levelCount_eq_zero {summaries : List RaptorSummary} {l : Nat} (h : ∀ s ∈ summaries, s.level ≠ l) :
    levelCount summaries l = 0 := by
  rw [levelCount, List.filter_eq_nil_iff.2, List.length_nil]
  intro s hs
  simpa using h s hs

theorem levelCount_eq_length {summaries : List RaptorSummary} (h : ∀ s ∈ summaries, s.level = level) :
    levelCount summaries level = summaries.length := by
  rw [levelCount, List.filter_eq_self.2]
  intro s hs
  simpa using h s hs

/-- A summary takes up at least as many nodes as a cluster has to have. -/
theorem size_mul_length_le {summaries : List RaptorSummary}
    (h : ∀ s ∈ summaries, minClusterSize ≤ s.memberIds.length) :
    minClusterSize * summaries.length ≤ (summaries.flatMap RaptorSummary.memberIds).length := by
  induction summaries with
  | nil => simp
  | cons s summaries ih =>
      have hhead := h s List.mem_cons_self
      have hrest := ih fun t ht => h t (List.mem_cons_of_mem s ht)
      rw [List.length_cons, List.flatMap_cons, List.length_append, Nat.mul_succ]
      omega

/-- One level alone. -/
theorem LevelsOver.single {current : List Nat} {summaries : List RaptorSummary} (hsize : 2 ≤ minClusterSize)
    (hcurrent : current.Nodup)
    (hlevel : ∀ s ∈ summaries, s.level = level ∧ minClusterSize ≤ s.memberIds.length)
    (hmembers : (summaries.flatMap RaptorSummary.memberIds).Subperm current) :
    LevelsOver minClusterSize level current summaries := by
  have hparents : (summaries.flatMap RaptorSummary.memberIds).Nodup := by
    obtain ⟨part, hperm, hsub⟩ := hmembers
    exact hperm.nodup_iff.1 (hsub.nodup hcurrent)
  refine ⟨hparents, ?_, fun s hs => (hlevel s hs).2, ?_, ?_⟩
  · intro s hs
    refine Or.inl ⟨(hlevel s hs).1, fun i hi => hmembers.subset ?_⟩
    exact List.mem_flatMap.2 ⟨s, hs, hi⟩
  · have hall := size_mul_length_le fun s hs => (hlevel s hs).2
    have hle := hmembers.length_le
    have htwo := Nat.mul_le_mul_right summaries.length hsize
    rw [levelCount_eq_length fun s hs => (hlevel s hs).1]
    omega
  · intro l hl
    rw [levelCount_eq_zero]
    · exact Nat.zero_le _
    · intro s hs heq
      have hs := (hlevel s hs).1
      omega

theorem LevelsOver.level_le {current : List Nat} {summaries : List RaptorSummary}
    (h : LevelsOver minClusterSize level current summaries) : ∀ s ∈ summaries, level ≤ s.level := by
  intro s hs
  rcases h.below s hs with ⟨heq, -⟩ | ⟨hlt, -⟩
  · exact heq.ge
  · exact hlt.le

/-- A member is a node of the first level or a summary. -/
theorem LevelsOver.mem_or_mem {current : List Nat} {summaries : List RaptorSummary}
    (h : LevelsOver minClusterSize level current summaries) :
    ∀ i ∈ summaries.flatMap RaptorSummary.memberIds, i ∈ current ∨ i ∈ summaries.map RaptorSummary.id := by
  intro i hi
  obtain ⟨s, hs, hi⟩ := List.mem_flatMap.1 hi
  rcases h.below s hs with ⟨-, hmembers⟩ | ⟨-, hmembers⟩
  · exact Or.inl (hmembers i hi)
  · obtain ⟨t, ht, -, rfl⟩ := hmembers i hi
    exact Or.inr (List.mem_map_of_mem ht)

/-- A level below levels over its summaries. -/
theorem LevelsOver.append {current next : List Nat} {found rest : List RaptorSummary}
    (hfound : LevelsOver minClusterSize level current found) (hlevel : ∀ s ∈ found, s.level = level)
    (hrest : LevelsOver minClusterSize (level + 1) next rest)
    (hnext : next.Sublist (found.map RaptorSummary.id))
    (hapart : ∀ i ∈ (found ++ rest).map RaptorSummary.id, i ∉ current) :
    LevelsOver minClusterSize level current (found ++ rest) := by
  have habove : ∀ s ∈ rest, level < s.level := hrest.level_le
  have hhere : ∀ i ∈ rest.flatMap RaptorSummary.memberIds, i ∈ (found ++ rest).map RaptorSummary.id := by
    intro i hi
    rw [List.map_append, List.mem_append]
    exact (hrest.mem_or_mem i hi).imp_left fun hin => hnext.subset hin
  have hrestZero : levelCount rest level = 0 :=
    levelCount_eq_zero fun s hs => Nat.ne_of_gt (habove s hs)
  have hfoundZero : ∀ l, level ≤ l → levelCount found (l + 1) = 0 := by
    intro l hl
    apply levelCount_eq_zero
    intro s hs heq
    have hs := hlevel s hs
    omega
  constructor
  · rw [List.flatMap_append, List.nodup_append]
    refine ⟨hfound.parents, hrest.parents, ?_⟩
    rintro i hi j hj rfl
    obtain ⟨s, hs, hi⟩ := List.mem_flatMap.1 hi
    rcases hfound.below s hs with ⟨-, hmembers⟩ | ⟨hlt, -⟩
    · exact hapart i (hhere i hj) (hmembers i hi)
    · have hs := hlevel s hs
      omega
  · intro s hs
    rcases List.mem_append.1 hs with hs | hs
    · rcases hfound.below s hs with hfirst | ⟨hlt, -⟩
      · exact Or.inl hfirst
      · have hs := hlevel s hs
        omega
    · refine Or.inr ⟨habove s hs, ?_⟩
      intro i hi
      rcases hrest.below s hs with ⟨heq, hmembers⟩ | ⟨-, hmembers⟩
      · obtain ⟨t, ht, hid⟩ := List.mem_map.1 (hnext.subset (hmembers i hi))
        exact ⟨t, List.mem_append_left _ ht, by rw [hlevel t ht, heq], hid⟩
      · obtain ⟨t, ht, htlevel, hid⟩ := hmembers i hi
        exact ⟨t, List.mem_append_right _ ht, htlevel, hid⟩
  · intro s hs
    rcases List.mem_append.1 hs with hs | hs
    · exact hfound.size s hs
    · exact hrest.size s hs
  · rw [levelCount_append, hrestZero]
    exact hfound.first
  · intro l hl
    rw [levelCount_append, levelCount_append, hfoundZero l hl, Nat.zero_add]
    by_cases heq : l = level
    · subst heq
      have hfirst := hrest.first
      have hle := hnext.length_le
      rw [List.length_map] at hle
      rw [hrestZero, levelCount_eq_length hlevel]
      omega
    · have hhalf := hrest.halves l (by omega)
      omega

/-- The ids are drawn one after the other. -/
theorem ids_buildLevels {remaining : Nat} {current : List (RaptorSeed Vec)} {summaries : List RaptorSummary}
    (h : calls.buildLevels minClusterSize remaining level current made = some summaries) :
    summaries.map RaptorSummary.id = (List.range' made summaries.length).map calls.uuid4 := by
  induction remaining generalizing level current made summaries with
  | zero =>
      cases h
      rfl
  | succ remaining ih =>
      unfold RaptorCalls.buildLevels at h
      split at h
      · cases h
        rfl
      · split at h
        · cases h
          rfl
        · obtain ⟨labels, -, h⟩ := Option.bind_eq_some_iff.1 h
          dsimp only at h
          split at h
          · cases h
            rfl
          · split at h
            · cases h
              exact ids_summarizeClusters
            · obtain ⟨rest, hrest, rfl⟩ := Option.map_eq_some_iff.1 h
              rw [List.map_append, ids_summarizeClusters, ih hrest, List.length_append, ← List.map_append,
                List.range'_append_1]

theorem nextSeeds_ids_sublist (found : List RaptorSummary) (vecs : List Vec) :
    ((RaptorCalls.nextSeeds found vecs).map RaptorSeed.id).Sublist (found.map RaptorSummary.id) := by
  have hids : (RaptorCalls.nextSeeds found vecs).map RaptorSeed.id =
      ((found.zip vecs).map Prod.fst).map RaptorSummary.id := by
    rw [RaptorCalls.nextSeeds, List.map_map, List.map_map]
    rfl
  rw [hids]
  exact (map_fst_zip_sublist found vecs).map _

/-- Each level is built over the one before, whatever is left of it. -/
theorem levelsOver_buildLevels (hsize : 2 ≤ minClusterSize) (huuid : Function.Injective calls.uuid4)
    {remaining : Nat} {current : List (RaptorSeed Vec)} {summaries : List RaptorSummary}
    (hcurrent : (current.map RaptorSeed.id).Nodup)
    (hapart : ∀ i, made ≤ i → calls.uuid4 i ∉ current.map RaptorSeed.id)
    (h : calls.buildLevels minClusterSize remaining level current made = some summaries) :
    LevelsOver minClusterSize level (current.map RaptorSeed.id) summaries := by
  induction remaining generalizing level current made summaries with
  | zero =>
      cases h
      exact .nil ..
  | succ remaining ih =>
      have hids := ids_buildLevels h
      unfold RaptorCalls.buildLevels at h
      split at h
      · cases h
        exact .nil ..
      · split at h
        · cases h
          exact .nil ..
        · obtain ⟨labels, -, h⟩ := Option.bind_eq_some_iff.1 h
          dsimp only at h
          have hfound : LevelsOver minClusterSize level (current.map RaptorSeed.id)
              (calls.summarizeClusters minClusterSize level 0 made (clustersOf current labels)) :=
            .single hsize hcurrent (fun s hs => mem_summarizeClusters hs) (members_subperm labels)
          split at h
          · cases h
            exact .nil ..
          · split at h
            · cases h
              exact hfound
            · next vecs hembed =>
                obtain ⟨rest, hrest, rfl⟩ := Option.map_eq_some_iff.1 h
                have hnext := nextSeeds_ids_sublist
                  (calls.summarizeClusters minClusterSize level 0 made (clustersOf current labels)) vecs
                rw [ids_summarizeClusters] at hnext
                have hlater : ∀ i, made + (calls.summarizeClusters minClusterSize level 0 made
                    (clustersOf current labels)).length ≤ i →
                    calls.uuid4 i ∉ (RaptorCalls.nextSeeds (calls.summarizeClusters minClusterSize level 0
                      made (clustersOf current labels)) vecs).map RaptorSeed.id := by
                  intro i hi hmem
                  obtain ⟨j, hj, heq⟩ := List.mem_map.1 (hnext.subset hmem)
                  have hj := (List.mem_range'_1.1 hj).2
                  have hij := huuid heq
                  omega
                have hrest := ih (hnext.nodup ((List.nodup_range').map huuid)) hlater hrest
                rw [← ids_summarizeClusters] at hnext
                refine hfound.append (fun s hs => (mem_summarizeClusters hs).1) hrest hnext ?_
                intro i hi
                rw [hids] at hi
                obtain ⟨j, hj, rfl⟩ := List.mem_map.1 hi
                exact hapart j (List.mem_range'_1.1 hj).1

/-- A build comes to an end wherever the clustering does. -/
theorem buildLevels_isSome {remaining : Nat} {current : List (RaptorSeed Vec)}
    (h : ∀ level vs k, (calls.kmeans level vs k).isSome) :
    (calls.buildLevels minClusterSize remaining level current made).isSome := by
  induction remaining generalizing level current made with
  | zero => rfl
  | succ remaining ih =>
      unfold RaptorCalls.buildLevels
      split
      · rfl
      · split
        · rfl
        · obtain ⟨labels, hlabels⟩ := Option.isSome_iff_exists.1
            (h level (current.map RaptorSeed.embedding) (pickK current.length))
          rw [hlabels, Option.bind_some]
          dsimp only
          split
          · rfl
          · split
            · rfl
            · rw [Option.isSome_map]
              exact ih

end Levels

/-! ## The build -/

section Build

variable {calls : RaptorCalls Vec} {minClusterSize : Nat} {seeds : List (RaptorSeed Vec)} {maxLevels : Int}

theorem RaptorForest.nil (minClusterSize : Nat) {leaves : List Nat} (h : leaves.Nodup) :
    RaptorForest minClusterSize leaves [] := by
  refine ⟨by simpa using h, List.nodup_nil, (fun s hs => nomatch hs), (fun s hs => nomatch hs), ?_⟩
  intro level
  exact Nat.zero_le _

theorem raptorForest_of_levelsOver {leaves : List Nat} {summaries : List RaptorSummary}
    (hdistinct : (leaves ++ summaries.map RaptorSummary.id).Nodup)
    (h : LevelsOver minClusterSize 1 leaves summaries) : RaptorForest minClusterSize leaves summaries := by
  have hcount : ∀ level, (raptorNodes leaves summaries (level + 1)).length =
      levelCount summaries (level + 1) := fun level => List.length_map ..
  refine ⟨hdistinct, h.parents, ?_, h.size, ?_⟩
  · intro s hs
    rcases h.below s hs with ⟨hlevel, hmembers⟩ | ⟨hlt, hmembers⟩
    · exact ⟨0, hlevel, hmembers⟩
    · obtain ⟨level, hlevel⟩ : ∃ level, s.level = level + 1 + 1 := ⟨s.level - 2, by omega⟩
      refine ⟨level + 1, hlevel, ?_⟩
      intro i hi
      obtain ⟨t, ht, htlevel, rfl⟩ := hmembers i hi
      have hone : t.level = level + 1 := by omega
      exact List.mem_map_of_mem (List.mem_filter.2 ⟨ht, decide_eq_true hone⟩)
  · intro level
    rw [hcount]
    cases level with
    | zero => exact h.first
    | succ level =>
        rw [hcount]
        exact h.halves (level + 1) (by omega)

/-- For every labelling, every pattern of failures and every response of the embedding model the build
is a forest over its leaves; and it comes back wherever the clustering does. -/
theorem buildRaptorLevels_forest (hseeds : (seeds.map RaptorSeed.id).Nodup) (hsize : 2 ≤ minClusterSize)
    (huuid : Function.Injective calls.uuid4) (hfresh : ∀ i, calls.uuid4 i ∉ seeds.map RaptorSeed.id) :
    (∀ summaries, calls.buildRaptorLevels minClusterSize seeds maxLevels = some summaries →
      RaptorForest minClusterSize (seeds.map RaptorSeed.id) summaries) ∧
    ((∀ level vs k, (calls.kmeans level vs k).isSome) →
      (calls.buildRaptorLevels minClusterSize seeds maxLevels).isSome) := by
  constructor
  · intro summaries h
    unfold RaptorCalls.buildRaptorLevels at h
    split at h
    · cases h
      exact .nil minClusterSize hseeds
    · apply raptorForest_of_levelsOver
      · rw [ids_buildLevels h, List.nodup_append]
        refine ⟨hseeds, (List.nodup_range').map huuid, ?_⟩
        rintro i hi j hj rfl
        obtain ⟨k, -, rfl⟩ := List.mem_map.1 hj
        exact hfresh k hi
      · exact levelsOver_buildLevels hsize huuid hseeds (fun i _ => hfresh i) h
  · intro h
    unfold RaptorCalls.buildRaptorLevels
    split
    · rfl
    · exact buildLevels_isSome h

/-- Ten leaves in pairs, of which the third has no summary, and the summaries in one cluster. -/
def pairs : RaptorCalls Unit :=
  { kmeans := fun level vs _ => some ((List.range vs.length).map fun i => if level = 1 then i / 2 else 0)
    summarize := fun level place _ => if level = 1 ∧ place = 2 then none else some "s"
    embed := fun _ texts => some (texts.map fun _ => ()), uuid4 := fun i => 10 + i }

def tenSeeds : List (RaptorSeed Unit) := (List.range 10).map fun i => ⟨i, "leaf", ()⟩

theorem pairs_forest : ∃ summaries, pairs.buildRaptorLevels 2 tenSeeds 3 = some summaries ∧
    summaries.map (fun s => (s.level, s.memberIds)) =
      [(1, [0, 1]), (1, [2, 3]), (1, [6, 7]), (1, [8, 9]), (2, [10, 11, 12, 13])] ∧
    RaptorForest 2 (List.range 10) summaries := by
  have huuid : Function.Injective pairs.uuid4 := fun _ _ h => Nat.add_left_cancel h
  have hfresh : ∀ i, pairs.uuid4 i ∉ tenSeeds.map RaptorSeed.id := by
    intro i hi
    have hall : ∀ j ∈ tenSeeds.map RaptorSeed.id, j < 10 := by decide
    have hlt : 10 + i < 10 := hall _ hi
    omega
  have hforest := @buildRaptorLevels_forest Unit pairs 2 tenSeeds 3 (by decide) le_rfl huuid hfresh
  have hmembers : (pairs.buildRaptorLevels 2 tenSeeds 3).map (fun summaries =>
      summaries.map fun s => (s.level, s.memberIds)) =
        some [(1, [0, 1]), (1, [2, 3]), (1, [6, 7]), (1, [8, 9]), (2, [10, 11, 12, 13])] := by
    decide +kernel
  obtain ⟨summaries, hbuild, hlevels⟩ := Option.map_eq_some_iff.1 hmembers
  exact ⟨summaries, hbuild, hlevels, hforest.1 summaries hbuild⟩

end Build

/-! ## Runs over rows -/

section Runs

variable (env : RaptorEnv Vec)

/-- The collaborators of a run: each answers in one way, and ids are counted. -/
def RaptorEnv.calls (next : Nat) : RaptorCalls Vec :=
  { kmeans := fun _ vs k => some (env.kmeans vs k)
    summarize := fun _ _ => env.summarize
    embed := fun _ => env.embed
    uuid4 := fun i => next + i }

theorem levelSummaries_of_calls {next level place made : Nat} {cs : List (List (RaptorSeed Vec))}
    {found : List RaptorSummary}
    (h : (env.calls next).summarizeClusters minClusterSize level place made cs = found) :
    levelSummaries env level cs (next + made) = (found, next + made + found.length) := by
  induction cs generalizing place made found with
  | nil =>
      cases h
      rfl
  | cons members rest ih =>
      unfold RaptorCalls.summarizeClusters at h
      unfold levelSummaries
      by_cases hsmall : members.length < minClusterSize
      · rw [if_pos hsmall] at h ⊢
        exact ih h
      · rw [if_neg hsmall] at h ⊢
        have hcall : (env.calls next).summarize level place (members.map RaptorSeed.content) =
            env.summarize (members.map RaptorSeed.content) := rfl
        rw [hcall] at h
        cases htext : env.summarize (members.map RaptorSeed.content) with
        | none =>
            rw [htext] at h
            exact ih h
        | some text =>
            rw [htext] at h
            by_cases hblank : strip text = ""
            · simp only [hblank, if_true] at h ⊢
              exact ih h
            · simp only [hblank, if_false] at h ⊢
              subst h
              have hrest := @ih (place + 1) (made + 1) _ rfl
              rw [← Nat.add_assoc] at hrest
              rw [hrest, List.length_cons]
              refine Prod.ext rfl ?_
              show next + made + 1 + _ = next + made + (_ + 1)
              omega

/-- The levels of a run are a build of cluster size two. -/
theorem buildLevels_calls (next remaining level made : Nat) (current : List (RaptorSeed Vec)) :
    (env.calls next).buildLevels minClusterSize remaining level current made =
      some (buildRaptorLevels env remaining level current (next + made)).1 := by
  induction remaining generalizing level made current with
  | zero => rfl
  | succ remaining ih =>
      unfold RaptorCalls.buildLevels buildRaptorLevels
      split
      · rfl
      · split
        · rfl
        · have hlabels : (env.calls next).kmeans level (current.map RaptorSeed.embedding)
              (pickK current.length) =
                some (env.kmeans (current.map RaptorSeed.embedding) (pickK current.length)) := rfl
          have hcs : clusters env current (pickK current.length) = clustersOf current
              (env.kmeans (current.map RaptorSeed.embedding) (pickK current.length)) := rfl
          have hlevel := @levelSummaries_of_calls _ env next level 0 made
            (clusters env current (pickK current.length)) _ rfl
          rw [hlabels, Option.bind_some, hlevel, hcs]
          dsimp only
          generalize env.kmeans (current.map RaptorSeed.embedding) (pickK current.length) = labels
          generalize (env.calls next).summarizeClusters minClusterSize level 0 made
            (clustersOf current labels) = found
          by_cases hempty : found.isEmpty = true
          · rw [if_pos hempty, if_pos hempty]
          · rw [if_neg hempty, if_neg hempty]
            have hcall : (env.calls next).embed level (found.map RaptorSummary.summary) =
                env.embed (found.map RaptorSummary.summary) := rfl
            rw [hcall]
            cases env.embed (found.map RaptorSummary.summary) with
            | none => rfl
            | some vecs =>
                dsimp only
                rw [ih, Nat.add_assoc]
                rfl

/-- The summaries that a run inserts are a forest over the chunks that it reads. -/
theorem raptorForest_run (seeds : List (RaptorSeed Vec)) (next : Nat)
    (hseeds : (seeds.map RaptorSeed.id).Nodup) (hnext : ∀ s ∈ seeds, s.id < next) :
    RaptorForest minClusterSize (seeds.map RaptorSeed.id)
      (buildRaptorLevels env env.maxLevels 1 seeds next).1 := by
  have huuid : Function.Injective (env.calls next).uuid4 := fun _ _ h => Nat.add_left_cancel h
  have hfresh : ∀ i, (env.calls next).uuid4 i ∉ seeds.map RaptorSeed.id := by
    intro i hi
    obtain ⟨s, hs, heq⟩ := List.mem_map.1 hi
    have hlt := hnext s hs
    have heq : s.id = next + i := heq
    omega
  have hbuild := buildLevels_calls env next env.maxLevels 1 0 seeds
  rw [Nat.add_zero] at hbuild
  apply raptorForest_of_levelsOver
  · rw [ids_buildLevels hbuild, List.nodup_append]
    refine ⟨hseeds, (List.nodup_range').map huuid, ?_⟩
    rintro i hi j hj rfl
    obtain ⟨k, -, rfl⟩ := List.mem_map.1 hj
    exact hfresh k hi
  · exact levelsOver_buildLevels le_rfl huuid hseeds (fun i _ => hfresh i) hbuild

end Runs

end OpsKnowledge.Knowledge
