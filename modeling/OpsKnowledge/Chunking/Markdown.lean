import OpsKnowledge.Chunking.Sections

/-!
# The markdown strategy

`markdown.py`: the text is cut at its headings. A heading whose body is too short for a chunk
of its own is carried forward, with its body, to the next section that has one; what is left
at the end of the text is one summary chunk, of any length.
-/

namespace OpsKnowledge.Chunking

open OpsKnowledge.Lib
open Knowledge (ChunkResult ChunkParams)

structure MarkdownParams extends ChunkParams where
  /-- Absent, `null` or a number. -/
  headingOnlyMinChars : Option (Option Int) := none

/-- `int(config.get("heading_only_min_chars", 30) or 0)` -/
def MarkdownParams.threshold (params : MarkdownParams) : Int :=
  (params.headingOnlyMinChars.getD (some 30)).getD 0

/-! ## The sections -/

/-- `#{1,3}` -/
def hashes : Regex := .between (.char (· = '#')) 1 2

/-- `_HEADING_RE` -/
def headingRe : Regex := .line (.seq hashes (.seq (.plus (.char isSpace)) (.plus (.char (· ≠ '\n')))))

/-- A match of the heading and the text up to the next one. The hashes end at white space. -/
def headingSection (m text : List Char) : Section where
  heading := m
  level := (m.takeWhile (· = '#')).length
  body := stripped text

def preambleSections (text : List Char) : List Section :=
  if (stripped text).isEmpty then [] else [{ heading := [], level := 0, body := stripped text }]

/-- `_split_by_headings` -/
def splitByHeadings (text : List Char) : List Section :=
  let segs := headingRe.findIter text
  if segs.1.isEmpty then [{ heading := [], level := 0, body := text }]
  else preambleSections segs.before ++
    (Regex.followed segs.1 segs.2).map fun p => headingSection p.1 p.2

example : (splitByHeadings "x\n## A\nb\n#c\n# D".toList).map (fun s => (s.level, String.ofList s.body)) =
    [(0, "x"), (2, "b\n#c"), (1, "")] := by decide

theorem sectionLines_preambleSections (text : List Char) :
    (preambleSections text).flatMap sectionLines = contentLines text := by
  unfold preambleSections
  split
  · next hnil =>
      have hblank := stripped_eq_nil_iff.1 (List.isEmpty_iff.1 hnil)
      rw [contentLines_eq_nil_iff.2 hblank]
      rfl
  · rw [List.flatMap_singleton, sectionLines, contentLines_stripped]
    rfl

/-- Each line that is not blank is in one section. -/
theorem sectionLines_splitByHeadings (text : List Char) :
    (splitByHeadings text).flatMap sectionLines = contentLines text := by
  have hlines := contentLines_segmented (Regex.segmented_findIter (r := headingRe) text)
  unfold splitByHeadings
  dsimp only
  split
  · rw [List.flatMap_singleton, sectionLines]
    rfl
  · rw [hlines, ← Regex.flatMap_followed contentLines contentLines, List.flatMap_append,
      sectionLines_preambleSections, List.flatMap_map]
    simp [sectionLines, headingSection]

/-! ## The loop over the sections -/

/-- `_is_heading_only` -/
def isHeadingOnly (body : List Char) (threshold : Int) : Bool :=
  0 < threshold && ((stripped body).length : Int) < threshold

/-- A section that is carried forward. -/
def isPending (threshold : Int) (s : Section) : Bool := !s.heading.isEmpty && isHeadingOnly s.body threshold

/-- The chunk of what is pending at the end of the text. -/
def summaryChunk (pending : List Section) (pos : Nat) : ChunkResult where
  content := String.ofList (joinBlocks (flushPending pending))
  level := (pending.head?.map Section.level).getD 0
  position := pos
  metadata := Dict.ofList [("heading", .str (String.ofList ((pending.getLast?.map Section.heading).getD [])))]

def markdownGroups (params : ChunkParams) (threshold : Int) :
    Nat → List Section → List Section → Option Groups
  | pos, pending, [] => some (if pending.isEmpty then [] else [(pending, [summaryChunk pending pos])])
  | pos, pending, s :: sections =>
      if isPending threshold s then markdownGroups params threshold pos (pending ++ [s]) sections
      else do
        -- What is pending is taken up here, also by a section that leaves no chunk.
        let chunks ← sectionOutput params pending s pos
        let groups ← markdownGroups params threshold (pos + chunks.length) [] sections
        some ((pending ++ [s], chunks) :: groups)

/-- `MarkdownStrategy.chunk` -/
def markdownChunk (text : List Char) (params : MarkdownParams) : Option (List ChunkResult) :=
  if (stripped text).isEmpty then some []
  else (markdownGroups params.toChunkParams params.threshold 0 [] (splitByHeadings text)).map Groups.chunks

/-- The sections of a text that is not blank. -/
def markdownSections (text : List Char) : List Section :=
  if (stripped text).isEmpty then [] else splitByHeadings text

theorem markdownChunk_eq (text : List Char) (params : MarkdownParams) :
    markdownChunk text params = (markdownGroups params.toChunkParams params.threshold 0 []
      (markdownSections text)).map Groups.chunks := by
  unfold markdownChunk markdownSections
  split <;> rfl

/-- The sections with a body, each behind what is carried forward to it. -/
def bodyRuns (threshold : Int) : List Section → List Section → List (List Section × Section)
  | _, [] => []
  | pending, s :: sections =>
      if isPending threshold s then bodyRuns threshold (pending ++ [s]) sections
      else (pending, s) :: bodyRuns threshold [] sections

section Runs

variable {params : ChunkParams} {threshold : Int} {pos : Nat} {pending sections : List Section}

theorem runKept_summaryChunk (pending : List Section) (pos : Nat) :
    RunKept pending [summaryChunk pending pos] := by
  have hprefix := inOrder_prefixBlock pending { heading := [], level := 0, body := [] }
  have hheadings : headingsOf (pending ++ [{ heading := [], level := 0, body := [] }]) =
      headingsOf pending := by
    unfold headingsOf
    rw [List.map_append, List.filter_append]
    exact List.append_nil _
  rw [hheadings] at hprefix
  constructor
  · intro _
    refine ⟨_, List.mem_cons_self, ?_⟩
    unfold summaryChunk
    rw [String.toList_ofList]
    simpa [prefixBlock, prefixParts] using hprefix
  · exact fun _ => List.cons_ne_nil _ _

theorem runsKept_markdownGroups_iff : RunsKept (markdownGroups params threshold pos pending sections) ↔
    ∀ run ∈ bodyRuns threshold pending sections, RunFits (params.chunkSize.getD 500) run.1 run.2 := by
  induction sections generalizing pos pending with
  | nil =>
      refine iff_of_true ?_ nofun
      unfold markdownGroups
      refine ⟨_, rfl, ?_⟩
      split
      · exact nofun
      · exact List.forall_mem_singleton.2 (runKept_summaryChunk pending pos)
  | cons s sections ih =>
      unfold markdownGroups bodyRuns
      split
      · exact ih
      · rw [List.forall_mem_cons]
        exact runsKept_sectionOutput_iff fun _ => ih

theorem runs_markdownGroups {groups : Groups}
    (h : markdownGroups params threshold pos pending sections = some groups) :
    groups.flatMap Prod.fst = pending ++ sections := by
  induction sections generalizing pos pending groups with
  | nil =>
      cases h
      rw [List.append_nil]
      split
      · next hnil => rw [List.isEmpty_iff.1 hnil]; rfl
      · rw [List.flatMap_singleton]
  | cons s sections ih =>
      unfold markdownGroups at h
      split at h
      · rw [ih h, List.append_assoc, List.singleton_append]
      · obtain ⟨chunks, -, h⟩ := Option.bind_eq_some_iff.1 h
        obtain ⟨rest, hrest, heq⟩ := Option.bind_eq_some_iff.1 h
        cases heq
        rw [List.flatMap_cons, ih hrest, List.nil_append, List.append_assoc, List.singleton_append]

end Runs

/-! ## The lengths of the chunks -/

/-- A heading and, where it is carried forward, its body, with the separators behind them. -/
def mergedLength (threshold : Int) (s : Section) : Nat :=
  (if s.heading.isEmpty then 0 else s.heading.length + 2) +
    if isPending threshold s then (stripped s.body).length + 2 else 0

/-- All sections of a run but its last are carried forward, and its chunks are bounded by the run. -/
structure RunBounded (params : ChunkParams) (threshold : Int) (run : List Section)
    (chunks : List ChunkResult) : Prop where
  short : ∀ s ∈ run.dropLast, s.heading ≠ [] ∧ ((stripped s.body).length : Int) < threshold
  length_le : ∀ c ∈ chunks, c.content.length ≤ (params.chunkSize.getD 500).toNat +
    (params.chunkOverlap.getD 50).toNat + (run.map (mergedLength threshold)).sum

section Lengths

variable {params : ChunkParams} {threshold : Int} {pos : Nat} {pending sections : List Section}

theorem isPending_iff {s : Section} : isPending threshold s = true ↔
    s.heading ≠ [] ∧ ((stripped s.body).length : Int) < threshold := by
  unfold isPending isHeadingOnly
  simp only [Bool.and_eq_true, Bool.not_eq_true', List.isEmpty_eq_false_iff, decide_eq_true_eq]
  constructor
  · exact fun h => ⟨h.1, h.2.2⟩
  · exact fun h => ⟨h.1, by omega, h.2⟩

theorem blocksLength_flushPending_le (hpending : ∀ s ∈ pending, isPending threshold s) :
    blocksLength (flushPending pending) ≤ (pending.map (mergedLength threshold)).sum := by
  induction pending with
  | nil => exact Nat.le_refl _
  | cons s pending ih =>
      rw [List.forall_mem_cons] at hpending
      have hrest := ih hpending.2
      have hheading : s.heading.isEmpty = false :=
        List.isEmpty_eq_false_iff.2 (isPending_iff.1 hpending.1).1
      have hone : blocksLength (flushPending (s :: pending)) ≤
          mergedLength threshold s + blocksLength (flushPending pending) := by
        unfold mergedLength blocksLength flushPending
        rw [if_pos hpending.1, hheading, List.flatMap_cons, List.map_append, List.sum_append]
        split <;> simp
      rw [List.map_cons, List.sum_cons]
      omega

theorem blocksLength_prefixParts_le (hpending : ∀ s ∈ pending, isPending threshold s) (own : Section) :
    blocksLength (prefixParts pending own) ≤ ((pending ++ [own]).map (mergedLength threshold)).sum := by
  have hflush := blocksLength_flushPending_le hpending
  have hown : blocksLength (if own.heading.isEmpty then [] else [own.heading]) ≤
      mergedLength threshold own := by
    unfold mergedLength blocksLength
    split <;> simp
  have hsplit : blocksLength (prefixParts pending own) = blocksLength (flushPending pending) +
      blocksLength (if own.heading.isEmpty then [] else [own.heading]) := by
    unfold blocksLength prefixParts
    rw [List.map_append, List.sum_append]
  rw [List.map_append, List.sum_append, List.map_singleton, List.sum_singleton]
  omega

theorem length_summaryChunk_le (hpending : ∀ s ∈ pending, isPending threshold s) (pos : Nat) :
    (summaryChunk pending pos).content.length ≤ (pending.map (mergedLength threshold)).sum := by
  have hflush := blocksLength_flushPending_le hpending
  unfold summaryChunk
  rw [String.length_ofList]
  by_cases hnil : flushPending pending = []
  · rw [hnil]
    exact Nat.zero_le _
  · have hjoin := length_joinBlocks hnil
    omega

theorem runBounded_markdownGroups (hpending : ∀ s ∈ pending, isPending threshold s) {groups : Groups}
    (h : markdownGroups params threshold pos pending sections = some groups) :
    ∀ g ∈ groups, RunBounded params threshold g.1 g.2 := by
  induction sections generalizing pos pending groups with
  | nil =>
      cases h
      split
      · exact nofun
      · refine List.forall_mem_singleton.2 ⟨?_, List.forall_mem_singleton.2 ?_⟩
        · exact fun s hs => isPending_iff.1 (hpending s (List.mem_of_mem_dropLast hs))
        · have hsummary := length_summaryChunk_le hpending pos
          dsimp only
          omega
  | cons s sections ih =>
      unfold markdownGroups at h
      split at h
      · next hs =>
          refine ih ?_ h
          intro s' hs'
          rcases List.mem_append.1 hs' with hs' | hs'
          · exact hpending s' hs'
          · rw [List.mem_singleton.1 hs']
            exact hs
      · obtain ⟨chunks, hchunks, h⟩ := Option.bind_eq_some_iff.1 h
        obtain ⟨rest, hrest, heq⟩ := Option.bind_eq_some_iff.1 h
        cases heq
        refine List.forall_mem_cons.2 ⟨⟨?_, ?_⟩, ih (fun _ hs => absurd hs List.not_mem_nil) hrest⟩
        · dsimp only
          rw [List.dropLast_concat]
          exact fun s' hs' => isPending_iff.1 (hpending s' hs')
        · intro c hc
          have hle := length_le_of_mem_sectionOutput hchunks c hc
          have hprefix := blocksLength_prefixParts_le hpending s
          dsimp only
          omega

end Lengths

/-- A chunk is up to the chunk size and the overlap, behind the headings and the short bodies of its run.
Without merging a run is one section. -/
theorem markdownChunk_bounded (text : List Char) (params : MarkdownParams) {chunks : List ChunkResult}
    (h : markdownChunk text params = some chunks) :
    ∃ groups : Groups, chunks = groups.chunks ∧ groups.flatMap Prod.fst = markdownSections text ∧
      ∀ g ∈ groups, RunBounded params.toChunkParams params.threshold g.1 g.2 ∧
        (params.threshold ≤ 0 → g.1.length ≤ 1) := by
  rw [markdownChunk_eq] at h
  obtain ⟨groups, hgroups, rfl⟩ := Option.map_eq_some_iff.1 h
  refine ⟨groups, rfl, runs_markdownGroups hgroups, ?_⟩
  intro g hg
  have hbounded := runBounded_markdownGroups (fun _ hs => absurd hs List.not_mem_nil) hgroups g hg
  refine ⟨hbounded, ?_⟩
  intro hoff
  have hnone : g.1.dropLast = [] := by
    rw [List.eq_nil_iff_forall_not_mem]
    intro s hs
    have hlt := (hbounded.short s hs).2
    omega
  have hlength := congrArg List.length hnone
  rw [List.length_dropLast, List.length_nil] at hlength
  omega

/-- A heading that is carried forward to the next one. -/
theorem markdownChunk_bounded_carried :
    ∃ groups : Groups, [{ content := "# A\n\n## B\n\ntext", level := 1
                          metadata := Dict.ofList [("heading", .str "## B")] }] = groups.chunks ∧
      groups.flatMap Prod.fst = markdownSections "# A\n## B\ntext".toList ∧
      ∀ g ∈ groups, RunBounded {} 3 g.1 g.2 ∧ ((3 : Int) ≤ 0 → g.1.length ≤ 1) :=
  markdownChunk_bounded "# A\n## B\ntext".toList { headingOnlyMinChars := some (some 3) } (by rfl)

/-- The chapters of a page without any text. -/
def contentsPage : List Char :=
  ("# Chapter 1\n# Chapter 2\n# Chapter 3\n# Chapter 4\n" ++
    "# Chapter 5\n# Chapter 6\n# Chapter 7\n# Chapter 8").toList

def smallChunks : MarkdownParams := { chunkSize := some 50, chunkOverlap := some 0 }

theorem lengths_contentsPage :
    (markdownChunk contentsPage smallChunks).map (fun chunks => chunks.map fun c => c.content.length) =
      some [102] := by decide +kernel

theorem headings_contentsPage : ∀ s ∈ splitByHeadings contentsPage, s.heading.length = 11 := by decide +kernel

/-- The summary of a page of headings is longer than any three of them account for. -/
theorem summary_exceeds_threeHeadings : ¬ ∀ (text : List Char) (params : MarkdownParams)
    (chunks : List ChunkResult), markdownChunk text params = some chunks → ∀ c ∈ chunks,
      ∃ headings : List (List Char), headings.length ≤ 3 ∧
        (∀ heading ∈ headings, ∃ s ∈ splitByHeadings text, s.heading = heading) ∧
        c.content.length ≤ (params.chunkSize.getD 500).toNat + (params.chunkOverlap.getD 50).toNat +
          blocksLength headings := by
  intro h
  obtain ⟨chunks, hchunks, hlengths⟩ := Option.map_eq_some_iff.1 lengths_contentsPage
  obtain ⟨c, rfl, hlength⟩ := List.map_eq_singleton_iff.1 hlengths
  obtain ⟨headings, hthree, hmem, hle⟩ := h contentsPage smallChunks [c] hchunks c List.mem_cons_self
  have hblocks : blocksLength headings = headings.length * 13 := by
    have hsame : ∀ heading ∈ headings, heading.length + 2 = 13 := by
      intro heading hheading
      obtain ⟨s, hs, rfl⟩ := hmem heading hheading
      rw [headings_contentsPage s hs]
    unfold blocksLength
    rw [List.map_congr_left hsame]
    simp
  have hroom : (smallChunks.chunkSize.getD 500).toNat + (smallChunks.chunkOverlap.getD 50).toNat = 50 := rfl
  omega

end OpsKnowledge.Chunking
