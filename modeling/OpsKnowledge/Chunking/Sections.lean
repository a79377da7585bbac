import OpsKnowledge.Lib.Lines
import OpsKnowledge.Chunking.Separators

/-!
# Chunks of sections

What the strategies that detect sections do with one: a section is a chunk with its heading
where it fits, and otherwise the chunks of its body, the first of them with the heading.
Headings and short bodies that were carried forward stand before it.
-/

namespace OpsKnowledge.Chunking

open OpsKnowledge.Lib
open Knowledge (ChunkResult ChunkParams)

structure Section where
  heading : List Char
  level : Nat
  body : List Char
deriving DecidableEq

/-- `"\n\n".join(parts)` -/
def joinBlocks (parts : List (List Char)) : List Char := ['\n', '\n'].intercalate parts

/-- `_flush_pending_to_parts` -/
def flushPending (pending : List Section) : List (List Char) :=
  pending.flatMap fun s => s.heading :: if (stripped s.body).isEmpty then [] else [stripped s.body]

section Output

variable (params : ChunkParams) (pending : List Section) (own : Section)

/-- What was carried forward, and the heading. -/
def prefixParts : List (List Char) :=
  flushPending pending ++ if own.heading.isEmpty then [] else [own.heading]

def prefixBlock : List Char := joinBlocks (prefixParts pending own)

def blockContent : List Char :=
  if (prefixBlock pending own).isEmpty then stripped own.body
  else stripped (joinBlocks [prefixBlock pending own, own.body])

def headingMetadata (heading : List Char) : Dict String Workflow.Json :=
  if heading.isEmpty then Dict.empty else Dict.ofList [("heading", .str (String.ofList heading))]

/-- The nearest heading. -/
def metaHeading : List Char :=
  if own.heading.isEmpty then (pending.getLast?.map Section.heading).getD [] else own.heading

/-- The level of the outermost heading. -/
def outerLevel : Nat := (pending.head?.map Section.level).getD own.level

/-- The chunk `sc` of the body, the `i`-th of them, in its place behind `pos` results. -/
def placeChunk (pos i : Nat) (sc : ChunkResult) : ChunkResult :=
  { sc with
    content :=
      if i = 0 ∧ (prefixBlock pending own).isEmpty = false then
        String.ofList (joinBlocks [prefixBlock pending own, sc.content.toList])
      else sc.content
    level := outerLevel pending own
    position := pos + i
    metadata := headingMetadata (metaHeading pending own) }

/-- What one section adds to `pos` results. -/
def sectionOutput (pos : Nat) : Option (List ChunkResult) :=
  let content := blockContent pending own
  if content.isEmpty then some []
  else if (content.length : Int) ≤ params.chunkSize.getD 500 then
    some [{ content := String.ofList content, level := outerLevel pending own, position := pos
            metadata := headingMetadata (metaHeading pending own) }]
  else do
    -- Only the body is split again: the headings stand before its first chunk, if there is one.
    let sub ← recursiveChunk own.body
      { chunkSize := some (params.chunkSize.getD 500), chunkOverlap := some (params.chunkOverlap.getD 50) }
    some (sub.mapIdx (placeChunk pending own pos))

end Output

/-- Runs of sections, each with its chunks, in the order of the text. -/
abbrev Groups := List (List Section × List ChunkResult)

def Groups.chunks (groups : Groups) : List ChunkResult := groups.flatMap Prod.snd

/-- The loop over sections of which each stands alone. -/
def sectionGroups (params : ChunkParams) : Nat → List Section → Option Groups
  | _, [] => some []
  | pos, s :: sections => do
      let chunks ← sectionOutput params [] s pos
      let rest ← sectionGroups params (pos + chunks.length) sections
      some (([s], chunks) :: rest)

/-! ## Collecting sections -/

/-- What an element of a text is: a heading with its level, or blocks of a body. -/
abbrev Reading := (List Char × Nat) ⊕ List (List Char)

/-- The lines of an element that are not blank. -/
def readingLines : Reading → List (List Char)
  | .inl (heading, _) => contentLines heading
  | .inr blocks => blocks.flatMap contentLines

/-- Without a heading and a body there is no section. -/
def flushSection (heading : List Char) (level : Nat) (body : List Char) : List Section :=
  if heading.isEmpty && (stripped body).isEmpty then [] else [{ heading, level, body }]

/-- The loop over the elements, with the section that is under way. -/
def collectSections {α : Type} (join : List (List Char) → List Char) (read : α → Reading)
    (heading : List Char) (level : Nat) (blocks : List (List Char)) : List α → List Section
  | [] => flushSection heading level (join blocks)
  | x :: xs =>
      match read x with
      | .inl (heading', level') =>
          flushSection heading level (join blocks) ++ collectSections join read heading' level' [] xs
      | .inr more => collectSections join read heading level (blocks ++ more) xs

/-- The lines that a section has in its heading and its body. -/
def sectionLines (s : Section) : List (List Char) := contentLines s.heading ++ contentLines s.body

theorem sectionLines_flushSection (heading : List Char) (level : Nat) (body : List Char) :
    (flushSection heading level body).flatMap sectionLines = contentLines heading ++ contentLines body := by
  unfold flushSection
  split
  · next hempty =>
      rw [Bool.and_eq_true, List.isEmpty_iff, List.isEmpty_iff] at hempty
      rw [hempty.1, contentLines_eq_nil_iff.2 (stripped_eq_nil_iff.1 hempty.2)]
      rfl
  · rw [List.flatMap_singleton]
    rfl

/-- The sections have the lines of the elements, in their order. -/
theorem sectionLines_collectSections {α : Type} {join : List (List Char) → List Char}
    (hjoin : ∀ blocks, contentLines (join blocks) = blocks.flatMap contentLines) (read : α → Reading)
    (heading : List Char) (level : Nat) (blocks : List (List Char)) (xs : List α) :
    (collectSections join read heading level blocks xs).flatMap sectionLines =
      contentLines heading ++ blocks.flatMap contentLines ++ xs.flatMap fun x => readingLines (read x) := by
  induction xs generalizing heading level blocks with
  | nil =>
      unfold collectSections
      rw [sectionLines_flushSection, hjoin, List.flatMap_nil, List.append_nil]
  | cons x xs ih =>
      unfold collectSections
      rw [List.flatMap_cons]
      cases read x with
      | inl found =>
          dsimp only
          rw [List.flatMap_append, sectionLines_flushSection, hjoin, ih]
          simp [readingLines]
      | inr more =>
          dsimp only
          rw [ih]
          simp [readingLines]

/-- A section that is found has a line that is not blank. -/
theorem sectionLines_ne_nil_of_mem_flushSection {heading : List Char} (htrim : Trim heading) {level : Nat}
    {body : List Char} : ∀ s ∈ flushSection heading level body, sectionLines s ≠ [] := by
  unfold flushSection
  split
  · exact nofun
  · next hfound =>
      refine List.forall_mem_singleton.2 ?_
      intro hnil
      apply hfound
      obtain ⟨hheading, hbody⟩ := List.append_eq_nil_iff.1 hnil
      have hblank := stripped_eq_nil_iff.2 (contentLines_eq_nil_iff.1 hheading)
      rw [htrim.stripped_eq] at hblank
      have hblank' := stripped_eq_nil_iff.2 (contentLines_eq_nil_iff.1 hbody)
      simp [hblank, hblank']

theorem sectionLines_ne_nil_of_mem_collectSections {α : Type} {join : List (List Char) → List Char}
    {read : α → Reading} (hread : ∀ x found, read x = .inl found → Trim found.1) {heading : List Char}
    (htrim : Trim heading) {level : Nat} {blocks : List (List Char)} {xs : List α} :
    ∀ s ∈ collectSections join read heading level blocks xs, sectionLines s ≠ [] := by
  induction xs generalizing heading level blocks with
  | nil => exact sectionLines_ne_nil_of_mem_flushSection htrim
  | cons x xs ih =>
      unfold collectSections
      cases hx : read x with
      | inl found =>
          intro s hs
          rcases List.mem_append.1 hs with hs | hs
          · exact sectionLines_ne_nil_of_mem_flushSection htrim s hs
          · exact ih (hread x found hx) s hs
      | inr more => exact ih htrim

/-! ## Sections that are kept -/

def headingsOf (run : List Section) : List (List Char) :=
  (run.map fun s => stripped s.heading).filter (!·.isEmpty)

/-- The headings of a run of sections are in one of its chunks, in their order, and a run with a body that
is not blank has a chunk. -/
structure RunKept (run : List Section) (chunks : List ChunkResult) : Prop where
  headings : headingsOf run ≠ [] → ∃ c ∈ chunks, InOrder (headingsOf run) c.content.toList
  bodies : (∃ s ∈ run, marks s.body ≠ []) → chunks ≠ []

/-- A run fits in one chunk, or the body of its last section leaves a chunk for its headings. -/
def RunFits (chunkSize : Int) (pending : List Section) (own : Section) : Prop :=
  ((blockContent pending own).length : Int) ≤ chunkSize ∨ blockContent pending own = [] ∨
    marks own.body ≠ [] ∧ 1 ≤ chunkSize ∧
      ¬ (chunkSize < (own.body.length : Int) ∧ Crumbles chunkSize own.body)

section Kept

variable {params : ChunkParams} {pending : List Section} {own : Section} {pos : Nat}
  {chunks : List ChunkResult}

theorem headingsOf_trim (run : List Section) : ∀ x ∈ headingsOf run, Trim x ∧ x ≠ [] := by
  intro x hx
  obtain ⟨hmem, hne⟩ := List.mem_filter.1 hx
  obtain ⟨s, -, rfl⟩ := List.mem_map.1 hmem
  exact ⟨trim_stripped _, by simpa using hne⟩

theorem headingsOf_ne_nil {run : List Section} {s : Section} (hs : s ∈ run) (hmark : marks s.heading ≠ []) :
    headingsOf run ≠ [] := by
  have hmem : stripped s.heading ∈ headingsOf run := by
    refine List.mem_filter.2 ⟨List.mem_map_of_mem hs, ?_⟩
    have hne : stripped s.heading ≠ [] := fun hnil => hmark (stripped_eq_nil_iff.1 hnil)
    simpa using hne
  exact List.ne_nil_of_mem hmem

theorem joinBlocks_cons (x : List Char) (parts : List (List Char)) :
    ∃ between, joinBlocks (x :: parts) = x ++ (between ++ joinBlocks parts) := by
  cases parts with
  | nil => exact ⟨[], by simp [joinBlocks]⟩
  | cons y parts => exact ⟨['\n', '\n'], by simp [joinBlocks, List.intercalate_cons_cons]⟩

theorem marks_joinBlocks (parts : List (List Char)) : marks (joinBlocks parts) = parts.flatMap marks :=
  filter_intercalate (by decide) parts

/-- The headings of a run are in its prefix block, in their order. -/
theorem inOrder_prefixBlock (pending : List Section) (own : Section) :
    InOrder (headingsOf (pending ++ [own])) (prefixBlock pending own) := by
  have hfirst : ∀ (x t : List Char) (xs : List (List Char)), InOrder xs t →
      InOrder ([stripped x].filter (!·.isEmpty) ++ xs) (x ++ t) := by
    intro x t xs h
    by_cases hnil : stripped x = []
    · rw [hnil]
      exact h.append_left x
    · obtain ⟨l, r, hx, -, -⟩ := exists_margins x
      rw [List.filter_cons_of_pos (by simpa using hnil)]
      refine ⟨l, r ++ t, ?_, h.append_left r⟩
      conv_lhs => rw [hx]
      rw [List.append_assoc _ r]
  have hskip : ∀ (x : List Char) (parts xs : List (List Char)), InOrder xs (joinBlocks parts) →
      InOrder xs (joinBlocks (x :: parts)) := by
    intro x parts xs h
    obtain ⟨between, heq⟩ := joinBlocks_cons x parts
    rw [heq]
    exact (h.append_left between).append_left x
  unfold prefixBlock prefixParts
  induction pending with
  | nil =>
      by_cases hnil : own.heading = []
      · simp [headingsOf, hnil, stripped, InOrder]
      · have hone := hfirst own.heading [] [] trivial
        simpa [headingsOf, flushPending, hnil, joinBlocks] using hone
  | cons s pending ih =>
      have hsplit : headingsOf (s :: pending ++ [own]) =
          [stripped s.heading].filter (!·.isEmpty) ++ headingsOf (pending ++ [own]) := by
        unfold headingsOf
        rw [List.cons_append, List.map_cons, ← List.singleton_append, List.filter_append]
      have hrest : InOrder (headingsOf (pending ++ [own]))
          (joinBlocks ((if (stripped s.body).isEmpty then [] else [stripped s.body]) ++
            (flushPending pending ++ if own.heading.isEmpty then [] else [own.heading]))) := by
        split
        · exact ih
        · exact hskip _ _ _ ih
      have hparts : flushPending (s :: pending) = s.heading ::
          ((if (stripped s.body).isEmpty then [] else [stripped s.body]) ++ flushPending pending) := rfl
      rw [hsplit, hparts, List.cons_append, List.append_assoc]
      obtain ⟨between, heq⟩ := joinBlocks_cons s.heading _
      rw [heq]
      exact hfirst _ _ _ (hrest.append_left between)

/-- The headings of a run are in the content of its block. -/
theorem inOrder_blockContent (pending : List Section) (own : Section) :
    InOrder (headingsOf (pending ++ [own])) (blockContent pending own) := by
  have hblock := inOrder_prefixBlock pending own
  unfold blockContent
  split
  · next hnil =>
      rw [List.isEmpty_iff.1 hnil] at hblock
      have hblank := hblock.append_right (stripped own.body)
      rwa [List.nil_append] at hblank
  · obtain ⟨between, heq⟩ := joinBlocks_cons (prefixBlock pending own) [own.body]
    rw [heq]
    exact (hblock.append_right _).stripped (headingsOf_trim _)

/-- The content of a run has all its marks. -/
theorem marks_blockContent (pending : List Section) (own : Section) : marks (blockContent pending own) =
    (pending ++ [own]).flatMap fun s => marks s.heading ++ marks s.body := by
  have hflush : (flushPending pending).flatMap marks =
      pending.flatMap fun s => marks s.heading ++ marks s.body := by
    unfold flushPending
    rw [List.flatMap_assoc]
    congr 1
    funext s
    by_cases hnil : stripped s.body = []
    · simp [hnil, stripped_eq_nil_iff.1 hnil]
    · simp [hnil]
  have hblock : marks (prefixBlock pending own) =
      (pending.flatMap fun s => marks s.heading ++ marks s.body) ++ marks own.heading := by
    rw [prefixBlock, prefixParts, marks_joinBlocks, List.flatMap_append, hflush]
    congr 1
    split
    · next hnil =>
        rw [List.isEmpty_iff.1 hnil]
        rfl
    · rw [List.flatMap_singleton]
  rw [List.flatMap_append, List.flatMap_singleton, ← List.append_assoc, ← hblock]
  unfold blockContent
  split
  · next hnil => rw [marks_stripped, List.isEmpty_iff.1 hnil, marks_nil, List.nil_append]
  · rw [marks_stripped, marks_joinBlocks]
    simp

theorem blockContent_eq_nil_iff : blockContent pending own = [] ↔
    ∀ s ∈ pending ++ [own], marks s.heading = [] ∧ marks s.body = [] := by
  have hmarks := marks_blockContent pending own
  constructor
  · intro hnil s hs
    rw [hnil, marks_nil] at hmarks
    exact List.append_eq_nil_iff.1 (List.flatMap_eq_nil_iff.1 hmarks.symm s hs)
  · intro hall
    have hblank : marks (blockContent pending own) = [] := by
      rw [hmarks, List.flatMap_eq_nil_iff]
      exact fun s hs => List.append_eq_nil_iff.2 (hall s hs)
    have hstripped : stripped (blockContent pending own) = blockContent pending own := by
      unfold blockContent
      split <;> rw [stripped_stripped]
    rw [← hstripped]
    exact stripped_eq_nil_iff.2 hblank

theorem not_runKept_nil (h : blockContent pending own ≠ []) : ¬ RunKept (pending ++ [own]) [] := by
  intro hkept
  apply h
  rw [blockContent_eq_nil_iff]
  intro s hs
  constructor
  · by_contra hmark
    obtain ⟨c, hc, -⟩ := hkept.headings (headingsOf_ne_nil hs hmark)
    cases hc
  · by_contra hmark
    exact hkept.bodies ⟨s, hs, hmark⟩ rfl

theorem runKept_nil (h : blockContent pending own = []) : RunKept (pending ++ [own]) [] := by
  have hall := blockContent_eq_nil_iff.1 h
  constructor
  · intro hne
    obtain ⟨x, hx⟩ := List.exists_mem_of_ne_nil _ hne
    have hin := (inOrder_blockContent pending own).infix_of_mem hx
    rw [h] at hin
    exact absurd (List.infix_nil.1 hin) (headingsOf_trim _ x hx).2
  · rintro ⟨s, hs, hmark⟩
    exact absurd (hall s hs).2 hmark

/-- The output of a section keeps its run exactly when the run fits. -/
theorem runKept_iff_runFits :
    (∃ chunks, sectionOutput params pending own pos = some chunks ∧ RunKept (pending ++ [own]) chunks) ↔
      RunFits (params.chunkSize.getD 500) pending own := by
  unfold sectionOutput
  dsimp only
  by_cases hnil : blockContent pending own = []
  · rw [if_pos (by simpa using hnil)]
    exact iff_of_true ⟨[], rfl, runKept_nil hnil⟩ (.inr (.inl hnil))
  · rw [if_neg (by simpa using hnil)]
    by_cases hfits : ((blockContent pending own).length : Int) ≤ params.chunkSize.getD 500
    · rw [if_pos hfits]
      refine iff_of_true ⟨_, rfl, ?_, fun _ => List.cons_ne_nil _ _⟩ (.inl hfits)
      intro _
      refine ⟨_, List.mem_cons_self, ?_⟩
      rw [String.toList_ofList]
      exact inOrder_blockContent pending own
    · rw [if_neg hfits]
      unfold RunFits
      rw [or_iff_right hfits, or_iff_right hnil]
      constructor
      · rintro ⟨chunks, hchunks, hkept⟩
        obtain ⟨sub, hsub, heq⟩ := Option.bind_eq_some_iff.1 hchunks
        cases heq
        cases sub with
        -- The content is not blank, so a run without a chunk loses a heading or a body.
        | nil => exact absurd hkept (not_runKept_nil hnil)
        | cons c cs =>
            have hmark : marks own.body ≠ [] := by
              intro hblank
              unfold recursiveChunk at hsub
              rw [if_pos (by simpa using stripped_eq_nil_iff.2 hblank)] at hsub
              cases hsub
            exact ⟨hmark, (recursiveChunk_eq_cons_iff hmark).1 ⟨c, cs, hsub⟩⟩
      · rintro ⟨hmark, hroom⟩
        obtain ⟨c, cs, hsub⟩ := (recursiveChunk_eq_cons_iff hmark).2 hroom
        rw [hsub]
        refine ⟨_, rfl, ?_, fun _ => by simp⟩
        intro hne
        refine ⟨placeChunk pending own pos 0 c, by simp [List.mapIdx_cons], ?_⟩
        have hheads := inOrder_prefixBlock pending own
        have hblock : (prefixBlock pending own).isEmpty = false := by
          obtain ⟨x, hx⟩ := List.exists_mem_of_ne_nil _ hne
          have hin := hheads.infix_of_mem hx
          cases hempty : prefixBlock pending own with
          | nil =>
              rw [hempty] at hin
              exact absurd (List.infix_nil.1 hin) (headingsOf_trim _ x hx).2
          | cons _ _ => rfl
        unfold placeChunk
        dsimp only
        rw [if_pos ⟨rfl, hblock⟩, String.toList_ofList]
        obtain ⟨between, heq⟩ := joinBlocks_cons (prefixBlock pending own) [c.content.toList]
        rw [heq]
        exact hheads.append_right _

end Kept

/-! ## The lengths of the chunks -/

/-- Blocks that are joined, each with the separator behind it. -/
def blocksLength (parts : List (List Char)) : Nat := (parts.map fun part => part.length + 2).sum

theorem length_joinBlocks {parts : List (List Char)} (hne : parts ≠ []) :
    (joinBlocks parts).length + 2 = blocksLength parts := by
  induction parts with
  | nil => exact absurd rfl hne
  | cons part parts ih =>
      cases parts with
      | nil => simp [joinBlocks, blocksLength]
      | cons part' parts =>
          have hrest := ih (List.cons_ne_nil _ _)
          unfold joinBlocks blocksLength at hrest ⊢
          rw [List.intercalate_cons_cons, List.length_append, List.length_append, List.map_cons,
            List.sum_cons, ← hrest]
          simp
          omega

/-- A chunk is at most a chunk of the body behind the block of the headings. -/
theorem length_le_of_mem_sectionOutput {params : ChunkParams} {pending : List Section} {own : Section}
    {pos : Nat} {chunks : List ChunkResult} (h : sectionOutput params pending own pos = some chunks) :
    ∀ c ∈ chunks, c.content.length ≤ (params.chunkSize.getD 500).toNat + (params.chunkOverlap.getD 50).toNat +
      blocksLength (prefixParts pending own) := by
  unfold sectionOutput at h
  dsimp only at h
  split at h
  · cases h
    exact nofun
  · split at h
    · next hfits =>
        cases h
        refine List.forall_mem_singleton.2 ?_
        rw [String.length_ofList]
        omega
    · obtain ⟨sub, hsub, heq⟩ := Option.bind_eq_some_iff.1 h
      cases heq
      intro c hc
      obtain ⟨i, hi, rfl⟩ := List.mem_mapIdx.1 hc
      have hbody : sub[i].content.length ≤
          (params.chunkSize.getD 500).toNat + (params.chunkOverlap.getD 50).toNat :=
        length_le_of_mem_recursiveChunk hsub (List.getElem_mem hi)
      unfold placeChunk
      dsimp only
      split
      · next hfirst =>
          have hparts : prefixParts pending own ≠ [] := by
            intro hnil
            have hempty : prefixBlock pending own = [] := congrArg joinBlocks hnil
            rw [hempty] at hfirst
            cases hfirst.2
          have hblock : (prefixBlock pending own).length + 2 = _ := length_joinBlocks hparts
          have hjoin := length_joinBlocks
            (List.cons_ne_nil (prefixBlock pending own) [sub[i].content.toList])
          have hblocks : blocksLength [prefixBlock pending own, sub[i].content.toList] =
              (prefixBlock pending own).length + 2 + (sub[i].content.length + 2) := by
            simp [blocksLength, String.length_toList]
          rw [String.length_ofList]
          omega
      · omega

/-! ## All runs -/

/-- No step raises, and every run is kept. -/
def RunsKept (groups : Option Groups) : Prop := ∃ gs, groups = some gs ∧ ∀ g ∈ gs, RunKept g.1 g.2

theorem runsKept_cons {output : Option (List ChunkResult)} {run : List Section}
    {rest : List ChunkResult → Option Groups} :
    RunsKept (do
      let chunks ← output
      let groups ← rest chunks
      some ((run, chunks) :: groups)) ↔
    ∃ chunks, output = some chunks ∧ RunKept run chunks ∧ RunsKept (rest chunks) := by
  constructor
  · rintro ⟨gs, hgs, hkept⟩
    obtain ⟨chunks, houtput, hgs⟩ := Option.bind_eq_some_iff.1 hgs
    obtain ⟨groups, hgroups, heq⟩ := Option.bind_eq_some_iff.1 hgs
    cases heq
    rw [List.forall_mem_cons] at hkept
    exact ⟨chunks, houtput, hkept.1, groups, hgroups, hkept.2⟩
  · rintro ⟨chunks, houtput, hrun, groups, hgroups, hrest⟩
    refine ⟨(run, chunks) :: groups, ?_, List.forall_mem_cons.2 ⟨hrun, hrest⟩⟩
    rw [houtput, Option.bind_eq_bind, Option.bind_some, hgroups]
    rfl

/-- One run more, where what follows does not depend on the chunks of it. -/
theorem runsKept_sectionOutput_iff {params : ChunkParams} {pending : List Section} {own : Section} {pos : Nat}
    {rest : List ChunkResult → Option Groups} {Q : Prop} (hrest : ∀ chunks, RunsKept (rest chunks) ↔ Q) :
    RunsKept (do
      let chunks ← sectionOutput params pending own pos
      let groups ← rest chunks
      some ((pending ++ [own], chunks) :: groups)) ↔
    RunFits (params.chunkSize.getD 500) pending own ∧ Q := by
  rw [runsKept_cons, ← @runKept_iff_runFits params pending own pos]
  constructor
  · rintro ⟨chunks, houtput, hrun, hkept⟩
    exact ⟨⟨chunks, houtput, hrun⟩, (hrest chunks).1 hkept⟩
  · rintro ⟨⟨chunks, houtput, hrun⟩, hkept⟩
    exact ⟨chunks, houtput, hrun, (hrest chunks).2 hkept⟩

theorem runsKept_sectionGroups_iff {params : ChunkParams} {pos : Nat} {sections : List Section} :
    RunsKept (sectionGroups params pos sections) ↔
      ∀ s ∈ sections, RunFits (params.chunkSize.getD 500) [] s := by
  induction sections generalizing pos with
  | nil => exact iff_of_true ⟨[], rfl, nofun⟩ nofun
  | cons s sections ih =>
      rw [List.forall_mem_cons]
      exact runsKept_sectionOutput_iff fun _ => ih

theorem runs_sectionGroups {params : ChunkParams} {pos : Nat} {sections : List Section} {groups : Groups}
    (h : sectionGroups params pos sections = some groups) : groups.flatMap Prod.fst = sections := by
  induction sections generalizing pos groups with
  | nil =>
      cases h
      rfl
  | cons s sections ih =>
      obtain ⟨chunks, -, h⟩ := Option.bind_eq_some_iff.1 h
      obtain ⟨rest, hrest, heq⟩ := Option.bind_eq_some_iff.1 h
      cases heq
      rw [List.flatMap_cons, ih hrest]
      rfl

end OpsKnowledge.Chunking
