import OpsKnowledge.Chunking.Html
import OpsKnowledge.Chunking.Markdown
import OpsKnowledge.Chunking.PdfLayout

/-!
# Sections that are lost

The three strategies that detect sections put each line of a text in one section. A section
too large for one chunk has the chunks of its body; where these are none, its heading is lost,
and with it what was carried forward to it.
-/

namespace OpsKnowledge.Chunking

open OpsKnowledge.Lib
open Knowledge (ChunkResult ChunkParams)

/-- A strategy that detects sections, with what it asks beside the text. -/
inductive SectionStrategy where
  | markdown (headingOnlyMinChars : Option (Option Int))
  | pdfLayout (u : Unicode)
  | html (parse : List Char → Soup)

namespace SectionStrategy

variable (strategy : SectionStrategy) (text : List Char) (params : ChunkParams)

def markdownParams (headingOnlyMinChars : Option (Option Int)) (params : ChunkParams) : MarkdownParams :=
  { params with headingOnlyMinChars }

def chunk : Option (List ChunkResult) :=
  match strategy with
  | markdown headingOnlyMinChars => markdownChunk text (markdownParams headingOnlyMinChars params)
  | pdfLayout u => pdfLayoutChunk u text params
  | html parse => htmlChunk parse text params

/-- The text that the sections are taken from. -/
def cleaned : List Char :=
  match strategy with
  | markdown _ => text
  | pdfLayout u => cleanPdfArtifacts u text
  | html parse => htmlText (parse text)

def sections : List Section :=
  if (stripped text).isEmpty then []
  else
    match strategy with
    | markdown _ => splitByHeadings text
    | pdfLayout u => splitSections u (cleanPdfArtifacts u text)
    | html parse => extractSections (parse text)

/-- The lines of a text that are not blank. -/
def lines : List (List Char) := if (stripped text).isEmpty then [] else contentLines (strategy.cleaned text)

/-- The sections in runs, each with its chunks. -/
def groups : Option Groups :=
  match strategy with
  | markdown headingOnlyMinChars =>
      markdownGroups params (markdownParams headingOnlyMinChars params).threshold 0 []
        (strategy.sections text)
  | pdfLayout _ | html _ => sectionGroups params 0 (strategy.sections text)

/-- Each section that is not carried forward, behind those that are carried forward to it. -/
def runs : List (List Section × Section) :=
  match strategy with
  | markdown headingOnlyMinChars =>
      bodyRuns (markdownParams headingOnlyMinChars params).threshold [] (strategy.sections text)
  | pdfLayout _ | html _ => (strategy.sections text).map fun s => ([], s)

/-- Each line is in one section, the chunks are those of the runs of all sections, and each run has its
headings in them. -/
structure KeepsSections : Prop where
  lines : strategy.lines text = (strategy.sections text).flatMap sectionLines
  kept : ∃ groups : Groups, strategy.groups text params = some groups ∧
    strategy.chunk text params = some groups.chunks ∧
    groups.flatMap Prod.fst = strategy.sections text ∧ ∀ g ∈ groups, RunKept g.1 g.2

variable {strategy text params}

theorem chunk_eq : strategy.chunk text params = (strategy.groups text params).map Groups.chunks := by
  cases strategy with
  | markdown headingOnlyMinChars => exact markdownChunk_eq text _
  | pdfLayout u =>
      simp only [chunk, groups, sections, pdfLayoutChunk]
      split <;> rfl
  | html parse =>
      simp only [chunk, groups, sections, htmlChunk]
      split <;> rfl

theorem lines_eq : strategy.lines text = (strategy.sections text).flatMap sectionLines := by
  unfold lines sections
  split
  · rfl
  · cases strategy with
    | markdown => exact (sectionLines_splitByHeadings text).symm
    | pdfLayout u => exact (sectionLines_splitSections u _).symm
    | html parse => exact (sectionLines_extractSections (parse text)).symm

theorem runs_groups {groups : Groups} (h : strategy.groups text params = some groups) :
    groups.flatMap Prod.fst = strategy.sections text := by
  cases strategy with
  | markdown => exact runs_markdownGroups h
  | pdfLayout | html => exact runs_sectionGroups h

theorem runsKept_groups_iff : RunsKept (strategy.groups text params) ↔
    ∀ run ∈ strategy.runs text params, RunFits (params.chunkSize.getD 500) run.1 run.2 := by
  cases strategy with
  | markdown => exact runsKept_markdownGroups_iff
  | pdfLayout | html =>
      unfold groups runs
      rw [runsKept_sectionGroups_iff]
      simp

theorem keepsSections_iff_runsKept :
    strategy.KeepsSections text params ↔ RunsKept (strategy.groups text params) := by
  constructor
  · rintro ⟨-, groups, hgroups, -, -, hkept⟩
    exact ⟨groups, hgroups, hkept⟩
  · rintro ⟨groups, hgroups, hkept⟩
    refine ⟨lines_eq, groups, hgroups, ?_, runs_groups hgroups, hkept⟩
    rw [chunk_eq, hgroups]
    rfl

end SectionStrategy

/-- No section is lost exactly when each run fits in a chunk or the body of its section leaves one. -/
theorem keepsSections_iff_runsFit (strategy : SectionStrategy) (text : List Char) (params : ChunkParams) :
    strategy.KeepsSections text params ↔
      ∀ run ∈ strategy.runs text params, RunFits (params.chunkSize.getD 500) run.1 run.2 :=
  SectionStrategy.keepsSections_iff_runsKept.trans SectionStrategy.runsKept_groups_iff

/-- An item of a numbered list. -/
def numberedItem : List Char := "1. Restart the ingestion worker before every nightly backup run".toList

theorem sections_numberedItem : (SectionStrategy.pdfLayout asciiOnly).sections numberedItem =
    [{ heading := numberedItem, level := 1, body := [] }] := by decide +kernel

theorem chunk_numberedItem :
    ((SectionStrategy.pdfLayout asciiOnly).chunk numberedItem { chunkSize := some 50 }).map List.length =
      some 0 := by decide +kernel

/-- An item that is longer than a chunk is a heading without a body, and in no chunk. -/
theorem numberedItem_lost : ¬ ∀ (strategy : SectionStrategy) (text : List Char) (params : ChunkParams),
    strategy.KeepsSections text params := by
  intro h
  obtain ⟨-, groups, -, hchunk, hruns, hkept⟩ :=
    h (.pdfLayout asciiOnly) numberedItem { chunkSize := some 50 }
  have hnone := chunk_numberedItem
  rw [hchunk, Option.map_some, Option.some_inj, List.length_eq_zero_iff] at hnone
  have hitem : { heading := numberedItem, level := 1, body := [] } ∈ groups.flatMap Prod.fst := by
    rw [hruns, sections_numberedItem]
    exact List.mem_cons_self
  obtain ⟨g, hg, hmem⟩ := List.mem_flatMap.1 hitem
  obtain ⟨c, hc, -⟩ := (hkept g hg).headings (headingsOf_ne_nil hmem (by decide))
  have hchunks : c ∈ groups.chunks := List.mem_flatMap.2 ⟨g, hg, hc⟩
  rw [hnone] at hchunks
  cases hchunks

end OpsKnowledge.Chunking
