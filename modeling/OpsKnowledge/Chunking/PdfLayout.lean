import OpsKnowledge.Chunking.Sections

/-!
# The PDF strategy

`pdf_layout.py`: page numbers and page breaks are taken out of the text, and each line that
looks like a heading begins a section.
-/

namespace OpsKnowledge.Chunking

open OpsKnowledge.Lib
open Knowledge (ChunkResult ChunkParams)

/-! ## Headings -/

/-- `\d+(?:\.\d+)*\.?` -/
def numberRe (u : Unicode) : Regex :=
  .seq (.plus (.digit u)) (.seq (.star (.seq (.char (· = '.')) (.plus (.digit u)))) (.opt (.char (· = '.'))))

/-- `\s+(\S.*)$` -/
def numberedTextRe : Regex :=
  .seq (.plus (.char isSpace)) (.seq (.char (!isSpace ·)) (.seq (.star (.char (· ≠ '\n'))) .textEnd))

/-- The first group of a match of `_NUMBERED_HEADING_RE`. -/
def headingNumber (u : Unicode) (line : List Char) : Option (List Char) :=
  (((numberRe u).run none line).find? fun x =>
    !(numberedTextRe.run (Regex.lastChar none x.1) x.2).isEmpty).map Prod.fst

def lower (c : Char) : Bool := 'a' ≤ c && c ≤ 'z'

def upper (c : Char) : Bool := 'A' ≤ c && c ≤ 'Z'

/-- `_TITLECASE_RE` -/
def titleCaseRe : Regex :=
  let word : Regex := .seq (.char fun c => upper c || lower c) (.star (.char lower))
  .seq (.char upper) (.seq (.plus (.char lower)) (.seq
    (.between (.seq (.plus (.char isSpace)) word) 0 8) .textEnd))

/-- `_detect_heading` -/
def detectHeading (u : Unicode) (line : List Char) : Option (List Char × Nat) :=
  let text := stripped line
  if text.isEmpty then none
  else
    match headingNumber u text with
    | some number => some (text, min ((number.rdropWhile (· = '.')).count '.' + 1) 3)
    | none => if text.length ≤ 60 && titleCaseRe.isMatch text then some (text, 1) else none

/-! ## Sections -/

/-- `_PAGE_NUM_RE` -/
def pageNumRe (u : Unicode) : Regex :=
  let dash : Regex := .opt (.char fun c => c = '-' || c = '—')
  .line (.seq .spaces (.seq dash (.seq .spaces (.seq (.between (.digit u) 1 3)
    (.seq .spaces (.seq dash .spaces))))))

/-- `_PAGE_BREAK_RE` -/
def pageBreakRe : Regex :=
  let newline : Regex := .char (· = '\n')
  .alt (.seq (.atLeast newline 2) (.seq (.atLeast (.char (· = '-')) 3) (.atLeast newline 2)))
    (.alt (.char (· = '\x0c')) (.atLeast newline 3))

/-- `_clean_pdf_artifacts` -/
def cleanPdfArtifacts (u : Unicode) (text : List Char) : List Char :=
  stripped (pageBreakRe.sub ['\n', '\n'] ((pageNumRe u).sub [] text))

def readPdfLine (u : Unicode) (line : List Char) : Reading :=
  match detectHeading u line with
  | some heading => .inl heading
  | none => .inr [line]

/-- `_split_sections` -/
def splitSections (u : Unicode) (text : List Char) : List Section :=
  let sections := collectSections (fun body => stripped (['\n'].intercalate body)) (readPdfLine u) [] 0 []
    (text.splitOn '\n')
  if sections.isEmpty then [{ heading := [], level := 0, body := text }] else sections

/-- `PDFLayoutStrategy.chunk` -/
def pdfLayoutChunk (u : Unicode) (text : List Char) (params : ChunkParams) : Option (List ChunkResult) :=
  if (stripped text).isEmpty then some []
  else (sectionGroups params 0 (splitSections u (cleanPdfArtifacts u text))).map Groups.chunks

theorem readingLines_readPdfLine (u : Unicode) (line : List Char) :
    readingLines (readPdfLine u line) = contentLines line := by
  unfold readPdfLine
  cases hheading : detectHeading u line with
  | none => simp [readingLines]
  | some heading =>
      have htext : heading.1 = stripped line := by
        unfold detectHeading at hheading
        dsimp only at hheading
        split at hheading
        · cases hheading
        · split at hheading
          · cases hheading
            rfl
          · split at hheading
            · cases hheading
              rfl
            · cases hheading
      obtain ⟨text, level⟩ := heading
      cases htext
      exact contentLines_stripped line

theorem contentLines_join_newline (lines : List (List Char)) :
    contentLines (['\n'].intercalate lines) = lines.flatMap contentLines :=
  contentLines_intercalate (by decide) (by simp) lines

/-- Each line that is not blank is in one section. -/
theorem sectionLines_splitSections (u : Unicode) (text : List Char) :
    (splitSections u text).flatMap sectionLines = contentLines text := by
  unfold splitSections
  dsimp only
  split
  · rw [List.flatMap_singleton, sectionLines]
    rfl
  · rw [sectionLines_collectSections (by
      intro blocks
      rw [contentLines_stripped, contentLines_join_newline])]
    have hlines : contentLines text = (text.splitOn '\n').flatMap contentLines := by
      rw [← contentLines_join_newline, List.intercalate_splitOn]
    rw [hlines, contentLines_nil, List.flatMap_nil, List.nil_append, List.nil_append]
    congr 1
    funext line
    exact readingLines_readPdfLine u line

end OpsKnowledge.Chunking
