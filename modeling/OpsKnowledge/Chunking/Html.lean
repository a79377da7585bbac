import OpsKnowledge.Chunking.Sections

/-!
# The HTML strategy

`html.py`: each heading among the top-level elements of a page begins a section, and the
elements up to the next one are the blocks of its body.
-/

namespace OpsKnowledge.Chunking

open OpsKnowledge.Lib
open Knowledge (ChunkResult ChunkParams)

/-- An element as the parser gives it: a string; or a tag with its text (`get_text(separator=" ")`), the
texts of the cells of each `tr` in it, and the texts of its own `li`. -/
inductive Element where
  | string (text : List Char)
  | tag (name : String) (text : List Char) (rows : List (List (List Char))) (items : List (List Char))

/-- A parsed page. `body` has the elements of its `body`, where there is one. -/
structure Soup where
  children : List Element
  body : Option (List Element)
  text : List Char

/-- `_HEADING_TAGS` -/
def headingTags : List (String × Nat) := [("h1", 1), ("h2", 2), ("h3", 3), ("h4", 3), ("h5", 3), ("h6", 3)]

/-- `_WHITESPACE_RE.sub(" ", raw).strip()` -/
def collapse (raw : List Char) : List Char := stripped ((Regex.plus (.char isSpace)).sub [' '] raw)

def renderTable (rows : List (List (List Char))) : List Char :=
  ['\n'].intercalate (rows.map fun cells => [' ', '|', ' '].intercalate (cells.map collapse))

def renderList (items : List (List Char)) : List Char :=
  ['\n'].intercalate (items.map fun item => '-' :: ' ' :: collapse item)

def renderBlock : Element → List Char
  | .string text => stripped text
  | .tag name text rows items =>
      if name = "table" then renderTable rows
      else if name = "ul" ∨ name = "ol" then renderList items
      else collapse text

/-- `_iter_top_blocks` -/
def topBlocks (soup : Soup) : List Element :=
  (soup.body.getD soup.children).filter fun
    | .string text => !(stripped text).isEmpty
    | .tag .. => true

/-- The heading that an element is. -/
def elementHeading : Element → Option (List Char × Nat)
  | .string _ => none
  | .tag name text _ _ => (headingTags.lookup name).map fun level => (collapse text, level)

def readElement (el : Element) : Reading :=
  match elementHeading el with
  | some heading => .inl heading
  | none => .inr (if (renderBlock el).isEmpty then [] else [renderBlock el])

/-- `_extract_sections` -/
def extractSections (soup : Soup) : List Section :=
  let sections := collectSections joinBlocks readElement [] 0 [] (topBlocks soup)
  if sections.isEmpty then [{ heading := [], level := 0, body := collapse soup.text }] else sections

/-- `HTMLStructureStrategy.chunk` -/
def htmlChunk (parse : List Char → Soup) (text : List Char) (params : ChunkParams) :
    Option (List ChunkResult) :=
  if (stripped text).isEmpty then some []
  else (sectionGroups params 0 (extractSections (parse text))).map Groups.chunks

/-! ## The text of a page -/

/-- What is read of an element. -/
def elementText (el : Element) : List Char := ((elementHeading el).map Prod.fst).getD (renderBlock el)

/-- The text of a page is that of its top-level elements or, where these have none, the whole. -/
def htmlText (soup : Soup) : List Char :=
  let text := joinBlocks ((topBlocks soup).map elementText)
  if (stripped text).isEmpty then collapse soup.text else text

theorem contentLines_joinBlocks (parts : List (List Char)) :
    contentLines (joinBlocks parts) = parts.flatMap contentLines :=
  contentLines_intercalate (by decide) (by simp) parts

theorem readingLines_readElement (el : Element) :
    readingLines (readElement el) = contentLines (elementText el) := by
  unfold readElement elementText
  cases elementHeading el with
  | some heading => rfl
  | none =>
      simp only [Option.map_none, Option.getD_none, readingLines]
      split
      · next hempty =>
          rw [List.isEmpty_iff.1 hempty]
          rfl
      · rw [List.flatMap_singleton]

theorem trim_of_readElement {el : Element} {found : List Char × Nat} (h : readElement el = .inl found) :
    Trim found.1 := by
  unfold readElement at h
  split at h
  · next heading hheading =>
      cases h
      cases el with
      | string => cases hheading
      | tag name text rows items =>
          obtain ⟨level, -, rfl⟩ := Option.map_eq_some_iff.1 hheading
          exact trim_stripped _
  · cases h

/-- Each line that is not blank is in one section. -/
theorem sectionLines_extractSections (soup : Soup) :
    (extractSections soup).flatMap sectionLines = contentLines (htmlText soup) := by
  let sections := collectSections joinBlocks readElement [] 0 [] (topBlocks soup)
  let text := joinBlocks ((topBlocks soup).map elementText)
  have hlines : sections.flatMap sectionLines = contentLines text := by
    rw [sectionLines_collectSections contentLines_joinBlocks, contentLines_joinBlocks, List.flatMap_map,
      contentLines_nil, List.flatMap_nil, List.nil_append, List.nil_append]
    congr 1
    funext el
    exact readingLines_readElement el
  have hfound : ∀ s ∈ sections, sectionLines s ≠ [] :=
    sectionLines_ne_nil_of_mem_collectSections (fun _ _ h => trim_of_readElement h) trim_nil
  have hblank : sections = [] ↔ stripped text = [] := by
    rw [stripped_eq_nil_iff, ← contentLines_eq_nil_iff, ← hlines, List.flatMap_eq_nil_iff]
    constructor
    · intro hnil
      rw [hnil]
      exact nofun
    · intro hall
      rw [List.eq_nil_iff_forall_not_mem]
      exact fun s hs => hfound s hs (hall s hs)
  unfold extractSections htmlText
  change List.flatMap sectionLines
    (if sections.isEmpty then [{ heading := [], level := 0, body := collapse soup.text }] else sections) =
      contentLines (if (stripped text).isEmpty then collapse soup.text else text)
  by_cases hnil : sections = []
  · rw [if_pos (by simpa using hnil), if_pos (by simpa using hblank.1 hnil), List.flatMap_singleton]
    rfl
  · rw [if_neg (by simpa using hnil), if_neg (by simpa using fun h => hnil (hblank.2 h))]
    exact hlines

end OpsKnowledge.Chunking
