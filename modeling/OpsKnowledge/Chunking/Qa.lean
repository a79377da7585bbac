import OpsKnowledge.Lib.Regex
import OpsKnowledge.Chunking.Recursive

/-!
# The question and answer strategy

`qa.py`: the text is cut where the markers of questions begin, of the first kind of marker
that occurs twice. What stands before the first marker is in no chunk.
-/

namespace OpsKnowledge.Chunking

open OpsKnowledge.Lib
open Knowledge (ChunkResult ChunkParams)
open Workflow (Json)

/-! ## The markers -/

/-- A letter under `re.IGNORECASE`. -/
def anyCase (letter : Char) : Regex :=
  .char fun c => c = letter || c = letter.toUpper || (letter = 's' && c = 'ſ') ||
    (letter = 'i' && (c = 'İ' || c = 'ı'))

def anyCaseWord (word : List Char) : Regex := word.foldr (fun c r => .seq (anyCase c) r) .eps

def colon : Regex := .char fun c => c = ':' || c = '：'

/-- `Q|问|Question` -/
def questionWord : Regex :=
  .alt (anyCase 'q') (.alt (.char (· = '问')) (anyCaseWord ['q', 'u', 'e', 's', 't', 'i', 'o', 'n']))

def questionRe : Regex := .seq .lineStart (.seq questionWord (.seq .spaces (.seq colon .spaces)))

def numberedQuestionRe (u : Unicode) : Regex :=
  .seq .lineStart (.seq (.plus (.digit u)) (.seq (.char (· = '.')) (.seq .spaces
    (.seq questionWord (.seq .spaces (.seq (.opt colon) .spaces))))))

def headingQuestionRe : Regex :=
  .seq .lineStart (.seq (.between (.char (· = '#')) 1 2) (.seq .spaces
    (.seq (.alt (anyCase 'q') (.char (· = '问'))) (.seq .spaces (.seq colon .spaces)))))

/-- `_QA_PATTERNS` -/
def qaPatterns (u : Unicode) : List Regex := [questionRe, numberedQuestionRe u, headingQuestionRe]

example : (questionRe.findIter "a\nqUEſtion : b".toList).1 = [("a\n".toList, "qUEſtion : ".toList)] := by
  decide

/-! ## The pairs -/

/-- `_split_at_matches` -/
def splitAtMatches (segs : Regex.Segments) : List (List Char) :=
  (Regex.followed segs.1 segs.2).map fun p => stripped (p.1 ++ p.2)

/-- The first pattern with at least two matches. -/
def questionPattern (u : Unicode) (text : List Char) : Option Regex :=
  (qaPatterns u).find? fun pattern => 2 ≤ (pattern.findIter text).1.length

/-- `_extract_pairs` -/
def extractPairs (u : Unicode) (text : List Char) : Option (List (List Char)) :=
  (questionPattern u text).map fun pattern => splitAtMatches (pattern.findIter text)

def pairChunks (pairs : List (List Char)) : List ChunkResult :=
  (pairs.zipIdx.filter fun p => !(stripped p.1).isEmpty).map fun p =>
    { content := String.ofList p.1, position := p.2, metadata := Dict.ofList [("type", .str "qa_pair")] }

/-- `QAPairStrategy.chunk` -/
def qaChunk (u : Unicode) (text : List Char) (params : ChunkParams) : Option (List ChunkResult) :=
  if (stripped text).isEmpty then some []
  else
    match extractPairs u text with
    | none | some [] => recursiveChunk text params
    | some pairs => some (pairChunks pairs)

/-! ## What the pairs hold -/

theorem marks_pairChunks (pairs : List (List Char)) :
    marks ((pairChunks pairs).flatMap fun c => c.content.toList) = marks pairs.flatten := by
  have hkept := marks_flatMap_filter (f := Prod.fst) (g := Prod.fst) (fun _ h => h) pairs.zipIdx
  rw [flatMap_fst_zipIdx] at hkept
  unfold pairChunks
  rw [List.flatMap_map, ← hkept]
  simp

theorem marks_splitAtMatches (segs : Regex.Segments) :
    marks segs.before ++ marks (splitAtMatches segs).flatten =
      marks (segs.1.flatMap (fun seg => seg.1 ++ seg.2) ++ segs.2) := by
  have hparts : marks (splitAtMatches segs).flatten =
      (Regex.followed segs.1 segs.2).flatMap fun p => marks p.1 ++ marks p.2 := by
    rw [marks_flatten, splitAtMatches, List.flatMap_map]
    simp
  rw [hparts, Regex.flatMap_followed marks marks, marks_append]
  congr 1
  unfold marks
  rw [List.filter_flatMap]
  simp

theorem splitAtMatches_ne_nil {segs : Regex.Segments} (hne : segs.1 ≠ []) : splitAtMatches segs ≠ [] := by
  obtain ⟨seg, rest, hsegs⟩ := List.exists_cons_of_ne_nil hne
  unfold splitAtMatches
  rw [hsegs]
  exact List.cons_ne_nil _ _

theorem qaChunk_of_questionPattern {u : Unicode} {text : List Char} {pattern : Regex}
    (h : questionPattern u text = some pattern) (hblank : stripped text ≠ [])
    (hne : (pattern.findIter text).1 ≠ []) (params : ChunkParams) :
    qaChunk u text params = some (pairChunks (splitAtMatches (pattern.findIter text))) := by
  unfold qaChunk extractPairs
  rw [if_neg (by simpa using hblank), h, Option.map_some]
  obtain ⟨pair, pairs, hpairs⟩ := List.exists_cons_of_ne_nil (splitAtMatches_ne_nil hne)
  rw [hpairs]

theorem qaChunk_of_blank {u : Unicode} {text : List Char} (hblank : stripped text = [])
    (params : ChunkParams) : qaChunk u text params = some [] := by
  unfold qaChunk
  rw [if_pos (by simpa using hblank)]

/-- The marks of a text with two questions are those before the first one and those of the chunks. -/
theorem exists_marks_qaChunk {u : Unicode} {text : List Char} {pattern : Regex}
    (h : questionPattern u text = some pattern) (params : ChunkParams) :
    ∃ chunks, qaChunk u text params = some chunks ∧
      marks text = marks (pattern.findIter text).before ++
        marks (chunks.flatMap fun c => c.content.toList) := by
  have htwo := List.find?_some h
  have hne : (pattern.findIter text).1 ≠ [] := by
    intro hnil
    rw [hnil] at htwo
    cases htwo
  have hparts := marks_splitAtMatches (pattern.findIter text)
  rw [← (Regex.segmented_findIter text).eq] at hparts
  by_cases hblank : stripped text = []
  · rw [stripped_eq_nil_iff.1 hblank, List.append_eq_nil_iff] at hparts
    refine ⟨[], qaChunk_of_blank hblank params, ?_⟩
    rw [stripped_eq_nil_iff.1 hblank, hparts.1]
    rfl
  · refine ⟨_, qaChunk_of_questionPattern h hblank hne params, ?_⟩
    rw [marks_pairChunks, hparts]

theorem nothingBefore_of_lossless {u : Unicode} {text : List Char} {pattern : Regex} {params : ChunkParams}
    (h : questionPattern u text = some pattern)
    (hall : ∃ chunks, qaChunk u text params = some chunks ∧
      marks (chunks.flatMap fun c => c.content.toList) = marks text) :
    marks (pattern.findIter text).before = [] := by
  obtain ⟨chunks, hchunks, hmarks⟩ := hall
  obtain ⟨chunks', hchunks', heq⟩ := exists_marks_qaChunk h params
  cases hchunks.symm.trans hchunks'
  rw [heq] at hmarks
  exact List.self_eq_append_left.1 hmarks

/-- Nothing is lost exactly when nothing stands before the first question. -/
theorem qaChunk_lossless_iff (u : Unicode) (text : List Char) (params : ChunkParams) {pattern : Regex}
    (h : questionPattern u text = some pattern) :
    (∃ chunks, qaChunk u text params = some chunks ∧
      marks (chunks.flatMap fun c => c.content.toList) = marks text) ↔
    marks (pattern.findIter text).before = [] := by
  constructor
  · exact nothingBefore_of_lossless h
  · intro hnil
    obtain ⟨chunks, hchunks, heq⟩ := exists_marks_qaChunk h params
    rw [hnil, List.nil_append] at heq
    exact ⟨chunks, hchunks, heq.symm⟩

theorem questionPattern_of_two {u : Unicode} {text : List Char}
    (h : 2 ≤ (questionRe.findIter text).1.length) : questionPattern u text = some questionRe :=
  List.find?_cons_of_pos (decide_eq_true h)

theorem qaChunk_lossless_iff_twoQuestions :
    (∃ chunks, qaChunk asciiOnly "Q: a\nA: b\nq: c".toList {} = some chunks ∧
      marks (chunks.flatMap fun c => c.content.toList) = marks "Q: a\nA: b\nq: c".toList) ↔
    marks (questionRe.findIter "Q: a\nA: b\nq: c".toList).before = [] :=
  qaChunk_lossless_iff asciiOnly "Q: a\nA: b\nq: c".toList {} (questionPattern_of_two (by decide))

/-- The introduction to a list of questions is lost. -/
theorem introduction_lost : ¬ ∀ (u : Unicode) (text : List Char) (params : ChunkParams),
    (questionPattern u text).isSome → ∃ chunks, qaChunk u text params = some chunks ∧
      marks (chunks.flatMap fun c => c.content.toList) = marks text := by
  intro h
  have hpattern : questionPattern asciiOnly "Intro\nQ: a\nQ: b".toList = some questionRe :=
    questionPattern_of_two (by decide)
  have hnil := nothingBefore_of_lossless hpattern (h _ _ {} (by rw [hpattern]; rfl))
  exact absurd hnil (by decide)

end OpsKnowledge.Chunking
