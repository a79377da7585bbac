import OpsKnowledge.Lib.Regex
import OpsKnowledge.Chunking.Recursive

/-!
# The sentence strategy

`sentence.py`: sentences are packed up to the chunk size with a blank between them, and a
sentence that is longer is cut into slices.
-/

namespace OpsKnowledge.Chunking

open OpsKnowledge.Lib
open Knowledge (ChunkResult ChunkParams)

def isSentenceEnd (c : Char) : Bool := c ∈ ['.', '!', '?', '。', '！', '？']

def isNewline (c : Char) : Bool := c = '\n'

/-- `_SENTENCE_RE` -/
def sentenceRe : Regex :=
  .alt (.seq (.after isSentenceEnd) (.plus (.char isSpace)))
    (.seq (.after isNewline) (.seq (.star (.char isSpace)) (.char isNewline)))

structure SentenceState where
  results : List ChunkResult := []
  current : List Char := []
  pos : Nat := 0

def SentenceState.emit (st : SentenceState) (content : List Char) : SentenceState :=
  { st with results := st.results ++ [{ content := String.ofList content, position := st.pos }]
            pos := st.pos + 1 }

/-- One sentence of the loop of `SentenceStrategy.chunk`. -/
def sentenceStep (chunkSize : Int) (st : SentenceState) (sent : List Char) : Option SentenceState :=
  let candidate := if st.current.isEmpty then sent else stripped (st.current ++ [' '] ++ sent)
  if (candidate.length : Int) ≤ chunkSize then some { st with current := candidate }
  else
    let flushed := if st.current.isEmpty then st else st.emit st.current
    if chunkSize < (sent.length : Int) then do
      let slices ← forceSplit sent chunkSize
      some { slices.foldl SentenceState.emit flushed with current := [] }
    else some { flushed with current := sent }

def sentencesOf (text : List Char) : List (List Char) :=
  ((sentenceRe.split text).filter fun s => !(stripped s).isEmpty).map stripped

/-- `SentenceStrategy.chunk` -/
def sentenceChunk (text : List Char) (params : ChunkParams) : Option (List ChunkResult) :=
  if (stripped text).isEmpty then some []
  else do
    let st ← (sentencesOf text).foldlM (sentenceStep (params.chunkSize.getD 500)) {}
    some (if st.current.isEmpty then st.results else (st.emit st.current).results)

/-! ## The loop packs -/

def numbered (pieces : List (List Char)) : List ChunkResult :=
  pieces.mapIdx fun i piece => { content := String.ofList piece, position := i }

/-- The state of the loop for what is packed. -/
def stateOf (st : Packed Char) : SentenceState :=
  { results := numbered st.1, current := st.2, pos := st.1.length }

section Loop

variable {chunkSize : Int} {pieces : List (List Char)} {current sent : List Char}

theorem emit_stateOf (piece : List Char) :
    (stateOf (pieces, current)).emit piece = stateOf (pieces ++ [piece], current) := by
  simp [stateOf, SentenceState.emit, numbered, List.mapIdx_concat]

theorem foldl_emit (more : List (List Char)) :
    more.foldl SentenceState.emit (stateOf (pieces, current)) = stateOf (pieces ++ more, current) := by
  induction more generalizing pieces with
  | nil => rw [List.append_nil, List.foldl_nil]
  | cons piece more ih => rw [List.foldl_cons, emit_stateOf, ih, List.append_assoc, List.singleton_append]

theorem stateOf_closed : (if (stateOf (pieces, current)).current.isEmpty then stateOf (pieces, current)
    else (stateOf (pieces, current)).emit (stateOf (pieces, current)).current) =
      stateOf (closed (pieces, current), current) := by
  change (if current.isEmpty then _ else (stateOf (pieces, current)).emit current) = _
  rw [emit_stateOf]
  unfold closed
  split <;> rfl

/-- A step of the loop packs the sentence. -/
theorem sentenceStep_stateOf (hsent : Trim sent) (hne : sent ≠ []) {st : Packed Char} (hst : Trim st.2) :
    sentenceStep chunkSize (stateOf st) sent =
      (packStep chunkSize [' '] (forceSplit · chunkSize) st sent).map stateOf := by
  obtain ⟨pieces, current⟩ := st
  have hcandidate : (if current.isEmpty then sent else stripped (current ++ [' '] ++ sent)) =
      candidate [' '] (pieces, current) sent := by
    unfold candidate
    split
    · rfl
    · next hopen => exact (hst.append hsent (by simpa using hopen) hne [' ']).stripped_eq
  unfold sentenceStep packStep
  rw [stateOf_closed]
  change (if ((if current.isEmpty then sent else
      stripped (current ++ [' '] ++ sent)).length : Int) ≤ chunkSize then
    some { stateOf (pieces, current) with
      current := if current.isEmpty then sent else stripped (current ++ [' '] ++ sent) } else _) = _
  rw [hcandidate]
  split
  · rfl
  · split
    · cases hforce : forceSplit sent chunkSize with
      | none => simp [hforce]
      | some slices =>
          simp only [hforce, Option.bind_eq_bind, Option.bind_some, foldl_emit, Option.map_some]
          rfl
    · rfl

/-- What is being filled has no white space at its ends. -/
theorem trim_packStep (hsent : Trim sent) (hne : sent ≠ []) {st st' : Packed Char} (hst : Trim st.2)
    (h : PackStep chunkSize [' '] (forceSplit · chunkSize) st sent st') : Trim st'.2 := by
  cases h with
  | start _ _ => exact hsent
  | join hopen _ => exact hst.append hsent hopen hne [' ']
  | cut _ _ _ => exact hsent
  | split _ _ => exact trim_nil

theorem foldlM_sentenceStep {sents : List (List Char)} (hsents : ∀ sent ∈ sents, Trim sent ∧ sent ≠ [])
    {st : Packed Char} (hst : Trim st.2) :
    sents.foldlM (sentenceStep chunkSize) (stateOf st) =
      (sents.foldlM (packStep chunkSize [' '] (forceSplit · chunkSize)) st).map stateOf := by
  induction sents generalizing st with
  | nil => rfl
  | cons sent sents ih =>
      obtain ⟨hsent, hne⟩ := hsents sent List.mem_cons_self
      rw [List.foldlM_cons, List.foldlM_cons, sentenceStep_stateOf hsent hne hst]
      cases hstep : packStep chunkSize [' '] (forceSplit · chunkSize) st sent with
      | none => rfl
      | some st' =>
          have hst' := trim_packStep hsent hne hst (packStep_eq_some hstep)
          exact ih (fun s hs => hsents s (List.mem_cons_of_mem sent hs)) hst'

end Loop

/-! ## The sentences -/

theorem sentenceRe_space : sentenceRe.All fun c => isSpace c = true := by
  have hnewline : ∀ c, isNewline c = true → isSpace c = true := by
    intro c hc
    rw [of_decide_eq_true hc]
    decide
  exact ⟨⟨trivial, fun _ hc => hc, fun _ hc => hc⟩, trivial, fun _ hc => hc, hnewline⟩

theorem sentencesOf_trim (text : List Char) : ∀ sent ∈ sentencesOf text, Trim sent ∧ sent ≠ [] := by
  intro sent hsent
  obtain ⟨piece, hpiece, rfl⟩ := List.mem_map.1 hsent
  exact ⟨trim_stripped piece, by simpa using (List.mem_filter.1 hpiece).2⟩

/-- The marks of a text are those of its parts. -/
theorem marks_flatten_split {r : Regex} (hr : r.All fun c => isSpace c = true) (text : List Char) :
    marks (r.split text).flatten = marks text := by
  have heq := (Regex.segmented_findIter (r := r) text).eq
  have hblank : ∀ seg ∈ (r.findIter text).1, marks seg.2 = [] := fun seg hseg =>
    marks_eq_nil_iff.2 (hr.of_mem_findIter hseg)
  unfold Regex.split
  rw [List.flatten_append, List.flatten_singleton, marks_append]
  conv_rhs => rw [heq, marks_append]
  congr 1
  generalize (r.findIter text).1 = segs at hblank
  induction segs with
  | nil => rfl
  | cons seg segs ih =>
      rw [List.map_cons, List.flatten_cons, List.flatMap_cons, marks_append, marks_append, marks_append,
        hblank seg List.mem_cons_self, List.append_nil, ih fun s hs => hblank s (List.mem_cons_of_mem seg hs)]

theorem marks_sentencesOf (text : List Char) : marks (sentencesOf text).flatten = marks text := by
  rw [← marks_flatten_split sentenceRe_space text]
  unfold sentencesOf
  rw [marks_flatten_map_stripped]
  have hkept := marks_flatMap_filter (f := id) (g := id) (fun _ h => h) (sentenceRe.split text)
  simpa using hkept

/-! ## The chunks -/

theorem results_closed (st : Packed Char) :
    (if (stateOf st).current.isEmpty then (stateOf st).results
      else ((stateOf st).emit (stateOf st).current).results) = numbered (closed st) := by
  obtain ⟨pieces, current⟩ := st
  change (if current.isEmpty then numbered pieces else ((stateOf (pieces, current)).emit current).results) = _
  rw [emit_stateOf]
  unfold closed
  split <;> rfl

theorem sentenceChunk_eq (text : List Char) (params : ChunkParams) : sentenceChunk text params =
    if (stripped text).isEmpty then some []
    else (pack (params.chunkSize.getD 500) [' '] (forceSplit · (params.chunkSize.getD 500))
      (sentencesOf text)).map numbered := by
  unfold sentenceChunk pack
  split
  · rfl
  · change (do
      let st ← (sentencesOf text).foldlM (sentenceStep (params.chunkSize.getD 500)) (stateOf ([], []))
      some (if st.current.isEmpty then st.results else (st.emit st.current).results)) = _
    rw [foldlM_sentenceStep (sentencesOf_trim text) trim_nil]
    cases (sentencesOf text).foldlM (packStep (params.chunkSize.getD 500) [' ']
      (forceSplit · (params.chunkSize.getD 500))) ([], []) with
    | none => rfl
    | some st => exact congrArg some (results_closed st)

theorem positions_numbered (pieces : List (List Char)) :
    (numbered pieces).map ChunkResult.position = List.range (numbered pieces).length := by
  apply List.ext_getElem
  · simp
  · intro i hi hi'
    simp [numbered]

theorem contents_numbered (pieces : List (List Char)) :
    (numbered pieces).flatMap (fun c => c.content.toList) = pieces.flatten := by
  have hmap : (numbered pieces).map (fun c => c.content.toList) = pieces := by
    apply List.ext_getElem
    · simp [numbered]
    · intro i hi hi'
      simp [numbered]
  rw [List.flatMap_def, hmap]

/-- Chunks up to the chunk size, numbered from the first, with the marks of the text. -/
theorem sentenceChunk_lossless (text : List Char) {chunkSize : Int} (hsize : 1 ≤ chunkSize) :
    ∃ chunks, sentenceChunk text { chunkSize := some chunkSize } = some chunks ∧
      (∀ c ∈ chunks, (c.content.length : Int) ≤ chunkSize) ∧
      chunks.map ChunkResult.position = List.range chunks.length ∧
      marks (chunks.flatMap fun c => c.content.toList) = marks text := by
  rw [sentenceChunk_eq]
  by_cases hblank : stripped text = []
  · rw [if_pos (by simpa using hblank)]
    exact ⟨[], rfl, nofun, rfl, (stripped_eq_nil_iff.1 hblank).symm⟩
  · rw [if_neg (by simpa using hblank)]
    have hforce := fun part => forceSplit_eq hsize part
    have hsome : (pack chunkSize [' '] (forceSplit · chunkSize) (sentencesOf text)).isSome := by
      apply pack_isSome
      intro part _ _
      rw [hforce]
      rfl
    obtain ⟨pieces, hpieces⟩ := Option.isSome_iff_exists.1 hsome
    change ∃ chunks, (pack chunkSize [' '] (forceSplit · chunkSize) (sentencesOf text)).map numbered =
      some chunks ∧ _
    rw [hpieces]
    refine ⟨numbered pieces, rfl, ?_, positions_numbered pieces, ?_⟩
    · intro c hc
      obtain ⟨i, hi, rfl⟩ := List.mem_mapIdx.1 hc
      have hle := length_le_of_mem_pack hpieces (fun part _ sub hsub piece hpiece => by
        cases (hforce part).symm.trans hsub
        exact length_le_of_mem_slices hpiece) pieces[i] (List.getElem_mem hi)
      rw [String.length_ofList]
      omega
    · have hkept : ∀ part, partContent chunkSize (forceSplit · chunkSize) part = part := by
        intro part
        unfold partContent
        split
        · dsimp only
          rw [hforce, Option.getD_some, flatten_slices (by omega)]
        · rfl
      have hmarks := filter_flatten_pack (q := fun c => !isSpace c) hpieces (by decide)
      simp only [hkept] at hmarks
      rw [contents_numbered, ← marks_sentencesOf text, marks_flatten (sentencesOf text)]
      exact hmarks

theorem sentenceChunk_lossless_longSentence :
    ∃ chunks, sentenceChunk "Ok. Restart it!\n\n\nThen wait".toList { chunkSize := some 6 } = some chunks ∧
      (∀ c ∈ chunks, (c.content.length : Int) ≤ 6) ∧
      chunks.map ChunkResult.position = List.range chunks.length ∧
      marks (chunks.flatMap fun c => c.content.toList) = marks "Ok. Restart it!\n\n\nThen wait".toList :=
  sentenceChunk_lossless "Ok. Restart it!\n\n\nThen wait".toList (by decide)

end OpsKnowledge.Chunking
