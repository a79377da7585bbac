import OpsKnowledge.Chunking.Recursive

/-!
# What separators lose

A separator that ends a piece is not in it. White space can be lost so; a separator with a
mark, such as the dot of a sentence, is lost with its mark.
-/

namespace OpsKnowledge.Chunking

open OpsKnowledge.Lib
open Knowledge (ChunkResult ChunkParams)

/-- A chunk without what it repeats. -/
def ownPart (pieces : List (List Char)) (overlap : Int) (c : ChunkResult) : List Char :=
  c.content.toList.drop (prevTail pieces overlap c.position).length

/-- The chunks, less what they repeat, have the marks of the text. -/
def KeepsContent (text : List Char) (params : ChunkParams) : Prop :=
  ∃ chunks, recursiveChunk text params = some chunks ∧
    (marks text).Sublist (marks (chunks.flatMap
      (ownPart ((piecesOf text params).getD []) (params.chunkOverlap.getD 50))))

/-- Wherever a text is too large for one piece, it has no separator with a mark. -/
def KeepsMarks (chunkSize : Int) : List (List Char) → List Char → Prop
  | [], _ => True
  | sep :: remainingSeps, text =>
      (text.length : Int) ≤ chunkSize ∨ sep = [] ∨
        (marks sep = [] ∨ ¬ sep <:+: text) ∧
          ∀ part ∈ splitSeq sep text, KeepsMarks chunkSize remainingSeps part

instance decidableKeepsMarks (chunkSize : Int) : ∀ seps text, Decidable (KeepsMarks chunkSize seps text)
  | [], _ => .isTrue trivial
  | sep :: remainingSeps, text =>
      have : DecidablePred fun part => KeepsMarks chunkSize remainingSeps part :=
        decidableKeepsMarks chunkSize remainingSeps
      inferInstanceAs (Decidable ((text.length : Int) ≤ chunkSize ∨ sep = [] ∨
        (marks sep = [] ∨ ¬ sep <:+: text) ∧
          ∀ part ∈ splitSeq sep text, KeepsMarks chunkSize remainingSeps part))

section Pieces

variable {chunkSize : Int} {seps : List (List Char)} {text : List Char} {pieces : List (List Char)}

theorem marks_eq_flatMap_splitSeq {sep : List Char} (hsep : sep ≠ []) (hblank : marks sep = [])
    (text : List Char) : marks text = (splitSeq sep text).flatMap marks := by
  have hjoin := filter_intercalate hblank (splitSeq sep text)
  rw [intercalate_splitSeq hsep] at hjoin
  exact hjoin

theorem keepsMarks_of_le (h : (text.length : Int) ≤ chunkSize) : KeepsMarks chunkSize seps text := by
  cases seps with
  | nil => exact trivial
  | cons sep seps => exact .inl h

/-- No piece is longer than nothing. -/
theorem flatten_eq_nil_of_nonpos (hsize : chunkSize ≤ 0)
    (h : splitRecursive chunkSize seps text = some pieces) : pieces.flatten = [] := by
  rw [List.flatten_eq_nil_iff]
  intro piece hpiece
  have hle := length_le_of_mem_splitRecursive h piece hpiece
  exact List.eq_nil_of_length_eq_zero (by omega)

theorem marks_forceSplit_sublist (h : forceSplit text chunkSize = some pieces) :
    (marks pieces.flatten).Sublist (marks text) := by
  unfold forceSplit at h
  split at h
  · cases h
  · split at h
    · cases h
      exact List.nil_sublist _
    · cases h
      rw [flatten_slices (by omega)]

/-- The pieces have no mark that the text has not. -/
theorem marks_splitRecursive_sublist (h : splitRecursive chunkSize seps text = some pieces) :
    (marks pieces.flatten).Sublist (marks text) := by
  induction seps generalizing text pieces with
  | nil =>
      unfold splitRecursive at h
      split at h
      · cases h
        rw [List.flatten_singleton]
      · exact marks_forceSplit_sublist h
  | cons sep seps ih =>
      unfold splitRecursive at h
      split at h
      · cases h
        rw [List.flatten_singleton]
      · split at h
        · exact marks_forceSplit_sublist h
        · next hsep =>
            have hsub := filter_flatten_pack_sublist (q := fun c => !isSpace c) h (by
              intro part _
              unfold partContent
              split
              · cases hresplit : splitRecursive chunkSize seps part with
                | none => exact List.nil_sublist _
                | some sub => exact ih hresplit
              · exact List.Sublist.refl _)
            rw [intercalate_splitSeq (by simpa using hsep)] at hsub
            exact hsub

theorem marks_partContent_sublist (part : List Char) :
    (marks (partContent chunkSize (splitRecursive chunkSize seps) part)).Sublist (marks part) := by
  unfold partContent
  split
  · cases hresplit : splitRecursive chunkSize seps part with
    | none => exact List.nil_sublist _
    | some sub => exact marks_splitRecursive_sublist hresplit
  · exact List.Sublist.refl _

theorem marks_partContent_eq_iff (hsize : 1 ≤ chunkSize) {part : List Char}
    (h : ∀ sub, splitRecursive chunkSize seps part = some sub →
      ((marks part).Sublist (marks sub.flatten) ↔ KeepsMarks chunkSize seps part)) :
    marks (partContent chunkSize (splitRecursive chunkSize seps) part) = marks part ↔
      KeepsMarks chunkSize seps part := by
  by_cases hle : (part.length : Int) ≤ chunkSize
  · have hsame : partContent chunkSize (splitRecursive chunkSize seps) part = part := if_neg (by omega)
    rw [hsame]
    exact iff_of_true rfl (keepsMarks_of_le hle)
  · obtain ⟨sub, hsub⟩ := Option.isSome_iff_exists.1 (splitRecursive_isSome hsize seps part)
    have hsame : partContent chunkSize (splitRecursive chunkSize seps) part = sub.flatten := by
      unfold partContent
      rw [if_pos (by omega), hsub, Option.getD_some]
    rw [hsame, ← h sub hsub]
    constructor
    · intro heq
      rw [heq]
    · exact fun hback => (marks_splitRecursive_sublist hsub).antisymm hback

/-- No mark is lost exactly where no separator with a mark is cut at. -/
theorem marks_sublist_splitRecursive_iff (hsize : 1 ≤ chunkSize)
    (h : splitRecursive chunkSize seps text = some pieces) :
    (marks text).Sublist (marks pieces.flatten) ↔ KeepsMarks chunkSize seps text := by
  induction seps generalizing text pieces with
  | nil =>
      refine iff_of_true ?_ trivial
      unfold splitRecursive at h
      split at h
      · cases h
        rw [List.flatten_singleton]
      · rw [forceSplit_flatten hsize h]
  | cons sep seps ih =>
      by_cases hle : (text.length : Int) ≤ chunkSize
      · rw [splitRecursive_of_le hle] at h
        cases h
        rw [List.flatten_singleton]
        exact iff_of_true (List.Sublist.refl _) (.inl hle)
      · have hpieces := length_le_of_mem_splitRecursive h
        unfold splitRecursive at h
        rw [if_neg hle] at h
        by_cases hempty : sep = []
        · rw [if_pos (by simpa using hempty)] at h
          rw [forceSplit_flatten hsize h]
          exact iff_of_true (List.Sublist.refl _) (.inr (.inl hempty))
        · rw [if_neg (by simpa using hempty)] at h
          have hkeeps : KeepsMarks chunkSize (sep :: seps) text ↔ (marks sep = [] ∨ ¬ sep <:+: text) ∧
              ∀ part ∈ splitSeq sep text, KeepsMarks chunkSize seps part := by
            simp only [KeepsMarks, hle, hempty, false_or]
          rw [hkeeps]
          by_cases hmarks : marks sep = []
          · have hlost : marks pieces.flatten = (splitSeq sep text).flatMap fun part =>
                marks (partContent chunkSize (splitRecursive chunkSize seps) part) :=
              filter_flatten_pack h hmarks
            rw [hlost, marks_eq_flatMap_splitSeq hempty hmarks text,
              sublist_flatMap_iff fun part _ => marks_partContent_sublist part]
            constructor
            · exact fun heq => ⟨.inl hmarks, fun part hpart =>
                (marks_partContent_eq_iff hsize fun sub hsub => ih hsub).1 (heq part hpart)⟩
            · exact fun hkept part hpart =>
                (marks_partContent_eq_iff hsize fun sub hsub => ih hsub).2 (hkept.2 part hpart)
          · by_cases hin : sep <:+: text
            · refine iff_of_false ?_ fun hno => hno.1.elim hmarks fun hnot => hnot hin
              intro hsub
              have hlt := length_filter_flatten_pack_lt h (fun part _ => marks_partContent_sublist part)
                hmarks (one_lt_length_splitSeq hempty hin) (by
                  rw [intercalate_splitSeq hempty]
                  rintro rfl
                  have hfits := hpieces text List.mem_cons_self
                  omega)
              rw [intercalate_splitSeq hempty] at hlt
              exact absurd hsub.length_le (Nat.not_le.2 hlt)
            · rw [splitSeq_eq_singleton hempty hin, pack_singleton (by omega)] at h
              rw [ih h, splitSeq_eq_singleton hempty hin]
              constructor
              · exact fun hrest => ⟨.inr hin, fun part hpart => List.mem_singleton.1 hpart ▸ hrest⟩
              · exact fun hall => hall.2 text List.mem_cons_self

end Pieces

/-! ## The chunks -/

section Chunks

variable {text : List Char} {params : ChunkParams} {chunks : List ChunkResult}
  {pieces : List (List Char)} {overlap : Int}

theorem zipIdx_applyOverlap : (applyOverlap pieces overlap).zipIdx =
    pieces.zipIdx.map fun p => (prevTail pieces overlap p.2 ++ p.1, p.2) := by
  apply List.ext_getElem?
  intro i
  simp only [applyOverlap, List.getElem?_zipIdx, List.getElem?_mapIdx, List.getElem?_map]
  cases pieces[i]? <;> simp

/-- The pieces of chunks that are not blank have all marks. -/
theorem marks_ownParts (hpieces : piecesOf text params = some pieces)
    (h : recursiveChunk text params = some chunks) (hne : stripped text ≠ []) :
    marks (chunks.flatMap (ownPart pieces (params.chunkOverlap.getD 50))) = marks pieces.flatten := by
  unfold recursiveChunk at h
  rw [if_neg (by simpa using hne), hpieces] at h
  cases h
  rw [zipIdx_applyOverlap, List.filter_map, List.map_map, List.flatMap_map]
  have hown : (fun p : List Char × Nat => ownPart pieces (params.chunkOverlap.getD 50)
      { content := String.ofList (prevTail pieces (params.chunkOverlap.getD 50) p.2 ++ p.1)
        position := p.2 }) = Prod.fst := by
    funext p
    simp [ownPart]
  change marks (List.flatMap (fun p : List Char × Nat => ownPart pieces (params.chunkOverlap.getD 50)
    { content := String.ofList (prevTail pieces (params.chunkOverlap.getD 50) p.2 ++ p.1)
      position := p.2 }) _) = _
  rw [hown]
  have hkept := marks_flatMap_filter (g := Prod.fst)
    (f := fun p : List Char × Nat => prevTail pieces (params.chunkOverlap.getD 50) p.2 ++ p.1)
    (by
      intro p hp
      rw [marks_append, List.append_eq_nil_iff] at hp
      exact hp.2) pieces.zipIdx
  rw [flatMap_fst_zipIdx] at hkept
  exact hkept

theorem exists_pieces (h : recursiveChunk text params = some chunks) (hne : stripped text ≠ []) :
    ∃ pieces, piecesOf text params = some pieces ∧
      marks (chunks.flatMap (ownPart ((piecesOf text params).getD []) (params.chunkOverlap.getD 50))) =
        marks pieces.flatten := by
  have hrun := h
  unfold recursiveChunk at hrun
  rw [if_neg (by simpa using hne)] at hrun
  obtain ⟨pieces, hpieces, -⟩ := Option.bind_eq_some_iff.1 hrun
  refine ⟨pieces, hpieces, ?_⟩
  rw [hpieces, Option.getD_some]
  exact marks_ownParts hpieces h hne

theorem keepsMarks_of_keepsContent (h : KeepsContent text params) (hne : stripped text ≠ []) :
    1 ≤ params.chunkSize.getD 500 ∧
      KeepsMarks (params.chunkSize.getD 500) (separators params.delimiter) text := by
  obtain ⟨chunks, hchunks, hsub⟩ := h
  obtain ⟨pieces, hpieces, hown⟩ := exists_pieces hchunks hne
  rw [hown] at hsub
  by_cases hsize : 1 ≤ params.chunkSize.getD 500
  · exact ⟨hsize, (marks_sublist_splitRecursive_iff hsize hpieces).1 hsub⟩
  · rw [flatten_eq_nil_of_nonpos (by omega) hpieces, marks_nil, List.sublist_nil] at hsub
    exact absurd (stripped_eq_nil_iff.2 hsub) hne

theorem keepsContent_of_keepsMarks (hsize : 1 ≤ params.chunkSize.getD 500)
    (h : KeepsMarks (params.chunkSize.getD 500) (separators params.delimiter) text)
    (hne : stripped text ≠ []) : KeepsContent text params := by
  have hsome : (recursiveChunk text params).isSome := recursiveChunk_isSome hsize
  obtain ⟨chunks, hchunks⟩ := Option.isSome_iff_exists.1 hsome
  obtain ⟨pieces, hpieces, hown⟩ := exists_pieces hchunks hne
  refine ⟨chunks, hchunks, ?_⟩
  rw [hown]
  exact (marks_sublist_splitRecursive_iff hsize hpieces).2 h

theorem keepsContent_of_blank (h : stripped text = []) : KeepsContent text params := by
  refine ⟨[], ?_, ?_⟩
  · unfold recursiveChunk
    rw [if_pos (by simpa using h)]
  · rw [stripped_eq_nil_iff.1 h]
    exact List.nil_sublist _

end Chunks

/-- A text without marks has none to lose, and in any other one no separator with a mark may be cut at. -/
theorem keepsContent_iff_keepsMarks (text : List Char) (params : ChunkParams) :
    KeepsContent text params ↔ stripped text = [] ∨ 1 ≤ params.chunkSize.getD 500 ∧
      KeepsMarks (params.chunkSize.getD 500) (separators params.delimiter) text := by
  by_cases hblank : stripped text = []
  · exact iff_of_true (keepsContent_of_blank hblank) (.inl hblank)
  · rw [or_iff_right hblank]
    constructor
    · exact fun h => keepsMarks_of_keepsContent h hblank
    · exact fun h => keepsContent_of_keepsMarks h.1 h.2 hblank

/-- Two sentences that do not fit in one piece: the dot between them is lost. -/
theorem sentence_dot_lost : ¬ ∀ (text : List Char) (params : ChunkParams), KeepsContent text params := by
  intro h
  have hmarks := keepsMarks_of_keepsContent (h "aaa. bbb".toList { chunkSize := some 6 }) (by decide)
  exact absurd hmarks.2 (by decide)

/-! ## Texts without chunks -/

/-- With the default separators a text crumbles when all its marks are dots of sentence ends, none of
which is inside a piece. -/
def Crumbles (chunkSize : Int) (text : List Char) : Prop :=
  ∀ paragraph ∈ splitSeq ['\n', '\n'] text, marks paragraph = [] ∨
    chunkSize < (paragraph.length : Int) ∧ ∀ line ∈ splitSeq ['\n'] paragraph, marks line = [] ∨
      chunkSize < (line.length : Int) ∧
        Loose chunkSize ['.', ' '] (fun c => !isSpace c) (splitSeq ['.', ' '] line)

section Crumbs

variable {chunkSize : Int} {text : List Char} {pieces : List (List Char)}

theorem splitRecursive_blank_iff {sep : List Char} {seps : List (List Char)} (hsize : 1 ≤ chunkSize)
    (hsep : sep ≠ []) (hblank : marks sep = []) (hlarge : chunkSize < (text.length : Int))
    (h : splitRecursive chunkSize (sep :: seps) text = some pieces) {P : List Char → Prop}
    (hP : ∀ part, chunkSize < (part.length : Int) → ∀ sub, splitRecursive chunkSize seps part = some sub →
      (marks sub.flatten = [] ↔ marks part = [] ∨ P part)) :
    marks pieces.flatten = [] ↔ ∀ part ∈ splitSeq sep text, marks part = [] ∨
      chunkSize < (part.length : Int) ∧ P part := by
  unfold splitRecursive at h
  rw [if_neg (by omega), if_neg (by simpa using hsep)] at h
  have hmarks : marks pieces.flatten = (splitSeq sep text).flatMap fun part =>
      marks (partContent chunkSize (splitRecursive chunkSize seps) part) := filter_flatten_pack h hblank
  rw [hmarks, List.flatMap_eq_nil_iff]
  apply forall₂_congr
  intro part _
  unfold partContent
  split
  · next hlt =>
      obtain ⟨sub, hsub⟩ := Option.isSome_iff_exists.1 (splitRecursive_isSome hsize seps part)
      rw [hsub, Option.getD_some, hP part hlt sub hsub, and_iff_right hlt]
  · next hle => exact ⟨.inl, fun hall => hall.resolve_right fun hlarge => hle hlarge.1⟩

theorem splitRecursive_line_iff (hsize : 1 ≤ chunkSize) (hlarge : chunkSize < (text.length : Int))
    (h : splitRecursive chunkSize [['.', ' '], [' '], []] text = some pieces) :
    marks pieces.flatten = [] ↔ marks text = [] ∨
      Loose chunkSize ['.', ' '] (fun c => !isSpace c) (splitSeq ['.', ' '] text) := by
  have hsub := marks_splitRecursive_sublist h
  unfold splitRecursive at h
  rw [if_neg (by omega), if_neg (by simp)] at h
  have hkeeps : ∀ part : List Char, KeepsMarks chunkSize [[' '], []] part := fun part =>
    .inr (.inr ⟨.inl (by decide), fun _ _ => .inr (.inl rfl)⟩)
  have hloose := filter_pack_eq_nil_iff h (q := fun c => !isSpace c) (by decide) fun part _ =>
    (marks_partContent_eq_iff hsize fun sub hsub =>
      marks_sublist_splitRecursive_iff hsize hsub).2 (hkeeps part)
  constructor
  · exact fun hnil => .inr (hloose.1 hnil)
  · rintro (hblank | hall)
    · rw [hblank, List.sublist_nil] at hsub
      exact hsub
    · exact hloose.2 hall

theorem splitRecursive_default_iff (hsize : 1 ≤ chunkSize) (hmark : marks text ≠ [])
    (h : splitRecursive chunkSize defaultSeparators text = some pieces) :
    marks pieces.flatten = [] ↔ chunkSize < (text.length : Int) ∧ Crumbles chunkSize text := by
  by_cases hle : (text.length : Int) ≤ chunkSize
  · rw [splitRecursive_of_le hle] at h
    cases h
    rw [List.flatten_singleton]
    exact iff_of_false hmark fun hlarge => absurd hlarge.1 (by omega)
  · rw [and_iff_right (by omega)]
    refine splitRecursive_blank_iff hsize (by decide) (by decide) (by omega) h ?_
    intro paragraph hparagraph sub hsub
    rw [splitRecursive_blank_iff hsize (by decide) (by decide) hparagraph hsub
      fun line hline sub' hsub' => splitRecursive_line_iff hsize hline hsub']
    symm
    apply or_iff_right_of_imp
    intro hblank line hline
    have hnewline : (['\n'] : List Char) ≠ [] ∧ marks ['\n'] = [] := by decide
    rw [marks_eq_flatMap_splitSeq hnewline.1 hnewline.2 paragraph, List.flatMap_eq_nil_iff] at hblank
    exact .inl (hblank line hline)

/-- No piece of a text has a mark when no chunk is left of it. -/
theorem recursiveChunk_eq_nil_iff {params : ChunkParams} {chunks : List ChunkResult}
    (h : recursiveChunk text params = some chunks) (hne : stripped text ≠ []) {pieces : List (List Char)}
    (hpieces : piecesOf text params = some pieces) : chunks = [] ↔ marks pieces.flatten = [] := by
  constructor
  · rintro rfl
    exact (marks_ownParts hpieces h hne).symm
  · intro hblank
    rw [marks_flatten, List.flatMap_eq_nil_iff] at hblank
    rw [List.eq_nil_iff_forall_not_mem]
    intro c hc
    obtain ⟨pieces', piece, hpieces', hget, hcontent, hmark⟩ := exists_piece_of_mem_recursiveChunk h hc
    cases hpieces.symm.trans hpieces'
    apply hmark
    rw [hcontent, String.toList_ofList, marks_append, hblank piece (List.mem_of_getElem? hget),
      List.append_nil]
    unfold prevTail
    split
    · rfl
    · cases hprev : pieces[c.position - 1]? with
      | none => exact List.filter_eq_nil_iff.2 fun d hd => absurd (List.mem_of_mem_drop hd) List.not_mem_nil
      | some prev =>
          have hprevBlank := marks_eq_nil_iff.1 (hblank prev (List.mem_of_getElem? hprev))
          exact marks_eq_nil_iff.2 fun d hd => hprevBlank d (List.mem_of_mem_drop hd)

/-- A text that is not blank leaves a chunk exactly when there is room for a character and the text fits
or does not crumble. -/
theorem recursiveChunk_eq_cons_iff {overlap : Int} (hmark : marks text ≠ []) :
    (∃ c cs, recursiveChunk text { chunkSize := some chunkSize, chunkOverlap := some overlap } =
      some (c :: cs)) ↔ 1 ≤ chunkSize ∧ ¬ (chunkSize < (text.length : Int) ∧ Crumbles chunkSize text) := by
  have hne : stripped text ≠ [] := fun hnil => hmark (stripped_eq_nil_iff.1 hnil)
  constructor
  · rintro ⟨c, cs, hchunks⟩
    obtain ⟨pieces, hpieces, -⟩ := exists_pieces hchunks hne
    have hsome : marks pieces.flatten ≠ [] := fun hnil =>
      List.cons_ne_nil c cs ((recursiveChunk_eq_nil_iff hchunks hne hpieces).2 hnil)
    have hpieces' : splitRecursive chunkSize defaultSeparators text = some pieces := hpieces
    have hsize : 1 ≤ chunkSize := by
      by_contra hsmall
      apply hsome
      rw [flatten_eq_nil_of_nonpos (by omega) hpieces']
      rfl
    exact ⟨hsize, fun hcrumbles => hsome ((splitRecursive_default_iff hsize hmark hpieces').2 hcrumbles)⟩
  · rintro ⟨hsize, hkept⟩
    have hchunked : (recursiveChunk text
        { chunkSize := some chunkSize, chunkOverlap := some overlap }).isSome := recursiveChunk_isSome hsize
    obtain ⟨chunks, hchunks⟩ := Option.isSome_iff_exists.1 hchunked
    obtain ⟨pieces, hpieces, -⟩ := exists_pieces hchunks hne
    have hpieces' : splitRecursive chunkSize defaultSeparators text = some pieces := hpieces
    cases chunks with
    | nil =>
        have hnil := (recursiveChunk_eq_nil_iff hchunks hne hpieces).1 rfl
        exact absurd ((splitRecursive_default_iff hsize hmark hpieces').1 hnil) hkept
    | cons c cs => exact ⟨c, cs, hchunks⟩

end Crumbs

end OpsKnowledge.Chunking
