import OpsKnowledge.Lib.Blank
import OpsKnowledge.Lib.Packing
import OpsKnowledge.Knowledge.Chunking

/-!
# The recursive strategy

`recursive.py`: a text is split at one separator after the other, the parts are packed into
pieces up to the chunk size, and each piece begins with the end of the piece before it.
-/

namespace OpsKnowledge.Chunking

open OpsKnowledge.Lib
open Knowledge (ChunkResult ChunkParams)

/-! ## Splitting -/

/-- `_force_split`; a range with the step 0 raises. -/
def forceSplit (text : List Char) (chunkSize : Int) : Option (List (List Char)) :=
  if chunkSize = 0 then none
  else if chunkSize < 0 then some []
  else some (slices chunkSize.toNat text)

/-- `_split_recursive` -/
def splitRecursive (chunkSize : Int) : List (List Char) → List Char → Option (List (List Char))
  | [], text => if (text.length : Int) ≤ chunkSize then some [text] else forceSplit text chunkSize
  | sep :: remainingSeps, text =>
      if (text.length : Int) ≤ chunkSize then some [text]
      else if sep.isEmpty then forceSplit text chunkSize
      else pack chunkSize sep (splitRecursive chunkSize remainingSeps) (splitSeq sep text)

/-- `s.replace(old, new)` -/
def replaceSeq (old new s : List Char) : List Char := new.intercalate (splitSeq old s)

def defaultSeparators : List (List Char) := [['\n', '\n'], ['\n'], ['.', ' '], [' '], []]

/-- The separators of a configuration. -/
def separators : Option String → List (List Char)
  | none => defaultSeparators
  | some customDelim =>
      if customDelim = "" then defaultSeparators
      else
        let delim := replaceSeq ['\\', 't'] ['\t'] (replaceSeq ['\\', 'n'] ['\n'] customDelim.toList)
        if delim ∈ defaultSeparators then defaultSeparators else delim :: defaultSeparators

/-! ## Overlaps -/

/-- `xs[-n:]` of a positive `n`. -/
def lastChars (n : Int) (xs : List Char) : List Char := xs.drop (xs.length - n.toNat)

/-- What a piece begins with: the end of the piece before it. -/
def prevTail (pieces : List (List Char)) (overlap : Int) (i : Nat) : List Char :=
  if overlap ≤ 0 ∨ i = 0 then [] else lastChars overlap ((pieces[i - 1]?).getD [])

/-- `_apply_overlap` -/
def applyOverlap (pieces : List (List Char)) (overlap : Int) : List (List Char) :=
  pieces.mapIdx fun i piece => prevTail pieces overlap i ++ piece

/-! ## The strategy -/

section Chunk

variable (text : List Char) (params : ChunkParams)

def piecesOf : Option (List (List Char)) :=
  splitRecursive (params.chunkSize.getD 500) (separators params.delimiter) text

/-- `RecursiveCharacterStrategy.chunk` -/
def recursiveChunk : Option (List ChunkResult) :=
  if (stripped text).isEmpty then some []
  else do
    let pieces ← piecesOf text params
    let overlapped := applyOverlap pieces (params.chunkOverlap.getD 50)
    some ((overlapped.zipIdx.filter fun p => !(stripped p.1).isEmpty).map fun p =>
      { content := String.ofList p.1, position := p.2 })

end Chunk

/-! ## Every text is split -/

section Bounds

variable {chunkSize : Int} {seps : List (List Char)} {text : List Char} {pieces : List (List Char)}

theorem forceSplit_eq (hsize : 1 ≤ chunkSize) (text : List Char) :
    forceSplit text chunkSize = some (slices chunkSize.toNat text) := by
  unfold forceSplit
  rw [if_neg (by omega), if_neg (by omega)]

theorem forceSplit_flatten (hsize : 1 ≤ chunkSize) (h : forceSplit text chunkSize = some pieces) :
    pieces.flatten = text := by
  rw [forceSplit_eq hsize] at h
  cases h
  exact flatten_slices (by omega) text

theorem splitRecursive_of_le (h : (text.length : Int) ≤ chunkSize) :
    splitRecursive chunkSize seps text = some [text] := by
  cases seps <;> rw [splitRecursive, if_pos h]

theorem splitRecursive_isSome (hsize : 1 ≤ chunkSize) (seps : List (List Char)) (text : List Char) :
    (splitRecursive chunkSize seps text).isSome := by
  induction seps generalizing text with
  | nil =>
      unfold splitRecursive
      split
      · rfl
      · rw [forceSplit_eq hsize]
        rfl
  | cons sep seps ih =>
      unfold splitRecursive
      split
      · rfl
      · split
        · rw [forceSplit_eq hsize]
          rfl
        · apply pack_isSome
          intro part _ _
          exact ih part

theorem length_le_of_mem_splitRecursive (h : splitRecursive chunkSize seps text = some pieces) :
    ∀ piece ∈ pieces, piece.length ≤ chunkSize.toNat := by
  have hwhole : ∀ {text : List Char}, (text.length : Int) ≤ chunkSize → ∀ piece ∈ [text],
      piece.length ≤ chunkSize.toNat := by
    intro text hle piece hpiece
    rw [List.mem_singleton.1 hpiece]
    omega
  have hforce : ∀ {text : List Char} {pieces : List (List Char)}, forceSplit text chunkSize = some pieces →
      ∀ piece ∈ pieces, piece.length ≤ chunkSize.toNat := by
    intro text pieces hforce piece hpiece
    unfold forceSplit at hforce
    split at hforce
    · cases hforce
    · split at hforce
      · cases hforce
        cases hpiece
      · cases hforce
        exact length_le_of_mem_slices hpiece
  induction seps generalizing text pieces with
  | nil =>
      unfold splitRecursive at h
      split at h
      · next hle =>
          cases h
          exact hwhole hle
      · exact hforce h
  | cons sep seps ih =>
      unfold splitRecursive at h
      split at h
      · next hle =>
          cases h
          exact hwhole hle
      · split at h
        · exact hforce h
        · exact length_le_of_mem_pack h fun part _ sub hsub => ih hsub

end Bounds

section Chunks

variable {text : List Char} {params : ChunkParams} {chunks : List ChunkResult}

theorem length_prevTail_le (pieces : List (List Char)) (overlap : Int) (i : Nat) :
    (prevTail pieces overlap i).length ≤ overlap.toNat := by
  unfold prevTail
  split
  · exact Nat.zero_le _
  · unfold lastChars
    rw [List.length_drop]
    omega

/-- A chunk is a piece behind the end of the piece before it. -/
theorem exists_piece_of_mem_recursiveChunk (h : recursiveChunk text params = some chunks) {c : ChunkResult}
    (hc : c ∈ chunks) : ∃ pieces piece, piecesOf text params = some pieces ∧
      pieces[c.position]? = some piece ∧
      c.content = String.ofList (prevTail pieces (params.chunkOverlap.getD 50) c.position ++ piece) ∧
      marks c.content.toList ≠ [] := by
  unfold recursiveChunk at h
  split at h
  · cases h
    cases hc
  · obtain ⟨pieces, hpieces, heq⟩ := Option.bind_eq_some_iff.1 h
    cases heq
    obtain ⟨⟨content, i⟩, hmem, rfl⟩ := List.mem_map.1 hc
    have hget := List.mem_zipIdx_iff_getElem?.1 (List.mem_of_mem_filter hmem)
    unfold applyOverlap at hget
    rw [List.getElem?_mapIdx] at hget
    obtain ⟨piece, hpiece, hcontent⟩ := Option.map_eq_some_iff.1 hget
    refine ⟨pieces, piece, hpieces, hpiece, congrArg String.ofList hcontent.symm, ?_⟩
    intro hblank
    have hkept := (List.mem_filter.1 hmem).2
    rw [String.toList_ofList] at hblank
    rw [stripped_eq_nil_iff.2 hblank] at hkept
    cases hkept

theorem length_le_of_mem_recursiveChunk (h : recursiveChunk text params = some chunks) {c : ChunkResult}
    (hc : c ∈ chunks) :
    c.content.length ≤ (params.chunkSize.getD 500).toNat + (params.chunkOverlap.getD 50).toNat := by
  obtain ⟨pieces, piece, hpieces, hget, hcontent, -⟩ := exists_piece_of_mem_recursiveChunk h hc
  have hpiece := length_le_of_mem_splitRecursive hpieces piece (List.mem_of_getElem? hget)
  have htail := length_prevTail_le pieces (params.chunkOverlap.getD 50) c.position
  rw [hcontent, String.length_ofList, List.length_append]
  omega

theorem recursiveChunk_isSome (hsize : 1 ≤ params.chunkSize.getD 500) :
    (recursiveChunk text params).isSome := by
  unfold recursiveChunk
  split
  · rfl
  · obtain ⟨pieces, hpieces⟩ := Option.isSome_iff_exists.1 (splitRecursive_isSome hsize
      (separators params.delimiter) text)
    unfold piecesOf
    rw [hpieces]
    rfl

end Chunks

/-- Every text is split into pieces up to the chunk size, and a chunk adds no more than the overlap. -/
theorem chunks_bounded (text : List Char) (seps : List (List Char)) (delimiter : Option String)
    {chunkSize chunkOverlap : Int} (hsize : 1 ≤ chunkSize) (hoverlap : 0 ≤ chunkOverlap) :
    (∃ pieces, splitRecursive chunkSize seps text = some pieces ∧
      ∀ piece ∈ pieces, (piece.length : Int) ≤ chunkSize) ∧
    ∃ chunks, recursiveChunk text
        { chunkSize := some chunkSize, chunkOverlap := some chunkOverlap, delimiter := delimiter } =
          some chunks ∧
      ∀ c ∈ chunks, (c.content.length : Int) ≤ chunkSize + chunkOverlap := by
  constructor
  · obtain ⟨pieces, hpieces⟩ := Option.isSome_iff_exists.1 (splitRecursive_isSome hsize seps text)
    refine ⟨pieces, hpieces, ?_⟩
    intro piece hpiece
    have hle := length_le_of_mem_splitRecursive hpieces piece hpiece
    omega
  · let params : ChunkParams :=
      { chunkSize := some chunkSize, chunkOverlap := some chunkOverlap, delimiter := delimiter }
    have hsome : (recursiveChunk text params).isSome := recursiveChunk_isSome hsize
    obtain ⟨chunks, hchunks⟩ := Option.isSome_iff_exists.1 hsome
    refine ⟨chunks, hchunks, ?_⟩
    intro c hc
    have hle : c.content.length ≤ chunkSize.toNat + chunkOverlap.toNat :=
      length_le_of_mem_recursiveChunk hchunks hc
    omega

/-- Consecutive separators, a part of exactly the limit and one without separators. -/
theorem chunks_bounded_hardCases :
    (∃ pieces, splitRecursive 4 defaultSeparators "a\n\n\n\nbcde\n\nfghijk".toList = some pieces ∧
      ∀ piece ∈ pieces, (piece.length : Int) ≤ 4) ∧
    ∃ chunks, recursiveChunk "a\n\n\n\nbcde\n\nfghijk".toList
        { chunkSize := some 4, chunkOverlap := some 2, delimiter := none } = some chunks ∧
      ∀ c ∈ chunks, (c.content.length : Int) ≤ 4 + 2 :=
  chunks_bounded "a\n\n\n\nbcde\n\nfghijk".toList defaultSeparators none (by decide) (by decide)

end OpsKnowledge.Chunking
