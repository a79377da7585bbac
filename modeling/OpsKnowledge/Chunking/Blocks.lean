import Mathlib.Data.List.Forall2
import OpsKnowledge.Chunking.Recursive
import OpsKnowledge.Lib.Regex

/-!
# Code blocks and tables

`code.py` and `table.py`: a text is cut around the matches of a pattern, each match is one
chunk, and what stands between the matches goes through the recursive strategy under the same
counter of positions.
-/

namespace OpsKnowledge.Chunking

open OpsKnowledge.Lib
open Knowledge (ChunkResult ChunkParams)
open Workflow (Json)

/-! ## The patterns -/

def backtick : Char := Char.ofNat 96

def fenceRe : Regex := .seq (.char (· = backtick)) (.seq (.char (· = backtick)) (.char (· = backtick)))

/-- `_CODE_BLOCK_RE` -/
def codeBlockRe : Regex := .seq fenceRe (.seq (.lazyStar (.char fun _ => true)) fenceRe)

def barRe : Regex := .char (· = '|')

def newlineRe : Regex := .char (· = '\n')

/-- `\|.+\|` -/
def rowRe : Regex := .seq barRe (.seq (.plus (.char (· ≠ '\n'))) barRe)

/-- `[-:\s|]` -/
def isRule (c : Char) : Bool := c = '-' || c = ':' || isSpace c || c = '|'

/-- `_TABLE_RE` -/
def tableRe : Regex :=
  .seq rowRe (.seq newlineRe (.seq barRe (.seq (.plus (.char isRule)) (.seq barRe (.seq newlineRe
    (.plus (.seq rowRe (.opt newlineRe))))))))

/-! ## The strategies -/

/-- The loop over the matches of `_split_code_blocks` and `_split_tables`; `true` marks a match. -/
def splitBlocks (segs : Regex.Segments) : List (List Char × Bool) :=
  segs.1.flatMap (fun seg => (if seg.1.isEmpty then [] else [(seg.1, false)]) ++ [(seg.2, true)]) ++
    if segs.2.isEmpty then [] else [(segs.2, false)]

def splitCodeBlocks (text : List Char) : List (List Char × Bool) := splitBlocks (codeBlockRe.findIter text)

def splitTables (text : List Char) : List (List Char × Bool) := splitBlocks (tableRe.findIter text)

/-- The last fence opens a block that does not end. -/
example : splitCodeBlocks "a```x``````y".toList =
    [("a".toList, false), ("```x```".toList, true), ("```y".toList, false)] := by decide +kernel

/-- `_detect_lang`; the empty text for `None`. -/
def detectLang (block : List Char) : List Char :=
  let firstLine := block.takeWhile (· ≠ '\n')
  let fence := List.replicate 3 backtick
  stripped (if fence.isPrefixOf firstLine then firstLine.drop 3 else firstLine)

def codeMeta (block : List Char) : Dict String Json :=
  let typed := Dict.empty.set "type" (.str "code")
  let lang := detectLang block
  if lang.isEmpty then typed else typed.set "language" (.str (String.ofList lang))

def tableMeta (_ : List Char) : Dict String Json := Dict.empty.set "type" (.str "table")

structure BlockState where
  results : List ChunkResult := []
  pos : Nat := 0

def BlockState.add (st : BlockState) (c : ChunkResult) : BlockState :=
  { results := st.results ++ [{ c with position := st.pos }], pos := st.pos + 1 }

section Strategy

variable (re : Regex) (blockMeta : List Char → Dict String Json) (params : ChunkParams)

/-- A part of the loop of `chunk`; `none` where the fallback raises. -/
def blockStep (st : BlockState) (part : List Char × Bool) : Option BlockState :=
  let content := stripped part.1
  if content.isEmpty then some st
  else if part.2 then some (st.add { content := String.ofList content, metadata := blockMeta content })
  else (recursiveChunk content params).map fun sub => sub.foldl BlockState.add st

def blockChunk (text : List Char) : Option (List ChunkResult) :=
  if (stripped text).isEmpty then some []
  else ((splitBlocks (re.findIter text)).foldlM (blockStep blockMeta params) {}).map BlockState.results

end Strategy

/-- `CodeAwareStrategy.chunk` -/
def codeAwareChunk (text : List Char) (params : ChunkParams) : Option (List ChunkResult) :=
  blockChunk codeBlockRe codeMeta params text

/-- `TableAwareStrategy.chunk` -/
def tableAwareChunk (text : List Char) (params : ChunkParams) : Option (List ChunkResult) :=
  blockChunk tableRe tableMeta params text

/-! ## The law -/

/-- Parts that make up a text: there is a match between any two plain ones. -/
structure Partition (text : List Char) (parts : List (List Char × Bool)) : Prop where
  whole : (parts.map Prod.fst).flatten = text
  nonempty : ∀ part ∈ parts, part.1 ≠ []
  apart : parts.IsChain fun a b => a.2 = true ∨ b.2 = true

def isTyped (kind : String) (c : ChunkResult) : Bool :=
  match c.metadata.get? "type" with
  | some (.str t) => t = kind
  | _ => false

/-- The chunks of one part: of a match itself, in the form `shown`; of plain text what the recursive
strategy makes of it. -/
def ChunksOfPart (kind : String) (shown : List Char → List Char) (params : ChunkParams)
    (part : List Char × Bool) (group : List ChunkResult) : Prop :=
  if part.2 then ∃ c, group = [c] ∧ isTyped kind c = true ∧ c.content = String.ofList (shown part.1)
  else (∀ c ∈ group, isTyped kind c = false) ∧ ∃ sub, recursiveChunk (stripped part.1) params = some sub ∧
    group.map ChunkResult.content = sub.map ChunkResult.content

/-- The chunks are those of the parts, part after part, and numbered from zero. -/
structure ChunksOfParts (kind : String) (shown : List Char → List Char) (params : ChunkParams)
    (parts : List (List Char × Bool)) (chunks : List ChunkResult) : Prop where
  order : ∃ groups, List.Forall₂ (ChunksOfPart kind shown params) parts groups ∧ chunks = groups.flatten
  blocks : (chunks.filter (isTyped kind)).map ChunkResult.content =
    (parts.filter Prod.snd).map fun part => String.ofList (shown part.1)
  positions : chunks.map ChunkResult.position = List.range chunks.length

/-- A text up to the line break that it may end with. -/
def withoutBreak (s : List Char) : List Char := if s.getLast? = some '\n' then s.dropLast else s

/-! ## Parts -/

section Parts

variable {re : Regex} {text : List Char}

theorem splitBlocks_cons (seg : List Char × List Char) (segs : List (List Char × List Char))
    (tail : List Char) : splitBlocks (seg :: segs, tail) =
      (if seg.1.isEmpty then [] else [(seg.1, false)]) ++ (seg.2, true) :: splitBlocks (segs, tail) := by
  simp [splitBlocks, List.append_assoc]

theorem flatten_splitBlocks (segs : Regex.Segments) : ((splitBlocks segs).map Prod.fst).flatten =
    segs.1.flatMap (fun seg => seg.1 ++ seg.2) ++ segs.2 := by
  obtain ⟨segs, tail⟩ := segs
  induction segs with
  | nil => cases tail <;> simp [splitBlocks]
  | cons seg segs ih =>
      rw [splitBlocks_cons, List.map_append, List.map_cons, List.flatten_append, List.flatten_cons, ih]
      obtain ⟨gap, m⟩ := seg
      cases gap <;> simp

/-- Behind a match there may be anything. -/
theorem isChain_splitBlocks (segs : Regex.Segments) :
    (splitBlocks segs).IsChain fun a b => a.2 = true ∨ b.2 = true := by
  obtain ⟨segs, tail⟩ := segs
  induction segs with
  | nil => cases tail <;> simp [splitBlocks]
  | cons seg segs ih =>
      rw [splitBlocks_cons]
      have hmatch : ((seg.2, true) :: splitBlocks (segs, tail)).IsChain
          fun a b => a.2 = true ∨ b.2 = true := by
        rw [List.isChain_cons]
        exact ⟨fun b _ => Or.inl rfl, ih⟩
      split
      · exact hmatch
      · rw [List.singleton_append, List.isChain_cons]
        refine ⟨?_, hmatch⟩
        intro b hb
        cases hb
        exact Or.inr rfl

theorem mem_splitBlocks {segs : Regex.Segments} {part : List Char × Bool} (h : part ∈ splitBlocks segs) :
    part.2 = true ∧ (∃ seg ∈ segs.1, seg.2 = part.1) ∨ part.2 = false ∧ part.1 ≠ [] := by
  obtain ⟨segs, tail⟩ := segs
  induction segs with
  | nil =>
      cases tail with
      | nil => cases h
      | cons c tail =>
          obtain rfl := List.mem_singleton.1 (h : part ∈ [(c :: tail, false)])
          exact Or.inr ⟨rfl, List.cons_ne_nil c tail⟩
  | cons seg segs ih =>
      rw [splitBlocks_cons, List.mem_append, List.mem_cons] at h
      rcases h with h | rfl | h
      · split at h
        · cases h
        · next hgap =>
            obtain rfl := List.mem_singleton.1 h
            exact Or.inr ⟨rfl, fun hnil => hgap (List.isEmpty_iff.2 hnil)⟩
      · exact Or.inl ⟨rfl, seg, List.mem_cons_self, rfl⟩
      · rcases ih h with ⟨hmatch, seg', hseg', heq⟩ | hplain
        · exact Or.inl ⟨hmatch, seg', List.mem_cons_of_mem seg hseg', heq⟩
        · exact Or.inr hplain

/-- For any pattern: what the matches cut a text into. -/
theorem partition_splitBlocks (re : Regex) (text : List Char) :
    Partition text (splitBlocks (re.findIter text)) := by
  refine ⟨?_, ?_, isChain_splitBlocks _⟩
  · rw [flatten_splitBlocks]
    exact (Regex.segmented_findIter text).eq.symm
  · intro part hpart
    rcases mem_splitBlocks hpart with ⟨-, seg, hseg, heq⟩ | ⟨-, hne⟩
    · rw [← heq]
      exact Regex.forall_mem_findIter (P := fun m => m ≠ []) (fun _ _ _ _ hne => hne) hseg
    · exact hne

end Parts

/-! ## Matches -/

section Matches

variable {prev : Option Char} {s : List Char} {x : Regex.Match}

theorem eq_of_mem_run_char {p : Char → Bool} (h : x ∈ Regex.run (.char p) prev s) :
    ∃ c, p c = true ∧ x.1 = [c] := by
  cases s with
  | nil => cases h
  | cons c s =>
      unfold Regex.run at h
      split at h
      · next hc =>
          rw [List.mem_singleton.1 h]
          exact ⟨c, hc, rfl⟩
      · cases h

theorem eq_of_mem_run_fenceRe (h : x ∈ fenceRe.run prev s) : x.1 = [backtick, backtick, backtick] := by
  obtain ⟨m, m', rest, hm, hm', heq⟩ := Regex.mem_run_seq.1 h
  obtain ⟨m₂, m₃, rest', hm₂, hm₃, heq'⟩ := Regex.mem_run_seq.1 hm'
  obtain ⟨c, hc, h₁⟩ := eq_of_mem_run_char hm
  obtain ⟨d, hd, h₂⟩ := eq_of_mem_run_char hm₂
  obtain ⟨e, he, h₃⟩ := eq_of_mem_run_char hm₃
  simp only [decide_eq_true_eq] at hc hd he
  subst hc hd he
  dsimp only at heq' h₁ h₂ h₃
  rw [heq, heq', h₁, h₂, h₃]
  rfl

/-- A fenced block has no white space around it. -/
theorem trim_of_mem_run_codeBlockRe (h : x ∈ codeBlockRe.run prev s) : Trim x.1 ∧ x.1 ≠ [] := by
  obtain ⟨m, m', rest, hm, hm', heq⟩ := Regex.mem_run_seq.1 h
  obtain ⟨m₂, m₃, rest', -, hm₃, heq'⟩ := Regex.mem_run_seq.1 hm'
  have hopen := eq_of_mem_run_fenceRe hm
  have hclose := eq_of_mem_run_fenceRe hm₃
  dsimp only at heq' hopen hclose
  have hplain : ∀ c ∈ some backtick, isSpace c = false := by
    intro c hc
    cases hc
    rfl
  have hfence : Trim [backtick, backtick, backtick] := ⟨hplain, hplain⟩
  rw [heq, heq', hopen, hclose, ← List.append_assoc]
  exact ⟨hfence.append hfence (List.cons_ne_nil _ _) (List.cons_ne_nil _ _) m₂, List.cons_ne_nil _ _⟩

/-- The end of a row: a bar, and the line break when there is one. -/
def EndsRow (m : List Char) : Prop := ∃ front, m = front ++ ['|'] ∨ m = front ++ ['|'] ++ ['\n']

theorem EndsRow.append {m : List Char} (h : EndsRow m) (before : List Char) : EndsRow (before ++ m) := by
  obtain ⟨front, rfl | rfl⟩ := h
  · exact ⟨before ++ front, Or.inl (List.append_assoc ..).symm⟩
  · exact ⟨before ++ front, Or.inr (by simp)⟩

theorem endsRow_of_mem_run_row (h : x ∈ Regex.run (.seq rowRe (.opt newlineRe)) prev s) : EndsRow x.1 := by
  obtain ⟨m, m', rest, hm, hm', heq⟩ := Regex.mem_run_seq.1 h
  obtain ⟨m₁, m₂, rest', -, hm₂, heq₁⟩ := Regex.mem_run_seq.1 hm
  obtain ⟨m₃, m₄, rest'', -, hm₄, heq₂⟩ := Regex.mem_run_seq.1 hm₂
  obtain ⟨c, hc, hbar⟩ := eq_of_mem_run_char hm₄
  simp only [decide_eq_true_eq] at hc
  subst hc
  dsimp only at hbar heq₁ heq₂
  have hrow : m = (m₁ ++ m₃) ++ ['|'] := by rw [heq₁, heq₂, hbar, List.append_assoc]
  rw [heq, hrow]
  rcases List.mem_append.1 hm' with hbreak | hnone
  · obtain ⟨d, hd, hline⟩ := eq_of_mem_run_char hbreak
    simp only [decide_eq_true_eq] at hd
    subst hd
    dsimp only at hline
    exact ⟨m₁ ++ m₃, Or.inr (by rw [hline])⟩
  · have hnil : m' = [] := congrArg Prod.fst (List.mem_singleton.1 hnone)
    exact ⟨m₁ ++ m₃, Or.inl (by rw [hnil, List.append_nil])⟩

theorem endsRow_of_mem_run_plus {r : Regex} (hr : ∀ prev s x, x ∈ r.run prev s → EndsRow x.1)
    (h : x ∈ Regex.run (.plus r) prev s) : EndsRow x.1 := by
  obtain ⟨m, m', rest, hm, hm', heq⟩ := Regex.mem_run_seq.1 h
  have hmore : m' = [] ∨ EndsRow m' :=
    Regex.runStar_induction (P := fun _ _ x => x.1 = [] ∨ EndsRow x.1) (fun _ _ => Or.inl rfl)
      (fun prev s m m' rest rest' hm _ hrest => by
        rcases hrest with hnil | hrow
        · have hnil : m' = [] := hnil
          rw [hnil]
          exact Or.inr (by simpa using hr _ _ _ hm)
        · exact Or.inr (hrow.append m)) _ _ _ _ hm'
  rw [heq]
  rcases hmore with rfl | hrow
  · rw [List.append_nil]
    exact hr _ _ _ hm
  · exact hrow.append m

/-- A table begins with a bar and ends a row. -/
theorem shape_of_mem_run_tableRe (h : x ∈ tableRe.run prev s) : x.1.head? = some '|' ∧ EndsRow x.1 := by
  obtain ⟨header, m, _, hheader, hm, heq⟩ := Regex.mem_run_seq.1 h
  constructor
  · obtain ⟨bar, m', _, hbar, -, heq'⟩ := Regex.mem_run_seq.1 hheader
    obtain ⟨c, hc, hone⟩ := eq_of_mem_run_char hbar
    simp only [decide_eq_true_eq] at hc
    subst hc
    dsimp only at hone heq'
    rw [heq, heq', hone]
    rfl
  · obtain ⟨_, m₁, _, -, hm₁, heq₁⟩ := Regex.mem_run_seq.1 hm
    obtain ⟨_, m₂, _, -, hm₂, heq₂⟩ := Regex.mem_run_seq.1 hm₁
    obtain ⟨_, m₃, _, -, hm₃, heq₃⟩ := Regex.mem_run_seq.1 hm₂
    obtain ⟨_, m₄, _, -, hm₄, heq₄⟩ := Regex.mem_run_seq.1 hm₃
    obtain ⟨_, m₅, _, -, hm₅, heq₅⟩ := Regex.mem_run_seq.1 hm₄
    dsimp only at heq₁ heq₂ heq₃ heq₄ heq₅
    have hrows := endsRow_of_mem_run_plus (fun _ _ _ hrow => endsRow_of_mem_run_row hrow) hm₅
    rw [heq, heq₁, heq₂, heq₃, heq₄, heq₅]
    exact ((((hrows.append _).append _).append _).append _).append _ |>.append _

theorem stripped_concat_newline {t : List Char} (ht : Trim t) (hne : t ≠ []) :
    stripped (t ++ ['\n']) = t := by
  have hdrop : (t ++ ['\n']).dropWhile isSpace = t ++ ['\n'] := by
    cases t with
    | nil => exact absurd rfl hne
    | cons c t => exact List.dropWhile_cons_of_neg (by simp [ht.head c rfl])
  have hself := ht.stripped_eq
  unfold stripped at hself ⊢
  have hdrop' : t.dropWhile isSpace = t := by
    cases t with
    | nil => rfl
    | cons c t => exact List.dropWhile_cons_of_neg (by simp [ht.head c rfl])
  rw [hdrop'] at hself
  rw [hdrop, List.rdropWhile_concat_pos _ _ _ (by decide), hself]

/-- Of a table the strategy takes away the line break behind its last row. -/
theorem stripped_table (h : x ∈ tableRe.run prev s) :
    stripped x.1 = withoutBreak x.1 ∧ withoutBreak x.1 ≠ [] := by
  obtain ⟨hhead, front, hend⟩ := shape_of_mem_run_tableRe h
  have hne : front ++ ['|'] ≠ [] := List.append_ne_nil_of_right_ne_nil _ (List.cons_ne_nil _ _)
  have htrim : Trim (front ++ ['|']) := by
    constructor
    · intro c hc
      have hfirst : (front ++ ['|']).head? = some '|' := by
        rcases hend with heq | heq
        · rwa [heq] at hhead
        · rwa [heq, List.head?_append_of_ne_nil _ hne] at hhead
      rw [hfirst] at hc
      cases hc
      decide
    · intro c hc
      rw [List.getLast?_concat] at hc
      cases hc
      decide
  rcases hend with heq | heq
  · have hkept : withoutBreak (front ++ ['|']) = front ++ ['|'] := by simp [withoutBreak]
    rw [heq, hkept]
    exact ⟨htrim.stripped_eq, hne⟩
  · have hcut : withoutBreak (front ++ ['|'] ++ ['\n']) = front ++ ['|'] := by
      rw [withoutBreak, List.getLast?_concat, if_pos rfl, List.dropLast_concat]
    rw [heq, hcut]
    exact ⟨stripped_concat_newline htrim hne, hne⟩

end Matches

/-! ## The loop -/

section Loop

variable {kind : String} {blockMeta : List Char → Dict String Json} {params : ChunkParams}
  {shown : List Char → List Char} {parts : List (List Char × Bool)} {st st' : BlockState}

/-- What the chunks of one part are and where they stand. -/
structure Adds (kind : String) (shown : List Char → List Char) (params : ChunkParams)
    (part : List Char × Bool) (st st' : BlockState) (group : List ChunkResult) : Prop where
  chunks : ChunksOfPart kind shown params part group
  results : st'.results = st.results ++ group
  positions : group.map ChunkResult.position = List.range' st.pos group.length
  pos : st'.pos = st.pos + group.length

/-- Every match gets the type. -/
def Labelled (kind : String) (blockMeta : List Char → Dict String Json) : Prop :=
  ∀ (block : List Char) (c : ChunkResult), c.metadata = blockMeta block → isTyped kind c = true

/-- Chunks of the fallback, under the counter of the loop. -/
theorem foldl_add (sub : List ChunkResult) (st : BlockState) : ∃ group,
    (sub.foldl BlockState.add st).results = st.results ++ group ∧
    (sub.foldl BlockState.add st).pos = st.pos + group.length ∧
    group.map ChunkResult.position = List.range' st.pos group.length ∧
    group.map ChunkResult.content = sub.map ChunkResult.content ∧
    group.map ChunkResult.metadata = sub.map ChunkResult.metadata := by
  induction sub generalizing st with
  | nil => exact ⟨[], (List.append_nil _).symm, rfl, rfl, rfl, rfl⟩
  | cons c sub ih =>
      obtain ⟨group, hresults, hpos, hpositions, hcontent, hmeta⟩ := ih (st.add c)
      refine ⟨{ c with position := st.pos } :: group, ?_, ?_, ?_, ?_, ?_⟩
      · rw [List.foldl_cons, hresults]
        simp [BlockState.add]
      · rw [List.foldl_cons, hpos]
        simp only [BlockState.add, List.length_cons]
        omega
      · rw [List.map_cons, List.length_cons, List.range'_succ, hpositions]
        rfl
      · rw [List.map_cons, List.map_cons, hcontent]
      · rw [List.map_cons, List.map_cons, hmeta]

theorem metadata_recursiveChunk {text : List Char} {sub : List ChunkResult}
    (h : recursiveChunk text params = some sub) : ∀ c ∈ sub, c.metadata = Dict.empty := by
  intro c hc
  unfold recursiveChunk at h
  split at h
  · cases h
    cases hc
  · obtain ⟨pieces, -, heq⟩ := Option.bind_eq_some_iff.1 h
    cases heq
    obtain ⟨p, -, rfl⟩ := List.mem_map.1 hc
    rfl

theorem recursiveChunk_blank {text : List Char} (h : stripped text = []) :
    recursiveChunk text params = some [] := by
  unfold recursiveChunk
  rw [if_pos (by simp [h])]

/-- One part of the loop. -/
theorem blockStep_adds (htyped : Labelled kind blockMeta)
    {part : List Char × Bool} (hshown : part.2 = true → stripped part.1 = shown part.1 ∧ shown part.1 ≠ [])
    (h : blockStep blockMeta params st part = some st') :
    ∃ group, Adds kind shown params part st st' group := by
  obtain ⟨text, isBlock⟩ := part
  unfold blockStep at h
  dsimp only at h hshown
  cases isBlock with
  | true =>
      obtain ⟨heq, hne⟩ := hshown rfl
      rw [heq, if_neg (by simpa using hne), if_pos rfl] at h
      cases h
      refine ⟨[_], ⟨_, rfl, htyped (shown text) _ rfl, rfl⟩, rfl, rfl, rfl⟩
  | false =>
      split at h
      · next hblank =>
          cases h
          have hnil : stripped (stripped text) = [] := by simpa using hblank
          exact ⟨[], ⟨(fun c hc => nomatch hc), [], recursiveChunk_blank hnil, rfl⟩,
            (List.append_nil _).symm, rfl, rfl⟩
      · rw [if_neg Bool.false_ne_true] at h
        obtain ⟨sub, hsub, rfl⟩ := Option.map_eq_some_iff.1 h
        obtain ⟨group, hresults, hpos, hpositions, hcontent, hmeta⟩ := foldl_add sub st
        refine ⟨group, ⟨?_, sub, hsub, hcontent⟩, hresults, hpositions, hpos⟩
        intro c hc
        have hmem : c.metadata ∈ group.map ChunkResult.metadata := List.mem_map_of_mem hc
        rw [hmeta] at hmem
        obtain ⟨d, hd, heq⟩ := List.mem_map.1 hmem
        have hnone := metadata_recursiveChunk hsub d hd
        unfold isTyped
        rw [← heq, hnone]
        rfl

/-- All parts, in their order. -/
theorem foldlM_blockStep (htyped : Labelled kind blockMeta)
    (hshown : ∀ part ∈ parts, part.2 = true → stripped part.1 = shown part.1 ∧ shown part.1 ≠ [])
    (h : parts.foldlM (blockStep blockMeta params) st = some st') : ∃ groups,
      List.Forall₂ (ChunksOfPart kind shown params) parts groups ∧
      st'.results = st.results ++ groups.flatten ∧
      groups.flatten.map ChunkResult.position = List.range' st.pos groups.flatten.length := by
  induction parts generalizing st with
  | nil =>
      cases h
      exact ⟨[], .nil, (List.append_nil _).symm, rfl⟩
  | cons part parts ih =>
      rw [List.foldlM_cons, Option.bind_eq_bind, Option.bind_eq_some_iff] at h
      obtain ⟨st₁, hstep, hrest⟩ := h
      obtain ⟨group, hadds⟩ := blockStep_adds htyped (hshown part List.mem_cons_self) hstep
      obtain ⟨groups, hgroups, hresults, hpositions⟩ :=
        ih (fun p hp => hshown p (List.mem_cons_of_mem part hp)) hrest
      refine ⟨group :: groups, .cons hadds.chunks hgroups, ?_, ?_⟩
      · rw [hresults, hadds.results, List.flatten_cons, List.append_assoc]
      · rw [List.flatten_cons, List.map_append, hadds.positions, hpositions, hadds.pos, List.length_append,
          List.range'_append_1]

theorem blocks_of_forall₂ {groups : List (List ChunkResult)}
    (h : List.Forall₂ (ChunksOfPart kind shown params) parts groups) :
    (groups.flatten.filter (isTyped kind)).map ChunkResult.content =
      (parts.filter Prod.snd).map fun part => String.ofList (shown part.1) := by
  induction h with
  | nil => rfl
  | @cons part group parts groups hpart _ ih =>
      rw [List.flatten_cons, List.filter_append, List.map_append, ih]
      obtain ⟨text, isBlock⟩ := part
      cases isBlock with
      | true =>
          obtain ⟨c, rfl, htyped, hcontent⟩ := hpart
          simp [htyped, hcontent]
      | false =>
          have hnone : group.filter (isTyped kind) = [] := by
            rw [List.filter_eq_nil_iff]
            intro c hc
            simp [hpart.1 c hc]
          simp [hnone]

end Loop

/-! ## The strategies -/

section Strategies

variable {kind : String} {re : Regex} {blockMeta : List Char → Dict String Json} {params : ChunkParams}
  {shown : List Char → List Char} {text : List Char} {chunks : List ChunkResult}

/-- A pattern whose matches hold a mark and lose what `shown` takes away. -/
def Shows (re : Regex) (shown : List Char → List Char) : Prop :=
  ∀ prev s x, x ∈ re.run prev s → stripped x.1 = shown x.1 ∧ shown x.1 ≠ []

theorem shown_of_mem_splitBlocks (hre : Shows re shown) (text : List Char) :
    ∀ part ∈ splitBlocks (re.findIter text), part.2 = true →
      stripped part.1 = shown part.1 ∧ shown part.1 ≠ [] := by
  intro part hpart hmatch
  rcases mem_splitBlocks hpart with ⟨-, seg, hseg, heq⟩ | ⟨hplain, -⟩
  · rw [← heq]
    exact Regex.forall_mem_findIter (P := fun m => stripped m = shown m ∧ shown m ≠ [])
      (fun prev s x hx _ => hre prev s x hx) hseg
  · rw [hplain] at hmatch
    cases hmatch

/-- A blank text need not be told apart: none of its parts has a chunk. -/
theorem blockChunk_eq (text : List Char) : blockChunk re blockMeta params text =
    ((splitBlocks (re.findIter text)).foldlM (blockStep blockMeta params) {}).map BlockState.results := by
  unfold blockChunk
  split
  · next hblank =>
      have hnil : marks text = [] := stripped_eq_nil_iff.1 (by simpa using hblank)
      have hparts : ∀ part ∈ splitBlocks (re.findIter text), stripped part.1 = [] := by
        intro part hpart
        rw [stripped_eq_nil_iff, marks_eq_nil_iff]
        intro c hc
        apply marks_eq_nil_iff.1 hnil c
        rw [← (partition_splitBlocks re text).whole]
        exact List.mem_flatten.2 ⟨part.1, List.mem_map_of_mem hpart, hc⟩
      have hskip : ∀ parts : List (List Char × Bool), (∀ part ∈ parts, stripped part.1 = []) →
          ∀ st, parts.foldlM (blockStep blockMeta params) st = some st := by
        intro parts
        induction parts with
        | nil => exact fun _ _ => rfl
        | cons part parts ih =>
            intro hall st
            have hstep : blockStep blockMeta params st part = some st := by
              unfold blockStep
              rw [hall part List.mem_cons_self]
              rfl
            rw [List.foldlM_cons, hstep]
            exact ih (fun p hp => hall p (List.mem_cons_of_mem part hp)) st
      rw [hskip _ hparts]
      rfl
  · rfl

theorem chunksOfParts (htyped : Labelled kind blockMeta) (hre : Shows re shown)
    (h : blockChunk re blockMeta params text = some chunks) :
    ChunksOfParts kind shown params (splitBlocks (re.findIter text)) chunks := by
  rw [blockChunk_eq] at h
  obtain ⟨st, hst, rfl⟩ := Option.map_eq_some_iff.1 h
  obtain ⟨groups, hgroups, hresults, hpositions⟩ :=
    foldlM_blockStep htyped (shown_of_mem_splitBlocks hre text) hst
  have hall : st.results = groups.flatten := hresults
  refine ⟨⟨groups, hgroups, hall⟩, ?_, ?_⟩
  · rw [hall]
    exact blocks_of_forall₂ hgroups
  · rw [hall, hpositions, List.range_eq_range']

theorem blockChunk_isSome (hsize : 1 ≤ params.chunkSize.getD 500) :
    (blockChunk re blockMeta params text).isSome := by
  have hloop : ∀ (parts : List (List Char × Bool)) (st : BlockState),
      (parts.foldlM (blockStep blockMeta params) st).isSome := by
    intro parts
    induction parts with
    | nil => exact fun _ => rfl
    | cons part parts ih =>
        intro st
        have hstep : ∃ st', blockStep blockMeta params st part = some st' := by
          unfold blockStep
          dsimp only
          split
          · exact ⟨_, rfl⟩
          · split
            · exact ⟨_, rfl⟩
            · obtain ⟨sub, hsub⟩ := Option.isSome_iff_exists.1
                (recursiveChunk_isSome hsize : (recursiveChunk (stripped part.1) params).isSome)
              rw [hsub]
              exact ⟨_, rfl⟩
        obtain ⟨st', hst'⟩ := hstep
        rw [List.foldlM_cons, hst']
        exact ih st'
  rw [blockChunk_eq, Option.isSome_map]
  exact hloop _ _

theorem labelled_codeMeta : Labelled "code" codeMeta := by
  intro block c hc
  have htype : (codeMeta block).get? "type" = some (.str "code") := by
    unfold codeMeta
    dsimp only
    split
    · exact Dict.get?_set_self ..
    · rw [Dict.get?_set_of_ne _ _ (by decide), Dict.get?_set_self]
  unfold isTyped
  rw [hc, htype]
  rfl

theorem labelled_tableMeta : Labelled "table" tableMeta := by
  intro block c hc
  unfold isTyped
  rw [hc]
  rfl

theorem shows_codeBlockRe : Shows codeBlockRe id := by
  intro prev s x hx
  obtain ⟨htrim, hne⟩ := trim_of_mem_run_codeBlockRe hx
  exact ⟨htrim.stripped_eq, hne⟩

theorem shows_tableRe : Shows tableRe withoutBreak := fun _ _ _ hx => stripped_table hx

end Strategies

/-- For every text: the parts make it up, every match is one chunk and every chunk is in its place. A
fenced block is in its chunk as it is, a table without the line break behind its last row. -/
theorem blocks_uncut (text : List Char) (params : ChunkParams) :
    (Partition text (splitCodeBlocks text) ∧ Partition text (splitTables text)) ∧
    (∀ chunks, codeAwareChunk text params = some chunks →
      ChunksOfParts "code" id params (splitCodeBlocks text) chunks) ∧
    (∀ chunks, tableAwareChunk text params = some chunks →
      ChunksOfParts "table" withoutBreak params (splitTables text) chunks) ∧
    (1 ≤ params.chunkSize.getD 500 →
      (codeAwareChunk text params).isSome ∧ (tableAwareChunk text params).isSome) :=
  ⟨⟨partition_splitBlocks codeBlockRe text, partition_splitBlocks tableRe text⟩,
    fun _ h => chunksOfParts labelled_codeMeta shows_codeBlockRe h,
    fun _ h => chunksOfParts labelled_tableMeta shows_tableRe h,
    fun hsize => ⟨blockChunk_isSome hsize, blockChunk_isSome hsize⟩⟩

/-- The chunk of a table is not the match where a line break ends it. -/
theorem table_loses_break : ¬ ∀ (text : List Char) (params : ChunkParams) chunks,
    tableAwareChunk text params = some chunks →
      ChunksOfParts "table" id params (splitTables text) chunks := by
  intro hall
  have hsome : (tableAwareChunk "|a|\n|-|\n|b|\n".toList {}).isSome := blockChunk_isSome (by decide)
  obtain ⟨chunks, hchunks⟩ := Option.isSome_iff_exists.1 hsome
  have hshown := (chunksOfParts labelled_tableMeta shows_tableRe hchunks).blocks
  have hraw := (hall _ {} chunks hchunks).blocks
  rw [hshown] at hraw
  exact absurd hraw (by decide +kernel)

end OpsKnowledge.Chunking
