import OpsKnowledge.Chunking.Blocks
import OpsKnowledge.Chunking.Qa
import OpsKnowledge.Chunking.SectionLoss
import OpsKnowledge.Chunking.Sentence

/-!
# The registry and its composites

The strategies of `registry.py`, and those that `presets.py` makes of them. Ingestion gives each
chunk of a composite a row, and links the rows as the chunker linked the chunks.
-/

namespace OpsKnowledge.Chunking

open OpsKnowledge.Lib
open Knowledge

/-! ## Chunks without links -/

/-- No chunk has a logical id or a parent. -/
def Unlinked (crs : List ChunkResult) : Prop := ∀ c ∈ crs, c.id = none ∧ c.parentChunkId = none

theorem unlinked_nil : Unlinked [] := List.forall_mem_nil _

theorem Unlinked.append {crs crs' : List ChunkResult} (h : Unlinked crs) (h' : Unlinked crs') :
    Unlinked (crs ++ crs') := List.forall_mem_append.2 ⟨h, h'⟩

section Plain

variable {u : Unicode} {parse : List Char → Soup} {text : List Char} {params : ChunkParams}
  {crs : List ChunkResult}

theorem unlinked_recursiveChunk (h : recursiveChunk text params = some crs) : Unlinked crs := by
  intro c hc
  unfold recursiveChunk at h
  split at h
  · cases h
    cases hc
  · obtain ⟨pieces, -, heq⟩ := Option.bind_eq_some_iff.1 h
    cases heq
    obtain ⟨p, -, rfl⟩ := List.mem_map.1 hc
    exact ⟨rfl, rfl⟩

/-! ### Sentences -/

theorem unlinked_sentenceChunk (h : sentenceChunk text params = some crs) : Unlinked crs := by
  rw [sentenceChunk_eq] at h
  split at h
  · cases h
    exact unlinked_nil
  · obtain ⟨pieces, -, rfl⟩ := Option.map_eq_some_iff.1 h
    intro c hc
    obtain ⟨i, hi, rfl⟩ := List.mem_mapIdx.1 hc
    exact ⟨rfl, rfl⟩

theorem sentenceChunk_isSome (hsize : 1 ≤ params.chunkSize.getD 500) :
    (sentenceChunk text params).isSome := by
  rw [sentenceChunk_eq]
  split
  · rfl
  · rw [Option.isSome_map]
    apply pack_isSome
    intro part _ _
    rw [forceSplit_eq hsize]
    rfl

/-! ### Questions and answers -/

theorem unlinked_qaChunk (h : qaChunk u text params = some crs) : Unlinked crs := by
  unfold qaChunk at h
  split at h
  · cases h
    exact unlinked_nil
  · split at h
    · exact unlinked_recursiveChunk h
    · exact unlinked_recursiveChunk h
    · cases h
      intro c hc
      obtain ⟨p, -, rfl⟩ := List.mem_map.1 hc
      exact ⟨rfl, rfl⟩

theorem qaChunk_isSome (hsize : 1 ≤ params.chunkSize.getD 500) : (qaChunk u text params).isSome := by
  unfold qaChunk
  split
  · rfl
  · split
    · exact recursiveChunk_isSome hsize
    · exact recursiveChunk_isSome hsize
    · rfl

/-! ### Sections -/

section Sections

variable {pending sections : List Section} {own : Section} {pos : Nat} {threshold : Int} {groups : Groups}

theorem unlinked_sectionOutput (h : sectionOutput params pending own pos = some crs) : Unlinked crs := by
  unfold sectionOutput at h
  dsimp only at h
  split at h
  · cases h
    exact unlinked_nil
  · split at h
    · cases h
      intro c hc
      rw [List.mem_singleton.1 hc]
      exact ⟨rfl, rfl⟩
    · obtain ⟨sub, hsub, heq⟩ := Option.bind_eq_some_iff.1 h
      cases heq
      intro c hc
      obtain ⟨i, hi, rfl⟩ := List.mem_mapIdx.1 hc
      exact unlinked_recursiveChunk hsub sub[i] (List.getElem_mem hi)

theorem sectionOutput_isSome (hsize : 1 ≤ params.chunkSize.getD 500) :
    (sectionOutput params pending own pos).isSome := by
  unfold sectionOutput
  dsimp only
  split
  · rfl
  · split
    · rfl
    · let sized : ChunkParams :=
        { chunkSize := some (params.chunkSize.getD 500), chunkOverlap := some (params.chunkOverlap.getD 50) }
      have hsome : (recursiveChunk own.body sized).isSome := recursiveChunk_isSome hsize
      obtain ⟨sub, hsub⟩ := Option.isSome_iff_exists.1 hsome
      rw [hsub]
      rfl

theorem unlinked_sectionGroups (h : sectionGroups params pos sections = some groups) :
    Unlinked groups.chunks := by
  induction sections generalizing pos groups with
  | nil =>
      cases h
      exact unlinked_nil
  | cons s sections ih =>
      obtain ⟨chunks, hchunks, h⟩ := Option.bind_eq_some_iff.1 h
      obtain ⟨rest, hrest, h⟩ := Option.bind_eq_some_iff.1 h
      cases h
      exact (unlinked_sectionOutput hchunks).append (ih hrest)

theorem sectionGroups_isSome (hsize : 1 ≤ params.chunkSize.getD 500) :
    (sectionGroups params pos sections).isSome := by
  induction sections generalizing pos with
  | nil => rfl
  | cons s sections ih =>
      obtain ⟨chunks, hchunks⟩ := Option.isSome_iff_exists.1
        (sectionOutput_isSome hsize : (sectionOutput params [] s pos).isSome)
      obtain ⟨rest, hrest⟩ := Option.isSome_iff_exists.1 (@ih (pos + chunks.length))
      rw [sectionGroups, hchunks, Option.bind_eq_bind, Option.bind_some, hrest]
      rfl

theorem unlinked_markdownGroups (h : markdownGroups params threshold pos pending sections = some groups) :
    Unlinked groups.chunks := by
  induction sections generalizing pos pending groups with
  | nil =>
      cases h
      intro c hc
      split at hc
      · cases hc
      · rw [List.mem_singleton.1 hc]
        exact ⟨rfl, rfl⟩
  | cons s sections ih =>
      rw [markdownGroups] at h
      split at h
      · exact ih h
      · obtain ⟨chunks, hchunks, h⟩ := Option.bind_eq_some_iff.1 h
        obtain ⟨rest, hrest, h⟩ := Option.bind_eq_some_iff.1 h
        cases h
        exact (unlinked_sectionOutput hchunks).append (ih hrest)

theorem markdownGroups_isSome (hsize : 1 ≤ params.chunkSize.getD 500) :
    (markdownGroups params threshold pos pending sections).isSome := by
  induction sections generalizing pos pending with
  | nil => rfl
  | cons s sections ih =>
      rw [markdownGroups]
      split
      · exact ih
      · obtain ⟨chunks, hchunks⟩ := Option.isSome_iff_exists.1
          (sectionOutput_isSome hsize : (sectionOutput params pending s pos).isSome)
        obtain ⟨rest, hrest⟩ := Option.isSome_iff_exists.1
          (ih : (markdownGroups params threshold (pos + chunks.length) [] sections).isSome)
        rw [hchunks, Option.bind_eq_bind, Option.bind_some, hrest]
        rfl

end Sections

/-! ### Blocks -/

theorem unlinked_foldl_add {sub : List ChunkResult} {st : BlockState} (h : Unlinked sub)
    (hst : Unlinked st.results) : Unlinked (sub.foldl BlockState.add st).results := by
  induction sub generalizing st with
  | nil => exact hst
  | cons c sub ih =>
      obtain ⟨hc, hsub⟩ := List.forall_mem_cons.1 h
      refine ih hsub (hst.append fun d hd => ?_)
      rw [List.mem_singleton.1 hd]
      exact hc

theorem unlinked_blockChunk {re : Regex} {blockMeta : List Char → Dict String Workflow.Json}
    (h : blockChunk re blockMeta params text = some crs) : Unlinked crs := by
  have hloop : ∀ (parts : List (List Char × Bool)) (st st' : BlockState), Unlinked st.results →
      parts.foldlM (blockStep blockMeta params) st = some st' → Unlinked st'.results := by
    intro parts
    induction parts with
    | nil =>
        intro st st' hst h
        cases h
        exact hst
    | cons part parts ih =>
        intro st st' hst h
        rw [List.foldlM_cons] at h
        obtain ⟨st₁, hstep, h⟩ := Option.bind_eq_some_iff.1 h
        refine ih st₁ st' ?_ h
        unfold blockStep at hstep
        dsimp only at hstep
        split at hstep
        · cases hstep
          exact hst
        · split at hstep
          · cases hstep
            refine hst.append fun d hd => ?_
            rw [List.mem_singleton.1 hd]
            exact ⟨rfl, rfl⟩
          · obtain ⟨sub, hsub, rfl⟩ := Option.map_eq_some_iff.1 hstep
            exact unlinked_foldl_add (unlinked_recursiveChunk hsub) hst
  rw [blockChunk_eq] at h
  obtain ⟨st, hst, rfl⟩ := Option.map_eq_some_iff.1 h
  exact hloop _ {} st unlinked_nil hst

end Plain

/-! ## The registry -/

/-- A strategy by what it makes of the characters of a text. -/
def ofChars (chunk : List Char → ChunkParams → Option (List ChunkResult))
    (blank : ∀ text params, (stripped text).isEmpty = true → chunk text params = some [])
    (unlinked : ∀ {text params crs}, chunk text params = some crs → Unlinked crs)
    (returns : ∀ {text params}, 1 ≤ params.chunkSize.getD 500 → (chunk text params).isSome) :
    PlainStrategy where
  chunk text params := chunk text.toList params
  blank text params h := by
    apply blank
    have hstripped : stripped text.toList = (strip text).toList := String.toList_ofList.symm
    rw [hstripped, h]
    rfl
  unlinked _ _ _ h := unlinked h
  returns _ _ hsize := returns hsize

def recursiveCharacterStrategy : PlainStrategy :=
  ofChars recursiveChunk (fun _ _ h => if_pos h) unlinked_recursiveChunk recursiveChunk_isSome

def sentenceStrategy : PlainStrategy :=
  ofChars sentenceChunk (fun _ _ h => if_pos h) unlinked_sentenceChunk sentenceChunk_isSome

def tableAwareStrategy : PlainStrategy :=
  ofChars tableAwareChunk (fun _ _ h => if_pos h) unlinked_blockChunk blockChunk_isSome

def codeAwareStrategy : PlainStrategy :=
  ofChars codeAwareChunk (fun _ _ h => if_pos h) unlinked_blockChunk blockChunk_isSome

/-- No preset gives the key `heading_only_min_chars`. -/
def markdownStrategy : PlainStrategy :=
  ofChars (fun text params => markdownChunk text { params with headingOnlyMinChars := none })
    (fun _ _ h => if_pos h)
    (fun {text params crs} h => by
      rw [markdownChunk_eq] at h
      obtain ⟨groups, hgroups, rfl⟩ := Option.map_eq_some_iff.1 h
      exact unlinked_markdownGroups hgroups)
    (fun {text params} hsize => by
      rw [markdownChunk_eq, Option.isSome_map]
      exact markdownGroups_isSome hsize)

section Registry

variable (u : Unicode) (parse : List Char → Soup)

def qaPairStrategy : PlainStrategy :=
  ofChars (qaChunk u) (fun _ _ h => if_pos h) unlinked_qaChunk qaChunk_isSome

/-- A strategy that gives each section of a text its chunks. -/
def ofSections (sections : List Char → List Section) : PlainStrategy :=
  ofChars
    (fun text params =>
      if (stripped text).isEmpty then some [] else (sectionGroups params 0 (sections text)).map Groups.chunks)
    (fun _ _ h => if_pos h)
    (fun {text params crs} h => by
      split at h
      · cases h
        exact unlinked_nil
      · obtain ⟨groups, hgroups, rfl⟩ := Option.map_eq_some_iff.1 h
        exact unlinked_sectionGroups hgroups)
    (fun {text params} hsize => by
      split
      · rfl
      · rw [Option.isSome_map]
        exact sectionGroups_isSome hsize)

def pdfLayoutStrategy : PlainStrategy := ofSections fun text => splitSections u (cleanPdfArtifacts u text)

def htmlStructureStrategy : PlainStrategy := ofSections fun text => extractSections (parse text)

example : (pdfLayoutStrategy u).chunk = fun text params => pdfLayoutChunk u text.toList params := rfl

example : (htmlStructureStrategy parse).chunk = fun text params => htmlChunk parse text.toList params := rfl

/-- `get_strategy`; `none` for a name that `_STRATEGIES` has not. -/
def getStrategy (name : String) : Option PlainStrategy :=
  (Dict.ofList
    [("recursive", recursiveCharacterStrategy), ("markdown", markdownStrategy),
      ("sentence", sentenceStrategy), ("table", tableAwareStrategy), ("code", codeAwareStrategy),
      ("qa", qaPairStrategy u), ("html", htmlStructureStrategy parse),
      ("pdf_layout", pdfLayoutStrategy u)]).get? name

structure Preset where
  strategy : String
  primary : Option String := none
  secondary : Option String := none
  params : ChunkParams

/-- `PRESETS` -/
def presets : Dict String Preset :=
  let sized (chunkSize chunkOverlap : Int) : ChunkParams :=
    { chunkSize := some chunkSize, chunkOverlap := some chunkOverlap }
  Dict.ofList
    [("general", { strategy := "recursive", params := sized 500 50 }),
      ("qa", { strategy := "qa", params := sized 800 0 }),
      ("book", { strategy := "composite", primary := some "recursive", params := sized 1000 100 }),
      ("technical", { strategy := "markdown", secondary := some "code", params := sized 600 50 }),
      ("paper", { strategy := "pdf_layout", secondary := some "composite", params := sized 800 80 }),
      ("custom", { strategy := "recursive", params := sized 500 50 })]

/-- The secondary strategy of a preset. -/
def getSecondary (secName : String) : Option Strategy :=
  if secName = "composite" then do
    let primary ← getStrategy u parse "recursive"
    let secondary ← getStrategy u parse "sentence"
    some (.composite primary (.plain secondary))
  else (getStrategy u parse secName).map .plain

/-- `get_strategy_for_preset`; `none` where it raises. -/
def getStrategyForPreset (name : String) : Option (Strategy × ChunkParams) := do
  let preset ← presets.get? name
  match preset.strategy == "composite", preset.primary with
  | true, some primaryName => do
      let primary ← getStrategy u parse primaryName
      let secondary ← getStrategy u parse "recursive"
      some (.composite primary (.plain secondary), preset.params)
  | _, _ => do
      let primary ← getStrategy u parse preset.strategy
      match preset.secondary with
      | some secName => do
          let secondary ← getSecondary u parse secName
          some (.composite primary secondary, preset.params)
      | none => some (.plain primary, preset.params)

end Registry

/-! ## Ingesting a composite strategy -/

def compositeObjects (countTokens : String → Nat) (doc : Document) (primary : PlainStrategy)
    (secondary : Strategy) (params : ChunkParams) (text : String) (next : Nat) : Option (List Chunk) :=
  ((Strategy.composite primary secondary).chunk params text next).map fun results =>
    (chunkObjects countTokens doc results.1 { next := results.2 }).1

/-- The rows of one primary chunk: its own, without a parent, and those of its parts. -/
structure AttachedTo (split : String → Nat → Option (List ChunkResult × Nat)) (chunkSize : Int)
    (pc : ChunkResult) (g : Chunk × List Chunk) : Prop where
  content : g.1.content = pc.content
  level : g.1.level = pc.level
  root : g.1.parentChunkId = none
  attached : ∀ c ∈ g.2, c.parentChunkId = some g.1.id
  whole : (pc.content.length : Int) ≤ chunkSize → g.2 = []
  parts : chunkSize < (pc.content.length : Int) →
    ∃ m sub, split pc.content m = some sub ∧ g.2.map Chunk.content = sub.1.map ChunkResult.content

theorem attachedTo_of_splitOf {split : String → Nat → Option (List ChunkResult × Nat)} {chunkSize : Int}
    {doc : Document} {st st' : IdMap} {pc : ChunkResult} {g : ChunkResult × List ChunkResult}
    {g' : Chunk × List Chunk} (h : SplitOf split chunkSize pc g) (hhead : RowOf doc st st' g.1 g'.1)
    (hparts : List.Forall₂ (RowOf doc st st') g.2 g'.2) : AttachedTo split chunkSize pc g' := by
  refine ⟨hhead.content.trans h.content, hhead.level.trans h.level, ?_, ?_, fun hsmall => ?_,
    fun hlarge => ?_⟩
  · rw [hhead.parent, h.root]
    rfl
  · intro c hc
    obtain ⟨cr, hcr, hrow⟩ := exists_left_of_forall₂ hparts hc
    obtain ⟨hparent, hsome⟩ := h.attached cr hcr
    obtain ⟨l, hl⟩ := Option.isSome_iff_exists.1 hsome
    rw [hrow.parent, hparent, hl]
    exact hhead.named l hl
  · rw [h.whole hsmall] at hparts
    exact List.forall₂_nil_left_iff.1 hparts
  · obtain ⟨m, sub, hsub, hcontent⟩ := h.parts hlarge
    have hcontents : g'.2.map Chunk.content = g.2.map ChunkResult.content :=
      (map_eq_of_forall₂ hparts fun _ _ hrow => hrow.content.symm).symm
    exact ⟨m, sub, hsub, hcontents.trans hcontent⟩

/-- The rows of a document by position and in the order of their insertion. -/
structure WellIngested (docId : Nat) (split : String → Nat → Option (List ChunkResult × Nat))
    (chunkSize : Int) (primaryChunks : List ChunkResult) (objects rows : List Chunk) : Prop where
  positions : objects.map Chunk.position = List.range objects.length
  inserted : rows.Perm objects
  /-- Every primary chunk has one row, and its parts are attached to that row. -/
  groups : ∃ groups, objects = flattenGroups groups ∧
    List.Forall₂ (AttachedTo split chunkSize) primaryChunks groups
  /-- A parent is exactly one row of the document and is inserted before its children. -/
  parents : ∀ (i : Nat) (r : Chunk) (p : Nat), rows[i]? = some r → r.parentChunkId = some p →
    ∃ (j : Nat) (r₀ : Chunk), j < i ∧ rows[j]? = some r₀ ∧ r₀.id = p ∧
      r.inUnit .document docId ∧ r₀.inUnit .document docId ∧
      ∀ (k : Nat) (r' : Chunk), rows[k]? = some r' → r'.id = p → k = j

/-- A row without a parent comes before every row with one. -/
theorem insertOrder_root_first {rows : List Chunk} {i j : Nat} {r r₀ : Chunk}
    (hr : (insertOrder rows)[i]? = some r) (hr₀ : (insertOrder rows)[j]? = some r₀)
    (hparent : r.parentChunkId.isSome) (hroot : r₀.parentChunkId = none) : j < i := by
  by_contra hle
  have hne : i ≠ j := by
    intro hij
    rw [hij, hr₀] at hr
    rw [← Option.some.inj hr, hroot] at hparent
    cases hparent
  have hlt : i < j := by omega
  obtain ⟨hi, rfl⟩ := List.getElem?_eq_some_iff.1 hr
  obtain ⟨hj, rfl⟩ := List.getElem?_eq_some_iff.1 hr₀
  have hsorted := List.pairwise_iff_getElem.1 (orderBy_pairwise
    (fun c : Chunk => toLex (c.parentChunkId.isSome, c.position)) rows) i j hi hj hlt
  have hfirst : (insertOrder rows)[i].parentChunkId.isSome ≤
      (insertOrder rows)[j].parentChunkId.isSome := Prod.Lex.monotone_fst _ _ hsorted
  rw [hparent, hroot] at hfirst
  exact absurd hfirst (by decide)

/-- A parent is one row of the unit, and it comes before its parts. -/
theorem insertOrder_parents {docId : Nat} {split : String → Nat → Option (List ChunkResult × Nat)}
    {chunkSize : Int} {primaryChunks : List ChunkResult} {objects : List Chunk}
    {groups : List (Chunk × List Chunk)} (hnodup : (objects.map Chunk.id).Nodup)
    (hunit : ∀ c ∈ objects, c.inUnit .document docId) (hgroups : objects = flattenGroups groups)
    (hall : List.Forall₂ (AttachedTo split chunkSize) primaryChunks groups) :
    ∀ (i : Nat) (r : Chunk) (p : Nat), (insertOrder objects)[i]? = some r → r.parentChunkId = some p →
      ∃ (j : Nat) (r₀ : Chunk), j < i ∧ (insertOrder objects)[j]? = some r₀ ∧ r₀.id = p ∧
        r.inUnit .document docId ∧ r₀.inUnit .document docId ∧
        ∀ (k : Nat) (r' : Chunk), (insertOrder objects)[k]? = some r' → r'.id = p → k = j := by
  let rows := insertOrder objects
  have hperm : rows.Perm objects := orderBy_perm _ objects
  intro i r p hr hp
  have hmem : r ∈ objects := hperm.mem_iff.1 (List.mem_of_getElem? hr)
  have hgroup : ∃ g ∈ groups, r = g.1 ∨ r ∈ g.2 := by
    have hflat : r ∈ flattenGroups groups := hgroups ▸ hmem
    obtain ⟨g, hg, hrg⟩ := List.mem_flatMap.1 hflat
    exact ⟨g, hg, List.mem_cons.1 hrg⟩
  obtain ⟨g, hg, hrg⟩ := hgroup
  obtain ⟨pc, -, hattached⟩ := exists_left_of_forall₂ hall hg
  -- The group's head has no parent, so the row is one of its parts.
  have hpart : r ∈ g.2 := by
    rcases hrg with rfl | hrg
    · rw [hattached.root] at hp
      cases hp
    · exact hrg
  have hid : g.1.id = p := by
    have hparent := hattached.attached r hpart
    rw [hp] at hparent
    exact (Option.some.inj hparent).symm
  have hhead : g.1 ∈ objects := by
    rw [hgroups]
    exact List.mem_flatMap.2 ⟨g, hg, List.mem_cons_self⟩
  obtain ⟨j, hj, hjr⟩ := List.getElem_of_mem (hperm.mem_iff.2 hhead)
  have hlookup : rows[j]? = some g.1 := List.getElem?_eq_some_iff.2 ⟨hj, hjr⟩
  refine ⟨j, g.1, insertOrder_root_first hr hlookup (by simp [hp]) hattached.root, hlookup, hid,
    hunit r hmem, hunit g.1 hhead, ?_⟩
  intro k r' hk hr'
  have hids : (rows.map Chunk.id).Nodup := (hperm.map Chunk.id).nodup_iff.2 hnodup
  have hkid : (rows.map Chunk.id)[k]? = some p := by
    rw [List.getElem?_map, hk]
    simp [hr']
  have hjid : (rows.map Chunk.id)[j]? = some p := by
    rw [List.getElem?_map, hlookup]
    simp [hid]
  have hklt := (List.getElem?_eq_some_iff.1 hkid).1
  exact (List.getElem?_inj hklt hids).1 (hkid.trans hjid.symm)

section Ingest

variable (countTokens : String → Nat) (doc : Document) (primary : PlainStrategy)
  (secondary : Strategy) (params : ChunkParams) (text : String) (next : Nat)

theorem compositeObjects_spec {objects : List Chunk}
    (h : compositeObjects countTokens doc primary secondary params text next = some objects) :
    objects.map Chunk.position = List.range objects.length ∧ (objects.map Chunk.id).Nodup ∧
      (∀ c ∈ objects, c.inUnit .document doc.id) ∧
      ∃ primaryChunks groups, primary.chunk text params = some primaryChunks ∧
        objects = flattenGroups groups ∧
        List.Forall₂ (AttachedTo (secondary.chunk params) (params.chunkSize.getD 500)) primaryChunks
          groups := by
  obtain ⟨results, hresults, rfl⟩ := Option.map_eq_some_iff.1 h
  obtain ⟨primaryChunks, hprimary, hdrawn, hpos, groups, hgroups, hsplit⟩ :=
    Strategy.composite_numbered hresults
  let objects := (chunkObjects countTokens doc results.1 { next := results.2 }).1
  have hempty : IdMap.Valid { next := results.2 } := ⟨by simp, by simp⟩
  obtain ⟨hvalid, -, hrows, hnodup⟩ := chunkObjects_spec countTokens doc hempty results.1
  have hposition : objects.map Chunk.position = results.1.map ChunkResult.position :=
    (map_eq_of_forall₂ hrows fun _ _ hrow => hrow.position.symm).symm
  refine ⟨?_, hnodup hdrawn.nodup, ?_, ?_⟩
  · have hlength : objects.length = results.1.length := hrows.length_eq.symm
    change objects.map Chunk.position = List.range objects.length
    rw [hposition, hpos, hlength, List.range_eq_range']
  · intro c hc
    obtain ⟨cr, -, hrow⟩ := exists_left_of_forall₂ hrows hc
    exact hrow.unit
  · have hflat : List.Forall₂ (RowOf doc { next := results.2 }
        (chunkObjects countTokens doc results.1 { next := results.2 }).2) (flattenGroups groups)
        objects := hgroups ▸ hrows
    obtain ⟨groups', hobjects, hall⟩ := exists_groups_of_forall₂ hflat
    have hattached : List.Forall₂ (AttachedTo (secondary.chunk params) (params.chunkSize.getD 500))
        primaryChunks groups' := by
      refine forall₂_trans_of_imp ?_ hsplit hall
      intro pc g g' hof hrow
      exact attachedTo_of_splitOf hof hrow.1 hrow.2
    exact ⟨primaryChunks, groups', hprimary, hobjects, hattached⟩

/-- A composite of any strategies chunks every text for a positive chunk size, and what it gives is well
ingested. -/
theorem composite_ingested :
    (1 ≤ params.chunkSize.getD 500 →
      (compositeObjects countTokens doc primary secondary params text next).isSome) ∧
    ∀ objects, compositeObjects countTokens doc primary secondary params text next = some objects →
      ∃ primaryChunks, primary.chunk text params = some primaryChunks ∧
        WellIngested doc.id (secondary.chunk params) (params.chunkSize.getD 500) primaryChunks objects
          (insertOrder objects) := by
  refine ⟨fun hsize => ?_, fun objects hobjects => ?_⟩
  · unfold compositeObjects
    rw [Option.isSome_map]
    exact Strategy.chunk_isSome _ hsize text next
  · obtain ⟨hpos, hnodup, hunit, primaryChunks, groups, hprimary, hgroups, hall⟩ :=
      compositeObjects_spec countTokens doc primary secondary params text next hobjects
    exact ⟨primaryChunks, hprimary, hpos, orderBy_perm _ objects, ⟨groups, hgroups, hall⟩,
      insertOrder_parents hnodup hunit hgroups hall⟩

end Ingest

/-- Two sections; the first is over the limit, and one of its parts as well. -/
def paperText : String := "1 Intro\nNetworks fail. Routers do.\n2 End\nok"

/-- The parameters of the preset, with the sizes that a base sets. -/
def sizedParams (params : ChunkParams) : ChunkParams :=
  { params with chunkSize := some 14, chunkOverlap := some 4 }

/-- Row ids, contents and parents. -/
def paperRows : List (Nat × String × Option Nat) :=
  [(3, "1 Intro\n\nNetworks fail", none), (4, "1 Intro", some 3), (5, "ntroNetworks fail", some 3),
    (6, "ntroNetworks f", some 3), (7, "ail", some 3), (8, "failRouters do.", none),
    (9, "failRouters", some 8), (10, "tersdo.", some 8), (11, "2 End\n\nok", none)]

def noPage (_ : List Char) : Soup := { children := [], body := none, text := [] }

/-- A part of a part is attached to the primary chunk, as the part is. -/
theorem composite_ingested_paper : ∃ primary secondary params objects primaryChunks,
    getStrategyForPreset asciiOnly noPage "paper" = some (.composite primary secondary, params) ∧
    compositeObjects (fun _ => 1) { id := 1, knowledgeBaseId := 2 } primary secondary (sizedParams params)
      paperText 0 = some objects ∧
    objects.map (fun c => (c.id, c.content, c.parentChunkId)) = paperRows ∧
    primary.chunk paperText (sizedParams params) = some primaryChunks ∧
    WellIngested 1 (secondary.chunk (sizedParams params)) 14 primaryChunks objects (insertOrder objects) := by
  let params : ChunkParams := { chunkSize := some 800, chunkOverlap := some 80 }
  let primary := pdfLayoutStrategy asciiOnly
  let secondary : Strategy := .composite recursiveCharacterStrategy (.plain sentenceStrategy)
  have hrows : (compositeObjects (fun _ => 1) { id := 1, knowledgeBaseId := 2 } primary secondary
      (sizedParams params) paperText 0).map
        (fun objects => objects.map fun c => (c.id, c.content, c.parentChunkId)) = some paperRows := by
    decide +kernel
  obtain ⟨hreturns, hingested⟩ := composite_ingested (fun _ => 1) { id := 1, knowledgeBaseId := 2 }
    primary secondary (sizedParams params) paperText 0
  obtain ⟨objects, hobjects⟩ := Option.isSome_iff_exists.1 (hreturns (by decide))
  rw [hobjects, Option.map_some, Option.some.injEq] at hrows
  obtain ⟨primaryChunks, hprimary, hwell⟩ := hingested objects hobjects
  exact ⟨primary, secondary, params, objects, primaryChunks, rfl, hobjects, hrows, hprimary, hwell⟩

end OpsKnowledge.Chunking
