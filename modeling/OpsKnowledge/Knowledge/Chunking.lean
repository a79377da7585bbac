import Mathlib.Data.Prod.Lex
import OpsKnowledge.Lib.Groups
import OpsKnowledge.Lib.OrderBy
import OpsKnowledge.Lib.Text
import OpsKnowledge.Knowledge.Models

/-!
# The composite chunker and its rows

`CompositeStrategy` numbers the chunks of two strategies and links each child to the
primary chunk it was split from by a logical id. Ingestion maps logical ids to row ids as
it meets them and orders the rows for insertion. `uuid4` is a counter, so that every id
drawn is new.
-/

namespace OpsKnowledge.Knowledge

open OpsKnowledge.Lib
open Workflow (Json)

/-! ## Strategies -/

structure ChunkResult where
  content : String
  level : Nat := 0
  position : Nat := 0
  metadata : Dict String Json := Dict.empty
  parentChunkId : Option Nat := none
  id : Option Nat := none

structure ChunkParams where
  chunkSize : Option Int := none
  chunkOverlap : Option Int := none
  delimiter : Option String := none

/-- A strategy that is not composite; `none` is where it raises. It sets neither a logical id nor a parent,
and it raises for no positive chunk size. -/
structure PlainStrategy where
  chunk : String → ChunkParams → Option (List ChunkResult)
  blank : ∀ text params, strip text = "" → chunk text params = some []
  unlinked : ∀ text params crs, chunk text params = some crs →
    ∀ c ∈ crs, c.id = none ∧ c.parentChunkId = none
  returns : ∀ text params, 1 ≤ params.chunkSize.getD 500 → (chunk text params).isSome

inductive Strategy where
  | plain (s : PlainStrategy)
  | composite (primary : PlainStrategy) (secondary : Strategy)

/-- The children of a primary chunk, renumbered from `pos` and attached to it. -/
def attachChildren (pc : ChunkResult) (parentId pos : Nat) (sub : List ChunkResult) :
    List ChunkResult :=
  sub.mapIdx fun i sc =>
    { sc with level := pc.level + 1, metadata := pc.metadata.update sc.metadata
              position := pos + i, parentChunkId := some parentId }

/-- The loop of `CompositeStrategy.chunk` over the primary chunks. -/
def splitLarge (split : String → Nat → Option (List ChunkResult × Nat)) (chunkSize : Int) :
    List ChunkResult → Nat → Nat → Option (List ChunkResult × Nat)
  | [], _, next => some ([], next)
  | pc :: pcs, pos, next =>
      if chunkSize < (pc.content.length : Int) then do
        let sub ← split pc.content (next + 1)
        let children := attachChildren pc next (pos + 1) sub.1
        let rest ← splitLarge split chunkSize pcs (pos + 1 + children.length) sub.2
        some ({ pc with id := some next, position := pos } :: children ++ rest.1, rest.2)
      else do
        let rest ← splitLarge split chunkSize pcs (pos + 1) next
        some ({ pc with position := pos } :: rest.1, rest.2)

/-- `ChunkingStrategy.chunk`; the numbers are the next `uuid4`. -/
def Strategy.chunk : Strategy → ChunkParams → String → Nat → Option (List ChunkResult × Nat)
  | .plain s, params, text, next => (s.chunk text params).map fun crs => (crs, next)
  | .composite primary secondary, params, text, next =>
      if strip text = "" then some ([], next)
      else do
        let pcs ← primary.chunk text params
        splitLarge (secondary.chunk params) (params.chunkSize.getD 500) pcs 0 next

/-! ## The rows of ingestion -/

structure IdMap where
  map : Dict Nat Nat := Dict.empty
  next : Nat

/-- `_real_id` -/
def realId (st : IdMap) : Option Nat → Nat × IdMap
  | none => (st.next, { st with next := st.next + 1 })
  | some logicalId =>
      match st.map.get? logicalId with
      | some r => (r, st)
      | none => (st.next, { map := st.map.set logicalId st.next, next := st.next + 1 })

/-- `_real_id(cr.parent_chunk_id) if cr.parent_chunk_id else None` -/
def realParent (st : IdMap) : Option Nat → Option Nat × IdMap
  | none => (none, st)
  | some logicalId => ((realId st (some logicalId)).1, (realId st (some logicalId)).2)

def chunkRow (countTokens : String → Nat) (doc : Document) (cr : ChunkResult) (id : Nat)
    (parent : Option Nat) : Chunk :=
  { id := id, unitType := .document, unitId := doc.id, knowledgeBaseId := doc.knowledgeBaseId
    folderId := doc.folderId, content := cr.content, level := cr.level, position := cr.position
    tokenCount := countTokens cr.content, metadata := cr.metadata, parentChunkId := parent }

/-- `chunk_objects` of `process_document`, in the order of the chunk results. -/
def chunkObjects (countTokens : String → Nat) (doc : Document) :
    List ChunkResult → IdMap → List Chunk × IdMap
  | [], st => ([], st)
  | cr :: crs, st =>
      let id := realId st cr.id
      let parent := realParent id.2 cr.parentChunkId
      let rest := chunkObjects countTokens doc crs parent.2
      (chunkRow countTokens doc cr id.1 parent.1 :: rest.1, rest.2)

/-- `chunk_objects.sort(key=lambda c: (c.parent_chunk_id is not None, c.position))` -/
def insertOrder (rows : List Chunk) : List Chunk :=
  orderBy (fun c => toLex (c.parentChunkId.isSome, c.position)) rows

/-! ## What the chunker returns -/

def logicalIds (crs : List ChunkResult) : List Nat := crs.filterMap ChunkResult.id

/-- The ids drawn while `uuid4` went from `n` to `n'`. -/
structure DrawnIn (n n' : Nat) (ids : List Nat) : Prop where
  le : n ≤ n'
  nodup : ids.Nodup
  bounds : ∀ i ∈ ids, n ≤ i ∧ i < n'

theorem DrawnIn.nil (n : Nat) : DrawnIn n n [] := ⟨le_rfl, List.nodup_nil, by simp⟩

theorem DrawnIn.append {n m k : Nat} {ids ids' : List Nat} (h : DrawnIn n m ids)
    (h' : DrawnIn m k ids') : DrawnIn n k (ids ++ ids') := by
  have hle := h.le
  have hle' := h'.le
  refine ⟨by omega, ?_, ?_⟩
  · rw [List.nodup_append]
    refine ⟨h.nodup, h'.nodup, ?_⟩
    intro i hi j hj hij
    have hlow := (h.bounds i hi).2
    have hhigh := (h'.bounds j hj).1
    omega
  · intro i hi
    rcases List.mem_append.1 hi with hi | hi
    · have hb := h.bounds i hi
      omega
    · have hb := h'.bounds i hi
      omega

section AttachChildren

variable (pc : ChunkResult) (parentId pos : Nat) (sub : List ChunkResult)

@[simp] theorem length_attachChildren :
    (attachChildren pc parentId pos sub).length = sub.length := by
  simp [attachChildren]

theorem map_position_attachChildren :
    (attachChildren pc parentId pos sub).map ChunkResult.position = List.range' pos sub.length := by
  apply List.ext_getElem
  · simp
  · intro i hi hi'
    simp [attachChildren]

theorem map_content_attachChildren :
    (attachChildren pc parentId pos sub).map ChunkResult.content = sub.map ChunkResult.content := by
  apply List.ext_getElem
  · simp
  · intro i hi hi'
    simp [attachChildren]

theorem logicalIds_attachChildren :
    logicalIds (attachChildren pc parentId pos sub) = logicalIds sub := by
  have hid : (attachChildren pc parentId pos sub).map ChunkResult.id = sub.map ChunkResult.id := by
    apply List.ext_getElem
    · simp
    · intro i hi hi'
      simp [attachChildren]
  have hids : ∀ crs : List ChunkResult, logicalIds crs = (crs.map ChunkResult.id).filterMap id := by
    intro crs
    rw [List.filterMap_map]
    rfl
  rw [hids, hids, hid]

theorem parent_of_mem_attachChildren {c : ChunkResult}
    (h : c ∈ attachChildren pc parentId pos sub) : c.parentChunkId = some parentId := by
  obtain ⟨i, hi, rfl⟩ := List.mem_mapIdx.1 h
  rfl

end AttachChildren

/-- What one primary chunk becomes: itself, and the parts that the secondary strategy makes of a
content over the size limit. -/
structure SplitOf (split : String → Nat → Option (List ChunkResult × Nat)) (chunkSize : Int)
    (pc : ChunkResult) (g : ChunkResult × List ChunkResult) : Prop where
  content : g.1.content = pc.content
  level : g.1.level = pc.level
  root : g.1.parentChunkId = none
  attached : ∀ c ∈ g.2, c.parentChunkId = g.1.id ∧ g.1.id.isSome
  whole : (pc.content.length : Int) ≤ chunkSize → g.2 = []
  parts : chunkSize < (pc.content.length : Int) →
    ∃ m sub, split pc.content m = some sub ∧ g.2.map ChunkResult.content = sub.1.map ChunkResult.content

structure Numbered (split : String → Nat → Option (List ChunkResult × Nat)) (chunkSize : Int)
    (pcs : List ChunkResult) (pos next : Nat) (rs : List ChunkResult × Nat) : Prop where
  drawn : DrawnIn next rs.2 (logicalIds rs.1)
  positions : rs.1.map ChunkResult.position = List.range' pos rs.1.length
  groups : ∃ groups, rs.1 = flattenGroups groups ∧ List.Forall₂ (SplitOf split chunkSize) pcs groups

section SplitLarge

variable {split : String → Nat → Option (List ChunkResult × Nat)} {chunkSize : Int}
  {pc : ChunkResult} {pcs : List ChunkResult} {pos next : Nat} {rest : List ChunkResult × Nat}

/-- A primary chunk within the limit takes one position. -/
theorem Numbered.small (hid : pc.id = none) (hparent : pc.parentChunkId = none)
    (hsmall : ¬ chunkSize < (pc.content.length : Int))
    (h : Numbered split chunkSize pcs (pos + 1) next rest) :
    Numbered split chunkSize (pc :: pcs) pos next ({ pc with position := pos } :: rest.1, rest.2) := by
  obtain ⟨hdrawn, hpos, groups, hgroups, hall⟩ := h
  refine ⟨?_, ?_, ({ pc with position := pos }, []) :: groups, ?_, ?_⟩
  · simpa [logicalIds, hid] using hdrawn
  · simp [hpos, List.range'_succ]
  · simp [flattenGroups, hgroups]
  · exact .cons ⟨rfl, rfl, hparent, by simp, fun _ => rfl, fun hlarge => absurd hlarge hsmall⟩ hall

/-- One over the limit takes one more for each part, and a logical id. -/
theorem Numbered.large (hparent : pc.parentChunkId = none)
    (hlarge : chunkSize < (pc.content.length : Int)) {sub : List ChunkResult × Nat}
    (hsub : split pc.content (next + 1) = some sub) (hdrawnSub : DrawnIn (next + 1) sub.2 (logicalIds sub.1))
    (h : Numbered split chunkSize pcs (pos + 1 + (attachChildren pc next (pos + 1) sub.1).length) sub.2
      rest) :
    Numbered split chunkSize (pc :: pcs) pos next
      ({ pc with id := some next, position := pos } :: attachChildren pc next (pos + 1) sub.1 ++ rest.1,
        rest.2) := by
  let children := attachChildren pc next (pos + 1) sub.1
  obtain ⟨hdrawn, hpos, groups, hgroups, hall⟩ := h
  refine ⟨?_, ?_, ({ pc with id := some next, position := pos }, children) :: groups, ?_, ?_⟩
  · have hhead : DrawnIn next (next + 1) [next] := ⟨by omega, by simp, by simp⟩
    have happ := hhead.append (hdrawnSub.append hdrawn)
    rw [← logicalIds_attachChildren pc next (pos + 1) sub.1] at happ
    simpa [logicalIds] using happ
  · rw [length_attachChildren] at hpos
    simp only [List.cons_append, List.map_cons, List.map_append, List.length_cons,
      List.length_append, hpos, map_position_attachChildren, length_attachChildren, List.range'_succ]
    rw [← List.range'_append_1]
  · simp [flattenGroups, hgroups, children]
  · refine .cons ⟨rfl, rfl, hparent, ?_, fun hsmall => absurd hlarge (not_lt.2 hsmall), fun _ => ?_⟩ hall
    · intro c hc
      exact ⟨parent_of_mem_attachChildren _ _ _ _ hc, rfl⟩
    · exact ⟨next + 1, sub, hsub, map_content_attachChildren pc next (pos + 1) sub.1⟩

theorem splitLarge_spec
    (hsplit : ∀ text n rs, split text n = some rs → DrawnIn n rs.2 (logicalIds rs.1))
    (hpcs : ∀ pc ∈ pcs, pc.id = none ∧ pc.parentChunkId = none) {rs : List ChunkResult × Nat}
    (h : splitLarge split chunkSize pcs pos next = some rs) :
    Numbered split chunkSize pcs pos next rs := by
  induction pcs generalizing pos next rs with
  | nil =>
      cases h
      exact ⟨.nil next, rfl, [], rfl, .nil⟩
  | cons pc pcs ih =>
      obtain ⟨hid, hparent⟩ := hpcs pc List.mem_cons_self
      have hrest := fun c hc => hpcs c (List.mem_cons_of_mem pc hc)
      rw [splitLarge] at h
      by_cases hlarge : chunkSize < (pc.content.length : Int)
      · rw [if_pos hlarge] at h
        obtain ⟨sub, hsub, h⟩ := Option.bind_eq_some_iff.1 h
        obtain ⟨rest, hmore, h⟩ := Option.bind_eq_some_iff.1 h
        cases h
        exact (ih hrest hmore).large hparent hlarge hsub (hsplit _ _ _ hsub)
      · rw [if_neg hlarge] at h
        obtain ⟨rest, hmore, h⟩ := Option.bind_eq_some_iff.1 h
        cases h
        exact (ih hrest hmore).small hid hparent hlarge

theorem splitLarge_isSome (hsplit : ∀ text n, (split text n).isSome) :
    (splitLarge split chunkSize pcs pos next).isSome := by
  induction pcs generalizing pos next with
  | nil => rfl
  | cons pc pcs ih =>
      rw [splitLarge]
      split
      · obtain ⟨sub, hsub⟩ := Option.isSome_iff_exists.1 (hsplit pc.content (next + 1))
        obtain ⟨rest, hrest⟩ := Option.isSome_iff_exists.1
          (@ih (pos + 1 + (attachChildren pc next (pos + 1) sub.1).length) sub.2)
        rw [hsub, Option.bind_eq_bind, Option.bind_some]
        dsimp only
        rw [hrest]
        rfl
      · obtain ⟨rest, hrest⟩ := Option.isSome_iff_exists.1 (@ih (pos + 1) next)
        rw [hrest]
        rfl

end SplitLarge

namespace Strategy

variable {strategy secondary : Strategy} {primary : PlainStrategy} {params : ChunkParams} {text : String}
  {next : Nat} {rs : List ChunkResult × Nat}

/-- A composite numbers the primary chunks and their parts. -/
theorem chunk_composite (h : (composite primary secondary).chunk params text next = some rs) :
    ∃ pcs, primary.chunk text params = some pcs ∧
      splitLarge (secondary.chunk params) (params.chunkSize.getD 500) pcs 0 next = some rs := by
  by_cases hblank : strip text = ""
  · rw [Strategy.chunk, if_pos hblank] at h
    cases h
    exact ⟨[], primary.blank text params hblank, rfl⟩
  · rw [Strategy.chunk, if_neg hblank] at h
    exact Option.bind_eq_some_iff.1 h

theorem chunk_drawn (strategy : Strategy) (h : strategy.chunk params text next = some rs) :
    DrawnIn next rs.2 (logicalIds rs.1) := by
  induction strategy generalizing text next rs with
  | plain s =>
      obtain ⟨crs, hcrs, rfl⟩ := Option.map_eq_some_iff.1 h
      have hnone : logicalIds crs = [] := by
        rw [logicalIds, List.filterMap_eq_nil_iff]
        intro c hc
        exact (s.unlinked text params crs hcrs c hc).1
      rw [hnone]
      exact .nil next
  | composite primary secondary ih =>
      obtain ⟨pcs, hpcs, hsplit⟩ := chunk_composite h
      exact (splitLarge_spec (fun _ _ _ => ih) (primary.unlinked text params pcs hpcs) hsplit).drawn

theorem chunk_isSome (strategy : Strategy) (hsize : 1 ≤ params.chunkSize.getD 500) (text : String)
    (next : Nat) : (strategy.chunk params text next).isSome := by
  induction strategy generalizing text next with
  | plain s =>
      rw [Strategy.chunk, Option.isSome_map]
      exact s.returns text params hsize
  | composite primary secondary ih =>
      rw [Strategy.chunk]
      split
      · rfl
      · obtain ⟨pcs, hpcs⟩ := Option.isSome_iff_exists.1 (primary.returns text params hsize)
        rw [hpcs, Option.bind_eq_bind, Option.bind_some]
        exact splitLarge_isSome ih

theorem composite_numbered (h : (composite primary secondary).chunk params text next = some rs) :
    ∃ pcs, primary.chunk text params = some pcs ∧
      Numbered (secondary.chunk params) (params.chunkSize.getD 500) pcs 0 next rs := by
  obtain ⟨pcs, hpcs, hsplit⟩ := chunk_composite h
  exact ⟨pcs, hpcs, splitLarge_spec (fun _ _ _ => secondary.chunk_drawn)
    (primary.unlinked text params pcs hpcs) hsplit⟩

end Strategy

/-! ## From logical ids to row ids -/

structure IdMap.Valid (st : IdMap) : Prop where
  below : ∀ l r, st.map.get? l = some r → r < st.next
  injective : ∀ l l' r, st.map.get? l = some r → st.map.get? l' = some r → l = l'

structure IdMap.Extends (st st' : IdMap) : Prop where
  le : st.next ≤ st'.next
  keeps : ∀ l r, st.map.get? l = some r → st'.map.get? l = some r
  later : ∀ l r, st'.map.get? l = some r → st.map.get? l = some r ∨ st.next ≤ r

theorem IdMap.Extends.refl (st : IdMap) : st.Extends st :=
  ⟨le_rfl, fun _ _ h => h, fun _ _ h => .inl h⟩

theorem IdMap.Extends.trans {st₁ st₂ st₃ : IdMap} (h : st₁.Extends st₂) (h' : st₂.Extends st₃) :
    st₁.Extends st₃ := by
  refine ⟨h.le.trans h'.le, fun l r hr => h'.keeps l r (h.keeps l r hr), ?_⟩
  intro l r hr
  rcases h'.later l r hr with hr | hr
  · exact h.later l r hr
  · exact .inr (h.le.trans hr)

theorem realId_none (st : IdMap) : realId st none = (st.next, { st with next := st.next + 1 }) := rfl

theorem realId_valid {st : IdMap} (h : st.Valid) (logicalId : Option Nat) :
    (realId st logicalId).2.Valid ∧ st.Extends (realId st logicalId).2 ∧
      (realId st logicalId).1 < (realId st logicalId).2.next := by
  cases logicalId with
  | none =>
      refine ⟨⟨?_, h.injective⟩, ⟨Nat.le_succ _, fun _ _ hr => hr, fun _ _ hr => .inl hr⟩,
        Nat.lt_succ_self _⟩
      intro l r hr
      exact (h.below l r hr).trans (Nat.lt_succ_self _)
  | some logicalId =>
      cases hget : st.map.get? logicalId with
      | some r => simpa [realId, hget] using ⟨h, .refl st, h.below _ _ hget⟩
      | none =>
          have hmap : ∀ l, (st.map.set logicalId st.next).get? l =
              if l = logicalId then some st.next else st.map.get? l := by
            intro l
            exact Dict.get?_set st.map logicalId l st.next
          simp only [realId, hget]
          refine ⟨⟨?_, ?_⟩, ⟨Nat.le_succ _, ?_, ?_⟩, Nat.lt_succ_self _⟩
          · intro l r hr
            rw [hmap] at hr
            by_cases hl : l = logicalId
            · have hr' : st.next = r := by simpa [hl] using hr
              exact hr' ▸ Nat.lt_succ_self _
            · rw [if_neg hl] at hr
              exact (h.below l r hr).trans (Nat.lt_succ_self _)
          · -- The new id is above all ids that the map holds.
            intro l l' r hr hr'
            rw [hmap] at hr hr'
            by_cases hl : l = logicalId <;> by_cases hl' : l' = logicalId
            · rw [hl, hl']
            · rw [if_pos hl] at hr
              rw [if_neg hl'] at hr'
              have hlt := h.below l' r hr'
              have heq := Option.some.inj hr
              omega
            · rw [if_neg hl] at hr
              rw [if_pos hl'] at hr'
              have hlt := h.below l r hr
              have heq := Option.some.inj hr'
              omega
            · rw [if_neg hl] at hr
              rw [if_neg hl'] at hr'
              exact h.injective l l' r hr hr'
          · intro l r hr
            rw [hmap, if_neg]
            · exact hr
            · intro hl
              rw [hl, hget] at hr
              cases hr
          · intro l r hr
            rw [hmap] at hr
            by_cases hl : l = logicalId
            · rw [if_pos hl] at hr
              exact .inr (Option.some.inj hr).le
            · rw [if_neg hl] at hr
              exact .inl hr

theorem realId_some (st : IdMap) (logicalId : Nat) :
    (realId st (some logicalId)).2.map.get? logicalId = some (realId st (some logicalId)).1 := by
  cases hget : st.map.get? logicalId with
  | some r => simp [realId, hget]
  | none => simp [realId, hget]

theorem realParent_valid {st : IdMap} (h : st.Valid) (parent : Option Nat) :
    (realParent st parent).2.Valid ∧ st.Extends (realParent st parent).2 ∧
      (realParent st parent).1 = parent.bind (realParent st parent).2.map.get? ∧
      ((realParent st parent).1.isSome ↔ parent.isSome) := by
  cases parent with
  | none => exact ⟨h, .refl st, rfl, Iff.rfl⟩
  | some logicalId =>
      obtain ⟨hvalid, hext, -⟩ := realId_valid h (some logicalId)
      refine ⟨hvalid, hext, ?_, by simp [realParent]⟩
      exact (realId_some st logicalId).symm

/-- The row of a chunk result, when the map goes from `st` to `st'` while the rows are made. -/
structure RowOf (doc : Document) (st st' : IdMap) (cr : ChunkResult) (row : Chunk) : Prop where
  unit : row.inUnit .document doc.id
  content : row.content = cr.content
  level : row.level = cr.level
  position : row.position = cr.position
  parent : row.parentChunkId = cr.parentChunkId.bind st'.map.get?
  linked : row.parentChunkId.isSome ↔ cr.parentChunkId.isSome
  named : ∀ l, cr.id = some l → st'.map.get? l = some row.id
  unnamed : cr.id = none →
    st.next ≤ row.id ∧ row.id < st'.next ∧ ∀ l, st'.map.get? l ≠ some row.id

structure RowsOf (doc : Document) (st : IdMap) (crs : List ChunkResult)
    (res : List Chunk × IdMap) : Prop where
  valid : res.2.Valid
  extends_ : st.Extends res.2
  rows : List.Forall₂ (RowOf doc st res.2) crs res.1
  nodup : (logicalIds crs).Nodup → (res.1.map Chunk.id).Nodup

theorem RowOf.id_ne {doc : Document} {st st₀ st' : IdMap} {cr cr' : ChunkResult} {row row' : Chunk}
    (hvalid : st'.Valid) (h : RowOf doc st st' cr row) (h' : RowOf doc st₀ st' cr' row')
    (hlow : cr'.id = none → row.id < st₀.next) (hid : ∀ l, cr.id = some l → cr'.id ≠ some l) :
    row.id ≠ row'.id := by
  intro heq
  cases hcr' : cr'.id with
  | none =>
      have hge := (h'.unnamed hcr').1
      have hlt := hlow hcr'
      omega
  | some l' =>
      have hl' := h'.named l' hcr'
      cases hcr : cr.id with
      | none => exact (h.unnamed hcr).2.2 l' (heq ▸ hl')
      | some l =>
          have hll := hvalid.injective l l' row'.id (heq ▸ h.named l hcr) hl'
          exact hid l hcr (hll ▸ hcr')

theorem chunkObjects_spec (countTokens : String → Nat) (doc : Document) {st : IdMap}
    (h : st.Valid) (crs : List ChunkResult) : RowsOf doc st crs (chunkObjects countTokens doc crs st) := by
  induction crs generalizing st with
  | nil => exact ⟨h, .refl st, .nil, fun _ => List.nodup_nil⟩
  | cons cr crs ih =>
      obtain ⟨hvalid₁, hext₁, hlt₁⟩ := realId_valid h cr.id
      obtain ⟨hvalid₂, hext₂, hparent, hlinked⟩ := realParent_valid hvalid₁ cr.parentChunkId
      obtain ⟨hvalid, hext, hrows, hnodup⟩ := ih hvalid₂
      let id := (realId st cr.id).1
      let st₁ := (realId st cr.id).2
      let parent := realParent st₁ cr.parentChunkId
      let res := chunkObjects countTokens doc crs parent.2
      have hid : id < parent.2.next := lt_of_lt_of_le hlt₁ hext₂.le
      have hhead : RowOf doc st res.2 cr (chunkRow countTokens doc cr id parent.1) := by
        refine ⟨by simp [Chunk.inUnit, chunkRow], rfl, rfl, rfl, ?_, hlinked, ?_, ?_⟩
        · show parent.1 = _
          cases hcr : cr.parentChunkId with
          | none => simp [parent, hcr, realParent]
          | some l =>
              have hsome : parent.2.map.get? l = parent.1 := by
                simpa [parent, hcr] using hparent.symm
              have hl : parent.1.isSome := by simpa [parent, hcr] using hlinked
              obtain ⟨p, hp⟩ := Option.isSome_iff_exists.1 hl
              rw [hp]
              exact (hext.keeps l p (hsome.trans hp)).symm
        · intro l hl
          refine hext.keeps l id (hext₂.keeps l id ?_)
          have hsome := realId_some st l
          rw [← hl] at hsome
          exact hsome
        · intro hnone
          have hids : id = st.next := by simp [id, hnone, realId_none]
          have hmap : st₁.map = st.map := by simp [st₁, hnone, realId_none]
          have hnext : st₁.next = st.next + 1 := by simp [st₁, hnone, realId_none]
          refine ⟨hids.ge, lt_of_lt_of_le hid hext.le, ?_⟩
          intro l hl
          rcases (hext₂.trans hext).later l id hl with hold | hnew
          · have hlt := h.below l id (hmap ▸ hold)
            omega
          · have hge : st₁.next ≤ id := hnew
            omega
      refine ⟨hvalid, (hext₁.trans hext₂).trans hext, .cons hhead ?_, ?_⟩
      · refine hrows.imp fun cr' row' hrow => ?_
        refine { hrow with unnamed := ?_ }
        intro hnone
        obtain ⟨hge, hrest⟩ := hrow.unnamed hnone
        exact ⟨(hext₁.trans hext₂).le.trans hge, hrest⟩
      · intro hn
        have hne : ∀ row' ∈ res.1, id ≠ row'.id := by
          intro row' hrow'
          obtain ⟨cr', hcr', hof⟩ := exists_left_of_forall₂ hrows hrow'
          apply hhead.id_ne hvalid hof (fun _ => hid)
          intro l hl hl'
          have hmem : l ∈ logicalIds crs := List.mem_filterMap.2 ⟨cr', hcr', hl'⟩
          have hcons : logicalIds (cr :: crs) = l :: logicalIds crs := by simp [logicalIds, hl]
          rw [hcons] at hn
          exact (List.nodup_cons.1 hn).1 hmem
        have hn' : (logicalIds crs).Nodup := by
          refine hn.sublist ?_
          exact (List.sublist_cons_self cr crs).filterMap ChunkResult.id
        have hgoal : (id :: res.1.map Chunk.id).Nodup := by
          rw [List.nodup_cons]
          refine ⟨?_, hnodup hn'⟩
          intro hmem
          obtain ⟨row', hrow', heq⟩ := List.mem_map.1 hmem
          exact hne row' hrow' heq.symm
        exact hgoal

/-- The columns that no chunk result decides. -/
theorem chunkObjects_fields (countTokens : String → Nat) (doc : Document) (crs : List ChunkResult)
    (st : IdMap) : ∀ c ∈ (chunkObjects countTokens doc crs st).1,
      c.knowledgeBaseId = doc.knowledgeBaseId ∧ c.reviewExcluded = false ∧ c.vectorId = none := by
  induction crs generalizing st with
  | nil => simp [chunkObjects]
  | cons cr crs ih =>
      intro c hc
      rcases List.mem_cons.1 hc with rfl | hc
      · exact ⟨rfl, rfl, rfl⟩
      · exact ih _ c hc

end OpsKnowledge.Knowledge
