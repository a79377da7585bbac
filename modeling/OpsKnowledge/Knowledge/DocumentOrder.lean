import OpsKnowledge.Lib.Listing
import OpsKnowledge.Knowledge.StoreInvariant

/-!
# The order of a document

The chunks of a unit are listed by `position`. A split gives its rows the position of the
split chunk and the ones after it, which other chunks may have already; a merge takes the
ids that it is given, however often each one is there.
-/

namespace OpsKnowledge.Knowledge

open OpsKnowledge.Lib

/-- What a listing shows of a chunk. -/
structure ShownChunk where
  id : Nat
  position : Nat
  content : String
  deriving DecidableEq

def Chunk.shown (c : Chunk) : ShownChunk := { id := c.id, position := c.position, content := c.content }

namespace Tables

variable (t : Tables)

def shownRows (unitType : UnitType) (unitId : Nat) : List ShownChunk :=
  (t.chunks.filter (Chunk.inUnit unitType unitId)).map Chunk.shown

/-- What `list_chunks` may give for a unit, all pages together. -/
def Lists (unitType : UnitType) (unitId : Nat) (shown : List ShownChunk) : Prop :=
  Listing ShownChunk.position (t.shownRows unitType unitId) shown

end Tables

/-- The two calls that change the rows of a unit. -/
inductive Reshape where
  | splitChunk (chunkId : Nat) (splitPositions : List Int)
  | mergeChunks (chunkIds : List Nat)

def Tables.reshape (t : Tables) : Reshape → Option Tables
  | .splitChunk chunkId splitPositions => t.splitChunk chunkId splitPositions
  | .mergeChunks chunkIds => t.mergeChunks chunkIds

def Reshape.action {Vec : Type} : Reshape → TableAction Vec
  | .splitChunk chunkId splitPositions => .splitChunk chunkId splitPositions
  | .mergeChunks chunkIds => .mergeChunks chunkIds

/-- A listing is one from before with the segments in place of the chunk, which they are the text of. -/
def ShowsSplit (t t' : Tables) (c : Chunk) (splitPositions : List Int) : Prop :=
  ∀ shown, t'.Lists c.unitType c.unitId shown → ∃ pre rows post,
    t.Lists c.unitType c.unitId (pre ++ c.shown :: post) ∧ shown = pre ++ rows ++ post ∧
      rows.map ShownChunk.content = segments c.content (sortedPositions splitPositions) ∧
      (rows.flatMap fun r => r.content.toList) = c.content.toList

/-- A listing is one from before without the sources, and with their contents, each once and in their
order, at the place of the first. -/
def ShowsMerge (t t' : Tables) (unitType : UnitType) (unitId : Nat) (chunkIds : List Nat) : Prop :=
  ∀ shown, t'.Lists unitType unitId shown → ∃ pre first post merged,
    t.Lists unitType unitId (pre ++ first :: post) ∧ first.id ∈ chunkIds ∧ (∀ a ∈ pre, a.id ∉ chunkIds) ∧
      shown = pre ++ merged :: post.filter (fun a => a.id ∉ chunkIds) ∧
      merged.content = "\n\n".intercalate
        (((pre ++ first :: post).filter fun a => a.id ∈ chunkIds).map ShownChunk.content)

/-- What the unit shows after the call. -/
def Shows (t t' : Tables) : Reshape → Prop
  | .splitChunk chunkId splitPositions => ∀ c ∈ t.chunks, c.id = chunkId → ShowsSplit t t' c splitPositions
  | .mergeChunks chunkIds => ∀ c ∈ t.chunks, c.id ∈ chunkIds →
      ShowsMerge t t' c.unitType c.unitId chunkIds

/-- No other chunk of the unit has a position of the segments; no id is given twice. -/
def Fits (t : Tables) : Reshape → Prop
  | .splitChunk chunkId splitPositions => ∀ c ∈ t.chunks, c.id = chunkId → ∀ d ∈ t.chunks,
      d.inUnit c.unitType c.unitId = true → d.id ≠ chunkId →
        d.position < c.position ∨ c.position + (sortedPositions splitPositions).length < d.position
  | .mergeChunks chunkIds => chunkIds.Nodup

/-! ## Segments -/

theorem toList_slice (content : String) (a b : Nat) :
    (slice content a b).toList = (content.toList.drop a).take (b - a) :=
  String.toList_ofList

/-- The slices between boundaries that go up are the text from the first one on. -/
theorem flatMap_slices {content : String} {a : Nat} {bounds : List Nat}
    (hbounds : (a :: bounds).Pairwise (· ≤ ·)) (hends : ∀ b ∈ bounds, b ≤ content.length) :
    (List.zipWith (slice content) (a :: bounds) (bounds ++ [content.length])).flatMap String.toList =
      content.toList.drop a := by
  induction bounds generalizing a with
  | nil =>
      simp only [List.nil_append, List.zipWith_cons_cons, List.zipWith_nil_left, List.flatMap_cons,
        List.flatMap_nil, List.append_nil, toList_slice]
      rw [List.take_of_length_le]
      rw [List.length_drop, String.length_toList]
  | cons b bounds ih =>
      obtain ⟨hle, htail⟩ := List.pairwise_cons.1 hbounds
      have hab : a ≤ b := hle b List.mem_cons_self
      have hdrop : content.toList.drop b = (content.toList.drop a).drop (b - a) := by
        rw [List.drop_drop, Nat.add_sub_cancel' hab]
      rw [List.cons_append, List.zipWith_cons_cons, List.flatMap_cons, toList_slice,
        ih htail fun b' hb' => hends b' (List.mem_cons_of_mem b hb'), hdrop, List.take_append_drop]

/-- The positions of a split that is accepted: in order and inside the text. -/
theorem splitRows_eq_ok {c : Chunk} {splitPositions : List Int} {next : Nat} {rows : List Chunk}
    (h : splitRows c splitPositions next = .ok rows) :
    sortedPositions splitPositions ≠ [] ∧
      (∀ p ∈ sortedPositions splitPositions, 0 < p ∧ p < c.content.length) ∧
      rows = (segments c.content (sortedPositions splitPositions)).mapIdx (splitPiece c next) := by
  unfold splitRows at h
  simp only at h
  split at h
  · cases h
  · next hvalid =>
      cases h
      simp only [Bool.or_eq_true, List.isEmpty_iff, List.any_eq_true, decide_eq_true_eq, not_or,
        not_exists, not_and, not_le] at hvalid
      exact ⟨hvalid.1, hvalid.2, rfl⟩

theorem flatMap_segments {content : String} {splitPositions : List Int}
    (h : ∀ p ∈ sortedPositions splitPositions, 0 < p ∧ p < content.length) :
    (segments content (sortedPositions splitPositions)).flatMap String.toList = content.toList := by
  have hsorted : (sortedPositions splitPositions).Pairwise fun a b => a ≤ b := orderBy_pairwise id _
  have hbounds : (0 :: (sortedPositions splitPositions).map Int.toNat).Pairwise (· ≤ ·) := by
    rw [List.pairwise_cons, List.pairwise_map]
    exact ⟨fun b _ => Nat.zero_le b, hsorted.imp fun hab => Int.toNat_le_toNat hab⟩
  have hends : ∀ b ∈ (sortedPositions splitPositions).map Int.toNat, b ≤ content.length := by
    intro b hb
    obtain ⟨p, hp, rfl⟩ := List.mem_map.1 hb
    have hlt := (h p hp).2
    omega
  have hall := flatMap_slices hbounds hends
  rwa [List.drop_zero] at hall

/-! ## The rows of a split -/

theorem map_shown_splitPiece (c : Chunk) (next : Nat) (segs : List String) :
    (segs.mapIdx (splitPiece c next)).map Chunk.shown =
      segs.mapIdx fun i seg => { id := next + i, position := c.position + i, content := seg } := by
  apply List.ext_getElem
  · simp
  · intro i hi hi'
    simp [Chunk.shown, splitPiece]

section Pieces

variable {c : Chunk} {next : Nat} {segs : List String}

theorem content_pieces :
    ((segs.mapIdx (splitPiece c next)).map Chunk.shown).map ShownChunk.content = segs := by
  rw [map_shown_splitPiece]
  apply List.ext_getElem
  · simp
  · intro i hi hi'
    simp

theorem pairwise_pieces : ((segs.mapIdx (splitPiece c next)).map Chunk.shown).Pairwise
    fun a b => a.position < b.position := by
  rw [map_shown_splitPiece, List.pairwise_iff_getElem]
  intro i j hi hj hij
  simpa using hij

theorem mem_pieces {a : ShownChunk} (ha : a ∈ (segs.mapIdx (splitPiece c next)).map Chunk.shown) :
    next ≤ a.id ∧ c.position ≤ a.position ∧ a.position < c.position + segs.length := by
  rw [map_shown_splitPiece, List.mem_mapIdx] at ha
  obtain ⟨i, hi, rfl⟩ := ha
  simp only
  omega

/-- Each position of the range has a piece. -/
theorem exists_piece (c : Chunk) (next : Nat) {i : Nat} (hi : i < segs.length) :
    ∃ a ∈ (segs.mapIdx (splitPiece c next)).map Chunk.shown, a.position = c.position + i := by
  rw [map_shown_splitPiece]
  exact ⟨_, List.mem_mapIdx.2 ⟨i, hi, rfl⟩, rfl⟩

end Pieces

/-! ## Rows that are replaced -/

@[simp] theorem shown_detach (gone : List Nat) (c : Chunk) : (c.detach gone).shown = c.shown := by
  unfold Chunk.detach
  split
  · rfl
  · rfl

namespace Tables

variable {t : Tables} {p : Chunk → Bool} {rows : List Chunk} {unitType : UnitType} {unitId : Nat}

/-- What a unit shows of the rows that go, and of the ones that stay. -/
def goneRows (t : Tables) (p : Chunk → Bool) (unitType : UnitType) (unitId : Nat) : List ShownChunk :=
  ((t.chunks.filter p).filter (Chunk.inUnit unitType unitId)).map Chunk.shown

def keptRows (t : Tables) (p : Chunk → Bool) (unitType : UnitType) (unitId : Nat) : List ShownChunk :=
  ((t.chunks.filter fun c => !p c).filter (Chunk.inUnit unitType unitId)).map Chunk.shown

theorem shownRows_perm (t : Tables) (p : Chunk → Bool) (unitType : UnitType) (unitId : Nat) :
    (t.shownRows unitType unitId).Perm
      (t.goneRows p unitType unitId ++ t.keptRows p unitType unitId) := by
  unfold shownRows goneRows keptRows
  rw [← List.map_append, ← List.filter_append]
  exact ((List.filter_append_perm p t.chunks).symm.filter _).map _

theorem shownRows_replaceChunks (hrows : ∀ r ∈ rows, r.inUnit unitType unitId = true) :
    (t.replaceChunks p rows).shownRows unitType unitId =
      t.keptRows p unitType unitId ++ rows.map Chunk.shown := by
  have hnew : (rows.map (Chunk.detach ((t.chunks.filter p).map Chunk.id))).filter
      (Chunk.inUnit unitType unitId) = rows.map (Chunk.detach ((t.chunks.filter p).map Chunk.id)) := by
    rw [List.filter_eq_self]
    intro r' hr'
    obtain ⟨r, hr, rfl⟩ := List.mem_map.1 hr'
    rw [detach_inUnit]
    exact hrows r hr
  unfold shownRows keptRows replaceChunks deleteChunks
  rw [List.filter_append, List.map_append, hnew, List.filter_map, List.map_map, List.map_map]
  simp [Function.comp_def]

theorem nodup_goneRows (h : t.Valid) : (t.goneRows p unitType unitId).Nodup := by
  apply List.Nodup.map_on
  · intro c hc d hd heq
    exact h.eq_of_id (List.mem_filter.1 (List.mem_filter.1 hc).1).1
      (List.mem_filter.1 (List.mem_filter.1 hd).1).1 (congrArg ShownChunk.id heq)
  · exact (h.nodup.of_map.filter p).filter _

theorem mem_keptRows {a : ShownChunk} : a ∈ t.keptRows p unitType unitId ↔
    ∃ d ∈ t.chunks, p d = false ∧ d.inUnit unitType unitId = true ∧ d.shown = a := by
  simp only [keptRows, List.mem_map, List.mem_filter, Bool.not_eq_eq_eq_not, Bool.not_true, and_assoc]

end Tables

section Split

variable {t : Tables} {c : Chunk} {splitPositions : List Int} {rows : List Chunk}

/-- The rows that the split chunk stands among. -/
theorem shownRows_perm_cons (hvalid : t.Valid) (hc : c ∈ t.chunks) :
    (t.shownRows c.unitType c.unitId).Perm
      (c.shown :: t.keptRows (fun d => d.id = c.id) c.unitType c.unitId) := by
  refine (t.shownRows_perm (fun d => d.id = c.id) c.unitType c.unitId).trans ?_
  have hgone : ((t.chunks.filter fun d => d.id = c.id).filter (Chunk.inUnit c.unitType c.unitId)).Perm
      [c] := by
    have hnodup : t.chunks.Nodup := hvalid.nodup.of_map
    rw [List.perm_ext_iff_of_nodup ((hnodup.filter _).filter _) (List.nodup_singleton c)]
    intro d
    simp only [List.mem_filter, decide_eq_true_eq, List.mem_singleton, Chunk.inUnit_iff]
    constructor
    · rintro ⟨⟨hd, hid⟩, -⟩
      exact hvalid.eq_of_id hd hc hid
    · rintro rfl
      exact ⟨⟨hc, rfl⟩, rfl, rfl⟩
  exact (hgone.map Chunk.shown).append_right _

theorem shownRows_split (hnew : ∀ r ∈ rows, r.inUnit c.unitType c.unitId = true) :
    ((t.replaceChunks (fun d => d.id = c.id) rows).shownRows c.unitType c.unitId).Perm
      (rows.map Chunk.shown ++ t.keptRows (fun d => d.id = c.id) c.unitType c.unitId) := by
  rw [Tables.shownRows_replaceChunks hnew]
  exact List.perm_append_comm

/-- A split shows its segments in place exactly where no other chunk of the unit has one of their
positions. -/
theorem showsSplit_iff (hvalid : t.Valid) (hc : c ∈ t.chunks)
    (hrows : splitRows c splitPositions t.next = .ok rows) :
    ShowsSplit t (t.replaceChunks (fun d => d.id = c.id) rows) c splitPositions ↔
      ∀ d ∈ t.chunks, d.inUnit c.unitType c.unitId = true → d.id ≠ c.id →
        d.position < c.position ∨ c.position + (sortedPositions splitPositions).length < d.position := by
  have hnew : ∀ r ∈ rows, r.inUnit c.unitType c.unitId = true := fun r hr =>
    Chunk.inUnit_iff.2 ⟨((splitRows_spec hrows).2.1.unit r hr).1, ((splitRows_spec hrows).2.1.unit r hr).2.1⟩
  have hafter := shownRows_split (t := t) hnew
  have hbefore := shownRows_perm_cons hvalid hc
  obtain ⟨hne, hinside, rfl⟩ := splitRows_eq_ok hrows
  have hlength := length_segments c.content (sortedPositions splitPositions)
  have hpositive := List.length_pos_iff.2 hne
  constructor
  · intro hshows d hd hunit hid
    by_contra hnot
    rw [not_or, not_lt, not_lt] at hnot
    have hzero : 0 < (segments c.content (sortedPositions splitPositions)).length := by omega
    have hend : (sortedPositions splitPositions).length <
        (segments c.content (sortedPositions splitPositions)).length := by omega
    obtain ⟨first, hfirst, hfirstAt⟩ := exists_piece c t.next hzero
    obtain ⟨last, hlast, hlastAt⟩ := exists_piece c t.next hend
    have hfresh : d.shown ∉ ((segments c.content (sortedPositions splitPositions)).mapIdx
        (splitPiece c t.next)).map Chunk.shown := by
      intro hin
      exact absurd (mem_pieces hin).1 (Nat.not_le.2 (hvalid.chunks d hd).1)
    have hkept : d.shown ∈ t.keptRows (fun d => d.id = c.id) c.unitType c.unitId :=
      Tables.mem_keptRows.2 ⟨d, hd, by simpa using hid, hunit, rfl⟩
    have hlow : first.position ≤ d.shown.position := hfirstAt ▸ hnot.1
    have hhigh : d.shown.position ≤ last.position := hlastAt ▸ hnot.2
    obtain ⟨shown, hshown, hbad⟩ := exists_interleaved hfirst hlast (by omega) hkept hfresh hlow hhigh
    obtain ⟨pre, mid, post, hold, heq, -⟩ := hshows shown (hshown.of_perm hafter.symm)
    refine hbad pre mid post heq ?_
    exact (List.perm_cons c.shown).1
      (List.perm_middle.symm.trans (hold.perm.trans hbefore))
  · intro hapart shown hshown
    have hothers : ∀ a ∈ t.keptRows (fun d => d.id = c.id) c.unitType c.unitId,
        a.position < c.position ∨ c.position + (sortedPositions splitPositions).length < a.position := by
      intro a ha
      obtain ⟨d, hd, hid, hunit, rfl⟩ := Tables.mem_keptRows.1 ha
      exact hapart d hd hunit (by simpa using hid)
    have hends : ∀ a ∈ ((segments c.content (sortedPositions splitPositions)).mapIdx
        (splitPiece c t.next)).map Chunk.shown, c.shown.position ≤ a.position ∧
          a.position ≤ c.position + (sortedPositions splitPositions).length := by
      intro a ha
      obtain ⟨-, hlow, hhigh⟩ := mem_pieces ha
      rw [hlength] at hhigh
      exact ⟨hlow, Nat.le_of_lt_succ hhigh⟩
    obtain ⟨pre, post, hold, rfl⟩ :=
      (hshown.of_perm hafter).inPlace pairwise_pieces hends rfl hothers
    refine ⟨pre, _, post, hold.of_perm hbefore.symm, rfl, content_pieces, ?_⟩
    rw [← flatMap_segments hinside, ← List.flatMap_map, content_pieces]

end Split

/-! ## The chunks of a merge -/

/-- The sources are the chunks of the ids, one for each time that an id is given. -/
theorem mergeSources_orderBy {chunks : List Chunk} {chunkIds : List Nat} {first : Chunk} {rest : List Chunk}
    (h : mergeSources chunks chunkIds = .ok (first, rest)) : ∃ sources, sources.map Chunk.id = chunkIds ∧
      (∀ c ∈ sources, c ∈ chunks) ∧ orderBy Chunk.position sources = first :: rest := by
  obtain ⟨-, sources, hs, -, ho⟩ := mergeSources_eq_ok h
  refine ⟨sources, ?_, ?_, ho⟩
  · have hall := mapM_eq_ok.1 hs
    clear hs h ho
    induction hall with
    | nil => rfl
    | cons hget _ ih => rw [List.map_cons, ih, (getChunk_eq_ok hget).2]
  · intro c hc
    obtain ⟨i, -, hget⟩ := (mem_of_mapM_eq_ok hs).1 hc
    exact (getChunk_eq_ok hget).1

theorem length_joined (sep : String) (xs : List String) : (sep.intercalate xs).length =
    (xs.flatMap String.toList).length + sep.length * (xs.length - 1) := by
  induction xs with
  | nil => rfl
  | cons x xs ih =>
      cases xs with
      | nil => simp [String.length_toList]
      | cons y ys =>
          have hcons : ((x :: y :: ys).flatMap String.toList).length =
              x.length + ((y :: ys).flatMap String.toList).length := by
            rw [List.flatMap_cons, List.length_append, String.length_toList]
          rw [String.intercalate_cons_cons, String.length_append, String.length_append, ih, hcons]
          simp only [List.length_cons, Nat.add_sub_cancel, Nat.mul_succ]
          omega

/-- A text that is joined from more parts is another one. -/
theorem nodup_of_joined {α : Type*} {sep : String} (hsep : 0 < sep.length) {f : α → String}
    {xs ys : List α} (hne : xs ≠ []) (hnodup : xs.Nodup) (hsub : xs ⊆ ys)
    (h : sep.intercalate (ys.map f) = sep.intercalate (xs.map f)) : ys.Nodup := by
  obtain ⟨zs, hzs, hinside⟩ := List.subperm_of_subset hnodup hsub
  obtain ⟨more, hmore⟩ := hinside.exists_perm_append
  have hperm : ys.Perm (xs ++ more) := hmore.trans (hzs.append_right more)
  have hlength := congrArg String.length h
  rw [length_joined, length_joined, (hperm.map f).length_eq,
    ((hperm.map f).flatMap_right String.toList).length_eq, List.map_append, List.flatMap_append,
    List.length_append, List.length_append] at hlength
  have hpositive : 0 < (xs.map f).length := by
    rw [List.length_map]
    exact List.length_pos_iff.2 hne
  have hcount : (xs.map f).length + (more.map f).length - 1 =
      (xs.map f).length - 1 + (more.map f).length := by omega
  rw [hcount, Nat.mul_add] at hlength
  have hzero : sep.length * (more.map f).length = 0 := by omega
  have hnil : more = [] := by
    rcases Nat.mul_eq_zero.1 hzero with hnone | hnone
    · omega
    · simpa using hnone
  rw [hnil, List.append_nil] at hperm
  exact hperm.nodup_iff.2 hnodup

section Merge

variable {t : Tables} {chunkIds : List Nat} {first : Chunk} {rest : List Chunk}

theorem nodup_sources_iff (hvalid : t.Valid) (h : mergeSources t.chunks chunkIds = .ok (first, rest)) :
    (first :: rest).Nodup ↔ chunkIds.Nodup := by
  obtain ⟨sources, rfl, hmem, ho⟩ := mergeSources_orderBy h
  rw [← ho, (orderBy_perm Chunk.position sources).nodup_iff]
  constructor
  · intro hnodup
    exact hnodup.map_on fun c hc d hd hid => hvalid.eq_of_id (hmem c hc) (hmem d hd) hid
  · exact List.Nodup.of_map Chunk.id

/-- The rows that a merge takes away are its sources. -/
theorem mem_sources_iff (hvalid : t.Valid) (h : mergeSources t.chunks chunkIds = .ok (first, rest))
    (c : Chunk) : c ∈ first :: rest ↔
      c ∈ (t.chunks.filter fun d => d.id ∈ chunkIds).filter (Chunk.inUnit first.unitType first.unitId) := by
  have hspec := mergeSources_spec h
  simp only [List.mem_filter, decide_eq_true_eq, Chunk.inUnit_iff]
  constructor
  · intro hc
    obtain ⟨i, hi, hget⟩ := (hspec.named c).1 hc
    obtain ⟨hin, rfl⟩ := getChunk_eq_ok hget
    rcases List.mem_cons.1 hc with rfl | hrest
    · exact ⟨⟨hin, hi⟩, rfl, rfl⟩
    · exact ⟨⟨hin, hi⟩, hspec.unit c hrest⟩
  · rintro ⟨⟨hin, hi⟩, -⟩
    exact (hspec.named c).2 ⟨c.id, hi, hvalid.getChunk_self hin⟩

theorem mem_goneRows_iff (hvalid : t.Valid) (h : mergeSources t.chunks chunkIds = .ok (first, rest))
    {a : ShownChunk} : a ∈ t.goneRows (fun c => c.id ∈ chunkIds) first.unitType first.unitId ↔
      a ∈ (first :: rest).map Chunk.shown := by
  simp only [Tables.goneRows, List.mem_map, ← mem_sources_iff hvalid h]

theorem shownRows_merge (t : Tables) (chunkIds : List Nat) (first : Chunk) (rest : List Chunk) :
    ((t.replaceChunks (fun c => c.id ∈ chunkIds) [mergedChunk t.next first rest]).shownRows
      first.unitType first.unitId).Perm ((mergedChunk t.next first rest).shown ::
        t.keptRows (fun c => c.id ∈ chunkIds) first.unitType first.unitId) := by
  have hnew : ∀ r ∈ [mergedChunk t.next first rest], r.inUnit first.unitType first.unitId = true := by
    intro r hr
    rw [List.mem_singleton.1 hr]
    exact Chunk.inUnit_iff.2 ⟨rfl, rfl⟩
  rw [Tables.shownRows_replaceChunks hnew]
  exact List.perm_append_comm

theorem content_mergedChunk (next : Nat) (first : Chunk) (rest : List Chunk) :
    (mergedChunk next first rest).content =
      "\n\n".intercalate (((first :: rest).map Chunk.shown).map ShownChunk.content) := by
  rw [List.map_map]
  rfl

theorem goneRows_named {a : ShownChunk} {unitType : UnitType} {unitId : Nat}
    (ha : a ∈ t.goneRows (fun c => c.id ∈ chunkIds) unitType unitId) :
    decide (a.id ∈ chunkIds) = true := by
  obtain ⟨c, hc, rfl⟩ := List.mem_map.1 ha
  exact (List.mem_filter.1 (List.mem_filter.1 hc).1).2

theorem keptRows_unnamed {a : ShownChunk} {unitType : UnitType} {unitId : Nat}
    (ha : a ∈ t.keptRows (fun c => c.id ∈ chunkIds) unitType unitId) :
    decide (a.id ∈ chunkIds) = false := by
  obtain ⟨c, -, hp, -, rfl⟩ := Tables.mem_keptRows.1 ha
  exact hp

/-- A merge shows each source once exactly where no id is given twice. -/
theorem showsMerge_iff (hvalid : t.Valid) (h : mergeSources t.chunks chunkIds = .ok (first, rest)) :
    ShowsMerge t (t.replaceChunks (fun c => c.id ∈ chunkIds) [mergedChunk t.next first rest])
      first.unitType first.unitId chunkIds ↔ chunkIds.Nodup := by
  have hbefore := t.shownRows_perm (fun c => c.id ∈ chunkIds) first.unitType first.unitId
  have hafter := shownRows_merge t chunkIds first rest
  have hcontent := content_mergedChunk t.next first rest
  rw [← nodup_sources_iff hvalid h]
  constructor
  · intro hshows
    obtain ⟨pre, f, post, m, hold, hf, hpre, heq, hjoined⟩ :=
      hshows _ (listing_orderBy (fun _ _ hab => hab) _)
    have hshown := (orderBy_perm ShownChunk.position _).trans hafter
    simp only [decide_not] at heq
    rw [heq] at hshown
    -- the row that the listing shows for the sources is the one that the call wrote
    obtain ⟨rfl, hselected⟩ := eq_of_listed (hold.perm.trans hbefore) (decide_eq_true hf)
      (fun a ha => decide_eq_false (hpre a ha)) (fun _ => goneRows_named) (fun _ => keptRows_unnamed) hshown
    have hsub : ((pre ++ f :: post).filter fun a => a.id ∈ chunkIds) ⊆
        (first :: rest).map Chunk.shown := fun a ha =>
      (mem_goneRows_iff hvalid h).1 (hselected.mem_iff.1 ha)
    have hne : ((pre ++ f :: post).filter fun a => a.id ∈ chunkIds) ≠ [] :=
      List.ne_nil_of_mem (List.mem_filter.2
        ⟨List.mem_append_right pre List.mem_cons_self, decide_eq_true hf⟩)
    have hnodup := hselected.nodup_iff.2 (Tables.nodup_goneRows hvalid)
    exact (nodup_of_joined (by decide) hne hnodup hsub (hcontent.symm.trans hjoined)).of_map
  · intro hnodup shown hshown
    have hsources : ((first :: rest).map Chunk.shown).Perm
        (t.goneRows (fun c => c.id ∈ chunkIds) first.unitType first.unitId) :=
      ((List.perm_ext_iff_of_nodup hnodup ((hvalid.nodup.of_map.filter _).filter _)).2
        (mem_sources_iff hvalid h)).map Chunk.shown
    have hsorted : ((first :: rest).map Chunk.shown).Pairwise fun a b => a.position ≤ b.position := by
      obtain ⟨sources, -, -, ho⟩ := mergeSources_orderBy h
      rw [List.pairwise_map, ← ho]
      exact orderBy_pairwise Chunk.position sources
    have hplace : (mergedChunk t.next first rest).shown.position = first.shown.position := rfl
    obtain ⟨pre, post, hold, hpre, hfilter, rfl⟩ := (hshown.of_perm hafter).gather hplace hsorted
      (fun _ ha => goneRows_named ((mem_goneRows_iff hvalid h).2 ha)) (fun _ => keptRows_unnamed)
    refine ⟨pre, first.shown, post, (mergedChunk t.next first rest).shown,
      hold.of_perm ((hsources.append_right _).trans hbefore.symm), ?_,
      fun a ha => of_decide_eq_false (hpre a ha), by simp only [decide_not], ?_⟩
    · exact of_decide_eq_true (goneRows_named ((mem_goneRows_iff hvalid h).2 List.mem_cons_self))
    · rw [hfilter]
      exact hcontent

end Merge

/-! ## The order that a call leaves -/

variable {t t' : Tables}

theorem tableStep_action {Vec : Type} (countTokens : String → Nat) (t : Tables) (call : Reshape) :
    tableStep countTokens t (call.action : TableAction Vec) = t.reshape call := by
  cases call with
  | splitChunk chunkId splitPositions => rfl
  | mergeChunks chunkIds => rfl

theorem reshape_valid (hvalid : t.Valid) {call : Reshape} (h : t.reshape call = some t') : t'.Valid := by
  rw [← @tableStep_action Unit (fun _ => 0) t call] at h
  exact Tables.tableStep_valid hvalid h

/-- A listing has the split chunk's segments in its place, or the merged chunks at the place of the
first, exactly where the call fits. -/
theorem shows_iff (hvalid : t.Valid) {call : Reshape} (h : t.reshape call = some t') :
    Shows t t' call ↔ Fits t call := by
  cases call with
  | splitChunk chunkId splitPositions =>
      obtain ⟨c, hget, rows, hrows, rfl⟩ := Tables.splitChunk_eq_some.1 h
      obtain ⟨hc, rfl⟩ := getChunk_eq_ok hget
      have hone := showsSplit_iff hvalid hc hrows
      constructor
      · intro hshows d hd hid
        obtain rfl := hvalid.eq_of_id hd hc hid
        exact hone.1 (hshows d hd rfl)
      · intro hfits d hd hid
        obtain rfl := hvalid.eq_of_id hd hc hid
        exact hone.2 (hfits d hd rfl)
  | mergeChunks chunkIds =>
      obtain ⟨first, rest, hsources, rfl⟩ := Tables.mergeChunks_eq_some.1 h
      have hone := showsMerge_iff hvalid hsources
      have hspec := mergeSources_spec hsources
      obtain ⟨i, hi, hget⟩ := (hspec.named first).1 List.mem_cons_self
      obtain ⟨hfirst, rfl⟩ := getChunk_eq_ok hget
      constructor
      · intro hshows
        exact hone.1 (hshows first hfirst hi)
      · intro hfits c hc hid
        have hnamed := (hspec.named c).2 ⟨c.id, hid, hvalid.getChunk_self hc⟩
        have hunit : c.unitType = first.unitType ∧ c.unitId = first.unitId := by
          rcases List.mem_cons.1 hnamed with rfl | hrest
          · exact ⟨rfl, rfl⟩
          · exact hspec.unit c hrest
        rw [hunit.1, hunit.2]
        exact hone.2 hfits

def onePage : Tables :=
  { kbs := [{ id := 0 }]
    documents := [{ id := 1, knowledgeBaseId := 0 }]
    chunks := [{ id := 2, unitType := .document, unitId := 1, knowledgeBaseId := 0, content := "abcd" }]
    next := 3 }

theorem onePage_valid : onePage.Valid :=
  Tables.valid_of_document rfl rfl rfl ⟨by decide, rfl⟩ ⟨by decide, _, List.mem_singleton_self _, rfl⟩

/-- The chunks that a split of the only one leaves. -/
def pageHead : Chunk :=
  { id := 3, unitType := .document, unitId := 1, knowledgeBaseId := 0, content := "ab"
    tokenCount := 1, isManuallyEdited := true }

def pageTail : Chunk :=
  { id := 4, unitType := .document, unitId := 1, knowledgeBaseId := 0, content := "cd", position := 1
    tokenCount := 1, isManuallyEdited := true }

theorem reshape_onePage : onePage.reshape (.splitChunk 2 [2]) =
    some { onePage with chunks := [pageHead, pageTail], next := 5 } := rfl

/-- A split of the first of the two: its second segment has the position of the other chunk. -/
theorem split_scatters :
    ¬ ∀ (t t' : Tables) (call : Reshape), t.Valid → t.reshape call = some t' → Shows t t' call := by
  intro hall
  have hvalid := reshape_valid onePage_valid reshape_onePage
  have hshows := hall _ _ (.splitChunk 3 [1]) hvalid rfl pageHead List.mem_cons_self rfl
  have hapart := (showsSplit_iff hvalid List.mem_cons_self rfl).1 hshows pageTail
    (List.mem_cons_of_mem pageHead List.mem_cons_self) rfl (by decide)
  exact absurd hapart (by decide)

/-- Between the first chunk and the last one two are merged, and the merged one is split again. -/
theorem shows_onePage : ∃ t₁ t₂ t₃, onePage.reshape (.splitChunk 2 [1, 2, 3]) = some t₁ ∧
    t₁.reshape (.mergeChunks [4, 5]) = some t₂ ∧ t₂.reshape (.splitChunk 7 [1]) = some t₃ ∧
    t₃.chunks.map (fun c => (c.content, c.position)) = [("a", 0), ("d", 3), ("b", 1), ("\n\nc", 2)] ∧
    Shows t₁ t₂ (.mergeChunks [4, 5]) ∧ Shows t₂ t₃ (.splitChunk 7 [1]) := by
  have hrun : ∃ t₁ t₂ t₃, onePage.reshape (.splitChunk 2 [1, 2, 3]) = some t₁ ∧
      t₁.reshape (.mergeChunks [4, 5]) = some t₂ ∧ t₂.reshape (.splitChunk 7 [1]) = some t₃ ∧
      t₂.chunks.map (fun c => (c.id, c.position)) = [(3, 0), (6, 3), (7, 1)] ∧
      t₃.chunks.map (fun c => (c.content, c.position)) = [("a", 0), ("d", 3), ("b", 1), ("\n\nc", 2)] :=
    ⟨_, _, _, rfl, rfl, rfl, by decide, by decide⟩
  obtain ⟨t₁, t₂, t₃, hfirst, hmerge, hsplit, hplaces, hshown⟩ := hrun
  have hvalid₁ := reshape_valid onePage_valid hfirst
  have hvalid₂ := reshape_valid hvalid₁ hmerge
  refine ⟨t₁, t₂, t₃, hfirst, hmerge, hsplit, hshown, (shows_iff hvalid₁ hmerge).2 ?_,
    (shows_iff hvalid₂ hsplit).2 ?_⟩
  · show [4, 5].Nodup
    decide
  · intro c hc hid d hd _ hother
    have hall : ∀ p ∈ [(3, 0), (6, 3), (7, 1)], ∀ q ∈ [(3, 0), (6, 3), (7, 1)], p.1 = 7 → q.1 ≠ 7 →
        q.2 < p.2 ∨ p.2 + (sortedPositions [1]).length < q.2 := by decide
    have hmem : ∀ c ∈ t₂.chunks, (c.id, c.position) ∈ [(3, 0), (6, 3), (7, 1)] :=
      fun c hc => hplaces ▸ List.mem_map_of_mem hc
    exact hall _ (hmem c hc) _ (hmem d hd) hid hother

end OpsKnowledge.Knowledge
