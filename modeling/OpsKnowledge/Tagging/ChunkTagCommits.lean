import OpsKnowledge.Tagging.ChunkTags

/-!
# Commits of entries and chunks

The invariant of the tags of chunks: a chunk has the tags of its unit or waits for a refresh, and its
vector has the tags of the chunk or waits for an update. What the commits of the tables keep of it.
-/

namespace OpsKnowledge.Tagging

open OpsKnowledge.Lib
open OpsKnowledge.Knowledge

/-! ## Names that fit -/

section Names

variable {tags autoTags : List String}

theorem nodup_eraseDups {α : Type*} [DecidableEq α] (xs : List α) : xs.eraseDups.Nodup := by
  induction h : xs.length using Nat.strong_induction_on generalizing xs with
  | _ n ih =>
      cases xs with
      | nil => exact List.nodup_nil
      | cons a xs =>
          have hlt : (xs.filter fun b => !b == a).length < n := by
            have hle := List.length_filter_le (fun b => !b == a) xs
            rw [List.length_cons] at h
            omega
          rw [List.eraseDups_cons, List.nodup_cons]
          constructor
          · intro hmem
            have hfilter := List.mem_filter.1 (List.mem_eraseDups.1 hmem)
            simp at hfilter
          · exact ih _ hlt _ rfl

theorem slice_of_short {tag : String} (h : tag.length ≤ 64) : slice tag 0 64 = tag := by
  unfold slice
  have hshort : tag.toList.length ≤ 64 - 0 := by
    rw [String.length_toList]
    omega
  rw [List.drop_zero, List.take_of_length_le hshort]
  exact String.ofList_toList

theorem map_slice {names : List String} (h : ∀ tag ∈ names, tag.length ≤ 64) :
    names.map (fun tag => slice tag 0 64) = names := by
  have hslice : names.map (fun tag => slice tag 0 64) = names.map id :=
    List.map_congr_left fun tag htag => slice_of_short (h tag htag)
  rw [hslice, List.map_id]

theorem filter_nonempty {names : List String} (h : ∀ tag ∈ names, tag ≠ "") :
    names.filter (· ≠ "") = names := by
  rw [List.filter_eq_self]
  intro tag htag
  exact decide_eq_true (h tag htag)

/-- The array of the collection takes names that fit as they are. -/
theorem storedTags_of_names {names : List String} (h : ∀ tag ∈ names, tag ≠ "" ∧ tag.length ≤ 64)
    (hfew : names.length ≤ 20) : storedTags names = names := by
  unfold storedTags
  rw [filter_nonempty fun tag htag => (h tag htag).1, map_slice fun tag htag => (h tag htag).2]
  exact List.take_of_length_le hfew

namespace TagStores

theorem Fits.computeChunkTags_eq (h : Fits tags autoTags) :
    computeChunkTags tags autoTags = (tags ++ autoTags).eraseDups := by
  unfold computeChunkTags
  rw [filter_nonempty fun tag htag => (h.names tag htag).1]
  exact map_slice fun tag htag => (h.names tag (List.mem_eraseDups.1 htag)).2

theorem Fits.nodup (h : Fits tags autoTags) : (computeChunkTags tags autoTags).Nodup := by
  rw [h.computeChunkTags_eq]
  exact nodup_eraseDups _

theorem Fits.mem_iff (h : Fits tags autoTags) (tag : String) :
    tag ∈ computeChunkTags tags autoTags ↔ tag ∈ tags ++ autoTags := by
  rw [h.computeChunkTags_eq]
  exact List.mem_eraseDups

theorem Fits.stored (h : Fits tags autoTags) :
    storedTags (computeChunkTags tags autoTags) = computeChunkTags tags autoTags := by
  apply storedTags_of_names
  · intro tag htag
    exact h.names tag ((h.mem_iff tag).1 htag)
  · rw [h.computeChunkTags_eq]
    exact h.few

end TagStores

end Names

/-! ## The invariant -/

namespace TagStores

/-- Each tag of the unit, once. -/
def Tagged (s : TagStores) (c : Chunk) : Prop :=
  c.chunkTags.Nodup ∧ ∀ tag, tag ∈ c.chunkTags ↔ tag ∈ unitTags s.tables c.unitType c.unitId

def Refreshed (s : TagStores) (c : Chunk) : Prop := c.unitType = .entry ∧ c.unitId ∈ s.refreshes

/-- Some embedding has stored the chunk, and will set its `vector_id`. -/
def Stored (s : TagStores) (i : Nat) : Prop := ∃ task ∈ s.embeds, ∃ d ∈ task.stored, d.id = i

/-- Vectors have the tags of the chunks, or an update brings them. -/
structure Vectored (s : TagStores) : Prop where
  valid : s.tables.Valid
  stored : ∀ c ∈ s.tables.chunks, storedTags c.chunkTags = c.chunkTags
  read : ∀ task ∈ s.embeds, ∀ d ∈ task.pending ++ task.stored, d.id < s.tables.next ∧
    ∀ c ∈ s.tables.chunks, c.id = d.id → d.chunkTags = c.chunkTags
  vectors : ∀ c ∈ s.tables.chunks, c.vectorId ≠ none ∨ s.Stored c.id → ∀ row,
    s.live c.id = some row → row.chunkTags = c.chunkTags ∨ Brings s.updates c

structure Tracked (s : TagStores) : Prop extends Vectored s where
  fits : ∀ i e, s.tables.getEntry i = some e → Fits e.tags e.autoTags
  tagged : ∀ c ∈ s.tables.chunks, s.Tagged c ∨ s.Refreshed c

/-- Tables and collection agree, and there is nothing to do. -/
structure Settled (s : TagStores) : Prop where
  valid : s.tables.Valid
  idle : s.Idle
  fits : ∀ i e, s.tables.getEntry i = some e → Fits e.tags e.autoTags
  agrees : ∀ c ∈ s.tables.chunks, s.Agrees c

variable {s s' : TagStores}

theorem Stored.read {i : Nat} (h : s.Stored i) : s.Read i := by
  obtain ⟨task, htask, d, hd, hid⟩ := h
  exact ⟨task, htask, d, List.mem_append_right _ hd, hid⟩

theorem Brings.mono {updates updates' : List TagUpdate} (hsub : updates ⊆ updates') {c : Chunk}
    (h : Brings updates c) : Brings updates' c := by
  obtain ⟨u, hu, hreaches, htags⟩ := h
  exact ⟨u, hsub hu, hreaches, htags⟩

/-- Whether an update brings the tags depends on the id and the tags of the chunk. -/
theorem Brings.of_same {updates : List TagUpdate} {c d : Chunk} (hid : c.id = d.id)
    (htags : c.chunkTags = d.chunkTags) (h : Brings updates d) : Brings updates c := by
  obtain ⟨u, hu, hreaches, hbrings⟩ := h
  rw [← hid] at hreaches
  exact ⟨u, hu, hreaches, hbrings.trans htags.symm⟩

theorem Settled.tracked (h : s.Settled) : s.Tracked := by
  have htagged : ∀ c ∈ s.tables.chunks, s.Tagged c :=
    fun c hc => ⟨(h.agrees c hc).nodup, (h.agrees c hc).mem_iff⟩
  refine ⟨⟨h.valid, ?_, ?_, ?_⟩, h.fits, fun c hc => .inl (htagged c hc)⟩
  · intro c hc
    obtain ⟨hnodup, hmem⟩ := htagged c hc
    cases htype : c.unitType with
    | document =>
        have hnil : c.chunkTags = [] := by
          rw [List.eq_nil_iff_forall_not_mem]
          intro tag htag
          have hunit := (hmem tag).1 htag
          rw [htype] at hunit
          cases hunit
        rw [hnil]
        rfl
    | entry =>
        cases hentry : s.tables.getEntry c.unitId with
        | none =>
            have hunit := (h.valid.chunks c hc).2
            rw [htype] at hunit
            simp [Tables.unitKb, hentry] at hunit
        | some e =>
            have hfits := h.fits _ e hentry
            have hunit : ∀ tag, tag ∈ c.chunkTags ↔ tag ∈ e.tags ++ e.autoTags := by
              intro tag
              rw [hmem tag, htype]
              show tag ∈ (s.tables.getEntry c.unitId).elim [] _ ↔ _
              rw [hentry]
              rfl
            apply storedTags_of_names
            · intro tag htag
              exact hfits.names tag ((hunit tag).1 htag)
            · have hsub : c.chunkTags ⊆ (e.tags ++ e.autoTags).eraseDups :=
                fun tag htag => List.mem_eraseDups.2 ((hunit tag).1 htag)
              exact (hnodup.subperm hsub).length_le.trans hfits.few
  · intro task htask
    rw [h.idle.embeds] at htask
    cases htask
  · intro c hc hvector row hrow
    rcases hvector with hvector | ⟨task, htask, -⟩
    · exact .inl ((h.agrees c hc).vector hvector row hrow)
    · rw [h.idle.embeds] at htask
      cases htask

/-- Without tasks nothing is left to wait for. -/
theorem Tracked.agreesWhenIdle (h : s.Tracked) : s.AgreesWhenIdle := by
  intro hidle c hc
  have htagged : s.Tagged c := by
    rcases h.tagged c hc with htagged | ⟨-, hrefreshed⟩
    · exact htagged
    · rw [hidle.refreshes] at hrefreshed
      cases hrefreshed
  refine ⟨htagged.1, htagged.2, ?_⟩
  intro hvector row hrow
  rcases h.vectors c hc (.inl hvector) row hrow with htags | ⟨u, hu, -⟩
  · exact htags
  · rw [hidle.updates] at hu
    cases hu

/-! ## Commits of the tables -/

/-- A row from before, as far as tags and vectors go, or a new one without a vector. -/
def RowOf (s : TagStores) (c : Chunk) : Prop :=
  (∃ d ∈ s.tables.chunks, c.id = d.id ∧ c.chunkTags = d.chunkTags ∧
      (c.vectorId ≠ none → d.vectorId ≠ none)) ∨
    s.tables.next ≤ c.id ∧ c.vectorId = none ∧ storedTags c.chunkTags = c.chunkTags

theorem Vectored.tables (h : s.Vectored) (hvalid : s'.tables.Valid)
    (hnext : s.tables.next ≤ s'.tables.next) (hrows : ∀ c ∈ s'.tables.chunks, s.RowOf c)
    (hembeds : s'.embeds = s.embeds) (hupdates : s'.updates = s.updates)
    (hlive : ∀ i row, s'.live i = some row → s.live i = some row) : s'.Vectored := by
  refine ⟨hvalid, ?_, ?_, ?_⟩
  · intro c hc
    rcases hrows c hc with ⟨d, hd, -, htags, -⟩ | ⟨-, -, hstored⟩
    · rw [htags]
      exact h.stored d hd
    · exact hstored
  · intro task htask d hd
    rw [hembeds] at htask
    obtain ⟨hlt, hsame⟩ := h.read task htask d hd
    constructor
    · omega
    · intro c hc hid
      rcases hrows c hc with ⟨old, hold, holdId, htags, -⟩ | ⟨hnew, -, -⟩
      · rw [htags]
        exact hsame old hold (holdId.symm.trans hid)
      · omega
  · intro c hc hvector row hrow
    have hstored : s'.Stored c.id → s.Stored c.id := by
      intro hstored
      unfold Stored at hstored
      rwa [hembeds] at hstored
    rw [hupdates]
    rcases hrows c hc with ⟨d, hd, hid, htags, hkept⟩ | ⟨hnew, hnone, -⟩
    · have hvector' : d.vectorId ≠ none ∨ s.Stored d.id := by
        rcases hvector with hvector | hvector
        · exact .inl (hkept hvector)
        · right
          rw [← hid]
          exact hstored hvector
      have hrow' : s.live d.id = some row := by
        rw [← hid]
        exact hlive _ _ hrow
      rcases h.vectors d hd hvector' row hrow' with hsame | hbrings
      · exact .inl (hsame.trans htags.symm)
      · exact .inr (hbrings.of_same hid htags)
    · -- no embedding has read an id that was not given yet
      rcases hvector with hvector | hvector
      · exact absurd hnone hvector
      · obtain ⟨task, htask, d, hd, hid⟩ := (hstored hvector).read
        have hlt := (h.read task htask d hd).1
        omega

theorem rowOf_detach {d : Chunk} (hd : d ∈ s.tables.chunks) (gone : List Nat) :
    s.RowOf (d.detach gone) := by
  left
  refine ⟨d, hd, ?_, ?_, ?_⟩
  · exact detach_id gone d
  · unfold Chunk.detach
    split <;> rfl
  · intro hvector
    rwa [detach_vectorId] at hvector

/-- Rows that take the place of others. -/
theorem rowOf_swap {t' : Tables} {unitType : UnitType} {unitId kbId : Nat} {p : Chunk → Bool}
    {rows : List Chunk} (hswap : Tables.Swap unitType unitId kbId p rows s.tables t')
    (hnew : ∀ r ∈ rows, r.vectorId = none ∧ storedTags r.chunkTags = r.chunkTags) :
    ∀ c ∈ t'.chunks, s.RowOf c := by
  intro c hc
  rw [hswap.chunks] at hc
  rcases List.mem_append.1 hc with hold | hrow
  · obtain ⟨d, hd, -, gone, rfl⟩ := mem_deleteChunks hold
    exact rowOf_detach hd gone
  · exact .inr ⟨(hswap.new.fresh c hrow).1, hnew c hrow⟩

/-- A row with the tags of its unit has them where the unit keeps its tags. -/
theorem tagged_of_same {c d : Chunk} (htype : c.unitType = d.unitType) (hunitId : c.unitId = d.unitId)
    (htags : c.chunkTags = d.chunkTags)
    (hunit : unitTags s'.tables d.unitType d.unitId = unitTags s.tables d.unitType d.unitId)
    (hrefreshes : ∀ i ∈ s.refreshes, i ∈ s'.refreshes) (h : s.Tagged d ∨ s.Refreshed d) :
    s'.Tagged c ∨ s'.Refreshed c := by
  unfold Tagged Refreshed at *
  rw [htype, hunitId, htags, hunit]
  rcases h with htagged | ⟨hentry, hmem⟩
  · exact .inl htagged
  · exact .inr ⟨hentry, hrefreshes _ hmem⟩

theorem unitTags_of_entries {t t' : Tables} (h : t'.entries = t.entries) :
    unitTags t' = unitTags t := by
  funext unitType unitId
  cases unitType with
  | document => rfl
  | entry =>
      show (t'.getEntry unitId).elim [] _ = (t.getEntry unitId).elim [] _
      unfold Tables.getEntry
      rw [h]

/-- A commit of the chunk service: its new rows have no tags. -/
theorem Tracked.chunksOnly (h : s.Tracked) {t' : Tables} {live : Collection}
    {unitType : UnitType} {unitId kbId : Nat} {p : Chunk → Bool} {rows : List Chunk}
    (honly : Tables.ChunksOnly s.tables t')
    (hswap : Tables.Swap unitType unitId kbId p rows s.tables t')
    (hunit : s.tables.unitKb unitType unitId = some kbId)
    (hnew : ∀ r ∈ rows, r.vectorId = none ∧ r.chunkTags = [])
    (huntagged : rows ≠ [] → unitTags s.tables unitType unitId = [] ∨
      unitType = .entry ∧ unitId ∈ s.refreshes)
    (hlive : ∀ i row, live i = some row → s.live i = some row) :
    Tracked { s with tables := t', live := live } := by
  have hrows : ∀ c ∈ t'.chunks, s.RowOf c := by
    apply rowOf_swap hswap
    intro r hr
    obtain ⟨hnone, hnil⟩ := hnew r hr
    rw [hnil]
    exact ⟨hnone, rfl⟩
  have hunits : unitTags t' = unitTags s.tables := unitTags_of_entries honly.entries
  refine ⟨h.toVectored.tables (h.valid.swap honly.frame hswap hunit) honly.next hrows rfl rfl hlive,
    ?_, ?_⟩
  · intro i e he
    unfold Tables.getEntry at he
    rw [honly.entries] at he
    exact h.fits i e he
  · intro c hc
    change c ∈ t'.chunks at hc
    rw [hswap.chunks] at hc
    rcases List.mem_append.1 hc with hold | hrow
    · obtain ⟨d, hd, -, gone, rfl⟩ := mem_deleteChunks hold
      apply tagged_of_same (s := s) (d := d) (detach_unitType gone d) (detach_unitId gone d)
      · unfold Chunk.detach
        split <;> rfl
      · exact congrFun (congrFun hunits _) _
      · exact fun _ => id
      · exact h.tagged d hd
    · obtain ⟨htype, hid, -⟩ := hswap.new.unit c hrow
      have hnil := (hnew c hrow).2
      rcases huntagged (List.ne_nil_of_mem hrow) with hnone | hrefreshed
      · left
        show c.chunkTags.Nodup ∧ ∀ tag, tag ∈ c.chunkTags ↔ tag ∈ unitTags t' c.unitType c.unitId
        rw [hunits, htype, hid, hnone, hnil]
        exact ⟨List.nodup_nil, fun tag => Iff.rfl⟩
      · right
        show c.unitType = .entry ∧ c.unitId ∈ s.refreshes
        rw [htype, hid]
        exact hrefreshed

theorem splitRows_untagged {c : Chunk} {splitPositions : List Int} {next : Nat} {rows : List Chunk}
    (h : splitRows c splitPositions next = .ok rows) : ∀ r ∈ rows, r.chunkTags = [] := by
  unfold splitRows at h
  simp only at h
  split at h
  · cases h
  · cases h
    intro r hr
    obtain ⟨i, hi, rfl⟩ := List.mem_mapIdx.1 hr
    rfl

theorem detach_chunkTags (gone : List Nat) (c : Chunk) : (c.detach gone).chunkTags = c.chunkTags := by
  unfold Chunk.detach
  split <;> rfl

theorem Tracked.splitChunk (h : s.Tracked) {chunkId : Nat} {splitPositions : List Int}
    (hkeeps : ∀ c ∈ s.tables.chunks, c.id = chunkId → s.Untagged c)
    (hs' : s.withTables (s.tables.splitChunk chunkId splitPositions) = some s') : s'.Tracked := by
  obtain ⟨t', ht', rfl⟩ := Option.map_eq_some_iff.1 hs'
  obtain ⟨c, hget, rows, hrows, rfl⟩ := Tables.splitChunk_eq_some.1 ht'
  obtain ⟨hc, rfl⟩ := getChunk_eq_ok hget
  obtain ⟨-, hnew, hflags⟩ := splitRows_spec hrows
  have hswap := Tables.replaceChunks_swap (t := s.tables) hnew (h.valid.id_home hc)
  apply h.chunksOnly (Tables.replaceChunks_only _ _) hswap (h.valid.chunks c hc).2
  · intro r' hr'
    obtain ⟨r, hr, rfl⟩ := List.mem_map.1 hr'
    rw [detach_vectorId, detach_chunkTags]
    exact ⟨(hflags r hr).2, splitRows_untagged hrows r hr⟩
  · exact fun _ => hkeeps c hc rfl
  · exact fun _ _ => id

theorem Tracked.mergeChunks (h : s.Tracked) {chunkIds : List Nat}
    (hkeeps : ∀ c ∈ s.tables.chunks, c.id ∈ chunkIds → s.Untagged c)
    (hs' : s.withTables (s.tables.mergeChunks chunkIds) = some s') : s'.Tracked := by
  obtain ⟨t', ht', rfl⟩ := Option.map_eq_some_iff.1 hs'
  obtain ⟨c, hc, hid, -, r, honly, -, hswap⟩ := Tables.mergeChunks_swap h.valid ht'
  obtain ⟨first, rest, -, rfl⟩ := Tables.mergeChunks_eq_some.1 ht'
  have hmerged : [r] = [mergedChunk s.tables.next first rest].map
      (Chunk.detach ((s.tables.chunks.filter fun d => d.id ∈ chunkIds).map Chunk.id)) :=
    List.append_cancel_left hswap.chunks.symm
  apply h.chunksOnly honly hswap (h.valid.chunks c hc).2
  · intro r' hr'
    rw [hmerged, List.map_singleton, List.mem_singleton] at hr'
    rw [hr', detach_vectorId, detach_chunkTags]
    exact ⟨rfl, rfl⟩
  · exact fun _ => hkeeps c hc hid
  · exact fun _ _ => id

theorem Tracked.deleteChunk (h : s.Tracked) {chunkId : Nat} (hs' : s.deleteChunk chunkId = some s') :
    s'.Tracked := by
  obtain ⟨t', ht', rfl⟩ := Option.map_eq_some_iff.1 hs'
  obtain ⟨c, hc, -, honly, hswap⟩ := Tables.deleteChunk_swap h.valid ht'
  apply h.chunksOnly honly hswap (h.valid.chunks c hc).2
  · intro r hr
    cases hr
  · exact fun hne => absurd rfl hne
  · intro i row hrow
    exact (Store.deleteIds_eq_some.1 hrow).2

/-- An edit leaves the tags, and takes the vector from the chunk. -/
theorem Tracked.editChunk (h : s.Tracked) {chunkId : Nat} {newContent : String}
    (hs' : s.withTables (s.tables.editChunk chunkId newContent) = some s') : s'.Tracked := by
  obtain ⟨t', ht', rfl⟩ := Option.map_eq_some_iff.1 hs'
  have hvalid := h.valid.editChunk ht'
  obtain ⟨-, -, rfl⟩ := Tables.editChunk_eq_some.1 ht'
  have hkeys : ∀ c ∈ updateWhere (fun c => c.id = chunkId) (fun c => editedChunk c newContent)
      s.tables.chunks, ∃ d ∈ s.tables.chunks, c.id = d.id ∧ c.unitType = d.unitType ∧
        c.unitId = d.unitId ∧ c.chunkTags = d.chunkTags ∧ (c.vectorId ≠ none → d.vectorId ≠ none) := by
    intro c hc
    obtain ⟨d, hd, rfl⟩ := mem_updateWhere.1 hc
    refine ⟨d, hd, ?_⟩
    split
    · exact ⟨rfl, rfl, rfl, rfl, fun hvector => absurd rfl hvector⟩
    · exact ⟨rfl, rfl, rfl, rfl, id⟩
  constructor
  · refine h.toVectored.tables hvalid le_rfl ?_ rfl rfl fun _ _ => id
    intro c hc
    obtain ⟨d, hd, hid, -, -, htags, hvector⟩ := hkeys c hc
    exact .inl ⟨d, hd, hid, htags, hvector⟩
  · exact h.fits
  · intro c hc
    obtain ⟨d, hd, -, htype, hunitId, htags, -⟩ := hkeys c hc
    exact tagged_of_same (s := s) htype hunitId htags rfl (fun _ => id) (h.tagged d hd)

/-! ## Entries -/

theorem unitTags_entry {t : Tables} {entryId : Nat} {entry : KnowledgeEntry}
    (h : t.getEntry entryId = some entry) :
    unitTags t .entry entryId = entry.tags ++ entry.autoTags := by
  show (t.getEntry entryId).elim [] _ = _
  rw [h]
  rfl

theorem tagged_of_computed {c : Chunk} {entry : KnowledgeEntry} (htype : c.unitType = .entry)
    (hentry : s.tables.getEntry c.unitId = some entry) (hfits : Fits entry.tags entry.autoTags)
    (htags : c.chunkTags = computeChunkTags entry.tags entry.autoTags) : s.Tagged c := by
  unfold Tagged
  rw [htype, unitTags_entry hentry, htags]
  exact ⟨hfits.nodup, hfits.mem_iff⟩

theorem seedRows_tags (entry : KnowledgeEntry) {next : Nat} {seeds : List ChunkSeed} :
    ∀ r ∈ seedRows .entry entry.id entry.knowledgeBaseId entry.reviewStatus
        (computeChunkTags entry.tags entry.autoTags) next seeds,
      r.vectorId = none ∧ r.chunkTags = computeChunkTags entry.tags entry.autoTags := by
  intro r hr
  obtain ⟨i, hi, rfl⟩ := List.mem_mapIdx.1 hr
  exact ⟨rfl, rfl⟩

/-- The unit of a chunk that is an entry. -/
theorem Vectored.entry_of_chunk (h : s.Vectored) {c : Chunk} (hc : c ∈ s.tables.chunks)
    (htype : c.unitType = .entry) : ∃ entry, s.tables.getEntry c.unitId = some entry := by
  have hunit := (h.valid.chunks c hc).2
  rw [htype] at hunit
  obtain ⟨entry, hentry, -⟩ := Option.map_eq_some_iff.1 hunit
  exact ⟨entry, hentry⟩

/-- The chunks of a new entry have its tags; the other units keep theirs. -/
theorem Tracked.createEntry (h : s.Tracked) {kbId : Nat} {title content : String}
    {tags : List String} {seeds : List ChunkSeed} (hfits : Fits tags [])
    (hs' : s.createEntry kbId title content tags seeds = some s') : s'.Tracked := by
  obtain ⟨t', ht', rfl⟩ := Option.map_eq_some_iff.1 hs'
  obtain ⟨kb, hkb, rfl⟩ := Tables.createEntry_eq_some ht'
  obtain ⟨hadded, hget⟩ := h.valid.addNewEntry hkb title content tags
  let entry := s.tables.newEntry kb title content tags
  let added := s.tables.addEntry entry
  have hkb' : added.unitKb .entry entry.id = some entry.knowledgeBaseId := Tables.unitKb_entry hget
  have hvalid := hadded.createChunksForEntry hkb' seeds
  have hswap := Tables.createChunksForEntry_swap (t := added) entry seeds
  have hchunks : ∀ c ∈ (added.createChunksForEntry entry seeds).chunks, c ∈ s.tables.chunks ∨
      added.next ≤ c.id ∧ c.unitType = .entry ∧ c.unitId = entry.id ∧ c.vectorId = none ∧
        c.chunkTags = computeChunkTags entry.tags entry.autoTags := by
    intro c hc
    rcases List.mem_append.1 hc with hold | hrow
    · exact .inl hold
    · obtain ⟨htype, hid, -⟩ := hswap.new.unit c hrow
      obtain ⟨hnone, htags⟩ := seedRows_tags entry c hrow
      exact .inr ⟨(hswap.new.fresh c hrow).1, htype, hid, hnone, htags⟩
  constructor
  · apply h.toVectored.tables hvalid
    · show s.tables.next ≤ s.tables.next + 1 + seeds.length
      omega
    · intro c hc
      rcases hchunks c hc with hold | ⟨hnew, -, -, hnone, htags⟩
      · exact .inl ⟨c, hold, rfl, rfl, id⟩
      · right
        rw [htags]
        exact ⟨Nat.le_of_succ_le hnew, hnone, hfits.stored⟩
    · rfl
    · rfl
    · exact fun _ _ => id
  · intro i e he
    change (s.tables.entries ++ [entry]).find? _ = some e at he
    rw [List.find?_append] at he
    rcases Option.or_eq_some_iff.1 he with hold | ⟨-, hnew⟩
    · exact h.fits i e hold
    · have hlast := List.mem_of_find?_eq_some hnew
      rw [List.mem_singleton.1 hlast]
      exact hfits
  · intro c hc
    rcases hchunks c hc with hold | ⟨-, htype, hid, -, htags⟩
    · have hunit : unitTags added c.unitType c.unitId = unitTags s.tables c.unitType c.unitId := by
        cases htype : c.unitType with
        | document => rfl
        | entry =>
            obtain ⟨e, he⟩ := h.entry_of_chunk hold htype
            have he' : added.getEntry c.unitId = some e := by
              show (s.tables.entries ++ [entry]).find? _ = some e
              rw [List.find?_append]
              show (s.tables.getEntry c.unitId).or _ = some e
              rw [he]
              rfl
            exact (unitTags_entry he').trans (unitTags_entry he).symm
      exact tagged_of_same (s := s) rfl rfl rfl hunit (fun _ => id) (h.tagged c hold)
    · left
      have hentry : added.getEntry c.unitId = some entry := by
        rw [hid]
        exact hget
      exact tagged_of_computed htype hentry hfits htags

section UpdateEntry

variable {entryId : Nat} {entry : KnowledgeEntry} (payload : EntryPayload)

theorem getEntry_saved (hentry : s.tables.getEntry entryId = some entry) :
    (s.tables.saveEntry entry payload).getEntry entryId =
      some (updatedEntry entry payload (s.tables.reviewRequired entry.knowledgeBaseId)) := by
  rw [Tables.getEntry_saveEntry, hentry, Option.map_some, if_pos (Tables.getEntry_eq_some hentry).2.symm]

theorem getEntry_saved_of_ne (hentry : s.tables.getEntry entryId = some entry) {i : Nat}
    (hi : i ≠ entryId) :
    (s.tables.saveEntry entry payload).getEntry i = s.tables.getEntry i := by
  have hne : i ≠ entry.id := fun heq => hi (heq.trans (Tables.getEntry_eq_some hentry).2)
  rw [Tables.getEntry_saveEntry]
  simp only [if_neg hne, Option.map_id']

theorem unitTags_saved_of_ne (hentry : s.tables.getEntry entryId = some entry) {c : Chunk}
    (hc : c.inUnit .entry entryId = false) :
    unitTags (s.tables.saveEntry entry payload) c.unitType c.unitId =
      unitTags s.tables c.unitType c.unitId := by
  cases htype : c.unitType with
  | document => rfl
  | entry =>
      have hne : c.unitId ≠ entryId := Chunk.unitId_ne_of_inUnit_eq_false hc htype
      show ((s.tables.saveEntry entry payload).getEntry c.unitId).elim [] _ = _
      rw [getEntry_saved_of_ne payload hentry hne]
      rfl

theorem fits_saved (h : s.Tracked) (hentry : s.tables.getEntry entryId = some entry)
    (hfits : Fits (payload.tags.getD entry.tags) entry.autoTags) :
    ∀ i e, (s.tables.saveEntry entry payload).getEntry i = some e → Fits e.tags e.autoTags := by
  intro i e he
  by_cases hi : i = entryId
  · rw [hi, getEntry_saved payload hentry] at he
    cases he
    exact hfits
  · rw [getEntry_saved_of_ne payload hentry hi] at he
    exact h.fits i e he

/-- The rows that an update of the entry leaves are from before. -/
theorem mem_saved (h : s.Tracked) (hentry : s.tables.getEntry entryId = some entry) {c : Chunk}
    (hc : c ∈ (s.tables.saveEntry entry payload).chunks) :
    ∃ d ∈ s.tables.chunks, ∃ gone, c = d.detach gone := by
  rw [(Tables.saveEntry_swap h.valid hentry payload).chunks, List.append_nil] at hc
  obtain ⟨d, hd, -, gone, hcd⟩ := mem_deleteChunks hc
  exact ⟨d, hd, gone, hcd⟩

end UpdateEntry

theorem tagged_detach {d : Chunk} (gone : List Nat)
    (hunit : unitTags s'.tables d.unitType d.unitId = unitTags s.tables d.unitType d.unitId)
    (hrefreshes : ∀ i ∈ s.refreshes, i ∈ s'.refreshes) (h : s.Tagged d ∨ s.Refreshed d) :
    s'.Tagged (d.detach gone) ∨ s'.Refreshed (d.detach gone) :=
  tagged_of_same (detach_unitType gone d) (detach_unitId gone d) (detach_chunkTags gone d) hunit
    hrefreshes h

/-- New chunks have the new tags; old ones wait for a refresh if the tags changed. -/
theorem Tracked.updateEntry (h : s.Tracked) {entryId : Nat} {payload : EntryPayload}
    {seeds : List ChunkSeed} (hfits : ∀ entry, s.tables.getEntry entryId = some entry →
      Fits (payload.tags.getD entry.tags) entry.autoTags)
    (hs' : s.updateEntry entryId payload seeds = some s') : s'.Tracked := by
  obtain ⟨entry, hentry, hs'⟩ := Option.bind_eq_some_iff.1 hs'
  obtain ⟨t', ht', hs'⟩ := Option.map_eq_some_iff.1 hs'
  obtain ⟨entry', hentry', ht'⟩ := Tables.updateEntry_eq_some.1 ht'
  rw [hentry] at hentry'
  cases hentry'
  let saved := s.tables.saveEntry entry payload
  let updated := updatedEntry entry payload (s.tables.reviewRequired entry.knowledgeBaseId)
  have hid : entry.id = entryId := (Tables.getEntry_eq_some hentry).2
  have hupdated : saved.getEntry entryId = some updated := getEntry_saved payload hentry
  have hnewFits : Fits updated.tags updated.autoTags := hfits entry hentry
  have hvalid : saved.Valid := h.valid.saveEntry hentry payload
  have hnext : saved.next = s.tables.next := Tables.saveEntry_next entry payload
  have hrows : ∀ c ∈ saved.chunks, s.RowOf c := by
    intro c hc
    obtain ⟨d, hd, gone, rfl⟩ := mem_saved payload h hentry hc
    exact rowOf_detach hd gone
  by_cases hnone : saved.unitRows .entry entryId = 0
  · rw [if_pos hnone] at hs' ht'
    cases hs'
    cases ht'
    have hswap := Tables.createChunksForEntry_swap (t := saved) updated seeds
    have hkb : saved.unitKb .entry updated.id = some updated.knowledgeBaseId := by
      show saved.unitKb .entry entry.id = _
      rw [hid]
      exact Tables.unitKb_entry hupdated
    refine ⟨h.toVectored.tables (hvalid.createChunksForEntry hkb seeds) ?_ ?_ rfl rfl fun _ _ => id,
      fits_saved payload h hentry (hfits entry hentry), ?_⟩
    · show s.tables.next ≤ saved.next + seeds.length
      omega
    · intro c hc
      rcases List.mem_append.1 hc with hold | hrow
      · exact hrows c hold
      · obtain ⟨hvector, htags⟩ := seedRows_tags updated c hrow
        have hnew := (hswap.new.fresh c hrow).1
        right
        rw [htags, ← hnext]
        exact ⟨hnew, hvector, hnewFits.stored⟩
    · intro c hc
      rcases List.mem_append.1 hc with hold | hrow
      · have hout : c.inUnit .entry entryId = false := by
          have hzero := List.countP_eq_zero.1 hnone c hold
          exact Bool.not_eq_true _ ▸ hzero
        obtain ⟨d, hd, gone, rfl⟩ := mem_saved payload h hentry hold
        rw [detach_inUnit] at hout
        exact tagged_detach (s := s) gone (unitTags_saved_of_ne payload hentry hout) (fun _ => id)
          (h.tagged d hd)
      · left
        obtain ⟨htype, hunitId, -⟩ := hswap.new.unit c hrow
        have hget : saved.getEntry c.unitId = some updated := by
          rw [hunitId]
          show saved.getEntry entry.id = _
          rw [hid]
          exact hupdated
        exact tagged_of_computed htype hget hnewFits (seedRows_tags updated c hrow).2
  · rw [if_neg hnone] at hs' ht'
    cases ht'
    have hvectored : Vectored { s with tables := saved } :=
      h.toVectored.tables hvalid hnext.ge hrows rfl rfl fun _ _ => id
    by_cases hchanged : entry.tags ≠ payload.tags.getD entry.tags
    · rw [if_pos hchanged] at hs'
      cases hs'
      refine ⟨⟨hvalid, hvectored.stored, hvectored.read, hvectored.vectors⟩,
        fits_saved payload h hentry (hfits entry hentry), ?_⟩
      intro c hc
      obtain ⟨d, hd, gone, rfl⟩ := mem_saved payload h hentry hc
      cases hin : d.inUnit .entry entryId with
      | true =>
          right
          have hunit : d.unitType = .entry ∧ d.unitId = entryId := Chunk.inUnit_iff.1 hin
          unfold Refreshed
          rw [detach_unitType, detach_unitId, hunit.2]
          exact ⟨hunit.1, List.mem_append_right _ (List.mem_singleton_self _)⟩
      | false =>
          exact tagged_detach (s := s) gone (unitTags_saved_of_ne payload hentry hin)
            (fun _ hi => List.mem_append_left _ hi) (h.tagged d hd)
    · rw [if_neg hchanged] at hs'
      cases hs'
      refine ⟨hvectored, fits_saved payload h hentry (hfits entry hentry), ?_⟩
      intro c hc
      obtain ⟨d, hd, gone, rfl⟩ := mem_saved payload h hentry hc
      have hunit : unitTags saved d.unitType d.unitId = unitTags s.tables d.unitType d.unitId := by
        cases hin : d.inUnit .entry entryId with
        | false => exact unitTags_saved_of_ne payload hentry hin
        | true =>
            have hunit : d.unitType = .entry ∧ d.unitId = entryId := Chunk.inUnit_iff.1 hin
            have htags : updated.tags = entry.tags := (not_not.1 hchanged).symm
            rw [hunit.1, hunit.2, unitTags_entry hupdated, unitTags_entry hentry, htags]
            rfl
      exact tagged_detach (s := s) gone hunit (fun _ => id) (h.tagged d hd)

theorem Tracked.deleteEntry (h : s.Tracked) {entryId : Nat} (hs' : s.deleteEntry entryId = some s') :
    s'.Tracked := by
  obtain ⟨entry, hentry, rfl⟩ := Option.map_eq_some_iff.1 hs'
  have hget : ∀ i, (s.tables.cascadeDeleteUnit .entry entryId).getEntry i =
      if i = entryId then none else s.tables.getEntry i := by
    intro i
    exact find?_filter_ne entryId i
  have hchunks : ∀ c ∈ (s.tables.cascadeDeleteUnit .entry entryId).chunks, ∃ d ∈ s.tables.chunks,
      d.inUnit .entry entryId = false ∧ ∃ gone, c = d.detach gone := fun c hc => mem_deleteChunks hc
  constructor
  · refine h.toVectored.tables (h.valid.cascadeDeleteUnit .entry entryId) le_rfl ?_ rfl rfl
      fun _ _ => id
    intro c hc
    obtain ⟨d, hd, -, gone, rfl⟩ := hchunks c hc
    exact rowOf_detach hd gone
  · intro i e he
    rw [hget] at he
    obtain ⟨-, he⟩ := Option.ite_none_left_eq_some.1 he
    exact h.fits i e he
  · intro c hc
    obtain ⟨d, hd, hout, gone, rfl⟩ := hchunks c hc
    have hunit : unitTags (s.tables.cascadeDeleteUnit .entry entryId) d.unitType d.unitId =
        unitTags s.tables d.unitType d.unitId := by
      cases htype : d.unitType with
      | document => rfl
      | entry =>
          have hne : d.unitId ≠ entryId := Chunk.unitId_ne_of_inUnit_eq_false hout htype
          show ((s.tables.cascadeDeleteUnit .entry entryId).getEntry d.unitId).elim [] _ = _
          rw [hget, if_neg hne]
          rfl
    exact tagged_detach (s := s) gone hunit (fun _ => id) (h.tagged d hd)

end TagStores

end OpsKnowledge.Tagging
