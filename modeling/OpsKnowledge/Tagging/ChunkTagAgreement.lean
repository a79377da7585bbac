import OpsKnowledge.Tagging.ChunkTagCommits

/-!
# Agreement of the tags of chunks

The writes of tags, the embeddings and the updates of the collection keep the invariant too, as long
as the tags fit and no step leaves a vector behind.
-/

namespace OpsKnowledge.Tagging

open OpsKnowledge.Lib
open OpsKnowledge.Knowledge

namespace TagStores

variable {s s' : TagStores}

/-! ## Writes of tags -/

theorem mem_embeddedIds {entryId : Nat} {chunks : List Chunk} {c : Chunk} (hc : c ∈ chunks)
    (hin : c.inUnit .entry entryId = true) (hvector : c.vectorId ≠ none) :
    c.id ∈ embeddedIds entryId chunks := by
  apply List.mem_map_of_mem
  rw [List.mem_filter, hin, Bool.true_and, Option.isSome_iff_ne_none]
  exact ⟨hc, hvector⟩

theorem updates_subset (s : TagStores) (entry : KnowledgeEntry) (synced : Bool) :
    s.updates ⊆ (s.writeChunkTags entry synced).updates := by
  unfold writeChunkTags
  dsimp only
  split
  · exact List.subset_append_left _ _
  · exact fun _ => id

/-- The update that a writer leaves reaches every chunk of the entry that has a vector. -/
theorem brings_written {entry : KnowledgeEntry} (hfits : Fits entry.tags entry.autoTags) {c d : Chunk}
    (hc : c ∈ s.tables.chunks) (hin : c.inUnit .entry entry.id = true) (hvector : c.vectorId ≠ none)
    (hid : d.id = c.id) (htags : d.chunkTags = computeChunkTags entry.tags entry.autoTags) :
    Brings (s.writeChunkTags entry true).updates d := by
  have hmem := mem_embeddedIds hc hin hvector
  have hne : (embeddedIds entry.id s.tables.chunks).isEmpty = false := by
    rw [List.isEmpty_eq_false_iff]
    exact List.ne_nil_of_mem hmem
  let u : TagUpdate :=
    { ids := embeddedIds entry.id s.tables.chunks
      tags := computeChunkTags entry.tags entry.autoTags }
  have hu : u ∈ (s.writeChunkTags entry true).updates := by
    unfold writeChunkTags
    dsimp only
    rw [hne]
    exact List.mem_append_right _ (List.mem_singleton_self u)
  have hreaches : Reaches u d.id := by
    constructor
    · rw [hid]
      exact hmem
    · intro rows hrows
      cases hrows
  exact ⟨u, hu, hreaches, hfits.stored.trans htags.symm⟩

theorem valid_writeChunkTags (entry : KnowledgeEntry) (synced : Bool) (h : s.tables.Valid) :
    (s.writeChunkTags entry synced).tables.Valid :=
  h.write ⟨le_rfl, rfl, rfl⟩ rfl fun _ => ⟨rfl, rfl, rfl, rfl⟩

theorem Vectored.writeChunkTags (h : s.Vectored) {entry : KnowledgeEntry} {synced : Bool}
    (hkeeps : s.WriteKeeps entry synced) : (s.writeChunkTags entry synced).Vectored := by
  obtain ⟨hfits, hkeeps⟩ := hkeeps
  let tags := computeChunkTags entry.tags entry.autoTags
  have hchunks : ∀ c ∈ (s.writeChunkTags entry synced).tables.chunks, ∃ d ∈ s.tables.chunks,
      c.id = d.id ∧ c.vectorId = d.vectorId ∧
        (d.inUnit .entry entry.id = true ∧ c.chunkTags = tags ∨
          d.inUnit .entry entry.id = false ∧ c.chunkTags = d.chunkTags) := by
    intro c hc
    obtain ⟨d, hd, rfl⟩ := mem_updateWhere.1 hc
    refine ⟨d, hd, ?_⟩
    cases hin : d.inUnit .entry entry.id with
    | true => exact ⟨rfl, rfl, .inl ⟨rfl, rfl⟩⟩
    | false => exact ⟨rfl, rfl, .inr ⟨rfl, rfl⟩⟩
  refine ⟨valid_writeChunkTags entry synced h.valid, ?_, ?_, ?_⟩
  · intro c hc
    obtain ⟨d, hd, -, -, ⟨-, htags⟩ | ⟨-, htags⟩⟩ := hchunks c hc
    · rw [htags]
      exact hfits.stored
    · rw [htags]
      exact h.stored d hd
  · intro task htask r hr
    obtain ⟨hlt, hsame⟩ := h.read task htask r hr
    refine ⟨hlt, ?_⟩
    intro c hc hid
    obtain ⟨d, hd, hcd, -, ⟨hin, htags⟩ | ⟨-, htags⟩⟩ := hchunks c hc
    · rw [htags]
      rcases hkeeps d hd hin with hold | ⟨hread, -⟩
      · exact (hsame d hd (hcd.symm.trans hid)).trans hold
      · exact absurd ⟨task, htask, r, hr, hid.symm.trans hcd⟩ hread
    · rw [htags]
      exact hsame d hd (hcd.symm.trans hid)
  · intro c hc hvector row hrow
    obtain ⟨d, hd, hcd, hvectorId, hcase⟩ := hchunks c hc
    have hvector' : d.vectorId ≠ none ∨ s.Stored d.id := by
      rw [hvectorId, hcd] at hvector
      exact hvector
    have hrow' : s.live d.id = some row := by
      rw [← hcd]
      exact hrow
    -- the row is as good as before where the tags of the chunk are
    have hkept : c.chunkTags = d.chunkTags →
        row.chunkTags = c.chunkTags ∨ Brings (s.writeChunkTags entry synced).updates c := by
      intro htags
      rcases h.vectors d hd hvector' row hrow' with hsame | hbrings
      · exact .inl (hsame.trans htags.symm)
      · exact .inr ((hbrings.of_same hcd htags).mono (updates_subset s entry synced))
    rcases hcase with ⟨hin, htags⟩ | ⟨-, htags⟩
    · rcases hkeeps d hd hin with hold | ⟨hread, hsynced⟩
      · exact hkept (htags.trans hold.symm)
      · have hembedded : d.vectorId ≠ none :=
          hvector'.resolve_right fun hstored => hread hstored.read
        rcases hsynced with hnone | rfl
        · exact absurd hnone hembedded
        · exact .inr (brings_written hfits hd hin hembedded hcd htags)
    · exact hkept htags

/-- After the write the chunks of the entry have its tags. -/
theorem Vectored.written (h : s.Vectored) {entry : KnowledgeEntry} {synced : Bool}
    (hkeeps : s.WriteKeeps entry synced)
    (hfits : ∀ i e, s.tables.getEntry i = some e → Fits e.tags e.autoTags)
    (hunit : unitTags s.tables .entry entry.id = entry.tags ++ entry.autoTags)
    (hother : ∀ c ∈ s.tables.chunks, c.inUnit .entry entry.id = false → s.Tagged c ∨ s.Refreshed c) :
    (s.writeChunkTags entry synced).Tracked := by
  refine ⟨h.writeChunkTags hkeeps, hfits, ?_⟩
  intro c hc
  obtain ⟨d, hd, rfl⟩ := mem_updateWhere.1 hc
  cases hin : d.inUnit .entry entry.id with
  | true =>
      have hkeys : d.unitType = .entry ∧ d.unitId = entry.id := Chunk.inUnit_iff.1 hin
      left
      show (computeChunkTags entry.tags entry.autoTags).Nodup ∧ ∀ tag, _ ↔
        tag ∈ unitTags s.tables d.unitType d.unitId
      rw [hkeys.1, hkeys.2, hunit]
      exact ⟨hkeeps.1.nodup, hkeeps.1.mem_iff⟩
  | false => exact hother d hd hin

section SaveTags

variable (entry : KnowledgeEntry)

theorem getEntry_saveTags (i : Nat) : (s.saveTags entry).tables.getEntry i =
    (s.tables.getEntry i).map fun e =>
      if i = entry.id then { e with tags := entry.tags, autoTags := entry.autoTags } else e := by
  apply find?_updateWhere
  intro e
  rfl

theorem valid_saveTags (h : s.tables.Valid) : (s.saveTags entry).tables.Valid := by
  refine h.same_chunks ⟨le_rfl, rfl, ?_⟩ rfl
  funext unitType unitId
  cases unitType with
  | document => rfl
  | entry =>
      show ((s.saveTags entry).tables.getEntry unitId).map _ = (s.tables.getEntry unitId).map _
      rw [getEntry_saveTags, Option.map_map]
      congr 1
      funext e
      by_cases hid : unitId = entry.id
      · simp [hid]
      · simp [hid]

/-- A request or a task that changes the tags of an entry and those of its chunks. -/
theorem Tracked.saved (h : s.Tracked) {old : KnowledgeEntry}
    (hold : s.tables.getEntry entry.id = some old) {synced : Bool}
    (hkeeps : s.WriteKeeps entry synced) :
    ((s.saveTags entry).writeChunkTags entry synced).Tracked := by
  have hvectored : (s.saveTags entry).Vectored :=
    ⟨valid_saveTags entry h.valid, h.stored, h.read, h.vectors⟩
  apply hvectored.written hkeeps
  · intro i e he
    rw [getEntry_saveTags] at he
    obtain ⟨e', he', rfl⟩ := Option.map_eq_some_iff.1 he
    by_cases hi : i = entry.id
    · rw [if_pos hi]
      exact hkeeps.1
    · rw [if_neg hi]
      exact h.fits i e' he'
  · have hget := getEntry_saveTags (s := s) entry entry.id
    rw [hold, Option.map_some, if_pos rfl] at hget
    exact (unitTags_entry hget).trans rfl
  · intro c hc hout
    have hunit : unitTags (s.saveTags entry).tables c.unitType c.unitId =
        unitTags s.tables c.unitType c.unitId := by
      cases htype : c.unitType with
      | document => rfl
      | entry =>
          have hne : c.unitId ≠ entry.id := Chunk.unitId_ne_of_inUnit_eq_false hout htype
          show ((s.saveTags entry).tables.getEntry c.unitId).elim [] _ = _
          rw [getEntry_saveTags]
          simp only [if_neg hne, Option.map_id']
          rfl
    exact tagged_of_same (s := s) rfl rfl rfl hunit (fun _ => id) (h.tagged c hc)

end SaveTags

/-- What only the extractions are for. -/
theorem Tracked.withExtractions (h : s.Tracked) (extractions : List Extraction) :
    Tracked { s with extractions := extractions } :=
  ⟨⟨h.valid, h.stored, h.read, h.vectors⟩, h.fits, h.tagged⟩

theorem Tracked.acceptAutoTag (h : s.Tracked) {entryId : Nat} {tag : String}
    (hkeeps : ∀ entry, s.tables.getEntry entryId = some entry →
      s.WriteKeeps (acceptedEntry entry tag) false)
    (hs' : s.acceptAutoTag entryId tag = some s') : s'.Tracked := by
  obtain ⟨entry, hentry, rfl⟩ := Option.map_eq_some_iff.1 hs'
  have hid : (acceptedEntry entry tag).id = entryId := (Tables.getEntry_eq_some hentry).2
  have hold : s.tables.getEntry (acceptedEntry entry tag).id = some entry := by
    rw [hid]
    exact hentry
  exact h.saved _ hold (hkeeps entry hentry)

theorem Tracked.rejectAutoTag (h : s.Tracked) {entryId : Nat} {tag : String}
    (hkeeps : ∀ entry, s.tables.getEntry entryId = some entry →
      s.WriteKeeps (rejectedEntry entry tag) false)
    (hs' : s.rejectAutoTag entryId tag = some s') : s'.Tracked := by
  obtain ⟨entry, hentry, rfl⟩ := Option.map_eq_some_iff.1 hs'
  have hid : (rejectedEntry entry tag).id = entryId := (Tables.getEntry_eq_some hentry).2
  have hold : s.tables.getEntry (rejectedEntry entry tag).id = some entry := by
    rw [hid]
    exact hentry
  exact h.saved _ hold (hkeeps entry hentry)

theorem Tracked.finishExtract (h : s.Tracked) {k : Nat}
    (hkeeps : ∀ run, s.extractions[k]? = some run → ∀ found, run.found = some found →
      ∀ entry, s.tables.getEntry run.entryId = some entry →
        s.WriteKeeps { entry with autoTags := found } (run.changed found))
    (hs' : s.finishExtract k = some s') : s'.Tracked := by
  obtain ⟨run, hrun, hs'⟩ := Option.bind_eq_some_iff.1 hs'
  obtain ⟨found, hfound, rfl⟩ := Option.map_eq_some_iff.1 hs'
  have hleft := h.withExtractions (s.extractions.eraseIdx k)
  cases hentry : s.tables.getEntry run.entryId with
  | none =>
      dsimp only
      exact hleft
  | some entry =>
      dsimp only
      have hid : entry.id = run.entryId := (Tables.getEntry_eq_some hentry).2
      have hold : s.tables.getEntry entry.id = some entry := by
        rw [hid]
        exact hentry
      exact hleft.saved { entry with autoTags := found } hold
        (hkeeps run hrun found hfound entry hentry)

/-- The other refreshes stay queued. -/
theorem refreshed_erase {k entryId : Nat} (hk : s.refreshes[k]? = some entryId) {c : Chunk}
    (hout : c.inUnit .entry entryId = false) (h : s.Refreshed c) :
    c.unitType = .entry ∧ c.unitId ∈ s.refreshes.eraseIdx k := by
  obtain ⟨hentry, hmem⟩ := h
  obtain ⟨i, hi⟩ := List.getElem?_of_mem hmem
  have hne : i ≠ k := by
    rintro rfl
    rw [hk] at hi
    cases hi
    simp [Chunk.inUnit, hentry] at hout
  exact ⟨hentry, List.mem_eraseIdx_iff_getElem?.2 ⟨i, hne, hi⟩⟩

theorem Tracked.refreshUserTags (h : s.Tracked) {k : Nat}
    (hkeeps : ∀ entryId, s.refreshes[k]? = some entryId →
      ∀ entry, s.tables.getEntry entryId = some entry → s.WriteKeeps entry true)
    (hs' : s.refreshUserTags k = some s') : s'.Tracked := by
  obtain ⟨entryId, hk, rfl⟩ := Option.map_eq_some_iff.1 hs'
  have hvectored : Vectored { s with refreshes := s.refreshes.eraseIdx k } :=
    ⟨h.valid, h.stored, h.read, h.vectors⟩
  have hother : ∀ c ∈ s.tables.chunks, c.inUnit .entry entryId = false →
      s.Tagged c ∨ c.unitType = .entry ∧ c.unitId ∈ s.refreshes.eraseIdx k := by
    intro c hc hout
    rcases h.tagged c hc with htagged | hrefreshed
    · exact .inl htagged
    · exact .inr (refreshed_erase hk hout hrefreshed)
  cases hentry : s.tables.getEntry entryId with
  | none =>
      dsimp only
      refine ⟨hvectored, h.fits, ?_⟩
      intro c hc
      apply hother c hc
      -- a chunk of an entry that is gone would have no unit
      cases hin : c.inUnit .entry entryId with
      | false => rfl
      | true =>
          have hunit : c.unitType = .entry ∧ c.unitId = entryId := Chunk.inUnit_iff.1 hin
          obtain ⟨e, he⟩ := h.entry_of_chunk hc hunit.1
          rw [hunit.2, hentry] at he
          cases he
  | some entry =>
      dsimp only
      have hid : entry.id = entryId := (Tables.getEntry_eq_some hentry).2
      apply hvectored.written (hkeeps entryId hk entry hentry) h.fits
      · rw [hid]
        exact unitTags_entry hentry
      · rw [hid]
        exact hother

/-! ## Embeddings -/

theorem Tracked.startEmbed (h : s.Tracked) (unitType : UnitType) (unitId : Nat) :
    (s.startEmbed unitType unitId).Tracked := by
  unfold TagStores.startEmbed
  dsimp only
  split
  · exact h
  · refine ⟨⟨h.valid, h.stored, ?_, ?_⟩, h.fits, h.tagged⟩
    · intro task htask d hd
      rcases mem_concat.1 htask with hold | rfl
      · exact h.read task hold d hd
      · rw [List.append_nil] at hd
        have hchunk := (mem_unembedded.1 hd).1
        refine ⟨(h.valid.chunks d hchunk).1, ?_⟩
        intro c hc hid
        rw [h.valid.eq_of_id hc hchunk hid]
    · intro c hc hvector
      apply h.vectors c hc
      rcases hvector with hvector | ⟨task, htask, d, hd, hid⟩
      · exact .inl hvector
      · rcases mem_concat.1 htask with hold | rfl
        · exact .inr ⟨task, hold, d, hd, hid⟩
        · cases hd

/-- A batch stores the tags that the chunks have. -/
theorem Tracked.embedBatch (h : s.Tracked) {k : Nat} {threshold : Int}
    (hs' : s.embedBatch k threshold = some s') : s'.Tracked := by
  obtain ⟨task, htask, hs'⟩ := Option.bind_eq_some_iff.1 hs'
  cases hpending : task.pending.isEmpty with
  | true =>
      rw [if_pos hpending] at hs'
      cases hs'
  | false =>
      rw [if_neg (by simp [hpending])] at hs'
      cases hs'
      have hmem := List.mem_of_getElem? htask
      refine ⟨⟨h.valid, h.stored, ?_, ?_⟩, h.fits, h.tagged⟩
      · intro other hother d hd
        rcases List.mem_or_eq_of_mem_set hother with hold | rfl
        · exact h.read other hold d hd
        · exact h.read task hmem d (mem_next.1 hd)
      · intro c hc hvector row hrow
        change storeBatch threshold (task.pending.take batchSize) s.live c.id = some row at hrow
        rcases storeBatch_cases threshold (task.pending.take batchSize) s.live c.id with
          ⟨d, hd, hid, hstored⟩ | ⟨hout, hsame⟩
        · left
          rw [hstored] at hrow
          cases hrow
          have hread := (h.read task hmem d
            (List.mem_append_left _ (List.mem_of_mem_take hd))).2 c hc hid.symm
          show storedTags d.chunkTags = c.chunkTags
          rw [hread]
          exact h.stored c hc
        · rw [hsame] at hrow
          refine h.vectors c hc ?_ row hrow
          rcases hvector with hvector | ⟨other, hother, d, hd, hid⟩
          · exact .inl hvector
          · right
            rcases List.mem_or_eq_of_mem_set hother with hold | rfl
            · exact ⟨other, hold, d, hd, hid⟩
            · rcases mem_next_stored hd with hold | hbatch
              · exact ⟨task, hmem, d, hold, hid⟩
              · exact absurd hid (hout d hbatch)

theorem Tracked.failEmbed (h : s.Tracked) (k : Nat) : (s.failEmbed k).Tracked := by
  refine ⟨⟨h.valid, h.stored, ?_, ?_⟩, h.fits, h.tagged⟩
  · intro task htask
    exact h.read task (List.mem_of_mem_eraseIdx htask)
  · intro c hc hvector
    apply h.vectors c hc
    rcases hvector with hvector | ⟨task, htask, hstored⟩
    · exact .inl hvector
    · exact .inr ⟨task, List.mem_of_mem_eraseIdx htask, hstored⟩

/-- The chunks that get a `vector_id` are stored. -/
theorem Tracked.finishEmbed (h : s.Tracked) {k : Nat} (hs' : s.finishEmbed k = some s') :
    s'.Tracked := by
  obtain ⟨task, htask, hs'⟩ := Option.bind_eq_some_iff.1 hs'
  cases hpending : task.pending.isEmpty with
  | false =>
      rw [if_neg (by simp [hpending])] at hs'
      cases hs'
  | true =>
      rw [if_pos hpending] at hs'
      cases hs'
      have hfailed := h.failEmbed k
      have hchunks : ∀ c ∈ setVectorIds task.stored s.tables.chunks, ∃ d ∈ s.tables.chunks,
          c.id = d.id ∧ c.unitType = d.unitType ∧ c.unitId = d.unitId ∧
            c.chunkTags = d.chunkTags ∧ (c.vectorId ≠ none → d.vectorId ≠ none ∨ s.Stored d.id) := by
        intro c hc
        obtain ⟨d, hd, rfl⟩ := mem_updateWhere.1 hc
        refine ⟨d, hd, ?_⟩
        split
        · next hin =>
            obtain ⟨r, hr, hid⟩ := List.mem_map.1 (of_decide_eq_true hin)
            exact ⟨rfl, rfl, rfl, rfl, fun _ => .inr ⟨task, List.mem_of_getElem? htask, r, hr, hid⟩⟩
        · exact ⟨rfl, rfl, rfl, rfl, .inl⟩
      refine ⟨⟨h.valid.write ⟨le_rfl, rfl, rfl⟩ rfl fun _ => ⟨rfl, rfl, rfl, rfl⟩, ?_, ?_, ?_⟩,
        h.fits, ?_⟩
      · intro c hc
        obtain ⟨d, hd, -, -, -, htags, -⟩ := hchunks c hc
        rw [htags]
        exact h.stored d hd
      · intro other hother d hd
        obtain ⟨hlt, hsame⟩ := hfailed.read other hother d hd
        refine ⟨hlt, ?_⟩
        intro c hc hid
        obtain ⟨e, he, hce, -, -, htags, -⟩ := hchunks c hc
        rw [htags]
        exact hsame e he (hce.symm.trans hid)
      · intro c hc hvector row hrow
        obtain ⟨d, hd, hid, -, -, htags, hset⟩ := hchunks c hc
        have hvector' : d.vectorId ≠ none ∨ s.Stored d.id := by
          rcases hvector with hvector | ⟨other, hother, r, hr, hrid⟩
          · exact hset hvector
          · exact .inr ⟨other, List.mem_of_mem_eraseIdx hother, r, hr, hrid.trans hid⟩
        have hrow' : s.live d.id = some row := by
          rw [← hid]
          exact hrow
        rcases h.vectors d hd hvector' row hrow' with hsame | hbrings
        · exact .inl (hsame.trans htags.symm)
        · exact .inr (hbrings.of_same hid htags)
      · intro c hc
        obtain ⟨d, hd, -, htype, hunitId, htags, -⟩ := hchunks c hc
        exact tagged_of_same (s := s) htype hunitId htags rfl (fun _ => id) (h.tagged d hd)

/-! ## Updates of the collection -/

/-- What the collection and the updates are for. -/
theorem Tracked.withLive (h : s.Tracked) {live : Collection} {updates : List TagUpdate}
    {purges : List Nat} (hvectors : ∀ c ∈ s.tables.chunks, c.vectorId ≠ none ∨ s.Stored c.id →
      ∀ row, live c.id = some row → row.chunkTags = c.chunkTags ∨ Brings updates c) :
    Tracked { s with live := live, updates := updates, purges := purges } :=
  ⟨⟨h.valid, h.stored, h.read, hvectors⟩, h.fits, h.tagged⟩

/-- An update other than the k-th one. -/
theorem brings_cases {k : Nat} {u : TagUpdate} (hk : s.updates[k]? = some u) {c : Chunk}
    (h : Brings s.updates c) :
    Reaches u c.id ∧ storedTags u.tags = c.chunkTags ∨ Brings (s.updates.eraseIdx k) c := by
  obtain ⟨v, hv, hreaches, htags⟩ := h
  obtain ⟨i, hi⟩ := List.getElem?_of_mem hv
  by_cases hik : i = k
  · left
    rw [hik, hk] at hi
    cases hi
    exact ⟨hreaches, htags⟩
  · right
    exact ⟨v, List.mem_eraseIdx_iff_getElem?.2 ⟨i, hik, hi⟩, hreaches, htags⟩

theorem Tracked.queryTags (h : s.Tracked) {k : Nat} (hs' : s.queryTags k = some s') :
    s'.Tracked := by
  obtain ⟨u, hk, hs'⟩ := Option.bind_eq_some_iff.1 hs'
  cases hrows : u.rows with
  | some rows =>
      rw [if_pos (by simp [hrows])] at hs'
      cases hs'
  | none =>
      rw [if_neg (by simp [hrows])] at hs'
      cases hs'
      apply h.withLive
      intro c hc hvector row hrow
      rcases h.vectors c hc hvector row hrow with hsame | hbrings
      · exact .inl hsame
      · right
        have hlt : k < s.updates.length := (List.getElem?_eq_some_iff.1 hk).1
        rcases brings_cases hk hbrings with ⟨hreaches, htags⟩ | ⟨v, hv, hreaches, htags⟩
        · -- the row is there to be found
          refine ⟨_, List.mem_set hlt _, ⟨hreaches.1, ?_⟩, htags⟩
          intro rows hfound
          cases hfound
          refine ⟨row, List.mem_filterMap.2 ⟨c.id, hreaches.1, ?_⟩⟩
          rw [hrow]
          rfl
        · obtain ⟨i, hne, hi⟩ := List.mem_eraseIdx_iff_getElem?.1 hv
          have hmem : v ∈ s.updates.set k { u with rows := some (u.found s.live) } := by
            apply List.mem_of_getElem? (i := i)
            rw [List.getElem?_set_ne (Ne.symm hne)]
            exact hi
          exact ⟨v, hmem, hreaches, htags⟩

/-- The rows that are written have the tags of the chunks, or another update does. -/
theorem Tracked.upsertTags (h : s.Tracked) {k : Nat}
    (hkeeps : ∀ u, s.updates[k]? = some u → ∀ rows, u.rows = some rows →
      ∀ c ∈ s.tables.chunks, (∃ row, (c.id, row) ∈ rows) →
        storedTags u.tags = c.chunkTags ∨ Brings (s.updates.eraseIdx k) c)
    (hs' : s.upsertTags k = some s') : s'.Tracked := by
  obtain ⟨u, hk, hs'⟩ := Option.bind_eq_some_iff.1 hs'
  obtain ⟨rows, hrows, rfl⟩ := Option.map_eq_some_iff.1 hs'
  apply h.withLive
  intro c hc hvector row hrow
  rcases Store.upsert_cases s.live (u.retagged rows) c.id with ⟨new, hnew, heq⟩ | ⟨hout, heq⟩
  · rw [heq] at hrow
    cases hrow
    obtain ⟨found, hfound, hpair⟩ := List.mem_map.1 hnew
    obtain ⟨hid, rfl⟩ := Prod.mk.inj hpair
    have hmem : (c.id, found.2) ∈ rows := by
      rw [← hid]
      exact hfound
    exact hkeeps u hk rows hrows c hc ⟨found.2, hmem⟩
  · rw [heq] at hrow
    rcases h.vectors c hc hvector row hrow with hsame | hbrings
    · exact .inl hsame
    · right
      rcases brings_cases hk hbrings with ⟨hreaches, -⟩ | hother
      · obtain ⟨found, hfound⟩ := hreaches.2 rows hrows
        exact absurd (List.mem_map_of_mem hfound) (hout _)
      · exact hother

theorem Tracked.failTags (h : s.Tracked) {k : Nat}
    (hkeeps : ∀ u, s.updates[k]? = some u → ∀ c ∈ s.tables.chunks, c.id ∈ u.ids →
      (∀ row, s.live c.id = some row → row.chunkTags = c.chunkTags) ∨
        Brings (s.updates.eraseIdx k) c) : (s.failTags k).Tracked := by
  apply h.withLive
  intro c hc hvector row hrow
  rcases h.vectors c hc hvector row hrow with hsame | hbrings
  · exact .inl hsame
  · cases hk : s.updates[k]? with
    | none =>
        right
        rw [List.eraseIdx_of_length_le (List.getElem?_eq_none_iff.1 hk)]
        exact hbrings
    | some u =>
        rcases brings_cases hk hbrings with ⟨hreaches, -⟩ | hother
        · rcases hkeeps u hk c hc hreaches.1 with hsame | hother
          · exact .inl (hsame row hrow)
          · exact .inr hother
        · exact .inr hother

theorem Tracked.purge (h : s.Tracked) {k : Nat} (hs' : s.purge k = some s') : s'.Tracked := by
  obtain ⟨entryId, -, rfl⟩ := Option.map_eq_some_iff.1 hs'
  apply h.withLive
  intro c hc hvector row hrow
  exact h.vectors c hc hvector row (Store.deleteWhere_eq_some.1 hrow).1

/-! ## Runs -/

theorem Tracked.step (h : s.Tracked) {action : TagAction} (hkeeps : s.KeepsTags action)
    (hs' : s.step action = some s') : s'.Tracked := by
  cases action with
  | createEntry kbId title content tags seeds => exact h.createEntry hkeeps hs'
  | updateEntry entryId payload seeds => exact h.updateEntry hkeeps hs'
  | deleteEntry entryId => exact h.deleteEntry hs'
  | acceptAutoTag entryId tag => exact h.acceptAutoTag hkeeps hs'
  | rejectAutoTag entryId tag => exact h.rejectAutoTag hkeeps hs'
  | editChunk chunkId newContent => exact h.editChunk hs'
  | splitChunk chunkId splitPositions => exact h.splitChunk hkeeps hs'
  | mergeChunks chunkIds => exact h.mergeChunks hkeeps hs'
  | deleteChunk chunkId => exact h.deleteChunk hs'
  | refreshUserTags k => exact h.refreshUserTags hkeeps hs'
  | startExtract entryId =>
      obtain ⟨entry, -, rfl⟩ := Option.map_eq_some_iff.1 hs'
      exact h.withExtractions _
  | runExtract k found =>
      obtain ⟨run, -, hs'⟩ := Option.bind_eq_some_iff.1 hs'
      split at hs'
      · cases hs'
      · cases hs'
        exact h.withExtractions _
  | finishExtract k => exact h.finishExtract hkeeps hs'
  | failExtract k =>
      cases hs'
      exact h.withExtractions _
  | startEmbed unitType unitId =>
      cases hs'
      exact h.startEmbed unitType unitId
  | embedBatch k threshold => exact h.embedBatch hs'
  | finishEmbed k => exact h.finishEmbed hs'
  | failEmbed k =>
      cases hs'
      exact h.failEmbed k
  | queryTags k => exact h.queryTags hs'
  | upsertTags k => exact h.upsertTags hkeeps hs'
  | failTags k =>
      cases hs'
      exact h.failTags hkeeps
  | purge k => exact h.purge hs'

/-- From stores that agree, a run whose steps all keep the tags together leads to stores that agree
whenever its tasks have finished. -/
theorem agreesWhenIdle_visits {s : TagStores} (hs : s.Settled) {actions : List TagAction}
    (hkeeps : EveryStep TagStores.step KeepsTags s actions) :
    Visits TagStores.step AgreesWhenIdle s actions := by
  have htracked : Visits TagStores.step Tracked s actions :=
    hkeeps.visits (fun _ _ _ h hkeep hstep => h.step hkeep hstep) hs.tracked
  exact htracked.mono fun _ h => h.agreesWhenIdle

/-- A base without entries. -/
def emptyBase : TagStores := { tables := { kbs := [{ id := 0 }], documents := [], next := 1 } }

theorem settled_emptyBase : emptyBase.Settled where
  valid :=
    { nodup := List.nodup_nil
      chunks := by
        intro c hc
        cases hc
      units := by
        intro unitType unitId k h
        cases unitType with
        | document => cases h
        | entry => cases h }
  idle := ⟨rfl, rfl, rfl, rfl, rfl⟩
  fits := by
    intro i e he
    cases he
  agrees := by
    intro c hc
    cases hc

/-- An entry gets other tags before it is embedded, and its chunk is refreshed. -/
theorem retagged_agrees : Visits TagStores.step AgreesWhenIdle emptyBase
    [.createEntry 0 "vpn" "dial in" ["net"] [{ content := "dial in" }],
      .updateEntry 1 { tags := some ["ops"] } [], .refreshUserTags 0] := by
  apply agreesWhenIdle_visits settled_emptyBase
  apply EveryStep.cons_of_eq rfl
  · exact ⟨by decide, by decide⟩
  apply EveryStep.cons_of_eq rfl
  · intro entry hentry
    cases hentry
    exact ⟨by decide, by decide⟩
  apply EveryStep.cons_of_eq rfl
  · intro entryId hk entry hentry
    cases hk
    cases hentry
    refine ⟨⟨by decide, by decide⟩, ?_⟩
    intro c hc hin
    right
    rcases List.mem_singleton.1 hc with rfl
    refine ⟨?_, .inl rfl⟩
    rintro ⟨task, htask, -⟩
    cases htask
  exact trivial

/-- A rejected auto tag leaves the chunk, and stays beside its vector. -/
theorem reject_keeps_vectorTags : ¬ ∀ (s : TagStores) (actions : List TagAction), s.Settled →
    Visits TagStores.step AgreesWhenIdle s actions := by
  intro h
  have hrun : ∃ s c row, runSteps TagStores.step emptyBase
      [.createEntry 0 "vpn" "dial in" ["net"] [{ content := "dial in" }],
        .startEmbed .entry 1, .embedBatch 0 0, .finishEmbed 0,
        .startExtract 1, .runExtract 0 ["ops"], .finishExtract 0, .queryTags 0, .upsertTags 0,
        .rejectAutoTag 1 "ops"] = some s ∧ s.Idle ∧ c ∈ s.tables.chunks ∧ c.vectorId ≠ none ∧
          s.live c.id = some row ∧ c.chunkTags = ["net"] ∧ row.chunkTags = ["net", "ops"] :=
    ⟨_, _, _, rfl, ⟨rfl, rfl, rfl, rfl, rfl⟩, List.mem_cons_self, by decide, rfl, rfl, rfl⟩
  obtain ⟨s, c, row, hrun, hidle, hc, hvector, hrow, hchunk, hstale⟩ := hrun
  have hagrees := (h emptyBase _ settled_emptyBase).last hrun hidle c hc
  have hsame : row.chunkTags = c.chunkTags := hagrees.vector hvector row hrow
  rw [hchunk, hstale] at hsame
  exact absurd hsame (by decide)

end TagStores

end OpsKnowledge.Tagging
