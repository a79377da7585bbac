import OpsKnowledge.Knowledge.StoreInvariant

/-!
# Keys of units and parents of chunks

The primary keys of the tables of units, and that a chunk and its parent are of one
knowledge base. Every commit keeps both.
-/

namespace OpsKnowledge.Knowledge

open OpsKnowledge.Lib

namespace Tables

structure Keyed (t : Tables) : Prop where
  documents : (t.documents.map Document.id).Nodup
  entries : (t.entries.map KnowledgeEntry.id).Nodup
  parents : ∀ c ∈ t.chunks, ∀ p, c.parentChunkId = some p →
    p < t.next ∧ ∀ d ∈ t.chunks, d.id = p → d.knowledgeBaseId = c.knowledgeBaseId

variable {t t' : Tables} {unitType : UnitType} {unitId kbId docId : Nat} {p : Chunk → Bool}
  {rows : List Chunk}

/-! ## Lookups -/

theorem Keyed.getDocument (h : t.Keyed) {doc : Document} (hdoc : doc ∈ t.documents) :
    t.getDocument doc.id = some doc := by
  cases hget : t.getDocument doc.id with
  | none =>
      have hno := List.find?_eq_none.1 hget doc hdoc
      simp at hno
  | some d =>
      obtain ⟨hd, hid⟩ := getDocument_eq_some hget
      rw [List.inj_on_of_nodup_map h.documents hd hdoc hid]

theorem Keyed.getEntry (h : t.Keyed) {entry : KnowledgeEntry} (hentry : entry ∈ t.entries) :
    t.getEntry entry.id = some entry := by
  cases hget : t.getEntry entry.id with
  | none =>
      have hno := List.find?_eq_none.1 hget entry hentry
      simp at hno
  | some e =>
      obtain ⟨he, hid⟩ := getEntry_eq_some hget
      rw [List.inj_on_of_nodup_map h.entries he hentry hid]

/-! ## What a step does to parents -/

theorem detach_parent (gone : List Nat) (c : Chunk) :
    (c.detach gone).parentChunkId = c.parentChunkId ∨ (c.detach gone).parentChunkId = none := by
  unfold Chunk.detach
  split
  · exact Or.inr rfl
  · exact Or.inl rfl

/-- Chunks that keep their keys, with the parent that they had or none. -/
theorem Keyed.of_chunks (h : t.Keyed) (hnext : t.next ≤ t'.next)
    (hdocs : (t'.documents.map Document.id).Nodup) (hentries : (t'.entries.map KnowledgeEntry.id).Nodup)
    (hchunks : ∀ c' ∈ t'.chunks, ∃ c ∈ t.chunks, c'.id = c.id ∧
      c'.knowledgeBaseId = c.knowledgeBaseId ∧
        (c'.parentChunkId = c.parentChunkId ∨ c'.parentChunkId = none)) : t'.Keyed := by
  refine ⟨hdocs, hentries, ?_⟩
  intro c' hc' p hp
  obtain ⟨c, hc, -, hkb, hparent⟩ := hchunks c' hc'
  have hold : c.parentChunkId = some p := by
    rcases hparent with hsame | hnone
    · rw [← hsame]
      exact hp
    · rw [hnone] at hp
      cases hp
  obtain ⟨hlt, hhome⟩ := h.parents c hc p hold
  refine ⟨lt_of_lt_of_le hlt hnext, ?_⟩
  intro d' hd' hid
  obtain ⟨d, hd, hdid, hdkb, -⟩ := hchunks d' hd'
  rw [hkb, hdkb]
  exact hhome d hd (hdid.symm.trans hid)

theorem Keyed.of_units (h : t.Keyed) (hnext : t.next ≤ t'.next)
    (hdocs : (t'.documents.map Document.id).Nodup) (hentries : (t'.entries.map KnowledgeEntry.id).Nodup)
    (hchunks : t'.chunks = t.chunks) : t'.Keyed := by
  apply h.of_chunks hnext hdocs hentries
  intro c hc
  exact ⟨c, hchunks ▸ hc, rfl, rfl, Or.inl rfl⟩

/-- New rows whose parents are new rows too, or parents within the base. -/
theorem Keyed.swap (h : t.Keyed) (hdocs : (t'.documents.map Document.id).Nodup)
    (hentries : (t'.entries.map KnowledgeEntry.id).Nodup)
    (hswap : Swap unitType unitId kbId p rows t t')
    (hparents : ∀ r ∈ rows, ∀ q, r.parentChunkId = some q →
      q < t'.next ∧ ∀ d ∈ t.chunks, d.id = q → d.knowledgeBaseId = kbId) : t'.Keyed := by
  refine ⟨hdocs, hentries, ?_⟩
  have hkept : ∀ c ∈ t'.chunks, c ∈ rows ∨ ∃ d ∈ t.chunks, c.id = d.id ∧
      c.knowledgeBaseId = d.knowledgeBaseId ∧
        (c.parentChunkId = d.parentChunkId ∨ c.parentChunkId = none) := by
    intro c hc
    rw [hswap.chunks] at hc
    rcases List.mem_append.1 hc with hc | hc
    · obtain ⟨d, hd, -, gone, rfl⟩ := mem_deleteChunks hc
      exact Or.inr ⟨d, hd, by simp, by simp, detach_parent gone d⟩
    · exact Or.inl hc
  intro c hc q hq
  rcases hkept c hc with hrow | ⟨d, hd, -, hkb, hparent⟩
  · obtain ⟨hlt, hhome⟩ := hparents c hrow q hq
    refine ⟨hlt, ?_⟩
    intro e he hid
    rw [(hswap.new.unit c hrow).2.2]
    rcases hkept e he with herow | ⟨f, hf, hfid, hfkb, -⟩
    · exact (hswap.new.unit e herow).2.2
    · rw [hfkb]
      exact hhome f hf (hfid.symm.trans hid)
  · have hold : d.parentChunkId = some q := by
      rcases hparent with hsame | hnone
      · rw [← hsame]
        exact hq
      · rw [hnone] at hq
        cases hq
    obtain ⟨hlt, hhome⟩ := h.parents d hd q hold
    refine ⟨lt_of_lt_of_le hlt hswap.new.le, ?_⟩
    intro e he hid
    rw [hkb]
    rcases hkept e he with herow | ⟨f, hf, hfid, hfkb, -⟩
    · -- The ids of new rows are new.
      have hfresh := (hswap.new.fresh e herow).1
      omega
    · rw [hfkb]
      exact hhome f hf (hfid.symm.trans hid)

/-- Rows without parents. -/
theorem Keyed.swap_roots (h : t.Keyed) (hdocs : (t'.documents.map Document.id).Nodup)
    (hentries : (t'.entries.map KnowledgeEntry.id).Nodup)
    (hswap : Swap unitType unitId kbId p rows t t') (hroots : ∀ r ∈ rows, r.parentChunkId = none) :
    t'.Keyed := by
  apply h.swap hdocs hentries hswap
  intro r hr q hq
  rw [hroots r hr] at hq
  cases hq

theorem nodup_updateDocument (h : t.Keyed) {f : Document → Document} (hf : ∀ d, (f d).id = d.id) :
    ((updateWhere (fun d => d.id = docId) f t.documents).map Document.id).Nodup := by
  rw [map_updateWhere hf]
  exact h.documents

theorem Keyed.updateDocument (h : t.Keyed) {f : Document → Document} (hf : ∀ d, (f d).id = d.id)
    (docId : Nat) : (t.updateDocument docId f).Keyed :=
  h.of_units le_rfl (nodup_updateDocument h hf) h.entries rfl

theorem Keyed.setChunksExcluded (h : t.Keyed) (docId : Nat) (excluded : Bool) :
    (t.setChunksExcluded docId excluded).Keyed := by
  refine h.of_chunks le_rfl h.documents h.entries ?_
  intro c' hc'
  obtain ⟨c, hc, rfl⟩ := mem_updateWhere.1 hc'
  refine ⟨c, hc, ?_⟩
  split
  · exact ⟨rfl, rfl, Or.inl rfl⟩
  · exact ⟨rfl, rfl, Or.inl rfl⟩

theorem Keyed.setReviewStatus (h : t.Keyed) (docId : Nat) (status : ReviewStatus) :
    (t.setReviewStatus docId status).Keyed := by
  apply h.updateDocument
  intro d
  rfl

theorem Keyed.submitDocForReview (h : t.Keyed) (docId : Nat) : (t.submitDocForReview docId).Keyed := by
  unfold Tables.submitDocForReview
  split
  · exact h
  · split
    · exact h
    · exact (h.setReviewStatus docId .pending).setChunksExcluded docId true

theorem Keyed.decideReview (h : t.Keyed) {newStatus : ReviewStatus}
    (hs' : t.decideReview docId newStatus = some t') : t'.Keyed := by
  obtain ⟨doc, -, -, rfl⟩ := decideReview_eq_some.1 hs'
  split
  · exact (h.setReviewStatus docId newStatus).setChunksExcluded docId false
  · exact h.setReviewStatus docId newStatus

/-- An ingestion links its rows to rows of its own. -/
theorem rows_parents (source : TextSource) (countTokens : String → Nat) (doc : Document) (next : Nat) :
    ∀ r ∈ (source.rows countTokens doc next).1, ∀ q, r.parentChunkId = some q →
      next ≤ q ∧ q < (source.rows countTokens doc next).2 := by
  intro r hr q hq
  have hdrawn := source.results_drawn next
  have hempty : IdMap.Valid { next := (source.results next).2 } := ⟨by simp, by simp⟩
  obtain ⟨hvalid, hext, hrows, -⟩ :=
    chunkObjects_spec countTokens doc hempty (source.results next).1
  have hmem := (orderBy_perm _ _).mem_iff.1 hr
  obtain ⟨cr, -, hrow⟩ := exists_left_of_forall₂ hrows hmem
  rw [hrow.parent] at hq
  obtain ⟨l, -, hget⟩ := Option.bind_eq_some_iff.1 hq
  refine ⟨?_, hvalid.below l q hget⟩
  rcases hext.later l q hget with hold | hnew
  · simp at hold
  · exact hdrawn.le.trans hnew

theorem buildRaptor_roots {Vec : Type} (env : RaptorEnv Vec) (chunks : List Chunk) (doc : Document)
    (next : Nat) : ∀ r ∈ (buildRaptor env chunks doc next).rows, r.parentChunkId = none := by
  intro r hr
  unfold buildRaptor at hr
  simp only at hr
  split at hr
  · cases hr
  · split at hr
    · cases hr
    · obtain ⟨i, hi, rfl⟩ := List.mem_mapIdx.1 hr
      rfl

theorem seedRows_roots {reviewStatus : Option ReviewStatus} {chunkTags : List String} {next : Nat}
    {seeds : List ChunkSeed} :
    ∀ r ∈ seedRows unitType unitId kbId reviewStatus chunkTags next seeds, r.parentChunkId = none := by
  intro r hr
  obtain ⟨i, hi, rfl⟩ := List.mem_mapIdx.1 hr
  rfl

/-! ## Steps -/

theorem Keyed.ingested (h : t.Keyed) (hvalid : t.Valid) (countTokens : String → Nat) (doc : Document)
    (source : TextSource) : (t.ingested countTokens doc source).Keyed := by
  refine h.swap (nodup_updateDocument h fun _ => rfl) h.entries (ingested_swap countTokens doc source) ?_
  intro r hr q hq
  obtain ⟨hge, hlt⟩ := rows_parents source countTokens doc t.next r hr q hq
  refine ⟨hlt, ?_⟩
  intro d hd hid
  have hold := (hvalid.chunks d hd).1
  omega

/-- A row that takes the place of others, linked as one of them was. -/
theorem Keyed.replace (h : t.Keyed) (honly : ChunksOnly t t')
    (hswap : Swap unitType unitId kbId p rows t t') {c : Chunk} (hc : c ∈ t.chunks)
    (hkb : c.knowledgeBaseId = kbId)
    (hparents : ∀ r ∈ rows, r.parentChunkId = c.parentChunkId ∨ r.parentChunkId = none) : t'.Keyed := by
  apply h.swap (honly.documents ▸ h.documents) (honly.entries ▸ h.entries) hswap
  intro r hr q hq
  have hold : c.parentChunkId = some q := by
    rcases hparents r hr with hsame | hnone
    · rw [← hsame]
      exact hq
    · rw [hnone] at hq
      cases hq
  obtain ⟨hlt, hhome⟩ := h.parents c hc q hold
  refine ⟨lt_of_lt_of_le hlt honly.next, ?_⟩
  intro d hd hid
  rw [← hkb]
  exact hhome d hd hid

theorem Keyed.splitChunk (h : t.Keyed) (hvalid : t.Valid) {chunkId : Nat} {splitPositions : List Int}
    (hs' : t.splitChunk chunkId splitPositions = some t') : t'.Keyed := by
  obtain ⟨c, hget, rows, hrows, rfl⟩ := splitChunk_eq_some.1 hs'
  obtain ⟨hc, rfl⟩ := getChunk_eq_ok hget
  have hnew := (splitRows_spec hrows).2.1
  apply h.replace (replaceChunks_only _ _) (replaceChunks_swap hnew (hvalid.id_home hc)) hc rfl
  intro r' hr'
  obtain ⟨r, hr, rfl⟩ := List.mem_map.1 hr'
  have hlinked : r.parentChunkId = c.parentChunkId := by
    unfold splitRows at hrows
    simp only at hrows
    split at hrows
    · cases hrows
    · cases hrows
      obtain ⟨i, hi, rfl⟩ := List.mem_mapIdx.1 hr
      rfl
  rcases detach_parent ((t.chunks.filter fun d => d.id = c.id).map Chunk.id) r with hsame | hnone
  · exact Or.inl (hsame.trans hlinked)
  · exact Or.inr hnone

theorem Keyed.mergeChunks (h : t.Keyed) (hvalid : t.Valid) {chunkIds : List Nat}
    (hs' : t.mergeChunks chunkIds = some t') : t'.Keyed := by
  obtain ⟨first, rest, hsources, rfl⟩ := mergeChunks_eq_some.1 hs'
  have hspec := mergeSources_spec hsources
  obtain ⟨i, hi, hget⟩ := (hspec.named first).1 List.mem_cons_self
  obtain ⟨hfirst, -⟩ := getChunk_eq_ok hget
  have hold : ∀ d ∈ t.chunks, decide (d.id ∈ chunkIds) = true → d.unitType = first.unitType ∧
      d.unitId = first.unitId ∧ d.knowledgeBaseId = first.knowledgeBaseId := by
    intro d hd hin
    have hnamed := (hspec.named d).2 ⟨d.id, of_decide_eq_true hin, hvalid.getChunk_self hd⟩
    have hsame : d.unitType = first.unitType ∧ d.unitId = first.unitId := by
      rcases List.mem_cons.1 hnamed with rfl | hrest
      · exact ⟨rfl, rfl⟩
      · exact hspec.unit d hrest
    have hkb := (hvalid.unit_of_chunk hd hsame).symm.trans (hvalid.chunks first hfirst).2
    exact ⟨hsame.1, hsame.2, Option.some.inj hkb⟩
  have hnew : NewRows first.unitType first.unitId first.knowledgeBaseId t.next
      (t.next + [mergedChunk t.next first rest].length) [mergedChunk t.next first rest] :=
    mergedChunk_new t.next first rest
  apply h.replace (replaceChunks_only _ _) (replaceChunks_swap hnew hold) hfirst rfl
  intro r' hr'
  obtain ⟨r, hr, rfl⟩ := List.mem_map.1 hr'
  obtain rfl := List.mem_singleton.1 hr
  exact detach_parent _ _

theorem Keyed.cascadeDeleteUnit (h : t.Keyed) (unitType : UnitType) (unitId : Nat) :
    (t.cascadeDeleteUnit unitType unitId).Keyed := by
  have hchunks : ∀ c' ∈ deleteChunks (Chunk.inUnit unitType unitId) t.chunks, ∃ c ∈ t.chunks,
      c'.id = c.id ∧ c'.knowledgeBaseId = c.knowledgeBaseId ∧
        (c'.parentChunkId = c.parentChunkId ∨ c'.parentChunkId = none) := by
    intro c' hc'
    obtain ⟨c, hc, -, gone, rfl⟩ := mem_deleteChunks hc'
    exact ⟨c, hc, by simp, by simp, detach_parent gone c⟩
  cases unitType with
  | document =>
      exact h.of_chunks le_rfl (h.documents.sublist (List.filter_sublist.map Document.id)) h.entries
        hchunks
  | entry =>
      exact h.of_chunks le_rfl h.documents (h.entries.sublist (List.filter_sublist.map KnowledgeEntry.id))
        hchunks

theorem Valid.next_notMem_documents (h : t.Valid) (hkeyed : t.Keyed) :
    t.next ∉ t.documents.map Document.id := by
  intro hmem
  obtain ⟨doc, hdoc, hid⟩ := List.mem_map.1 hmem
  have hlt := (h.units _ _ _ (unitKb_document (hkeyed.getDocument hdoc))).1
  omega

theorem Valid.next_notMem_entries (h : t.Valid) (hkeyed : t.Keyed) :
    t.next ∉ t.entries.map KnowledgeEntry.id := by
  intro hmem
  obtain ⟨entry, hentry, hid⟩ := List.mem_map.1 hmem
  have hlt := (h.units _ _ _ (unitKb_entry (hkeyed.getEntry hentry))).1
  omega

theorem Keyed.addDocument (h : t.Keyed) (hvalid : t.Valid) {doc : Document} (hid : doc.id = t.next) :
    (t.addDocument doc).Keyed := by
  refine h.of_units (Nat.le_succ _) ?_ h.entries rfl
  apply nodup_keys_concat h.documents
  intro old hold heq
  rw [hid] at heq
  exact hvalid.next_notMem_documents h (List.mem_map.2 ⟨old, hold, heq⟩)

theorem Keyed.addEntry (h : t.Keyed) (hvalid : t.Valid) {entry : KnowledgeEntry}
    (hid : entry.id = t.next) : (t.addEntry entry).Keyed := by
  refine h.of_units (Nat.le_succ _) h.documents ?_ rfl
  apply nodup_keys_concat h.entries
  intro old hold heq
  rw [hid] at heq
  exact hvalid.next_notMem_entries h (List.mem_map.2 ⟨old, hold, heq⟩)

theorem Keyed.createChunksForEntry (h : t.Keyed) (entry : KnowledgeEntry) (seeds : List ChunkSeed) :
    (t.createChunksForEntry entry seeds).Keyed :=
  h.swap_roots h.documents h.entries (createChunksForEntry_swap entry seeds) seedRows_roots

theorem Keyed.saveEntry (h : t.Keyed) (hvalid : t.Valid) {entryId : Nat} {entry : KnowledgeEntry}
    (hentry : t.getEntry entryId = some entry) (payload : EntryPayload) :
    (t.saveEntry entry payload).Keyed := by
  have hdocs : ((t.saveEntry entry payload).documents.map Document.id).Nodup := by
    rw [saveEntry_documents]
    exact h.documents
  have hentries : ((t.saveEntry entry payload).entries.map KnowledgeEntry.id).Nodup := by
    have hid : ∀ e, (updatedEntry e payload (t.reviewRequired entry.knowledgeBaseId)).id = e.id :=
      fun _ => rfl
    rw [saveEntry_entries, map_updateWhere hid]
    exact h.entries
  exact h.swap_roots hdocs hentries (saveEntry_swap hvalid hentry payload) (by simp)

theorem tableStep_keyed {Vec : Type} {countTokens : String → Nat} {a : TableAction Vec}
    (hvalid : t.Valid) (h : t.Keyed) (hs' : tableStep countTokens t a = some t') : t'.Keyed := by
  cases a with
  | uploadDocument kbId folderId =>
      simp only [tableStep, uploadDocument, Option.bind_eq_bind, Option.bind_eq_some_iff,
        Option.some.injEq] at hs'
      obtain ⟨kb, -, rfl⟩ := hs'
      exact h.addDocument hvalid rfl
  | startIngest docId =>
      obtain ⟨doc, hdoc, -, rfl⟩ := startIngest_eq_some.1 hs'
      exact h.swap_roots (nodup_updateDocument h fun _ => rfl) h.entries
        (clearIngested_swap hvalid (unitKb_document hdoc)) (by simp)
  | finishIngest docId source =>
      obtain ⟨doc, -, -, rfl⟩ := finishIngest_eq_some.1 hs'
      have hsaved := h.ingested hvalid countTokens doc source
      split
      · exact hsaved.submitDocForReview _
      · exact hsaved
  | failIngest docId =>
      obtain ⟨-, rfl⟩ := failIngest_eq_some.1 hs'
      exact h.of_units le_rfl (nodup_updateDocument h fun _ => rfl) h.entries rfl
  | buildRaptor docId env =>
      obtain ⟨doc, -, rfl⟩ := buildRaptorForDocument_eq_some.1 hs'
      exact h.swap_roots h.documents h.entries (summarised_swap env doc)
        (buildRaptor_roots env t.chunks doc t.next)
  | cascadeDeleteUnit unitType unitId =>
      cases hs'
      exact h.cascadeDeleteUnit unitType unitId
  | editChunk chunkId newContent =>
      obtain ⟨c, -, rfl⟩ := editChunk_eq_some.1 hs'
      refine h.of_chunks le_rfl h.documents h.entries ?_
      intro c' hc'
      obtain ⟨d, hd, rfl⟩ := mem_updateWhere.1 hc'
      refine ⟨d, hd, ?_⟩
      split
      · exact ⟨rfl, rfl, Or.inl rfl⟩
      · exact ⟨rfl, rfl, Or.inl rfl⟩
  | splitChunk chunkId splitPositions => exact h.splitChunk hvalid hs'
  | mergeChunks chunkIds => exact h.mergeChunks hvalid hs'
  | deleteChunk chunkId =>
      obtain ⟨c, -, -, honly, hswap⟩ := deleteChunk_swap hvalid hs'
      exact h.swap_roots (honly.documents ▸ h.documents) (honly.entries ▸ h.entries) hswap (by simp)
  | createEntry kbId title content tags seeds =>
      obtain ⟨kb, -, rfl⟩ := createEntry_eq_some hs'
      exact (h.addEntry hvalid rfl).createChunksForEntry _ seeds
  | updateEntry entryId payload seeds =>
      obtain ⟨entry, hentry, rfl⟩ := updateEntry_eq_some.1 hs'
      have hsaved := h.saveEntry hvalid hentry payload
      split
      · exact hsaved.createChunksForEntry _ seeds
      · exact hsaved
  | submitForReview docId =>
      obtain ⟨doc, -, rfl⟩ := submitForReview_eq_some.1 hs'
      split
      · exact h.submitDocForReview docId
      · exact h
  | approve docId => exact h.decideReview hs'
  | reject docId => exact h.decideReview hs'
  | requestReReview docId =>
      obtain ⟨doc, -, rfl⟩ := requestReReview_eq_some.1 hs'
      split
      · exact (h.setReviewStatus docId .pending).setChunksExcluded docId true
      · exact h
  | setReviewRequired kbId reviewRequired =>
      cases hs'
      exact h.of_units le_rfl h.documents h.entries rfl

end Tables

end OpsKnowledge.Knowledge
