import Mathlib.Data.List.Dedup
import OpsKnowledge.Knowledge.StoreInvariant

/-!
# Chunk counters

`Document.chunk_count` and `KnowledgeBase.chunk_count` are kept beside the rows that they
count. A swap of rows moves both counts by the same difference; whether the counters follow
is settled operation by operation.
-/

namespace OpsKnowledge.Knowledge

open OpsKnowledge.Lib

namespace Tables

structure CountsExact (t : Tables) : Prop where
  documents : ∀ d ∈ t.documents, d.chunkCount = t.unitRows .document d.id
  kbs : ∀ kb ∈ t.kbs, kb.chunkCount = t.kbRows kb.id

/-- Ingestion and cascades find no rows of the unit, RAPTOR has nothing to insert, nothing is split or
deleted, a merge names one row, and an entry has as many rows after the request as before. -/
def KeepsCounts {Vec : Type} (t : Tables) : TableAction Vec → Prop
  | .startIngest docId => t.unitRows .document docId = 0
  | .finishIngest docId _ => t.unitRows .document docId = 0
  | .buildRaptor docId env => ¬ SummaryDue env (raptorSeeds env (l0Chunks t.chunks docId))
  | .cascadeDeleteUnit unitType unitId => t.unitRows unitType unitId = 0
  | .splitChunk _ _ => False
  | .mergeChunks chunkIds => ∀ i ∈ chunkIds, ∀ j ∈ chunkIds, i = j
  | .deleteChunk _ => False
  | .createEntry _ _ _ _ seeds => seeds = []
  | .updateEntry entryId payload seeds => ∀ entry, t.getEntry entryId = some entry →
      payload.contentChanged entry = true ∨ t.unitRows .entry entryId = 0 →
        seeds.length = t.unitRows .entry entryId
  | _ => True

variable {t t' : Tables} {unitType : UnitType} {unitId kbId docId : Nat} {p q : Chunk → Bool}
  {rows : List Chunk}

/-! ## Counting over a swap -/

theorem Swap.countP (h : Swap unitType unitId kbId p rows t t')
    (hq : ∀ c gone, q (Chunk.detach gone c) = q c) :
    t'.chunks.countP q + t.chunks.countP (fun c => q c && p c) =
      t.chunks.countP q + rows.countP q := by
  have hcount := countP_deleteChunks p q t.chunks hq
  rw [h.chunks, List.countP_append]
  omega

/-- A count of all rows of the unit moves by the rows that come and go. -/
theorem Swap.countP_in (h : Swap unitType unitId kbId p rows t t')
    (hq : ∀ c gone, q (Chunk.detach gone c) = q c)
    (hin : ∀ c : Chunk, c.unitType = unitType ∧ c.unitId = unitId ∧ c.knowledgeBaseId = kbId → q c = true) :
    t'.chunks.countP q + t.chunks.countP p = t.chunks.countP q + rows.length := by
  have hrows : rows.countP q = rows.length := by
    rw [List.countP_eq_length]
    exact fun c hc => hin c (h.new.unit c hc)
  have hold : t.chunks.countP (fun c => q c && p c) = t.chunks.countP p := by
    apply List.countP_congr
    intro c hc
    rw [Bool.and_eq_true]
    exact ⟨And.right, fun hp => ⟨hin c (h.old c hc hp), hp⟩⟩
  rw [← hrows, ← h.countP hq, hold]

theorem Swap.countP_out (h : Swap unitType unitId kbId p rows t t')
    (hq : ∀ c gone, q (Chunk.detach gone c) = q c)
    (hout : ∀ c : Chunk, c.unitType = unitType ∧ c.unitId = unitId ∧ c.knowledgeBaseId = kbId → q c = false) :
    t'.chunks.countP q = t.chunks.countP q := by
  have hcount := h.countP hq
  have hrows : rows.countP q = 0 := by
    rw [List.countP_eq_zero]
    intro c hc
    simp [hout c (h.new.unit c hc)]
  have hold : t.chunks.countP (fun c => q c && p c) = 0 := by
    rw [List.countP_eq_zero]
    intro c hc hboth
    obtain ⟨hqc, hp⟩ := Bool.and_eq_true_iff.1 hboth
    rw [hout c (h.old c hc hp)] at hqc
    cases hqc
  omega

theorem Swap.unitRows (h : Swap unitType unitId kbId p rows t t') :
    t'.unitRows unitType unitId + t.chunks.countP p = t.unitRows unitType unitId + rows.length := by
  apply h.countP_in
  · simp
  · intro c hc
    simp [Chunk.inUnit, hc]

theorem Swap.unitRows_of_ne (h : Swap unitType unitId kbId p rows t t') {type : UnitType} {id : Nat}
    (hne : ¬ (type = unitType ∧ id = unitId)) : t'.unitRows type id = t.unitRows type id := by
  apply h.countP_out
  · simp
  · intro c hc
    obtain ⟨rfl, rfl, -⟩ := hc
    simp only [Chunk.inUnit, decide_eq_false_iff_not]
    exact fun hsame => hne ⟨hsame.1.symm, hsame.2.symm⟩

theorem Swap.kbRows (h : Swap unitType unitId kbId p rows t t') :
    t'.kbRows kbId + t.chunks.countP p = t.kbRows kbId + rows.length := by
  apply h.countP_in
  · simp
  · intro c hc
    simp [hc]

theorem Swap.kbRows_of_ne (h : Swap unitType unitId kbId p rows t t') {k : Nat} (hne : k ≠ kbId) :
    t'.kbRows k = t.kbRows k := by
  apply h.countP_out
  · simp
  · intro c hc
    obtain ⟨-, -, rfl⟩ := hc
    simpa using hne.symm

/-! ## Counters over a swap -/

/-- Where no counter is written, as many rows must come as go. -/
theorem countsExact_swap_iff (h : t.CountsExact) (hswap : Swap unitType unitId kbId p rows t t')
    (hkb : ∃ kb ∈ t.kbs, kb.id = kbId) (hkbs : t'.kbs = t.kbs)
    (hdocs : ∀ d ∈ t'.documents, d ∈ t.documents) :
    t'.CountsExact ↔ t.chunks.countP p = rows.length := by
  have hunit := hswap.unitRows
  have hbase := hswap.kbRows
  constructor
  · intro h'
    obtain ⟨kb, hmem, rfl⟩ := hkb
    have hbefore := h.kbs kb hmem
    have hafter := h'.kbs kb (hkbs ▸ hmem)
    omega
  · intro heq
    constructor
    · intro d hd
      rw [h.documents d (hdocs d hd)]
      by_cases hsame : UnitType.document = unitType ∧ d.id = unitId
      · obtain ⟨rfl, rfl⟩ := hsame
        omega
      · rw [hswap.unitRows_of_ne hsame]
    · intro kb hmem
      rw [hkbs] at hmem
      rw [h.kbs kb hmem]
      by_cases hsame : kb.id = kbId
      · rw [hsame]
        omega
      · rw [hswap.kbRows_of_ne hsame]

/-- Where the counter of the base follows, the one of the document must be right. -/
theorem countsExact_counted_iff (h : t.CountsExact) {f : Document → Document}
    (hswap : Swap .document docId kbId p rows t t') {delta : Int}
    (hkbs : t'.kbs = (t.addChunkCount kbId delta).kbs)
    (hdelta : delta + t.chunks.countP p = rows.length)
    (hdocs : t'.documents = updateWhere (fun d => d.id = docId) f t.documents)
    (hf : ∀ d, (f d).id = d.id) :
    t'.CountsExact ↔
      ∀ d ∈ t.documents, d.id = docId → (f d).chunkCount = t'.unitRows .document docId := by
  have hbase := hswap.kbRows
  constructor
  · intro h' d hd hid
    have hmem : f d ∈ t'.documents := by
      rw [hdocs, mem_updateWhere]
      exact ⟨d, hd, by simp [hid]⟩
    rw [h'.documents (f d) hmem, hf, hid]
  · intro hcount
    constructor
    · intro d' hd'
      rw [hdocs, mem_updateWhere] at hd'
      obtain ⟨d, hd, rfl⟩ := hd'
      by_cases hid : d.id = docId
      · simpa [hid, hf] using hcount d hd hid
      · have hne : ¬ (UnitType.document = .document ∧ d.id = docId) := fun heq => hid heq.2
        simpa [hid, hswap.unitRows_of_ne hne] using h.documents d hd
    · intro kb' hkb'
      rw [hkbs] at hkb'
      obtain ⟨kb, hmem, rfl⟩ := mem_updateWhere.1 hkb'
      have hbefore := h.kbs kb hmem
      by_cases hid : kb.id = kbId
      · subst hid
        simp only [decide_true, if_true]
        omega
      · simp only [hid, decide_false, Bool.false_eq_true, if_false]
        rw [hbefore, hswap.kbRows_of_ne hid]

/-- Only ids and counters of the units, and the units and bases of chunks, matter. -/
theorem countsExact_congr
    (hdocs : t'.documents.map (fun d => (d.id, d.chunkCount)) =
      t.documents.map fun d => (d.id, d.chunkCount))
    (hkbs : t'.kbs.map (fun kb => (kb.id, kb.chunkCount)) = t.kbs.map fun kb => (kb.id, kb.chunkCount))
    (hchunks : t'.chunks.map (fun c => (c.unitType, c.unitId, c.knowledgeBaseId)) =
      t.chunks.map fun c => (c.unitType, c.unitId, c.knowledgeBaseId)) :
    t'.CountsExact ↔ t.CountsExact := by
  have hcount : ∀ g : UnitType × Nat × Nat → Bool,
      t'.chunks.countP (fun c => g (c.unitType, c.unitId, c.knowledgeBaseId)) =
        t.chunks.countP fun c => g (c.unitType, c.unitId, c.knowledgeBaseId) := by
    intro g
    have hmap : ∀ cs : List Chunk, cs.countP (fun c => g (c.unitType, c.unitId, c.knowledgeBaseId)) =
        (cs.map fun c => (c.unitType, c.unitId, c.knowledgeBaseId)).countP g := by
      intro cs
      rw [List.countP_map]
      rfl
    rw [hmap, hmap, hchunks]
  have hunit : ∀ i, t'.unitRows .document i = t.unitRows .document i := fun i =>
    hcount fun k => k.1 = .document ∧ k.2.1 = i
  have hkb : ∀ i, t'.kbRows i = t.kbRows i := fun i => hcount fun k => k.2.2 = i
  have hiff : ∀ s : Tables, s.CountsExact ↔
      (∀ x ∈ s.documents.map fun d => (d.id, d.chunkCount), x.2 = (s.unitRows .document x.1 : Int)) ∧
      ∀ x ∈ s.kbs.map fun kb => (kb.id, kb.chunkCount), x.2 = (s.kbRows x.1 : Int) := by
    intro s
    rw [List.forall_mem_map, List.forall_mem_map]
    exact ⟨fun h => ⟨h.documents, h.kbs⟩, fun h => ⟨h.1, h.2⟩⟩
  rw [hiff, hiff, hdocs, hkbs]
  simp only [hunit, hkb]

theorem CountsExact.of_same (h : t.CountsExact)
    (hdocs : t'.documents.map (fun d => (d.id, d.chunkCount)) =
      t.documents.map fun d => (d.id, d.chunkCount))
    (hkbs : t'.kbs.map (fun kb => (kb.id, kb.chunkCount)) = t.kbs.map fun kb => (kb.id, kb.chunkCount))
    (hchunks : t'.chunks.map (fun c => (c.unitType, c.unitId, c.knowledgeBaseId)) =
      t.chunks.map fun c => (c.unitType, c.unitId, c.knowledgeBaseId)) : t'.CountsExact :=
  (countsExact_congr hdocs hkbs hchunks).2 h

/-! ## Rows with given ids -/

theorem Valid.countP_ids (h : t.Valid) (ids : List Nat) (hall : ∀ i ∈ ids, ∃ d ∈ t.chunks, d.id = i) :
    t.chunks.countP (fun d => d.id ∈ ids) = ids.dedup.length := by
  have hperm : ((t.chunks.map Chunk.id).filter (· ∈ ids)).Perm ids.dedup := by
    rw [List.perm_ext_iff_of_nodup (h.nodup.filter _) ids.nodup_dedup]
    intro i
    rw [List.mem_filter, List.mem_map, List.mem_dedup, decide_eq_true_eq]
    exact ⟨And.right, fun hi => ⟨hall i hi, hi⟩⟩
  rw [← hperm.length_eq, ← List.countP_eq_length_filter, List.countP_map]
  rfl

theorem Valid.countP_id (h : t.Valid) {c : Chunk} (hc : c ∈ t.chunks) :
    t.chunks.countP (fun d => d.id = c.id) = 1 := by
  have hids := h.countP_ids [c.id] (by simpa using ⟨c, hc, rfl⟩)
  simpa using hids

theorem dedup_length_eq_one_iff {ids : List Nat} {i : Nat} (hi : i ∈ ids) :
    ids.dedup.length = 1 ↔ ∀ j ∈ ids, ∀ k ∈ ids, j = k := by
  constructor
  · intro hone j hj k hk
    exact eq_of_dedup_length_le_one hone.le hj hk
  · intro hall
    have hnodup := ids.nodup_dedup
    have hmem : ∀ j ∈ ids.dedup, j = i := fun j hj => hall j (List.mem_dedup.1 hj) i hi
    rw [← List.mem_dedup] at hi
    rw [List.eq_replicate_of_mem hmem, List.nodup_replicate] at hnodup
    have hpos := List.length_pos_of_mem hi
    omega

/-! ## Steps -/

theorem submitDocForReview_counts (docId : Nat) :
    (t.submitDocForReview docId).CountsExact ↔ t.CountsExact := by
  unfold submitDocForReview
  cases t.getDocument docId with
  | none => exact Iff.rfl
  | some doc =>
      simp only
      split
      · exact Iff.rfl
      · exact countsExact_congr (map_updateWhere fun _ => rfl) rfl (map_updateWhere fun _ => rfl)

theorem decideReview_counts {newStatus : ReviewStatus}
    (hs' : t.decideReview docId newStatus = some t') : t'.CountsExact ↔ t.CountsExact := by
  obtain ⟨doc, -, -, rfl⟩ := decideReview_eq_some.1 hs'
  split
  · exact countsExact_congr (map_updateWhere fun _ => rfl) rfl (map_updateWhere fun _ => rfl)
  · exact countsExact_congr (map_updateWhere fun _ => rfl) rfl rfl

theorem startIngest_counts (h : t.Valid) (hexact : t.CountsExact)
    (hs' : t.startIngest docId = some t') : t'.CountsExact ↔ t.unitRows .document docId = 0 := by
  obtain ⟨doc, hdoc, -, rfl⟩ := startIngest_eq_some.1 hs'
  obtain ⟨hmem, hid⟩ := getDocument_eq_some hdoc
  have hswap := clearIngested_swap h (unitKb_document hdoc)
  have hgone : (t.clearIngested docId doc.knowledgeBaseId).unitRows .document docId = 0 := by
    have hunit := hswap.unitRows
    have hall : t.chunks.countP (Chunk.inUnit .document docId) = t.unitRows .document docId := rfl
    rw [List.length_nil] at hunit
    omega
  rw [countsExact_counted_iff hexact hswap (f := fun d => { d with status := .processing })
    rfl (Int.add_left_neg _) rfl fun _ => rfl, hgone]
  constructor
  · intro hcount
    have hzero : doc.chunkCount = _ := hcount doc hmem hid
    have hbefore := hexact.documents doc hmem
    rw [hid] at hbefore
    omega
  · intro hnone d hd hid
    have hbefore := hexact.documents d hd
    rw [hid, hnone] at hbefore
    exact hbefore

theorem finishIngest_counts {countTokens : String → Nat} {source : TextSource}
    (hexact : t.CountsExact) (hs' : t.finishIngest countTokens docId source = some t') :
    t'.CountsExact ↔ t.unitRows .document docId = 0 := by
  obtain ⟨doc, hdoc, -, rfl⟩ := finishIngest_eq_some.1 hs'
  obtain ⟨hmem, rfl⟩ := getDocument_eq_some hdoc
  have hswap := ingested_swap (t := t) countTokens doc source
  have hunit := hswap.unitRows
  have hnone : t.chunks.countP (fun _ => false) = 0 := by simp
  have hsaved : (t.ingested countTokens doc source).CountsExact ↔ t.unitRows .document doc.id = 0 := by
    rw [countsExact_counted_iff hexact hswap
      (f := fun d => { d with status := .completed
                              chunkCount := ((source.rows countTokens doc t.next).1.length : Int) })
      rfl (by rw [hnone]; rfl) rfl fun _ => rfl]
    constructor
    · intro hcount
      have hdoc := hcount doc hmem rfl
      simp only at hdoc
      omega
    · intro hzero d hd hid
      simp only
      omega
  split
  · rw [submitDocForReview_counts]
    exact hsaved
  · exact hsaved

theorem buildRaptor_counts {Vec : Type} {env : RaptorEnv Vec} (hexact : t.CountsExact)
    (hs' : t.buildRaptorForDocument docId env = some t') :
    t'.CountsExact ↔ ¬ SummaryDue env (raptorSeeds env (l0Chunks t.chunks docId)) := by
  obtain ⟨doc, hdoc, rfl⟩ := buildRaptorForDocument_eq_some.1 hs'
  obtain ⟨hmem, rfl⟩ := getDocument_eq_some hdoc
  have hswap := summarised_swap (t := t) env doc
  have hunit := hswap.unitRows
  have hnone : t.chunks.countP (fun _ => false) = 0 := by simp
  have hsame : t.documents = updateWhere (fun d => d.id = doc.id) id t.documents := by
    simp [updateWhere]
  rw [← buildRaptor_rows_eq_nil_iff env t.chunks doc t.next, countsExact_counted_iff hexact hswap
    (f := id) rfl (by rw [hnone]; rfl) hsame fun _ => rfl,
    ← List.length_eq_zero_iff]
  constructor
  · intro hcount
    have hafter : doc.chunkCount = _ := hcount doc hmem rfl
    have hbefore := hexact.documents doc hmem
    omega
  · intro hzero d hd hid
    have hbefore := hexact.documents d hd
    rw [hid] at hbefore
    show d.chunkCount = _
    omega

/-- The base of a unit with chunks exists. -/
theorem Valid.kb_of_chunk (h : t.Valid) {c : Chunk} (hc : c ∈ t.chunks) :
    ∃ kb ∈ t.kbs, kb.id = c.knowledgeBaseId :=
  (h.units _ _ _ (h.chunks c hc).2).2

theorem countsExact_only_iff (h : t.Valid) (hexact : t.CountsExact) {c : Chunk} (hc : c ∈ t.chunks)
    (honly : ChunksOnly t t') (hswap : Swap c.unitType c.unitId c.knowledgeBaseId p rows t t') :
    t'.CountsExact ↔ t.chunks.countP p = rows.length :=
  countsExact_swap_iff hexact hswap (h.kb_of_chunk hc) honly.kbs fun _ hd => honly.documents ▸ hd

theorem cascadeDeleteUnit_counts (h : t.Valid) (hexact : t.CountsExact) (unitType : UnitType)
    (unitId : Nat) :
    (t.cascadeDeleteUnit unitType unitId).CountsExact ↔ t.unitRows unitType unitId = 0 := by
  have hkbs : (t.cascadeDeleteUnit unitType unitId).kbs = t.kbs := by cases unitType <;> rfl
  have hchunks : (t.cascadeDeleteUnit unitType unitId).chunks =
      deleteChunks (Chunk.inUnit unitType unitId) t.chunks := by cases unitType <;> rfl
  have hnext : (t.cascadeDeleteUnit unitType unitId).next = t.next := by cases unitType <;> rfl
  have hdocs : ∀ d ∈ (t.cascadeDeleteUnit unitType unitId).documents, d ∈ t.documents := by
    intro d hd
    cases unitType with
    | document => exact (List.mem_filter.1 hd).1
    | entry => exact hd
  constructor
  · intro h'
    by_contra hrows
    obtain ⟨c, hc, hin⟩ := List.countP_pos_iff.1 (Nat.pos_of_ne_zero hrows)
    have hunit : c.unitType = unitType ∧ c.unitId = unitId := Chunk.inUnit_iff.1 hin
    have hswap : Swap unitType unitId c.knowledgeBaseId (Chunk.inUnit unitType unitId) [] t
        (t.cascadeDeleteUnit unitType unitId) :=
      .delete hchunks hnext.ge (h.inUnit_home (h.unit_of_chunk hc hunit))
    exact hrows ((countsExact_swap_iff hexact hswap (h.kb_of_chunk hc) hkbs hdocs).1 h')
  · intro hnone
    have hsame : (t.cascadeDeleteUnit unitType unitId).chunks = t.chunks := by
      rw [hchunks]
      apply deleteChunks_of_none
      intro c hc
      simpa using List.countP_eq_zero.1 hnone c hc
    constructor
    · intro d hd
      rw [hexact.documents d (hdocs d hd), unitRows, unitRows, hsame]
    · intro kb hkb
      rw [hkbs] at hkb
      rw [hexact.kbs kb hkb, kbRows, kbRows, hsame]

theorem uploadDocument_counts (h : t.Valid) (hexact : t.CountsExact) {folderId : Option Nat}
    (hs' : t.uploadDocument kbId folderId = some t') : t'.CountsExact := by
  simp only [uploadDocument, Option.bind_eq_bind, Option.bind_eq_some_iff, Option.some.injEq] at hs'
  obtain ⟨kb, -, rfl⟩ := hs'
  refine ⟨?_, hexact.kbs⟩
  intro d hd
  rcases List.mem_append.1 hd with hd | hd
  · exact hexact.documents d hd
  · -- No chunk names a unit that was not drawn yet.
    obtain rfl := List.mem_singleton.1 hd
    have hnone : t.unitRows .document t.next = 0 := by
      unfold unitRows
      rw [List.countP_eq_zero]
      intro c hc hin
      have hunit : c.unitType = .document ∧ c.unitId = t.next := Chunk.inUnit_iff.1 hin
      have hlt := (h.units _ _ _ (h.unit_of_chunk hc hunit)).1
      omega
    show (0 : Int) = t.unitRows .document t.next
    rw [hnone]
    rfl

theorem createEntry_counts (hexact : t.CountsExact) {title content : String}
    {tags : List String} {seeds : List ChunkSeed}
    (hs' : t.createEntry kbId title content tags seeds = some t') : t'.CountsExact ↔ seeds = [] := by
  obtain ⟨kb, hkb, rfl⟩ := createEntry_eq_some hs'
  let entry := t.newEntry kb title content tags
  have hadded : (t.addEntry entry).CountsExact := hexact.of_same rfl rfl rfl
  have hnone : t.chunks.countP (fun _ => false) = 0 := by simp
  rw [countsExact_swap_iff hadded (createChunksForEntry_swap entry seeds) ⟨kb, hkb, rfl⟩ rfl
    fun _ hd => hd, length_seedRows, ← List.length_eq_zero_iff]
  show t.chunks.countP (fun _ => false) = _ ↔ _
  omega

theorem updateEntry_counts (h : t.Valid) (hexact : t.CountsExact) {entryId : Nat}
    {payload : EntryPayload} {seeds : List ChunkSeed}
    (hs' : t.updateEntry entryId payload seeds = some t') :
    t'.CountsExact ↔ ∀ entry, t.getEntry entryId = some entry →
      payload.contentChanged entry = true ∨ t.unitRows .entry entryId = 0 →
        seeds.length = t.unitRows .entry entryId := by
  obtain ⟨entry, hentry, rfl⟩ := updateEntry_eq_some.1 hs'
  have hswap := saveEntry_swap h hentry payload
  have hsaved := hswap.unitRows
  rw [List.length_nil] at hsaved
  have hkb := (h.units _ _ _ (unitKb_entry hentry)).2
  have hone : (∀ e, t.getEntry entryId = some e → payload.contentChanged e = true ∨
      t.unitRows .entry entryId = 0 → seeds.length = t.unitRows .entry entryId) ↔
      (payload.contentChanged entry = true ∨ t.unitRows .entry entryId = 0 →
        seeds.length = t.unitRows .entry entryId) := by
    simp [hentry]
  rw [hone]
  have hcases : payload.contentChanged entry = true ∧
        t.chunks.countP (staleChunks entry payload) = t.unitRows .entry entryId ∨
      payload.contentChanged entry = false ∧ t.chunks.countP (staleChunks entry payload) = 0 := by
    obtain ⟨-, rfl⟩ := getEntry_eq_some hentry
    unfold staleChunks
    cases payload.contentChanged entry with
    | true => exact .inl ⟨rfl, by simp [unitRows]⟩
    | false => exact .inr ⟨rfl, by simp⟩
  split
  · next hempty =>
    -- The rows of the entry are gone, and the new ones come.
    let entry' := updatedEntry entry payload (t.reviewRequired entry.knowledgeBaseId)
    have hcreate := createChunksForEntry_swap (t := t.saveEntry entry payload) entry' seeds
    have hboth : Swap .entry entryId entry.knowledgeBaseId (staleChunks entry payload)
        (seedRows .entry entry'.id entry'.knowledgeBaseId entry'.reviewStatus
          (computeChunkTags entry'.tags entry'.autoTags) (t.saveEntry entry payload).next seeds) t
        ((t.saveEntry entry payload).createChunksForEntry entry' seeds) := by
      obtain ⟨-, rfl⟩ := getEntry_eq_some hentry
      refine ⟨?_, ?_, hswap.old⟩
      · show (t.saveEntry entry payload).chunks ++ _ = _
        rw [hswap.chunks, List.append_nil]
      · have hnew := hcreate.new
        rw [saveEntry_next] at hnew ⊢
        exact hnew
    rw [countsExact_swap_iff hexact hboth hkb (saveEntry_kbs entry payload) ?_, length_seedRows]
    · constructor
      · intro heq _
        omega
      · intro heq
        rcases hcases with ⟨hchanged, hall⟩ | ⟨-, hkept⟩
        · have hlen := heq (.inl hchanged)
          omega
        · have hlen := heq (.inr (by omega))
          omega
    · intro d hd
      exact saveEntry_documents (t := t) entry payload ▸ hd
  · next hrows =>
    rw [countsExact_swap_iff hexact hswap hkb (saveEntry_kbs entry payload) ?_, List.length_nil]
    · rcases hcases with ⟨-, hall⟩ | ⟨hsame, hkept⟩
      · exact absurd (by omega) hrows
      · constructor
        · intro _ hor
          rcases hor with hchanged | hzero
          · rw [hsame] at hchanged
            cases hchanged
          · exact absurd (by omega) hrows
        · intro _
          exact hkept
    · intro d hd
      exact saveEntry_documents (t := t) entry payload ▸ hd

theorem tableStep_counts {Vec : Type} {countTokens : String → Nat} {a : TableAction Vec} (h : t.Valid)
    (hexact : t.CountsExact) (hs' : tableStep countTokens t a = some t') :
    t'.CountsExact ↔ t.KeepsCounts a := by
  cases a with
  | uploadDocument kbId folderId => exact iff_of_true (uploadDocument_counts h hexact hs') trivial
  | startIngest docId => exact startIngest_counts h hexact hs'
  | finishIngest docId source => exact finishIngest_counts hexact hs'
  | failIngest docId =>
      obtain ⟨-, rfl⟩ := failIngest_eq_some.1 hs'
      exact iff_of_true (hexact.of_same (map_updateWhere fun _ => rfl) rfl rfl) trivial
  | buildRaptor docId env => exact buildRaptor_counts hexact hs'
  | cascadeDeleteUnit unitType unitId =>
      cases hs'
      exact cascadeDeleteUnit_counts h hexact unitType unitId
  | editChunk chunkId newContent =>
      obtain ⟨c, -, rfl⟩ := editChunk_eq_some.1 hs'
      exact iff_of_true (hexact.of_same rfl rfl (map_updateWhere fun _ => rfl)) trivial
  | splitChunk chunkId splitPositions =>
      obtain ⟨c, hc, rfl, rows, hmany, honly, -, hswap⟩ := splitChunk_swap h hs'
      have hone := h.countP_id hc
      rw [countsExact_only_iff h hexact hc honly hswap]
      exact iff_of_false (by omega) id
  | mergeChunks chunkIds =>
      obtain ⟨c, hc, hin, hfound, r, honly, -, hswap⟩ := mergeChunks_swap h hs'
      rw [countsExact_only_iff h hexact hc honly hswap, h.countP_ids _ hfound]
      exact dedup_length_eq_one_iff hin
  | deleteChunk chunkId =>
      obtain ⟨c, hc, rfl, honly, hswap⟩ := deleteChunk_swap h hs'
      have hone := h.countP_id hc
      rw [countsExact_only_iff h hexact hc honly hswap, List.length_nil]
      exact iff_of_false (by omega) id
  | createEntry kbId title content tags seeds => exact createEntry_counts hexact hs'
  | updateEntry entryId payload seeds => exact updateEntry_counts h hexact hs'
  | submitForReview docId =>
      obtain ⟨doc, -, rfl⟩ := submitForReview_eq_some.1 hs'
      refine iff_of_true ?_ trivial
      split
      · exact (submitDocForReview_counts docId).2 hexact
      · exact hexact
  | approve docId => exact iff_of_true ((decideReview_counts hs').2 hexact) trivial
  | reject docId => exact iff_of_true ((decideReview_counts hs').2 hexact) trivial
  | requestReReview docId =>
      obtain ⟨doc, -, rfl⟩ := requestReReview_eq_some.1 hs'
      refine iff_of_true ?_ trivial
      split
      · exact hexact.of_same (map_updateWhere fun _ => rfl) rfl (map_updateWhere fun _ => rfl)
      · exact hexact
  | setReviewRequired kbId reviewRequired =>
      cases hs'
      exact iff_of_true (hexact.of_same rfl (map_updateWhere fun _ => rfl) rfl) trivial

/-- The counters are exact in every committed state exactly when each commit meets the condition. -/
theorem counts_exact_iff {Vec : Type} (countTokens : String → Nat) (h : t.Valid)
    (hexact : t.CountsExact) (as : List (TableAction Vec)) :
    Visits (tableStep countTokens) CountsExact t as ↔ EveryStep (tableStep countTokens) KeepsCounts t as :=
  visits_iff_everyStep_of_inv (fun _ _ _ hvalid hs' => tableStep_valid hvalid hs')
    (fun _ _ _ hvalid hexact hs' => tableStep_counts hvalid hexact hs') h hexact as

end Tables

/-- One chunk of one document, counted. -/
def oneChunk : Tables :=
  { kbs := [{ id := 0, chunkCount := 1 }]
    documents := [{ id := 1, knowledgeBaseId := 0, chunkCount := 1 }]
    chunks := [{ id := 2, unitType := .document, unitId := 1, knowledgeBaseId := 0, content := "text" }]
    next := 3 }

theorem oneChunk_valid : oneChunk.Valid :=
  Tables.valid_of_document rfl rfl rfl ⟨by decide, rfl⟩ ⟨by decide, _, List.mem_singleton_self _, rfl⟩

theorem oneChunk_exact : oneChunk.CountsExact := by
  constructor
  · intro d hd
    obtain rfl := List.mem_singleton.1 hd
    rfl
  · intro kb hkb
    obtain rfl := List.mem_singleton.1 hkb
    rfl

/-- `delete_chunk` leaves both counters at one row. -/
theorem delete_leaves_counters :
    ¬ ∀ (t : Tables) (as : List (TableAction Unit)), t.Valid → t.CountsExact →
      Visits (tableStep fun _ => 0) Tables.CountsExact t as := by
  intro hall
  have hlast := (hall oneChunk [.deleteChunk 2] oneChunk_valid oneChunk_exact).last rfl
  have hkb := hlast.kbs { id := 0, chunkCount := 1 } List.mem_cons_self
  exact absurd hkb (by decide)

/-- An edit, and an upload whose ingestion fails. -/
theorem counts_exact_oneChunk :
    Visits (tableStep fun _ => 0) Tables.CountsExact oneChunk
      ([.editChunk 2 "other text", .uploadDocument 0 none, .startIngest 3, .failIngest 3] :
        List (TableAction Unit)) := by
  apply (Tables.counts_exact_iff _ oneChunk_valid oneChunk_exact _).2
  apply EveryStep.cons_of_eq rfl trivial
  apply EveryStep.cons_of_eq rfl trivial
  apply EveryStep.cons_of_eq rfl
  · rfl
  intro s _
  exact ⟨trivial, trivial⟩

end OpsKnowledge.Knowledge
