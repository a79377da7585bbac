import OpsKnowledge.Knowledge.Store

/-!
# What every commit keeps

The keys that the schema enforces, and that a chunk has the base of its unit. Each commit
that inserts or deletes rows is a swap within one unit; what it does to the counters and
the flags is read off the swap.
-/

namespace OpsKnowledge.Knowledge

open OpsKnowledge.Lib

namespace Tables

/-- The knowledge base of a unit. -/
def unitKb (t : Tables) : UnitType → Nat → Option Nat
  | .document, unitId => (t.getDocument unitId).map Document.knowledgeBaseId
  | .entry, unitId => (t.getEntry unitId).map KnowledgeEntry.knowledgeBaseId

structure Valid (t : Tables) : Prop where
  nodup : (t.chunks.map Chunk.id).Nodup
  chunks : ∀ c ∈ t.chunks, c.id < t.next ∧ t.unitKb c.unitType c.unitId = some c.knowledgeBaseId
  units : ∀ unitType unitId k, t.unitKb unitType unitId = some k →
    unitId < t.next ∧ ∃ kb ∈ t.kbs, kb.id = k

/-- A step that leaves the units where they are. -/
structure Frame (t t' : Tables) : Prop where
  next : t.next ≤ t'.next
  kbs : t'.kbs.map KnowledgeBase.id = t.kbs.map KnowledgeBase.id
  units : t'.unitKb = t.unitKb

/-- A step that writes the table of chunks alone. -/
structure ChunksOnly (t t' : Tables) : Prop where
  next : t.next ≤ t'.next
  kbs : t'.kbs = t.kbs
  documents : t'.documents = t.documents
  entries : t'.entries = t.entries

/-- Rows of a unit go, new rows of the same unit come. -/
structure Swap (unitType : UnitType) (unitId kbId : Nat) (p : Chunk → Bool) (rows : List Chunk)
    (t t' : Tables) : Prop where
  chunks : t'.chunks = deleteChunks p t.chunks ++ rows
  new : NewRows unitType unitId kbId t.next t'.next rows
  old : ∀ c ∈ t.chunks, p c = true →
    c.unitType = unitType ∧ c.unitId = unitId ∧ c.knowledgeBaseId = kbId

variable {t t' : Tables} {unitType : UnitType} {unitId kbId docId chunkId : Nat} {p : Chunk → Bool}
  {rows : List Chunk}

/-! ## Lookups -/

theorem getDocument_updateDocument {f : Document → Document} (hf : ∀ d, (f d).id = d.id)
    (docId i : Nat) : (t.updateDocument docId f).getDocument i =
      (t.getDocument i).map fun d => if i = docId then f d else d :=
  find?_updateWhere hf docId i

theorem unitKb_of_documents {f : Document → Document}
    (hdocs : t'.documents = updateWhere (fun d => d.id = docId) f t.documents)
    (hentries : t'.entries = t.entries)
    (hf : ∀ d, (f d).id = d.id ∧ (f d).knowledgeBaseId = d.knowledgeBaseId) : t'.unitKb = t.unitKb := by
  funext unitType unitId
  cases unitType with
  | entry =>
      simp only [unitKb, getEntry, hentries]
  | document =>
      simp only [unitKb, getDocument, hdocs]
      exact map_find?_updateWhere hf docId unitId

theorem Valid.unit_of_chunk (h : t.Valid) {c : Chunk} (hc : c ∈ t.chunks)
    (hunit : c.unitType = unitType ∧ c.unitId = unitId) :
    t.unitKb unitType unitId = some c.knowledgeBaseId := by
  obtain ⟨rfl, rfl⟩ := hunit
  exact (h.chunks c hc).2

/-- The chunks of one unit have one base. -/
theorem Valid.inUnit_home (h : t.Valid) (hk : t.unitKb unitType unitId = some kbId) :
    ∀ c ∈ t.chunks, c.inUnit unitType unitId = true →
      c.unitType = unitType ∧ c.unitId = unitId ∧ c.knowledgeBaseId = kbId := by
  intro c hc hin
  have hunit : c.unitType = unitType ∧ c.unitId = unitId := Chunk.inUnit_iff.1 hin
  have hsome := (h.unit_of_chunk hc hunit).symm.trans hk
  exact ⟨hunit.1, hunit.2, Option.some.inj hsome⟩

theorem Valid.eq_of_id (h : t.Valid) {c d : Chunk} (hc : c ∈ t.chunks) (hd : d ∈ t.chunks)
    (hid : c.id = d.id) : c = d :=
  List.inj_on_of_nodup_map h.nodup hc hd hid

theorem Valid.getChunk_self (h : t.Valid) {c : Chunk} (hc : c ∈ t.chunks) :
    getChunk t.chunks c.id = .ok c := by
  unfold getChunk
  cases hf : t.chunks.find? fun d => d.id = c.id with
  | none =>
      have hnone := List.find?_eq_none.1 hf c hc
      simp at hnone
  | some d =>
      have hd : d.id = c.id := by simpa using List.find?_some hf
      rw [h.eq_of_id (List.mem_of_find?_eq_some hf) hc hd]

/-! ## Frames -/

theorem ChunksOnly.frame (h : ChunksOnly t t') : Frame t t' := by
  refine ⟨h.next, by rw [h.kbs], ?_⟩
  funext unitType unitId
  cases unitType with
  | document => simp only [unitKb, getDocument, h.documents]
  | entry => simp only [unitKb, getEntry, h.entries]

theorem updateDocument_frame {f : Document → Document}
    (hf : ∀ d, (f d).id = d.id ∧ (f d).knowledgeBaseId = d.knowledgeBaseId) :
    Frame t (t.updateDocument docId f) :=
  ⟨le_rfl, rfl, unitKb_of_documents rfl rfl hf⟩

theorem Frame.mem_kbs (h : Frame t t') (hkb : ∃ kb ∈ t.kbs, kb.id = kbId) :
    ∃ kb ∈ t'.kbs, kb.id = kbId := by
  have hmem : kbId ∈ t'.kbs.map KnowledgeBase.id := by
    rw [h.kbs]
    exact List.mem_map.2 hkb
  exact List.mem_map.1 hmem

theorem Valid.units_frame (h : t.Valid) (hframe : Frame t t') :
    ∀ unitType unitId k, t'.unitKb unitType unitId = some k →
      unitId < t'.next ∧ ∃ kb ∈ t'.kbs, kb.id = k := by
  intro unitType unitId k hk
  rw [hframe.units] at hk
  obtain ⟨hlt, hkb⟩ := h.units unitType unitId k hk
  exact ⟨lt_of_lt_of_le hlt hframe.next, hframe.mem_kbs hkb⟩

/-- Rows whose keys stay. -/
theorem Valid.map (h : t.Valid) (hframe : Frame t t') {f : Chunk → Chunk}
    (hchunks : t'.chunks = t.chunks.map f)
    (hf : ∀ c, (f c).id = c.id ∧ (f c).unitType = c.unitType ∧ (f c).unitId = c.unitId ∧
      (f c).knowledgeBaseId = c.knowledgeBaseId) : t'.Valid := by
  refine ⟨?_, ?_, h.units_frame hframe⟩
  · have hids : t'.chunks.map Chunk.id = t.chunks.map Chunk.id := by
      rw [hchunks, List.map_map]
      exact List.map_congr_left fun c _ => (hf c).1
    exact hids ▸ h.nodup
  · intro c' hc'
    rw [hchunks] at hc'
    obtain ⟨c, hc, rfl⟩ := List.mem_map.1 hc'
    obtain ⟨hid, htype, hunit, hkb⟩ := hf c
    obtain ⟨hlt, hhome⟩ := h.chunks c hc
    rw [hid, htype, hunit, hkb, hframe.units]
    exact ⟨lt_of_lt_of_le hlt hframe.next, hhome⟩

/-- Some of the rows are written, and their keys stay. -/
theorem Valid.write (h : t.Valid) (hframe : Frame t t') {f : Chunk → Chunk}
    (hchunks : t'.chunks = updateWhere p f t.chunks)
    (hf : ∀ c, (f c).id = c.id ∧ (f c).unitType = c.unitType ∧ (f c).unitId = c.unitId ∧
      (f c).knowledgeBaseId = c.knowledgeBaseId) : t'.Valid := by
  refine h.map hframe hchunks ?_
  intro c
  split
  · exact hf c
  · exact ⟨rfl, rfl, rfl, rfl⟩

theorem Valid.same_chunks (h : t.Valid) (hframe : Frame t t') (hchunks : t'.chunks = t.chunks) :
    t'.Valid :=
  h.map hframe (f := id) (by rw [hchunks, List.map_id]) fun _ => ⟨rfl, rfl, rfl, rfl⟩

/-- What remains of a deletion has the keys that it had. -/
theorem mem_deleteChunks_keys {chunks : List Chunk} {c : Chunk} (hc : c ∈ deleteChunks p chunks) :
    ∃ d ∈ chunks, p d = false ∧ c.id = d.id ∧ c.unitType = d.unitType ∧ c.unitId = d.unitId ∧
      c.knowledgeBaseId = d.knowledgeBaseId ∧ c.reviewExcluded = d.reviewExcluded := by
  obtain ⟨d, hd, hp, gone, rfl⟩ := mem_deleteChunks hc
  exact ⟨d, hd, hp, by simp, by simp, by simp, by simp, by simp⟩

theorem nodup_deleteChunks (h : t.Valid) (p : Chunk → Bool) :
    ((deleteChunks p t.chunks).map Chunk.id).Nodup := by
  have hids : (deleteChunks p t.chunks).map Chunk.id =
      (t.chunks.filter fun c => !p c).map Chunk.id := by
    simp [deleteChunks, List.map_map, Function.comp_def]
  rw [hids]
  exact h.nodup.sublist (List.filter_sublist.map Chunk.id)

theorem Valid.swap (h : t.Valid) (hframe : Frame t t')
    (hswap : Swap unitType unitId kbId p rows t t') (hunit : t.unitKb unitType unitId = some kbId) :
    t'.Valid := by
  refine ⟨?_, ?_, h.units_frame hframe⟩
  · rw [hswap.chunks, List.map_append, List.nodup_append]
    refine ⟨nodup_deleteChunks h p, hswap.new.nodup, ?_⟩
    intro i hi j hj hij
    obtain ⟨c, hc, rfl⟩ := List.mem_map.1 hi
    obtain ⟨r, hr, rfl⟩ := List.mem_map.1 hj
    obtain ⟨d, hd, -, hid, -⟩ := mem_deleteChunks_keys hc
    have hold := (h.chunks d hd).1
    have hnew := (hswap.new.fresh r hr).1
    omega
  · intro c hc
    rw [hswap.chunks] at hc
    rw [hframe.units]
    rcases List.mem_append.1 hc with hc | hc
    · obtain ⟨d, hd, -, hid, htype, hunit, hkb, -⟩ := mem_deleteChunks_keys hc
      obtain ⟨hlt, hd⟩ := h.chunks d hd
      rw [hid, htype, hunit, hkb]
      exact ⟨lt_of_lt_of_le hlt hframe.next, hd⟩
    · obtain ⟨htype, hid, hkb⟩ := hswap.new.unit c hc
      rw [htype, hid, hkb]
      exact ⟨(hswap.new.fresh c hc).2, hunit⟩

/-! ## Swaps -/

/-- An insertion is a swap that takes nothing. -/
theorem Swap.insert (hchunks : t'.chunks = t.chunks ++ rows)
    (hnew : NewRows unitType unitId kbId t.next t'.next rows) :
    Swap unitType unitId kbId (fun _ => false) rows t t' :=
  ⟨by rw [hchunks, deleteChunks_of_none fun _ _ => rfl], hnew, by simp⟩

theorem Swap.delete (hchunks : t'.chunks = deleteChunks p t.chunks) (hnext : t.next ≤ t'.next)
    (hold : ∀ c ∈ t.chunks, p c = true →
      c.unitType = unitType ∧ c.unitId = unitId ∧ c.knowledgeBaseId = kbId) :
    Swap unitType unitId kbId p [] t t' :=
  ⟨by rw [hchunks, List.append_nil], .nil _ _ _ hnext, hold⟩

theorem replaceChunks_only (p : Chunk → Bool) (rows : List Chunk) :
    ChunksOnly t (t.replaceChunks p rows) :=
  ⟨Nat.le_add_right _ _, rfl, rfl, rfl⟩

theorem replaceChunks_swap (hnew : NewRows unitType unitId kbId t.next (t.next + rows.length) rows)
    (hold : ∀ c ∈ t.chunks, p c = true →
      c.unitType = unitType ∧ c.unitId = unitId ∧ c.knowledgeBaseId = kbId) :
    Swap unitType unitId kbId p (rows.map (Chunk.detach ((t.chunks.filter p).map Chunk.id))) t
      (t.replaceChunks p rows) :=
  ⟨rfl, hnew.map_detach _, hold⟩

theorem Valid.id_home (h : t.Valid) {c : Chunk} (hc : c ∈ t.chunks) :
    ∀ d ∈ t.chunks, decide (d.id = c.id) = true →
      d.unitType = c.unitType ∧ d.unitId = c.unitId ∧ d.knowledgeBaseId = c.knowledgeBaseId := by
  intro d hd hid
  rw [h.eq_of_id hd hc (of_decide_eq_true hid)]
  exact ⟨rfl, rfl, rfl⟩

/-! ## Ingestion -/

theorem getDocument_eq_some {doc : Document} (h : t.getDocument docId = some doc) :
    doc ∈ t.documents ∧ doc.id = docId :=
  ⟨List.mem_of_find?_eq_some h, by simpa using List.find?_some h⟩

theorem getEntry_eq_some {entryId : Nat} {entry : KnowledgeEntry} (h : t.getEntry entryId = some entry) :
    entry ∈ t.entries ∧ entry.id = entryId :=
  ⟨List.mem_of_find?_eq_some h, by simpa using List.find?_some h⟩

theorem unitKb_document {doc : Document} (h : t.getDocument docId = some doc) :
    t.unitKb .document docId = some doc.knowledgeBaseId := by
  simp [unitKb, h]

theorem unitKb_entry {entryId : Nat} {entry : KnowledgeEntry} (h : t.getEntry entryId = some entry) :
    t.unitKb .entry entryId = some entry.knowledgeBaseId := by
  simp [unitKb, h]

/-- One document with one chunk. -/
theorem valid_of_document {d : Document} {c : Chunk} (hdocuments : t.documents = [d])
    (hentries : t.entries = []) (hchunks : t.chunks = [c])
    (hc : c.id < t.next ∧ t.unitKb c.unitType c.unitId = some c.knowledgeBaseId)
    (hd : d.id < t.next ∧ ∃ kb ∈ t.kbs, kb.id = d.knowledgeBaseId) : t.Valid where
  nodup := by
    rw [hchunks]
    exact List.nodup_singleton c.id
  chunks := by
    rw [hchunks]
    intro c' hc'
    cases List.mem_singleton.1 hc'
    exact hc
  units := by
    intro unitType unitId k hk
    cases unitType with
    | entry =>
        obtain ⟨entry, hentry, -⟩ := Option.map_eq_some_iff.1 hk
        have hmem := (getEntry_eq_some hentry).1
        rw [hentries] at hmem
        cases hmem
    | document =>
        obtain ⟨doc, hdoc, rfl⟩ := Option.map_eq_some_iff.1 hk
        obtain ⟨hmem, rfl⟩ := getDocument_eq_some hdoc
        rw [hdocuments] at hmem
        cases List.mem_singleton.1 hmem
        exact hd

theorem clearIngested_frame (docId kbId : Nat) : Frame t (t.clearIngested docId kbId) :=
  ⟨le_rfl, map_updateWhere fun _ => rfl, unitKb_of_documents rfl rfl fun _ => ⟨rfl, rfl⟩⟩

theorem clearIngested_swap (h : t.Valid) (hunit : t.unitKb .document docId = some kbId) :
    Swap .document docId kbId (Chunk.inUnit .document docId) [] t (t.clearIngested docId kbId) :=
  .delete rfl le_rfl (h.inUnit_home hunit)

theorem saveIngested_frame (docId kbId : Nat) (rows : List Chunk) {next : Nat} (hnext : t.next ≤ next) :
    Frame t (t.saveIngested docId kbId rows next) :=
  ⟨hnext, map_updateWhere fun _ => rfl, unitKb_of_documents rfl rfl fun _ => ⟨rfl, rfl⟩⟩

theorem saveIngested_swap {next : Nat} (hnew : NewRows .document docId kbId t.next next rows) :
    Swap .document docId kbId (fun _ => false) rows t (t.saveIngested docId kbId rows next) :=
  .insert rfl hnew

theorem Valid.setChunksExcluded (h : t.Valid) (docId : Nat) (excluded : Bool) :
    (t.setChunksExcluded docId excluded).Valid :=
  h.write ⟨le_rfl, rfl, rfl⟩ rfl fun _ => ⟨rfl, rfl, rfl, rfl⟩

theorem Valid.updateDocument (h : t.Valid) {f : Document → Document}
    (hf : ∀ d, (f d).id = d.id ∧ (f d).knowledgeBaseId = d.knowledgeBaseId) :
    (t.updateDocument docId f).Valid :=
  h.same_chunks (updateDocument_frame hf) rfl

theorem Valid.setReviewStatus (h : t.Valid) (docId : Nat) (status : ReviewStatus) :
    (t.setReviewStatus docId status).Valid :=
  h.updateDocument fun _ => ⟨rfl, rfl⟩

theorem Valid.submitDocForReview (h : t.Valid) (docId : Nat) : (t.submitDocForReview docId).Valid := by
  unfold Tables.submitDocForReview
  cases t.getDocument docId with
  | none => exact h
  | some doc =>
      simp only
      split
      · exact h
      · exact (h.setReviewStatus docId .pending).setChunksExcluded docId true

/-! ## Chunk operations and the cascade -/

theorem Valid.cascadeDeleteUnit (h : t.Valid) (unitType : UnitType) (unitId : Nat) :
    (t.cascadeDeleteUnit unitType unitId).Valid := by
  have hchunks : (t.cascadeDeleteUnit unitType unitId).chunks =
      deleteChunks (Chunk.inUnit unitType unitId) t.chunks := by cases unitType <;> rfl
  have hnext : (t.cascadeDeleteUnit unitType unitId).next = t.next := by cases unitType <;> rfl
  have hkbs : (t.cascadeDeleteUnit unitType unitId).kbs = t.kbs := by cases unitType <;> rfl
  have hunits : ∀ type id, (t.cascadeDeleteUnit unitType unitId).unitKb type id =
      if type = unitType ∧ id = unitId then none else t.unitKb type id := by
    intro type id
    cases unitType with
    | document =>
        cases type with
        | document =>
            show Option.map _ ((t.documents.filter fun d => d.id ≠ unitId).find? fun d => d.id = id) = _
            rw [find?_filter_ne]
            by_cases hid : id = unitId <;> simp [hid, unitKb, getDocument]
        | entry => simp [Tables.cascadeDeleteUnit, unitKb, getEntry, removeChunks]
    | entry =>
        cases type with
        | document => simp [Tables.cascadeDeleteUnit, unitKb, getDocument, removeChunks]
        | entry =>
            show Option.map _ ((t.entries.filter fun e => e.id ≠ unitId).find? fun e => e.id = id) = _
            rw [find?_filter_ne]
            by_cases hid : id = unitId <;> simp [hid, unitKb, getEntry]
  refine ⟨?_, ?_, ?_⟩
  · rw [hchunks]
    exact nodup_deleteChunks h _
  · -- The chunks that stay are those of other units.
    intro c hc
    rw [hchunks] at hc
    obtain ⟨d, hd, hout, hid, htype, hunit, hkb, -⟩ := mem_deleteChunks_keys hc
    obtain ⟨hlt, hhome⟩ := h.chunks d hd
    have hother : ¬ (d.unitType = unitType ∧ d.unitId = unitId) := by
      simpa [Chunk.inUnit] using hout
    rw [hid, htype, hunit, hkb, hnext, hunits, if_neg hother]
    exact ⟨hlt, hhome⟩
  · intro type id k hk
    rw [hunits] at hk
    obtain ⟨-, hk⟩ := Option.ite_none_left_eq_some.1 hk
    rw [hnext, hkbs]
    exact h.units type id k hk

theorem editChunk_eq_some {newContent : String} :
    t.editChunk chunkId newContent = some t' ↔ ∃ c, getChunk t.chunks chunkId = .ok c ∧
      { t with chunks := updateWhere (fun c => c.id = chunkId) (fun c => editedChunk c newContent)
                 t.chunks } = t' := by
  simp [editChunk, toOption_eq_some, Option.bind_eq_some_iff]

theorem splitChunk_eq_some {splitPositions : List Int} :
    t.splitChunk chunkId splitPositions = some t' ↔ ∃ c, getChunk t.chunks chunkId = .ok c ∧
      ∃ rows, splitRows c splitPositions t.next = .ok rows ∧
        t.replaceChunks (fun c => c.id = chunkId) rows = t' := by
  simp [splitChunk, toOption_eq_some, Option.bind_eq_some_iff]

theorem mergeChunks_eq_some {chunkIds : List Nat} :
    t.mergeChunks chunkIds = some t' ↔ ∃ first rest, mergeSources t.chunks chunkIds = .ok (first, rest) ∧
      t.replaceChunks (fun c => c.id ∈ chunkIds) [mergedChunk t.next first rest] = t' := by
  simp [mergeChunks, toOption_eq_some, Option.bind_eq_some_iff]

theorem deleteChunk_eq_some :
    t.deleteChunk chunkId = some t' ↔ ∃ c, getChunk t.chunks chunkId = .ok c ∧
      t.removeChunks (fun c => c.id = chunkId) = t' := by
  simp [deleteChunk, toOption_eq_some, Option.bind_eq_some_iff]

theorem Valid.editChunk (h : t.Valid) {newContent : String}
    (hs' : t.editChunk chunkId newContent = some t') : t'.Valid := by
  obtain ⟨c, -, rfl⟩ := editChunk_eq_some.1 hs'
  exact h.write ⟨le_rfl, rfl, rfl⟩ rfl fun _ => ⟨rfl, rfl, rfl, rfl⟩

/-- A split takes one row and inserts at least two in its unit. -/
theorem splitChunk_swap (h : t.Valid) {splitPositions : List Int}
    (hs' : t.splitChunk chunkId splitPositions = some t') :
    ∃ c ∈ t.chunks, c.id = chunkId ∧ ∃ rows, 2 ≤ rows.length ∧ ChunksOnly t t' ∧
      (∀ r ∈ rows, r.reviewExcluded = c.reviewExcluded) ∧
      Swap c.unitType c.unitId c.knowledgeBaseId (fun d => d.id = chunkId) rows t t' := by
  obtain ⟨c, hget, rows, hrows, rfl⟩ := splitChunk_eq_some.1 hs'
  obtain ⟨hc, rfl⟩ := getChunk_eq_ok hget
  obtain ⟨hmany, hnew, hflags⟩ := splitRows_spec hrows
  have hswap := replaceChunks_swap (t := t) hnew (h.id_home hc)
  refine ⟨c, hc, rfl, _, ?_, replaceChunks_only _ _, ?_, hswap⟩
  · simpa using hmany
  · intro r' hr'
    obtain ⟨r, hr, rfl⟩ := List.mem_map.1 hr'
    simpa using (hflags r hr).1

/-- A merge takes the rows that are named and inserts one in their unit. -/
theorem mergeChunks_swap (h : t.Valid) {chunkIds : List Nat}
    (hs' : t.mergeChunks chunkIds = some t') :
    ∃ c ∈ t.chunks, c.id ∈ chunkIds ∧ (∀ i ∈ chunkIds, ∃ d ∈ t.chunks, d.id = i) ∧
      ∃ r, ChunksOnly t t' ∧
        (r.reviewExcluded = true ↔ ∃ d ∈ t.chunks, d.id ∈ chunkIds ∧ d.reviewExcluded = true) ∧
        Swap c.unitType c.unitId c.knowledgeBaseId (fun d => d.id ∈ chunkIds) [r] t t' := by
  obtain ⟨first, rest, hsources, rfl⟩ := mergeChunks_eq_some.1 hs'
  have hspec := mergeSources_spec hsources
  have hmem : ∀ d, d ∈ first :: rest ↔ d ∈ t.chunks ∧ d.id ∈ chunkIds := by
    intro d
    rw [hspec.named]
    constructor
    · intro hd
      obtain ⟨i, hi, hget⟩ := hd
      obtain ⟨hd, rfl⟩ := getChunk_eq_ok hget
      exact ⟨hd, hi⟩
    · intro hd
      exact ⟨d.id, hd.2, h.getChunk_self hd.1⟩
  obtain ⟨hfirst, hid⟩ := (hmem first).1 List.mem_cons_self
  have hunit : ∀ d ∈ first :: rest, d.unitType = first.unitType ∧ d.unitId = first.unitId := by
    intro d hd
    rcases List.mem_cons.1 hd with rfl | hd
    · exact ⟨rfl, rfl⟩
    · exact hspec.unit d hd
  have hold : ∀ d ∈ t.chunks, decide (d.id ∈ chunkIds) = true → d.unitType = first.unitType ∧
      d.unitId = first.unitId ∧ d.knowledgeBaseId = first.knowledgeBaseId := by
    intro d hd hin
    have hsame := hunit d ((hmem d).2 ⟨hd, of_decide_eq_true hin⟩)
    have hkb := (h.unit_of_chunk hd hsame).symm.trans (h.chunks first hfirst).2
    exact ⟨hsame.1, hsame.2, Option.some.inj hkb⟩
  have hnew : NewRows first.unitType first.unitId first.knowledgeBaseId t.next
      (t.next + [mergedChunk t.next first rest].length) [mergedChunk t.next first rest] :=
    mergedChunk_new t.next first rest
  have hswap := replaceChunks_swap hnew hold
  refine ⟨first, hfirst, hid, ?_, _, replaceChunks_only _ _, ?_, hswap⟩
  · intro i hi
    obtain ⟨d, hget⟩ := hspec.found i hi
    obtain ⟨hd, hid⟩ := getChunk_eq_ok hget
    exact ⟨d, hd, hid⟩
  · rw [detach_reviewExcluded]
    show (first :: rest).any Chunk.reviewExcluded = true ↔ _
    rw [List.any_eq_true]
    constructor
    · intro hd
      obtain ⟨d, hd, hexcluded⟩ := hd
      exact ⟨d, ((hmem d).1 hd).1, ((hmem d).1 hd).2, hexcluded⟩
    · intro hd
      obtain ⟨d, hd, hin, hexcluded⟩ := hd
      exact ⟨d, (hmem d).2 ⟨hd, hin⟩, hexcluded⟩

theorem deleteChunk_swap (h : t.Valid) (hs' : t.deleteChunk chunkId = some t') :
    ∃ c ∈ t.chunks, c.id = chunkId ∧ ChunksOnly t t' ∧
      Swap c.unitType c.unitId c.knowledgeBaseId (fun d => d.id = chunkId) [] t t' := by
  obtain ⟨c, hget, rfl⟩ := deleteChunk_eq_some.1 hs'
  obtain ⟨hc, rfl⟩ := getChunk_eq_ok hget
  exact ⟨c, hc, rfl, ⟨le_rfl, rfl, rfl, rfl⟩, .delete rfl le_rfl (h.id_home hc)⟩

/-! ## Units -/

/-- A new unit, with an id that no row has. -/
theorem Valid.addUnit (h : t.Valid) (unitType : UnitType) (hchunks : t'.chunks = t.chunks)
    (hkbs : t'.kbs = t.kbs)
    (hnext : t'.next = t.next + 1) (hkb : ∃ kb ∈ t.kbs, kb.id = kbId)
    (hunits : ∀ type id, t'.unitKb type id =
      (t.unitKb type id).or (if type = unitType ∧ id = t.next then some kbId else none)) :
    t'.Valid := by
  refine ⟨hchunks ▸ h.nodup, ?_, ?_⟩
  · intro c hc
    rw [hchunks] at hc
    obtain ⟨hlt, hhome⟩ := h.chunks c hc
    rw [hnext, hunits, hhome]
    exact ⟨by omega, rfl⟩
  · intro type id k hk
    rw [hunits] at hk
    rw [hnext, hkbs]
    rcases Option.or_eq_some_iff.1 hk with hold | ⟨-, hnew⟩
    · obtain ⟨hlt, hkb⟩ := h.units type id k hold
      exact ⟨by omega, hkb⟩
    · obtain ⟨⟨-, rfl⟩, heq⟩ := Option.ite_none_right_eq_some.1 hnew
      exact ⟨Nat.lt_succ_self _, Option.some.inj heq ▸ hkb⟩

theorem Valid.addDocument (h : t.Valid) {doc : Document} (hid : doc.id = t.next)
    (hkb : ∃ kb ∈ t.kbs, kb.id = doc.knowledgeBaseId) : (t.addDocument doc).Valid := by
  refine h.addUnit .document rfl rfl rfl hkb ?_
  intro type id
  cases type with
  | entry => simp [Tables.addDocument, unitKb, getEntry]
  | document =>
      simp only [Tables.addDocument, unitKb, getDocument, List.find?_append, true_and,
        Option.map_or]
      by_cases heq : id = t.next <;> simp [heq, hid, eq_comm]

theorem Valid.addEntry (h : t.Valid) {entry : KnowledgeEntry} (hid : entry.id = t.next)
    (hkb : ∃ kb ∈ t.kbs, kb.id = entry.knowledgeBaseId) : (t.addEntry entry).Valid := by
  refine h.addUnit .entry rfl rfl rfl hkb ?_
  intro type id
  cases type with
  | document => simp [Tables.addEntry, unitKb, getDocument]
  | entry =>
      simp only [Tables.addEntry, unitKb, getEntry, List.find?_append, true_and,
        Option.map_or]
      by_cases heq : id = t.next <;> simp [heq, hid, eq_comm]

section SaveEntry

variable (entry : KnowledgeEntry) (payload : EntryPayload)

@[simp] theorem saveEntry_next : (t.saveEntry entry payload).next = t.next := by
  unfold saveEntry; simp only; split <;> rfl

@[simp] theorem saveEntry_kbs : (t.saveEntry entry payload).kbs = t.kbs := by
  unfold saveEntry; simp only; split <;> rfl

@[simp] theorem saveEntry_documents : (t.saveEntry entry payload).documents = t.documents := by
  unfold saveEntry; simp only; split <;> rfl

theorem saveEntry_entries : (t.saveEntry entry payload).entries =
    updateWhere (fun e => e.id = entry.id)
      (fun e => updatedEntry e payload (t.reviewRequired entry.knowledgeBaseId)) t.entries := by
  unfold saveEntry; simp only; split <;> rfl

theorem getEntry_saveEntry (i : Nat) : (t.saveEntry entry payload).getEntry i =
    (t.getEntry i).map fun e =>
      if i = entry.id then updatedEntry e payload (t.reviewRequired entry.knowledgeBaseId) else e := by
  simp only [getEntry, saveEntry_entries]
  apply find?_updateWhere
  intro e
  rfl

theorem saveEntry_frame : Frame t (t.saveEntry entry payload) := by
  refine ⟨(saveEntry_next entry payload).ge, by rw [saveEntry_kbs], ?_⟩
  funext type id
  cases type with
  | document => simp only [unitKb, getDocument, saveEntry_documents]
  | entry =>
      simp only [unitKb, getEntry_saveEntry, Option.map_map]
      congr 1
      funext e
      by_cases h : id = entry.id
      · simp [h, updatedEntry]
      · simp [h]

end SaveEntry

end Tables

theorem TextSource.rows_new (source : TextSource) (countTokens : String → Nat) (doc : Document)
    (next : Nat) : NewRows .document doc.id doc.knowledgeBaseId next
      (source.rows countTokens doc next).2 (source.rows countTokens doc next).1 := by
  let results := source.results next
  have hdrawn : DrawnIn next results.2 (logicalIds results.1) := source.results_drawn next
  have hempty : IdMap.Valid { next := results.2 } := ⟨by simp, by simp⟩
  let objects := chunkObjects countTokens doc results.1 { next := results.2 }
  obtain ⟨hvalid, hext, hrows, hnodup⟩ := chunkObjects_spec countTokens doc hempty results.1
  have hperm : (insertOrder objects.1).Perm objects.1 := orderBy_perm _ objects.1
  refine ⟨hdrawn.le.trans hext.le, ?_, ?_, ?_⟩
  · exact (hperm.map Chunk.id).nodup_iff.2 (hnodup hdrawn.nodup)
  · intro c hc
    obtain ⟨cr, -, hrow⟩ := exists_left_of_forall₂ hrows (hperm.mem_iff.1 hc)
    cases hcr : cr.id with
    | none =>
        obtain ⟨hge, hlt, -⟩ := hrow.unnamed hcr
        exact ⟨hdrawn.le.trans hge, hlt⟩
    | some l =>
        have hget := hrow.named l hcr
        refine ⟨?_, hvalid.below l c.id hget⟩
        rcases hext.later l c.id hget with hold | hnew
        · simp at hold
        · exact hdrawn.le.trans hnew
  · intro c hc
    have hmem := hperm.mem_iff.1 hc
    obtain ⟨cr, -, hrow⟩ := exists_left_of_forall₂ hrows hmem
    have hunit : c.unitType = .document ∧ c.unitId = doc.id := by
      simpa [Chunk.inUnit] using hrow.unit
    exact ⟨hunit.1, hunit.2, (chunkObjects_fields countTokens doc results.1 _ c hmem).1⟩

theorem buildRaptor_new {Vec : Type} (env : RaptorEnv Vec) (chunks : List Chunk) (doc : Document)
    (next : Nat) : NewRows .document doc.id doc.knowledgeBaseId next
      (buildRaptor env chunks doc next).next (buildRaptor env chunks doc next).rows := by
  have hrows := buildRaptor_rows env chunks doc next
  refine ⟨hrows.le, hrows.nodup, hrows.fresh, ?_⟩
  intro c hc
  obtain ⟨hin, hkb⟩ := hrows.unit c hc
  have hunit : c.unitType = .document ∧ c.unitId = doc.id := Chunk.inUnit_iff.1 hin
  exact ⟨hunit.1, hunit.2, hkb⟩

/-! ## Steps -/

namespace Tables

variable {t t' : Tables} {docId : Nat}

theorem startIngest_eq_some :
    t.startIngest docId = some t' ↔ ∃ doc, t.getDocument docId = some doc ∧ docId ∉ t.processing ∧
      t.clearIngested docId doc.knowledgeBaseId = t' := by
  simp [startIngest, Option.bind_eq_some_iff]

/-- The tables after the new rows, before the submission for review. -/
def ingested (t : Tables) (countTokens : String → Nat) (doc : Document) (source : TextSource) : Tables :=
  t.saveIngested doc.id doc.knowledgeBaseId (source.rows countTokens doc t.next).1
    (source.rows countTokens doc t.next).2

theorem finishIngest_eq_some {countTokens : String → Nat} {source : TextSource} :
    t.finishIngest countTokens docId source = some t' ↔ ∃ doc, t.getDocument docId = some doc ∧
      docId ∈ t.processing ∧ (if t.reviewRequired doc.knowledgeBaseId then
        (t.ingested countTokens doc source).submitDocForReview docId
      else t.ingested countTokens doc source) = t' := by
  simp only [finishIngest, Option.bind_eq_bind, Option.bind_eq_some_iff, Option.ite_none_right_eq_some,
    Option.some.injEq]
  constructor
  · intro h
    obtain ⟨doc, hdoc, hlock, heq⟩ := h
    obtain ⟨-, rfl⟩ := getDocument_eq_some hdoc
    exact ⟨doc, hdoc, hlock, heq⟩
  · intro h
    obtain ⟨doc, hdoc, hlock, heq⟩ := h
    obtain ⟨-, rfl⟩ := getDocument_eq_some hdoc
    exact ⟨doc, hdoc, hlock, heq⟩

theorem ingested_frame (countTokens : String → Nat) (doc : Document) (source : TextSource) :
    Frame t (t.ingested countTokens doc source) :=
  saveIngested_frame _ _ _ (source.rows_new countTokens doc t.next).le

theorem ingested_swap (countTokens : String → Nat) (doc : Document) (source : TextSource) :
    Swap .document doc.id doc.knowledgeBaseId (fun _ => false) (source.rows countTokens doc t.next).1 t
      (t.ingested countTokens doc source) :=
  saveIngested_swap (source.rows_new countTokens doc t.next)

theorem failIngest_eq_some :
    t.failIngest docId = some t' ↔ docId ∈ t.processing ∧
      { t.updateDocument docId fun d => { d with status := .error } with
        processing := t.processing.filter (· ≠ docId) } = t' := by
  simp [failIngest]

section Raptor

variable {Vec : Type} {env : RaptorEnv Vec}

/-- The tables after the summaries and the counter of the base. -/
def summarised (t : Tables) (doc : Document) (env : RaptorEnv Vec) : Tables :=
  let build := buildRaptor env t.chunks doc t.next
  (t.insertChunks build.rows build.next).addChunkCount doc.knowledgeBaseId build.rows.length

theorem buildRaptorForDocument_eq_some :
    t.buildRaptorForDocument docId env = some t' ↔ ∃ doc, t.getDocument docId = some doc ∧
      t.summarised doc env = t' := by
  simp [buildRaptorForDocument, summarised, Option.bind_eq_some_iff]

theorem summarised_frame (doc : Document) : Frame t (t.summarised doc env) :=
  ⟨(buildRaptor_new env t.chunks doc t.next).le, map_updateWhere fun _ => rfl, rfl⟩

theorem summarised_swap (env : RaptorEnv Vec) (doc : Document) :
    Swap .document doc.id doc.knowledgeBaseId (fun _ => false)
      (buildRaptor env t.chunks doc t.next).rows t (t.summarised doc env) :=
  .insert rfl (buildRaptor_new env t.chunks doc t.next)

end Raptor

theorem createChunksForEntry_swap (entry : KnowledgeEntry) (seeds : List ChunkSeed) :
    Swap .entry entry.id entry.knowledgeBaseId (fun _ => false)
      (seedRows .entry entry.id entry.knowledgeBaseId entry.reviewStatus
        (computeChunkTags entry.tags entry.autoTags) t.next seeds) t
      (t.createChunksForEntry entry seeds) :=
  .insert rfl seedRows_new

theorem createChunksForEntry_only (entry : KnowledgeEntry) (seeds : List ChunkSeed) :
    ChunksOnly t (t.createChunksForEntry entry seeds) :=
  ⟨Nat.le_add_right _ _, rfl, rfl, rfl⟩

/-- The row that `create_unit` adds. -/
def newEntry (t : Tables) (kb : KnowledgeBase) (title content : String) (tags : List String) :
    KnowledgeEntry :=
  { id := t.next, knowledgeBaseId := kb.id, title := title, content := content
    contentHash := some (contentHash content), tags := tags
    reviewStatus := if kb.reviewRequired then some .pending else none }

theorem getKb_eq_some {kbId : Nat} {kb : KnowledgeBase} (h : t.getKb kbId = some kb) :
    kb ∈ t.kbs ∧ kb.id = kbId :=
  ⟨List.mem_of_find?_eq_some h, by simpa using List.find?_some h⟩

theorem createEntry_eq_some {kbId : Nat} {title content : String} {tags : List String}
    {seeds : List ChunkSeed} (h : t.createEntry kbId title content tags seeds = some t') :
    ∃ kb ∈ t.kbs, (t.addEntry (t.newEntry kb title content tags)).createChunksForEntry
      (t.newEntry kb title content tags) seeds = t' := by
  simp only [createEntry, Option.bind_eq_bind, Option.bind_eq_some_iff, Option.some.injEq] at h
  obtain ⟨kb, hkb, rfl⟩ := h
  obtain ⟨hmem, rfl⟩ := getKb_eq_some hkb
  exact ⟨kb, hmem, rfl⟩

theorem Valid.addNewEntry (h : t.Valid) {kb : KnowledgeBase} (hkb : kb ∈ t.kbs) (title content : String)
    (tags : List String) : (t.addEntry (t.newEntry kb title content tags)).Valid ∧
      (t.addEntry (t.newEntry kb title content tags)).getEntry t.next =
        some (t.newEntry kb title content tags) := by
  have hvalid : (t.addEntry (t.newEntry kb title content tags)).Valid := h.addEntry rfl ⟨kb, hkb, rfl⟩
  refine ⟨hvalid, ?_⟩
  -- No entry has the new id yet.
  have hfresh : t.getEntry t.next = none := by
    cases hget : t.getEntry t.next with
    | none => rfl
    | some e =>
        have hlt := (h.units .entry t.next _ (unitKb_entry hget)).1
        omega
  have hfind : t.entries.find? (fun e => e.id = t.next) = none := hfresh
  simp [Tables.addEntry, getEntry, List.find?_append, hfind, newEntry]

theorem updateEntry_eq_some {entryId : Nat} {payload : EntryPayload} {seeds : List ChunkSeed} :
    t.updateEntry entryId payload seeds = some t' ↔ ∃ entry, t.getEntry entryId = some entry ∧
      (if (t.saveEntry entry payload).unitRows .entry entryId = 0 then
        (t.saveEntry entry payload).createChunksForEntry
          (updatedEntry entry payload (t.reviewRequired entry.knowledgeBaseId)) seeds
      else t.saveEntry entry payload) = t' := by
  simp [updateEntry, Option.bind_eq_some_iff]

/-- The chunks that `update_unit` takes from the entry: all of them where the content changes. -/
def staleChunks (entry : KnowledgeEntry) (payload : EntryPayload) (c : Chunk) : Bool :=
  payload.contentChanged entry && c.inUnit .entry entry.id

theorem saveEntry_swap (h : t.Valid) {entryId : Nat} {entry : KnowledgeEntry}
    (hentry : t.getEntry entryId = some entry) (payload : EntryPayload) :
    Swap .entry entryId entry.knowledgeBaseId (staleChunks entry payload) [] t
      (t.saveEntry entry payload) := by
  obtain ⟨-, rfl⟩ := getEntry_eq_some hentry
  have hnext : t.next ≤ (t.saveEntry entry payload).next := (saveEntry_frame entry payload).next
  refine .delete ?_ hnext ?_
  · unfold saveEntry
    cases hchanged : payload.contentChanged entry with
    | true =>
        have hp : staleChunks entry payload = Chunk.inUnit .entry entry.id := by
          funext c
          simp [staleChunks, hchanged]
        rw [hp]
        rfl
    | false =>
        have hp : ∀ c ∈ t.chunks, staleChunks entry payload c = false := by
          intro c _
          simp [staleChunks, hchanged]
        exact (deleteChunks_of_none hp).symm
  · intro c hc hp
    have hin : c.inUnit .entry entry.id = true := by
      have hboth : payload.contentChanged entry = true ∧ c.inUnit .entry entry.id = true := by
        simpa [staleChunks] using hp
      exact hboth.2
    exact h.inUnit_home (unitKb_entry hentry) c hc hin

theorem submitForReview_eq_some :
    t.submitForReview docId = some t' ↔ ∃ doc, t.getDocument docId = some doc ∧
      (if t.reviewRequired doc.knowledgeBaseId then t.submitDocForReview docId else t) = t' := by
  simp [submitForReview, Option.bind_eq_some_iff]

theorem decideReview_eq_some {newStatus : ReviewStatus} :
    t.decideReview docId newStatus = some t' ↔ ∃ doc, t.getDocument docId = some doc ∧
      doc.reviewStatus.isSome ∧ (if newStatus = .approved then
        (t.setReviewStatus docId newStatus).setChunksExcluded docId false
      else t.setReviewStatus docId newStatus) = t' := by
  simp [decideReview, Option.bind_eq_some_iff]

theorem requestReReview_eq_some :
    t.requestReReview docId = some t' ↔ ∃ doc, t.getDocument docId = some doc ∧
      (if t.reviewRequired doc.knowledgeBaseId then
        (t.setReviewStatus docId .pending).setChunksExcluded docId true
      else t) = t' := by
  simp [requestReReview, Option.bind_eq_some_iff]

theorem Valid.decideReview (h : t.Valid) {newStatus : ReviewStatus}
    (hs' : t.decideReview docId newStatus = some t') : t'.Valid := by
  obtain ⟨doc, -, -, rfl⟩ := decideReview_eq_some.1 hs'
  split
  · exact (h.setReviewStatus docId newStatus).setChunksExcluded docId false
  · exact h.setReviewStatus docId newStatus

theorem Valid.createChunksForEntry (h : t.Valid) {entry : KnowledgeEntry}
    (hunit : t.unitKb .entry entry.id = some entry.knowledgeBaseId) (seeds : List ChunkSeed) :
    (t.createChunksForEntry entry seeds).Valid :=
  h.swap (createChunksForEntry_only entry seeds).frame (createChunksForEntry_swap entry seeds) hunit

theorem Valid.saveEntry (h : t.Valid) {entryId : Nat} {entry : KnowledgeEntry}
    (hentry : t.getEntry entryId = some entry) (payload : EntryPayload) :
    (t.saveEntry entry payload).Valid :=
  h.swap (saveEntry_frame entry payload) (saveEntry_swap h hentry payload) (unitKb_entry hentry)

theorem tableStep_valid {Vec : Type} {countTokens : String → Nat} {a : TableAction Vec} (h : t.Valid)
    (hs' : tableStep countTokens t a = some t') : t'.Valid := by
  cases a with
  | uploadDocument kbId folderId =>
      simp only [tableStep, uploadDocument, Option.bind_eq_bind, Option.bind_eq_some_iff,
        Option.some.injEq] at hs'
      obtain ⟨kb, hkb, rfl⟩ := hs'
      obtain ⟨hmem, hid⟩ := getKb_eq_some hkb
      exact h.addDocument rfl ⟨kb, hmem, hid⟩
  | startIngest docId =>
      obtain ⟨doc, hdoc, -, rfl⟩ := startIngest_eq_some.1 hs'
      have hunit := unitKb_document hdoc
      exact h.swap (clearIngested_frame docId _) (clearIngested_swap h hunit) hunit
  | finishIngest docId source =>
      obtain ⟨doc, hdoc, -, rfl⟩ := finishIngest_eq_some.1 hs'
      obtain ⟨-, rfl⟩ := getDocument_eq_some hdoc
      have hsaved := h.swap (ingested_frame countTokens doc source)
        (ingested_swap countTokens doc source) (unitKb_document hdoc)
      split
      · exact hsaved.submitDocForReview _
      · exact hsaved
  | failIngest docId =>
      obtain ⟨-, rfl⟩ := failIngest_eq_some.1 hs'
      exact h.same_chunks ⟨le_rfl, rfl, unitKb_of_documents rfl rfl fun _ => ⟨rfl, rfl⟩⟩ rfl
  | buildRaptor docId env =>
      obtain ⟨doc, hdoc, rfl⟩ := buildRaptorForDocument_eq_some.1 hs'
      obtain ⟨-, rfl⟩ := getDocument_eq_some hdoc
      exact h.swap (summarised_frame doc) (summarised_swap _ doc) (unitKb_document hdoc)
  | cascadeDeleteUnit unitType unitId =>
      cases hs'
      exact h.cascadeDeleteUnit unitType unitId
  | editChunk chunkId newContent => exact h.editChunk hs'
  | splitChunk chunkId splitPositions =>
      obtain ⟨c, hc, -, rows, -, honly, -, hswap⟩ := splitChunk_swap h hs'
      exact h.swap honly.frame hswap (h.chunks c hc).2
  | mergeChunks chunkIds =>
      obtain ⟨c, hc, -, -, r, honly, -, hswap⟩ := mergeChunks_swap h hs'
      exact h.swap honly.frame hswap (h.chunks c hc).2
  | deleteChunk chunkId =>
      obtain ⟨c, hc, -, honly, hswap⟩ := deleteChunk_swap h hs'
      exact h.swap honly.frame hswap (h.chunks c hc).2
  | createEntry kbId title content tags seeds =>
      obtain ⟨kb, hkb, rfl⟩ := createEntry_eq_some hs'
      obtain ⟨hadded, hget⟩ := h.addNewEntry hkb title content tags
      exact hadded.createChunksForEntry (unitKb_entry hget) seeds
  | updateEntry entryId payload seeds =>
      obtain ⟨entry, hentry, rfl⟩ := updateEntry_eq_some.1 hs'
      have hsaved := h.saveEntry hentry payload
      split
      · refine hsaved.createChunksForEntry ?_ seeds
        rw [(saveEntry_frame entry payload).units]
        obtain ⟨-, rfl⟩ := getEntry_eq_some hentry
        have hunit := unitKb_entry hentry
        exact hunit
      · exact hsaved
  | submitForReview docId =>
      obtain ⟨doc, -, rfl⟩ := submitForReview_eq_some.1 hs'
      split
      · exact h.submitDocForReview docId
      · exact h
  | approve docId => exact h.decideReview hs'
  | reject docId => exact h.decideReview hs'
  | requestReReview docId =>
      obtain ⟨doc, -, rfl⟩ := requestReReview_eq_some.1 hs'
      split
      · exact (h.setReviewStatus docId .pending).setChunksExcluded docId true
      · exact h
  | setReviewRequired kbId reviewRequired =>
      cases hs'
      exact h.same_chunks ⟨le_rfl, map_updateWhere fun _ => rfl, rfl⟩ rfl

end Tables

end OpsKnowledge.Knowledge
