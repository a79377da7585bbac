import OpsKnowledge.Review.FourEyes
import OpsKnowledge.Units.Replies
import OpsKnowledge.Units.Worker

/-!
# Isolation of knowledge bases

A request under one base should neither show nor change what rows of other bases hold. It
shows nothing when its reply is the same whatever these rows hold; it changes nothing when
the rows are the same after it, and after each task that it hands to the workers, whenever
that runs. Some of the endpoints look units and chunks up by their id alone.
-/

namespace OpsKnowledge.Units

open OpsKnowledge.Lib
open Knowledge (Tables Document KnowledgeEntry Chunk UnitType EntryPayload ChunkSeed)
open Review (HttpError Organisation User)

section Property

variable (special : String → Nat → List Char) (countTokens : String → Nat) (org : Organisation)
  (user : User) (kbId : Nat) (faults : Faults) (site : Site)

/-- Neither the request nor its tasks change a row of another base. -/
structure Confined (out : Outcome) : Prop where
  rows : LeavesOthers kbId site.tables out.site.tables
  tasks : ∀ task ∈ out.tasks, ∀ t, Later task site.tables t →
    ∀ work, LeavesOthers kbId t (task.run countTokens work t)

structure KeepsToBase (call : UnitCall) : Prop where
  reply : ∀ site', AgreeOn kbId site site' →
    (respond special org user kbId faults site' call).reply =
      (respond special org user kbId faults site call).reply
  confined : Confined countTokens kbId site (respond special org user kbId faults site call)

/-- The document or chunk that an admitted request names is not one of another base, and an entry of
another base that a batch names for deletion has no chunks. -/
def NamesOwn : UnitCall → Prop
  | .getDocument docId | .downloadDocument docId | .previewDocument docId =>
      requireKb org user kbId site "view" = .ok () → DocumentHere kbId site docId
  | .batchReprocessDocuments ids =>
      requireKb org user kbId site "edit" = .ok () → ∀ docId ∈ ids, DocumentHere kbId site docId
  | .batchDeleteEntries ids =>
      requireEntryKb org user kbId site "edit" = .ok () → ids.length ≤ 100 →
        ∀ entryId ∈ ids, ∀ entry, site.tables.getEntry entryId = some entry →
          entry.knowledgeBaseId ≠ kbId → site.tables.unitRows .entry entryId = 0
  | .editChunk chunkId _ | .deleteChunk chunkId =>
      requireKb org user kbId site "edit" = .ok () → ChunkHere kbId site chunkId
  | .splitChunkPreview chunkId positions =>
      requireKb org user kbId site "view" = .ok () → Splits positions → ChunkHere kbId site chunkId
  | .splitChunk chunkId positions =>
      requireKb org user kbId site "edit" = .ok () → Splits positions → ChunkHere kbId site chunkId
  | _ => True

end Property

/-! ## Changes -/

section Changes

variable {countTokens : String → Nat} {org : Organisation} {user : User} {kbId : Nat} {site : Site}
  {docId chunkId : Nat}

theorem Confined.of_home {out : Outcome} (hrows : LeavesOthers kbId site.tables out.site.tables)
    (htasks : ∀ task ∈ out.tasks, ∀ k, site.tables.unitKb task.unit.1 task.unit.2 = some k → k = kbId) :
    Confined countTokens kbId site out := by
  refine ⟨hrows, ?_⟩
  intro task htask t hlater work
  apply Task.run_leaves countTokens work hlater.valid hlater.keyed
  intro k hk
  exact htasks task htask k (hlater.unit k hk)

theorem Confined.quiet {out : Outcome} (hrows : LeavesOthers kbId site.tables out.site.tables)
    (htasks : out.tasks = []) : Confined countTokens kbId site out := by
  apply Confined.of_home hrows
  intro task htask
  rw [htasks] at htask
  cases htask

theorem Confined.answer (reply : Except HttpError Body) :
    Confined countTokens kbId site (site.answer reply) := .quiet (.refl kbId _) rfl

theorem Confined.after {α : Type} {checks : Except HttpError α} {act : α → Outcome}
    (h : ∀ a, checks = .ok a → Confined countTokens kbId site (act a)) :
    Confined countTokens kbId site (site.after checks act) := by
  unfold Site.after
  cases hchecks : checks with
  | error e => exact .quiet (.refl kbId _) rfl
  | ok a => exact h a hchecks

theorem Confined.purgeThen {unitIds : List Nat} {faults : Faults} {commit : Site → Site}
    (hcommit : LeavesOthers kbId site.tables (commit (site.purge kbId unitIds faults.milvus)).tables) :
    Confined countTokens kbId site (site.purgeThen kbId unitIds faults commit) := by
  unfold Site.purgeThen
  split
  · exact .quiet (.refl kbId _) rfl
  · exact .quiet hcommit rfl

theorem Confined.thenPurge {committed : Site} {unitIds : List Nat} {faults : Faults} {body : Body}
    {tasks : List Task} (hrows : LeavesOthers kbId site.tables committed.tables)
    (htasks : ∀ task ∈ tasks, ∀ k, site.tables.unitKb task.unit.1 task.unit.2 = some k → k = kbId) :
    Confined countTokens kbId site (committed.thenPurge kbId unitIds faults body tasks) := by
  unfold Site.thenPurge
  split
  · exact .quiet hrows rfl
  · exact .of_home hrows htasks

theorem unitKb_home {doc : Document} (hdoc : site.tables.getDocument docId = some doc)
    (hhome : doc.knowledgeBaseId = kbId) :
    ∀ k, site.tables.unitKb .document docId = some k → k = kbId := by
  intro k hk
  rw [Tables.unitKb_document hdoc] at hk
  exact (Option.some.inj hk).symm.trans hhome

theorem unitKb_home_entry {entryId : Nat} {entry : KnowledgeEntry}
    (hentry : site.tables.getEntry entryId = some entry) (hhome : entry.knowledgeBaseId = kbId) :
    ∀ k, site.tables.unitKb .entry entryId = some k → k = kbId := by
  intro k hk
  rw [Tables.unitKb_entry hentry] at hk
  exact (Option.some.inj hk).symm.trans hhome

/-- Chunks of several units. -/
theorem home_of_units (hvalid : site.tables.Valid) {unitType : UnitType} {unitIds : List Nat}
    (hunits : ∀ unitId ∈ unitIds, ∀ k, site.tables.unitKb unitType unitId = some k → k = kbId) :
    ∀ c ∈ site.tables.chunks, decide (c.unitType = unitType ∧ c.unitId ∈ unitIds) = true →
      c.knowledgeBaseId = kbId := by
  intro c hc hin
  obtain ⟨htype, hid⟩ := of_decide_eq_true hin
  have hkb := (hvalid.chunks c hc).2
  rw [htype] at hkb
  exact hunits c.unitId hid _ hkb

/-! ### Documents -/

theorem dropDocuments_leaves (hvalid : site.tables.Valid) (hkeyed : site.tables.Keyed)
    {docIds : List Nat} (minio : Nat → Bool)
    (hdocs : ∀ docId ∈ docIds, ∃ doc, site.tables.getDocument docId = some doc ∧
      doc.knowledgeBaseId = kbId) :
    LeavesOthers kbId site.tables (dropDocuments site docIds minio).tables := by
  have hunits : ∀ docId ∈ docIds, ∀ k, site.tables.unitKb .document docId = some k → k = kbId := by
    intro docId hid
    obtain ⟨doc, hdoc, hhome⟩ := hdocs docId hid
    exact unitKb_home hdoc hhome
  refine ⟨?_, rfl, filter_deleteChunks_others hkeyed (home_of_units hvalid hunits)⟩
  apply filter_filter_of_imp
  intro d hd hother
  have hother : d.knowledgeBaseId ≠ kbId := by simpa using hother
  simp only [decide_eq_true_eq]
  intro hid
  exact hother (hunits d.id hid _ (Tables.unitKb_document (hkeyed.getDocument hd)))

theorem mem_selectDocuments {ids : List Nat} (hkeyed : site.tables.Keyed) {i : Nat}
    (h : i ∈ (selectDocuments kbId site ids).map Document.id) :
    ∃ doc, site.tables.getDocument i = some doc ∧ doc.knowledgeBaseId = kbId := by
  obtain ⟨doc, hdoc, rfl⟩ := List.mem_map.1 h
  obtain ⟨hmem, hboth⟩ := List.mem_filter.1 hdoc
  exact ⟨doc, hkeyed.getDocument hmem, (of_decide_eq_true hboth).2⟩

/-- A document of another base, once processed, has another status. -/
theorem processDocument_changes (countTokens : String → Nat) {t : Tables} {doc : Document}
    (hdoc : t.getDocument docId = some doc) (hfree : docId ∉ t.processing)
    (hstatus : doc.status ≠ .error) (hother : doc.knowledgeBaseId ≠ kbId) :
    ¬ LeavesOthers kbId t (Task.run countTokens .failed t (.processDocument docId)) := by
  intro hleaves
  have hstart : t.startIngest docId = some (t.clearIngested docId doc.knowledgeBaseId) :=
    Tables.startIngest_eq_some.2 ⟨doc, hdoc, hfree, rfl⟩
  obtain ⟨hmem, hid⟩ := Tables.getDocument_eq_some hdoc
  have hselected : doc ∈ t.documents.filter fun d => d.knowledgeBaseId ≠ kbId :=
    List.mem_filter.2 ⟨hmem, by simpa using hother⟩
  rw [← hleaves.documents] at hselected
  have hafter := (List.mem_filter.1 hselected).1
  simp only [Task.run, hstart, Tables.failIngest, Tables.clearIngested, List.mem_cons, true_or, if_true,
    Option.getD_some] at hafter
  obtain ⟨d, -, heq⟩ := mem_updateWhere.1 hafter
  by_cases hd : d.id = docId
  · rw [if_pos (decide_eq_true hd)] at heq
    exact hstatus (congrArg Document.status heq)
  · rw [if_neg (by simpa using hd)] at heq
    exact hd (heq ▸ hid)

/-- Where a deletion leaves the other bases alone. -/
theorem removeChunks_leaves_iff {t : Tables} (hkeyed : t.Keyed) {p : Chunk → Bool}
    (hp : ∀ gone c, p (Chunk.detach gone c) = p c) :
    LeavesOthers kbId t (t.removeChunks p) ↔
      ∀ c ∈ t.chunks, p c = true → c.knowledgeBaseId = kbId := by
  constructor
  · intro hleaves c hc hgone
    by_contra hother
    have hselected : c ∈ t.chunks.filter fun c => c.knowledgeBaseId ≠ kbId :=
      List.mem_filter.2 ⟨hc, by simpa using hother⟩
    rw [← hleaves.chunks] at hselected
    obtain ⟨d, -, hout, gone, rfl⟩ := Knowledge.mem_deleteChunks (List.mem_filter.1 hselected).1
    rw [hp] at hgone
    rw [hgone] at hout
    cases hout
  · intro hhome
    exact .of_chunks rfl rfl (filter_deleteChunks_others hkeyed hhome)

/-! ### Entries -/

theorem saveEntry_leaves {t : Tables} (hvalid : t.Valid) (hkeyed : t.Keyed) {entryId : Nat}
    {entry : KnowledgeEntry} (hentry : t.getEntry entryId = some entry)
    (hhome : entry.knowledgeBaseId = kbId) (payload : EntryPayload) :
    LeavesOthers kbId t (t.saveEntry entry payload) := by
  obtain ⟨-, rfl⟩ := Tables.getEntry_eq_some hentry
  have hunit : ∀ k, t.unitKb .entry entry.id = some k → k = kbId := by
    intro k hk
    rw [Tables.unitKb_entry hentry] at hk
    exact (Option.some.inj hk).symm.trans hhome
  refine ⟨by rw [Tables.saveEntry_documents], ?_, ?_⟩
  · rw [Tables.saveEntry_entries]
    apply filter_updateEntry hkeyed hentry hhome
    intro e
    rfl
  · unfold Tables.saveEntry
    simp only
    split
    · exact filter_deleteChunks_others hkeyed (home_of_inUnit hvalid hunit)
    · rfl

theorem createChunksForEntry_leaves (t : Tables) {entry : KnowledgeEntry}
    (hhome : entry.knowledgeBaseId = kbId) (seeds : List ChunkSeed) :
    LeavesOthers kbId t (t.createChunksForEntry entry seeds) := by
  refine .of_chunks rfl rfl (filter_append_own ?_)
  intro r hr
  exact (Knowledge.seedRows_new.unit r hr).2.2.trans hhome

theorem updateEntry_confined (hvalid : site.tables.Valid) (hkeyed : site.tables.Keyed) (entryId : Nat)
    (payload : EntryPayload) (seeds : List ChunkSeed) (faults : Faults) :
    Confined countTokens kbId site (updateEntry org user kbId site entryId payload seeds faults) := by
  apply Confined.after
  intro entry hchecks
  obtain ⟨-, hentry, hhome, -⟩ := checkUpdate_eq_ok.1 hchecks
  have hunit := unitKb_home_entry hentry hhome
  have hsaved := saveEntry_leaves hvalid hkeyed hentry hhome payload
  have hupdated : (Knowledge.updatedEntry entry payload
      (site.tables.reviewRequired entry.knowledgeBaseId)).knowledgeBaseId = kbId := hhome
  simp only
  split
  · apply Confined.thenPurge (hsaved.trans (createChunksForEntry_leaves _ hupdated seeds))
    intro task htask
    obtain rfl := List.mem_singleton.1 htask
    exact hunit
  · split
    · apply Confined.of_home hsaved
      intro task htask
      obtain rfl := List.mem_singleton.1 htask
      exact hunit
    · exact .quiet hsaved rfl

theorem deleteEntry_confined (hvalid : site.tables.Valid) (hkeyed : site.tables.Keyed) (entryId : Nat)
    (faults : Faults) : Confined countTokens kbId site (deleteEntry org user kbId site entryId faults) := by
  apply Confined.after
  intro entry hchecks
  obtain ⟨-, -, hown⟩ := bind_eq_ok.1 hchecks
  obtain ⟨hentry, hhome⟩ := ownEntry_eq_ok.1 hown
  have hunit := unitKb_home_entry hentry hhome
  apply Confined.thenPurge
  · refine ⟨rfl, ?_, filter_deleteChunks_others hkeyed (home_of_inUnit hvalid hunit)⟩
    apply filter_filter_of_imp
    intro e he hother
    have hother : e.knowledgeBaseId ≠ kbId := by simpa using hother
    simp only [decide_eq_true_eq]
    intro hid
    exact hother (hunit _ (hid ▸ Tables.unitKb_entry (hkeyed.getEntry he)))
  · intro task htask
    cases htask

/-- The rows of entries of other bases stay; their chunks are not looked at. -/
theorem dropEntries_leaves_iff (hvalid : site.tables.Valid) (hkeyed : site.tables.Keyed)
    (ids : List Nat) : LeavesOthers kbId site.tables (dropEntries kbId site ids) ↔
      ∀ entryId ∈ ids, ∀ entry, site.tables.getEntry entryId = some entry →
        entry.knowledgeBaseId ≠ kbId → site.tables.unitRows .entry entryId = 0 := by
  have hrows : LeavesOthers kbId site.tables (dropEntries kbId site ids) ↔
      LeavesOthers kbId site.tables
        (site.tables.removeChunks fun c => c.unitType = .entry ∧ c.unitId ∈ ids) := by
    constructor
    · intro h
      exact ⟨h.documents, rfl, h.chunks⟩
    · intro h
      refine ⟨h.documents, ?_, h.chunks⟩
      apply filter_filter_of_imp
      intro e _ hother
      have hother : e.knowledgeBaseId ≠ kbId := by simpa using hother
      simp [hother]
  rw [hrows, removeChunks_leaves_iff hkeyed (by simp)]
  constructor
  · intro hhome entryId hid entry hentry hother
    apply List.countP_eq_zero.2
    intro c hc hin
    have hkeys : c.unitType = .entry ∧ c.unitId = entryId := Chunk.inUnit_iff.1 hin
    have hkb := hvalid.unit_of_chunk hc hkeys
    rw [Tables.unitKb_entry hentry] at hkb
    have hchunk := hhome c hc (decide_eq_true ⟨hkeys.1, hkeys.2 ▸ hid⟩)
    exact hother ((Option.some.inj hkb).trans hchunk)
  · intro hnone c hc hin
    obtain ⟨htype, hid⟩ := of_decide_eq_true hin
    by_contra hother
    have hkb := hvalid.unit_of_chunk hc ⟨htype, rfl⟩
    obtain ⟨entry, hentry, hentrykb⟩ := Option.map_eq_some_iff.1 hkb
    have hzero := hnone c.unitId hid entry hentry (hentrykb ▸ hother)
    have hout := List.countP_eq_zero.1 hzero c hc
    exact hout (by simp [Chunk.inUnit, htype])

/-! ### Documents and chunks by their id alone -/

/-- A reprocessed document of another base is ingested again. -/
theorem batchReprocess_confined_iff (hvalid : site.tables.Valid) (hkeyed : site.tables.Keyed)
    (ids : List Nat) (reply : Except HttpError Body) :
    Confined countTokens kbId site ⟨reply, site, ids.map .processDocument⟩ ↔
      ∀ docId ∈ ids, DocumentHere kbId site docId := by
  constructor
  · intro hconfined docId hid doc hdoc
    by_contra hother
    let pending : Document → Document := fun d => { d with status := .pending }
    have hkeys : ∀ d, (pending d).id = d.id ∧ (pending d).knowledgeBaseId = d.knowledgeBaseId :=
      fun _ => ⟨rfl, rfl⟩
    -- The document is read again when no other worker has it and its status is another.
    let t : Tables := { site.tables.updateDocument docId pending with processing := [] }
    have hlater : Later (.processDocument docId) site.tables t := by
      refine ⟨?_, ?_, ?_⟩
      · exact (hvalid.updateDocument hkeys).same_chunks ⟨le_rfl, rfl, rfl⟩ rfl
      · exact (hkeyed.updateDocument (fun d => (hkeys d).1) docId).of_units le_rfl
          (Tables.nodup_updateDocument hkeyed fun d => (hkeys d).1) hkeyed.entries rfl
      · intro k hk
        have hframe : Tables.Frame site.tables t := ⟨le_rfl, rfl, Tables.unitKb_of_documents rfl rfl hkeys⟩
        exact hframe.units ▸ hk
    have hfound : t.getDocument docId = some (pending doc) := by
      show (site.tables.updateDocument docId pending).getDocument docId = _
      rw [Tables.getDocument_updateDocument fun d => (hkeys d).1, hdoc]
      simp
    have htask := hconfined.tasks _ (List.mem_map_of_mem hid) t hlater .failed
    exact processDocument_changes countTokens hfound (by simp [t]) (by simp [pending]) hother htask
  · intro hhere
    refine .of_home (.refl kbId _) ?_
    intro task htask k hk
    obtain ⟨docId, hid, rfl⟩ := List.mem_map.1 htask
    obtain ⟨doc, hdoc, hdockb⟩ := Option.map_eq_some_iff.1 hk
    rw [← hdockb]
    exact hhere docId hid doc hdoc

/-- An edited chunk of another base has its unit embedded again. -/
theorem editChunk_confined_iff (hvalid : site.tables.Valid) (hkeyed : site.tables.Keyed) {c : Chunk}
    (hc : c ∈ site.tables.chunks) (reply : Except HttpError Body) :
    Confined countTokens kbId site ⟨reply, site, [.embedUnitChunks c.unitType c.unitId kbId]⟩ ↔
      c.knowledgeBaseId = kbId := by
  have hunit := (hvalid.chunks c hc).2
  constructor
  · intro hconfined
    by_contra hother
    let bare : Chunk → Chunk := fun d => { d with vectorId := none }
    let t : Tables := { site.tables with chunks := site.tables.chunks.map bare }
    have hlater : Later (.embedUnitChunks c.unitType c.unitId kbId) site.tables t := by
      refine ⟨?_, ?_, fun k hk => hk⟩
      · exact hvalid.map (f := bare) ⟨le_rfl, rfl, rfl⟩ rfl fun _ => ⟨rfl, rfl, rfl, rfl⟩
      · refine hkeyed.of_chunks le_rfl hkeyed.documents hkeyed.entries ?_
        intro d' hd'
        obtain ⟨d, hd, rfl⟩ := List.mem_map.1 hd'
        exact ⟨d, hd, rfl, rfl, Or.inl rfl⟩
    have hbare : bare c ∈ t.chunks := List.mem_map_of_mem hc
    have htask := hconfined.tasks _ (List.mem_singleton_self _) t hlater .embedded
    have hselected : bare c ∈ t.chunks.filter fun d => d.knowledgeBaseId ≠ kbId :=
      List.mem_filter.2 ⟨hbare, by simpa [bare] using hother⟩
    rw [← htask.chunks] at hselected
    have hafter := (List.mem_filter.1 hselected).1
    have hsome : t.unitKb c.unitType c.unitId = some c.knowledgeBaseId := hunit
    simp only [Task.run, hsome, Knowledge.setVectorIds] at hafter
    obtain ⟨d, hd, heq⟩ := mem_updateWhere.1 hafter
    split at heq
    · have hnone : (none : Option Nat) = some d.id := congrArg Chunk.vectorId heq
      cases hnone
    · next hout =>
        apply hout
        rw [← heq]
        have hfound : bare c ∈ Knowledge.unembedded c.unitType c.unitId t.chunks :=
          Knowledge.mem_unembedded.2 ⟨hbare, by simp [Chunk.inUnit, bare], rfl⟩
        exact decide_eq_true (List.mem_map_of_mem hfound)
  · intro hhome
    refine .of_home (.refl kbId _) ?_
    intro task htask k hk
    obtain rfl := List.mem_singleton.1 htask
    exact (Option.some.inj (hunit.symm.trans hk)).symm.trans hhome

theorem archiveDocument_confined (hkeyed : site.tables.Keyed) (docId : Nat) (archive : Bool) :
    Confined countTokens kbId site (archiveDocument org user kbId site docId archive) := by
  apply Confined.after
  intro doc hchecks
  obtain ⟨-, -, hown⟩ := bind_eq_ok.1 hchecks
  obtain ⟨hdoc, hhome⟩ := ownDocument_eq_ok.1 hown
  refine .quiet ⟨filter_updateDocument hkeyed hdoc hhome fun _ => rfl, rfl, rfl⟩ rfl

theorem batchMoveDocuments_confined (ids : List Nat) (target : Option Nat) :
    Confined countTokens kbId site (batchMoveDocuments org user kbId site ids target) := by
  apply Confined.after
  intro _ _
  refine .quiet ⟨?_, rfl, rfl⟩ rfl
  apply filter_updateWhere_of_not
  intro d _ hd
  simp [(of_decide_eq_true hd).2]

theorem batchArchiveEntries_confined (ids : List Nat) :
    Confined countTokens kbId site (batchArchiveEntries org user kbId site ids) := by
  apply Confined.after
  intro _ _
  refine .quiet ⟨rfl, ?_, rfl⟩ rfl
  apply filter_updateWhere_of_not
  intro e _ he
  simp [(of_decide_eq_true he).1]

theorem batchDeleteDocuments_confined (hvalid : site.tables.Valid) (hkeyed : site.tables.Keyed)
    (ids : List Nat) (faults : Faults) :
    Confined countTokens kbId site (batchDeleteDocuments org user kbId site ids faults) := by
  apply Confined.after
  intro _ _
  apply Confined.purgeThen
  refine dropDocuments_leaves hvalid hkeyed faults.minio ?_
  intro docId hid
  exact mem_selectDocuments hkeyed hid

theorem deleteDocument_confined (hvalid : site.tables.Valid) (hkeyed : site.tables.Keyed)
    (docId : Nat) (faults : Faults) :
    Confined countTokens kbId site (deleteDocument org user kbId site docId faults) := by
  apply Confined.after
  intro doc hchecks
  obtain ⟨-, -, hown⟩ := bind_eq_ok.1 hchecks
  apply Confined.purgeThen
  refine dropDocuments_leaves hvalid hkeyed faults.minio ?_
  intro i hi
  obtain rfl := List.mem_singleton.1 hi
  exact ⟨doc, ownDocument_eq_ok.1 hown⟩

theorem reprocessDocument_confined (docId : Nat) :
    Confined countTokens kbId site (reprocessDocument org user kbId site docId) := by
  apply Confined.after
  intro doc hchecks
  obtain ⟨-, -, hown⟩ := bind_eq_ok.1 hchecks
  obtain ⟨hdoc, hhome⟩ := ownDocument_eq_ok.1 hown
  refine .of_home (.refl kbId _) ?_
  intro task htask
  obtain rfl := List.mem_singleton.1 htask
  exact unitKb_home hdoc hhome

end Changes

/-! ## The condition -/

section Condition

variable {special : String → Nat → List Char} {countTokens : String → Nat} {org : Organisation}
  {user : User} {kbId : Nat} {faults : Faults} {site : Site} {chunkId : Nat}

theorem after_confined_iff {α : Type} {checks : Except HttpError α} {act : α → Outcome} :
    Confined countTokens kbId site (site.after checks act) ↔
      ∀ a, checks = .ok a → Confined countTokens kbId site (act a) := by
  constructor
  · intro h a ha
    rw [ha] at h
    exact h
  · exact Confined.after

theorem thenPurge_confined_iff {committed : Site} {ids : List Nat} {body : Body} :
    Confined countTokens kbId site (committed.thenPurge kbId ids faults body []) ↔
      LeavesOthers kbId site.tables committed.tables := by
  constructor
  · intro h
    have hrows := h.rows
    unfold Site.thenPurge at hrows
    split at hrows
    · exact hrows
    · exact hrows
  · intro h
    apply Confined.thenPurge h
    intro task htask
    cases htask

theorem chunkHere_iff (hvalid : site.tables.Valid) : ChunkHere kbId site chunkId ↔
    ∀ c, findChunk site chunkId = .ok c → c.knowledgeBaseId = kbId := by
  constructor
  · intro hhere c hfound
    obtain ⟨hc, hid⟩ := findChunk_spec hfound
    exact hhere c hc hid
  · intro hhome c hc hid
    exact hhome c (hid ▸ findChunk_eq_ok hvalid hc)

theorem keepsToBase_of_own {call : UnitCall} (hcall : call.showsById = false)
    (hconfined : Confined countTokens kbId site (respond special org user kbId faults site call)) :
    KeepsToBase special countTokens org user kbId faults site call :=
  ⟨fun _ hagree => hagree.reply call hcall, hconfined⟩

theorem keepsToBase_iff_confined {call : UnitCall} (hcall : call.showsById = false) :
    KeepsToBase special countTokens org user kbId faults site call ↔
      Confined countTokens kbId site (respond special org user kbId faults site call) :=
  ⟨fun h => h.confined, keepsToBase_of_own hcall⟩

theorem keepsToBase_iff_reply {call : UnitCall}
    (hconfined : Confined countTokens kbId site (respond special org user kbId faults site call)) :
    KeepsToBase special countTokens org user kbId faults site call ↔
      ∀ site', AgreeOn kbId site site' →
        (respond special org user kbId faults site' call).reply =
          (respond special org user kbId faults site call).reply :=
  ⟨fun h => h.reply, fun h => ⟨h, hconfined⟩⟩

theorem exists_ne_of_ne {α β : Type} {f : α → β} {a b : α} (hab : f a ≠ f b) (r : β) : ∃ x, f x ≠ r := by
  by_cases ha : f a = r
  · exact ⟨b, fun hb => hab (ha.trans hb.symm)⟩
  · exact ⟨a, ha⟩

theorem getDocument_keeps_iff (hkeyed : site.tables.Keyed) (docId : Nat) :
    KeepsToBase special countTokens org user kbId faults site (.getDocument docId) ↔
      NamesOwn org user kbId site (.getDocument docId) := by
  let shown : Document → DocumentFile → Except HttpError Body :=
    fun doc file => .ok (.document doc file.title)
  have hshows : ∀ doc r, ∃ file, shown doc file ≠ r := by
    intro doc r
    apply exists_ne_of_ne (a := { title := "a", content := none }) (b := { title := "b", content := none })
    simp [shown]
  rw [keepsToBase_iff_reply (.answer _)]
  exact reader_iff hkeyed hshows

theorem downloadDocument_keeps_iff (hkeyed : site.tables.Keyed) (docId : Nat) :
    KeepsToBase special countTokens org user kbId faults site (.downloadDocument docId) ↔
      NamesOwn org user kbId site (.downloadDocument docId) := by
  let shown : Document → DocumentFile → Except HttpError Body := fun _ file => do
    let content ← orRaise file.content internalError
    raiseIf (file.title.toList.any fun c => 256 ≤ c.toNat) internalError
    return .file file.title content
  have hshows : ∀ doc r, ∃ file, shown doc file ≠ r := by
    intro doc r
    have hmissing : shown doc { title := "", content := none } = .error internalError := rfl
    have hfound : shown doc { title := "", content := some [] } = .ok (.file "" []) := rfl
    apply exists_ne_of_ne (a := { title := "", content := none }) (b := { title := "", content := some [] })
    rw [hmissing, hfound]
    nofun
  rw [keepsToBase_iff_reply (.answer _)]
  exact reader_iff hkeyed hshows

theorem previewDocument_keeps_iff (hkeyed : site.tables.Keyed) (docId : Nat) :
    KeepsToBase special countTokens org user kbId faults site (.previewDocument docId) ↔
      NamesOwn org user kbId site (.previewDocument docId) := by
  let shown : Document → DocumentFile → Except HttpError Body := fun _ file => do
    let ext := extension (lower special file.title)
    raiseIf (ext ∉ previewExtensions)
      (validationError ("Preview not supported for '" ++ ext ++ "' files"))
    let content ← orRaise file.content internalError
    return .preview content
  have hshows : ∀ doc r, ∃ file, shown doc file ≠ r := by
    intro doc r
    have hempty : extension (lower special "") = "" := by
      rw [lower_of_isAscii special (by decide)]
      decide
    have hmd : extension (lower special "a.md") = ".md" := by
      rw [lower_of_isAscii special (by decide)]
      decide
    apply exists_ne_of_ne (a := { title := "", content := none }) (b := { title := "a.md", content := none })
    have hout : "" ∉ previewExtensions := by decide
    have hin : ".md" ∈ previewExtensions := by decide
    simp only [shown, hempty, hmd, raiseIf, if_pos hout, if_neg (not_not.2 hin)]
    nofun
  have hreply : ∀ s : Site, (respond special org user kbId faults s (.previewDocument docId)).reply =
      (do
        requireKb org user kbId s "view"
        let doc ← findDocument s docId
        shown doc (s.files docId)) := by
    intro s
    rfl
  rw [keepsToBase_iff_reply (.answer _)]
  simp only [hreply]
  exact reader_iff hkeyed hshows

theorem batchReprocessDocuments_keeps_iff (hvalid : site.tables.Valid) (hkeyed : site.tables.Keyed)
    (ids : List Nat) : KeepsToBase special countTokens org user kbId faults site
        (.batchReprocessDocuments ids) ↔
      NamesOwn org user kbId site (.batchReprocessDocuments ids) := by
  rw [keepsToBase_iff_confined rfl]
  refine after_confined_iff.trans ?_
  constructor
  · intro hconfined hadmitted docId hid
    have hchecks : (do
        requireKb org user kbId site "edit"
        raiseIf (ids = []) (validationError "No document IDs provided")) = .ok () := by
      rw [check_bind_eq_ok, raiseIf_eq_ok]
      exact ⟨hadmitted, List.ne_nil_of_mem hid⟩
    exact (batchReprocess_confined_iff hvalid hkeyed ids _).1 (hconfined () hchecks) docId hid
  · intro hhere _ hchecks
    exact (batchReprocess_confined_iff hvalid hkeyed ids _).2 (hhere (check_bind_eq_ok.1 hchecks).1)

theorem batchDeleteEntries_keeps_iff (hvalid : site.tables.Valid) (hkeyed : site.tables.Keyed)
    (ids : List Nat) :
    KeepsToBase special countTokens org user kbId faults site (.batchDeleteEntries ids) ↔
      NamesOwn org user kbId site (.batchDeleteEntries ids) := by
  rw [keepsToBase_iff_confined rfl]
  refine after_confined_iff.trans ?_
  simp only [thenPurge_confined_iff, dropEntries_leaves_iff hvalid hkeyed]
  constructor
  · intro hconfined hadmitted hlength entryId hid
    have hchecks : (do
        requireEntryKb org user kbId site "edit"
        checkBatch ids) = .ok () := by
      unfold checkBatch
      rw [check_bind_eq_ok, check_bind_eq_ok, raiseIf_eq_ok, raiseIf_eq_ok]
      exact ⟨hadmitted, List.ne_nil_of_mem hid, not_lt.2 hlength⟩
    exact hconfined () hchecks entryId hid
  · intro hnone _ hchecks
    obtain ⟨hadmitted, hbatch⟩ := check_bind_eq_ok.1 hchecks
    unfold checkBatch at hbatch
    have hlength := raiseIf_eq_ok.1 (check_bind_eq_ok.1 hbatch).2
    exact hnone hadmitted (not_lt.1 hlength)

theorem editChunk_keeps_iff (hvalid : site.tables.Valid) (hkeyed : site.tables.Keyed) (content : String) :
    KeepsToBase special countTokens org user kbId faults site (.editChunk chunkId content) ↔
      NamesOwn org user kbId site (.editChunk chunkId content) := by
  rw [keepsToBase_iff_confined rfl]
  refine after_confined_iff.trans ?_
  show _ ↔ (_ → ChunkHere kbId site chunkId)
  rw [chunkHere_iff hvalid]
  constructor
  · intro hconfined hadmitted c hfound
    obtain ⟨hc, -⟩ := findChunk_spec hfound
    exact (editChunk_confined_iff hvalid hkeyed hc _).1
      (hconfined c (check_bind_eq_ok.2 ⟨hadmitted, hfound⟩))
  · intro hhome c hchecks
    obtain ⟨hadmitted, hfound⟩ := check_bind_eq_ok.1 hchecks
    obtain ⟨hc, -⟩ := findChunk_spec hfound
    exact (editChunk_confined_iff hvalid hkeyed hc _).2 (hhome hadmitted c hfound)

theorem deleteChunk_keeps_iff (hvalid : site.tables.Valid) (hkeyed : site.tables.Keyed) :
    KeepsToBase special countTokens org user kbId faults site (.deleteChunk chunkId) ↔
      NamesOwn org user kbId site (.deleteChunk chunkId) := by
  have hleaves : LeavesOthers kbId site.tables (site.tables.removeChunks fun c => c.id = chunkId) ↔
      ChunkHere kbId site chunkId := by
    rw [removeChunks_leaves_iff hkeyed (by simp)]
    simp only [decide_eq_true_eq]
    exact Iff.rfl
  rw [keepsToBase_iff_confined rfl]
  refine after_confined_iff.trans ?_
  constructor
  · intro hconfined hadmitted c hc hid
    have hfound : findChunk site chunkId = .ok c := hid ▸ findChunk_eq_ok hvalid hc
    have hrows := (hconfined c (check_bind_eq_ok.2 ⟨hadmitted, hfound⟩)).rows
    exact hleaves.1 hrows c hc hid
  · intro hhere c hchecks
    exact .quiet (hleaves.2 (hhere (check_bind_eq_ok.1 hchecks).1)) rfl

theorem splitChunkPreview_keeps_iff (hvalid : site.tables.Valid) (positions : List Int) :
    KeepsToBase special countTokens org user kbId faults site (.splitChunkPreview chunkId positions) ↔
      NamesOwn org user kbId site (.splitChunkPreview chunkId positions) := by
  let shown : List Chunk → Except HttpError Body :=
    fun rows => .ok (.segments (rows.map fun r => (r.content, r.tokenCount)))
  have hshown : ∀ rows, shown rows ≠ .error (validationError "Invalid split positions") := by
    intro rows
    nofun
  rw [keepsToBase_iff_reply (.answer _)]
  exact splitter_iff hvalid hshown

theorem splitChunk_keeps_iff (hvalid : site.tables.Valid) (positions : List Int) :
    KeepsToBase special countTokens org user kbId faults site (.splitChunk chunkId positions) ↔
      NamesOwn org user kbId site (.splitChunk chunkId positions) := by
  let shown : List Chunk → Except HttpError Body := fun _ => .error internalError
  have hshown : ∀ rows, shown rows ≠ .error (validationError "Invalid split positions") := by
    intro rows
    nofun
  rw [keepsToBase_iff_reply (.answer _)]
  exact splitter_iff hvalid hshown

/-- A request shows and changes nothing of other bases exactly when what it looks up by its id alone is
of its base. -/
theorem keepsToBase_iff (special : String → Nat → List Char) (countTokens : String → Nat)
    (org : Organisation) (user : User) (kbId : Nat) (faults : Faults) {site : Site}
    (hvalid : site.tables.Valid) (hkeyed : site.tables.Keyed) (call : UnitCall) :
    KeepsToBase special countTokens org user kbId faults site call ↔ NamesOwn org user kbId site call := by
  cases call with
  | getDocument docId => exact getDocument_keeps_iff hkeyed docId
  | downloadDocument docId => exact downloadDocument_keeps_iff hkeyed docId
  | previewDocument docId => exact previewDocument_keeps_iff hkeyed docId
  | archiveDocument docId archive =>
      exact iff_of_true (keepsToBase_of_own rfl (archiveDocument_confined hkeyed docId archive)) trivial
  | batchReprocessDocuments ids => exact batchReprocessDocuments_keeps_iff hvalid hkeyed ids
  | batchDeleteDocuments ids =>
      exact iff_of_true (keepsToBase_of_own rfl (batchDeleteDocuments_confined hvalid hkeyed ids faults))
        trivial
  | batchMoveDocuments ids target =>
      exact iff_of_true (keepsToBase_of_own rfl (batchMoveDocuments_confined ids target)) trivial
  | deleteDocument docId =>
      exact iff_of_true (keepsToBase_of_own rfl (deleteDocument_confined hvalid hkeyed docId faults))
        trivial
  | reprocessDocument docId =>
      exact iff_of_true (keepsToBase_of_own rfl (reprocessDocument_confined docId)) trivial
  | getEntry entryId => exact iff_of_true (keepsToBase_of_own rfl (.answer _)) trivial
  | updateEntry entryId payload seeds =>
      exact iff_of_true
        (keepsToBase_of_own rfl (updateEntry_confined hvalid hkeyed entryId payload seeds faults)) trivial
  | batchDeleteEntries ids => exact batchDeleteEntries_keeps_iff hvalid hkeyed ids
  | batchArchiveEntries ids =>
      exact iff_of_true (keepsToBase_of_own rfl (batchArchiveEntries_confined ids)) trivial
  | deleteEntry entryId =>
      exact iff_of_true (keepsToBase_of_own rfl (deleteEntry_confined hvalid hkeyed entryId faults))
        trivial
  | listChunks documentId offset limit => exact iff_of_true (keepsToBase_of_own rfl (.answer _)) trivial
  | getChunk chunkId => exact iff_of_true (keepsToBase_of_own rfl (.answer _)) trivial
  | editChunk chunkId content => exact editChunk_keeps_iff hvalid hkeyed content
  | splitChunkPreview chunkId positions => exact splitChunkPreview_keeps_iff hvalid positions
  | splitChunk chunkId positions => exact splitChunk_keeps_iff hvalid positions
  | mergeChunks ids => exact iff_of_true (keepsToBase_of_own rfl (.answer _)) trivial
  | deleteChunk chunkId => exact deleteChunk_keeps_iff hvalid hkeyed
  | annotateChunk chunkId tags notes => exact iff_of_true (keepsToBase_of_own rfl (.answer _)) trivial

end Condition

/-! ## A base that the user has no right on -/

/-- User 2 may edit base 0 and has no right on base 1. -/
def twoBases : Site where
  tables :=
    { kbs := [{ id := 0 }, { id := 1 }]
      documents := [{ id := 2, knowledgeBaseId := 1 }]
      chunks := [{ id := 3, unitType := .document, unitId := 2, knowledgeBaseId := 1, content := "text" }]
      next := 4 }
  files := fun _ => { title := "salaries.csv", content := some [] }

theorem twoBases_valid : twoBases.tables.Valid :=
  Tables.valid_of_document rfl rfl rfl ⟨by decide, rfl⟩
    ⟨by decide, { id := 1 }, List.mem_cons_of_mem _ (List.mem_singleton_self _), rfl⟩

theorem twoBases_keyed : twoBases.tables.Keyed := by
  constructor
  · exact List.nodup_singleton 2
  · exact List.nodup_nil
  · intro c hc p hp
    obtain rfl := List.mem_singleton.1 hc
    cases hp

/-- Under base 1 its own chunk is deleted. -/
theorem twoBases_kept : (respond (fun _ _ => []) Review.sampleOrg ⟨3, .systemAdmin⟩ 1 {} twoBases
      (.deleteChunk 3)).site.tables.chunks = [] ∧
    KeepsToBase (fun _ _ => []) (fun _ => 0) Review.sampleOrg ⟨3, .systemAdmin⟩ 1 {} twoBases
      (.deleteChunk 3) := by
  refine ⟨rfl, (keepsToBase_iff _ _ _ _ _ _ twoBases_valid twoBases_keyed _).2 ?_⟩
  intro _ c hc _
  obtain rfl := List.mem_singleton.1 hc
  rfl

theorem twoBases_editor : requireKb Review.sampleOrg ⟨2, .user⟩ 0 twoBases "edit" = .ok () :=
  check_bind_eq_ok.2 ⟨rfl, Review.sampleOrg_editor⟩

theorem twoBases_stranger (k : Nat) (h : requireKb Review.sampleOrg ⟨2, .user⟩ k twoBases "view" = .ok ()) :
    k = 0 := by
  have haccess := (check_bind_eq_ok.1 h).2
  rw [Review.requireKbAccess_eq_ok, Departments.Tables.requireResourceAccess_iff] at haccess
  rcases haccess with howner | ⟨r, ⟨⟨hr, -⟩, -, rfl⟩, -⟩
  · have hno : ¬ Departments.Tables.Privileged 2 "user" (some 1) := by
      unfold Departments.Tables.Privileged
      decide
    exact absurd howner hno
  · obtain rfl := List.mem_singleton.1 hr
    rfl

/-- Under base 0 a chunk of base 1 is deleted. -/
theorem foreign_chunk_deleted :
    ¬ ∀ (org : Organisation) (user : User) (kbId : Nat) (site : Site), site.tables.Valid →
      site.tables.Keyed → (∀ k, requireKb org user k site "view" = .ok () → k = kbId) →
        ∀ call, KeepsToBase (fun _ _ => []) (fun _ => 0) org user kbId {} site call := by
  intro hall
  have hkeeps := hall Review.sampleOrg ⟨2, .user⟩ 0 twoBases twoBases_valid twoBases_keyed
    twoBases_stranger (.deleteChunk 3)
  have hhere := (deleteChunk_keeps_iff twoBases_valid twoBases_keyed).1 hkeeps twoBases_editor
  have hhome := hhere _ (List.mem_singleton_self _) rfl
  exact absurd hhome (by decide)

end OpsKnowledge.Units
