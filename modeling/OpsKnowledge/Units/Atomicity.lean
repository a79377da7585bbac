import OpsKnowledge.Knowledge.Keys
import OpsKnowledge.Review.FourEyes
import OpsKnowledge.Units.Endpoints

/-!
# Requests whose purge of vectors fails

A request answers 503 when the purge of vectors fails, at whatever deletion. The rows should
then be as they were, and the units that are there should have their vectors. Requests on
entries commit before they purge, requests on documents after it, and a purge of several
units that fails has deleted the vectors of the first ones.
-/

namespace OpsKnowledge.Units

open OpsKnowledge.Lib
open Knowledge (Tables Document KnowledgeEntry Chunk UnitType VectorRow EntryPayload ChunkSeed)
open Review (HttpError Organisation User)

/-- A unit of either type. -/
def HasUnit (t : Tables) (unitId : Nat) : Prop :=
  (t.getDocument unitId).isSome ∨ (t.getEntry unitId).isSome

def Site.vector (site : Site) (kbId i : Nat) : Option VectorRow :=
  (site.collections kbId).bind fun rows => rows i

/-- The rows are as before, and units that are there have the vectors that they had. -/
structure Undone (before after : Site) : Prop where
  tables : after.tables = before.tables
  vectors : ∀ kbId i row, before.vector kbId i = some row → HasUnit after.tables row.documentId →
    after.vector kbId i = some row

section Property

variable (org : Organisation) (user : User) (kbId : Nat) (faults : Faults) (site : Site)

def AtomicOnFailure (out : Outcome) : Prop :=
  ∀ e, out.reply = .error e → e.status = 503 → Undone site out.site

def PurgeFails (unitIds : List Nat) : Prop :=
  purgeFails (site.collections kbId) unitIds faults.milvus = true

/-- What a failing purge has deleted are no vectors of units that are there. -/
def Spares (unitIds : List Nat) : Prop :=
  ∀ i row, site.vector kbId i = some row →
    row.documentId ∈ unitIds.take (faults.milvus.getD unitIds.length) →
      ¬ HasUnit site.tables row.documentId

/-- The request leaves rows and vectors where its purge fails: the requests on documents when no
vectors of theirs have been deleted by then; a deletion of entries when it names none, and an
update when it changes nothing. -/
def FailsHarmlessly : UnitCall → Prop
  | .batchDeleteDocuments ids =>
      let docIds := (selectDocuments kbId site ids).map Document.id
      requireKb org user kbId site "edit" = .ok () → PurgeFails kbId faults site docIds →
        Spares kbId faults site docIds
  | .deleteDocument docId =>
      requireKb org user kbId site "edit" = .ok () → ∀ doc, site.tables.getDocument docId = some doc →
        doc.knowledgeBaseId = kbId → PurgeFails kbId faults site [docId] →
          Spares kbId faults site [docId]
  | .updateEntry entryId payload seeds =>
      requireEntryKb org user kbId site "edit" = .ok () → ∀ entry,
        site.tables.getEntry entryId = some entry → entry.knowledgeBaseId = kbId →
          payload.contentChanged entry = true ∨ site.tables.unitRows .entry entryId = 0 →
            (site.kbColumns kbId).hasEmbedding = true → PurgeFails kbId faults site [entryId] →
              (Knowledge.updatedEntry entry payload (site.tables.reviewRequired kbId) = entry ∧
                site.tables.unitRows .entry entryId = 0 ∧ seeds = []) ∧ Spares kbId faults site [entryId]
  | .batchDeleteEntries ids =>
      requireEntryKb org user kbId site "edit" = .ok () → ids ≠ [] → ids.length ≤ 100 →
        PurgeFails kbId faults site ids →
          ((∀ e ∈ site.tables.entries, e.knowledgeBaseId = kbId → e.id ∉ ids) ∧
            ∀ c ∈ site.tables.chunks, c.unitType = .entry → c.unitId ∉ ids) ∧ Spares kbId faults site ids
  | .deleteEntry entryId =>
      requireEntryKb org user kbId site "edit" = .ok () → ∀ entry,
        site.tables.getEntry entryId = some entry → entry.knowledgeBaseId = kbId →
          ¬ PurgeFails kbId faults site [entryId]
  | _ => True

end Property

/-! ## Vectors over a purge -/

section Purge

variable {kbId : Nat} {faults : Faults} {site : Site} {unitIds : List Nat}

theorem Undone.refl (site : Site) : Undone site site := ⟨rfl, fun _ _ _ h _ => h⟩

theorem Site.vector_eq_some {k i : Nat} {row : VectorRow} : site.vector k i = some row ↔
    ∃ rows, site.collections k = some rows ∧ rows i = some row := by
  unfold Site.vector
  exact Option.bind_eq_some_iff

theorem vector_purge (k i : Nat) (row : VectorRow) (failure : Option Nat) :
    (site.purge kbId unitIds failure).vector k i = some row ↔ site.vector k i = some row ∧
      (k = kbId → row.documentId ∉ unitIds.take (failure.getD unitIds.length)) := by
  have hcollections : (site.purge kbId unitIds failure).collections k =
      if k = kbId then (site.collections kbId).map (purged unitIds failure) else site.collections k := by
    simp [Site.purge, Function.update_apply]
  rw [Site.vector_eq_some, Site.vector_eq_some, hcollections]
  by_cases hk : k = kbId
  · subst hk
    simp only [if_true, true_imp_iff, Option.map_eq_some_iff]
    constructor
    · rintro ⟨_, ⟨rows, hrows, rfl⟩, hrow⟩
      obtain ⟨hrow, hkept⟩ := Store.deleteWhere_eq_some.1 hrow
      exact ⟨⟨rows, hrows, hrow⟩, of_decide_eq_false hkept⟩
    · rintro ⟨⟨rows, hrows, hrow⟩, hkept⟩
      exact ⟨_, ⟨rows, hrows, rfl⟩, Store.deleteWhere_eq_some.2 ⟨hrow, decide_eq_false hkept⟩⟩
  · simp [hk]

/-- What is left when a purge fails after a change of the rows. -/
theorem undone_purge_iff {tables : Tables} :
    Undone site ({ site with tables := tables }.purge kbId unitIds faults.milvus) ↔
      tables = site.tables ∧ Spares kbId faults site unitIds := by
  have hvector : ∀ k i, ({ site with tables := tables } : Site).vector k i = site.vector k i :=
    fun _ _ => rfl
  constructor
  · intro hundone
    have hsame : tables = site.tables := hundone.tables
    refine ⟨hsame, ?_⟩
    intro i row hrow htaken hunit
    rw [← hsame] at hunit
    have hkept := (vector_purge kbId i row _).1 (hundone.vectors kbId i row hrow hunit)
    exact hkept.2 rfl htaken
  · rintro ⟨rfl, hspares⟩
    refine ⟨rfl, ?_⟩
    intro k i row hrow hunit
    rw [vector_purge, hvector]
    refine ⟨hrow, ?_⟩
    rintro rfl htaken
    exact hspares i row hrow htaken hunit

theorem AtomicOnFailure.answer (reply : Except HttpError Body) :
    AtomicOnFailure site (site.answer reply) := fun _ _ _ => .refl site

theorem AtomicOnFailure.of_ok {out : Outcome} {body : Body} (h : out.reply = .ok body) :
    AtomicOnFailure site out := by
  intro e he
  rw [h] at he
  cases he

theorem after_atomic_iff {α : Type} {checks : Except HttpError α} {act : α → Outcome} :
    AtomicOnFailure site (site.after checks act) ↔
      ∀ a, checks = .ok a → AtomicOnFailure site (act a) := by
  cases checks with
  | error e => exact iff_of_true (fun _ _ _ => .refl site) fun a ha => nomatch ha
  | ok a =>
      constructor
      · intro h b hb
        cases hb
        exact h
      · intro h
        exact h a rfl

theorem purgeThen_atomic_iff {commit : Site → Site} :
    AtomicOnFailure site (site.purgeThen kbId unitIds faults commit) ↔
      (PurgeFails kbId faults site unitIds → Spares kbId faults site unitIds) := by
  unfold Site.purgeThen
  split
  · next hfails =>
      constructor
      · intro h _
        exact (undone_purge_iff.1 (h _ rfl rfl)).2
      · intro hspares _ _ _
        exact undone_purge_iff.2 ⟨rfl, hspares hfails⟩
  · next hfails => exact iff_of_true (.of_ok rfl) fun h => absurd h hfails

theorem thenPurge_atomic_iff {tables : Tables} {body : Body} {tasks : List Task} :
    AtomicOnFailure site
        ({ site with tables := tables }.thenPurge kbId unitIds faults body tasks) ↔
      (PurgeFails kbId faults site unitIds →
        tables = site.tables ∧ Spares kbId faults site unitIds) := by
  unfold Site.thenPurge
  split
  · next hfails =>
      constructor
      · intro h _
        exact undone_purge_iff.1 (h _ rfl rfl)
      · intro hundone _ _ _
        exact undone_purge_iff.2 (hundone hfails)
  · next hfails => exact iff_of_true (.of_ok rfl) fun h => absurd h hfails

end Purge

/-! ## Changes that a failure leaves -/

section Changes

variable {kbId : Nat} {site : Site}

theorem updatedEntry_ne {entry : KnowledgeEntry} {payload : EntryPayload} (rr : Bool)
    (hchanged : payload.contentChanged entry = true) : Knowledge.updatedEntry entry payload rr ≠ entry := by
  intro hsame
  unfold EntryPayload.contentChanged at hchanged
  obtain ⟨content, hcontent, hhash⟩ := (Option.any_eq_true _ _).1 hchanged
  have hnew : (Knowledge.updatedEntry entry payload rr).contentHash =
      some (Knowledge.contentHash content) := by
    simp [Knowledge.updatedEntry, hcontent]
  rw [hsame] at hnew
  simp [hnew] at hhash

/-- An update that makes new chunks and changes nothing. -/
theorem recreated_eq_iff {t : Tables} (hkeyed : t.Keyed) {entry : KnowledgeEntry} {entryId : Nat}
    (hentry : t.getEntry entryId = some entry) {payload : EntryPayload} {seeds : List ChunkSeed}
    (hrechunks : payload.contentChanged entry = true ∨ t.unitRows .entry entryId = 0) :
    (t.saveEntry entry payload).createChunksForEntry
        (Knowledge.updatedEntry entry payload (t.reviewRequired entry.knowledgeBaseId)) seeds = t ↔
      Knowledge.updatedEntry entry payload (t.reviewRequired entry.knowledgeBaseId) = entry ∧
        t.unitRows .entry entryId = 0 ∧ seeds = [] := by
  obtain ⟨hmem, rfl⟩ := Tables.getEntry_eq_some hentry
  constructor
  · intro hsame
    have hentries : ((t.saveEntry entry payload).createChunksForEntry _ seeds).entries = t.entries :=
      congrArg Tables.entries hsame
    have hentries : (t.saveEntry entry payload).entries = t.entries := hentries
    have hnext : (t.saveEntry entry payload).next + seeds.length = t.next :=
      congrArg Tables.next hsame
    rw [Tables.saveEntry_next] at hnext
    have hget := Tables.getEntry_saveEntry (t := t) entry payload entry.id
    have hupdated :
        Knowledge.updatedEntry entry payload (t.reviewRequired entry.knowledgeBaseId) = entry := by
      unfold Tables.getEntry at hget hentry
      rw [hentries, hentry] at hget
      simpa using hget.symm
    refine ⟨hupdated, ?_, ?_⟩
    · rcases hrechunks with hchanged | hnone
      · exact absurd hupdated (updatedEntry_ne _ hchanged)
      · exact hnone
    · apply List.eq_nil_of_length_eq_zero
      omega
  · rintro ⟨hupdated, -, rfl⟩
    have hunchanged : payload.contentChanged entry = false := by
      by_contra hchanged
      exact updatedEntry_ne _ (by simpa using hchanged) hupdated
    have hentries : updateWhere (fun e => e.id = entry.id)
        (fun e => Knowledge.updatedEntry e payload (t.reviewRequired entry.knowledgeBaseId)) t.entries =
          t.entries := by
      unfold updateWhere
      apply (List.map_congr_left _).trans (List.map_id _)
      intro e he
      by_cases hid : e.id = entry.id
      · obtain rfl : e = entry := List.inj_on_of_nodup_map hkeyed.entries he hmem hid
        simp [hupdated]
      · simp [hid]
    unfold Tables.createChunksForEntry Tables.insertChunks Tables.saveEntry
    simp only [hunchanged, hentries]
    simp [Knowledge.seedRows]

theorem deleteChunks_eq_self_iff {p : Chunk → Bool} {chunks : List Chunk} :
    Knowledge.deleteChunks p chunks = chunks ↔ ∀ c ∈ chunks, p c = false := by
  unfold Knowledge.deleteChunks
  constructor
  · intro hsame c hc
    by_contra hgone
    have hlength := congrArg List.length hsame
    rw [List.length_map, List.length_filter_eq_length_iff] at hlength
    have hkept := hlength c hc
    simp [hgone] at hkept
  · intro hnone
    have hgone : chunks.filter p = [] := List.filter_eq_nil_iff.2 fun c hc => by simp [hnone c hc]
    have hkept : chunks.filter (fun c => !p c) = chunks :=
      List.filter_eq_self.2 fun c hc => by simp [hnone c hc]
    rw [hgone, hkept]
    apply (List.map_congr_left _).trans (List.map_id _)
    intro c _
    cases hparent : c.parentChunkId with
    | none => simp [Chunk.detach, hparent]
    | some q => simp [Chunk.detach, hparent]

theorem dropEntries_eq_self_iff {ids : List Nat} : dropEntries kbId site ids = site.tables ↔
    (∀ e ∈ site.tables.entries, e.knowledgeBaseId = kbId → e.id ∉ ids) ∧
      ∀ c ∈ site.tables.chunks, c.unitType = .entry → c.unitId ∉ ids := by
  have hsplit : dropEntries kbId site ids = site.tables ↔
      (site.tables.entries.filter fun e => ¬ (e.knowledgeBaseId = kbId ∧ e.id ∈ ids)) =
          site.tables.entries ∧
        Knowledge.deleteChunks (fun c => c.unitType = .entry ∧ c.unitId ∈ ids) site.tables.chunks =
          site.tables.chunks := by
    constructor
    · intro hsame
      exact ⟨congrArg Tables.entries hsame, congrArg Tables.chunks hsame⟩
    · rintro ⟨hentries, hchunks⟩
      unfold dropEntries Tables.removeChunks
      simp only [hentries, hchunks]
  rw [hsplit, List.filter_eq_self, deleteChunks_eq_self_iff]
  simp only [decide_eq_true_eq, decide_eq_false_iff_not, not_and]

end Changes

/-! ## The condition -/

section Condition

variable {special : String → Nat → List Char} {org : Organisation} {user : User} {kbId : Nat}
  {faults : Faults} {site : Site}

theorem spares_nil : Spares kbId faults site [] := by
  intro i row _ htaken
  rw [List.take_nil] at htaken
  cases htaken

theorem batchDeleteDocuments_atomic_iff (ids : List Nat) :
    AtomicOnFailure site (batchDeleteDocuments org user kbId site ids faults) ↔
      FailsHarmlessly org user kbId faults site (.batchDeleteDocuments ids) := by
  refine after_atomic_iff.trans ?_
  simp only [purgeThen_atomic_iff, raiseIf_eq_ok, check_bind_eq_ok]
  constructor
  · intro hall hadmitted
    by_cases hnone : (selectDocuments kbId site ids).map Document.id = []
    · simp only [hnone]
      exact fun _ => spares_nil
    · have hids : ids ≠ [] := by
        rintro rfl
        apply hnone
        simp [selectDocuments]
      exact hall ⟨⟩ ⟨hadmitted, hids, hnone⟩
  · intro hspares _ hchecks
    exact hspares hchecks.1

theorem deleteDocument_atomic_iff (docId : Nat) :
    AtomicOnFailure site (deleteDocument org user kbId site docId faults) ↔
      FailsHarmlessly org user kbId faults site (.deleteDocument docId) := by
  refine after_atomic_iff.trans ?_
  simp only [purgeThen_atomic_iff, check_bind_eq_ok, ownDocument_eq_ok]
  constructor
  · intro hall hadmitted doc hdoc hhome
    exact hall doc ⟨hadmitted, hdoc, hhome⟩
  · intro hspares doc hchecks
    exact hspares hchecks.1 doc hchecks.2.1 hchecks.2.2

theorem updateEntry_atomic_iff (hkeyed : site.tables.Keyed) (entryId : Nat) (payload : EntryPayload)
    (seeds : List ChunkSeed) :
    AtomicOnFailure site (updateEntry org user kbId site entryId payload seeds faults) ↔
      FailsHarmlessly org user kbId faults site (.updateEntry entryId payload seeds) := by
  have hrechunks : ∀ entry, site.tables.getEntry entryId = some entry →
      (rechunks site entry payload = true ↔
        payload.contentChanged entry = true ∨ site.tables.unitRows .entry entryId = 0) := by
    intro entry hentry
    obtain ⟨-, rfl⟩ := Tables.getEntry_eq_some hentry
    rw [rechunks_eq, Bool.or_eq_true, decide_eq_true_eq]
  refine after_atomic_iff.trans ?_
  constructor
  · intro hall hadmitted entry hentry hhome hnew hembedding hfails
    have hre := (hrechunks entry hentry).2 hnew
    have hatomic := hall entry (checkUpdate_eq_ok.2 ⟨hadmitted, hentry, hhome, fun _ => hembedding⟩)
    simp only [hre, if_true] at hatomic
    have hundone := thenPurge_atomic_iff.1 hatomic hfails
    rw [← hhome]
    exact ⟨(recreated_eq_iff hkeyed hentry hnew).1 hundone.1, hhome ▸ hundone.2⟩
  · intro hharmless entry hchecks
    obtain ⟨hadmitted, hentry, hhome, hembedding⟩ := checkUpdate_eq_ok.1 hchecks
    simp only
    split
    · next hre =>
        have hnew := (hrechunks entry hentry).1 hre
        refine thenPurge_atomic_iff.2 ?_
        intro hfails
        obtain ⟨hsame, hspares⟩ := hharmless hadmitted entry hentry hhome hnew (hembedding hre) hfails
        rw [← hhome] at hsame
        exact ⟨(recreated_eq_iff hkeyed hentry hnew).2 hsame, hspares⟩
    · split
      · exact .of_ok rfl
      · exact .of_ok rfl

theorem batchDeleteEntries_atomic_iff (ids : List Nat) :
    AtomicOnFailure site (batchDeleteEntries org user kbId site ids faults) ↔
      FailsHarmlessly org user kbId faults site (.batchDeleteEntries ids) := by
  refine after_atomic_iff.trans ?_
  unfold checkBatch
  simp only [check_bind_eq_ok, raiseIf_eq_ok, not_lt]
  constructor
  · intro hall hadmitted hids hlength hfails
    obtain ⟨hsame, hspares⟩ := thenPurge_atomic_iff.1 (hall ⟨⟩ ⟨hadmitted, hids, hlength⟩) hfails
    exact ⟨dropEntries_eq_self_iff.1 hsame, hspares⟩
  · intro hharmless _ hchecks
    obtain ⟨hadmitted, hids, hlength⟩ := hchecks
    refine thenPurge_atomic_iff.2 ?_
    intro hfails
    obtain ⟨hsame, hspares⟩ := hharmless hadmitted hids hlength hfails
    exact ⟨dropEntries_eq_self_iff.2 hsame, hspares⟩

/-- The entry is gone when the purge fails. -/
theorem deleteEntry_atomic_iff (entryId : Nat) :
    AtomicOnFailure site (deleteEntry org user kbId site entryId faults) ↔
      FailsHarmlessly org user kbId faults site (.deleteEntry entryId) := by
  refine after_atomic_iff.trans ?_
  simp only [check_bind_eq_ok, ownEntry_eq_ok]
  constructor
  · intro hall hadmitted entry hentry hhome hfails
    have hundone := thenPurge_atomic_iff.1 (hall entry ⟨hadmitted, hentry, hhome⟩) hfails
    obtain ⟨hmem, hid⟩ := Tables.getEntry_eq_some hentry
    have hentries : (site.tables.entries.filter fun e => e.id ≠ entryId) = site.tables.entries :=
      congrArg Tables.entries hundone.1
    rw [← hentries] at hmem
    have hkept := (List.mem_filter.1 hmem).2
    exact absurd hid (of_decide_eq_true hkept)
  · intro hholds entry hchecks
    obtain ⟨hadmitted, hentry, hhome⟩ := hchecks
    refine thenPurge_atomic_iff.2 ?_
    intro hfails
    exact absurd hfails (hholds hadmitted entry hentry hhome)

/-- A request that answers 503 has left rows and vectors exactly when its purge fails harmlessly. -/
theorem atomicOnFailure_iff (special : String → Nat → List Char) (org : Organisation) (user : User)
    (kbId : Nat) (faults : Faults) {site : Site} (hkeyed : site.tables.Keyed) (call : UnitCall) :
    AtomicOnFailure site (respond special org user kbId faults site call) ↔
      FailsHarmlessly org user kbId faults site call := by
  cases call with
  | getDocument docId => exact iff_of_true (.answer _) trivial
  | downloadDocument docId => exact iff_of_true (.answer _) trivial
  | previewDocument docId => exact iff_of_true (.answer _) trivial
  | archiveDocument docId archive =>
      exact iff_of_true (after_atomic_iff.2 fun _ _ => .of_ok rfl) trivial
  | batchReprocessDocuments ids => exact iff_of_true (after_atomic_iff.2 fun _ _ => .of_ok rfl) trivial
  | batchDeleteDocuments ids => exact batchDeleteDocuments_atomic_iff ids
  | batchMoveDocuments ids target => exact iff_of_true (after_atomic_iff.2 fun _ _ => .of_ok rfl) trivial
  | deleteDocument docId => exact deleteDocument_atomic_iff docId
  | reprocessDocument docId => exact iff_of_true (after_atomic_iff.2 fun _ _ => .of_ok rfl) trivial
  | getEntry entryId => exact iff_of_true (.answer _) trivial
  | updateEntry entryId payload seeds => exact updateEntry_atomic_iff hkeyed entryId payload seeds
  | batchDeleteEntries ids => exact batchDeleteEntries_atomic_iff ids
  | batchArchiveEntries ids => exact iff_of_true (after_atomic_iff.2 fun _ _ => .of_ok rfl) trivial
  | deleteEntry entryId => exact deleteEntry_atomic_iff entryId
  | listChunks documentId offset limit => exact iff_of_true (.answer _) trivial
  | getChunk chunkId => exact iff_of_true (.answer _) trivial
  | editChunk chunkId content =>
      exact iff_of_true (after_atomic_iff.2 fun _ _ _ _ _ => .refl site) trivial
  | splitChunkPreview chunkId positions => exact iff_of_true (.answer _) trivial
  | splitChunk chunkId positions => exact iff_of_true (.answer _) trivial
  | mergeChunks ids => exact iff_of_true (.answer _) trivial
  | deleteChunk chunkId => exact iff_of_true (after_atomic_iff.2 fun _ _ => .of_ok rfl) trivial
  | annotateChunk chunkId tags notes => exact iff_of_true (.answer _) trivial

end Condition

/-! ## An entry that is gone -/

/-- User 2 may edit the base of the entry, which has a collection. -/
def oneEntry : Site where
  tables :=
    { kbs := [{ id := 0 }], documents := [], next := 2
      entries := [{ id := 1, knowledgeBaseId := 0, title := "title", content := "text" }] }
  collections := fun _ => some Store.empty

theorem oneEntry_keyed : oneEntry.tables.Keyed :=
  ⟨List.nodup_nil, List.nodup_singleton 1, fun _ hc => nomatch hc⟩

/-- Two documents of the base, the second with a vector. -/
def twoDocuments : Site where
  tables :=
    { kbs := [{ id := 0 }], next := 4
      documents := [{ id := 1, knowledgeBaseId := 0 }, { id := 2, knowledgeBaseId := 0 }]
      chunks := [{ id := 3, unitType := .document, unitId := 2, knowledgeBaseId := 0, content := "text" }] }
  collections := fun _ => some (Store.empty.upsert [(3, {
    denseVector := "text", content := "text", documentId := 2, folderId := none, level := 0, position := 0
    chunkTags := [] })])

theorem twoDocuments_keyed : twoDocuments.tables.Keyed := by
  refine ⟨by decide, List.nodup_nil, ?_⟩
  intro c hc p hp
  rcases List.mem_singleton.1 hc with rfl
  cases hp

/-- The purge of the second document fails, and both documents and the vector are still there. -/
theorem twoDocuments_atomic : ∃ out, respond (fun _ _ => []) Review.sampleOrg ⟨2, .user⟩ 0
      { milvus := some 1 } twoDocuments (.batchDeleteDocuments [1, 2]) = out ∧
    (∃ e, out.reply = .error e ∧ e.status = 503) ∧ AtomicOnFailure twoDocuments out := by
  refine ⟨_, rfl, ⟨documentsUnavailable { milvus := some 1 }, ?_, rfl⟩, ?_⟩
  · rfl
  · refine (atomicOnFailure_iff _ _ _ _ _ twoDocuments_keyed _).2 ?_
    intro _ _ i row hrow htaken
    obtain ⟨rows, hrows, hrow⟩ := Site.vector_eq_some.1 hrow
    cases hrows
    have hsecond : row.documentId = 2 := by
      rcases Store.upsert_cases Store.empty _ i with ⟨b, hb, heq⟩ | ⟨-, heq⟩
      · rw [heq] at hrow
        cases hrow
        cases List.mem_singleton.1 hb
        rfl
      · rw [heq] at hrow
        cases hrow
    rw [hsecond] at htaken
    exact absurd htaken (by decide)

/-- The first deletion of the purge fails. -/
theorem entry_deleted_on_failure :
    ¬ ∀ (org : Organisation) (user : User) (kbId : Nat) (faults : Faults) (site : Site),
      site.tables.Keyed → ∀ call, AtomicOnFailure site
        (respond (fun _ _ => []) org user kbId faults site call) := by
  intro hall
  have hadmitted : requireEntryKb Review.sampleOrg ⟨2, .user⟩ 0 oneEntry "edit" = .ok () :=
    check_bind_eq_ok.2 ⟨rfl, Review.sampleOrg_editor⟩
  have hatomic := hall Review.sampleOrg ⟨2, .user⟩ 0 { milvus := some 0 } oneEntry oneEntry_keyed
    (.deleteEntry 1)
  exact (deleteEntry_atomic_iff 1).1 hatomic hadmitted _ rfl rfl rfl

end OpsKnowledge.Units
