import OpsKnowledge.Knowledge.Keys
import OpsKnowledge.Units.Endpoints

/-!
# The tasks of a request

What the workers make of the tasks that a request hands to them, and that a statement or a
task on units of one base leaves the rows of other bases as they are.
-/

namespace OpsKnowledge.Units

open OpsKnowledge.Lib
open Knowledge (Tables Document KnowledgeEntry Chunk UnitType TextSource)

/-! ## The workers -/

/-- How a task ends: a document is ingested from a text, chunks are embedded, or neither. -/
inductive Work where
  | ingested (source : TextSource)
  | embedded
  | failed

def Task.unit : Task → UnitType × Nat
  | .processDocument docId => (.document, docId)
  | .embedUnitChunks unitType unitId _ => (unitType, unitId)
  | .refreshUserTags entryId => (.entry, entryId)

/-- What a task leaves of the tables. A document that another worker has is skipped. -/
def Task.run (countTokens : String → Nat) (work : Work) (t : Tables) : Task → Tables
  | .processDocument docId =>
      match t.startIngest docId with
      | none => t
      | some started =>
          let finished := match work with
            | .ingested source => started.finishIngest countTokens docId source
            | _ => started.failIngest docId
          finished.getD started
  | .embedUnitChunks unitType unitId _ =>
      match t.unitKb unitType unitId, work with
      | some _, .embedded =>
          { t with chunks := Knowledge.setVectorIds (Knowledge.unembedded unitType unitId t.chunks) t.chunks }
      | _, _ => t
  | .refreshUserTags entryId =>
      match t.getEntry entryId with
      | none => t
      | some entry =>
          { t with
            chunks := updateWhere (Chunk.inUnit .entry entryId)
              (fun c => { c with chunkTags := Knowledge.computeChunkTags entry.tags entry.autoTags })
              t.chunks }

/-- A state in which a task may run: its unit is in the base where it was, or gone. -/
structure Later (task : Task) (t₀ t : Tables) : Prop where
  valid : t.Valid
  keyed : t.Keyed
  unit : ∀ k, t.unitKb task.unit.1 task.unit.2 = some k → t₀.unitKb task.unit.1 task.unit.2 = some k

/-! ## What other bases hold -/

/-- The rows of other bases are the same. -/
structure LeavesOthers (kbId : Nat) (t t' : Tables) : Prop where
  documents : t'.documents.filter (fun d => d.knowledgeBaseId ≠ kbId) =
    t.documents.filter fun d => d.knowledgeBaseId ≠ kbId
  entries : t'.entries.filter (fun e => e.knowledgeBaseId ≠ kbId) =
    t.entries.filter fun e => e.knowledgeBaseId ≠ kbId
  chunks : t'.chunks.filter (fun c => c.knowledgeBaseId ≠ kbId) =
    t.chunks.filter fun c => c.knowledgeBaseId ≠ kbId

/-! ## Rows of other bases over a statement -/

section Rows

variable {t t' t'' : Tables} {kbId : Nat}

theorem LeavesOthers.refl (kbId : Nat) (t : Tables) : LeavesOthers kbId t t := ⟨rfl, rfl, rfl⟩

theorem LeavesOthers.trans (h : LeavesOthers kbId t t') (h' : LeavesOthers kbId t' t'') :
    LeavesOthers kbId t t'' :=
  ⟨h'.documents.trans h.documents, h'.entries.trans h.entries, h'.chunks.trans h.chunks⟩

theorem filter_deleteChunks_others (hkeyed : t.Keyed) {p : Chunk → Bool}
    (hp : ∀ c ∈ t.chunks, p c = true → c.knowledgeBaseId = kbId) :
    (Knowledge.deleteChunks p t.chunks).filter (fun c => c.knowledgeBaseId ≠ kbId) =
      t.chunks.filter fun c => c.knowledgeBaseId ≠ kbId := by
  unfold Knowledge.deleteChunks
  rw [List.filter_map]
  have hkeep : (t.chunks.filter fun c => !p c).filter (fun c => c.knowledgeBaseId ≠ kbId) =
      t.chunks.filter fun c => c.knowledgeBaseId ≠ kbId := by
    apply filter_filter_of_imp
    intro c hc hother
    cases hpc : p c with
    | false => rfl
    | true =>
        have hhome := hp c hc hpc
        simp [hhome] at hother
  have hsame : (fun c : Chunk => decide (c.knowledgeBaseId ≠ kbId)) ∘
      Chunk.detach ((t.chunks.filter p).map Chunk.id) = fun c => decide (c.knowledgeBaseId ≠ kbId) := by
    funext c
    simp
  rw [hsame, hkeep]
  -- The parent of a chunk of another base is of that base and stays.
  apply (List.map_congr_left _).trans (List.map_id _)
  intro c hc
  obtain ⟨hmem, hother⟩ := List.mem_filter.1 hc
  have hother : c.knowledgeBaseId ≠ kbId := by simpa using hother
  have hparent : c.parentChunkId.any (· ∈ (t.chunks.filter p).map Chunk.id) = false := by
    cases hq : c.parentChunkId with
    | none => rfl
    | some q =>
        by_contra hin
        have hgone : q ∈ (t.chunks.filter p).map Chunk.id := by
          simpa only [Option.any_some, Bool.not_eq_false, decide_eq_true_eq] using hin
        obtain ⟨d, hd, hid⟩ := List.mem_map.1 hgone
        obtain ⟨hd, hpd⟩ := List.mem_filter.1 hd
        have hhome := (hkeyed.parents c hmem q hq).2 d hd hid
        exact hother (hhome.symm.trans (hp d hd hpd))
  simp [Chunk.detach, hparent]

theorem LeavesOthers.of_chunks (hdocs : t'.documents = t.documents) (hentries : t'.entries = t.entries)
    (hchunks : t'.chunks.filter (fun c => c.knowledgeBaseId ≠ kbId) =
      t.chunks.filter fun c => c.knowledgeBaseId ≠ kbId) : LeavesOthers kbId t t' :=
  ⟨by rw [hdocs], by rw [hentries], hchunks⟩

/-- An update of a document of the base. -/
theorem filter_updateDocument (hkeyed : t.Keyed) {doc : Document} {docId : Nat}
    (hdoc : t.getDocument docId = some doc) (hhome : doc.knowledgeBaseId = kbId)
    {f : Document → Document} (hf : ∀ d, (f d).knowledgeBaseId = d.knowledgeBaseId) :
    (updateWhere (fun d => d.id = docId) f t.documents).filter (fun d => d.knowledgeBaseId ≠ kbId) =
      t.documents.filter fun d => d.knowledgeBaseId ≠ kbId := by
  obtain ⟨hmem, rfl⟩ := Tables.getDocument_eq_some hdoc
  apply filter_updateWhere_of_not
  intro d hd hid
  obtain rfl : d = doc :=
    List.inj_on_of_nodup_map hkeyed.documents hd hmem (of_decide_eq_true hid)
  simp [hf, hhome]

theorem filter_updateEntry (hkeyed : t.Keyed) {entry : KnowledgeEntry} {entryId : Nat}
    (hentry : t.getEntry entryId = some entry) (hhome : entry.knowledgeBaseId = kbId)
    {f : KnowledgeEntry → KnowledgeEntry} (hf : ∀ e, (f e).knowledgeBaseId = e.knowledgeBaseId) :
    (updateWhere (fun e => e.id = entryId) f t.entries).filter (fun e => e.knowledgeBaseId ≠ kbId) =
      t.entries.filter fun e => e.knowledgeBaseId ≠ kbId := by
  obtain ⟨hmem, rfl⟩ := Tables.getEntry_eq_some hentry
  apply filter_updateWhere_of_not
  intro e he hid
  obtain rfl : e = entry := List.inj_on_of_nodup_map hkeyed.entries he hmem (of_decide_eq_true hid)
  simp [hf, hhome]

theorem filter_updateChunks {p : Chunk → Bool} {f : Chunk → Chunk}
    (hp : ∀ c ∈ t.chunks, p c = true → c.knowledgeBaseId = kbId)
    (hf : ∀ c, (f c).knowledgeBaseId = c.knowledgeBaseId) :
    (updateWhere p f t.chunks).filter (fun c => c.knowledgeBaseId ≠ kbId) =
      t.chunks.filter fun c => c.knowledgeBaseId ≠ kbId := by
  apply filter_updateWhere_of_not
  intro c hc hpc
  simp [hf, hp c hc hpc]

/-- New rows of the base. -/
theorem filter_append_own {rows : List Chunk} (hrows : ∀ r ∈ rows, r.knowledgeBaseId = kbId) :
    (t.chunks ++ rows).filter (fun c => c.knowledgeBaseId ≠ kbId) =
      t.chunks.filter fun c => c.knowledgeBaseId ≠ kbId := by
  have hnone : rows.filter (fun c => c.knowledgeBaseId ≠ kbId) = [] := by
    rw [List.filter_eq_nil_iff]
    intro r hr
    simp [hrows r hr]
  rw [List.filter_append, hnone, List.append_nil]

/-- The chunks of a unit of the base. -/
theorem home_of_inUnit (hvalid : t.Valid) {unitType : UnitType} {unitId : Nat}
    (hunit : ∀ k, t.unitKb unitType unitId = some k → k = kbId) :
    ∀ c ∈ t.chunks, c.inUnit unitType unitId = true → c.knowledgeBaseId = kbId := by
  intro c hc hin
  have hkeys : c.unitType = unitType ∧ c.unitId = unitId := Chunk.inUnit_iff.1 hin
  have hkb := (hvalid.chunks c hc).2
  rw [hkeys.1, hkeys.2] at hkb
  exact hunit _ hkb

/-! ## Tasks -/

theorem submitDocForReview_leaves (hvalid : t.Valid) (hkeyed : t.Keyed) {doc : Document} {docId : Nat}
    (hdoc : t.getDocument docId = some doc) (hhome : doc.knowledgeBaseId = kbId) :
    LeavesOthers kbId t (t.submitDocForReview docId) := by
  unfold Tables.submitDocForReview
  simp only [hdoc]
  split
  · exact .refl kbId t
  · have hunit : ∀ k, t.unitKb .document docId = some k → k = kbId := by
      intro k hk
      rw [Tables.unitKb_document hdoc] at hk
      exact (Option.some.inj hk).symm.trans hhome
    refine ⟨filter_updateDocument hkeyed hdoc hhome fun _ => rfl, rfl, ?_⟩
    exact filter_updateChunks (home_of_inUnit hvalid hunit) fun _ => rfl

theorem startIngest_leaves (hvalid : t.Valid) (hkeyed : t.Keyed) {docId : Nat}
    (hunit : ∀ k, t.unitKb .document docId = some k → k = kbId)
    (hs' : t.startIngest docId = some t') : LeavesOthers kbId t t' := by
  obtain ⟨doc, hdoc, -, rfl⟩ := Tables.startIngest_eq_some.1 hs'
  have hhome := hunit _ (Tables.unitKb_document hdoc)
  exact ⟨filter_updateDocument hkeyed hdoc hhome fun _ => rfl, rfl,
    filter_deleteChunks_others hkeyed (home_of_inUnit hvalid hunit)⟩

theorem finishIngest_leaves {countTokens : String → Nat} {source : TextSource} (hvalid : t.Valid)
    (hkeyed : t.Keyed) {docId : Nat} (hunit : ∀ k, t.unitKb .document docId = some k → k = kbId)
    (hs' : t.finishIngest countTokens docId source = some t') : LeavesOthers kbId t t' := by
  obtain ⟨doc, hdoc, -, rfl⟩ := Tables.finishIngest_eq_some.1 hs'
  obtain ⟨-, rfl⟩ := Tables.getDocument_eq_some hdoc
  have hhome := hunit _ (Tables.unitKb_document hdoc)
  let saved := t.ingested countTokens doc source
  have hrows : ∀ r ∈ (source.rows countTokens doc t.next).1, r.knowledgeBaseId = kbId := by
    intro r hr
    exact ((source.rows_new countTokens doc t.next).unit r hr).2.2.trans hhome
  have hsaved : LeavesOthers kbId t saved :=
    ⟨filter_updateDocument hkeyed hdoc hhome fun _ => rfl, rfl, filter_append_own hrows⟩
  split
  · have hvalid' : saved.Valid := hvalid.swap (Tables.ingested_frame countTokens doc source)
      (Tables.ingested_swap countTokens doc source) (Tables.unitKb_document hdoc)
    have hkeyed' : saved.Keyed := hkeyed.ingested hvalid countTokens doc source
    have hkb : saved.unitKb .document doc.id = some doc.knowledgeBaseId := by
      rw [(Tables.ingested_frame countTokens doc source).units]
      exact Tables.unitKb_document hdoc
    obtain ⟨d, hd, hdkb⟩ := Option.map_eq_some_iff.1 hkb
    exact hsaved.trans (submitDocForReview_leaves hvalid' hkeyed' hd (hdkb.trans hhome))
  · exact hsaved

theorem failIngest_leaves (hkeyed : t.Keyed) {docId : Nat}
    (hunit : ∀ k, t.unitKb .document docId = some k → k = kbId)
    (hs' : t.failIngest docId = some t') : LeavesOthers kbId t t' := by
  obtain ⟨-, rfl⟩ := Tables.failIngest_eq_some.1 hs'
  cases hdoc : t.getDocument docId with
  | none =>
      have hnone : ∀ d ∈ t.documents, decide (d.id = docId) = false := by
        intro d hd
        simpa using List.find?_eq_none.1 hdoc d hd
      refine ⟨?_, rfl, rfl⟩
      apply filter_updateWhere_of_not
      intro d hd hid
      rw [hnone d hd] at hid
      cases hid
  | some doc =>
      have hhome := hunit _ (Tables.unitKb_document hdoc)
      exact ⟨filter_updateDocument hkeyed hdoc hhome fun _ => rfl, rfl, rfl⟩

theorem processDocument_leaves (countTokens : String → Nat) (work : Work) (hvalid : t.Valid)
    (hkeyed : t.Keyed) {docId : Nat} (hunit : ∀ k, t.unitKb .document docId = some k → k = kbId) :
    LeavesOthers kbId t (Task.run countTokens work t (.processDocument docId)) := by
  simp only [Task.run]
  cases hstart : t.startIngest docId with
  | none => exact .refl kbId t
  | some started =>
      have hbegun := startIngest_leaves hvalid hkeyed hunit hstart
      have hstep : Knowledge.tableStep countTokens t (.startIngest docId : Knowledge.TableAction Unit) =
          some started := hstart
      have hkeyed' : started.Keyed := Tables.tableStep_keyed hvalid hkeyed hstep
      have hvalid' : started.Valid := Tables.tableStep_valid hvalid hstep
      have hunit' : ∀ k, started.unitKb .document docId = some k → k = kbId := by
        obtain ⟨doc, -, -, rfl⟩ := Tables.startIngest_eq_some.1 hstart
        rw [(Tables.clearIngested_frame docId doc.knowledgeBaseId).units]
        exact hunit
      have hrest : ∀ finished : Option Tables, (∀ t', finished = some t' → LeavesOthers kbId started t') →
          LeavesOthers kbId t (finished.getD started) := by
        intro finished hfinished
        cases hf : finished with
        | none => exact hbegun
        | some t' => exact hbegun.trans (hfinished t' hf)
      cases work with
      | ingested source =>
          apply hrest
          intro t' hs'
          exact finishIngest_leaves hvalid' hkeyed' hunit' hs'
      | embedded =>
          apply hrest
          intro t' hs'
          exact failIngest_leaves hkeyed' hunit' hs'
      | failed =>
          apply hrest
          intro t' hs'
          exact failIngest_leaves hkeyed' hunit' hs'

theorem embedUnitChunks_leaves (countTokens : String → Nat) (work : Work) (hvalid : t.Valid)
    {unitType : UnitType} {unitId toKb : Nat}
    (hunit : ∀ k, t.unitKb unitType unitId = some k → k = kbId) :
    LeavesOthers kbId t (Task.run countTokens work t (.embedUnitChunks unitType unitId toKb)) := by
  simp only [Task.run]
  split
  · refine .of_chunks rfl rfl (filter_updateChunks ?_ fun _ => rfl)
    intro c hc hid
    obtain ⟨d, hd, hid⟩ := List.mem_map.1 (of_decide_eq_true hid)
    obtain ⟨hmem, hin, -⟩ := Knowledge.mem_unembedded.1 hd
    obtain rfl := hvalid.eq_of_id hmem hc hid
    exact home_of_inUnit hvalid hunit d hmem hin
  · exact .refl kbId t

theorem refreshUserTags_leaves (countTokens : String → Nat) (work : Work) (hvalid : t.Valid)
    {entryId : Nat} (hunit : ∀ k, t.unitKb .entry entryId = some k → k = kbId) :
    LeavesOthers kbId t (Task.run countTokens work t (.refreshUserTags entryId)) := by
  simp only [Task.run]
  split
  · exact .refl kbId t
  · exact .of_chunks rfl rfl (filter_updateChunks (home_of_inUnit hvalid hunit) fun _ => rfl)

/-- A task on a unit of the base. -/
theorem Task.run_leaves (countTokens : String → Nat) (work : Work) (hvalid : t.Valid) (hkeyed : t.Keyed)
    (task : Task) (hunit : ∀ k, t.unitKb task.unit.1 task.unit.2 = some k → k = kbId) :
    LeavesOthers kbId t (task.run countTokens work t) := by
  cases task with
  | processDocument docId => exact processDocument_leaves countTokens work hvalid hkeyed hunit
  | embedUnitChunks unitType unitId toKb => exact embedUnitChunks_leaves countTokens work hvalid hunit
  | refreshUserTags entryId => exact refreshUserTags_leaves countTokens work hvalid hunit

end Rows

end OpsKnowledge.Units
