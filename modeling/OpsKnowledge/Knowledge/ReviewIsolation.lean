import OpsKnowledge.Knowledge.StoreInvariant

/-!
# Review isolation

A chunk carries `review_excluded` so that readers need not look at its unit. The flag is
right when it says whether the unit is pending or rejected. It is written where rows are
made and where a decision is taken, and not by all of those places.
-/

namespace OpsKnowledge.Knowledge

open OpsKnowledge.Lib

namespace Tables

/-- The review status of a unit whose row is there. -/
def unitReview (t : Tables) : UnitType → Nat → Option (Option ReviewStatus)
  | .document, unitId => (t.getDocument unitId).map Document.reviewStatus
  | .entry, unitId => (t.getEntry unitId).map KnowledgeEntry.reviewStatus

/-- The chunk is flagged exactly when its unit is pending or rejected. -/
def Flagged (t : Tables) (c : Chunk) : Prop :=
  ∀ status, t.unitReview c.unitType c.unitId = some status →
    c.reviewExcluded = excludedStatus status

def Isolated (t : Tables) : Prop := ∀ c ∈ t.chunks, t.Flagged c

/-- A document under exclusion is neither ingested again nor summarised; an approved document with
chunks is not rejected; the request that puts an entry back under review replaces its chunks. -/
def KeepsIsolation {Vec : Type} (t : Tables) : TableAction Vec → Prop
  | .finishIngest docId source => ∀ doc, t.getDocument docId = some doc →
      excludedStatus doc.reviewStatus = true → (source.results t.next).1 = []
  | .buildRaptor docId env => ∀ doc, t.getDocument docId = some doc →
      excludedStatus doc.reviewStatus = true →
        ¬ SummaryDue env (raptorSeeds env (l0Chunks t.chunks docId))
  | .reject docId => ∀ doc, t.getDocument docId = some doc →
      doc.reviewStatus = some .approved → t.unitRows .document docId = 0
  | .updateEntry entryId payload _ => ∀ entry, t.getEntry entryId = some entry →
      payload.reviewRelevant entry = true → payload.contentChanged entry = false →
        t.reviewRequired entry.knowledgeBaseId = true →
          excludedStatus entry.reviewStatus = false → t.unitRows .entry entryId = 0
  | _ => True

variable {t t' : Tables} {unitType : UnitType} {unitId kbId docId : Nat} {p : Chunk → Bool}
  {rows : List Chunk}

/-! ## Statuses -/

theorem unitReview_document {doc : Document} (h : t.getDocument docId = some doc) :
    t.unitReview .document docId = some doc.reviewStatus := by
  simp [unitReview, h]

theorem unitReview_entry {entryId : Nat} {entry : KnowledgeEntry} (h : t.getEntry entryId = some entry) :
    t.unitReview .entry entryId = some entry.reviewStatus := by
  simp [unitReview, h]

theorem unitReview_congr (hdocs : t'.documents = t.documents) (hentries : t'.entries = t.entries) :
    t'.unitReview = t.unitReview := by
  funext type id
  cases type with
  | document => simp only [unitReview, getDocument, hdocs]
  | entry => simp only [unitReview, getEntry, hentries]

/-- An update that leaves the column alone. -/
theorem unitReview_of_documents {f : Document → Document}
    (hdocs : t'.documents = updateWhere (fun d => d.id = docId) f t.documents)
    (hentries : t'.entries = t.entries)
    (hf : ∀ d, (f d).id = d.id ∧ (f d).reviewStatus = d.reviewStatus) : t'.unitReview = t.unitReview := by
  funext type id
  cases type with
  | entry => simp only [unitReview, getEntry, hentries]
  | document =>
      simp only [unitReview, getDocument, hdocs]
      exact map_find?_updateWhere hf docId id

theorem unitReview_setReviewStatus (docId : Nat) (status : ReviewStatus) (type : UnitType) (id : Nat) :
    (t.setReviewStatus docId status).unitReview type id =
      if type = .document ∧ id = docId then (t.unitReview type id).map fun _ => some status
      else t.unitReview type id := by
  cases type with
  | entry => rw [if_neg (by simp)]; rfl
  | document =>
      show ((t.setReviewStatus docId status).getDocument id).map Document.reviewStatus = _
      unfold setReviewStatus
      rw [getDocument_updateDocument]
      · by_cases hid : id = docId
        · simp [hid, unitReview, Function.comp_def]
        · simp [hid, unitReview]
      · intro d
        rfl

/-! ## Flags over a step -/

/-- Chunks with the flags that they had, in units whose status stays or whose row is gone. -/
theorem Isolated.of_keeps (h : t.Isolated)
    (hchunks : ∀ c' ∈ t'.chunks, ∃ c ∈ t.chunks, c'.unitType = c.unitType ∧ c'.unitId = c.unitId ∧
      c'.reviewExcluded = c.reviewExcluded)
    (hreview : ∀ c ∈ t.chunks, ∀ status, t'.unitReview c.unitType c.unitId = some status →
      t.unitReview c.unitType c.unitId = some status) : t'.Isolated := by
  intro c' hc' status hstatus
  obtain ⟨c, hc, htype, hunit, hflag⟩ := hchunks c' hc'
  rw [htype, hunit] at hstatus
  rw [hflag]
  exact h c hc status (hreview c hc status hstatus)

theorem Isolated.of_same (h : t.Isolated) (hchunks : t'.chunks = t.chunks)
    (hreview : t'.unitReview = t.unitReview) : t'.Isolated := by
  refine h.of_keeps ?_ ?_
  · intro c hc
    exact ⟨c, hchunks ▸ hc, rfl, rfl, rfl⟩
  · intro c _ status hstatus
    rwa [hreview] at hstatus

/-- Where no status changes, the new rows decide. -/
theorem isolated_swap_iff (h : t.Isolated) (hswap : Swap unitType unitId kbId p rows t t')
    (hreview : t'.unitReview = t.unitReview) : t'.Isolated ↔ ∀ r ∈ rows, t.Flagged r := by
  have hflagged : ∀ c, t'.Flagged c ↔ t.Flagged c := by
    intro c
    simp only [Flagged, hreview]
  constructor
  · intro h' r hr
    rw [← hflagged]
    exact h' r (by rw [hswap.chunks]; exact List.mem_append_right _ hr)
  · intro hrows c hc
    rw [hflagged]
    rw [hswap.chunks] at hc
    rcases List.mem_append.1 hc with hc | hc
    · obtain ⟨d, hd, -, -, htype, hunit, -, hflag⟩ := mem_deleteChunks_keys hc
      intro status hstatus
      rw [htype, hunit] at hstatus
      rw [hflag]
      exact h d hd status hstatus
    · exact hrows c hc

theorem Isolated.delete (h : t.Isolated) (hswap : Swap unitType unitId kbId p [] t t')
    (hreview : t'.unitReview = t.unitReview) : t'.Isolated :=
  (isolated_swap_iff h hswap hreview).2 (by simp)

/-- Rows of one flag in a unit with a status. -/
theorem flagged_iff_of_unit {status : Option ReviewStatus} {c : Chunk}
    (hunit : c.unitType = unitType ∧ c.unitId = unitId)
    (hstatus : t.unitReview unitType unitId = some status) :
    t.Flagged c ↔ c.reviewExcluded = excludedStatus status := by
  obtain ⟨rfl, rfl⟩ := hunit
  simp only [Flagged, hstatus, Option.some.injEq, forall_eq']

/-! ## Decisions -/

/-- A decision that writes both the status and the flags puts the document right. -/
theorem isolated_marked {status : ReviewStatus} {excluded : Bool}
    (hexcluded : excluded = excludedStatus (some status))
    (hothers : ∀ c ∈ t.chunks, c.inUnit .document docId = false → t.Flagged c) :
    ((t.setReviewStatus docId status).setChunksExcluded docId excluded).Isolated := by
  intro c' hc'
  obtain ⟨c, hc, rfl⟩ := mem_updateWhere.1 hc'
  intro s hs
  cases hin : c.inUnit .document docId with
  | true =>
      have hunit : c.unitType = .document ∧ c.unitId = docId := Chunk.inUnit_iff.1 hin
      simp only [hin, if_true] at hs ⊢
      have hnew : (t.setReviewStatus docId status).unitReview c.unitType c.unitId = some s := hs
      rw [unitReview_setReviewStatus, if_pos hunit] at hnew
      obtain ⟨_, -, rfl⟩ := Option.map_eq_some_iff.1 hnew
      exact hexcluded
  | false =>
      have hother : ¬ (c.unitType = .document ∧ c.unitId = docId) := by
        simpa [Chunk.inUnit] using hin
      simp only [hin, Bool.false_eq_true, if_false] at hs ⊢
      have hold : (t.setReviewStatus docId status).unitReview c.unitType c.unitId = some s := hs
      rw [unitReview_setReviewStatus, if_neg hother] at hold
      exact hothers c hc hin s hold

theorem flagged_of_away (h : t.Isolated) :
    ∀ c ∈ t.chunks, c.inUnit .document docId = false → t.Flagged c :=
  fun c hc _ => h c hc

theorem submitDocForReview_isolated {doc : Document} (hdoc : t.getDocument docId = some doc)
    (hothers : ∀ c ∈ t.chunks, c.inUnit .document docId = false → t.Flagged c)
    (hunset : doc.reviewStatus = none) : (t.submitDocForReview docId).Isolated := by
  unfold submitDocForReview
  simp only [hdoc, hunset, Option.isSome_none, Bool.false_eq_true, if_false]
  exact isolated_marked rfl hothers

theorem submitDocForReview_of_set {doc : Document} (hdoc : t.getDocument docId = some doc)
    (hset : doc.reviewStatus ≠ none) : t.submitDocForReview docId = t := by
  unfold submitDocForReview
  simp only [hdoc, Option.isSome_iff_ne_none.2 hset, if_true]

theorem Isolated.submit (h : t.Isolated) {doc : Document} (hdoc : t.getDocument docId = some doc) :
    (t.submitDocForReview docId).Isolated := by
  by_cases hset : doc.reviewStatus = none
  · exact submitDocForReview_isolated hdoc (flagged_of_away h) hset
  · rw [submitDocForReview_of_set hdoc hset]
    exact h

/-- A rejection writes no flag. -/
theorem reject_isolated_iff (h : t.Isolated) (hs' : t.reject docId = some t') :
    t'.Isolated ↔ ∀ doc, t.getDocument docId = some doc → doc.reviewStatus = some .approved →
      t.unitRows .document docId = 0 := by
  obtain ⟨doc, hdoc, hset, rfl⟩ := decideReview_eq_some.1 hs'
  rw [if_neg (by decide)]
  have hstatus := unitReview_document hdoc
  have hnew : (t.setReviewStatus docId .rejected).unitReview .document docId =
      some (some .rejected) := by
    rw [unitReview_setReviewStatus, if_pos ⟨rfl, rfl⟩, hstatus]
    rfl
  constructor
  · intro h' doc' hdoc' happroved
    obtain rfl := Option.some.inj (hdoc.symm.trans hdoc')
    by_contra hrows
    obtain ⟨c, hc, hin⟩ := List.countP_pos_iff.1 (Nat.pos_of_ne_zero hrows)
    have hunit : c.unitType = .document ∧ c.unitId = docId := Chunk.inUnit_iff.1 hin
    have hbefore := (flagged_iff_of_unit hunit hstatus).1 (h c hc)
    have hafter := (flagged_iff_of_unit hunit hnew).1 (h' c hc)
    rw [happroved] at hbefore
    rw [hbefore] at hafter
    cases hafter
  · intro hnone c hc
    by_cases hunit : c.unitType = .document ∧ c.unitId = docId
    · rw [flagged_iff_of_unit hunit hnew, (flagged_iff_of_unit hunit hstatus).1 (h c hc)]
      cases hold : doc.reviewStatus with
      | none => rw [hold] at hset; cases hset
      | some s =>
          cases s with
          | pending => rfl
          | rejected => rfl
          | approved =>
              have hin : c.inUnit .document docId = true := Chunk.inUnit_iff.2 hunit
              exact absurd hin (List.countP_eq_zero.1 (hnone doc hdoc hold) c hc)
    · intro s hs
      rw [unitReview_setReviewStatus, if_neg hunit] at hs
      exact h c hc s hs

theorem approve_isolated (h : t.Isolated) (hs' : t.approve docId = some t') : t'.Isolated := by
  obtain ⟨doc, -, -, rfl⟩ := decideReview_eq_some.1 hs'
  rw [if_pos rfl]
  exact isolated_marked rfl (flagged_of_away h)

/-! ## Ingestion -/

theorem clearIngested_isolated (h : t.Valid) (hiso : t.Isolated)
    (hunit : t.unitKb .document docId = some kbId) : (t.clearIngested docId kbId).Isolated :=
  hiso.delete (clearIngested_swap h hunit) (unitReview_of_documents rfl rfl fun _ => ⟨rfl, rfl⟩)

theorem rows_visible (source : TextSource) (countTokens : String → Nat) (doc : Document) (next : Nat) :
    ∀ r ∈ (source.rows countTokens doc next).1, r.reviewExcluded = false := by
  intro r hr
  have hmem := (orderBy_perm _ _).mem_iff.1 hr
  exact (chunkObjects_fields countTokens doc _ _ r hmem).2.1

theorem rows_eq_nil_iff (source : TextSource) (countTokens : String → Nat) (doc : Document)
    (next : Nat) : (source.rows countTokens doc next).1 = [] ↔ (source.results next).1 = [] := by
  have hempty : IdMap.Valid { next := (source.results next).2 } := ⟨by simp, by simp⟩
  have hrows := (chunkObjects_spec countTokens doc hempty (source.results next).1).rows.length_eq
  have hlength : (source.rows countTokens doc next).1.length = (source.results next).1.length := by
    rw [hrows]
    exact (orderBy_perm _ _).length_eq
  rw [← List.length_eq_zero_iff, ← List.length_eq_zero_iff, hlength]

/-- Unflagged rows of one unit. -/
theorem flagged_visible_iff {status : Option ReviewStatus}
    (hunit : ∀ r ∈ rows, r.unitType = unitType ∧ r.unitId = unitId)
    (hvisible : ∀ r ∈ rows, r.reviewExcluded = false)
    (hstatus : t.unitReview unitType unitId = some status) :
    (∀ r ∈ rows, t.Flagged r) ↔ (excludedStatus status = true → rows = []) := by
  constructor
  · intro hall hexcluded
    rw [List.eq_nil_iff_forall_not_mem]
    intro r hr
    have hflag := (flagged_iff_of_unit (hunit r hr) hstatus).1 (hall r hr)
    rw [hvisible r hr, hexcluded] at hflag
    cases hflag
  · intro hnone r hr
    rw [flagged_iff_of_unit (hunit r hr) hstatus, hvisible r hr]
    cases hexcluded : excludedStatus status with
    | false => rfl
    | true => rw [hnone hexcluded] at hr; cases hr

theorem Swap.same_unit (h : Swap unitType unitId kbId p rows t t') :
    ∀ r ∈ rows, r.unitType = unitType ∧ r.unitId = unitId :=
  fun r hr => ⟨(h.new.unit r hr).1, (h.new.unit r hr).2.1⟩

theorem finishIngest_isolated_iff {countTokens : String → Nat} {source : TextSource}
    (hiso : t.Isolated) (hs' : t.finishIngest countTokens docId source = some t') :
    t'.Isolated ↔ ∀ doc, t.getDocument docId = some doc → excludedStatus doc.reviewStatus = true →
      (source.results t.next).1 = [] := by
  obtain ⟨doc, hdoc, -, rfl⟩ := finishIngest_eq_some.1 hs'
  obtain ⟨-, rfl⟩ := getDocument_eq_some hdoc
  let saved := t.ingested countTokens doc source
  have hswap := ingested_swap (t := t) countTokens doc source
  have hreview : saved.unitReview = t.unitReview :=
    unitReview_of_documents (t := t) rfl rfl fun _ => ⟨rfl, rfl⟩
  have hone : (∀ d, t.getDocument doc.id = some d → excludedStatus d.reviewStatus = true →
      (source.results t.next).1 = []) ↔
      (excludedStatus doc.reviewStatus = true → (source.results t.next).1 = []) := by
    simp [hdoc]
  have hsaved : saved.Isolated ↔
      (excludedStatus doc.reviewStatus = true → (source.results t.next).1 = []) := by
    rw [isolated_swap_iff hiso hswap hreview, flagged_visible_iff hswap.same_unit
      (rows_visible source countTokens doc t.next) (unitReview_document hdoc), rows_eq_nil_iff]
  have hdoc' : ∃ d, saved.getDocument doc.id = some d ∧ d.reviewStatus = doc.reviewStatus := by
    have hmap : saved.unitReview .document doc.id = some doc.reviewStatus := by
      rw [hreview]
      exact unitReview_document hdoc
    exact Option.map_eq_some_iff.1 hmap
  obtain ⟨d, hd, hstatus⟩ := hdoc'
  rw [hone]
  split
  · by_cases hunset : doc.reviewStatus = none
    · -- The submission flags all rows of the document.
      refine iff_of_true ?_ (by simp [hunset, excludedStatus])
      refine submitDocForReview_isolated hd ?_ (hstatus.trans hunset)
      intro c hc hout status hs
      rw [hreview] at hs
      have hmem : c ∈ t.chunks ++ (source.rows countTokens doc t.next).1 := hc
      rcases List.mem_append.1 hmem with hc | hc
      · exact hiso c hc status hs
      · have hunit := hswap.same_unit c hc
        simp [Chunk.inUnit, hunit] at hout
    · have hnoop : saved.submitDocForReview doc.id = saved :=
        submitDocForReview_of_set hd fun h => hunset (hstatus.symm.trans h)
      show (saved.submitDocForReview doc.id).Isolated ↔ _
      rw [hnoop]
      exact hsaved
  · exact hsaved

theorem buildRaptor_isolated_iff {Vec : Type} {env : RaptorEnv Vec} (hiso : t.Isolated)
    (hs' : t.buildRaptorForDocument docId env = some t') :
    t'.Isolated ↔ ∀ doc, t.getDocument docId = some doc → excludedStatus doc.reviewStatus = true →
      ¬ SummaryDue env (raptorSeeds env (l0Chunks t.chunks docId)) := by
  obtain ⟨doc, hdoc, rfl⟩ := buildRaptorForDocument_eq_some.1 hs'
  obtain ⟨-, rfl⟩ := getDocument_eq_some hdoc
  have hswap := summarised_swap (t := t) env doc
  have hone : (∀ d, t.getDocument doc.id = some d → excludedStatus d.reviewStatus = true →
      ¬ SummaryDue env (raptorSeeds env (l0Chunks t.chunks doc.id))) ↔
      (excludedStatus doc.reviewStatus = true →
        ¬ SummaryDue env (raptorSeeds env (l0Chunks t.chunks doc.id))) := by
    simp [hdoc]
  rw [isolated_swap_iff hiso hswap (unitReview_congr rfl rfl),
    flagged_visible_iff hswap.same_unit (buildRaptor_rows env t.chunks doc t.next).visible
      (unitReview_document hdoc), buildRaptor_rows_eq_nil_iff, hone]

/-! ## Entries -/

/-- A new unit has no chunks yet. -/
theorem Isolated.addUnit (hvalid : t.Valid) (h : t.Isolated) (hchunks : t'.chunks = t.chunks)
    (hreview : ∀ type id, id ≠ t.next → t'.unitReview type id = t.unitReview type id) :
    t'.Isolated := by
  refine h.of_keeps ?_ ?_
  · intro c hc
    exact ⟨c, hchunks ▸ hc, rfl, rfl, rfl⟩
  · intro c hc status hs
    have hlt := (hvalid.units _ _ _ (hvalid.chunks c hc).2).1
    rwa [hreview c.unitType c.unitId (by omega)] at hs

theorem uploadDocument_isolated (hvalid : t.Valid) (h : t.Isolated) {folderId : Option Nat}
    (hs' : t.uploadDocument kbId folderId = some t') : t'.Isolated := by
  simp only [uploadDocument, Option.bind_eq_bind, Option.bind_eq_some_iff, Option.some.injEq] at hs'
  obtain ⟨kb, -, rfl⟩ := hs'
  refine h.addUnit hvalid rfl ?_
  intro type id hne
  cases type with
  | entry => rfl
  | document => simp [addDocument, unitReview, getDocument, List.find?_append, hne.symm]

theorem addEntry_isolated (hvalid : t.Valid) (h : t.Isolated) {entry : KnowledgeEntry}
    (hid : entry.id = t.next) : (t.addEntry entry).Isolated := by
  refine h.addUnit hvalid rfl ?_
  intro type id hne
  cases type with
  | document => rfl
  | entry => simp [addEntry, unitReview, getEntry, List.find?_append, hid, hne.symm]

theorem Isolated.createChunks (h : t.Isolated) {entry : KnowledgeEntry}
    (hstatus : t.unitReview .entry entry.id = some entry.reviewStatus) (seeds : List ChunkSeed) :
    (t.createChunksForEntry entry seeds).Isolated := by
  have hswap := createChunksForEntry_swap (t := t) entry seeds
  rw [isolated_swap_iff h hswap (unitReview_congr rfl rfl)]
  intro r hr
  rw [flagged_iff_of_unit (hswap.same_unit r hr) hstatus]
  exact (seedRows_fields r hr).1

theorem createEntry_isolated (hvalid : t.Valid) (h : t.Isolated) {title content : String}
    {tags : List String} {seeds : List ChunkSeed}
    (hs' : t.createEntry kbId title content tags seeds = some t') : t'.Isolated := by
  obtain ⟨kb, hkb, rfl⟩ := createEntry_eq_some hs'
  have hget := (hvalid.addNewEntry hkb title content tags).2
  exact (addEntry_isolated hvalid h rfl).createChunks (unitReview_entry hget) seeds

/-- The status of the entry is the one that the request leaves. -/
theorem unitReview_saveEntry {entryId : Nat} {entry : KnowledgeEntry}
    (hentry : t.getEntry entryId = some entry) (payload : EntryPayload) :
    (t.saveEntry entry payload).unitReview .entry entryId =
      some (updatedEntry entry payload (t.reviewRequired entry.knowledgeBaseId)).reviewStatus := by
  obtain ⟨-, rfl⟩ := getEntry_eq_some hentry
  simp [unitReview, getEntry_saveEntry, hentry]

theorem unitReview_saveEntry_of_ne {entry : KnowledgeEntry} (payload : EntryPayload) {type : UnitType}
    {id : Nat} (hne : ¬ (type = .entry ∧ id = entry.id)) :
    (t.saveEntry entry payload).unitReview type id = t.unitReview type id := by
  cases type with
  | document => simp only [unitReview, getDocument, saveEntry_documents]
  | entry =>
      have hid : id ≠ entry.id := fun h => hne ⟨rfl, h⟩
      simp [unitReview, getEntry_saveEntry, hid]

theorem updatedEntry_reviewStatus (entry : KnowledgeEntry) (payload : EntryPayload)
    (reviewRequired : Bool) : (updatedEntry entry payload reviewRequired).reviewStatus =
      if payload.reviewRelevant entry && reviewRequired then some .pending
      else entry.reviewStatus := rfl

/-- The chunks that the request leaves in the entry keep their flags. -/
theorem saveEntry_flagged_others (hvalid : t.Valid) (h : t.Isolated) {entryId : Nat}
    {entry : KnowledgeEntry} (hentry : t.getEntry entryId = some entry) (payload : EntryPayload)
    {c : Chunk} (hc : c ∈ (t.saveEntry entry payload).chunks)
    (hout : c.inUnit .entry entryId = false) : (t.saveEntry entry payload).Flagged c := by
  obtain ⟨-, rfl⟩ := getEntry_eq_some hentry
  rw [(saveEntry_swap hvalid hentry payload).chunks, List.append_nil] at hc
  obtain ⟨d, hd, -, -, htype, hunit, -, hflag⟩ := mem_deleteChunks_keys hc
  have hother : ¬ (c.unitType = .entry ∧ c.unitId = entry.id) := by
    simpa [Chunk.inUnit] using hout
  intro status hs
  rw [unitReview_saveEntry_of_ne payload hother, htype, hunit] at hs
  rw [hflag]
  exact h d hd status hs

theorem updateEntry_isolated_iff (hvalid : t.Valid) (h : t.Isolated) {entryId : Nat}
    {payload : EntryPayload} {seeds : List ChunkSeed}
    (hs' : t.updateEntry entryId payload seeds = some t') :
    t'.Isolated ↔ ∀ entry, t.getEntry entryId = some entry → payload.reviewRelevant entry = true →
      payload.contentChanged entry = false → t.reviewRequired entry.knowledgeBaseId = true →
        excludedStatus entry.reviewStatus = false → t.unitRows .entry entryId = 0 := by
  obtain ⟨entry, hentry, rfl⟩ := updateEntry_eq_some.1 hs'
  let saved := t.saveEntry entry payload
  have hold := unitReview_entry hentry
  have hnew := unitReview_saveEntry hentry payload
  rw [updatedEntry_reviewStatus] at hnew
  have hone : (∀ e, t.getEntry entryId = some e → payload.reviewRelevant e = true →
      payload.contentChanged e = false → t.reviewRequired e.knowledgeBaseId = true →
        excludedStatus e.reviewStatus = false → t.unitRows .entry entryId = 0) ↔
      (payload.reviewRelevant entry = true → payload.contentChanged entry = false →
        t.reviewRequired entry.knowledgeBaseId = true →
          excludedStatus entry.reviewStatus = false → t.unitRows .entry entryId = 0) := by
    simp [hentry]
  rw [hone]
  have hkept : payload.contentChanged entry = false → saved.chunks = t.chunks := by
    intro hsame
    show (t.saveEntry entry payload).chunks = t.chunks
    unfold saveEntry
    simp [hsame]
  have hgone : payload.contentChanged entry = true → saved.unitRows .entry entryId = 0 := by
    intro hchanged
    obtain ⟨-, rfl⟩ := getEntry_eq_some hentry
    unfold unitRows
    rw [List.countP_eq_zero]
    intro c hc hin
    have hmem : c ∈ (t.saveEntry entry payload).chunks := hc
    rw [(saveEntry_swap hvalid hentry payload).chunks, List.append_nil] at hmem
    obtain ⟨d, -, hstale, -, htype, hunit, -⟩ := mem_deleteChunks_keys hmem
    have hstays : d.inUnit .entry entry.id = false := by
      simpa [staleChunks, hchanged] using hstale
    rw [Chunk.inUnit, htype, hunit] at hin
    exact absurd hin (by rw [← Chunk.inUnit, hstays]; decide)
  split
  · next hempty =>
    refine iff_of_true ?_ ?_
    · -- No row of the entry is left, so all of them are new.
      have hsaved : saved.Isolated := by
        intro c hc
        apply saveEntry_flagged_others hvalid h hentry payload hc
        simpa using List.countP_eq_zero.1 hempty c hc
      obtain ⟨-, rfl⟩ := getEntry_eq_some hentry
      exact hsaved.createChunks (unitReview_saveEntry hentry payload) seeds
    · intro _ hsame _ _
      have hrows : saved.unitRows .entry entryId = t.unitRows .entry entryId := by
        unfold unitRows
        rw [hkept hsame]
      rw [← hrows]
      exact hempty
  · next hrows =>
    have hsame : payload.contentChanged entry = false := by
      cases hchanged : payload.contentChanged entry with
      | false => rfl
      | true => exact absurd (hgone hchanged) hrows
    have hcount : t.unitRows .entry entryId ≠ 0 := by
      intro hzero
      apply hrows
      show saved.unitRows .entry entryId = 0
      unfold unitRows at hzero ⊢
      rw [hkept hsame]
      exact hzero
    constructor
    · intro h' hrelevant _ hrequired hvisible
      obtain ⟨c, hc, hin⟩ := List.countP_pos_iff.1 (Nat.pos_of_ne_zero hcount)
      have hunit : c.unitType = .entry ∧ c.unitId = entryId := Chunk.inUnit_iff.1 hin
      have hbefore := (flagged_iff_of_unit hunit hold).1 (h c hc)
      have hmem : c ∈ saved.chunks := by rw [hkept hsame]; exact hc
      have hafter := (flagged_iff_of_unit hunit hnew).1 (h' c hmem)
      rw [hrelevant, hrequired, hbefore, hvisible] at hafter
      cases hafter
    · intro hcond c hc
      cases hin : c.inUnit .entry entryId with
      | false => exact saveEntry_flagged_others hvalid h hentry payload hc hin
      | true =>
          have hunit : c.unitType = .entry ∧ c.unitId = entryId := by
            simpa [Chunk.inUnit] using hin
          have hmem : c ∈ saved.chunks := hc
          rw [hkept hsame] at hmem
          have hbefore := (flagged_iff_of_unit hunit hold).1 (h c hmem)
          rw [flagged_iff_of_unit hunit hnew, hbefore]
          cases hset : payload.reviewRelevant entry && t.reviewRequired entry.knowledgeBaseId with
          | false => rfl
          | true =>
              obtain ⟨hrelevant, hrequired⟩ := Bool.and_eq_true_iff.1 hset
              cases hvisible : excludedStatus entry.reviewStatus with
              | true => rfl
              | false => exact absurd (hcond hrelevant hsame hrequired hvisible) hcount

/-! ## Steps -/

theorem cascadeDeleteUnit_isolated (h : t.Isolated) (unitType : UnitType) (unitId : Nat) :
    (t.cascadeDeleteUnit unitType unitId).Isolated := by
  refine h.of_keeps ?_ ?_
  · intro c hc
    have hmem : c ∈ deleteChunks (Chunk.inUnit unitType unitId) t.chunks := by
      cases unitType <;> exact hc
    obtain ⟨d, hd, -, -, htype, hunit, -, hflag⟩ := mem_deleteChunks_keys hmem
    exact ⟨d, hd, htype, hunit, hflag⟩
  · intro c _ status hs
    cases unitType with
    | document =>
        cases htype : c.unitType with
        | entry => rwa [htype] at hs
        | document =>
            rw [htype] at hs
            have hfind : (((t.documents.filter fun d => d.id ≠ unitId).find?
                fun d => d.id = c.unitId).map Document.reviewStatus) = some status := hs
            rw [find?_filter_ne] at hfind
            by_cases hid : c.unitId = unitId
            · simp [hid] at hfind
            · rwa [if_neg hid] at hfind
    | entry =>
        cases htype : c.unitType with
        | document => rwa [htype] at hs
        | entry =>
            rw [htype] at hs
            have hfind : (((t.entries.filter fun e => e.id ≠ unitId).find?
                fun e => e.id = c.unitId).map KnowledgeEntry.reviewStatus) = some status := hs
            rw [find?_filter_ne] at hfind
            by_cases hid : c.unitId = unitId
            · simp [hid] at hfind
            · rwa [if_neg hid] at hfind

theorem editChunk_isolated (h : t.Isolated) {chunkId : Nat} {newContent : String}
    (hs' : t.editChunk chunkId newContent = some t') : t'.Isolated := by
  obtain ⟨c, -, rfl⟩ := editChunk_eq_some.1 hs'
  refine h.of_keeps ?_ fun _ _ _ hs => hs
  intro c' hc'
  obtain ⟨d, hd, rfl⟩ := mem_updateWhere.1 hc'
  refine ⟨d, hd, ?_⟩
  split
  · exact ⟨rfl, rfl, rfl⟩
  · exact ⟨rfl, rfl, rfl⟩

theorem splitChunk_isolated (hvalid : t.Valid) (h : t.Isolated) {chunkId : Nat}
    {splitPositions : List Int} (hs' : t.splitChunk chunkId splitPositions = some t') : t'.Isolated := by
  obtain ⟨c, hc, -, rows, -, honly, hflags, hswap⟩ := splitChunk_swap hvalid hs'
  rw [isolated_swap_iff h hswap (unitReview_congr honly.documents honly.entries)]
  intro r hr status hs
  obtain ⟨htype, hunit⟩ := hswap.same_unit r hr
  rw [htype, hunit] at hs
  rw [hflags r hr]
  exact h c hc status hs

/-- The merged chunks are of one unit, so their flags agree. -/
theorem mergeChunks_isolated (hvalid : t.Valid) (h : t.Isolated) {chunkIds : List Nat}
    (hs' : t.mergeChunks chunkIds = some t') : t'.Isolated := by
  obtain ⟨c, hc, hin, -, r, honly, hflag, hswap⟩ := mergeChunks_swap hvalid hs'
  rw [isolated_swap_iff h hswap (unitReview_congr honly.documents honly.entries)]
  intro r' hr' status hs
  obtain rfl := List.mem_singleton.1 hr'
  obtain ⟨htype, hunit⟩ := hswap.same_unit r' hr'
  rw [htype, hunit] at hs
  have hsource : ∀ d ∈ t.chunks, d.id ∈ chunkIds → d.reviewExcluded = excludedStatus status := by
    intro d hd hid
    obtain ⟨htype', hunit', -⟩ := hswap.old d hd (decide_eq_true hid)
    exact h d hd status (by rw [htype', hunit']; exact hs)
  rw [Bool.eq_iff_iff, hflag]
  constructor
  · intro hd
    obtain ⟨d, hd, hid, hexcluded⟩ := hd
    rw [← hsource d hd hid]
    exact hexcluded
  · intro hexcluded
    exact ⟨c, hc, hin, (hsource c hc hin).trans hexcluded⟩

theorem tableStep_isolated_iff {Vec : Type} {countTokens : String → Nat} {a : TableAction Vec}
    (hvalid : t.Valid) (h : t.Isolated) (hs' : tableStep countTokens t a = some t') :
    t'.Isolated ↔ t.KeepsIsolation a := by
  cases a with
  | uploadDocument kbId folderId => exact iff_of_true (uploadDocument_isolated hvalid h hs') trivial
  | startIngest docId =>
      obtain ⟨doc, hdoc, -, rfl⟩ := startIngest_eq_some.1 hs'
      exact iff_of_true (clearIngested_isolated hvalid h (unitKb_document hdoc)) trivial
  | finishIngest docId source => exact finishIngest_isolated_iff h hs'
  | failIngest docId =>
      obtain ⟨-, rfl⟩ := failIngest_eq_some.1 hs'
      exact iff_of_true (h.of_same rfl (unitReview_of_documents rfl rfl fun _ => ⟨rfl, rfl⟩)) trivial
  | buildRaptor docId env => exact buildRaptor_isolated_iff h hs'
  | cascadeDeleteUnit unitType unitId =>
      cases hs'
      exact iff_of_true (cascadeDeleteUnit_isolated h unitType unitId) trivial
  | editChunk chunkId newContent => exact iff_of_true (editChunk_isolated h hs') trivial
  | splitChunk chunkId splitPositions =>
      exact iff_of_true (splitChunk_isolated hvalid h hs') trivial
  | mergeChunks chunkIds => exact iff_of_true (mergeChunks_isolated hvalid h hs') trivial
  | deleteChunk chunkId =>
      obtain ⟨c, -, -, honly, hswap⟩ := deleteChunk_swap hvalid hs'
      have hreview := unitReview_congr honly.documents honly.entries
      exact iff_of_true (h.delete hswap hreview) trivial
  | createEntry kbId title content tags seeds =>
      exact iff_of_true (createEntry_isolated hvalid h hs') trivial
  | updateEntry entryId payload seeds => exact updateEntry_isolated_iff hvalid h hs'
  | submitForReview docId =>
      obtain ⟨doc, hdoc, rfl⟩ := submitForReview_eq_some.1 hs'
      refine iff_of_true ?_ trivial
      split
      · exact h.submit hdoc
      · exact h
  | approve docId => exact iff_of_true (approve_isolated h hs') trivial
  | reject docId => exact reject_isolated_iff h hs'
  | requestReReview docId =>
      obtain ⟨doc, -, rfl⟩ := requestReReview_eq_some.1 hs'
      refine iff_of_true ?_ trivial
      split
      · exact isolated_marked rfl (flagged_of_away h)
      · exact h
  | setReviewRequired kbId reviewRequired =>
      cases hs'
      exact iff_of_true (h.of_same rfl rfl) trivial

/-- Every chunk is flagged as the status of its unit asks, in every committed state, exactly when each
commit meets the condition. -/
theorem isolated_iff {Vec : Type} (countTokens : String → Nat) (hvalid : t.Valid) (h : t.Isolated)
    (as : List (TableAction Vec)) :
    Visits (tableStep countTokens) Isolated t as ↔
      EveryStep (tableStep countTokens) KeepsIsolation t as :=
  visits_iff_everyStep_of_inv (fun _ _ _ hvalid hs' => tableStep_valid hvalid hs')
    (fun _ _ _ hvalid h hs' => tableStep_isolated_iff hvalid h hs') hvalid h as

end Tables

/-- A base that reviews, with an approved document of one chunk. -/
def approvedDocument : Tables :=
  { kbs := [{ id := 0, reviewRequired := true, chunkCount := 1 }]
    documents := [{ id := 1, knowledgeBaseId := 0, chunkCount := 1, reviewStatus := some .approved }]
    chunks := [{ id := 2, unitType := .document, unitId := 1, knowledgeBaseId := 0, content := "text" }]
    next := 3 }

theorem approvedDocument_valid : approvedDocument.Valid :=
  Tables.valid_of_document rfl rfl rfl ⟨by decide, rfl⟩ ⟨by decide, _, List.mem_singleton_self _, rfl⟩

theorem approvedDocument_isolated : approvedDocument.Isolated := by
  intro c hc status hs
  obtain rfl := List.mem_singleton.1 hc
  cases hs
  rfl

/-- Rejecting an approved document leaves its chunk unflagged. -/
theorem rejected_stays_visible :
    ¬ ∀ (t : Tables) (as : List (TableAction Unit)), t.Valid → t.Isolated →
      Visits (tableStep fun _ => 0) Tables.Isolated t as := by
  intro hall
  have hlast := (hall approvedDocument [.reject 1] approvedDocument_valid
    approvedDocument_isolated).last rfl
  have hflag := hlast { id := 2, unitType := .document, unitId := 1, knowledgeBaseId := 0
                        content := "text" } List.mem_cons_self (some .rejected) rfl
  exact absurd hflag (by decide)

/-- Withdrawing the approval first. -/
theorem isolated_approvedDocument :
    Visits (tableStep fun _ => 0) Tables.Isolated approvedDocument
      ([.requestReReview 1, .reject 1] : List (TableAction Unit)) := by
  apply (Tables.isolated_iff _ approvedDocument_valid approvedDocument_isolated _).2
  intro s₁ h₁
  refine ⟨trivial, ?_⟩
  cases h₁
  intro s₂ h₂
  refine ⟨?_, trivial⟩
  intro doc hdoc happroved
  cases hdoc
  cases happroved

end OpsKnowledge.Knowledge
