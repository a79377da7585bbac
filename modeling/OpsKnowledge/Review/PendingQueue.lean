import OpsKnowledge.Review.FourEyes

/-!
# What is pending can be reviewed

A unit under review should be in the queue of each candidate reviewer but its author, and
a decision of such a user should set its status and the flags of its chunks. Queue and
decisions read documents only, and a rejection writes no flags.
-/

namespace OpsKnowledge.Review

open OpsKnowledge.Lib
open Knowledge (Tables TableAction Document Chunk UnitType ReviewStatus excludedStatus tableStep)

def UnitType.name : UnitType → String
  | .document => "document"
  | .entry => "entry"

def Organisation.author (org : Organisation) : UnitType → Nat → Nat
  | .document => org.createdBy.document
  | .entry => org.createdBy.entry

/-- The user has an account and is a candidate reviewer of the base, and not the author. -/
def IsReviewer (org : Organisation) (kbId authorId : Nat) (user : User) : Prop :=
  org.getUser user.id = some user ∧ user.id ∈ org.getCandidateReviewers kbId [authorId]

def HasReviewer (org : Organisation) (kbId authorId : Nat) : Prop := ∃ user, IsReviewer org kbId authorId user

section Queue

variable (org : Organisation) {κ : Type} [LinearOrder κ] (queueKey : Document → κ)

/-- On some page of the queue, for every page size. -/
def Listed (st : ReviewState) (user : User) (unitType : UnitType) (unitId : Nat) : Prop :=
  ∀ pageSize, 1 ≤ pageSize → ∃ page items total, 1 ≤ page ∧
    reviewPendingList org user st queueKey page pageSize none none = .ok (items, total) ∧
    ∃ item ∈ items, item.unitType = UnitType.name unitType ∧ item.unitId = unitId

/-- Pending, with somebody to review it. -/
def Watched (t : Tables) (unitType : UnitType) (unitId : Nat) : Prop :=
  t.unitReview unitType unitId = some (some .pending) ∧
    ∃ kbId, t.unitKb unitType unitId = some kbId ∧ HasReviewer org kbId (org.author unitType unitId)

/-- No step archives a document. -/
def Unarchived (t : Tables) : Prop := ∀ d ∈ t.documents, d.isArchived = false

/-- No entry is watched, and the chunks of a watched document are flagged. -/
structure QueueComplete (t : Tables) : Prop where
  entries : ∀ entryId, ¬ Watched org t .entry entryId
  flags : ∀ c ∈ t.chunks, c.unitType = .document → Watched org t .document c.unitId →
    c.reviewExcluded = true

end Queue

section State

variable {org : Organisation} {κ : Type} [LinearOrder κ] {queueKey : Document → κ} {t : Tables}
  {user : User}

/-! ## The queue of a reviewer -/

theorem mem_page {α : Type} {a : α} {xs : List α} (ha : a ∈ xs) {pageSize : Nat} (hpos : 1 ≤ pageSize) :
    ∃ page, 1 ≤ page ∧ a ∈ (xs.drop ((page - 1) * pageSize)).take pageSize := by
  obtain ⟨i, hi, rfl⟩ := List.mem_iff_getElem.1 ha
  have hdiv : i / pageSize * pageSize + i % pageSize = i := Nat.div_add_mod' i pageSize
  have hmod : i % pageSize < pageSize := Nat.mod_lt i hpos
  refine ⟨i / pageSize + 1, Nat.le_add_left _ _, ?_⟩
  rw [Nat.add_sub_cancel, List.mem_iff_getElem]
  have hlen : i % pageSize < ((xs.drop (i / pageSize * pageSize)).take pageSize).length := by
    simp only [List.length_take, List.length_drop]
    omega
  refine ⟨i % pageSize, hlen, ?_⟩
  simp only [List.getElem_take, List.getElem_drop, hdiv]

theorem IsReviewer.candidate {kbId authorId : Nat} (h : IsReviewer org kbId authorId user) :
    user.id ∈ org.getCandidateReviewers kbId [] :=
  Organisation.mem_getCandidateReviewers.2
    ⟨List.not_mem_nil, (Organisation.mem_getCandidateReviewers.1 h.2).2⟩

/-- Every item of the queue is a document. -/
theorem Listed.document {st : ReviewState} {unitType : UnitType} {unitId : Nat}
    (h : Listed org queueKey st user unitType unitId) : unitType = .document := by
  obtain ⟨page, items, total, -, hlist, item, hitem, htype, -⟩ := h 1 le_rfl
  have hname : item.unitType = "document" := by
    unfold reviewPendingList at hlist
    simp only [Option.filter_none, Option.forM, pure_bind] at hlist
    split at hlist
    · cases hlist
      cases hitem
    · cases hlist
      obtain ⟨d, -, rfl⟩ := List.mem_map.1 hitem
      rfl
  cases unitType with
  | document => rfl
  | entry =>
      rw [hname] at htype
      exact absurd htype (by decide)

/-! ## Decisions on a document -/

variable {t' : Tables} {docId : Nat}

/-- Chunks with the flags that they had, and no unit that is watched anew. -/
theorem QueueComplete.of_keeps (h : QueueComplete org t)
    (hwatched : ∀ type id, Watched org t' type id → Watched org t type id)
    (hchunks : ∀ c' ∈ t'.chunks, ∃ c ∈ t.chunks, c'.unitType = c.unitType ∧ c'.unitId = c.unitId ∧
      c'.reviewExcluded = c.reviewExcluded) : QueueComplete org t' := by
  constructor
  · intro entryId hw
    exact h.entries entryId (hwatched .entry entryId hw)
  · intro c' hc' htype hw
    obtain ⟨c, hc, htype', hunit, hflag⟩ := hchunks c' hc'
    rw [hunit] at hw
    rw [hflag]
    exact h.flags c hc (htype' ▸ htype) (hwatched .document c.unitId hw)

theorem watched_congr (hreview : t'.unitReview = t.unitReview) (hkb : t'.unitKb = t.unitKb)
    (type : UnitType) (id : Nat) : Watched org t' type id ↔ Watched org t type id := by
  simp only [Watched, hreview, hkb]

theorem QueueComplete.of_same (h : QueueComplete org t) (hchunks : t'.chunks = t.chunks)
    (hreview : t'.unitReview = t.unitReview) (hkb : t'.unitKb = t.unitKb) : QueueComplete org t' := by
  apply h.of_keeps
  · intro type id
    exact (watched_congr hreview hkb type id).1
  · intro c hc
    exact ⟨c, hchunks ▸ hc, rfl, rfl, rfl⟩

/-- New rows of a watched document need flags. -/
theorem queueComplete_swap_iff {unitType : UnitType} {unitId kbId : Nat} {p : Chunk → Bool}
    {rows : List Chunk} (h : QueueComplete org t)
    (hswap : Tables.Swap unitType unitId kbId p rows t t') (hreview : t'.unitReview = t.unitReview)
    (hkb : t'.unitKb = t.unitKb) :
    QueueComplete org t' ↔
      (unitType = .document → Watched org t .document unitId → ∀ r ∈ rows, r.reviewExcluded = true) := by
  constructor
  · intro h' htype hw r hr
    obtain ⟨hrtype, hrunit⟩ := hswap.same_unit r hr
    have hmem : r ∈ t'.chunks := by
      rw [hswap.chunks]
      exact List.mem_append_right _ hr
    apply h'.flags r hmem (hrtype.trans htype)
    rw [hrunit, watched_congr hreview hkb]
    exact hw
  · intro hrows
    constructor
    · intro entryId hw
      exact h.entries entryId ((watched_congr hreview hkb .entry entryId).1 hw)
    · intro c hc htype hw
      rw [watched_congr hreview hkb] at hw
      rw [hswap.chunks] at hc
      rcases List.mem_append.1 hc with hc | hc
      · obtain ⟨d, hd, -, -, htype', hunit, -, hflag⟩ := Tables.mem_deleteChunks_keys hc
        rw [hflag]
        exact h.flags d hd (htype' ▸ htype) (hunit ▸ hw)
      · obtain ⟨hrtype, hrunit⟩ := hswap.same_unit c hc
        exact hrows (hrtype.symm.trans htype) (hrunit ▸ hw) c hc

theorem QueueComplete.delete {unitType : UnitType} {unitId kbId : Nat} {p : Chunk → Bool}
    (h : QueueComplete org t) (hswap : Tables.Swap unitType unitId kbId p [] t t')
    (hreview : t'.unitReview = t.unitReview) (hkb : t'.unitKb = t.unitKb) : QueueComplete org t' :=
  (queueComplete_swap_iff h hswap hreview hkb).2 (by simp)

/-- A decision, or a submission, that writes status and flags of one document. -/
theorem queueComplete_marked {status : ReviewStatus} {excluded : Bool}
    (hexcluded : status = .pending → excluded = true) (hentries : ∀ id, ¬ Watched org t .entry id)
    (hothers : ∀ c ∈ t.chunks, c.inUnit .document docId = false → c.unitType = .document →
      Watched org t .document c.unitId → c.reviewExcluded = true) :
    QueueComplete org ((t.setReviewStatus docId status).setChunksExcluded docId excluded) := by
  let t' := (t.setReviewStatus docId status).setChunksExcluded docId excluded
  have hkb : t'.unitKb = t.unitKb := Tables.unitKb_of_documents (t := t) rfl rfl fun _ => ⟨rfl, rfl⟩
  have hreview : ∀ type id, t'.unitReview type id =
      if type = .document ∧ id = docId then (t.unitReview type id).map fun _ => some status
      else t.unitReview type id :=
    Tables.unitReview_setReviewStatus docId status
  constructor
  · intro entryId hw
    have hw' : Watched org t' .entry entryId := hw
    simp only [Watched, hreview, hkb, reduceCtorEq, false_and, if_false] at hw'
    exact hentries entryId hw'
  · intro c' hc' htype hw
    have hw' : Watched org t' .document c'.unitId := hw
    simp only [Watched, hreview, hkb, true_and] at hw'
    obtain ⟨c, hc, rfl⟩ := mem_updateWhere.1 hc'
    cases hin : c.inUnit .document docId with
    | true =>
        have hunit : c.unitType = .document ∧ c.unitId = docId := Chunk.inUnit_iff.1 hin
        simp only [hin, if_true, hunit.2] at hw' ⊢
        obtain ⟨_, -, hstatus⟩ := Option.map_eq_some_iff.1 hw'.1
        exact hexcluded (Option.some.inj hstatus)
    | false =>
        simp only [hin, Bool.false_eq_true, if_false] at htype hw' ⊢
        have hne : ¬ c.unitId = docId := by
          intro hid
          simp [Chunk.inUnit, htype, hid] at hin
        rw [if_neg hne] at hw'
        exact hothers c hc hin htype hw'

theorem QueueComplete.marked {status : ReviewStatus} {excluded : Bool} (h : QueueComplete org t)
    (hexcluded : status = .pending → excluded = true) :
    QueueComplete org ((t.setReviewStatus docId status).setChunksExcluded docId excluded) :=
  queueComplete_marked hexcluded h.entries fun c hc _ => h.flags c hc

theorem QueueComplete.submit (h : QueueComplete org t) {doc : Document}
    (hdoc : t.getDocument docId = some doc) : QueueComplete org (t.submitDocForReview docId) := by
  by_cases hset : doc.reviewStatus = none
  · unfold Tables.submitDocForReview
    simp only [hdoc, hset, Option.isSome_none, Bool.false_eq_true, if_false]
    exact h.marked fun _ => rfl
  · rw [Tables.submitDocForReview_of_set hdoc hset]
    exact h

/-! ## Ingestion -/

/-- A new unit has no chunks of a document. -/
theorem QueueComplete.addUnit (hvalid : t.Valid) (h : QueueComplete org t) (newType : UnitType)
    (hchunks : ∀ c ∈ t'.chunks, c.unitType = .document → c ∈ t.chunks)
    (hsame : ∀ type id, ¬ (type = newType ∧ id = t.next) → Watched org t' type id →
      Watched org t type id)
    (hnew : ¬ Watched org t' newType t.next) : QueueComplete org t' := by
  constructor
  · intro entryId hw
    by_cases hid : UnitType.entry = newType ∧ entryId = t.next
    · obtain ⟨rfl, rfl⟩ := hid
      exact hnew hw
    · exact h.entries entryId (hsame .entry entryId hid hw)
  · intro c hc htype hw
    have hmem := hchunks c hc htype
    have hlt := (hvalid.units _ _ _ (hvalid.chunks c hmem).2).1
    exact h.flags c hmem htype (hsame .document c.unitId (by omega) hw)

theorem Unarchived.of_documents (h : Unarchived t) (hdocs : ∀ d' ∈ t'.documents,
    d'.isArchived = false ∨ ∃ d ∈ t.documents, d'.isArchived = d.isArchived) : Unarchived t' := by
  intro d' hd'
  rcases hdocs d' hd' with hnew | ⟨d, hd, hsame⟩
  · exact hnew
  · exact hsame.trans (h d hd)

theorem Unarchived.of_same (h : Unarchived t) (hdocs : t'.documents = t.documents) : Unarchived t' := by
  intro d hd
  rw [hdocs] at hd
  exact h d hd

theorem Unarchived.update (h : Unarchived t) (docId : Nat) {f : Document → Document}
    (hdocs : t'.documents = updateWhere (fun d => d.id = docId) f t.documents)
    (hf : ∀ d, (f d).isArchived = d.isArchived) : Unarchived t' := by
  apply h.of_documents
  intro d' hd'
  rw [hdocs] at hd'
  obtain ⟨d, hd, rfl⟩ := mem_updateWhere.1 hd'
  apply Or.inr
  refine ⟨d, hd, ?_⟩
  split
  · exact hf d
  · rfl

theorem Unarchived.submit (h : Unarchived t) (docId : Nat) : Unarchived (t.submitDocForReview docId) := by
  unfold Tables.submitDocForReview
  split
  · exact h
  · split
    · exact h
    · exact h.update docId rfl fun _ => rfl

end State

/-! ## Two pending units -/

end OpsKnowledge.Review
