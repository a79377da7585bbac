import OpsKnowledge.Knowledge.ReviewIsolation
import OpsKnowledge.Review.Endpoints

/-!
# Four eyes

Which users can turn a document approved or rejected. The endpoints of a unit ask for a
candidate reviewer who is not its author. Those of a knowledge base ask for another author
too, but for the right to edit in place of the other check.
-/

namespace OpsKnowledge.Review

open OpsKnowledge.Lib
open Knowledge (Tables Document UnitType ReviewStatus)

/-- A candidate reviewer of the base of the document who is not its author. -/
def MayDecide (org : Organisation) (t : Tables) (userId docId : Nat) : Prop :=
  ∀ doc, t.getDocument docId = some doc →
    userId ∈ org.getCandidateReviewers doc.knowledgeBaseId [org.createdBy.document docId]

/-- The document has the status now and had not before. -/
def Becomes (t t' : Tables) (docId : Nat) (status : ReviewStatus) : Prop :=
  t.unitReview .document docId ≠ some (some status) ∧ t'.unitReview .document docId = some (some status)

/-- Whatever a request makes approved or rejected, its user may decide. -/
def KeepsFourEyes (org : Organisation) (st : ReviewState) (request : Nat × ReviewCall) : Prop :=
  ∀ st', reviewStep org st request = some st' → ∀ docId, ∀ status ∈ [ReviewStatus.approved, .rejected],
    Becomes st.tables st'.tables docId status → MayDecide org st.tables request.1 docId

/-- The user of a decision in a base that changes the status is a candidate reviewer of the base. -/
def ByReviewer (org : Organisation) (st : ReviewState) (userId kbId docId : Nat) (status : ReviewStatus) :
    Prop :=
  st.tables.unitReview .document docId ≠ some (some status) → userId ∈ org.getCandidateReviewers kbId []

def DecidedByReviewer (org : Organisation) (st : ReviewState) (request : Nat × ReviewCall) : Prop :=
  match request.2 with
  | .approveDocument kbId docId _ => ByReviewer org st request.1 kbId docId .approved
  | .rejectDocument kbId docId _ => ByReviewer org st request.1 kbId docId .rejected
  | _ => True

section Steps

variable {org : Organisation} {user : User} {st st' : ReviewState}

theorem getCandidateReviewers_exclude {kbId userId authorId : Nat} (h : authorId ≠ userId) :
    userId ∈ org.getCandidateReviewers kbId [authorId] ↔ userId ∈ org.getCandidateReviewers kbId [] := by
  simp [Organisation.mem_getCandidateReviewers, h.symm]

/-- A decision writes the status of its document and of no other. -/
theorem unitReview_decideDocument {docId id : Nat} {doc : Document} {newStatus : ReviewStatus}
    {comment : Option String} (hdoc : st.tables.getDocument docId = some doc)
    (h : decideDocument user st doc newStatus comment = .ok st') :
    st'.tables.unitReview .document id =
      if id = docId then some (some newStatus) else st.tables.unitReview .document id := by
  obtain ⟨tables, htables, rfl⟩ := decideDocument_eq_ok.1 h
  obtain ⟨-, hid⟩ := Tables.getDocument_eq_some hdoc
  rw [hid] at htables
  obtain ⟨d, hd, -, rfl⟩ := Tables.decideReview_eq_some.1 htables
  have hset : ∀ t : Tables, t.unitReview = (st.tables.setReviewStatus docId newStatus).unitReview →
      t.unitReview .document id =
        if id = docId then some (some newStatus) else st.tables.unitReview .document id := by
    intro t ht
    rw [ht, Tables.unitReview_setReviewStatus]
    by_cases hdocId : id = docId
    · simp [hdocId, Tables.unitReview_document hd]
    · simp [hdocId]
  split
  · exact hset _ rfl
  · exact hset _ rfl

theorem keepsFourEyes_decideDocument {docId : Nat} {doc : Document} {newStatus : ReviewStatus}
    {comment : Option String} (hdoc : st.tables.getDocument docId = some doc)
    (h : decideDocument user st doc newStatus comment = .ok st')
    (hdecided : newStatus ∈ [ReviewStatus.approved, .rejected]) :
    (∀ id, ∀ status ∈ [ReviewStatus.approved, .rejected], Becomes st.tables st'.tables id status →
      MayDecide org st.tables user.id id) ↔
      (st.tables.unitReview .document docId ≠ some (some newStatus) →
        user.id ∈ org.getCandidateReviewers doc.knowledgeBaseId [org.createdBy.document docId]) := by
  constructor
  · intro hall hchanged
    have hbecomes : Becomes st.tables st'.tables docId newStatus :=
      ⟨hchanged, by rw [unitReview_decideDocument hdoc h, if_pos rfl]⟩
    exact hall docId newStatus hdecided hbecomes doc hdoc
  · intro hreviewer id status _ hbecomes d hd
    obtain ⟨hbefore, hafter⟩ := hbecomes
    rw [unitReview_decideDocument hdoc h] at hafter
    by_cases hid : id = docId
    · subst hid
      rw [if_pos rfl] at hafter
      obtain rfl : newStatus = status := by simpa using hafter
      obtain rfl := Option.some.inj (hdoc.symm.trans hd)
      exact hreviewer hbefore
    · rw [if_neg hid] at hafter
      exact absurd hafter hbefore

theorem reviewStep_eq_some {request : Nat × ReviewCall} : reviewStep org st request = some st' ↔
    ∃ user, org.getUser request.1 = some user ∧ reviewCall org user st request.2 = .ok st' := by
  simp only [reviewStep, Option.bind_eq_bind, Option.bind_eq_some_iff, toOption_eq_some]

/-- A call that leaves the statuses alone, or sends a document back to the queue. -/
theorem keepsFourEyes_of_undecided {userId : Nat}
    (h : ∀ id, ∀ status ∈ [ReviewStatus.approved, .rejected],
      st'.tables.unitReview .document id = some (some status) →
        st.tables.unitReview .document id = some (some status)) :
    ∀ id, ∀ status ∈ [ReviewStatus.approved, .rejected], Becomes st.tables st'.tables id status →
      MayDecide org st.tables userId id := by
  intro id status hstatus hbecomes
  exact absurd (h id status hstatus hbecomes.2) hbecomes.1

theorem unitReview_requestReReview {t t' : Tables} {docId id : Nat}
    (h : t.requestReReview docId = some t') {status : ReviewStatus}
    (hstatus : status ∈ [ReviewStatus.approved, .rejected])
    (hafter : t'.unitReview .document id = some (some status)) :
    t.unitReview .document id = some (some status) := by
  obtain ⟨doc, hdoc, rfl⟩ := Tables.requestReReview_eq_some.1 h
  split at hafter
  · have hset : (t.setReviewStatus docId .pending).unitReview .document id = some (some status) :=
      hafter
    rw [Tables.unitReview_setReviewStatus] at hset
    by_cases hid : id = docId
    · rw [if_pos ⟨rfl, hid⟩, hid, Tables.unitReview_document hdoc] at hset
      obtain rfl : ReviewStatus.pending = status := by simpa using hset
      simp at hstatus
    · rwa [if_neg (by simp [hid])] at hset
  · exact hafter

theorem keepsFourEyes_decide {userId kbId docId : Nat} {newStatus : ReviewStatus}
    {comment : Option String} (huser : org.getUser userId = some user)
    (h : decide org user st kbId docId newStatus comment = .ok st')
    (hdecided : newStatus ∈ [ReviewStatus.approved, .rejected]) :
    (∀ id, ∀ status ∈ [ReviewStatus.approved, .rejected], Becomes st.tables st'.tables id status →
      MayDecide org st.tables userId id) ↔ ByReviewer org st userId kbId docId newStatus := by
  obtain ⟨-, rfl⟩ := Organisation.getUser_eq_some huser
  obtain ⟨-, -, doc, hdoc, rfl, hown, h⟩ := decide_eq_ok.1 h
  rw [keepsFourEyes_decideDocument hdoc h hdecided, getCandidateReviewers_exclude hown]
  rfl

theorem keepsFourEyes_decideUnit {userId unitId : Nat} {unitType : String} {newStatus : ReviewStatus}
    {comment : Option String} (huser : org.getUser userId = some user)
    (h : decideUnit org user st unitType unitId newStatus comment = .ok st')
    (hdecided : newStatus ∈ [ReviewStatus.approved, .rejected]) :
    ∀ id, ∀ status ∈ [ReviewStatus.approved, .rejected], Becomes st.tables st'.tables id status →
      MayDecide org st.tables userId id := by
  obtain ⟨-, rfl⟩ := Organisation.getUser_eq_some huser
  obtain ⟨doc, hunit, h⟩ := decideUnit_eq_ok.1 h
  obtain ⟨-, hdoc, -, hreviewer, hown⟩ := unitForReview_eq_ok.1 hunit
  apply (keepsFourEyes_decideDocument hdoc h hdecided).2
  intro _
  rw [getCandidateReviewers_exclude hown]
  exact (Organisation.isUserReviewerForKb_iff huser).1 hreviewer

theorem keepsFourEyes_iff {request : Nat × ReviewCall} (hs' : reviewStep org st request = some st') :
    KeepsFourEyes org st request ↔ DecidedByReviewer org st request := by
  have hone : KeepsFourEyes org st request ↔ ∀ docId, ∀ status ∈ [ReviewStatus.approved, .rejected],
      Becomes st.tables st'.tables docId status → MayDecide org st.tables request.1 docId := by
    constructor
    · intro h
      exact h st' hs'
    · intro h st'' hs''
      obtain rfl := Option.some.inj (hs'.symm.trans hs'')
      exact h
  rw [hone]
  obtain ⟨userId, call⟩ := request
  obtain ⟨user, huser, hcall⟩ := reviewStep_eq_some.1 hs'
  cases call with
  | approveDocument kbId docId comment => exact keepsFourEyes_decide huser hcall (by simp)
  | rejectDocument kbId docId comment => exact keepsFourEyes_decide huser hcall (by simp)
  | approveUnit unitType unitId comment =>
      exact iff_of_true (keepsFourEyes_decideUnit huser hcall (by simp)) trivial
  | rejectUnit unitType unitId comment =>
      have hdecide := (raiseIf_bind_eq_ok.1 hcall).2
      exact iff_of_true (keepsFourEyes_decideUnit huser hdecide (by simp)) trivial
  | commentUnit unitType unitId comment =>
      obtain ⟨-, hunit⟩ := raiseIf_bind_eq_ok.1 hcall
      obtain ⟨doc, -, hst'⟩ := bind_eq_ok.1 hunit
      cases hst'
      exact iff_of_true (keepsFourEyes_of_undecided fun _ _ _ h => h) trivial
  | revertUnitReview unitType unitId =>
      simp only [reviewCall, revertUnitReview, checkUnitType, raiseIf_bind_eq_ok, orRaise_bind_eq_ok,
        pure_eq_ok] at hcall
      obtain ⟨-, doc, -, -, tables, htables, rfl⟩ := hcall
      refine iff_of_true (keepsFourEyes_of_undecided ?_) trivial
      intro id status hstatus hafter
      exact unitReview_requestReReview htables hstatus hafter

/-- In every run of review calls a document becomes approved or rejected only by a candidate
reviewer who is not its author, exactly when the decisions in a base that change a status are
taken by candidate reviewers of the base. -/
theorem fourEyes_iff (org : Organisation) (st : ReviewState) (requests : List (Nat × ReviewCall)) :
    EveryStep (reviewStep org) (KeepsFourEyes org) st requests ↔
      EveryStep (reviewStep org) (DecidedByReviewer org) st requests :=
  everyStep_congr (fun _ _ _ hs' => keepsFourEyes_iff hs') st requests

end Steps

/-! ## An editor who is no reviewer -/

/-- User 1 owns base 0, which department 5 may edit; user 2 is an editor there. -/
def sampleOrg : Organisation where
  users := [⟨1, .user⟩, ⟨2, .user⟩, ⟨3, .systemAdmin⟩]
  departments := [⟨5, none⟩]
  memberships := [{ userId := 2, departmentId := 5, role := .editor }]
  departmentResources := [{ departmentId := 5, resourceType := "knowledge_base", resourceId := 0
                            accessLevel := ⟨"edit", by simp⟩ }]
  createdBy := { kb := fun _ => 1, document := fun _ => 1, entry := fun _ => 1 }
  ids_nodup := by simp

/-- A document under review with one chunk. -/
def pendingDocument : Tables :=
  { kbs := [{ id := 0, reviewRequired := true }]
    documents := [{ id := 1, knowledgeBaseId := 0, reviewStatus := some .pending }]
    chunks := [{ id := 2, unitType := .document, unitId := 1, knowledgeBaseId := 0, content := "text"
                 reviewExcluded := true }]
    next := 3 }

theorem sampleOrg_editor : requireKbAccess sampleOrg ⟨2, .user⟩ 0 "edit" = .ok () := by
  rw [requireKbAccess_eq_ok, Departments.Tables.requireResourceAccess_iff]
  apply Or.inr
  refine ⟨_, ⟨⟨List.mem_singleton_self _, 5, by decide, .refl⟩, rfl, rfl⟩, by decide⟩

theorem pendingDocument_approve : ∃ st', reviewStep sampleOrg { tables := pendingDocument }
    (2, .approveDocument 0 1 none) = some st' := by
  refine ⟨_, reviewStep_eq_some.2 ⟨⟨2, .user⟩, rfl, decide_eq_ok.2 ⟨rfl, sampleOrg_editor, _, rfl, rfl,
    by decide, rfl⟩⟩⟩

/-- The editor approves the document. -/
theorem editor_approves : ¬ ∀ (org : Organisation) (st : ReviewState) (requests : List (Nat × ReviewCall)),
    EveryStep (reviewStep org) (KeepsFourEyes org) st requests := by
  intro hall
  obtain ⟨st', hs'⟩ := pendingDocument_approve
  have hfour := (hall sampleOrg { tables := pendingDocument } [(2, .approveDocument 0 1 none)] st' hs').1
  have hreviewer := (keepsFourEyes_iff hs').1 hfour
  have hmem : 2 ∈ sampleOrg.getCandidateReviewers 0 [] := hreviewer (by decide)
  exact absurd hmem (by decide)

end OpsKnowledge.Review
