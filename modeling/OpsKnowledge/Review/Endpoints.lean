import OpsKnowledge.Lib.Guard
import OpsKnowledge.Knowledge.StoreInvariant
import OpsKnowledge.Review.Reviewers

/-!
# The review endpoints

`app/knowledge/review/router.py`: the decisions on the documents of one knowledge base,
the queue of the review centre, and the decisions on a unit. A request that fails is
rolled back.
-/

namespace OpsKnowledge.Review

open OpsKnowledge.Lib
open Knowledge (Tables Document UnitType ReviewStatus)

/-- `HTTPException` -/
structure HttpError where
  status : Nat
  detail : String
  deriving DecidableEq, Repr

/-- `reviewer_id` and `review_comment` of a document. -/
structure ReviewColumns where
  reviewerId : Option Nat := none
  reviewComment : Option String := none
  deriving DecidableEq

structure ReviewState where
  tables : Tables
  columns : Nat → ReviewColumns := fun _ => {}

def allowedUnitTypes : List String := ["document", "entry"]

def isBlank (comment : Option String) : Bool := strip (comment.getD "") = ""

section Calls

variable (org : Organisation) (user : User) (st : ReviewState)

/-! ## Decisions -/

/-- `approve` and `reject` of the service on a document that was read. -/
def decideDocument (doc : Document) (newStatus : ReviewStatus) (comment : Option String) :
    Except HttpError ReviewState :=
  match st.tables.decideReview doc.id newStatus with
  | none => .error ⟨400, "Document is not subject to review"⟩
  | some tables =>
      .ok { tables := tables
            columns := Function.update st.columns doc.id
              { reviewerId := some user.id, reviewComment := comment } }

/-- `check_resource_access` on a knowledge base. -/
def requireKbAccess (kbId : Nat) (requiredLevel : String) : Except HttpError Unit :=
  match Departments.requireResourceAccess org.access user.id user.role "knowledge_base" kbId
      (some (org.createdBy.kb kbId)) requiredLevel with
  | .ok () => .ok ()
  | .error (.forbidden detail) => .error ⟨403, detail⟩
  | .error _ => .error ⟨500, "Internal Server Error"⟩

/-- `_decide`, for the endpoints of one knowledge base. -/
def decide (kbId docId : Nat) (newStatus : ReviewStatus) (comment : Option String) :
    Except HttpError ReviewState := do
  raiseIf (st.tables.getKb kbId).isNone ⟨404, "Knowledge base not found"⟩
  requireKbAccess org user kbId "edit"
  let doc ← orRaise (st.tables.getDocument docId) ⟨404, "Document not found"⟩
  raiseIf (doc.knowledgeBaseId ≠ kbId) ⟨404, "Document not found"⟩
  raiseIf (org.createdBy.document docId = user.id)
    ⟨403, "不能审批自己上传的文档，请请其他 reviewer 处理"⟩
  decideDocument user st doc newStatus comment

/-- The source prints a set, whose order is not determined. -/
def checkUnitType (unitType : String) : Except HttpError Unit :=
  raiseIf (unitType ∉ allowedUnitTypes) ⟨400, "unit_type must be one of \x7b'document', 'entry'\x7d"⟩

/-- The document with the id of the unit, in a base that the user reviews, by another author. -/
def unitForReview (unitType : String) (unitId : Nat) (ownUnit : String) : Except HttpError Document := do
  checkUnitType unitType
  let doc ← orRaise (st.tables.getDocument unitId) ⟨404, "Unit not found"⟩
  raiseIf (st.tables.getKb doc.knowledgeBaseId).isNone ⟨404, "Knowledge base not found"⟩
  raiseIf (org.isUserReviewerForKb user doc.knowledgeBaseId = false)
    ⟨403, "No review permission for this KB"⟩
  raiseIf (org.createdBy.document unitId = user.id) ⟨403, ownUnit⟩
  return doc

/-- `_decide_unit` -/
def decideUnit (unitType : String) (unitId : Nat) (newStatus : ReviewStatus)
    (comment : Option String) : Except HttpError ReviewState := do
  let doc ← unitForReview org user st unitType unitId "不能审批自己上传的文档"
  decideDocument user st doc newStatus comment

def approveUnit (unitType : String) (unitId : Nat) (comment : Option String) :
    Except HttpError ReviewState :=
  decideUnit org user st unitType unitId .approved comment

def rejectUnit (unitType : String) (unitId : Nat) (comment : Option String) :
    Except HttpError ReviewState := do
  raiseIf (isBlank comment) ⟨400, "驳回必须填写理由（comment）"⟩
  decideUnit org user st unitType unitId .rejected comment

def commentUnit (unitType : String) (unitId : Nat) (comment : Option String) :
    Except HttpError ReviewState := do
  raiseIf (isBlank comment) ⟨400, "评论内容不能为空"⟩
  let doc ← unitForReview org user st unitType unitId "不能评论自己的提交"
  return { st with
    columns := Function.update st.columns doc.id
      { st.columns doc.id with reviewComment := comment } }

def revertUnitReview (unitType : String) (unitId : Nat) : Except HttpError ReviewState := do
  checkUnitType unitType
  let doc ← orRaise (st.tables.getDocument unitId) ⟨404, "Unit not found"⟩
  raiseIf (org.createdBy.document unitId ≠ user.id ∧ user.role ≠ .systemAdmin)
    ⟨403, "仅作者本人或 system_admin 可撤销审核"⟩
  let tables ← orRaise (st.tables.requestReReview unitId) ⟨404, "Document not found"⟩
  return { tables := tables
           columns := if st.tables.reviewRequired doc.knowledgeBaseId then
             Function.update st.columns unitId {} else st.columns }

/-! ## The queue -/

structure ReviewItem where
  unitType : String
  unitId : Nat
  kbId : Nat
  chunkCount : Int
  reviewStatus : Option ReviewStatus
  submittedBy : Nat

/-- The documents that `_query_pending_documents` selects. -/
def pendingDocuments (accessibleKbIds : Option (Finset Nat)) : List Document :=
  st.tables.documents.filter fun d =>
    d.reviewStatus = some .pending ∧ d.isArchived = false ∧ org.createdBy.document d.id ≠ user.id ∧
      (st.tables.getKb d.knowledgeBaseId).isSome ∧ accessibleKbIds.all (d.knowledgeBaseId ∈ ·)

def reviewItem (d : Document) : ReviewItem :=
  { unitType := "document", unitId := d.id, kbId := d.knowledgeBaseId, chunkCount := d.chunkCount
    reviewStatus := d.reviewStatus, submittedBy := org.createdBy.document d.id }

/-- The page of the queue and its total. `queueKey` stands for the times that order it. -/
def queryPendingDocuments {κ : Type} [LinearOrder κ] (queueKey : Document → κ)
    (accessibleKbIds : Option (Finset Nat)) (offset limit : Nat) : List ReviewItem × Nat :=
  let rows := orderBy queueKey (pendingDocuments org user st accessibleKbIds)
  (((rows.drop offset).take limit).map (reviewItem org), rows.length)

/-- The page and page size have passed the bounds of `PaginationParams`. -/
def reviewPendingList {κ : Type} [LinearOrder κ] (queueKey : Document → κ) (page pageSize : Nat)
    (kbId : Option Nat) (unitType : Option String) : Except HttpError (List ReviewItem × Nat) := do
  (unitType.filter (· ≠ "")).forM checkUnitType
  let accessible := org.kbIdsUserCanReview st.tables.kbs user
  if accessible = some ∅ then
    return ([], 0)
  match kbId with
  | none => return queryPendingDocuments org user st queueKey accessible ((page - 1) * pageSize) pageSize
  | some kbId =>
      if accessible.any (kbId ∉ ·) then
        throw ⟨403, "No review access to this KB"⟩
      return queryPendingDocuments org user st queueKey (some {kbId}) ((page - 1) * pageSize) pageSize

end Calls

/-! ## Runs of calls -/

inductive ReviewCall where
  | approveDocument (kbId docId : Nat) (comment : Option String)
  | rejectDocument (kbId docId : Nat) (comment : Option String)
  | approveUnit (unitType : String) (unitId : Nat) (comment : Option String)
  | rejectUnit (unitType : String) (unitId : Nat) (comment : Option String)
  | commentUnit (unitType : String) (unitId : Nat) (comment : Option String)
  | revertUnitReview (unitType : String) (unitId : Nat)

def reviewCall (org : Organisation) (user : User) (st : ReviewState) :
    ReviewCall → Except HttpError ReviewState
  | .approveDocument kbId docId comment => decide org user st kbId docId .approved comment
  | .rejectDocument kbId docId comment => decide org user st kbId docId .rejected comment
  | .approveUnit unitType unitId comment => approveUnit org user st unitType unitId comment
  | .rejectUnit unitType unitId comment => rejectUnit org user st unitType unitId comment
  | .commentUnit unitType unitId comment => commentUnit org user st unitType unitId comment
  | .revertUnitReview unitType unitId => revertUnitReview org user st unitType unitId

/-- A call by a user with an account, where it succeeds. -/
def reviewStep (org : Organisation) (st : ReviewState) (request : Nat × ReviewCall) :
    Option ReviewState := do
  let user ← org.getUser request.1
  (reviewCall org user st request.2).toOption

/-! ## What the calls do -/

variable {org : Organisation} {user : User} {st st' : ReviewState}

theorem decideDocument_eq_ok {doc : Document} {newStatus : ReviewStatus} {comment : Option String} :
    decideDocument user st doc newStatus comment = .ok st' ↔
      ∃ tables, st.tables.decideReview doc.id newStatus = some tables ∧
        st' = { tables := tables
                columns := Function.update st.columns doc.id
                  { reviewerId := some user.id, reviewComment := comment } } := by
  unfold decideDocument
  cases h : st.tables.decideReview doc.id newStatus with
  | none => simp
  | some tables => simp [eq_comm]

theorem requireKbAccess_eq_ok {kbId : Nat} {requiredLevel : String} :
    requireKbAccess org user kbId requiredLevel = .ok () ↔
      Departments.requireResourceAccess org.access user.id user.role "knowledge_base" kbId
        (some (org.createdBy.kb kbId)) requiredLevel = .ok () := by
  unfold requireKbAccess
  cases h : Departments.requireResourceAccess org.access user.id user.role "knowledge_base" kbId
      (some (org.createdBy.kb kbId)) requiredLevel with
  | ok u => simp
  | error e => cases e <;> simp

theorem decide_eq_ok {kbId docId : Nat} {newStatus : ReviewStatus} {comment : Option String} :
    decide org user st kbId docId newStatus comment = .ok st' ↔
      (st.tables.getKb kbId).isSome ∧ requireKbAccess org user kbId "edit" = .ok () ∧
        ∃ doc, st.tables.getDocument docId = some doc ∧ doc.knowledgeBaseId = kbId ∧
          org.createdBy.document docId ≠ user.id ∧
          decideDocument user st doc newStatus comment = .ok st' := by
  simp [decide, check_bind_eq_ok, Option.isSome_iff_ne_none]

theorem unitForReview_eq_ok {unitType ownUnit : String} {unitId : Nat} {doc : Document} :
    unitForReview org user st unitType unitId ownUnit = .ok doc ↔
      unitType ∈ allowedUnitTypes ∧ st.tables.getDocument unitId = some doc ∧
        (st.tables.getKb doc.knowledgeBaseId).isSome ∧
        org.isUserReviewerForKb user doc.knowledgeBaseId = true ∧
        org.createdBy.document unitId ≠ user.id := by
  simp only [unitForReview, checkUnitType, raiseIf_bind_eq_ok, orRaise_bind_eq_ok, pure_eq_ok,
    not_not, Bool.not_eq_false, Option.isNone_iff_eq_none, Option.isSome_iff_ne_none, ne_eq]
  constructor
  · intro h
    obtain ⟨htype, d, hdoc, hkb, hreviewer, hown, rfl⟩ := h
    exact ⟨htype, hdoc, hkb, hreviewer, hown⟩
  · intro h
    obtain ⟨htype, hdoc, hkb, hreviewer, hown⟩ := h
    exact ⟨htype, doc, hdoc, hkb, hreviewer, hown, rfl⟩

theorem decideUnit_eq_ok {unitType : String} {unitId : Nat} {newStatus : ReviewStatus}
    {comment : Option String} :
    decideUnit org user st unitType unitId newStatus comment = .ok st' ↔
      ∃ doc, unitForReview org user st unitType unitId "不能审批自己上传的文档" = .ok doc ∧
        decideDocument user st doc newStatus comment = .ok st' :=
  bind_eq_ok

end OpsKnowledge.Review
