import OpsKnowledge.Department.Access
import OpsKnowledge.Knowledge.Store

/-!
# Who may review

`app/knowledge/review/reviewers.py`: the candidate reviewers of a knowledge base, the
permission check of one user, and the bases a user can review. `created_by` is set when a
row is inserted and never written again, so it is a function of the id.
-/

namespace OpsKnowledge.Review

open OpsKnowledge.Lib
open Knowledge (Tables Document KnowledgeEntry KnowledgeBase)
open Departments (UserRole UserDepartment DepartmentResource)

inductive DepartmentRole where
  | deptAdmin
  | editor
  | viewer
  deriving DecidableEq, Repr

structure User where
  id : Nat
  role : UserRole

structure Membership extends UserDepartment where
  role : DepartmentRole

/-- The `created_by` columns. -/
structure Authors where
  kb : Nat → Nat
  document : Nat → Nat
  entry : Nat → Nat

/-- The users, their departments and what is shared with these. -/
structure Organisation where
  users : List User
  departments : List Departments.Department := []
  memberships : List Membership := []
  departmentResources : List DepartmentResource := []
  createdBy : Authors
  ids_nodup : (users.map User.id).Nodup

namespace Organisation

variable (org : Organisation)

/-- The tables that the access check of a resource reads. -/
def access : Departments.Tables :=
  { departments := org.departments
    userDepartments := org.memberships.map Membership.toUserDepartment
    departmentResources := org.departmentResources }

def getUser (userId : Nat) : Option User := org.users.find? fun u => u.id = userId

def departmentsOf (userId : Nat) : List Nat :=
  (org.memberships.filter fun m => m.userId = userId).map fun m => m.departmentId

/-- The departments that a base is shared with, and those of its owner. -/
def sharedDeptIds (kbId : Nat) : List Nat :=
  ((org.departmentResources.filter fun r => r.resourceType = "knowledge_base" ∧ r.resourceId = kbId).map
    DepartmentResource.departmentId) ++ org.departmentsOf (org.createdBy.kb kbId)

/-- The list that the source makes of its set is in no determined order. -/
def getCandidateReviewers (kbId : Nat) (exclude : List Nat) : Finset Nat :=
  let adminRows := (org.memberships.filter fun m =>
    m.departmentId ∈ org.sharedDeptIds kbId ∧ m.role = .deptAdmin).map fun m => m.userId
  let systemAdminRows := (org.users.filter fun u => u.role = .systemAdmin).map User.id
  ((adminRows ++ systemAdminRows).filter (· ∉ exclude)).toFinset

def isUserReviewerForKb (user : User) (kbId : Nat) : Bool :=
  user.role = .systemAdmin ∨ user.id ∈ org.getCandidateReviewers kbId []

/-- `none` for a system administrator, who reviews every base. -/
def kbIdsUserCanReview (kbs : List KnowledgeBase) (user : User) : Option (Finset Nat) :=
  if user.role = .systemAdmin then none
  else
    let deptIds := (org.memberships.filter fun m => m.userId = user.id ∧ m.role = .deptAdmin).map
      fun m => m.departmentId
    let kbIdsShared := (org.departmentResources.filter fun r =>
      r.resourceType = "knowledge_base" ∧ r.departmentId ∈ deptIds).map DepartmentResource.resourceId
    let sameDeptUsers := (org.memberships.filter fun m => m.departmentId ∈ deptIds).map fun m => m.userId
    let kbIdsOwned := (kbs.filter fun kb => org.createdBy.kb kb.id ∈ sameDeptUsers).map KnowledgeBase.id
    some (kbIdsShared ++ kbIdsOwned).toFinset

variable {org} {kbId userId : Nat} {user : User}

theorem getUser_eq_some (h : org.getUser userId = some user) : user ∈ org.users ∧ user.id = userId :=
  ⟨List.mem_of_find?_eq_some h, by simpa using List.find?_some h⟩

theorem mem_departmentsOf {d : Nat} :
    d ∈ org.departmentsOf userId ↔ ∃ m ∈ org.memberships, m.userId = userId ∧ m.departmentId = d := by
  simp [departmentsOf, and_assoc]

theorem mem_sharedDeptIds {d : Nat} : d ∈ org.sharedDeptIds kbId ↔
    (∃ r ∈ org.departmentResources, r.resourceType = "knowledge_base" ∧ r.resourceId = kbId ∧
      r.departmentId = d) ∨ d ∈ org.departmentsOf (org.createdBy.kb kbId) := by
  simp [sharedDeptIds, and_assoc]

theorem mem_getCandidateReviewers {exclude : List Nat} :
    userId ∈ org.getCandidateReviewers kbId exclude ↔ userId ∉ exclude ∧
      ((∃ m ∈ org.memberships, m.departmentId ∈ org.sharedDeptIds kbId ∧ m.role = .deptAdmin ∧
        m.userId = userId) ∨ ∃ u ∈ org.users, u.role = .systemAdmin ∧ u.id = userId) := by
  simp only [getCandidateReviewers, List.mem_toFinset, List.mem_filter, List.mem_append, List.mem_map,
    decide_eq_true_eq, and_assoc]
  exact and_comm

/-- The check of an endpoint admits the candidates and no others. -/
theorem isUserReviewerForKb_iff (h : org.getUser userId = some user) :
    org.isUserReviewerForKb user kbId = true ↔ userId ∈ org.getCandidateReviewers kbId [] := by
  obtain ⟨hmem, rfl⟩ := getUser_eq_some h
  simp only [isUserReviewerForKb, decide_eq_true_eq, or_iff_right_iff_imp]
  intro hadmin
  exact mem_getCandidateReviewers.2 ⟨List.not_mem_nil, Or.inr ⟨user, hmem, hadmin, rfl⟩⟩

/-- The bases of a department administrator, by the departments that stand behind each. -/
theorem mem_of_kbIdsUserCanReview {kbs : List KnowledgeBase} {kb : KnowledgeBase} (hkb : kb ∈ kbs)
    {ids : Finset Nat} (hids : org.kbIdsUserCanReview kbs user = some ids) :
    kb.id ∈ ids ↔ ∃ m ∈ org.memberships, m.departmentId ∈ org.sharedDeptIds kb.id ∧
      m.role = .deptAdmin ∧ m.userId = user.id := by
  unfold kbIdsUserCanReview at hids
  split at hids
  · cases hids
  · cases hids
    simp only [List.mem_toFinset, List.mem_append, List.mem_map, List.mem_filter,
      decide_eq_true_eq]
    constructor
    · rintro (⟨r, ⟨hr, htype, m, ⟨hm, huser, hadmin⟩, hdept⟩, hid⟩ |
        ⟨kb', ⟨_, o, ⟨ho, m, ⟨hm, huser, hadmin⟩, hdept⟩, howns⟩, hid⟩)
      · refine ⟨m, hm, mem_sharedDeptIds.2 (Or.inl ⟨r, hr, htype, hid, hdept.symm⟩), hadmin, huser⟩
      · rw [hid] at howns
        have howner : m.departmentId ∈ org.departmentsOf (org.createdBy.kb kb.id) :=
          mem_departmentsOf.2 ⟨o, ho, howns, hdept.symm⟩
        exact ⟨m, hm, mem_sharedDeptIds.2 (Or.inr howner), hadmin, huser⟩
    · rintro ⟨m, hm, hshared, hadmin, huser⟩
      have hdept : ∃ m' : Membership, (m' ∈ org.memberships ∧ m'.userId = user.id ∧
          m'.role = .deptAdmin) ∧ m'.departmentId = m.departmentId := ⟨m, ⟨hm, huser, hadmin⟩, rfl⟩
      rcases mem_sharedDeptIds.1 hshared with ⟨r, hr, htype, hid, hdeptId⟩ | howner
      · apply Or.inl
        exact ⟨r, ⟨hr, htype, hdeptId ▸ hdept⟩, hid⟩
      · obtain ⟨o, ho, howns, hodept⟩ := mem_departmentsOf.1 howner
        apply Or.inr
        exact ⟨kb, ⟨hkb, o, ⟨ho, hodept ▸ hdept⟩, howns⟩, rfl⟩

/-- Who is no system administrator is a candidate through a department only. -/
theorem mem_getCandidateReviewers_of_not_admin (hmem : user ∈ org.users)
    (hrole : user.role ≠ .systemAdmin) :
    user.id ∈ org.getCandidateReviewers kbId [] ↔ ∃ m ∈ org.memberships,
      m.departmentId ∈ org.sharedDeptIds kbId ∧ m.role = .deptAdmin ∧ m.userId = user.id := by
  rw [mem_getCandidateReviewers]
  constructor
  · rintro ⟨_, hdepartment | ⟨u, hu, hadmin, hid⟩⟩
    · exact hdepartment
    · have hsame : u = user := List.inj_on_of_nodup_map org.ids_nodup hu hmem hid
      exact absurd (hsame ▸ hadmin) hrole
  · intro hdepartment
    exact ⟨List.not_mem_nil, Or.inl hdepartment⟩

/-- What the queue of a user shows of a base: everything where no list was made. -/
def Covers : Option (Finset Nat) → Nat → Prop
  | none, _ => True
  | some ids, kbId => kbId ∈ ids

/-- From a base to its reviewers and from a user to the bases is the same relation. -/
theorem mem_candidates_iff_covers {kbs : List KnowledgeBase} {kb : KnowledgeBase} (hkb : kb ∈ kbs)
    (hmem : user ∈ org.users) : user.id ∈ org.getCandidateReviewers kb.id [] ↔
      Covers (org.kbIdsUserCanReview kbs user) kb.id := by
  cases hids : org.kbIdsUserCanReview kbs user with
  | none =>
      have hrole : user.role = .systemAdmin := by
        by_contra hrole
        simp [kbIdsUserCanReview, hrole] at hids
      refine iff_of_true ?_ trivial
      exact mem_getCandidateReviewers.2 ⟨List.not_mem_nil, Or.inr ⟨user, hmem, hrole, rfl⟩⟩
  | some ids =>
      have hrole : user.role ≠ .systemAdmin := by
        intro hadmin
        simp [kbIdsUserCanReview, hadmin] at hids
      rw [mem_getCandidateReviewers_of_not_admin hmem hrole]
      exact (mem_of_kbIdsUserCanReview hkb hids).symm

/-- The owner of base `7` is a member of the department that user `1` administers. -/
def ownersDepartment : Organisation :=
  { users := [⟨1, .user⟩, ⟨2, .user⟩]
    memberships := [{ userId := 1, departmentId := 5, role := .deptAdmin },
      { userId := 2, departmentId := 5, role := .editor }]
    createdBy := ⟨fun _ => 2, fun _ => 2, fun _ => 2⟩
    ids_nodup := by decide }

theorem ownersDepartment_covers :
    Covers (ownersDepartment.kbIdsUserCanReview [{ id := 7 }] ⟨1, .user⟩) 7 :=
  (@mem_candidates_iff_covers ownersDepartment ⟨1, .user⟩ [{ id := 7 }] { id := 7 }
    List.mem_cons_self List.mem_cons_self).1 (by decide)

end Organisation

end OpsKnowledge.Review
