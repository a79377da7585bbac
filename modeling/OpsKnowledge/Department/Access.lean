import OpsKnowledge.Lib.Closure

/-!
# Departments and shared resources

The department tree, its members, the resources shared with departments, and the two
authorisation paths of `app/department/service.py`: the point check of one resource and
the listing of all resources a user can reach. Ids are numbers.
-/

namespace OpsKnowledge.Departments

open OpsKnowledge.Lib

/-- What the modelled code raises. -/
inductive Exn where
  | integrityError (constraint : String)
  | forbidden (detail : String)
  | nonTermination
  deriving DecidableEq, Repr

inductive UserRole where
  | systemAdmin
  | user
  deriving DecidableEq, Repr

def UserRole.value : UserRole → String
  | .systemAdmin => "system_admin"
  | .user => "user"

/-! ## Rows -/

/-- `ResourceShare.access_level` is matched against `^(view|edit|use|full)$`; the other two
callers of `share_resource` pass the constants `use` and `view`. -/
def AccessLevel : Type := {s : String // s ∈ ["view", "edit", "use", "full"]}

structure Department where
  id : Nat
  parentDepartmentId : Option Nat

structure UserDepartment where
  userId : Nat
  departmentId : Nat

structure DepartmentResource where
  departmentId : Nat
  resourceType : String
  resourceId : Nat
  accessLevel : AccessLevel
  sharedBy : Option Nat := none

structure Tables where
  departments : List Department := []
  userDepartments : List UserDepartment := []
  departmentResources : List DepartmentResource := []

namespace Tables

variable (t : Tables)

/-! ## Sharing -/

/-! ## Access control -/

def getUserDepartmentIds (userId : Nat) : List Nat :=
  (t.userDepartments.filter fun m => m.userId = userId).map UserDepartment.departmentId

/-- `Department.parent_department_id.in_(pending)`; a null parent is in no list. -/
def childrenOf (pending : List Nat) : List Nat :=
  (t.departments.filter fun d => d.parentDepartmentId.any (· ∈ pending)).map Department.id

/-- `get_descendant_department_ids`. The order of the list it makes of its set is not
determined. Every round but the last adds a department, which bounds the rounds. -/
def getDescendantDepartmentIds (deptIds : List Nat) : Except Exn (Finset Nat) :=
  match whileLoop (fun st => !st.pending.isEmpty) (fun st => .ok (st.expand t.childrenOf))
      (t.departments.length + 1) (Frontier.start deptIds) with
  | none => .error .nonTermination
  | some (.error e) => .error e
  | some (.ok st) => .ok st.seen

def levelPriority : List String := ["full", "edit", "use", "view"]

def checkResourceAccess (userId : Nat) (userRole : String) (resourceType : String)
    (resourceId : Nat) (createdBy : Option Nat) : Except Exn (Option String) := do
  if userRole = UserRole.systemAdmin.value then
    return some "full"
  if createdBy = some userId then
    return some "full"
  let deptIds := t.getUserDepartmentIds userId
  if deptIds.isEmpty then
    return none
  let allDeptIds ← t.getDescendantDepartmentIds deptIds
  let levels : Finset String := ((t.departmentResources.filter fun r => r.departmentId ∈ allDeptIds ∧
    r.resourceType = resourceType ∧ r.resourceId = resourceId).map
      fun r => r.accessLevel.val).toFinset
  if levels = ∅ then
    return none
  return levelPriority.find? (· ∈ levels)

def getAccessibleResourceIds (userId : Nat) (resourceType : String) : Except Exn (List Nat) := do
  let deptIds := t.getUserDepartmentIds userId
  if deptIds.isEmpty then
    return []
  let allDeptIds ← t.getDescendantDepartmentIds deptIds
  return (t.departmentResources.filter fun r => r.departmentId ∈ allDeptIds ∧
    r.resourceType = resourceType).map DepartmentResource.resourceId

end Tables

/-- `priority.get(level, 0)` of `app/auth/dependencies.py`. -/
def levelRank : String → Nat
  | "view" => 1
  | "use" => 2
  | "edit" => 3
  | "full" => 4
  | _ => 0

/-- `check_resource_access` of `app/auth/dependencies.py`. -/
def requireResourceAccess (t : Tables) (userId : Nat) (role : UserRole) (resourceType : String)
    (resourceId : Nat) (createdBy : Option Nat) (requiredLevel : String) : Except Exn Unit := do
  match ← t.checkResourceAccess userId role.value resourceType resourceId createdBy with
  | none => throw (.forbidden "No access to this resource")
  | some level =>
      if levelRank level < levelRank requiredLevel then
        throw (.forbidden "Insufficient access level")

theorem AccessLevel.mem_levelPriority (a : AccessLevel) : a.val ∈ Tables.levelPriority := by
  have ha := a.2
  simp only [Tables.levelPriority, List.mem_cons, List.not_mem_nil, or_false] at ha ⊢
  tauto

/-! ## The descendants -/

namespace Tables

variable {t : Tables}

def IsParent (t : Tables) (p c : Nat) : Prop :=
  ∃ d ∈ t.departments, d.parentDepartmentId = some p ∧ d.id = c

theorem mem_childrenOf (pending : List Nat) (c : Nat) :
    c ∈ t.childrenOf pending ↔ ∃ p ∈ pending, t.IsParent p c := by
  simp only [childrenOf, List.mem_map, List.mem_filter, Option.any_eq_true, decide_eq_true_eq,
    IsParent]
  constructor
  · intro h
    obtain ⟨d, ⟨hd, p, hp, hmem⟩, rfl⟩ := h
    exact ⟨p, hmem, d, hd, hp, rfl⟩
  · intro h
    obtain ⟨p, hmem, d, hd, hp, rfl⟩ := h
    exact ⟨d, ⟨hd, p, hp, hmem⟩, rfl⟩

theorem getDescendantDepartmentIds_spec (t : Tables) (deptIds : List Nat) :
    ∃ ids, t.getDescendantDepartmentIds deptIds = .ok ids ∧
      ∀ d, d ∈ ids ↔ ∃ s ∈ deptIds, Relation.ReflTransGen t.IsParent s d := by
  have huniv : ∀ ps, ∀ v ∈ t.childrenOf ps, v ∈ (t.departments.map Department.id).toFinset := by
    intro ps v hv
    obtain ⟨d, hd, rfl⟩ := List.mem_map.1 hv
    exact List.mem_toFinset.2 (List.mem_map_of_mem (List.mem_of_mem_filter hd))
  have hcard : (t.departments.map Department.id).toFinset.card + 1 ≤ t.departments.length + 1 := by
    have hle := List.toFinset_card_le (t.departments.map Department.id)
    rw [List.length_map] at hle
    omega
  obtain ⟨st, hrun, hmem⟩ := Frontier.closure_spec (ε := Exn) t.IsParent deptIds mem_childrenOf
    huniv hcard
  exact ⟨st.seen, by simp [getDescendantDepartmentIds, hrun], hmem⟩

/-! ## The two authorisation paths -/

/-- A grant reaches a user through one of the user's departments or a descendant of one. -/
def GrantReaches (t : Tables) (userId : Nat) (r : DepartmentResource) : Prop :=
  r ∈ t.departmentResources ∧
    ∃ s ∈ t.getUserDepartmentIds userId, Relation.ReflTransGen t.IsParent s r.departmentId

theorem getAccessibleResourceIds_spec (t : Tables) (userId : Nat) (resourceType : String) :
    ∃ ids, t.getAccessibleResourceIds userId resourceType = .ok ids ∧
      ∀ rid, rid ∈ ids ↔
        ∃ r, t.GrantReaches userId r ∧ r.resourceType = resourceType ∧ r.resourceId = rid := by
  cases hdepts : t.getUserDepartmentIds userId with
  | nil =>
      refine ⟨[], by simp [getAccessibleResourceIds, hdepts, pure, Except.pure], ?_⟩
      simp [GrantReaches, hdepts]
  | cons s rest =>
      obtain ⟨all, hall, hmem⟩ := t.getDescendantDepartmentIds_spec (t.getUserDepartmentIds userId)
      have hne : (t.getUserDepartmentIds userId).isEmpty = false := by simp [hdepts]
      refine ⟨_, by simp only [getAccessibleResourceIds, hne, hall, bind, Except.bind]; rfl, ?_⟩
      intro rid
      simp only [List.mem_map, List.mem_filter, decide_eq_true_eq, hmem, GrantReaches]
      constructor
      · intro h
        obtain ⟨r, ⟨hr, hreach, htype⟩, hid⟩ := h
        exact ⟨r, ⟨hr, hreach⟩, htype, hid⟩
      · intro h
        obtain ⟨r, ⟨hr, hreach⟩, htype, hid⟩ := h
        exact ⟨r, ⟨hr, hreach, htype⟩, hid⟩

theorem levelPriority_sorted : levelPriority.Pairwise fun a b => levelRank b ≤ levelRank a := by
  decide

/-- The first level of the priority list that a grant has is the highest one. -/
theorem find?_levelPriority {levels : Finset String} {l : String}
    (h : levelPriority.find? (· ∈ levels) = some l) :
    l ∈ levels ∧ ∀ a : AccessLevel, a.val ∈ levels → levelRank a.val ≤ levelRank l := by
  obtain ⟨hl, above, below, hsplit, habove⟩ := List.find?_eq_some_iff_append.1 h
  refine ⟨by simpa using hl, ?_⟩
  intro a ha
  have hsorted := levelPriority_sorted
  have hmem := a.mem_levelPriority
  rw [hsplit] at hsorted hmem
  rcases List.mem_append.1 hmem with hmem | hmem
  · have hnot := habove _ hmem
    simp [ha] at hnot
  · rcases List.mem_cons.1 hmem with hmem | hmem
    · rw [hmem]
    · exact List.rel_of_pairwise_cons (List.pairwise_append.1 hsorted).2.1 hmem

theorem isSome_find?_levelPriority {levels : Finset String} {a : AccessLevel}
    (h : a.val ∈ levels) : (levelPriority.find? (· ∈ levels)).isSome := by
  rw [List.find?_isSome]
  exact ⟨a.val, a.mem_levelPriority, by simpa using h⟩

/-- Administrators and the creator of a resource need no grant. -/
def Privileged (userId : Nat) (userRole : String) (createdBy : Option Nat) : Prop :=
  userRole = UserRole.systemAdmin.value ∨ createdBy = some userId

theorem checkResourceAccess_of_privileged {userId resourceId : Nat} {userRole resourceType : String}
    {createdBy : Option Nat} (h : Privileged userId userRole createdBy) :
    t.checkResourceAccess userId userRole resourceType resourceId createdBy = .ok (some "full") := by
  by_cases hadmin : userRole = UserRole.systemAdmin.value
  · simp [checkResourceAccess, hadmin, pure, Except.pure]
  · have hcreator := h.resolve_left hadmin
    simp [checkResourceAccess, hadmin, hcreator, pure, Except.pure]

/-- Without a privilege the check returns the highest level among the grants that reach the user. -/
theorem checkResourceAccess_of_not_privileged {userId : Nat} {userRole : String}
    {createdBy : Option Nat} (h : ¬ Privileged userId userRole createdBy) (resourceType : String)
    (resourceId : Nat) :
    ∃ levels : Finset String,
      t.checkResourceAccess userId userRole resourceType resourceId createdBy =
        .ok (levelPriority.find? (· ∈ levels)) ∧
      ∀ l, l ∈ levels ↔ ∃ r, t.GrantReaches userId r ∧ r.resourceType = resourceType ∧
        r.resourceId = resourceId ∧ r.accessLevel.val = l := by
  obtain ⟨hadmin, hcreator⟩ := not_or.1 h
  cases hdepts : t.getUserDepartmentIds userId with
  | nil =>
      refine ⟨∅, ?_, by simp [GrantReaches, hdepts]⟩
      simp [checkResourceAccess, hadmin, hcreator, hdepts, pure, Except.pure, levelPriority]
  | cons s rest =>
      obtain ⟨all, hall, hmem⟩ := t.getDescendantDepartmentIds_spec (t.getUserDepartmentIds userId)
      have hne : (t.getUserDepartmentIds userId).isEmpty = false := by simp [hdepts]
      let levels : Finset String := ((t.departmentResources.filter fun r => r.departmentId ∈ all ∧
        r.resourceType = resourceType ∧ r.resourceId = resourceId).map
          fun r => r.accessLevel.val).toFinset
      refine ⟨levels, ?_, ?_⟩
      · have hrun : t.checkResourceAccess userId userRole resourceType resourceId createdBy =
            if levels = ∅ then .ok none else .ok (levelPriority.find? (· ∈ levels)) := by
          simp only [checkResourceAccess, hadmin, hcreator, hne, hall, bind, Except.bind, pure,
            Except.pure, if_false, Bool.false_eq_true]
          rfl
        rw [hrun]
        by_cases hempty : levels = ∅
        · simp [hempty, levelPriority]
        · simp [hempty]
      · intro l
        simp only [levels, List.mem_toFinset, List.mem_map, List.mem_filter, decide_eq_true_eq, hmem,
          GrantReaches]
        constructor
        · intro hl
          obtain ⟨r, ⟨hr, hreach, htype, hid⟩, hlevel⟩ := hl
          exact ⟨r, ⟨hr, hreach⟩, htype, hid, hlevel⟩
        · intro hl
          obtain ⟨r, ⟨hr, hreach⟩, htype, hid, hlevel⟩ := hl
          exact ⟨r, ⟨hr, hreach, htype, hid⟩, hlevel⟩

/-- The grants that decide an unprivileged check. -/
def GrantsOn (t : Tables) (userId : Nat) (resourceType : String) (resourceId : Nat)
    (r : DepartmentResource) : Prop :=
  t.GrantReaches userId r ∧ r.resourceType = resourceType ∧ r.resourceId = resourceId

structure IsHighestLevel (t : Tables) (userId : Nat) (resourceType : String) (resourceId : Nat)
    (l : String) : Prop where
  granted : ∃ r, t.GrantsOn userId resourceType resourceId r ∧ r.accessLevel.val = l
  highest : ∀ r, t.GrantsOn userId resourceType resourceId r →
    levelRank r.accessLevel.val ≤ levelRank l

theorem checkResourceAccess_spec {userId : Nat} {userRole : String} {createdBy : Option Nat}
    (h : ¬ Privileged userId userRole createdBy) (resourceType : String) (resourceId : Nat) :
    ∃ level, t.checkResourceAccess userId userRole resourceType resourceId createdBy = .ok level ∧
      (level.isSome ↔ ∃ r, t.GrantsOn userId resourceType resourceId r) ∧
      ∀ l, level = some l → t.IsHighestLevel userId resourceType resourceId l := by
  obtain ⟨levels, hcheck, hlevels⟩ :=
    t.checkResourceAccess_of_not_privileged h resourceType resourceId
  refine ⟨_, hcheck, ⟨?_, ?_⟩, ?_⟩
  · intro hsome
    obtain ⟨l, hl⟩ := Option.isSome_iff_exists.1 hsome
    obtain ⟨r, hreach, htype, hid, -⟩ := (hlevels l).1 (find?_levelPriority hl).1
    exact ⟨r, hreach, htype, hid⟩
  · intro hr
    obtain ⟨r, hreach, htype, hid⟩ := hr
    exact isSome_find?_levelPriority ((hlevels _).2 ⟨r, hreach, htype, hid, rfl⟩)
  · intro l hl
    obtain ⟨hin, hmax⟩ := find?_levelPriority hl
    obtain ⟨r, hreach, htype, hid, hlevel⟩ := (hlevels l).1 hin
    refine ⟨⟨r, ⟨hreach, htype, hid⟩, hlevel⟩, ?_⟩
    intro r' hr'
    obtain ⟨hreach', htype', hid'⟩ := hr'
    exact hmax r'.accessLevel ((hlevels _).2 ⟨r', hreach', htype', hid', rfl⟩)

/-- For every parent relation the descendants are the reachable departments; the check and the
listing agree for every user and resource, and the level is the highest one granted. -/
theorem access_paths_agree (t : Tables) :
    (∀ deptIds, ∃ ids, t.getDescendantDepartmentIds deptIds = .ok ids ∧
      ∀ d, d ∈ ids ↔ ∃ s ∈ deptIds, Relation.ReflTransGen t.IsParent s d) ∧
    ∀ userId userRole resourceType resourceId createdBy, ∃ level ids,
      t.checkResourceAccess userId userRole resourceType resourceId createdBy = .ok level ∧
      t.getAccessibleResourceIds userId resourceType = .ok ids ∧
      (level.isSome ↔ userRole = UserRole.systemAdmin.value ∨ createdBy = some userId ∨
        resourceId ∈ ids) ∧
      (Privileged userId userRole createdBy → level = some "full") ∧
      (¬ Privileged userId userRole createdBy → ∀ l, level = some l →
        t.IsHighestLevel userId resourceType resourceId l) := by
  refine ⟨t.getDescendantDepartmentIds_spec, ?_⟩
  intro userId userRole resourceType resourceId createdBy
  obtain ⟨ids, hids, hlisted⟩ := t.getAccessibleResourceIds_spec userId resourceType
  by_cases hpriv : Privileged userId userRole createdBy
  · refine ⟨some "full", ids, checkResourceAccess_of_privileged hpriv, hids, ?_, fun _ => rfl,
      fun hnot => absurd hpriv hnot⟩
    rcases hpriv with hadmin | hcreator
    · simp [hadmin]
    · simp [hcreator]
  · obtain ⟨level, hcheck, hsome, hhighest⟩ := checkResourceAccess_spec hpriv resourceType resourceId
    refine ⟨level, ids, hcheck, hids, ?_, fun h => absurd h hpriv, fun _ => hhighest⟩
    obtain ⟨hadmin, hcreator⟩ := not_or.1 hpriv
    simp only [hadmin, hcreator, false_or, hlisted, hsome]
    exact Iff.rfl

/-- Two departments that are each other's parent. -/
example : Tables.getDescendantDepartmentIds { departments := [⟨1, some 2⟩, ⟨2, some 1⟩] } [1] =
    .ok {1, 2} := rfl

/-! ## The dependency of the routers -/

theorem levelRank_le_full (l : String) : levelRank l ≤ levelRank "full" := by
  unfold levelRank
  split <;> decide

/-- A request passes when the user is privileged or some grant reaches the required level. -/
theorem requireResourceAccess_iff {userId : Nat} {role : UserRole} {resourceType : String}
    {resourceId : Nat} {createdBy : Option Nat} {requiredLevel : String} :
    requireResourceAccess t userId role resourceType resourceId createdBy requiredLevel = .ok () ↔
      Privileged userId role.value createdBy ∨
        ∃ r, t.GrantsOn userId resourceType resourceId r ∧
          (levelRank requiredLevel ≤ levelRank r.accessLevel.val) := by
  unfold requireResourceAccess
  by_cases hpriv : Privileged userId role.value createdBy
  · have hle := levelRank_le_full requiredLevel
    simp [checkResourceAccess_of_privileged hpriv, hpriv, bind, Except.bind, pure, Except.pure,
      Nat.not_lt.2 hle]
  · obtain ⟨level, hcheck, hsome, hhighest⟩ :=
      checkResourceAccess_spec (t := t) hpriv resourceType resourceId
    simp only [hcheck, hpriv, false_or, bind, Except.bind, pure, Except.pure, throw, throwThe,
      MonadExceptOf.throw]
    cases level with
    | none =>
        have hno : ¬ ∃ r, t.GrantsOn userId resourceType resourceId r := by simpa using hsome
        simp only [reduceCtorEq, false_iff]
        intro h
        obtain ⟨r, hr, -⟩ := h
        exact hno ⟨r, hr⟩
    | some l =>
        obtain ⟨r, hr, hlevel⟩ := (hhighest l rfl).granted
        by_cases hlow : levelRank l < levelRank requiredLevel
        · simp only [hlow, if_true, reduceCtorEq, false_iff]
          intro h
          obtain ⟨r', hr', hle⟩ := h
          have hmax := (hhighest l rfl).highest r' hr'
          omega
        · simp only [hlow, if_false, true_iff]
          exact ⟨r, hr, by rw [hlevel]; omega⟩

end Tables

end OpsKnowledge.Departments
