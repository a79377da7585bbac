import Mathlib.Data.Finset.Sort
import OpsKnowledge.Knowledge.ReviewIsolation
import OpsKnowledge.Review.Reviewers

/-!
# Notifications of pending documents

A document that enters review is announced to its candidate reviewers, once in the time
that it is pending. What was announced is found by comparing the rows with
`last_pending_started_at`, which a request for another review has just set.
-/

namespace OpsKnowledge.Review

open OpsKnowledge.Lib
open Knowledge (Tables TableAction TextSource Document ReviewStatus tableStep)

/-- A row of `notifications`. -/
structure Notification (κ : Type) where
  userId : Nat
  type : String
  title : String
  content : String
  priority : String := "normal"
  resourceType : String
  resourceId : Nat
  createdAt : κ

/-- The titles of documents and the names of bases. -/
structure Names where
  document : Nat → String
  kb : Nat → String

/-- A committed transaction. `now` is the clock of the application, `startedAt` what the
database gives the rows as `created_at`; the organisation is the one of that moment, with
authors that never change. Only a decision has a comment. -/
structure Transaction (authors : Authors) (κ Vec : Type) where
  action : TableAction Vec
  comment : Option String := none
  now : κ
  startedAt : κ
  org : Organisation
  createdBy_eq : org.createdBy = authors

structure NotifyState (κ : Type) where
  tables : Tables
  lastPendingStartedAt : Nat → Option κ := fun _ => none
  notifications : List (Notification κ) := []

namespace NotifyState

variable {authors : Authors} {κ Vec : Type} [LinearOrder κ] (names : Names) (tx : Transaction authors κ Vec)
  (st : NotifyState κ)

/-- The query before the rows are made. -/
def alreadyNotified (docId : Nat) (since : κ) : Bool :=
  st.notifications.any fun n =>
    n.type = "review_pending" ∧ n.resourceId = docId ∧ since < n.createdAt

def pendingNotice (doc : Document) (userId : Nat) : Notification κ :=
  { userId := userId
    type := "review_pending"
    title := "待审批：「" ++ names.document doc.id ++ "」"
    content := "知识库「" ++ names.kb doc.knowledgeBaseId ++ "」有新文档等待审批。"
    resourceType := "document"
    resourceId := doc.id
    createdAt := tx.startedAt }

/-- The author reminds himself where there is nobody else. -/
def orAuthor (authorId : Nat) (candidates : Finset Nat) : Finset Nat :=
  if candidates = ∅ then {authorId} else candidates

/-- The rows for the targets, in any order, unless there are rows since the document was last sent to
review. -/
def announce (doc : Document) (targets : Finset Nat) : NotifyState κ :=
  if (st.lastPendingStartedAt doc.id).any (st.alreadyNotified doc.id) then st
  else { st with
    notifications := st.notifications ++ (targets.sort (· ≤ ·)).map (pendingNotice names tx doc) }

def candidateReviewers (doc : Document) : Finset Nat :=
  tx.org.getCandidateReviewers doc.knowledgeBaseId [authors.document doc.id]

/-- `_notify_reviewers` -/
def notifyReviewers (doc : Document) : NotifyState κ :=
  st.announce names tx doc (orAuthor (authors.document doc.id) (candidateReviewers tx doc))

def startPending (docId : Nat) (now : κ) : NotifyState κ :=
  { st with
    tables := (st.tables.setReviewStatus docId .pending).setChunksExcluded docId true
    lastPendingStartedAt := Function.update st.lastPendingStartedAt docId (some now) }

def submitForReview (docId : Nat) : Option (NotifyState κ) := do
  let doc ← st.tables.getDocument docId
  if st.tables.reviewRequired doc.knowledgeBaseId = false then some st
  else if doc.reviewStatus.isSome then some st
  else some ((st.startPending docId tx.now).notifyReviewers names tx doc)

def requestReReview (docId : Nat) : Option (NotifyState κ) := do
  let doc ← st.tables.getDocument docId
  if st.tables.reviewRequired doc.knowledgeBaseId = false then some st
  else some ((st.startPending docId tx.now).notifyReviewers names tx doc)

/-- The owner of the base and the administrators of the owner's departments. -/
def workerCandidates (doc : Document) : Finset Nat :=
  let owner := authors.kb doc.knowledgeBaseId
  let adminRows := (tx.org.memberships.filter fun m =>
    m.departmentId ∈ tx.org.departmentsOf owner ∧ m.role = .deptAdmin).map fun m => m.userId
  (insert owner adminRows.toFinset).erase (authors.document doc.id)

/-- `_submit_doc_for_review` of the worker. -/
def submitDocForReview (docId : Nat) : NotifyState κ :=
  match st.tables.getDocument docId with
  | none => st
  | some doc =>
      if doc.reviewStatus.isSome then st
      else (st.startPending docId tx.now).announce names tx doc
        (orAuthor (authors.document doc.id) (workerCandidates tx doc))

def finishIngest (countTokens : String → Nat) (docId : Nat) (source : TextSource) :
    Option (NotifyState κ) := do
  let doc ← st.tables.getDocument docId
  if docId ∈ st.tables.processing then
    let made := source.rows countTokens doc st.tables.next
    let saved := { st with
      tables := st.tables.saveIngested docId doc.knowledgeBaseId made.1 made.2 }
    some (if st.tables.reviewRequired doc.knowledgeBaseId then saved.submitDocForReview names tx docId
      else saved)
  else none

def statusName : ReviewStatus → String
  | .pending => "pending"
  | .approved => "approved"
  | .rejected => "rejected"

/-- `_notify_owner_decision` -/
def decisionNotice (docId : Nat) (status : ReviewStatus) : Notification κ :=
  let verb := if status = .approved then "已通过" else "已拒绝"
  let body := if status = .approved then "文档已发布到知识库。" else "请按反馈调整后再次提交。"
  { userId := authors.document docId
    type := "review_" ++ statusName status
    title := "文档「" ++ names.document docId ++ "」审批" ++ verb
    content := match tx.comment with
      | some comment => if comment = "" then body else comment
      | none => body
    resourceType := "document"
    resourceId := docId
    createdAt := tx.startedAt }

/-- `_decide` -/
def decideReview (docId : Nat) (newStatus : ReviewStatus) : Option (NotifyState κ) :=
  if newStatus ∉ [ReviewStatus.approved, .rejected] then none
  else do
    let tables ← st.tables.decideReview docId newStatus
    some { st with
      tables := tables
      notifications := st.notifications ++ [decisionNotice names tx docId newStatus] }

/-- The other transactions announce nothing. -/
def notifyStep (countTokens : String → Nat) : Option (NotifyState κ) :=
  match tx.action with
  | .submitForReview docId => st.submitForReview names tx docId
  | .requestReReview docId => st.requestReReview names tx docId
  | .approve docId => st.decideReview names tx docId .approved
  | .reject docId => st.decideReview names tx docId .rejected
  | .finishIngest docId source => st.finishIngest names tx countTokens docId source
  | action => (tableStep countTokens st.tables action).map fun tables => { st with tables := tables }

end NotifyState

/-! ## Pending periods -/

/-- The users that rows of pending review tell about a document. -/
def pendingTo {κ : Type} (docId : Nat) (rows : List (Notification κ)) : List Nat :=
  (rows.filter fun n => n.type = "review_pending" ∧ n.resourceId = docId).map Notification.userId

/-- The users that a transaction tells about a document, which appends its rows. -/
def sent {κ : Type} (docId : Nat) (st st' : NotifyState κ) : List Nat :=
  pendingTo docId (st'.notifications.drop st.notifications.length)

/-- `told` is what the current pending period of each document has told so far. -/
structure Period (κ : Type) where
  st : NotifyState κ
  told : Nat → List Nat := fun _ => []

def Pending (t : Tables) (docId : Nat) : Prop := t.unitReview .document docId = some (some .pending)

instance {t : Tables} {docId : Nat} : Decidable (Pending t docId) :=
  inferInstanceAs (Decidable (_ = _))

section Periods

variable {authors : Authors} {κ Vec : Type} [LinearOrder κ] (names : Names) (countTokens : String → Nat)

/-- A period goes on where the document was pending before. -/
def periodStep (p : Period κ) (tx : Transaction authors κ Vec) : Option (Period κ) :=
  (p.st.notifyStep names tx countTokens).map fun st' =>
    { st := st'
      told := fun docId =>
        (if Pending p.st.tables docId then p.told docId else []) ++ sent docId p.st st' }

/-- No reviewer is told twice in a period. The author of a document is none of its reviewers. -/
def ToldOnce (authors : Authors) (p : Period κ) : Prop :=
  ∀ docId userId, userId ≠ authors.document docId → (p.told docId).count userId ≤ 1

/-- A request to review again what is pending finds a row that is younger than the request, or asks
nobody who was told already. -/
def SparesTold (p : Period κ) (tx : Transaction authors κ Vec) : Prop :=
  match tx.action with
  | .requestReReview docId => ∀ doc, p.st.tables.getDocument docId = some doc →
      doc.reviewStatus = some .pending → p.st.tables.reviewRequired doc.knowledgeBaseId = true →
        p.st.alreadyNotified docId tx.now = true ∨
          ∀ userId ∈ NotifyState.candidateReviewers tx doc, userId ∉ p.told docId
  | _ => True

end Periods

section Steps

variable {authors : Authors} {κ Vec : Type} [LinearOrder κ] {names : Names} {countTokens : String → Nat}
  {tx : Transaction authors κ Vec} {st st' : NotifyState κ} {doc : Document} {targets : Finset Nat}
  {docId : Nat}

open NotifyState

/-! ## The tables -/

theorem announce_tables : (st.announce names tx doc targets).tables = st.tables := by
  unfold announce
  split
  · rfl
  · rfl

theorem submitDocForReview_tables :
    (st.submitDocForReview names tx docId).tables = st.tables.submitDocForReview docId := by
  unfold NotifyState.submitDocForReview Tables.submitDocForReview
  cases st.tables.getDocument docId with
  | none => rfl
  | some doc =>
      simp only
      split
      · rfl
      · exact announce_tables

theorem submitForReview_tables : (st.submitForReview names tx docId).map NotifyState.tables =
    st.tables.submitForReview docId := by
  simp only [NotifyState.submitForReview, Tables.submitForReview, Option.bind_eq_bind]
  cases hdoc : st.tables.getDocument docId with
  | none => rfl
  | some doc =>
      simp only [Option.bind_some, Tables.submitDocForReview, hdoc]
      cases hrequired : st.tables.reviewRequired doc.knowledgeBaseId with
      | false => rfl
      | true =>
          cases hstatus : doc.reviewStatus with
          | none => simp [notifyReviewers, announce_tables, startPending]
          | some status => rfl

theorem requestReReview_tables : (st.requestReReview names tx docId).map NotifyState.tables =
    st.tables.requestReReview docId := by
  simp only [NotifyState.requestReReview, Tables.requestReReview, Option.bind_eq_bind]
  cases hdoc : st.tables.getDocument docId with
  | none => rfl
  | some doc =>
      cases hrequired : st.tables.reviewRequired doc.knowledgeBaseId with
      | false => simp [hrequired]
      | true => simp [hrequired, notifyReviewers, announce_tables, startPending]

theorem finishIngest_tables {source : TextSource} :
    (st.finishIngest names tx countTokens docId source).map NotifyState.tables =
      st.tables.finishIngest countTokens docId source := by
  simp only [NotifyState.finishIngest, Tables.finishIngest, Option.bind_eq_bind]
  cases hdoc : st.tables.getDocument docId with
  | none => rfl
  | some doc =>
      simp only [Option.bind_some]
      split
      · cases hrequired : st.tables.reviewRequired doc.knowledgeBaseId with
        | false => rfl
        | true => simp [submitDocForReview_tables]
      · rfl

omit [LinearOrder κ] in
theorem decideReview_tables {status : ReviewStatus} (hstatus : status ∈ [ReviewStatus.approved, .rejected]) :
    (st.decideReview names tx docId status).map NotifyState.tables =
      st.tables.decideReview docId status := by
  simp only [NotifyState.decideReview, not_not.2 hstatus, if_false, Option.bind_eq_bind]
  cases st.tables.decideReview docId status with
  | none => rfl
  | some tables => rfl

/-- Without the notifications these are the transactions of the tables. -/
theorem notifyStep_tables : (st.notifyStep names tx countTokens).map NotifyState.tables =
    tableStep countTokens st.tables tx.action := by
  unfold notifyStep
  cases haction : tx.action with
  | submitForReview id => exact submitForReview_tables
  | requestReReview id => exact requestReReview_tables
  | approve id => exact decideReview_tables (by simp)
  | reject id => exact decideReview_tables (by simp)
  | finishIngest id source => exact finishIngest_tables
  | _ =>
      simp only [Option.map_map]
      exact Option.map_id'

/-! ## What is sent -/

omit [LinearOrder κ] in
theorem pendingTo_map (users : List Nat) : pendingTo docId (users.map (pendingNotice names tx doc)) =
    if doc.id = docId then users else [] := by
  simp only [pendingTo, List.filter_map, List.map_map]
  split
  · next h => simp [pendingNotice, h, Function.comp_def]
  · next h => simp [pendingNotice, h, Function.comp_def]

omit [LinearOrder κ] in
theorem sent_append {rows : List (Notification κ)} (hrows : st'.notifications = st.notifications ++ rows) :
    sent docId st st' = pendingTo docId rows := by
  rw [sent, hrows, List.drop_left]

omit [LinearOrder κ] in
theorem sent_same (hrows : st'.notifications = st.notifications) : sent docId st st' = [] := by
  rw [sent, hrows, List.drop_length]
  rfl

theorem sent_announce (hrows : st'.notifications = st.notifications) :
    sent docId st (st'.announce names tx doc targets) =
      if doc.id = docId ∧ (st'.lastPendingStartedAt doc.id).any (st'.alreadyNotified doc.id) = false then
        targets.sort (· ≤ ·)
      else [] := by
  unfold announce
  split
  · next hdone => rw [sent_same hrows, if_neg (by simp [hdone])]
  · next hnew =>
      have hfalse := Bool.eq_false_of_not_eq_true hnew
      rw [sent_append (congrArg (· ++ _) hrows), pendingTo_map]
      simp only [hfalse, and_true]

/-- The anchor that the transaction has just set decides. -/
theorem sent_startPending (hid : doc.id = docId) (id : Nat) :
    sent id st ((st.startPending docId tx.now).announce names tx doc targets) =
      if docId = id ∧ st.alreadyNotified docId tx.now = false then targets.sort (· ≤ ·) else [] := by
  subst hid
  have hanchor : ((st.startPending doc.id tx.now).lastPendingStartedAt doc.id).any
      ((st.startPending doc.id tx.now).alreadyNotified doc.id) = st.alreadyNotified doc.id tx.now := by
    simp only [startPending, Function.update_self, Option.any_some]
    rfl
  have hrows : (st.startPending doc.id tx.now).notifications = st.notifications := rfl
  rw [sent_announce hrows, hanchor]

/-- A submission tells about a document that had no status, each target once. -/
def Submission (st st' : NotifyState κ) : Prop :=
  ∃ (id : Nat) (users : List Nat), users.Nodup ∧ st.tables.unitReview .document id = some none ∧
    ∀ docId, sent docId st st' = if docId = id then users else []

theorem submission_startPending (hdoc : st.tables.getDocument docId = some doc)
    (hstatus : doc.reviewStatus = none) :
    Submission st ((st.startPending docId tx.now).announce names tx doc targets) := by
  obtain ⟨-, hid⟩ := Tables.getDocument_eq_some hdoc
  have hreview := Tables.unitReview_document hdoc
  rw [hstatus] at hreview
  refine ⟨docId, if st.alreadyNotified docId tx.now = false then targets.sort (· ≤ ·) else [], ?_,
    hreview, ?_⟩
  · split
    · exact targets.sort_nodup _
    · exact List.nodup_nil
  · intro id
    rw [sent_startPending hid]
    by_cases hsame : id = docId
    · simp [hsame]
    · simp [hsame, Ne.symm hsame]

theorem submitDocForReview_sends : (∀ id, sent id st (st.submitDocForReview names tx docId) = []) ∨
    Submission st (st.submitDocForReview names tx docId) := by
  unfold NotifyState.submitDocForReview
  cases hdoc : st.tables.getDocument docId with
  | none => exact Or.inl fun _ => sent_same rfl
  | some doc =>
      simp only
      split
      · exact Or.inl fun _ => sent_same rfl
      · next hstatus => exact Or.inr (submission_startPending hdoc (by simpa using hstatus))

/-- The rows of the ingestion leave the statuses alone. -/
theorem unitReview_saveIngested (t : Tables) (kbId : Nat) (rows : List Knowledge.Chunk) (next : Nat) :
    (t.saveIngested docId kbId rows next).unitReview = t.unitReview :=
  Tables.unitReview_of_documents rfl rfl fun _ => ⟨rfl, rfl⟩

theorem finishIngest_sends {source : TextSource}
    (h : st.finishIngest names tx countTokens docId source = some st') :
    (∀ id, sent id st st' = []) ∨ Submission st st' := by
  simp only [NotifyState.finishIngest, Option.bind_eq_bind, Option.bind_eq_some_iff] at h
  obtain ⟨doc, -, h⟩ := h
  split at h
  · let made := source.rows countTokens doc st.tables.next
    let saved : NotifyState κ :=
      { st with tables := st.tables.saveIngested docId doc.knowledgeBaseId made.1 made.2 }
    obtain rfl := Option.some.inj h
    split
    · have hsends : (∀ id, sent id saved (saved.submitDocForReview names tx docId) = []) ∨
          Submission saved (saved.submitDocForReview names tx docId) := submitDocForReview_sends
      rcases hsends with hnone | ⟨id, users, hnodup, hstatus, hsent⟩
      · exact Or.inl hnone
      · have hstatus' : st.tables.unitReview .document id = some none := by
          rw [← hstatus, unitReview_saveIngested]
        exact Or.inr ⟨id, users, hnodup, hstatus', hsent⟩
    · exact Or.inl fun _ => sent_same rfl
  · cases h

/-- What is sent by a transaction other than a request to review again. -/
theorem notifyStep_sends (haction : ∀ id, tx.action ≠ .requestReReview id)
    (h : st.notifyStep names tx countTokens = some st') :
    (∀ docId, sent docId st st' = []) ∨ Submission st st' := by
  have hdecide : ∀ id, ∀ status ∈ [ReviewStatus.approved, .rejected],
      st.decideReview names tx id status = some st' → ∀ docId, sent docId st st' = [] := by
    intro id status hstatus h docId
    simp only [NotifyState.decideReview, not_not.2 hstatus, if_false, Option.bind_eq_bind,
      Option.bind_eq_some_iff, Option.some.injEq] at h
    obtain ⟨tables, -, rfl⟩ := h
    rw [sent_append rfl]
    simp only [List.mem_cons, List.not_mem_nil, or_false] at hstatus
    rcases hstatus with rfl | rfl
    · simp [pendingTo, decisionNotice, statusName]
    · simp [pendingTo, decisionNotice, statusName]
  unfold notifyStep at h
  cases hact : tx.action with
  | submitForReview id =>
      rw [hact] at h
      simp only [NotifyState.submitForReview, Option.bind_eq_bind, Option.bind_eq_some_iff] at h
      obtain ⟨doc, hdoc, h⟩ := h
      split at h
      · cases h
        exact Or.inl fun _ => sent_same rfl
      · split at h
        · cases h
          exact Or.inl fun _ => sent_same rfl
        · next hstatus =>
            cases h
            exact Or.inr (submission_startPending hdoc (by simpa using hstatus))
  | requestReReview id => exact absurd hact (haction id)
  | approve id =>
      rw [hact] at h
      exact Or.inl (hdecide id .approved (by simp) h)
  | reject id =>
      rw [hact] at h
      exact Or.inl (hdecide id .rejected (by simp) h)
  | finishIngest id source =>
      rw [hact] at h
      exact finishIngest_sends h
  | _ =>
      rw [hact] at h
      obtain ⟨tables, -, rfl⟩ := Option.map_eq_some_iff.1 h
      exact Or.inl fun _ => sent_same rfl

theorem requestReReview_sends (hact : tx.action = .requestReReview docId)
    (h : st.notifyStep names tx countTokens = some st') : ∃ doc, st.tables.getDocument docId = some doc ∧
      ∀ id, sent id st st' = if docId = id ∧ st.tables.reviewRequired doc.knowledgeBaseId = true ∧
        st.alreadyNotified docId tx.now = false then
          (orAuthor (authors.document doc.id) (candidateReviewers tx doc)).sort (· ≤ ·) else [] := by
  unfold notifyStep at h
  rw [hact] at h
  simp only [NotifyState.requestReReview, Option.bind_eq_bind, Option.bind_eq_some_iff] at h
  obtain ⟨doc, hdoc, h⟩ := h
  obtain ⟨-, hid⟩ := Tables.getDocument_eq_some hdoc
  refine ⟨doc, hdoc, ?_⟩
  intro id
  split at h
  · next hrequired =>
      cases h
      rw [sent_same rfl, if_neg (by simp [hrequired])]
  · next hrequired =>
      cases h
      rw [notifyReviewers, sent_startPending hid]
      have htrue : st.tables.reviewRequired doc.knowledgeBaseId = true := by simpa using hrequired
      simp only [htrue, true_and]

/-- The author is none of the candidates. -/
theorem mem_orAuthor {authorId userId : Nat} {candidates : Finset Nat} (hne : userId ≠ authorId) :
    userId ∈ orAuthor authorId candidates ↔ userId ∈ candidates := by
  unfold orAuthor
  split
  · next hempty => simp [hempty, hne]
  · exact Iff.rfl

theorem sends_nodup (h : st.notifyStep names tx countTokens = some st') (id : Nat) :
    (sent id st st').Nodup := by
  by_cases haction : ∃ docId, tx.action = .requestReReview docId
  · obtain ⟨docId, hact⟩ := haction
    obtain ⟨doc, -, hsent⟩ := requestReReview_sends hact h
    rw [hsent id]
    split
    · exact Finset.sort_nodup _ _
    · exact List.nodup_nil
  · rcases notifyStep_sends (not_exists.1 haction) h with hnone | ⟨submitted, users, hnodup, -, hsent⟩
    · rw [hnone id]
      exact List.nodup_nil
    · rw [hsent id]
      split
      · exact hnodup
      · exact List.nodup_nil

/-! ## Periods -/

theorem count_append_le_one {xs ys : List Nat} {a : Nat} (hx : xs.count a ≤ 1) (hy : ys.count a ≤ 1) :
    (xs ++ ys).count a ≤ 1 ↔ (a ∈ ys → a ∉ xs) := by
  rw [List.count_append, ← List.one_le_count_iff, ← List.one_le_count_iff]
  omega

variable {p p' : Period κ}

/-- Nobody is told who has been told already in a period that goes on. -/
def TellsAnew (authors : Authors) (p : Period κ) (st' : NotifyState κ) : Prop :=
  ∀ id userId, userId ≠ authors.document id → userId ∈ sent id p.st st' → Pending p.st.tables id →
    userId ∉ p.told id

theorem toldOnce_iff (hp : ToldOnce authors p) (h : periodStep names countTokens p tx = some p') :
    ToldOnce authors p' ↔ TellsAnew authors p p'.st := by
  obtain ⟨st', hst', rfl⟩ := Option.map_eq_some_iff.1 h
  refine forall_congr' fun id => forall_congr' fun userId => imp_congr_right fun hne => ?_
  have hsent : (sent id p.st st').count userId ≤ 1 := List.nodup_iff_count_le_one.1 (sends_nodup hst' id) _
  by_cases hpending : Pending p.st.tables id
  · simp only [if_pos hpending]
    rw [count_append_le_one (hp id userId hne) hsent]
    exact imp_congr_right fun _ => ⟨fun hnot _ => hnot, fun hnot => hnot hpending⟩
  · simp only [if_neg hpending, List.nil_append]
    exact iff_of_true hsent fun _ hin => absurd hin hpending

theorem tellsAnew_requestReReview_iff {docId : Nat} (hact : tx.action = .requestReReview docId)
    (hst' : p.st.notifyStep names tx countTokens = some st') :
    TellsAnew authors p st' ↔ SparesTold p tx := by
  obtain ⟨doc, hdoc, hsent⟩ := requestReReview_sends hact hst'
  obtain ⟨-, hid⟩ := Tables.getDocument_eq_some hdoc
  simp only [TellsAnew, SparesTold, hact, hsent]
  constructor
  · intro hnew doc' hdoc' hstatus hrequired
    obtain rfl := Option.some.inj (hdoc.symm.trans hdoc')
    cases halready : p.st.alreadyNotified docId tx.now with
    | true => exact Or.inl rfl
    | false =>
        refine Or.inr fun userId hcandidate => ?_
        have hne : userId ≠ authors.document docId := by
          rintro rfl
          rw [candidateReviewers, hid, Organisation.mem_getCandidateReviewers] at hcandidate
          exact hcandidate.1 List.mem_cons_self
        refine hnew docId userId hne ?_ ?_
        · rw [if_pos ⟨rfl, hrequired, halready⟩, Finset.mem_sort, mem_orAuthor (by rwa [hid])]
          exact hcandidate
        · rw [Pending, Tables.unitReview_document hdoc, hstatus]
  · intro hspares id userId hne hin hpending
    split at hin
    · next hnew =>
        obtain ⟨rfl, hrequired, halready⟩ := hnew
        rw [Pending, Tables.unitReview_document hdoc] at hpending
        rw [Finset.mem_sort, mem_orAuthor (by rwa [hid])] at hin
        rcases hspares doc hdoc (Option.some.inj hpending) hrequired with hfound | hnot
        · rw [halready] at hfound
          cases hfound
        · exact hnot userId hin
    · cases hin

/-- What is announced by any other transaction was not pending before. -/
theorem tellsAnew_of_ne (haction : ∀ docId, tx.action ≠ .requestReReview docId)
    (hst' : p.st.notifyStep names tx countTokens = some st') : TellsAnew authors p st' := by
  intro id userId _ hin hpending
  rcases notifyStep_sends haction hst' with hnone | ⟨submitted, users, -, hstatus, hsent⟩
  · rw [hnone id] at hin
    cases hin
  · rw [hsent id] at hin
    split at hin
    · next hsame =>
        rw [hsame, Pending, hstatus] at hpending
        cases hpending
    · cases hin

/-- A period stays free of repetitions where a request to review again spares who was told. -/
theorem toldOnce_step (hp : ToldOnce authors p) (h : periodStep names countTokens p tx = some p') :
    ToldOnce authors p' ↔ SparesTold p tx := by
  rw [toldOnce_iff hp h]
  obtain ⟨st', hst', rfl⟩ := Option.map_eq_some_iff.1 h
  by_cases haction : ∃ docId, tx.action = .requestReReview docId
  · obtain ⟨docId, hact⟩ := haction
    exact tellsAnew_requestReReview_iff hact hst'
  · refine iff_of_true (tellsAnew_of_ne (not_exists.1 haction) hst') ?_
    unfold SparesTold
    split
    · next docId hact => exact absurd ⟨docId, hact⟩ haction
    · trivial

/-- In a run of transactions every pending period tells each reviewer of a document at most once
exactly when the requests to review again spare who was told. -/
theorem toldOnce_run_iff (names : Names) (countTokens : String → Nat) (hp : ToldOnce authors p)
    (txs : List (Transaction authors κ Vec)) :
    Visits (periodStep names countTokens) (ToldOnce authors) p txs ↔
      EveryStep (periodStep names countTokens) SparesTold p txs :=
  visits_iff_everyStep (fun _ _ _ hp h => toldOnce_step hp h) hp txs

end Steps

/-! ## Two requests in one period -/

/-- User 1 writes the documents, user 3 administers the system. -/
def administered : Organisation where
  users := [⟨1, .user⟩, ⟨3, .systemAdmin⟩]
  createdBy := ⟨fun _ => 1, fun _ => 1, fun _ => 1⟩
  ids_nodup := by decide

def unsubmitted : Period Nat :=
  { st := { tables :=
      { kbs := [{ id := 0, reviewRequired := true }]
        documents := [{ id := 1, knowledgeBaseId := 0 }]
        next := 2 } } }

def sampleNames : Names := ⟨fun _ => "title", fun _ => "base"⟩

/-- A transaction at a time that both clocks agree on. -/
def committedAt (time : Nat) (action : TableAction Unit) : Transaction administered.createdBy Nat Unit :=
  { action := action, now := time, startedAt := time, org := administered, createdBy_eq := rfl }

theorem toldOnce_unsubmitted : ToldOnce administered.createdBy unsubmitted := by
  intro docId userId _
  exact Nat.zero_le 1

/-- A document is submitted, rejected and sent to review again, which is another period. -/
def twoPeriods : List (Transaction administered.createdBy Nat Unit) :=
  [committedAt 5 (.submitForReview 1), committedAt 6 (.reject 1), committedAt 7 (.requestReReview 1)]

/-- The reviewer is told once in each of the periods. -/
theorem toldOnce_twoPeriods : (∃ p, runSteps (periodStep sampleNames String.length) unsubmitted twoPeriods =
      some p ∧ p.told 1 = [3] ∧ pendingTo 1 p.st.notifications = [3, 3]) ∧
    Visits (periodStep sampleNames String.length) (ToldOnce administered.createdBy) unsubmitted
      twoPeriods := by
  refine ⟨⟨_, rfl, by decide +kernel, by decide +kernel⟩, ?_⟩
  refine (toldOnce_run_iff sampleNames String.length toldOnce_unsubmitted _).2 ?_
  apply EveryStep.cons_of_eq rfl
  · trivial
  apply EveryStep.cons_of_eq rfl
  · trivial
  apply EveryStep.cons_of_eq rfl
  · intro doc hdoc hstatus
    cases hdoc
    cases hstatus
  trivial

/-- The document is submitted and then sent to review again while it is pending. -/
theorem repeated_requests_tell_twice : ∃ p, runSteps (periodStep sampleNames String.length) unsubmitted
    [committedAt 5 (.submitForReview 1), committedAt 6 (.requestReReview 1)] = some p ∧ p.told 1 = [3, 3] :=
  ⟨_, rfl, by decide +kernel⟩

theorem reviewer_told_twice : ¬ ∀ (authors : Authors) (names : Names) (countTokens : String → Nat)
    (p : Period Nat) (txs : List (Transaction authors Nat Unit)), ToldOnce authors p →
      Visits (periodStep names countTokens) (ToldOnce authors) p txs := by
  intro hall
  obtain ⟨p, hrun, htold⟩ := repeated_requests_tell_twice
  have honce := (hall _ sampleNames String.length unsubmitted _ toldOnce_unsubmitted).last hrun
  have hcount : (p.told 1).count 3 ≤ 1 := honce 1 3 (by decide)
  rw [htold] at hcount
  exact absurd hcount (by decide)

end OpsKnowledge.Review
