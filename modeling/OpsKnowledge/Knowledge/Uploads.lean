import Mathlib.Algebra.Order.BigOperators.Group.List
import Mathlib.Algebra.Order.Ring.Nat
import Mathlib.Data.List.Nodup
import OpsKnowledge.Lib.Loop
import OpsKnowledge.Lib.Table
import OpsKnowledge.Lib.Text
import OpsKnowledge.Lib.Transition

/-!
# Uploads and quotas

`DocumentService.upload_document` with its checks, and what archives, restores and deletes documents in
`document_router.py` and in the node `kb_archive_document`. The files themselves are elsewhere.
-/

namespace OpsKnowledge.Knowledge

open OpsKnowledge.Lib

/-- `quotas` of the system settings. -/
structure UploadQuotas where
  maxDocsPerKb : Nat := 500
  maxStoragePerKbBytes : Nat := 2 * 1024 * 1024 * 1024

structure UploadedDocument where
  id : Nat
  knowledgeBaseId : Nat
  title : String
  sourceType : String
  fileSize : Nat
  fileHash : String
  isArchived : Bool := false
  isStale : Bool := false
  staleSince : Option Nat := none

inductive UploadError where
  | docQuota (limit : Nat)
  | storageQuota (used limit : Nat)
  | unsupported (ext : String)
  | duplicate (title : String)
  deriving DecidableEq

def supportedTypes : List (String × String) :=
  [(".pdf", "pdf"), (".md", "markdown"), (".markdown", "markdown"), (".docx", "word"), (".doc", "word"),
    (".html", "html"), (".htm", "html"), (".txt", "txt"), (".csv", "csv"), (".pptx", "pptx"),
    (".xlsx", "xlsx")]

/-- The base name without control characters, cut to 200 characters; of an extension that is longer, the
excess is cut from the end of the stem. -/
def sanitizeFilename (filename : String) : String :=
  let name := (filename.toList.rtakeWhile (· ≠ '/')).filter fun c => 32 ≤ c.toNat ∧ c.toNat ≠ 127
  let ext := (extension (String.ofList name)).toList
  let stem := name.take (name.length - ext.length)
  let cut := if ext.length ≤ 200 then stem.take (200 - ext.length) else stem.rdrop (ext.length - 200)
  String.ofList (cut ++ ext)

def detectSourceType (special : String → Nat → List Char) (filename : String) :
    Except UploadError String :=
  let ext := extension (lower special filename)
  match supportedTypes.lookup ext with
  | some sourceType => .ok sourceType
  | none => .error (.unsupported ext)

/-- The documents of all bases; new ones take the next id. -/
structure DocumentTable where
  docs : List UploadedDocument
  nextId : Nat

inductive DocumentAction where
  | upload (kbId : Nat) (filename : String) (fileData : List UInt8)
  | batchUpload (kbId : Nat) (files : List (String × List UInt8))
  | toggleArchive (kbId docId : Nat) (archive : Bool)
  /-- The node of a workflow, which asks for no base. -/
  | archiveNode (docId : Nat) (archive : Bool)
  | delete (kbId docId : Nat)
  | batchDelete (kbId : Nat) (ids : List Nat)

/-- A document that counts in the checks. -/
def UploadedDocument.counts (kbId : Nat) (d : UploadedDocument) : Bool :=
  decide (d.knowledgeBaseId = kbId) && !d.isArchived

def UploadedDocument.file (d : UploadedDocument) : String × Nat := (d.fileHash, d.fileSize)

def UploadedDocument.setArchived (archive : Bool) (d : UploadedDocument) : UploadedDocument :=
  if archive then { d with isArchived := true }
  else { d with isArchived := false, isStale := false, staleSince := none }

namespace DocumentTable

variable (quotas : UploadQuotas) (computeFileHash : List UInt8 → String)
  (special : String → Nat → List Char) (s : DocumentTable)

/-- The hashes and sizes of the documents of a base that are not archived. -/
def files (kbId : Nat) : List (String × Nat) :=
  (s.docs.filter (UploadedDocument.counts kbId)).map UploadedDocument.file

def used (kbId : Nat) : Nat := ((s.files kbId).map Prod.snd).sum

def checkDocQuota (kbId : Nat) : Except UploadError Unit :=
  if quotas.maxDocsPerKb ≤ (s.files kbId).length then .error (.docQuota quotas.maxDocsPerKb) else .ok ()

def checkStorageQuota (kbId newSize : Nat) : Except UploadError Unit :=
  if quotas.maxStoragePerKbBytes < s.used kbId + newSize then
    .error (.storageQuota (s.used kbId) quotas.maxStoragePerKbBytes)
  else .ok ()

def uploadDocument (kbId : Nat) (filename : String) (fileData : List UInt8) :
    Except UploadError DocumentTable := do
  s.checkDocQuota quotas kbId
  s.checkStorageQuota quotas kbId fileData.length
  let safeName := sanitizeFilename filename
  let sourceType ← detectSourceType special safeName
  let fileHash := computeFileHash fileData
  match s.docs.find? fun d => d.counts kbId && decide (d.fileHash = fileHash) with
  | some existing => .error (.duplicate existing.title)
  | none =>
      .ok { docs := s.docs ++
              [{ id := s.nextId
                 knowledgeBaseId := kbId
                 title := safeName
                 sourceType := sourceType
                 fileSize := fileData.length
                 fileHash := fileHash }]
            nextId := s.nextId + 1 }

/-- Files that fail are skipped. -/
def batchUpload (kbId : Nat) (files : List (String × List UInt8)) : DocumentTable :=
  files.foldl
    (fun s file =>
      match s.uploadDocument quotas computeFileHash special kbId file.1 file.2 with
      | .ok s' => s'
      | .error _ => s)
    s

def archiveDocument (docId : Nat) (archive : Bool) : DocumentTable :=
  { s with docs := updateWhere (fun d => d.id = docId) (UploadedDocument.setArchived archive) s.docs }

def step (s : DocumentTable) : DocumentAction → Option DocumentTable
  | .upload kbId filename fileData =>
      (s.uploadDocument quotas computeFileHash special kbId filename fileData).toOption
  | .batchUpload kbId files => some (s.batchUpload quotas computeFileHash special kbId files)
  | .toggleArchive kbId docId archive =>
      if s.docs.any fun d => decide (d.id = docId ∧ d.knowledgeBaseId = kbId) then
        some (s.archiveDocument docId archive)
      else none
  | .archiveNode docId archive =>
      if s.docs.any fun d => d.id = docId then some (s.archiveDocument docId archive) else none
  | .delete kbId docId =>
      if s.docs.any fun d => decide (d.id = docId ∧ d.knowledgeBaseId = kbId) then
        some { s with docs := s.docs.filter fun d => d.id ≠ docId }
      else none
  | .batchDelete kbId ids =>
      if s.docs.any fun d => decide (d.id ∈ ids ∧ d.knowledgeBaseId = kbId) then
        some { s with docs := s.docs.filter fun d => ¬ (d.id ∈ ids ∧ d.knowledgeBaseId = kbId) }
      else none

/-! ## The property and the condition -/

/-- Distinct hashes, and both quotas are kept. -/
structure Fits (files : List (String × Nat)) : Prop where
  hashes : (files.map Prod.fst).Nodup
  count : files.length ≤ quotas.maxDocsPerKb
  size : (files.map Prod.snd).sum ≤ quotas.maxStoragePerKbBytes

def WithinQuotas : Prop := ∀ kbId, Fits quotas (s.files kbId)

/-- The document is new among those that count, and there is room for it. -/
def HasRoomFor (d : UploadedDocument) : Prop :=
  (∀ e ∈ s.docs, e.counts d.knowledgeBaseId = true → e.fileHash ≠ d.fileHash) ∧
    (s.files d.knowledgeBaseId).length < quotas.maxDocsPerKb ∧
    s.used d.knowledgeBaseId + d.fileSize ≤ quotas.maxStoragePerKbBytes

/-- A restore of an archived document finds room for it. -/
def RestoresFit (a : DocumentAction) : Prop :=
  match a with
  | .toggleArchive _ docId false | .archiveNode docId false =>
      ∀ d ∈ s.docs, d.id = docId → d.isArchived = true → s.HasRoomFor quotas d
  | _ => True

structure KeysFresh : Prop where
  nodup : (s.docs.map UploadedDocument.id).Nodup
  lt : ∀ d ∈ s.docs, d.id < s.nextId

variable {quotas : UploadQuotas} {computeFileHash : List UInt8 → String}
  {special : String → Nat → List Char} {s s' : DocumentTable} {kbId : Nat}

/-! ## Files within the quotas -/

section Fits

variable {files files' : List (String × Nat)} {file : String × Nat}

theorem Fits.sublist (h : Fits quotas files) (hsub : files'.Sublist files) : Fits quotas files' where
  hashes := h.hashes.sublist (hsub.map _)
  count := hsub.length_le.trans h.count
  size := (List.Sublist.sum_le_sum (hsub.map _) fun _ _ => Nat.zero_le _).trans h.size

theorem Fits.perm (h : Fits quotas files) (hperm : files.Perm files') : Fits quotas files' where
  hashes := (hperm.map _).nodup_iff.1 h.hashes
  count := by
    rw [← hperm.length_eq]
    exact h.count
  size := by
    rw [← (hperm.map _).sum_eq]
    exact h.size

/-- What one file more needs. -/
theorem Fits.cons_iff (h : Fits quotas files) : Fits quotas (file :: files) ↔
    file.1 ∉ files.map Prod.fst ∧ files.length < quotas.maxDocsPerKb ∧
      (files.map Prod.snd).sum + file.2 ≤ quotas.maxStoragePerKbBytes := by
  constructor
  · intro hcons
    have hsize := hcons.size
    rw [List.map_cons, List.sum_cons] at hsize
    exact ⟨(List.nodup_cons.1 hcons.hashes).1, hcons.count, by omega⟩
  · rintro ⟨hnew, hcount, hsize⟩
    refine ⟨List.nodup_cons.2 ⟨hnew, h.hashes⟩, hcount, ?_⟩
    rw [List.map_cons, List.sum_cons]
    omega

end Fits

theorem hash_not_mem_files_iff {hash : String} : hash ∉ (s.files kbId).map Prod.fst ↔
    ∀ e ∈ s.docs, e.counts kbId = true → e.fileHash ≠ hash := by
  unfold files
  rw [List.map_map, List.mem_map]
  constructor
  · intro h e he hcounts hsame
    exact h ⟨e, List.mem_filter.2 ⟨he, hcounts⟩, hsame⟩
  · rintro h ⟨e, he, hsame⟩
    exact h e (List.mem_filter.1 he).1 (List.mem_filter.1 he).2 hsame

/-- Where the files of the base of `d` become those and the file of `d`. -/
theorem withinQuotas_iff_of_perm (h : s.WithinQuotas quotas) {d : UploadedDocument}
    (hsame : ∀ k, k ≠ d.knowledgeBaseId → s'.files k = s.files k)
    (hperm : (s'.files d.knowledgeBaseId).Perm (d.file :: s.files d.knowledgeBaseId)) :
    s'.WithinQuotas quotas ↔ s.HasRoomFor quotas d := by
  have hroom : s.HasRoomFor quotas d ↔ Fits quotas (d.file :: s.files d.knowledgeBaseId) := by
    rw [(h d.knowledgeBaseId).cons_iff]
    exact and_congr_left' hash_not_mem_files_iff.symm
  rw [hroom]
  constructor
  · intro hwithin
    exact (hwithin d.knowledgeBaseId).perm hperm
  · intro hfits k
    by_cases hk : k = d.knowledgeBaseId
    · rw [hk]
      exact hfits.perm hperm.symm
    · rw [hsame k hk]
      exact h k

/-! ## Uploads -/

theorem checkDocQuota_eq_ok :
    s.checkDocQuota quotas kbId = .ok () ↔ (s.files kbId).length < quotas.maxDocsPerKb := by
  unfold checkDocQuota
  split
  · next hfull => exact iff_of_false (fun h => by cases h) (by omega)
  · next hroom => exact iff_of_true rfl (by omega)

theorem checkStorageQuota_eq_ok {newSize : Nat} :
    s.checkStorageQuota quotas kbId newSize = .ok () ↔
      s.used kbId + newSize ≤ quotas.maxStoragePerKbBytes := by
  unfold checkStorageQuota
  split
  · next hfull => exact iff_of_false (fun h => by cases h) (by omega)
  · next hroom => exact iff_of_true rfl (by omega)

theorem uploadDocument_eq_ok {filename : String} {fileData : List UInt8}
    (h : s.uploadDocument quotas computeFileHash special kbId filename fileData = .ok s') :
    ∃ d : UploadedDocument, d.id = s.nextId ∧ d.knowledgeBaseId = kbId ∧ d.isArchived = false ∧
      d.fileHash = computeFileHash fileData ∧ d.fileSize = fileData.length ∧ s.HasRoomFor quotas d ∧
      s' = { docs := s.docs ++ [d], nextId := s.nextId + 1 } := by
  unfold uploadDocument at h
  obtain ⟨⟨⟩, hcount, h⟩ := bind_eq_ok.1 h
  obtain ⟨⟨⟩, hsize, h⟩ := bind_eq_ok.1 h
  obtain ⟨sourceType, -, h⟩ := bind_eq_ok.1 h
  dsimp only at h
  cases hfind : s.docs.find? fun d => d.counts kbId && decide (d.fileHash = computeFileHash fileData) with
  | some existing =>
      rw [hfind] at h
      cases h
  | none =>
      rw [hfind] at h
      cases h
      refine ⟨_, rfl, rfl, rfl, rfl, rfl, ?_, rfl⟩
      refine ⟨?_, checkDocQuota_eq_ok.1 hcount, checkStorageQuota_eq_ok.1 hsize⟩
      intro e he hcounts hsame
      have hno := List.find?_eq_none.1 hfind e he
      apply hno
      rw [hcounts]
      exact decide_eq_true hsame

theorem uploadDocument_withinQuotas {filename : String} {fileData : List UInt8}
    (h : s.WithinQuotas quotas)
    (hs' : s.uploadDocument quotas computeFileHash special kbId filename fileData = .ok s') :
    s'.WithinQuotas quotas := by
  obtain ⟨d, -, -, hlive, -, -, hroom, rfl⟩ := uploadDocument_eq_ok hs'
  have hfiles : ∀ k, files { docs := s.docs ++ [d], nextId := s.nextId + 1 } k =
      s.files k ++ if d.knowledgeBaseId = k then [d.file] else [] := by
    intro k
    unfold files
    rw [List.filter_append, List.map_append]
    congr 1
    by_cases hk : d.knowledgeBaseId = k
    · simp [UploadedDocument.counts, hk, hlive]
    · simp [UploadedDocument.counts, hk]
  apply (withinQuotas_iff_of_perm h ?_ ?_).2 hroom
  · intro k hk
    rw [hfiles, if_neg (Ne.symm hk), List.append_nil]
  · rw [hfiles, if_pos rfl]
    exact List.perm_append_singleton _ _

theorem uploadDocument_keysFresh {filename : String} {fileData : List UInt8} (h : s.KeysFresh)
    (hs' : s.uploadDocument quotas computeFileHash special kbId filename fileData = .ok s') :
    s'.KeysFresh := by
  obtain ⟨d, hid, -, -, -, -, -, rfl⟩ := uploadDocument_eq_ok hs'
  constructor
  · apply nodup_keys_concat h.nodup
    intro e he
    rw [hid]
    exact (h.lt e he).ne
  · exact lt_next_of_mem_concat h.lt hid

/-- Uploads keep what holds of the table; a file that fails changes nothing. -/
theorem batchUpload_induction {P : DocumentTable → Prop}
    (hupload : ∀ s s' filename fileData, P s →
      s.uploadDocument quotas computeFileHash special kbId filename fileData = .ok s' → P s')
    (h : P s) (files : List (String × List UInt8)) :
    P (s.batchUpload quotas computeFileHash special kbId files) := by
  induction files generalizing s with
  | nil => exact h
  | cons file files ih =>
      apply ih
      dsimp only
      cases hresult : s.uploadDocument quotas computeFileHash special kbId file.1 file.2 with
      | ok s' => exact hupload s s' file.1 file.2 h hresult
      | error e => exact h

/-! ## Archives, restores and deletions -/

theorem setArchived_id (archive : Bool) (d : UploadedDocument) : (d.setArchived archive).id = d.id := by
  cases archive
  · rfl
  · rfl

theorem withinQuotas_of_sublist (h : s.WithinQuotas quotas)
    (hsub : ∀ k, (s'.files k).Sublist (s.files k)) : s'.WithinQuotas quotas :=
  fun k => (h k).sublist (hsub k)

theorem archiveDocument_withinQuotas (h : s.WithinQuotas quotas) (docId : Nat) :
    (s.archiveDocument docId true).WithinQuotas quotas := by
  apply withinQuotas_of_sublist h
  intro k
  unfold files archiveDocument
  rw [filter_updateWhere_of_out]
  · rw [← List.filter_filter]
    exact (List.filter_sublist.filter _).map _
  · intro d _ _
    simp [UploadedDocument.setArchived, UploadedDocument.counts]

/-- A restore keeps the quotas exactly if there is room for the document. -/
theorem restoreDocument_withinQuotas_iff (h : s.WithinQuotas quotas) (hkeys : s.KeysFresh)
    {d : UploadedDocument} (hd : d ∈ s.docs) :
    (s.archiveDocument d.id false).WithinQuotas quotas ↔
      ∀ e ∈ s.docs, e.id = d.id → e.isArchived = true → s.HasRoomFor quotas e := by
  have honly : (∀ e ∈ s.docs, e.id = d.id → e.isArchived = true → s.HasRoomFor quotas e) ↔
      (d.isArchived = true → s.HasRoomFor quotas d) := by
    constructor
    · intro hall
      exact hall d hd rfl
    · intro hroom e he hid
      rw [List.inj_on_of_nodup_map hkeys.nodup he hd hid]
      exact hroom
  rw [honly]
  -- what the restore does to the files that it does not bring back
  have hsame : ∀ k, (d.isArchived = true → k ≠ d.knowledgeBaseId) →
      (s.archiveDocument d.id false).files k = s.files k := by
    intro k hk
    apply map_filter_updateWhere
    intro e he hid
    obtain rfl := List.inj_on_of_nodup_map hkeys.nodup he hd (of_decide_eq_true hid)
    refine ⟨?_, rfl⟩
    cases harchived : e.isArchived with
    | false => simp [UploadedDocument.counts, UploadedDocument.setArchived, harchived]
    | true =>
        have hother := hk harchived
        simp [UploadedDocument.counts, UploadedDocument.setArchived, Ne.symm hother]
  cases harchived : d.isArchived with
  | false =>
      have hall : ∀ k, (s.archiveDocument d.id false).files k = s.files k := by
        intro k
        apply hsame
        intro htrue
        rw [harchived] at htrue
        cases htrue
      refine iff_of_true ?_ fun htrue => absurd htrue (by decide)
      intro k
      rw [hall]
      exact h k
  | true =>
      have hperm : ((s.archiveDocument d.id false).files d.knowledgeBaseId).Perm
          (d.file :: s.files d.knowledgeBaseId) := by
        have hrows := filter_updateWhere_key_perm (f := UploadedDocument.setArchived false)
          (p := UploadedDocument.counts d.knowledgeBaseId) hkeys.nodup hd
          (by simp [UploadedDocument.counts, harchived])
          (by simp [UploadedDocument.counts, UploadedDocument.setArchived])
        exact hrows.map UploadedDocument.file
      rw [withinQuotas_iff_of_perm h (fun k hk => hsame k fun _ => hk) hperm]
      exact ⟨fun hroom _ => hroom, fun hroom => hroom rfl⟩

theorem KeysFresh.archiveDocument (h : s.KeysFresh) (docId : Nat) (archive : Bool) :
    (s.archiveDocument docId archive).KeysFresh := by
  constructor
  · show (List.map UploadedDocument.id (updateWhere _ _ s.docs)).Nodup
    rw [map_updateWhere (setArchived_id archive)]
    exact h.nodup
  · intro d hd
    obtain ⟨e, he, rfl⟩ := mem_updateWhere.1 hd
    have hlt := h.lt e he
    split
    · rw [setArchived_id]
      exact hlt
    · exact hlt

theorem KeysFresh.filter (h : s.KeysFresh) (p : UploadedDocument → Bool) :
    KeysFresh { s with docs := s.docs.filter p } where
  nodup := h.nodup.sublist (List.filter_sublist.map _)
  lt d hd := h.lt d (List.mem_of_mem_filter hd)

theorem withinQuotas_filter (h : s.WithinQuotas quotas) (p : UploadedDocument → Bool) :
    WithinQuotas quotas { s with docs := s.docs.filter p } := by
  apply withinQuotas_of_sublist h
  intro k
  exact (List.filter_sublist.filter _).map _

/-! ## Runs -/

variable {a : DocumentAction}

theorem KeysFresh.step (h : s.KeysFresh) (hs' : s.step quotas computeFileHash special a = some s') :
    s'.KeysFresh := by
  cases a with
  | upload kbId filename fileData =>
      exact uploadDocument_keysFresh h (toOption_eq_some.1 hs')
  | batchUpload kbId files =>
      cases hs'
      exact batchUpload_induction (fun _ _ _ _ => uploadDocument_keysFresh) h files
  | toggleArchive kbId docId archive =>
      obtain ⟨-, ⟨⟩⟩ := Option.ite_none_right_eq_some.1 hs'
      exact h.archiveDocument docId archive
  | archiveNode docId archive =>
      obtain ⟨-, ⟨⟩⟩ := Option.ite_none_right_eq_some.1 hs'
      exact h.archiveDocument docId archive
  | delete kbId docId =>
      obtain ⟨-, ⟨⟩⟩ := Option.ite_none_right_eq_some.1 hs'
      exact h.filter _
  | batchDelete kbId ids =>
      obtain ⟨-, ⟨⟩⟩ := Option.ite_none_right_eq_some.1 hs'
      exact h.filter _

theorem withinQuotas_step_iff (hkeys : s.KeysFresh) (h : s.WithinQuotas quotas)
    (hs' : s.step quotas computeFileHash special a = some s') :
    s'.WithinQuotas quotas ↔ s.RestoresFit quotas a := by
  cases a with
  | upload kbId filename fileData =>
      exact iff_of_true (uploadDocument_withinQuotas h (toOption_eq_some.1 hs')) trivial
  | batchUpload kbId files =>
      cases hs'
      exact iff_of_true (batchUpload_induction (fun _ _ _ _ => uploadDocument_withinQuotas) h files) trivial
  | toggleArchive kbId docId archive =>
      obtain ⟨hany, ⟨⟩⟩ := Option.ite_none_right_eq_some.1 hs'
      obtain ⟨d, hd, hfound⟩ := List.any_eq_true.1 hany
      obtain ⟨rfl, -⟩ := of_decide_eq_true hfound
      cases archive with
      | true => exact iff_of_true (archiveDocument_withinQuotas h d.id) trivial
      | false => exact restoreDocument_withinQuotas_iff h hkeys hd
  | archiveNode docId archive =>
      obtain ⟨hany, ⟨⟩⟩ := Option.ite_none_right_eq_some.1 hs'
      obtain ⟨d, hd, hfound⟩ := List.any_eq_true.1 hany
      obtain rfl := of_decide_eq_true hfound
      cases archive with
      | true => exact iff_of_true (archiveDocument_withinQuotas h d.id) trivial
      | false => exact restoreDocument_withinQuotas_iff h hkeys hd
  | delete kbId docId =>
      obtain ⟨-, ⟨⟩⟩ := Option.ite_none_right_eq_some.1 hs'
      exact iff_of_true (withinQuotas_filter h _) trivial
  | batchDelete kbId ids =>
      obtain ⟨-, ⟨⟩⟩ := Option.ite_none_right_eq_some.1 hs'
      exact iff_of_true (withinQuotas_filter h _) trivial

/-- From a table without documents, hashes are distinct and the quotas are kept in every state of a run
exactly where each of its restores has room. -/
theorem withinQuotas_visits_iff (quotas : UploadQuotas) (computeFileHash : List UInt8 → String)
    (special : String → Nat → List Char) (actions : List DocumentAction) :
    Visits (step quotas computeFileHash special) (WithinQuotas quotas) { docs := [], nextId := 0 } actions ↔
      EveryStep (step quotas computeFileHash special) (RestoresFit quotas) { docs := [], nextId := 0 }
        actions := by
  have hempty : WithinQuotas quotas { docs := [], nextId := 0 } := fun _ =>
    ⟨List.nodup_nil, Nat.zero_le _, Nat.zero_le _⟩
  have hfresh : KeysFresh { docs := [], nextId := 0 } := by
    refine ⟨List.nodup_nil, ?_⟩
    intro d hd
    cases hd
  apply visits_iff_everyStep_of_inv (I := KeysFresh)
  · intro s a s' hkeys hstep
    exact hkeys.step hstep
  · intro s a s' hkeys hwithin hstep
    exact withinQuotas_step_iff hkeys hwithin hstep
  · exact hfresh
  · exact hempty

/-- A file that is archived, uploaded again and restored. -/
theorem restored_duplicate : ¬ ∀ (quotas : UploadQuotas) (computeFileHash : List UInt8 → String)
    (special : String → Nat → List Char) (actions : List DocumentAction),
      Visits (step quotas computeFileHash special) (WithinQuotas quotas) { docs := [], nextId := 0 }
        actions := by
  intro h
  have hrun : ∃ s, runSteps (step {} (fun _ => "h") fun _ _ => []) { docs := [], nextId := 0 }
      [.upload 1 "a.md" [65], .toggleArchive 1 0 true, .upload 1 "a.md" [65], .toggleArchive 1 0 false] =
        some s ∧ s.files 1 = [("h", 1), ("h", 1)] :=
    ⟨_, rfl, rfl⟩
  obtain ⟨s, hrun, hfiles⟩ := hrun
  have hfits := (h {} (fun _ => "h") (fun _ _ => []) _).last hrun 1
  have hhashes := hfits.hashes
  rw [hfiles] at hhashes
  exact absurd hhashes (by decide)

end DocumentTable

end OpsKnowledge.Knowledge
