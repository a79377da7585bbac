import Mathlib.Data.Prod.Lex
import OpsKnowledge.Lib.Closure
import OpsKnowledge.Lib.Forest
import OpsKnowledge.Lib.OrderBy
import OpsKnowledge.Lib.Transition

/-!
# Folders

`FolderService` and its endpoints. Bodies have passed their schemas; the caller may edit the base that
the path names, which no endpoint compares with the folder's. `nameRank` is the place of a folder among
those of its position.
-/

namespace OpsKnowledge.Knowledge

open OpsKnowledge.Lib
open Relation (ReflTransGen)

structure Folder where
  id : Nat
  knowledgeBaseId : Nat
  name : String
  parentFolderId : Option Nat
  position : Int
  createdAt : Nat

structure FolderCreate where
  name : String
  parentFolderId : Option Nat := none
  position : Int := 0

/-- A field is absent, null or has a value. -/
structure FolderUpdate where
  name : Option (Option String) := none
  parentFolderId : Option (Option Nat) := none
  position : Option (Option Int) := none

abbrev FolderTreeResponse := RowTree Folder

structure FolderTable where
  folders : List Folder
  nextId : Nat

inductive FolderAction where
  | create (kbId : Nat) (data : FolderCreate) (now : Nat)
  | update (folderId : Nat) (data : FolderUpdate)
  | delete (folderId : Nat)

/-- `setattr` for the fields of `data` that are set; the columns `name` and `position` take no null. -/
def Folder.apply (f : Folder) (data : FolderUpdate) : Option Folder :=
  (data.name.getD (some f.name)).bind fun name =>
    (data.position.getD (some f.position)).map fun position =>
      { f with
        name := name
        parentFolderId := data.parentFolderId.getD f.parentFolderId
        position := position }

namespace FolderTable

variable (s : FolderTable)

def getFolder (folderId : Nat) : Option Folder := s.folders.find? fun f => f.id = folderId

def createFolder (kbId : Nat) (data : FolderCreate) (now : Nat) : Option FolderTable :=
  if data.parentFolderId.all fun p => (s.getFolder p).any fun parent => parent.knowledgeBaseId = kbId then
    some
      { folders := s.folders ++
          [{ id := s.nextId
             knowledgeBaseId := kbId
             name := data.name
             parentFolderId := data.parentFolderId
             position := data.position
             createdAt := now }]
        nextId := s.nextId + 1 }
  else none

/-- The database asks that a new parent exists. -/
def updateFolder (folderId : Nat) (data : FolderUpdate) : Option FolderTable :=
  (s.getFolder folderId).bind fun folder =>
    (folder.apply data).bind fun updated =>
      if updated.parentFolderId.all fun p => (s.getFolder p).isSome then
        some { s with folders := replaceRow Folder.id updated s.folders }
      else none

def childrenOf (pending : List Nat) : List Nat :=
  (s.folders.filter fun f => f.parentFolderId.any (· ∈ pending)).map Folder.id

/-- The deletion cascades to all folders below. -/
def deleteFolder (folderId : Nat) : Option FolderTable :=
  (s.getFolder folderId).bind fun folder =>
    match whileLoop (fun st => !st.pending.isEmpty)
        (fun st => (.ok (st.expand s.childrenOf) : Except Empty _)) (s.folders.length + 1)
        (Frontier.start [folder.id]) with
    | some (.ok st) => some { s with folders := s.folders.filter fun f => f.id ∉ st.seen }
    | _ => none

def step (s : FolderTable) : FolderAction → Option FolderTable
  | .create kbId data now => s.createFolder kbId data now
  | .update folderId data => s.updateFolder folderId data
  | .delete folderId => s.deleteFolder folderId

/-- Each folder hangs below its parent, if that is one of the base, and at the top otherwise. -/
def getFolderTree (nameRank : Folder → Nat) (kbId : Nat) : List FolderTreeResponse :=
  forest Folder.id Folder.parentFolderId
    (orderBy (fun f => toLex (f.position, nameRank f)) (s.folders.filter fun f => f.knowledgeBaseId = kbId))

/-! ## The property and the condition -/

/-- The parent of a folder, by id. -/
def parentOf : Nat → Option Nat := pointers Folder.id Folder.parentFolderId s.folders

/-- Parents are in the base of their children, and no folder is above itself. -/
structure IsForest : Prop where
  inside : ∀ f ∈ s.folders, ∀ p ∈ f.parentFolderId,
    ∃ parent ∈ s.folders, parent.id = p ∧ parent.knowledgeBaseId = f.knowledgeBaseId
  acyclic : Acyclic (PointsTo s.parentOf)

/-- The folders are a forest in each base, and each listing has the folders of its base once. -/
def ListsForest (nameRank : Folder → Nat) : Prop :=
  s.IsForest ∧ ∀ kbId, (rowsOfAll (s.getFolderTree nameRank kbId)).Perm
    (s.folders.filter fun f => f.knowledgeBaseId = kbId)

/-- A folder is only moved below a folder of its base that is neither itself nor below it. -/
def MovesInside (a : FolderAction) : Prop :=
  match a with
  | .update folderId data =>
      ∀ p, data.parentFolderId = some (some p) → ∀ f ∈ s.folders, f.id = folderId →
        (∀ g ∈ s.folders, g.id = p → g.knowledgeBaseId = f.knowledgeBaseId) ∧
          ¬ ReflTransGen (PointsTo s.parentOf) p folderId
  | _ => True

structure KeysFresh : Prop where
  nodup : (s.folders.map Folder.id).Nodup
  lt : ∀ f ∈ s.folders, f.id < s.nextId

variable {s s' : FolderTable} {folderId : Nat}

/-! ## The listing -/

/-- Without cycles a listing has every folder of its base once. -/
theorem getFolderTree_perm (hkeys : s.KeysFresh) (h : s.IsForest) (nameRank : Folder → Nat) (kbId : Nat) :
    (rowsOfAll (s.getFolderTree nameRank kbId)).Perm
      (s.folders.filter fun f => f.knowledgeBaseId = kbId) := by
  have hperm := orderBy_perm (fun f : Folder => toLex (f.position, nameRank f))
    (s.folders.filter fun f => f.knowledgeBaseId = kbId)
  have hnodup : ((orderBy (fun f : Folder => toLex (f.position, nameRank f))
      (s.folders.filter fun f => f.knowledgeBaseId = kbId)).map Folder.id).Nodup := by
    rw [(hperm.map Folder.id).nodup_iff]
    exact hkeys.nodup.sublist (List.filter_sublist.map _)
  refine (rows_forest_perm hnodup ?_).trans hperm
  apply acyclic_pointers_subset hkeys.nodup hnodup h.acyclic
  intro f hf
  exact List.mem_of_mem_filter (hperm.mem_iff.1 hf)

theorem listsForest_iff (hkeys : s.KeysFresh) (nameRank : Folder → Nat) :
    s.ListsForest nameRank ↔ s.IsForest := by
  constructor
  · intro h
    exact h.1
  · intro h
    exact ⟨h, getFolderTree_perm hkeys h nameRank⟩

/-! ## Operations -/

theorem getFolder_eq_some_iff (hkeys : s.KeysFresh) {f : Folder} :
    s.getFolder folderId = some f ↔ f ∈ s.folders ∧ f.id = folderId :=
  find?_key_iff hkeys.nodup

theorem createFolder_eq_some {kbId now : Nat} {data : FolderCreate} (hkeys : s.KeysFresh)
    (h : s.createFolder kbId data now = some s') : ∃ f : Folder, f.id = s.nextId ∧
      (∀ p ∈ f.parentFolderId, ∃ parent ∈ s.folders, parent.id = p ∧
        parent.knowledgeBaseId = f.knowledgeBaseId) ∧
      s' = { folders := s.folders ++ [f], nextId := s.nextId + 1 } := by
  obtain ⟨hparent, ⟨⟩⟩ := Option.ite_none_right_eq_some.1 h
  refine ⟨_, rfl, ?_, rfl⟩
  intro p hp
  have hany := (Option.all_eq_true _ _).1 hparent p hp
  obtain ⟨parent, hfind, hkb⟩ := (Option.any_eq_true _ _).1 hany
  obtain ⟨hmem, hid⟩ := (getFolder_eq_some_iff hkeys).1 hfind
  exact ⟨parent, hmem, hid, of_decide_eq_true hkb⟩

theorem apply_eq_some {f updated : Folder} {data : FolderUpdate} (h : f.apply data = some updated) :
    updated.id = f.id ∧ updated.knowledgeBaseId = f.knowledgeBaseId ∧
      updated.parentFolderId = data.parentFolderId.getD f.parentFolderId := by
  obtain ⟨name, -, h⟩ := Option.bind_eq_some_iff.1 h
  obtain ⟨position, -, rfl⟩ := Option.map_eq_some_iff.1 h
  exact ⟨rfl, rfl, rfl⟩

theorem updateFolder_eq_some {data : FolderUpdate} (hkeys : s.KeysFresh)
    (h : s.updateFolder folderId data = some s') : ∃ f ∈ s.folders, f.id = folderId ∧
      ∃ updated : Folder, updated.id = f.id ∧ updated.knowledgeBaseId = f.knowledgeBaseId ∧
        updated.parentFolderId = data.parentFolderId.getD f.parentFolderId ∧
        (∀ p ∈ updated.parentFolderId, ∃ g ∈ s.folders, g.id = p) ∧
        s' = { s with folders := replaceRow Folder.id updated s.folders } := by
  obtain ⟨f, hfind, h⟩ := Option.bind_eq_some_iff.1 h
  obtain ⟨hf, hid⟩ := (getFolder_eq_some_iff hkeys).1 hfind
  obtain ⟨updated, happly, h⟩ := Option.bind_eq_some_iff.1 h
  obtain ⟨hparent, ⟨⟩⟩ := Option.ite_none_right_eq_some.1 h
  obtain ⟨hsame, hkb, hnew⟩ := apply_eq_some happly
  refine ⟨f, hf, hid, updated, hsame, hkb, hnew, ?_, rfl⟩
  intro p hp
  obtain ⟨g, hg⟩ := Option.isSome_iff_exists.1 ((Option.all_eq_true _ _).1 hparent p hp)
  exact ⟨g, (getFolder_eq_some_iff hkeys).1 hg⟩

/-- A deletion takes with a folder all whose parent it takes. -/
theorem deleteFolder_eq_some (h : s.deleteFolder folderId = some s') : ∃ gone : Finset Nat,
    (∀ f ∈ s.folders, ∀ p ∈ f.parentFolderId, p ∈ gone → f.id ∈ gone) ∧
      s' = { s with folders := s.folders.filter fun f => f.id ∉ gone } := by
  obtain ⟨folder, -, h⟩ := Option.bind_eq_some_iff.1 h
  let R : Nat → Nat → Prop := fun p c => ∃ f ∈ s.folders, f.parentFolderId = some p ∧ f.id = c
  have hnext : ∀ ps c, c ∈ s.childrenOf ps ↔ ∃ p ∈ ps, R p c := by
    intro ps c
    unfold childrenOf
    rw [List.mem_map]
    constructor
    · rintro ⟨f, hf, rfl⟩
      obtain ⟨hmem, hany⟩ := List.mem_filter.1 hf
      obtain ⟨p, hp, hps⟩ := (Option.any_eq_true _ _).1 hany
      exact ⟨p, of_decide_eq_true hps, f, hmem, hp, rfl⟩
    · rintro ⟨p, hps, f, hmem, hp, rfl⟩
      refine ⟨f, List.mem_filter.2 ⟨hmem, ?_⟩, rfl⟩
      rw [hp]
      exact decide_eq_true hps
  have huniv : ∀ ps, ∀ c ∈ s.childrenOf ps, c ∈ (s.folders.map Folder.id).toFinset := by
    intro ps c hc
    obtain ⟨f, hf, rfl⟩ := List.mem_map.1 hc
    exact List.mem_toFinset.2 (List.mem_map_of_mem (List.mem_of_mem_filter hf))
  have hfuel : (s.folders.map Folder.id).toFinset.card + 1 ≤ s.folders.length + 1 := by
    have hcard := List.toFinset_card_le (s.folders.map Folder.id)
    rw [List.length_map] at hcard
    omega
  obtain ⟨st, hrun, hseen⟩ := Frontier.closure_spec (ε := Empty) R [folder.id] hnext huniv hfuel
  rw [hrun] at h
  cases h
  refine ⟨st.seen, ?_, rfl⟩
  intro f hf p hp hgone
  obtain ⟨start, hstart, hpath⟩ := (hseen p).1 hgone
  exact (hseen f.id).2 ⟨start, hstart, hpath.tail ⟨f, hf, hp, rfl⟩⟩

/-! ## Steps -/

theorem KeysFresh.step {a : FolderAction} (h : s.KeysFresh) (hs' : s.step a = some s') :
    s'.KeysFresh := by
  cases a with
  | create kbId data now =>
      obtain ⟨f, hid, -, rfl⟩ := createFolder_eq_some h hs'
      constructor
      · apply nodup_keys_concat h.nodup
        intro g hg
        rw [hid]
        exact (h.lt g hg).ne
      · exact lt_next_of_mem_concat h.lt hid
  | update folderId data =>
      obtain ⟨f, hf, -, updated, hsame, -, -, -, rfl⟩ := updateFolder_eq_some h hs'
      constructor
      · show ((replaceRow Folder.id updated s.folders).map Folder.id).Nodup
        rw [map_key_replaceRow]
        exact h.nodup
      · intro g hg
        rcases (mem_replaceRow hf hsame.symm).1 hg with rfl | ⟨hold, -⟩
        · rw [hsame]
          exact h.lt f hf
        · exact h.lt g hold
  | delete folderId =>
      obtain ⟨gone, -, rfl⟩ := deleteFolder_eq_some hs'
      constructor
      · exact h.nodup.sublist (List.filter_sublist.map _)
      · intro f hf
        exact h.lt f (List.mem_of_mem_filter hf)

/-- A new folder has nothing below it. -/
theorem IsForest.concat (hkeys : s.KeysFresh) (h : s.IsForest) {f : Folder} (hid : f.id = s.nextId)
    (hparent : ∀ p ∈ f.parentFolderId, ∃ parent ∈ s.folders, parent.id = p ∧
      parent.knowledgeBaseId = f.knowledgeBaseId) :
    IsForest { folders := s.folders ++ [f], nextId := s.nextId + 1 } := by
  have hnew : f.id ∉ s.folders.map Folder.id := by
    intro hmem
    obtain ⟨g, hg, hsame⟩ := List.mem_map.1 hmem
    have hlt := hkeys.lt g hg
    omega
  constructor
  · intro g hg p hp
    rcases mem_concat.1 hg with hg | rfl
    · obtain ⟨parent, hmem, hrest⟩ := h.inside g hg p hp
      exact ⟨parent, List.mem_append_left _ hmem, hrest⟩
    · obtain ⟨parent, hmem, hrest⟩ := hparent p hp
      exact ⟨parent, List.mem_append_left _ hmem, hrest⟩
  · show Acyclic (PointsTo (pointers Folder.id Folder.parentFolderId (s.folders ++ [f])))
    rw [pointers_concat hnew]
    cases hp : f.parentFolderId with
    | none => exact acyclic_update_none h.acyclic
    | some p =>
        apply (acyclic_update_iff h.acyclic).2
        intro hpath
        obtain ⟨parent, hmem, rfl, -⟩ := hparent p hp
        rcases hpath.cases_tail with heq | ⟨x, -, hx⟩
        · exact hnew (heq ▸ List.mem_map_of_mem hmem)
        · obtain ⟨g, hg, -, hgp⟩ := (pointers_eq_some_iff hkeys.nodup).1 hx
          obtain ⟨target, htarget, htid, -⟩ := h.inside g hg f.id hgp
          exact hnew (htid ▸ List.mem_map_of_mem htarget)

/-- What an update needs. -/
theorem IsForest.replaceRow_iff (hkeys : s.KeysFresh) (h : s.IsForest) {f updated : Folder}
    {parent : Option (Option Nat)} (hf : f ∈ s.folders) (hid : updated.id = f.id)
    (hkb : updated.knowledgeBaseId = f.knowledgeBaseId)
    (hparent : updated.parentFolderId = parent.getD f.parentFolderId)
    (hexists : ∀ p ∈ updated.parentFolderId, ∃ g ∈ s.folders, g.id = p) :
    IsForest { s with folders := replaceRow Folder.id updated s.folders } ↔
      ∀ p, parent = some (some p) →
        (∀ g ∈ s.folders, g.id = p → g.knowledgeBaseId = f.knowledgeBaseId) ∧
          ¬ ReflTransGen (PointsTo s.parentOf) p f.id := by
  have hrow : ∀ g, g ∈ replaceRow Folder.id updated s.folders ↔
      g = updated ∨ g ∈ s.folders ∧ g.id ≠ updated.id := fun g => mem_replaceRow hf hid.symm
  -- a folder keeps its id and its base
  have hkept : ∀ g ∈ s.folders, ∃ g' ∈ replaceRow Folder.id updated s.folders, g'.id = g.id ∧
      g'.knowledgeBaseId = g.knowledgeBaseId := by
    intro g hg
    by_cases hsame : g.id = updated.id
    · have heq := List.inj_on_of_nodup_map hkeys.nodup hg hf (hsame.trans hid)
      exact ⟨updated, (hrow _).2 (.inl rfl), hsame.symm, by rw [hkb, heq]⟩
    · exact ⟨g, (hrow _).2 (.inr ⟨hg, hsame⟩), rfl, rfl⟩
  have hback : ∀ g' ∈ replaceRow Folder.id updated s.folders, ∃ g ∈ s.folders, g.id = g'.id ∧
      g.knowledgeBaseId = g'.knowledgeBaseId := by
    intro g' hg'
    rcases (hrow g').1 hg' with rfl | ⟨hold, -⟩
    · exact ⟨f, hf, hid.symm, hkb.symm⟩
    · exact ⟨g', hold, rfl, rfl⟩
  have hinside : (∀ g ∈ replaceRow Folder.id updated s.folders, ∀ p ∈ g.parentFolderId,
      ∃ t ∈ replaceRow Folder.id updated s.folders, t.id = p ∧ t.knowledgeBaseId = g.knowledgeBaseId) ↔
      ∀ p ∈ updated.parentFolderId, ∃ t ∈ s.folders, t.id = p ∧ t.knowledgeBaseId = f.knowledgeBaseId := by
    constructor
    · intro hall p hp
      obtain ⟨t', ht', htp, htkb⟩ := hall updated ((hrow _).2 (.inl rfl)) p hp
      obtain ⟨t, ht, htid, hkb'⟩ := hback t' ht'
      exact ⟨t, ht, htid.trans htp, hkb'.trans (htkb.trans hkb)⟩
    · intro hnew g hg p hp
      have hold : ∃ t ∈ s.folders, t.id = p ∧ t.knowledgeBaseId = g.knowledgeBaseId := by
        rcases (hrow g).1 hg with rfl | ⟨hold, -⟩
        · obtain ⟨t, ht, htp, htkb⟩ := hnew p hp
          exact ⟨t, ht, htp, htkb.trans hkb.symm⟩
        · exact h.inside g hold p hp
      obtain ⟨t, ht, htp, htkb⟩ := hold
      obtain ⟨t', ht', htid, hkb'⟩ := hkept t ht
      exact ⟨t', ht', htid.trans htp, hkb'.trans htkb⟩
  have hpointers : pointers Folder.id Folder.parentFolderId (replaceRow Folder.id updated s.folders) =
      Function.update s.parentOf f.id updated.parentFolderId := by
    rw [pointers_replaceRow hkeys.nodup hf hid.symm, hid]
    rfl
  have hforest : IsForest { s with folders := replaceRow Folder.id updated s.folders } ↔
      (∀ p ∈ updated.parentFolderId, ∃ t ∈ s.folders, t.id = p ∧ t.knowledgeBaseId = f.knowledgeBaseId) ∧
        Acyclic (PointsTo (Function.update s.parentOf f.id updated.parentFolderId)) := by
    rw [← hinside, ← hpointers]
    exact ⟨fun hall => ⟨hall.inside, hall.acyclic⟩, fun hall => ⟨hall.1, hall.2⟩⟩
  rw [hforest, hparent]
  cases parent with
  | none =>
      -- the parent stays
      have hsame : Function.update s.parentOf f.id f.parentFolderId = s.parentOf := by
        apply Function.update_eq_self_iff.2
        apply Option.ext
        intro q
        unfold parentOf
        rw [pointers_eq_some_iff hkeys.nodup]
        constructor
        · intro hq
          exact ⟨f, hf, rfl, hq⟩
        · rintro ⟨g, hg, hgid, hq⟩
          rwa [← List.inj_on_of_nodup_map hkeys.nodup hg hf hgid]
      refine iff_of_true ⟨h.inside f hf, ?_⟩ ?_
      · show Acyclic (PointsTo (Function.update s.parentOf f.id f.parentFolderId))
        rw [hsame]
        exact h.acyclic
      · intro p hp
        cases hp
  | some parent =>
      cases parent with
      | none =>
          refine iff_of_true ⟨?_, acyclic_update_none h.acyclic⟩ ?_
          · intro p hp
            cases hp
          · intro p hp
            cases hp
      | some p =>
          show (∀ q ∈ some p, _) ∧ Acyclic (PointsTo (Function.update s.parentOf f.id (some p))) ↔ _
          rw [acyclic_update_iff h.acyclic]
          constructor
          · rintro ⟨hnew, hout⟩ q hq
            cases hq
            refine ⟨?_, hout⟩
            intro g hg hgp
            obtain ⟨t, ht, htp, htkb⟩ := hnew p rfl
            rw [List.inj_on_of_nodup_map hkeys.nodup hg ht (hgp.trans htp.symm)]
            exact htkb
          · intro hall
            obtain ⟨hkb', hout⟩ := hall p rfl
            refine ⟨?_, hout⟩
            intro q hq
            cases hq
            obtain ⟨g, hg, hgp⟩ := hexists p (by rw [hparent]; rfl)
            exact ⟨g, hg, hgp, hkb' g hg hgp⟩

theorem isForest_step_iff {a : FolderAction} (hkeys : s.KeysFresh) (h : s.IsForest)
    (hs' : s.step a = some s') : s'.IsForest ↔ s.MovesInside a := by
  cases a with
  | create kbId data now =>
      obtain ⟨f, hid, hparent, rfl⟩ := createFolder_eq_some hkeys hs'
      exact iff_of_true (h.concat hkeys hid hparent) trivial
  | update folderId data =>
      obtain ⟨f, hf, rfl, updated, hsame, hkb, hparent, hexists, rfl⟩ := updateFolder_eq_some hkeys hs'
      rw [h.replaceRow_iff hkeys hf hsame hkb hparent hexists]
      constructor
      · intro hall p hp g hg hgid
        rw [List.inj_on_of_nodup_map hkeys.nodup hg hf hgid]
        exact hall p hp
      · intro hmoves p hp
        exact hmoves p hp f hf rfl
  | delete folderId =>
      obtain ⟨gone, hdown, rfl⟩ := deleteFolder_eq_some hs'
      refine iff_of_true ⟨?_, ?_⟩ trivial
      · intro f hf p hp
        obtain ⟨hmem, hkept⟩ := List.mem_filter.1 hf
        obtain ⟨parent, hparent, hid, hkb⟩ := h.inside f hmem p hp
        refine ⟨parent, List.mem_filter.2 ⟨hparent, ?_⟩, hid, hkb⟩
        apply decide_eq_true
        intro hgone
        exact of_decide_eq_true hkept (hdown f hmem p hp (hid ▸ hgone))
      · exact acyclic_pointers_subset hkeys.nodup (hkeys.nodup.sublist (List.filter_sublist.map _)) h.acyclic
          List.filter_sublist.subset

/-! ## Runs -/

/-- From a table without folders, the folders of every base are a forest that its listing shows once, in
every state of a run exactly where each move stays in the base and outside the subtree of its folder. -/
theorem listsForest_visits_iff (nameRank : Folder → Nat) (actions : List FolderAction) :
    Visits step (fun s => ListsForest s nameRank) { folders := [], nextId := 0 } actions ↔
      EveryStep step MovesInside { folders := [], nextId := 0 } actions := by
  have hkeys : KeysFresh { folders := [], nextId := 0 } := by
    refine ⟨List.nodup_nil, ?_⟩
    intro f hf
    cases hf
  have hforest : IsForest { folders := [], nextId := 0 } := by
    constructor
    · intro f hf
      cases hf
    · apply acyclic_of_rank fun _ => 0
      intro p q hpq
      cases hpq
  apply visits_iff_everyStep_of_inv (I := KeysFresh)
  · intro s a s' hkeys hstep
    exact hkeys.step hstep
  · intro s a s' hkeys hlists hstep
    rw [listsForest_iff (hkeys.step hstep)]
    exact isForest_step_iff hkeys hlists.1 hstep
  · exact hkeys
  · exact (listsForest_iff hkeys nameRank).2 hforest

/-- A folder that is moved below its child disappears from the listing with it. -/
theorem moved_below_child : ¬ ∀ (nameRank : Folder → Nat) (actions : List FolderAction),
    Visits step (fun s => ListsForest s nameRank) { folders := [], nextId := 0 } actions := by
  intro h
  have hrun : ∃ s, runSteps step { folders := [], nextId := 0 }
      [.create 1 { name := "a" } 0, .create 1 { name := "b", parentFolderId := some 0 } 0,
        .update 0 { parentFolderId := some (some 1) }] = some s ∧
        (rowsOfAll (s.getFolderTree (fun _ => 0) 1)).length = 0 ∧
        (s.folders.filter fun f => f.knowledgeBaseId = 1).length = 2 :=
    ⟨_, rfl, rfl, rfl⟩
  obtain ⟨s, hrun, hlisted, hthere⟩ := hrun
  have hlists := (h (fun _ => 0) _).last hrun
  have hlength := (hlists.2 1).length_eq
  omega

end FolderTable

end OpsKnowledge.Knowledge
