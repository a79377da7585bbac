import OpsKnowledge.Lib.Lifetime
import OpsKnowledge.Lib.Rely
import OpsKnowledge.Lib.Text
import OpsKnowledge.Lib.Transition

/-!
# The consistency scan and the collections

`consistency_scan` lists the collections, then reads the knowledge bases that are not being
deleted, and drops one by one the collections whose name starts with `kb_` and belongs to none of
them. Bases are created and deleted meanwhile, embedded and reindexed; a reindex builds a
collection under a name of its own and renames it.
-/

namespace OpsKnowledge.Milvus

open OpsKnowledge.Lib

/-- A `uuid.UUID` by its canonical text. -/
structure Uuid where
  text : String
  length : text.toList.length = 36
  plain : '_' ∉ text.toList
  deriving DecidableEq

/-- `replace('-', '_')` on a character. -/
def underscored (c : Char) : Char := if c = '-' then '_' else c

def kbCollectionName (kbId : Uuid) : String :=
  "kb_" ++ String.ofList (kbId.text.toList.map underscored)

/-- The collection that a reindex builds. -/
def newCollectionName (kbId : Uuid) : String := kbCollectionName kbId ++ "_new"

structure KbRow where
  id : Uuid
  /-- `KBStatus.DELETING` -/
  deleting : Bool := false

/-- The rows of the knowledge bases and the names in Milvus. -/
structure Catalog where
  kbs : List KbRow := []
  /-- Every id that a base has had: a UUID is not drawn twice. -/
  issued : List Uuid := []
  collections : List String := []

/-- `building` from `create_collection` until the old collection is dropped. -/
inductive RebuildPhase where
  | started
  | building
  | dropped
  deriving DecidableEq

/-- `reindex_kb` after its first session, with the batches that it has still to store. -/
structure Rebuild where
  kbId : Uuid
  batches : Nat
  phase : RebuildPhase := .started

inductive CascadePhase where
  | started
  | dropped

/-- `cascade_delete_kb` -/
structure Cascade where
  kbId : Uuid
  phase : CascadePhase := .started

inductive ScanPhase where
  | started
  | listed (existing : List String)
  | dropping (existing : List String) (activeNames : List String)

/-- The part of `consistency_scan` that is about collections. -/
structure Scan where
  phase : ScanPhase := .started

inductive CatalogTask where
  /-- `embed_unit_chunks`, which creates the collection of its base. -/
  | embed (kbId : Uuid)
  | reindex (r : Rebuild)
  | cascade (d : Cascade)
  | scan (sc : Scan)

structure CatalogState extends Catalog where
  tasks : List CatalogTask := []

inductive CatalogAction where
  | createKb (kbId : Uuid)
  | markDeleting (kbId : Uuid)
  | startEmbed (kbId : Uuid)
  | startReindex (kbId : Uuid) (batches : Nat)
  | startCascade (kbId : Uuid)
  | startScan
  /-- The next statement of a task. -/
  | advance (k : Nat)
  /-- A task raises, and runs its handlers; a scan whose drop raises goes on. -/
  | fail (k : Nat)
  | kill (k : Nat)

namespace Catalog

variable (cat : Catalog)

def create (name : String) : Catalog :=
  { cat with collections := if name ∈ cat.collections then cat.collections else cat.collections ++ [name] }

def drop (name : String) : Catalog :=
  { cat with collections := cat.collections.filter (· ≠ name) }

/-- The names of the bases with `status != DELETING`. -/
def activeNames : List String :=
  (cat.kbs.filter fun kb => !kb.deleting).map fun kb => kbCollectionName kb.id

def deleteKb (kbId : Uuid) : Catalog := { cat with kbs := cat.kbs.filter fun kb => kb.id ≠ kbId }

end Catalog

/-! ## The tasks, statement by statement -/

/-- What a reindex does when it raises before its swap is over. -/
def Rebuild.cleanup (r : Rebuild) (cat : Catalog) : Catalog := cat.drop (newCollectionName r.kbId)

def Rebuild.advance (r : Rebuild) (cat : Catalog) : Catalog × Option CatalogTask :=
  match r.phase with
  | .started => (cat.create (newCollectionName r.kbId), some (.reindex { r with phase := .building }))
  | .building =>
    match r.batches with
    | 0 => (cat.drop (kbCollectionName r.kbId), some (.reindex { r with phase := .dropped }))
    | n + 1 =>
      -- without its collection an upsert raises
      if newCollectionName r.kbId ∈ cat.collections then (cat, some (.reindex { r with batches := n }))
      else (r.cleanup cat, none)
  | .dropped =>
    if newCollectionName r.kbId ∈ cat.collections ∧ kbCollectionName r.kbId ∉ cat.collections then
      ((cat.drop (newCollectionName r.kbId)).create (kbCollectionName r.kbId), none)
    else (r.cleanup cat, none)

def Cascade.advance (d : Cascade) (cat : Catalog) : Catalog × Option CatalogTask :=
  match d.phase with
  | .started => (cat.drop (kbCollectionName d.kbId), some (.cascade { d with phase := .dropped }))
  | .dropped => (cat.deleteKb d.kbId, none)

/-- Whether the scan takes a collection for an orphan. -/
def isOrphan (activeNames : List String) (name : String) : Bool :=
  startsWith "kb_" name && name ∉ activeNames

def Scan.advance (sc : Scan) (cat : Catalog) : Catalog × Option CatalogTask :=
  match sc.phase with
  | .started => (cat, some (.scan { phase := .listed cat.collections }))
  | .listed existing => (cat, some (.scan { phase := .dropping existing cat.activeNames }))
  | .dropping [] _ => (cat, none)
  | .dropping (name :: existing) activeNames =>
    (if isOrphan activeNames name then cat.drop name else cat,
      some (.scan { phase := .dropping existing activeNames }))

def CatalogTask.advance : CatalogTask → Catalog → Catalog × Option CatalogTask
  | .embed kbId, cat => (cat.create (kbCollectionName kbId), none)
  | .reindex r, cat => r.advance cat
  | .cascade d, cat => d.advance cat
  | .scan sc, cat => sc.advance cat

/-- A drop that raises is passed over; any other exception ends the part of the scan. -/
def Scan.fail (sc : Scan) : Option CatalogTask :=
  match sc.phase with
  | .dropping (_ :: existing) activeNames => some (.scan { phase := .dropping existing activeNames })
  | _ => none

/-- The `except` of a task; the cascade goes on without its collection. -/
def CatalogTask.fail : CatalogTask → Catalog → Catalog × Option CatalogTask
  | .embed _, cat => (cat, none)
  | .reindex r, cat => (r.cleanup cat, none)
  | .cascade d, cat =>
    match d.phase with
    | .started => (cat, some (.cascade { d with phase := .dropped }))
    | .dropped => (cat, none)
  | .scan sc, cat => (cat, sc.fail)

namespace CatalogState

variable (s : CatalogState)

def spawn (task : CatalogTask) : CatalogState := { s with tasks := s.tasks ++ [task] }

def createKb (kbId : Uuid) : Option CatalogState :=
  if kbId ∈ s.issued then none
  else some { s with kbs := s.kbs ++ [{ id := kbId }], issued := s.issued ++ [kbId] }

def markDeleting (kbId : Uuid) : CatalogState :=
  { s with kbs := updateWhere (fun kb => kb.id = kbId) (fun kb => { kb with deleting := true }) s.kbs }

/-- A task that first reads the row of its base. -/
def startFor (kbId : Uuid) (task : CatalogTask) : CatalogState :=
  if kbId ∈ s.kbs.map KbRow.id then s.spawn task else s

def advance (k : Nat) : Option CatalogState := do
  let task ← s.tasks[k]?
  let next := task.advance s.toCatalog
  some { toCatalog := next.1, tasks := replaceTask s.tasks k next.2 }

def fail (k : Nat) : Option CatalogState := do
  let task ← s.tasks[k]?
  let next := task.fail s.toCatalog
  some { toCatalog := next.1, tasks := replaceTask s.tasks k next.2 }

def kill (k : Nat) : Option CatalogState := do
  let _ ← s.tasks[k]?
  some { s with tasks := s.tasks.eraseIdx k }

end CatalogState

def catalogStep (s : CatalogState) : CatalogAction → Option CatalogState
  | .createKb kbId => s.createKb kbId
  | .markDeleting kbId => some (s.markDeleting kbId)
  | .startEmbed kbId => some (s.startFor kbId (.embed kbId))
  | .startReindex kbId batches => some (s.startFor kbId (.reindex { kbId := kbId, batches := batches }))
  | .startCascade kbId => some (s.spawn (.cascade { kbId := kbId }))
  | .startScan => some (s.spawn (.scan {}))
  | .advance k => s.advance k
  | .fail k => s.fail k
  | .kill k => s.kill k

/-! ## The property and the condition -/

/-- A base exists, as `get_kb` sees it. -/
def Catalog.Active (cat : Catalog) (kbId : Uuid) : Prop :=
  ∃ kb ∈ cat.kbs, kb.id = kbId ∧ kb.deleting = false

namespace CatalogState

/-- A reindex of the base has its temporary collection, and has not renamed it. -/
def Reindexing (s : CatalogState) (kbId : Uuid) : Prop :=
  ∃ r : Rebuild, .reindex r ∈ s.tasks ∧ r.kbId = kbId ∧ r.phase ≠ .started

/-- The collection of a base that exists, or the temporary one of a reindex in progress. -/
def Owned (s : CatalogState) (name : String) : Prop :=
  (∃ kbId, s.Active kbId ∧ name = kbCollectionName kbId) ∨
    ∃ kbId, s.Reindexing kbId ∧ name = newCollectionName kbId

/-- What a scan drops is not owned. -/
def SparesOwned (s : CatalogState) : CatalogAction → Prop
  | .advance k => ∀ sc, s.tasks[k]? = some (.scan sc) → ∀ name ∈ s.collections,
      name ∉ (sc.advance s.toCatalog).1.collections → ¬ s.Owned name
  | _ => True

/-- A scan that comes to a temporary collection that it has listed finds no reindex of the base in
progress. -/
def ScansQuietBases (s : CatalogState) : CatalogAction → Prop
  | .advance k => ∀ sc existing activeNames kbId, s.tasks[k]? = some (.scan sc) →
      sc.phase = .dropping (newCollectionName kbId :: existing) activeNames →
      newCollectionName kbId ∈ s.collections → ¬ s.Reindexing kbId
  | _ => True

end CatalogState

/-! ## Names -/

/-- The text of a base can be read off the name of its collection. -/
theorem map_underscored (a : Uuid) :
    (a.text.toList.map underscored).map (fun c => if c = '_' then '-' else c) = a.text.toList := by
  have hback : ∀ c ∈ a.text.toList, (if underscored c = '_' then '-' else underscored c) = c := by
    intro c hc
    unfold underscored
    by_cases hdash : c = '-'
    · simp [hdash]
    · have hplain : c ≠ '_' := fun h => a.plain (h ▸ hc)
      simp [hdash, hplain]
  rw [List.map_map]
  calc a.text.toList.map _ = a.text.toList.map id := List.map_congr_left hback
    _ = a.text.toList := List.map_id _

theorem toList_kbCollectionName (a : Uuid) :
    (kbCollectionName a).toList = ['k', 'b', '_'] ++ a.text.toList.map underscored := by
  simp [kbCollectionName]

theorem kbCollectionName_injective {a b : Uuid} (h : kbCollectionName a = kbCollectionName b) : a = b := by
  have hchars := congrArg String.toList h
  rw [toList_kbCollectionName, toList_kbCollectionName] at hchars
  have hmap := List.append_cancel_left hchars
  have htext : a.text.toList = b.text.toList := by
    rw [← map_underscored a, ← map_underscored b, hmap]
  have heq : a.text = b.text := String.toList_inj.1 htext
  cases a
  cases b
  cases heq
  rfl

theorem length_kbCollectionName (a : Uuid) : (kbCollectionName a).toList.length = 39 := by
  rw [toList_kbCollectionName, List.length_append, List.length_map, a.length]
  rfl

/-- UUIDs have one length, so no base has the name of a temporary collection. -/
theorem newCollectionName_ne (a b : Uuid) : newCollectionName a ≠ kbCollectionName b := by
  intro h
  have hlength := congrArg (fun name => name.toList.length) h
  have hsuffix : (newCollectionName a).toList.length = 43 := by
    unfold newCollectionName
    rw [String.toList_append, List.length_append, length_kbCollectionName]
    rfl
  rw [hsuffix, length_kbCollectionName] at hlength
  omega

theorem startsWith_newCollectionName (a : Uuid) : startsWith "kb_" (newCollectionName a) = true := by
  unfold newCollectionName kbCollectionName
  rw [String.append_assoc]
  exact startsWith_append _ _

/-! ## The lifetimes of bases -/

namespace Catalog

variable {cat cat' : Catalog} {name : String}

def lifetimes (cat : Catalog) : Lifetimes Uuid where
  live := { kbId | cat.Active kbId }
  issued := { kbId | kbId ∈ cat.issued }

/-- Ids of rows have been issued, and so have those of bases with a collection. -/
structure Known (cat : Catalog) : Prop where
  kbs : ∀ kb ∈ cat.kbs, kb.id ∈ cat.issued
  named : ∀ kbId, kbCollectionName kbId ∈ cat.collections → kbId ∈ cat.issued

def Ages (cat cat' : Catalog) : Prop := cat.lifetimes.Later cat'.lifetimes

theorem Known.create (h : cat.Known)
    (hname : ∀ kbId, kbCollectionName kbId = name → kbId ∈ cat.issued) : (cat.create name).Known := by
  constructor
  · exact h.kbs
  · intro kbId hmem
    have hcases : kbCollectionName kbId ∈ cat.collections ∨ kbCollectionName kbId = name := by
      unfold Catalog.create at hmem
      dsimp only at hmem
      split at hmem
      · exact .inl hmem
      · exact mem_concat.1 hmem
    cases hcases with
    | inl hold => exact h.named kbId hold
    | inr hnew => exact hname kbId hnew

theorem Known.drop (h : cat.Known) (name : String) : (cat.drop name).Known := by
  constructor
  · exact h.kbs
  · intro kbId hmem
    exact h.named kbId (List.mem_of_mem_filter hmem)

theorem Known.createKb (h : cat.Known) {kbId : Uuid} (hnew : kbId ∈ cat.issued) :
    (cat.create (kbCollectionName kbId)).Known := by
  apply h.create
  intro k hk
  rw [kbCollectionName_injective hk]
  exact hnew

theorem Known.createNew (h : cat.Known) (kbId : Uuid) : (cat.create (newCollectionName kbId)).Known := by
  apply h.create
  intro k hk
  exact absurd hk.symm (newCollectionName_ne kbId k)

theorem mem_activeNames {kbId : Uuid} :
    kbCollectionName kbId ∈ cat.activeNames ↔ cat.Active kbId := by
  unfold activeNames Active
  rw [List.mem_map]
  constructor
  · intro h
    obtain ⟨kb, hkb, hname⟩ := h
    have hboth := List.mem_filter.1 hkb
    exact ⟨kb, hboth.1, kbCollectionName_injective hname, by simpa using hboth.2⟩
  · intro h
    obtain ⟨kb, hkb, rfl, hdeleting⟩ := h
    exact ⟨kb, List.mem_filter.2 ⟨hkb, by simpa using hdeleting⟩, rfl⟩

theorem newCollectionName_not_mem_activeNames (kbId : Uuid) :
    newCollectionName kbId ∉ cat.activeNames := by
  intro h
  obtain ⟨kb, -, hname⟩ := List.mem_map.1 h
  exact newCollectionName_ne kbId kb.id hname.symm

end Catalog

/-! ## What the tasks know -/

/-- What a scan has listed were bases, and what it takes for orphans are none any more. -/
structure Scan.Known (sc : Scan) (cat : Catalog) : Prop where
  listed : ∀ existing, sc.phase = .listed existing →
    ∀ kbId, kbCollectionName kbId ∈ existing → kbId ∈ cat.issued
  orphans : ∀ existing activeNames, sc.phase = .dropping existing activeNames →
    ∀ kbId, kbCollectionName kbId ∈ existing → kbCollectionName kbId ∉ activeNames →
      cat.lifetimes.Expired kbId
  bases : ∀ existing activeNames, sc.phase = .dropping existing activeNames →
    ∀ kbId, newCollectionName kbId ∉ activeNames

def CatalogTask.Known (cat : Catalog) : CatalogTask → Prop
  | .embed kbId => kbId ∈ cat.issued
  | .reindex r => r.kbId ∈ cat.issued
  | .cascade _ => True
  | .scan sc => sc.Known cat

variable {cat cat' : Catalog}

theorem CatalogTask.Known.later {t : CatalogTask} (h : t.Known cat) (hages : cat.Ages cat') :
    t.Known cat' := by
  cases t with
  | embed kbId => exact hages.issued h
  | reindex r => exact hages.issued h
  | cascade d => trivial
  | scan sc =>
    have hsc : sc.Known cat := h
    constructor
    · intro existing hphase kbId hmem
      exact hages.issued (hsc.listed existing hphase kbId hmem)
    · intro existing activeNames hphase kbId hmem hout
      exact hages.expired (hsc.orphans existing activeNames hphase kbId hmem hout)
    · exact hsc.bases

abbrev catalogRely : Rely Catalog CatalogTask where
  inv := Catalog.Known
  later := Catalog.Ages
  knows := fun t cat => t.Known cat
  refl := fun cat => Lifetimes.Later.refl cat.lifetimes
  stable := fun _ _ _ hages h => CatalogTask.Known.later h hages

/-- Steps on the names leave the rows. -/
theorem ages_create (cat : Catalog) (name : String) : cat.Ages (cat.create name) :=
  Lifetimes.Later.refl cat.lifetimes

theorem ages_drop (cat : Catalog) (name : String) : cat.Ages (cat.drop name) :=
  Lifetimes.Later.refl cat.lifetimes

theorem Rebuild.advance_keeps {r : Rebuild} (h : cat.Known) (hr : r.kbId ∈ cat.issued) :
    catalogRely.Keeps cat (r.advance cat) := by
  unfold Rebuild.advance
  cases r.phase with
  | started => exact Rely.Keeps.next (h.createNew r.kbId) (ages_create cat _) hr
  | building =>
    dsimp only
    cases r.batches with
    | zero => exact Rely.Keeps.next (h.drop _) (ages_drop cat _) hr
    | succ n =>
      dsimp only
      split
      · exact Rely.Keeps.read h hr
      · exact Rely.Keeps.last (h.drop _) (ages_drop cat _)
  | dropped =>
    dsimp only
    split
    · exact Rely.Keeps.last ((h.drop _).createKb hr) (Lifetimes.Later.refl cat.lifetimes)
    · exact Rely.Keeps.last (h.drop _) (ages_drop cat _)

theorem Cascade.advance_keeps {d : Cascade} (h : cat.Known) : catalogRely.Keeps cat (d.advance cat) := by
  unfold Cascade.advance
  cases d.phase with
  | started => exact Rely.Keeps.next (h.drop _) (ages_drop cat _) trivial
  | dropped =>
    apply Rely.Keeps.last
    · constructor
      · intro kb hkb
        exact h.kbs kb (List.mem_of_mem_filter hkb)
      · exact h.named
    · constructor
      · exact Set.Subset.rfl
      · intro kbId _ hlive
        obtain ⟨kb, hkb, hid, hdeleting⟩ := hlive
        exact ⟨kb, List.mem_of_mem_filter hkb, hid, hdeleting⟩

/-- The collections that are left to look at. -/
theorem Scan.Known.rest {sc : Scan} (hsc : sc.Known cat) {name : String} {existing activeNames : List String}
    (hphase : sc.phase = .dropping (name :: existing) activeNames) :
    Scan.Known { phase := .dropping existing activeNames } cat := by
  constructor
  · intro _ heq
    cases heq
  · intro _ _ heq kbId hmem hout
    cases heq
    exact hsc.orphans _ _ hphase kbId (List.mem_cons_of_mem name hmem) hout
  · intro _ _ heq
    cases heq
    exact hsc.bases _ _ hphase

/-- The collections were listed before the bases are read. -/
theorem Scan.advance_keeps {sc : Scan} (h : cat.Known) (hsc : sc.Known cat) :
    catalogRely.Keeps cat (sc.advance cat) := by
  unfold Scan.advance
  cases hphase : sc.phase with
  | started =>
    apply Rely.Keeps.read h
    constructor
    · intro existing heq
      cases heq
      exact h.named
    · intro existing activeNames heq
      cases heq
    · intro existing activeNames heq
      cases heq
  | listed existing =>
    apply Rely.Keeps.read h
    constructor
    · intro _ heq
      cases heq
    · intro _ _ heq kbId hmem hout
      cases heq
      have hmissing : ¬ cat.Active kbId := fun hactive => hout (Catalog.mem_activeNames.2 hactive)
      exact ⟨hsc.listed existing hphase kbId hmem, hmissing⟩
    · intro _ _ heq
      cases heq
      exact Catalog.newCollectionName_not_mem_activeNames
  | dropping existing activeNames =>
    cases existing with
    | nil => exact Rely.Keeps.last h (Lifetimes.Later.refl _)
    | cons name existing =>
      have hknown : (if isOrphan activeNames name then cat.drop name else cat).Known := by
        split
        · exact h.drop name
        · exact h
      have hages : cat.Ages (if isOrphan activeNames name then cat.drop name else cat) := by
        split
        · exact ages_drop cat name
        · exact Lifetimes.Later.refl _
      have htask : CatalogTask.Known cat (.scan { phase := .dropping existing activeNames }) :=
        hsc.rest hphase
      exact Rely.Keeps.next hknown hages (htask.later hages)

theorem CatalogTask.advance_keeps {t : CatalogTask} (h : cat.Known) (ht : t.Known cat) :
    catalogRely.Keeps cat (t.advance cat) := by
  cases t with
  | embed kbId => exact Rely.Keeps.last (h.createKb ht) (ages_create cat _)
  | reindex r => exact Rebuild.advance_keeps h ht
  | cascade d => exact Cascade.advance_keeps h
  | scan sc => exact Scan.advance_keeps h ht

theorem Scan.fail_known {sc : Scan} (hsc : sc.Known cat) : ∀ t ∈ sc.fail, t.Known cat := by
  intro t ht
  unfold Scan.fail at ht
  split at ht
  · next name existing activeNames hphase =>
    cases ht
    exact hsc.rest hphase
  · cases ht

theorem CatalogTask.fail_keeps {t : CatalogTask} (h : cat.Known) (ht : t.Known cat) :
    catalogRely.Keeps cat (t.fail cat) := by
  have hover : catalogRely.Keeps cat (cat, none) := Rely.Keeps.last h (Lifetimes.Later.refl cat.lifetimes)
  cases t with
  | embed kbId => exact hover
  | reindex r => exact Rely.Keeps.last (h.drop _) (ages_drop cat _)
  | cascade d =>
    unfold CatalogTask.fail
    dsimp only
    cases d.phase with
    | started => exact Rely.Keeps.read h trivial
    | dropped => exact hover
  | scan sc =>
    constructor
    · exact h
    · exact Lifetimes.Later.refl cat.lifetimes
    · exact Scan.fail_known ht

namespace CatalogState

variable {s s' : CatalogState}

abbrev Sound (s : CatalogState) : Prop := catalogRely.Sound s.toCatalog s.tasks

theorem Sound.startFor (h : s.Sound) {kbId : Uuid} {task : CatalogTask}
    (ht : kbId ∈ s.issued → task.Known s.toCatalog) : (s.startFor kbId task).Sound := by
  unfold CatalogState.startFor
  split
  · next hrow =>
    obtain ⟨kb, hkb, hid⟩ := List.mem_map.1 hrow
    have hissued := h.inv.kbs kb hkb
    rw [hid] at hissued
    exact h.spawn (ht hissued)
  · exact h

theorem Sound.createKb (h : s.Sound) {kbId : Uuid} (hs' : s.createKb kbId = some s') : s'.Sound := by
  unfold CatalogState.createKb at hs'
  obtain ⟨hfresh, ⟨⟩⟩ := Option.ite_none_left_eq_some.1 hs'
  apply h.later
  · constructor
    · intro kb hkb
      cases mem_concat.1 hkb with
      | inl hold => exact List.mem_append_left _ (h.inv.kbs kb hold)
      | inr hnew =>
        rw [hnew]
        exact List.mem_append_right _ (List.mem_singleton_self kbId)
    · intro k hk
      exact List.mem_append_left _ (h.inv.named k hk)
  · constructor
    · intro k hk
      exact List.mem_append_left _ hk
    · intro k hk hlive
      obtain ⟨kb, hkb, hid, hdeleting⟩ := hlive
      cases mem_concat.1 hkb with
      | inl hold => exact ⟨kb, hold, hid, hdeleting⟩
      | inr hnew =>
        rw [hnew] at hid
        rw [← hid] at hk
        exact absurd hk hfresh

theorem Sound.markDeleting (h : s.Sound) (kbId : Uuid) : (s.markDeleting kbId).Sound := by
  apply h.later
  · constructor
    · intro kb hkb
      obtain ⟨old, hold, rfl⟩ := mem_updateWhere.1 hkb
      split
      · exact h.inv.kbs old hold
      · exact h.inv.kbs old hold
    · exact h.inv.named
  · constructor
    · exact Set.Subset.rfl
    · intro k _ hlive
      obtain ⟨kb, hkb, hid, hdeleting⟩ := hlive
      obtain ⟨old, hold, rfl⟩ := mem_updateWhere.1 hkb
      split at hdeleting
      · cases hdeleting
      · next hne =>
        rw [if_neg hne] at hid
        exact ⟨old, hold, hid, hdeleting⟩

theorem catalogStep_sound (h : s.Sound) {a : CatalogAction} (hs' : catalogStep s a = some s') :
    s'.Sound := by
  cases a with
  | createKb kbId => exact h.createKb hs'
  | markDeleting kbId =>
    cases hs'
    exact h.markDeleting kbId
  | startEmbed kbId =>
    cases hs'
    exact h.startFor fun hissued => hissued
  | startReindex kbId batches =>
    cases hs'
    exact h.startFor fun hissued => hissued
  | startCascade kbId =>
    cases hs'
    have ht : CatalogTask.Known s.toCatalog (.cascade { kbId := kbId }) := trivial
    exact h.spawn ht
  | startScan =>
    cases hs'
    apply h.spawn
    constructor
    · intro _ heq
      cases heq
    · intro _ _ heq
      cases heq
    · intro _ _ heq
      cases heq
  | advance k =>
    obtain ⟨task, htask, heq⟩ := Option.bind_eq_some_iff.1 hs'
    cases heq
    exact h.replace (CatalogTask.advance_keeps h.inv (h.knows task (List.mem_of_getElem? htask))) k
  | fail k =>
    obtain ⟨task, htask, heq⟩ := Option.bind_eq_some_iff.1 hs'
    cases heq
    exact h.replace (CatalogTask.fail_keeps h.inv (h.knows task (List.mem_of_getElem? htask))) k
  | kill k =>
    obtain ⟨task, htask, heq⟩ := Option.bind_eq_some_iff.1 hs'
    cases heq
    exact h.replace (Rely.Keeps.last h.inv (Lifetimes.Later.refl s.toCatalog.lifetimes)) k

theorem sound_empty : ({} : CatalogState).Sound := by
  constructor
  · constructor
    · intro kb hkb
      cases hkb
    · intro kbId hmem
      cases hmem
  · intro t ht
    cases ht

/-! ## What a scan drops -/

/-- A scan drops one name at a time, and only an orphan. -/
theorem scan_drops {sc : Scan} {name : String} (h : name ∈ cat.collections)
    (hgone : name ∉ (sc.advance cat).1.collections) :
    ∃ existing activeNames, sc.phase = .dropping (name :: existing) activeNames ∧
      isOrphan activeNames name = true := by
  unfold Scan.advance at hgone
  cases hphase : sc.phase with
  | started =>
    rw [hphase] at hgone
    exact absurd h hgone
  | listed existing =>
    rw [hphase] at hgone
    exact absurd h hgone
  | dropping existing activeNames =>
    rw [hphase] at hgone
    cases existing with
    | nil => exact absurd h hgone
    | cons head existing =>
      dsimp only at hgone
      by_cases horphan : isOrphan activeNames head = true
      · rw [if_pos horphan] at hgone
        by_cases hhead : name = head
        · subst hhead
          exact ⟨existing, activeNames, rfl, horphan⟩
        · have hstays : name ∈ cat.collections.filter (· ≠ head) :=
            List.mem_filter.2 ⟨h, by simpa using hhead⟩
          exact absurd hstays hgone
      · rw [if_neg horphan] at hgone
        exact absurd h hgone

theorem scan_drops_head {sc : Scan} {name : String} {existing activeNames : List String}
    (hphase : sc.phase = .dropping (name :: existing) activeNames)
    (horphan : isOrphan activeNames name = true) : name ∉ (sc.advance cat).1.collections := by
  unfold Scan.advance
  rw [hphase]
  dsimp only
  rw [if_pos horphan]
  unfold Catalog.drop
  simp

theorem Sound.sparesOwned_iff (h : s.Sound) (a : CatalogAction) :
    s.SparesOwned a ↔ s.ScansQuietBases a := by
  cases a with
  | advance k =>
    constructor
    · intro hspares sc existing activeNames kbId hsc hphase hmem hreindexing
      have hknown : sc.Known s.toCatalog := h.knows _ (List.mem_of_getElem? hsc)
      have horphan : isOrphan activeNames (newCollectionName kbId) = true := by
        have hout := hknown.bases _ _ hphase kbId
        simp [isOrphan, startsWith_newCollectionName, hout]
      have hgone : newCollectionName kbId ∉ (sc.advance s.toCatalog).1.collections :=
        scan_drops_head hphase horphan
      exact hspares sc hsc _ hmem hgone (.inr ⟨kbId, hreindexing, rfl⟩)
    · intro hquiet sc hsc name hmem hgone howned
      have hknown : sc.Known s.toCatalog := h.knows _ (List.mem_of_getElem? hsc)
      obtain ⟨existing, activeNames, hphase, horphan⟩ := scan_drops hmem hgone
      have hout : name ∉ activeNames := by
        unfold isOrphan at horphan
        simpa using (Bool.and_eq_true_iff.1 horphan).2
      cases howned with
      | inl hbase =>
        obtain ⟨kbId, hactive, rfl⟩ := hbase
        exact (hknown.orphans _ _ hphase kbId List.mem_cons_self hout).2 hactive
      | inr htemp =>
        obtain ⟨kbId, hreindexing, rfl⟩ := htemp
        exact hquiet sc existing activeNames kbId hsc hphase hmem hreindexing
  | _ => exact Iff.rfl

/-! ## Every run -/

/-- The scan never drops the collection of a base that exists; it spares the temporary ones exactly when it
comes to none of them during a reindex of its base. -/
theorem sparesOwned_iff_scansQuietBases (acts : List CatalogAction) :
    EveryStep catalogStep SparesOwned {} acts ↔ EveryStep catalogStep ScansQuietBases {} acts :=
  everyStep_congr_of_inv (fun _ _ _ h hs' => catalogStep_sound h hs') (fun _ a _ h _ => h.sparesOwned_iff a)
    sound_empty acts

def someKb : Uuid where
  text := "6f1c2d3e-4a5b-4c6d-8e7f-0a1b2c3d4e5f"
  length := by decide
  plain := by decide

/-- A reindex has created its collection when a scan starts. -/
def scanOverReindex : List CatalogAction :=
  [.createKb someKb, .startEmbed someKb, .advance 0, .startReindex someKb 1, .advance 0, .startScan,
    .advance 1, .advance 1, .advance 1]

theorem rebuild_dropped : ¬ ∀ acts, EveryStep catalogStep SparesOwned {} acts := by
  intro h
  have hstep := EveryStep.after (h (scanOverReindex ++ [.advance 1])) rfl rfl
  apply hstep { phase := .dropping [newCollectionName someKb] [kbCollectionName someKb] } rfl
    (newCollectionName someKb) (List.mem_cons_of_mem _ (List.mem_singleton_self _))
  · exact scan_drops_head rfl rfl
  · right
    exact ⟨someKb,
      ⟨{ kbId := someKb, batches := 1, phase := .building }, List.mem_cons_self, rfl, nofun⟩, rfl⟩

end CatalogState

end OpsKnowledge.Milvus
