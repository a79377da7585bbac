import OpsKnowledge.Tagging.ChunkTagCommits
import OpsKnowledge.Tagging.Normalizer

/-!
# Backfills of renamed and merged tags

A rename and a merge queue a task that writes the new name over the old ones in the tags of entries
and chunks. The tasks run in any order, between the sessions of extractions, which normalize what they
found over the rows that are committed.
-/

namespace OpsKnowledge.Tagging

open OpsKnowledge.Lib
open OpsKnowledge.Knowledge

/-- `_rewrite_tag`: a list without one of the names is left. -/
def rewriteTags (mapping : Dict String String) (tags : List String) : List String :=
  let rewritten := tags.map fun tag => (mapping.get? tag).getD tag
  if rewritten = tags then tags else (rewritten.filter (· ≠ "")).eraseDups

/-- `_backfill_kb` -/
def TagStores.backfill (s : TagStores) (b : Backfill) : TagStores :=
  { s with
    tables := { s.tables with
      entries := updateWhere (fun e => e.knowledgeBaseId = b.kbId)
        (fun e => { e with tags := rewriteTags b.mapping e.tags }) s.tables.entries
      chunks := updateWhere (fun c => c.knowledgeBaseId = b.kbId)
        (fun c => { c with chunkTags := rewriteTags b.mapping c.chunkTags }) s.tables.chunks } }

/-- The dictionary with the stores that hold its names. The retained rows are those that a delete, a
rename or a merge into them has named since a merge took them away last. -/
structure TagGovernance where
  dictionary : TagTable
  stores : TagStores
  backfills : List Backfill := []
  retained : List Nat := []

inductive GovernanceAction where
  | rename (kbId dictId : Nat) (canonical : String)
  | merge (kbId : Nat) (sourceIds : List Nat) (targetId : Nat)
  | softDelete (kbId dictId : Nat)
  | backfill (k : Nat)
  | startExtract (entryId : Nat)
  /-- The names that it keeps are some of those that `normalize_tags` returns. -/
  | normalizeExtract (k : Nat) (raws found : List String) (tie : TagDictionary → Nat)
  | finishExtract (k : Nat)
  | failExtract (k : Nat)
  | queryTags (k : Nat)
  | upsertTags (k : Nat)
  | failTags (k : Nat)

namespace TagGovernance

variable (special : String → Nat → List Char) (s : TagGovernance)

def rename (kbId dictId : Nat) (canonical : String) : Option TagGovernance :=
  (s.dictionary.rename kbId dictId canonical).map fun (dictionary, queued) =>
    { s with
      dictionary := dictionary
      backfills := s.backfills ++ queued
      retained := dictId :: s.retained }

def merge (kbId : Nat) (sourceIds : List Nat) (targetId : Nat) : Option TagGovernance :=
  (s.dictionary.merge kbId sourceIds targetId).map fun (dictionary, queued) =>
    { s with
      dictionary := dictionary
      backfills := s.backfills ++ queued
      retained := targetId :: s.retained.filter (· ∉ sourceIds) }

/-- A row that is deprecated already stays as it is. -/
def softDelete (kbId dictId : Nat) : Option TagGovernance :=
  (s.dictionary.getOwn kbId dictId).bind fun row =>
    (s.dictionary.softDelete kbId dictId).map fun dictionary =>
      { s with
        dictionary := dictionary
        retained := if row.isDeprecated then s.retained else dictId :: s.retained }

def backfill (k : Nat) : Option TagGovernance :=
  s.backfills[k]?.map fun b =>
    { s with stores := s.stores.backfill b, backfills := s.backfills.eraseIdx k }

def withStores (stores : Option TagStores) : Option TagGovernance :=
  stores.map fun stores => { s with stores := stores }

/-- The base of the entry that an extraction is of. -/
def extractionKb (run : Extraction) : Option Nat :=
  (s.stores.tables.getEntry run.entryId).map KnowledgeEntry.knowledgeBaseId

def normalizeExtract (k : Nat) (raws found : List String) (tie : TagDictionary → Nat) :
    Option TagGovernance := do
  let run ← s.stores.extractions[k]?
  let kbId ← s.extractionKb run
  let mapping := loadDict special (orderBy tie (s.dictionary.active kbId))
  let normalized ← normalizeTags special kbId true s.dictionary mapping raws
  let stores ← s.stores.runExtract k found
  if found.all (· ∈ normalized.result) then
    some { s with dictionary := normalized.table, stores := stores }
  else none

def step (s : TagGovernance) : GovernanceAction → Option TagGovernance
  | .rename kbId dictId canonical => s.rename kbId dictId canonical
  | .merge kbId sourceIds targetId => s.merge kbId sourceIds targetId
  | .softDelete kbId dictId => s.softDelete kbId dictId
  | .backfill k => s.backfill k
  | .startExtract entryId => s.withStores (s.stores.startExtract entryId)
  | .normalizeExtract k raws found tie => s.normalizeExtract special k raws found tie
  | .finishExtract k => s.withStores (s.stores.finishExtract k)
  | .failExtract k => s.withStores (some (s.stores.failExtract k))
  | .queryTags k => s.withStores (s.stores.queryTags k)
  | .upsertTags k => s.withStores (s.stores.upsertTags k)
  | .failTags k => s.withStores (some (s.stores.failTags k))

end TagGovernance

/-! ## The property and the condition -/

namespace TagGovernance

/-- The name of an active row of the base. -/
def Active (s : TagGovernance) (kbId : Nat) (name : String) : Prop :=
  ∃ r ∈ s.dictionary.rows, r.kbId = kbId ∧ r.canonical = name ∧ r.isDeprecated = false

/-- The name of a row of the base that is active or retained. -/
def Known (s : TagGovernance) (kbId : Nat) (name : String) : Prop :=
  ∃ r ∈ s.dictionary.rows, r.kbId = kbId ∧ r.canonical = name ∧
    (r.isDeprecated = false ∨ r.id ∈ s.retained)

/-- No tag of an entry, auto tag, tag of a chunk or tag of a vector is other than the name of an active
row. -/
structure AllActive (s : TagGovernance) : Prop where
  tags : ∀ e ∈ s.stores.tables.entries, ∀ tag ∈ e.tags, s.Active e.knowledgeBaseId tag
  autoTags : ∀ e ∈ s.stores.tables.entries, ∀ tag ∈ e.autoTags, s.Active e.knowledgeBaseId tag
  chunkTags : ∀ c ∈ s.stores.tables.chunks, ∀ tag ∈ c.chunkTags, s.Active c.knowledgeBaseId tag
  vectors : ∀ c ∈ s.stores.tables.chunks, ∀ row, s.stores.live c.id = some row →
    ∀ tag ∈ row.chunkTags, s.Active c.knowledgeBaseId tag

/-- The same of the tags that backfills rewrite, for rows that are active or retained. -/
structure AllKnown (s : TagGovernance) : Prop where
  tags : ∀ e ∈ s.stores.tables.entries, ∀ tag ∈ e.tags, s.Known e.knowledgeBaseId tag
  chunkTags : ∀ c ∈ s.stores.tables.chunks, ∀ tag ∈ c.chunkTags, s.Known c.knowledgeBaseId tag

/-- Nothing is queued or running. -/
structure Idle (s : TagGovernance) : Prop where
  backfills : s.backfills = []
  extractions : s.stores.extractions = []
  updates : s.stores.updates = []

/-- A state to start from: names of at most 64 characters, all of them active, and nothing to do. -/
structure Settled (s : TagGovernance) : Prop where
  valid : s.stores.tables.Valid
  entries : (s.stores.tables.entries.map KnowledgeEntry.id).Nodup
  idle : s.Idle
  short : ∀ r ∈ s.dictionary.rows, r.canonical.length ≤ 64
  active : s.AllActive

def Rewrites (b : Backfill) (kbId : Nat) (name : String) : Prop :=
  b.kbId = kbId ∧ (b.mapping.get? name).isSome = true

/-- A backfill runs after the ones before it that write a name that it rewrites, and while no extraction
has such a name in hand. -/
def InOrder (s : TagGovernance) : GovernanceAction → Prop
  | .backfill k => ∀ b, s.backfills[k]? = some b →
      (∀ earlier ∈ s.backfills.take k, ∀ name new, earlier.mapping.get? name = some new →
        ¬ Rewrites b earlier.kbId new) ∧
      ∀ run ∈ s.stores.extractions, ∀ found, run.found = some found → ∀ kbId,
        s.extractionKb run = some kbId → ∀ tag ∈ found, ¬ Rewrites b kbId tag
  | .rename _ _ _ | .merge _ _ _ | .softDelete _ _ | .startExtract _ | .normalizeExtract _ _ _ _
  | .finishExtract _ | .failExtract _ | .queryTags _ | .upsertTags _ | .failTags _ => True

end TagGovernance

end OpsKnowledge.Tagging
