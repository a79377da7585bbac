import OpsKnowledge.Knowledge.ChunkService
import OpsKnowledge.Lib.Dict
import OpsKnowledge.Lib.Table
import OpsKnowledge.Lib.Text

/-!
# The tag dictionary

The table of `app/knowledge/tagging/models.py` with its constraints, the normalizer and the
service over it. `special` is the case mapping of characters outside of ASCII.
-/

namespace OpsKnowledge.Tagging

open OpsKnowledge.Lib

structure TagDictionary where
  id : Nat
  kbId : Nat
  canonical : String
  aliases : List String := []
  isDeprecated : Bool := false

def TagDictionary.names (r : TagDictionary) : List String := r.canonical :: r.aliases

/-- The names as the lookup map has them. -/
def TagDictionary.keys (special : String → Nat → List Char) (r : TagDictionary) : List String :=
  r.names.map (lower special)

structure TagTable where
  rows : List TagDictionary
  next : Nat
  nodup : (rows.map TagDictionary.id).Nodup
  below : ∀ r ∈ rows, r.id < next
  /-- `uq_tag_dict_kb_canonical` -/
  unique : (rows.map fun r => (r.kbId, r.canonical)).Nodup

namespace TagTable

def empty : TagTable := ⟨[], 0, List.nodup_nil, by simp, List.nodup_nil⟩

variable (t : TagTable)

def get (dictId : Nat) : Option TagDictionary := t.rows.find? fun r => r.id = dictId

def active (kbId : Nat) : List TagDictionary :=
  t.rows.filter fun r => r.kbId = kbId ∧ r.isDeprecated = false

/-! ## Writes -/

/-- The flush of a new row; it fails where the base has a row with that canonical. -/
def insert (kbId : Nat) (canonical : String) (aliases : List String) : Option TagTable :=
  if h : (kbId, canonical) ∈ t.rows.map fun r => (r.kbId, r.canonical) then none
  else some
    { rows := t.rows ++ [{ id := t.next, kbId := kbId, canonical := canonical, aliases := aliases }]
      next := t.next + 1
      nodup := by
        rw [List.map_append, List.nodup_append]
        refine ⟨t.nodup, List.nodup_singleton _, ?_⟩
        intro i hi j hj hij
        obtain rfl := List.mem_singleton.1 hj
        obtain ⟨r, hr, rfl⟩ := List.mem_map.1 hi
        have hlt := t.below r hr
        simp only at hij
        omega
      below := by
        intro r hr
        rcases mem_concat.1 hr with hr | rfl
        · exact Nat.lt_succ_of_lt (t.below r hr)
        · exact Nat.lt_succ_self _
      unique := by
        rw [List.map_append, List.nodup_append]
        refine ⟨t.unique, List.nodup_singleton _, ?_⟩
        intro i hi j hj hij
        obtain rfl := List.mem_singleton.1 hj
        rw [hij] at hi
        exact h hi }

/-- The flush of changed rows. -/
def update (f : TagDictionary → TagDictionary) (hf : ∀ r, (f r).id = r.id) : Option TagTable :=
  if h : ((t.rows.map f).map fun r => (r.kbId, r.canonical)).Nodup then some
    { rows := t.rows.map f
      next := t.next
      nodup := by
        have hids : (t.rows.map f).map TagDictionary.id = t.rows.map TagDictionary.id := by
          rw [List.map_map]
          exact List.map_congr_left fun r _ => hf r
        exact hids ▸ t.nodup
      below := by
        intro r' hr'
        obtain ⟨r, hr, rfl⟩ := List.mem_map.1 hr'
        rw [hf]
        exact t.below r hr
      unique := h }
  else none

def updateRow (dictId : Nat) (f : TagDictionary → TagDictionary) (hf : ∀ r, (f r).id = r.id) :
    Option TagTable :=
  t.update (fun r => if r.id = dictId then f r else r) fun r => by
    split
    · exact hf r
    · rfl

end TagTable

/-! ## The normalizer -/

section Normalizer

variable (special : String → Nat → List Char)

/-- `s.replace("　", " ")` -/
def plainSpaces (s : String) : String :=
  String.ofList (s.toList.map fun c => if c.toNat = 0x3000 then ' ' else c)

def canonicalizeInput (raw : String) : String := strip (plainSpaces (lower special (strip raw)))

/-- The canonical that a tag without a row gets. -/
def display (raw : String) : String := Knowledge.slice (strip (plainSpaces (strip raw))) 0 64

/-- `_load_dict_from_db`, of the rows that the query gives: a later row takes a key over. -/
def loadDict (rows : List TagDictionary) : Dict String String :=
  .ofList (rows.flatMap fun r => r.names.map fun name => (lower special name, r.canonical))

structure Normalizing where
  table : TagTable
  mapping : Dict String String
  result : List String := []
  createdAny : Bool := false

def Normalizing.addTag (s : Normalizing) (canonical : String) : Normalizing :=
  if canonical ∈ s.result then s else { s with result := s.result ++ [canonical] }

/-- One round of `normalize_tags`. -/
def normalizeTag (kbId : Nat) (allowCreate : Bool) (s : Normalizing) (raw : String) :
    Option Normalizing :=
  let key := canonicalizeInput special raw
  if key = "" then some s
  else match s.mapping.get? key with
    | some canonical => some (s.addTag canonical)
    | none =>
        if allowCreate then
          (s.table.insert kbId (display raw) []).map fun table =>
            Normalizing.addTag { s with
              table := table
              mapping := s.mapping.set key (display raw)
              createdAny := true } (display raw)
        else some s

/-- `normalize_tags` over the map that it got. -/
def normalizeTags (kbId : Nat) (allowCreate : Bool) (t : TagTable) (mapping : Dict String String)
    (raws : List String) : Option Normalizing :=
  raws.foldlM (normalizeTag special kbId allowCreate) { table := t, mapping := mapping }

end Normalizer

/-! ## The service -/

/-- `backfill_tag_rename` or `backfill_tag_merge`, queued after the commit. -/
structure Backfill where
  kbId : Nat
  mapping : Dict String String

namespace TagTable

variable (t : TagTable) (kbId : Nat)

/-- The row of the base; a change to another base's row is rolled back. -/
def getOwn (dictId : Nat) : Option TagDictionary := (t.get dictId).filter fun r => r.kbId = kbId

def create (canonical : String) (aliases : Option (List String)) : Option TagTable :=
  t.insert kbId (Knowledge.slice (strip canonical) 0 64) (aliases.getD [])

/-- `[a.strip() for a in aliases if a and a.strip()]` -/
def cleanAliases (aliases : List String) : List String := (aliases.map strip).filter (· ≠ "")

def setAliases (dictId : Nat) (aliases : List String) : Option TagTable := do
  let _ ← t.getOwn kbId dictId
  t.updateRow dictId (fun r => { r with aliases := cleanAliases aliases }) fun _ => rfl

/-- The old name among the aliases. -/
def renamedAliases (r : TagDictionary) : List String :=
  if r.canonical ∈ r.aliases then r.aliases else r.aliases ++ [r.canonical]

def rename (dictId : Nat) (newCanonical : String) : Option (TagTable × List Backfill) := do
  let row ← t.getOwn kbId dictId
  let new := Knowledge.slice (strip newCanonical) 0 64
  if new = "" ∨ new = row.canonical then some (t, [])
  else
    (t.updateRow dictId (fun r => { r with canonical := new, aliases := renamedAliases r })
      fun _ => rfl).map fun t => (t, [{ kbId := kbId, mapping := .ofList [(row.canonical, new)] }])

/-- `if a not in merged_aliases` for each name of the sources. -/
def mergedAliases (target : TagDictionary) (sources : List TagDictionary) : List String :=
  (sources.flatMap TagDictionary.names).foldl (fun merged name =>
    if name ∈ merged then merged else merged ++ [name]) target.aliases

def merge (sourceIds : List Nat) (targetId : Nat) : Option (TagTable × List Backfill) := do
  let target ← t.getOwn kbId targetId
  let sources := t.rows.filter fun r => r.id ∈ sourceIds
  if sources = [] then some (t, [])
  else if sources.any fun s => s.kbId ≠ target.kbId ∨ s.id = target.id then none
  else
    (t.update (fun r =>
      if r.id = targetId then { r with aliases := mergedAliases target sources }
      else if r.id ∈ sourceIds then { r with isDeprecated := true }
      else r) fun r => by
        split
        · rfl
        · split
          · rfl
          · rfl).map fun t =>
        (t, [{ kbId := kbId
               mapping := .ofList (sources.map fun s => (s.canonical, target.canonical)) }])

def softDelete (dictId : Nat) : Option TagTable := do
  let _ ← t.getOwn kbId dictId
  t.updateRow dictId (fun r => { r with isDeprecated := true }) fun _ => rfl

end TagTable

/-- The requests on the dictionary of a base, and the tags of an entry or an extraction. -/
inductive TagCall where
  | create (canonical : String) (aliases : Option (List String))
  | setAliases (dictId : Nat) (aliases : List String)
  | rename (dictId : Nat) (canonical : String)
  | merge (sourceIds : List Nat) (targetId : Nat)
  | softDelete (dictId : Nat)
  | normalizeTags (raws : List String) (allowCreate : Bool)

/-- The committed rows, and the canonicals that the last call returned, with their base. -/
structure TagSession where
  table : TagTable := .empty
  returned : List (Nat × String) := []

/-- What a call commits. A failed one is rolled back. -/
def tagStep (special : String → Nat → List Char) (s : TagSession) (request : Nat × TagCall) :
    Option TagSession :=
  match request with
  | (kbId, .create canonical aliases) => (s.table.create kbId canonical aliases).map fun t => { table := t }
  | (kbId, .setAliases dictId aliases) =>
      (s.table.setAliases kbId dictId aliases).map fun t => { table := t }
  | (kbId, .rename dictId canonical) =>
      (s.table.rename kbId dictId canonical).map fun changed => { table := changed.1 }
  | (kbId, .merge sourceIds targetId) =>
      (s.table.merge kbId sourceIds targetId).map fun changed => { table := changed.1 }
  | (kbId, .softDelete dictId) => (s.table.softDelete kbId dictId).map fun t => { table := t }
  | (kbId, .normalizeTags raws allowCreate) =>
      (normalizeTags special kbId allowCreate s.table (loadDict special (s.table.active kbId)) raws).map
        fun normalized =>
          { table := normalized.table
            returned := normalized.result.map fun canonical => (kbId, canonical) }

/-! ## Rows -/

section Rows

variable {t t' : TagTable} {kbId : Nat}

theorem mem_active {r : TagDictionary} : r ∈ t.active kbId ↔
    r ∈ t.rows ∧ r.kbId = kbId ∧ r.isDeprecated = false := by
  simp [TagTable.active]

theorem eq_of_id {r r' : TagDictionary} (hr : r ∈ t.rows) (hr' : r' ∈ t.rows) (h : r.id = r'.id) :
    r = r' :=
  List.inj_on_of_nodup_map t.nodup hr hr' h

theorem getOwn_eq_some {dictId : Nat} {row : TagDictionary} :
    t.getOwn kbId dictId = some row ↔ row ∈ t.rows ∧ row.id = dictId ∧ row.kbId = kbId := by
  unfold TagTable.getOwn TagTable.get
  rw [Option.filter_eq_some_iff, decide_eq_true_eq]
  constructor
  · rintro ⟨hget, hkb⟩
    exact ⟨List.mem_of_find?_eq_some hget, by simpa using List.find?_some hget, hkb⟩
  · rintro ⟨hrow, rfl, hkb⟩
    refine ⟨?_, hkb⟩
    cases hget : t.rows.find? fun r => r.id = row.id with
    | none =>
        have hno := List.find?_eq_none.1 hget row hrow
        simp at hno
    | some r =>
        have hid : r.id = row.id := by simpa using List.find?_some hget
        rw [eq_of_id (List.mem_of_find?_eq_some hget) hrow hid]

theorem update_eq_some {f : TagDictionary → TagDictionary} {hf : ∀ r, (f r).id = r.id}
    (h : t.update f hf = some t') : t'.rows = t.rows.map f := by
  unfold TagTable.update at h
  split at h
  · cases h
    rfl
  · cases h

/-- What a rename writes, and the backfill that it queues. -/
theorem rename_eq_some {dictId : Nat} {canonical : String} {queued : List Backfill}
    (h : t.rename kbId dictId canonical = some (t', queued)) :
    ∃ row ∈ t.rows, row.id = dictId ∧ row.kbId = kbId ∧
      (t' = t ∧ queued = [] ∨
        t'.rows = t.rows.map (fun r =>
          if r.id = dictId then
            { r with
              canonical := Knowledge.slice (strip canonical) 0 64
              aliases := TagTable.renamedAliases r }
          else r) ∧
        queued = [{
          kbId := kbId
          mapping := .ofList [(row.canonical, Knowledge.slice (strip canonical) 0 64)] }]) := by
  unfold TagTable.rename at h
  rw [Option.bind_eq_bind, Option.bind_eq_some_iff] at h
  obtain ⟨row, hrow, h⟩ := h
  obtain ⟨hmem, hid, hkb⟩ := getOwn_eq_some.1 hrow
  refine ⟨row, hmem, hid, hkb, ?_⟩
  dsimp only at h
  split at h
  · cases h
    exact .inl ⟨rfl, rfl⟩
  · obtain ⟨t₁, ht₁, heq⟩ := Option.map_eq_some_iff.1 h
    cases heq
    exact .inr ⟨update_eq_some ht₁, rfl⟩

/-- What a merge writes: its sources are rows of the base. -/
theorem merge_eq_some {sourceIds : List Nat} {targetId : Nat} {queued : List Backfill}
    (h : t.merge kbId sourceIds targetId = some (t', queued)) :
    ∃ target ∈ t.rows, target.id = targetId ∧ target.kbId = kbId ∧
      (∀ r ∈ t.rows, r.id ∈ sourceIds → r.kbId = kbId) ∧
      (t' = t ∧ queued = [] ∧ (∀ r ∈ t.rows, r.id ∉ sourceIds) ∨
        targetId ∉ sourceIds ∧ t'.rows = t.rows.map (fun r =>
          if r.id = targetId then
            { r with
              aliases := TagTable.mergedAliases target (t.rows.filter fun r => r.id ∈ sourceIds) }
          else if r.id ∈ sourceIds then { r with isDeprecated := true }
          else r) ∧
        queued = [{
          kbId := kbId
          mapping := .ofList ((t.rows.filter fun r => r.id ∈ sourceIds).map
            fun r => (r.canonical, target.canonical)) }]) := by
  unfold TagTable.merge at h
  rw [Option.bind_eq_bind, Option.bind_eq_some_iff] at h
  obtain ⟨target, htarget, h⟩ := h
  obtain ⟨hmem, hid, hkb⟩ := getOwn_eq_some.1 htarget
  refine ⟨target, hmem, hid, hkb, ?_⟩
  dsimp only at h
  split at h
  · next hnone =>
      cases h
      have hout : ∀ r ∈ t.rows, r.id ∉ sourceIds := by
        intro r hr hin
        have hno := List.filter_eq_nil_iff.1 hnone r hr
        exact hno (decide_eq_true hin)
      exact ⟨fun r hr hin => absurd hin (hout r hr), .inl ⟨rfl, rfl, hout⟩⟩
  · split at h
    · cases h
    · next hsame =>
        obtain ⟨t₁, ht₁, heq⟩ := Option.map_eq_some_iff.1 h
        cases heq
        rw [List.any_eq_true] at hsame
        refine ⟨?_, .inr ⟨?_, update_eq_some ht₁, rfl⟩⟩
        · intro r hr hin
          rw [← hkb]
          by_contra hne
          exact hsame ⟨r, List.mem_filter.2 ⟨hr, decide_eq_true hin⟩, decide_eq_true (.inl hne)⟩
        · intro hin
          rw [← hid] at hin
          exact hsame ⟨target, List.mem_filter.2 ⟨hmem, decide_eq_true hin⟩, decide_eq_true (.inr rfl)⟩

theorem softDelete_eq_some {dictId : Nat} (h : t.softDelete kbId dictId = some t') :
    t'.rows = t.rows.map fun r => if r.id = dictId then { r with isDeprecated := true } else r := by
  unfold TagTable.softDelete at h
  rw [Option.bind_eq_bind, Option.bind_eq_some_iff] at h
  obtain ⟨row, -, h⟩ := h
  exact update_eq_some h

end Rows

end OpsKnowledge.Tagging
