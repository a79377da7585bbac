import OpsKnowledge.Lib.OrderBy
import OpsKnowledge.Lib.Transition
import OpsKnowledge.Tagging.Dictionary

/-!
# The dictionary cache

All processes keep the lookup maps of the bases in one Redis, which they do without while it is
down. A transaction reads the committed rows under its own flushes, and its flushes show to others
from its commit on. What the database makes of a flush over other rows is a parameter.
-/

namespace OpsKnowledge.Tagging

open OpsKnowledge.Lib

/-- The rows that a flush is based on, and what it made of them. -/
structure Flush where
  read : TagTable
  written : TagTable

/-- Where a `normalize_tags` call is: before the lookup, at the query after a miss, with the map of
the rows that the database has sent, or normalizing with a map. -/
inductive Progress where
  | starting
  | selecting
  | read (mapping : Dict String String)
  | normalizing (mapping : Dict String String)

/-- A `normalize_tags` call, with the rows that were committed when it started and later, until it
has its map. -/
structure NormalizeCall where
  kbId : Nat
  raws : List String
  allowCreate : Bool
  committed : List TagTable
  progress : Progress := .starting

/-- The session of a request or a task: what it flushed, the bases whose maps it still has to
delete, and the call that it is in. -/
structure Transaction where
  flushes : List Flush := []
  invalidating : List Nat := []
  call : Option NormalizeCall := none

def Transaction.idle (tx : Transaction) : Bool := tx.call.isNone && tx.invalidating.isEmpty

/-- `flushed` is all that transactions had flushed at some time. -/
structure Deployment where
  table : TagTable
  cache : Dict Nat (Dict String String) := .empty
  transactions : List Transaction := []
  flushed : List (List Flush) := [[]]

/-- `get_kb_dict_map`, with or without Redis. A start without tags is the second lookup of an
extraction. -/
inductive MapAction where
  | begin
  | start (k kbId : Nat) (raws : List String) (allowCreate : Bool)
  | lookup (k : Nat) (redis : Bool)
  | select (k : Nat) (tie : TagDictionary → Nat)
  | put (k : Nat) (redis : Bool)

inductive CacheAction where
  | map (action : MapAction)
  | normalize (k : Nat)
  | change (k kbId : Nat) (call : TagCall)
  | invalidate (k : Nat) (redis : Bool)
  | commit (k : Nat)
  | abort (k : Nat)
  /-- The hour of the map is over, or a backfill or a refused request deletes it. -/
  | drop (kbId : Nat)

/-- Somebody commits. -/
def NormalizeCall.sees (table : TagTable) (call : NormalizeCall) : NormalizeCall :=
  match call.progress with
  | .normalizing _ => call
  | .starting | .selecting | .read _ => { call with committed := table :: call.committed }

def Transaction.sees (table : TagTable) (tx : Transaction) : Transaction :=
  { tx with call := tx.call.map (NormalizeCall.sees table) }

section Changes

variable (special : String → Nat → List Char)

/-- The rows after a method of `TagDictionaryService`. -/
def TagTable.change (t : TagTable) (kbId : Nat) (call : TagCall) : Option TagTable :=
  match call with
  | .normalizeTags _ _ => none
  | .create _ _ | .setAliases _ _ | .rename _ _ | .merge _ _ | .softDelete _ =>
      (tagStep special { table := t } (kbId, call)).map TagSession.table

/-- The bases for which the method calls `_invalidate_all`: none where it returns early. -/
def TagTable.invalidated (t : TagTable) (kbId : Nat) : TagCall → List Nat
  | .create _ _ | .setAliases _ _ => [kbId]
  | .rename dictId canonical =>
      (t.rename kbId dictId canonical).elim [] fun changed => changed.2.map Backfill.kbId
  | .merge sourceIds targetId =>
      (t.merge kbId sourceIds targetId).elim [] fun changed => changed.2.map Backfill.kbId
  | .softDelete dictId =>
      if (t.getOwn kbId dictId).any TagDictionary.isDeprecated then [] else [kbId]
  | .normalizeTags _ _ => []

end Changes

def replay (merge : Flush → TagTable → TagTable) (flushes : List Flush) (table : TagTable) : TagTable :=
  flushes.foldl (fun table flush => merge flush table) table

namespace Deployment

variable (special : String → Nat → List Char) (merge : Flush → TagTable → TagTable) (s : Deployment)

/-- What the database shows to a transaction. -/
def view (tx : Transaction) : TagTable := replay merge tx.flushes s.table

def setTransaction (k : Nat) (tx : Transaction) : Deployment :=
  { s with transactions := s.transactions.set k tx }

/-- The transaction flushes, and has maps to delete. -/
def flush (k : Nat) (tx : Transaction) (flush : Flush) (kbIds : List Nat) : Deployment :=
  { s with
    transactions := s.transactions.set k { tx with
      flushes := tx.flushes ++ [flush]
      invalidating := kbIds }
    flushed := s.flushed ++ [tx.flushes ++ [flush]] }

/-- The transaction that is in a call, and its call. -/
def calling (k : Nat) : Option (Transaction × NormalizeCall) :=
  s.transactions[k]?.bind fun tx => tx.call.map fun call => (tx, call)

def advance (k : Nat) (tx : Transaction) (call : NormalizeCall) (progress : Progress) : Deployment :=
  s.setTransaction k { tx with call := some { call with progress := progress } }

/-! ## The lookup map -/

def begin : Deployment := { s with transactions := s.transactions ++ [{}] }

def start (k kbId : Nat) (raws : List String) (allowCreate : Bool) : Option Deployment :=
  s.transactions[k]?.bind fun tx =>
    if tx.idle then
      let call := { kbId := kbId, raws := raws, allowCreate := allowCreate, committed := [s.table] }
      some (s.setTransaction k { tx with call := some call })
    else none

def lookup (k : Nat) (redis : Bool) : Option Deployment :=
  (s.calling k).bind fun (tx, call) =>
    match call.progress with
    | .starting =>
        let cached := if redis then s.cache.get? call.kbId else none
        some (s.advance k tx call (cached.elim .selecting .normalizing))
    | .selecting | .read _ | .normalizing _ => none

def select (k : Nat) (tie : TagDictionary → Nat) : Option Deployment :=
  (s.calling k).bind fun (tx, call) =>
    match call.progress with
    | .selecting =>
        let rows := orderBy tie ((s.view merge tx).active call.kbId)
        some (s.advance k tx call (.read (loadDict special rows)))
    | .starting | .read _ | .normalizing _ => none

def put (k : Nat) (redis : Bool) : Option Deployment :=
  (s.calling k).bind fun (tx, call) =>
    match call.progress with
    | .read mapping =>
        some { s.advance k tx call (.normalizing mapping) with
          cache := if redis then s.cache.set call.kbId mapping else s.cache }
    | .starting | .selecting | .normalizing _ => none

def mapStep : MapAction → Option Deployment
  | .begin => some s.begin
  | .start k kbId raws allowCreate => s.start k kbId raws allowCreate
  | .lookup k redis => s.lookup k redis
  | .select k tie => s.select special merge k tie
  | .put k redis => s.put k redis

/-! ## Changes -/

/-- What `normalize_tags` creates. A flush that fails leaves only the rollback. -/
def normalize (k : Nat) : Option Deployment :=
  (s.calling k).bind fun (tx, call) =>
    match call.progress with
    | .normalizing mapping =>
        (normalizeTags special call.kbId call.allowCreate (s.view merge tx) mapping call.raws).map
          fun normalized =>
            let idle := { tx with call := none }
            if normalized.createdAny then
              s.flush k idle { read := s.view merge tx, written := normalized.table } [call.kbId]
            else s.setTransaction k idle
    | .starting | .selecting | .read _ => none

def change (k kbId : Nat) (call : TagCall) : Option Deployment :=
  s.transactions[k]?.bind fun tx =>
    if tx.idle then
      ((s.view merge tx).change special kbId call).map fun written =>
        match (s.view merge tx).invalidated kbId call with
        | [] => s
        | base :: bases => s.flush k tx { read := s.view merge tx, written := written } (base :: bases)
    else none

/-- `invalidate_kb_dict_cache`, before the commit. -/
def invalidate (k : Nat) (redis : Bool) : Option Deployment :=
  s.transactions[k]?.bind fun tx =>
    match tx.invalidating with
    | [] => none
    | kbId :: kbIds =>
        some { s.setTransaction k { tx with invalidating := kbIds } with
          cache := if redis then s.cache.erase kbId else s.cache }

def commit (k : Nat) : Option Deployment :=
  s.transactions[k]?.bind fun tx =>
    if tx.idle then
      some { s with
        table := s.view merge tx
        transactions := (s.transactions.eraseIdx k).map (Transaction.sees (s.view merge tx)) }
    else none

def step (s : Deployment) : CacheAction → Option Deployment
  | .map action => s.mapStep special merge action
  | .normalize k => s.normalize special merge k
  | .change k kbId call => s.change special merge k kbId call
  | .invalidate k redis => s.invalidate k redis
  | .commit k => s.commit merge k
  | .abort k => some { s with transactions := s.transactions.eraseIdx k }
  | .drop kbId => some { s with cache := s.cache.erase kbId }

end Deployment

/-! ## Coherence -/

section Conditions

variable (special : String → Nat → List Char) (merge : Flush → TagTable → TagTable)

/-- The map is one of the rows of the table, with or without what a transaction flushed on top. -/
def Includes (flushed : List (List Flush)) (table : TagTable) (kbId : Nat)
    (mapping : Dict String String) : Prop :=
  ∃ flushes ∈ flushed, ∃ tie : TagDictionary → Nat,
    mapping = loadDict special (orderBy tie ((replay merge flushes table).active kbId))

/-- Every map that a call works with includes what was committed when the call started. -/
def AllIncluded (s : Deployment) : Prop :=
  ∀ tx ∈ s.transactions, ∀ call, tx.call = some call → ∀ mapping,
    call.progress = .normalizing mapping →
      ∃ table ∈ call.committed, Includes special merge s.flushed table call.kbId mapping

/-- So it is here and whichever calls follow. -/
def MapsIncluded (s : Deployment) : Prop :=
  ∀ actions : List MapAction, Visits (Deployment.mapStep special merge)
    (AllIncluded special merge) s actions

/-- Redis has the map, or a call has read it and puts it there. -/
inductive Held (s : Deployment) : Nat → Dict String String → Prop where
  | cached {kbId : Nat} {mapping : Dict String String} (h : s.cache.get? kbId = some mapping) :
      Held s kbId mapping
  | read {tx : Transaction} {call : NormalizeCall} {mapping : Dict String String}
      (h : tx ∈ s.transactions) (hcall : tx.call = some call) (hread : call.progress = .read mapping) :
      Held s call.kbId mapping

/-- A commit outdates no map that is in Redis or on its way there. -/
def CommitKeeps (s : Deployment) : CacheAction → Prop
  | .commit k => ∀ tx, s.transactions[k]? = some tx → ∀ kbId mapping, Held s kbId mapping →
      Includes special merge s.flushed (s.view merge tx) kbId mapping
  | .map _ | .normalize _ | .change _ _ _ | .invalidate _ _ | .abort _ | .drop _ => True

end Conditions

/-! ## What a step does -/

namespace Deployment

variable {special : String → Nat → List Char} {merge : Flush → TagTable → TagTable}
  {s s' : Deployment}

theorem calling_eq_some {k : Nat} {tx : Transaction} {call : NormalizeCall} :
    s.calling k = some (tx, call) ↔ s.transactions[k]? = some tx ∧ tx.call = some call := by
  unfold calling
  constructor
  · intro h
    rcases Option.bind_eq_some_iff.1 h with ⟨tx', htx, h⟩
    rcases Option.map_eq_some_iff.1 h with ⟨call', hcall, heq⟩
    cases heq
    exact ⟨htx, hcall⟩
  · intro h
    rw [h.1, Option.bind_some, h.2, Option.map_some]

theorem idle_call {tx : Transaction} (h : tx.idle = true) : tx.call = none := by
  unfold Transaction.idle at h
  rw [Bool.and_eq_true, Option.isNone_iff_eq_none] at h
  exact h.1

theorem start_eq_some {k kbId : Nat} {raws : List String} {allowCreate : Bool}
    (h : s.start k kbId raws allowCreate = some s') :
    ∃ tx call, s.transactions[k]? = some tx ∧ call.progress = .starting ∧
      call.committed = [s.table] ∧ s' = s.setTransaction k { tx with call := some call } := by
  rcases Option.bind_eq_some_iff.1 h with ⟨tx, htx, h⟩
  cases hidle : tx.idle with
  | true =>
      rw [if_pos hidle] at h
      cases h
      exact ⟨tx, _, htx, rfl, rfl, rfl⟩
  | false =>
      rw [if_neg (by simp [hidle])] at h
      cases h

theorem lookup_eq_some {k : Nat} {redis : Bool} (h : s.lookup k redis = some s') :
    ∃ tx call, s.calling k = some (tx, call) ∧ call.progress = .starting ∧
      ∃ progress, s' = s.advance k tx call progress ∧
        (progress = .selecting ∨
          ∃ mapping, s.cache.get? call.kbId = some mapping ∧ progress = .normalizing mapping) := by
  rcases Option.bind_eq_some_iff.1 h with ⟨⟨tx, call⟩, hcalling, h⟩
  cases hprogress : call.progress with
  | starting =>
      simp only [hprogress] at h
      refine ⟨tx, call, hcalling, hprogress, _, (Option.some.inj h).symm, ?_⟩
      cases redis with
      | false => exact .inl rfl
      | true =>
          cases hcached : s.cache.get? call.kbId with
          | none => exact .inl rfl
          | some mapping => exact .inr ⟨mapping, rfl, rfl⟩
  | selecting | read | normalizing =>
      simp only [hprogress] at h
      cases h

theorem select_eq_some {k : Nat} {tie : TagDictionary → Nat}
    (h : s.select special merge k tie = some s') :
    ∃ tx call, s.calling k = some (tx, call) ∧ call.progress = .selecting ∧
      s' = s.advance k tx call
        (.read (loadDict special (orderBy tie ((s.view merge tx).active call.kbId)))) := by
  rcases Option.bind_eq_some_iff.1 h with ⟨⟨tx, call⟩, hcalling, h⟩
  cases hprogress : call.progress with
  | selecting =>
      simp only [hprogress] at h
      exact ⟨tx, call, hcalling, hprogress, (Option.some.inj h).symm⟩
  | starting | read | normalizing =>
      simp only [hprogress] at h
      cases h

theorem put_eq_some {k : Nat} {redis : Bool} (h : s.put k redis = some s') :
    ∃ tx call mapping, s.calling k = some (tx, call) ∧ call.progress = .read mapping ∧
      s' = { s.advance k tx call (.normalizing mapping) with
        cache := if redis then s.cache.set call.kbId mapping else s.cache } := by
  rcases Option.bind_eq_some_iff.1 h with ⟨⟨tx, call⟩, hcalling, h⟩
  cases hprogress : call.progress with
  | read mapping =>
      simp only [hprogress] at h
      exact ⟨tx, call, mapping, hcalling, hprogress, (Option.some.inj h).symm⟩
  | starting | selecting | normalizing =>
      simp only [hprogress] at h
      cases h

/-- The call is over, and the transaction may have flushed. -/
theorem normalize_eq_some {k : Nat} (h : s.normalize special merge k = some s') :
    ∃ tx, s.transactions[k]? = some tx ∧
      (s' = s.setTransaction k { tx with call := none } ∨
        ∃ flush kbIds, s' = s.flush k { tx with call := none } flush kbIds) := by
  rcases Option.bind_eq_some_iff.1 h with ⟨⟨tx, call⟩, hcalling, h⟩
  cases hprogress : call.progress with
  | normalizing mapping =>
      simp only [hprogress] at h
      rcases Option.map_eq_some_iff.1 h with ⟨normalized, -, h⟩
      refine ⟨tx, (calling_eq_some.1 hcalling).1, ?_⟩
      split at h
      · exact .inr ⟨_, _, h.symm⟩
      · exact .inl h.symm
  | starting | selecting | read =>
      simp only [hprogress] at h
      cases h

theorem change_eq_some {k kbId : Nat} {call : TagCall}
    (h : s.change special merge k kbId call = some s') :
    s' = s ∨ ∃ tx flush kbIds, s.transactions[k]? = some tx ∧ tx.call = none ∧
      s' = s.flush k tx flush kbIds := by
  rcases Option.bind_eq_some_iff.1 h with ⟨tx, htx, h⟩
  cases hidle : tx.idle with
  | true =>
      rw [if_pos hidle] at h
      rcases Option.map_eq_some_iff.1 h with ⟨written, -, h⟩
      split at h
      · exact .inl h.symm
      · exact .inr ⟨tx, _, _, htx, idle_call hidle, h.symm⟩
  | false =>
      rw [if_neg (by simp [hidle])] at h
      cases h

theorem invalidate_eq_some {k : Nat} {redis : Bool} (h : s.invalidate k redis = some s') :
    ∃ tx kbId kbIds, s.transactions[k]? = some tx ∧
      s' = { s.setTransaction k { tx with invalidating := kbIds } with
        cache := if redis then s.cache.erase kbId else s.cache } := by
  rcases Option.bind_eq_some_iff.1 h with ⟨tx, htx, h⟩
  cases hkbIds : tx.invalidating with
  | nil =>
      simp only [hkbIds] at h
      cases h
  | cons kbId kbIds =>
      simp only [hkbIds] at h
      exact ⟨tx, kbId, kbIds, htx, (Option.some.inj h).symm⟩

theorem commit_eq_some {k : Nat} (h : s.commit merge k = some s') :
    ∃ tx, s.transactions[k]? = some tx ∧ tx.call = none ∧
      s' = { s with
        table := s.view merge tx
        transactions := (s.transactions.eraseIdx k).map (Transaction.sees (s.view merge tx)) } := by
  rcases Option.bind_eq_some_iff.1 h with ⟨tx, htx, h⟩
  cases hidle : tx.idle with
  | true =>
      rw [if_pos hidle] at h
      exact ⟨tx, htx, idle_call hidle, (Option.some.inj h).symm⟩
  | false =>
      rw [if_neg (by simp [hidle])] at h
      cases h

end Deployment

/-! ## The invariant -/

section Invariant

variable (special : String → Nat → List Char) (merge : Flush → TagTable → TagTable)

/-- Until it has its map, a call has the present rows among its own, and what it has read includes
them. -/
def NormalizeCall.Sound (flushed : List (List Flush)) (table : TagTable) (call : NormalizeCall) :
    Prop :=
  match call.progress with
  | .starting | .selecting => table ∈ call.committed
  | .read mapping =>
      table ∈ call.committed ∧ Includes special merge flushed table call.kbId mapping
  | .normalizing mapping =>
      ∃ table ∈ call.committed, Includes special merge flushed table call.kbId mapping

structure Transaction.Sound (flushed : List (List Flush)) (table : TagTable) (tx : Transaction) :
    Prop where
  known : tx.flushes ∈ flushed
  call : ∀ call, tx.call = some call → call.Sound special merge flushed table

structure Coherent (s : Deployment) : Prop where
  fresh : [] ∈ s.flushed
  cached : ∀ kbId mapping, s.cache.get? kbId = some mapping →
    Includes special merge s.flushed s.table kbId mapping
  transactions : ∀ tx ∈ s.transactions, tx.Sound special merge s.flushed s.table

end Invariant

section Preservation

variable {special : String → Nat → List Char} {merge : Flush → TagTable → TagTable}
  {s s' : Deployment}

theorem Includes.mono {flushed flushed' : List (List Flush)} (hsub : flushed ⊆ flushed')
    {table : TagTable} {kbId : Nat} {mapping : Dict String String}
    (h : Includes special merge flushed table kbId mapping) :
    Includes special merge flushed' table kbId mapping := by
  obtain ⟨flushes, hflushes, tie, hmapping⟩ := h
  exact ⟨flushes, hsub hflushes, tie, hmapping⟩

theorem NormalizeCall.Sound.mono {flushed flushed' : List (List Flush)} (hsub : flushed ⊆ flushed')
    {table : TagTable} {call : NormalizeCall} (h : call.Sound special merge flushed table) :
    call.Sound special merge flushed' table := by
  unfold NormalizeCall.Sound at h ⊢
  cases hprogress : call.progress with
  | starting | selecting =>
      rw [hprogress] at h
      exact h
  | read mapping =>
      rw [hprogress] at h
      exact ⟨h.1, h.2.mono hsub⟩
  | normalizing mapping =>
      rw [hprogress] at h
      obtain ⟨table', hmem, hincludes⟩ := h
      exact ⟨table', hmem, hincludes.mono hsub⟩

theorem Transaction.Sound.of_idle {flushed : List (List Flush)} {table : TagTable}
    {tx : Transaction} (hcall : tx.call = none) (hknown : tx.flushes ∈ flushed) :
    tx.Sound special merge flushed table := by
  constructor
  · exact hknown
  · intro call h
    rw [hcall] at h
    cases h

namespace Coherent

theorem initial (table : TagTable) : Coherent special merge { table := table } := by
  constructor
  · exact List.mem_singleton_self []
  · intro kbId mapping h
    cases h
  · intro tx h
    cases h

theorem calling (hs : Coherent special merge s) {k : Nat} {tx : Transaction} {call : NormalizeCall}
    (h : s.calling k = some (tx, call)) :
    tx.Sound special merge s.flushed s.table ∧ call.Sound special merge s.flushed s.table := by
  have hcalling := Deployment.calling_eq_some.1 h
  have htx := hs.transactions tx (List.mem_of_getElem? hcalling.1)
  exact ⟨htx, htx.call call hcalling.2⟩

theorem setTransaction (hs : Coherent special merge s) (k : Nat) {tx : Transaction}
    (htx : tx.Sound special merge s.flushed s.table) : Coherent special merge (s.setTransaction k tx) := by
  constructor
  · exact hs.fresh
  · exact hs.cached
  · intro other h
    cases List.mem_or_eq_of_mem_set h with
    | inl hold => exact hs.transactions other hold
    | inr hnew =>
        rw [hnew]
        exact htx

theorem advance (hs : Coherent special merge s) {k : Nat} {tx : Transaction} {call : NormalizeCall}
    {progress : Progress} (htx : tx.Sound special merge s.flushed s.table)
    (hcall : NormalizeCall.Sound special merge s.flushed s.table { call with progress := progress }) :
    Coherent special merge (s.advance k tx call progress) := by
  apply hs.setTransaction k
  constructor
  · exact htx.known
  · intro other h
    cases h
    exact hcall

theorem withCache (hs : Coherent special merge s) {cache : Dict Nat (Dict String String)}
    (hcache : ∀ kbId mapping, cache.get? kbId = some mapping →
      Includes special merge s.flushed s.table kbId mapping) :
    Coherent special merge { s with cache := cache } where
  fresh := hs.fresh
  cached := hcache
  transactions := hs.transactions

theorem flush (hs : Coherent special merge s) (k : Nat) {tx : Transaction} (hcall : tx.call = none)
    (flush : Flush) (kbIds : List Nat) : Coherent special merge (s.flush k tx flush kbIds) := by
  have hsub : s.flushed ⊆ s.flushed ++ [tx.flushes ++ [flush]] := List.subset_append_left _ _
  constructor
  · exact hsub hs.fresh
  · intro kbId mapping h
    exact (hs.cached kbId mapping h).mono hsub
  · intro other h
    cases List.mem_or_eq_of_mem_set h with
    | inl hold =>
        have hother := hs.transactions other hold
        exact ⟨hsub hother.known, fun call hother' => (hother.call call hother').mono hsub⟩
    | inr hnew =>
        rw [hnew]
        exact .of_idle hcall (List.mem_append_right _ (List.mem_singleton_self _))

theorem eraseTransaction (hs : Coherent special merge s) (k : Nat) :
    Coherent special merge { s with transactions := s.transactions.eraseIdx k } where
  fresh := hs.fresh
  cached := hs.cached
  transactions := fun tx htx => hs.transactions tx (List.mem_of_mem_eraseIdx htx)

/-! ### The lookup map -/

theorem begin (hs : Coherent special merge s) : Coherent special merge s.begin := by
  constructor
  · exact hs.fresh
  · exact hs.cached
  · intro tx h
    cases List.mem_append.1 h with
    | inl hold => exact hs.transactions tx hold
    | inr hnew =>
        rw [List.mem_singleton.1 hnew]
        exact .of_idle rfl hs.fresh

theorem start (hs : Coherent special merge s) {k kbId : Nat} {raws : List String}
    {allowCreate : Bool} (h : s.start k kbId raws allowCreate = some s') :
    Coherent special merge s' := by
  obtain ⟨tx, call, htx, hprogress, hcommitted, rfl⟩ := Deployment.start_eq_some h
  apply hs.setTransaction k
  constructor
  · exact (hs.transactions tx (List.mem_of_getElem? htx)).known
  · intro other hother
    cases hother
    unfold NormalizeCall.Sound
    rw [hprogress, hcommitted]
    exact List.mem_singleton_self s.table

theorem lookup (hs : Coherent special merge s) {k : Nat} {redis : Bool}
    (h : s.lookup k redis = some s') : Coherent special merge s' := by
  obtain ⟨tx, call, hcalling, hprogress, progress, rfl, hnext⟩ := Deployment.lookup_eq_some h
  have hsound := hs.calling hcalling
  have hpresent : s.table ∈ call.committed := by
    have hcall := hsound.2
    unfold NormalizeCall.Sound at hcall
    rw [hprogress] at hcall
    exact hcall
  apply hs.advance hsound.1
  rcases hnext with rfl | ⟨mapping, hcached, rfl⟩
  · exact hpresent
  · exact ⟨s.table, hpresent, hs.cached _ _ hcached⟩

theorem select (hs : Coherent special merge s) {k : Nat} {tie : TagDictionary → Nat}
    (h : s.select special merge k tie = some s') : Coherent special merge s' := by
  obtain ⟨tx, call, hcalling, hprogress, rfl⟩ := Deployment.select_eq_some h
  have hsound := hs.calling hcalling
  apply hs.advance hsound.1
  constructor
  · have hcall := hsound.2
    unfold NormalizeCall.Sound at hcall
    rw [hprogress] at hcall
    exact hcall
  · exact ⟨tx.flushes, hsound.1.known, tie, rfl⟩

theorem put (hs : Coherent special merge s) {k : Nat} {redis : Bool}
    (h : s.put k redis = some s') : Coherent special merge s' := by
  obtain ⟨tx, call, mapping, hcalling, hprogress, rfl⟩ := Deployment.put_eq_some h
  have hsound := hs.calling hcalling
  have hread : s.table ∈ call.committed ∧
      Includes special merge s.flushed s.table call.kbId mapping := by
    have hcall := hsound.2
    unfold NormalizeCall.Sound at hcall
    rw [hprogress] at hcall
    exact hcall
  have hadvanced : Coherent special merge (s.advance k tx call (.normalizing mapping)) :=
    hs.advance hsound.1 ⟨s.table, hread⟩
  apply hadvanced.withCache
  intro kbId found hfound
  cases redis with
  | false => exact hs.cached kbId found hfound
  | true =>
      rw [if_pos rfl, Dict.get?_set] at hfound
      by_cases hkbId : kbId = call.kbId
      · rw [if_pos hkbId] at hfound
        cases hfound
        rw [hkbId]
        exact hread.2
      · rw [if_neg hkbId] at hfound
        exact hs.cached kbId found hfound

theorem mapStep (hs : Coherent special merge s) {action : MapAction}
    (h : s.mapStep special merge action = some s') : Coherent special merge s' := by
  cases action with
  | begin =>
      cases h
      exact hs.begin
  | start k kbId raws allowCreate => exact hs.start h
  | lookup k redis => exact hs.lookup h
  | select k tie => exact hs.select h
  | put k redis => exact hs.put h

theorem normalize (hs : Coherent special merge s) {k : Nat}
    (h : s.normalize special merge k = some s') : Coherent special merge s' := by
  obtain ⟨tx, htx, hnext⟩ := Deployment.normalize_eq_some h
  rcases hnext with rfl | ⟨flush, kbIds, rfl⟩
  · exact hs.setTransaction k (.of_idle rfl (hs.transactions tx (List.mem_of_getElem? htx)).known)
  · exact hs.flush k rfl flush kbIds

theorem change (hs : Coherent special merge s) {k kbId : Nat} {call : TagCall}
    (h : s.change special merge k kbId call = some s') : Coherent special merge s' := by
  rcases Deployment.change_eq_some h with rfl | ⟨tx, flush, kbIds, -, hcall, rfl⟩
  · exact hs
  · exact hs.flush k hcall flush kbIds

theorem erase_cached (hs : Coherent special merge s) (base : Nat) :
    ∀ kbId mapping, (s.cache.erase base).get? kbId = some mapping →
      Includes special merge s.flushed s.table kbId mapping :=
  fun kbId mapping h => hs.cached kbId mapping (Dict.get?_of_get?_erase h)

theorem invalidate (hs : Coherent special merge s) {k : Nat} {redis : Bool}
    (h : s.invalidate k redis = some s') : Coherent special merge s' := by
  obtain ⟨tx, base, kbIds, htx, rfl⟩ := Deployment.invalidate_eq_some h
  have hsound := hs.transactions tx (List.mem_of_getElem? htx)
  have hleft : Coherent special merge (s.setTransaction k { tx with invalidating := kbIds }) :=
    hs.setTransaction k ⟨hsound.known, hsound.call⟩
  apply hleft.withCache
  cases redis with
  | false => exact hs.cached
  | true => exact hs.erase_cached base

/-- A commit that outdates nothing. The rows join those of the calls that have no map. -/
theorem commit (hs : Coherent special merge s) {k : Nat} {tx : Transaction}
    (hkeeps : ∀ kbId mapping, Held s kbId mapping →
      Includes special merge s.flushed (s.view merge tx) kbId mapping) :
    Coherent special merge { s with
      table := s.view merge tx
      transactions := (s.transactions.eraseIdx k).map (Transaction.sees (s.view merge tx)) } := by
  constructor
  · exact hs.fresh
  · intro kbId mapping h
    exact hkeeps kbId mapping (.cached h)
  · intro other h
    obtain ⟨other, hmem, rfl⟩ := List.mem_map.1 h
    have hother := hs.transactions other (List.mem_of_mem_eraseIdx hmem)
    constructor
    · exact hother.known
    · intro call hcall
      obtain ⟨call, hold, rfl⟩ := Option.map_eq_some_iff.1 hcall
      have hsound := hother.call call hold
      unfold NormalizeCall.Sound at hsound
      unfold NormalizeCall.sees NormalizeCall.Sound
      cases hprogress : call.progress with
      | starting | selecting => exact List.mem_cons_self
      | read mapping =>
          exact ⟨List.mem_cons_self,
            hkeeps call.kbId mapping (.read (List.mem_of_mem_eraseIdx hmem) hold hprogress)⟩
      | normalizing mapping =>
          simp only [hprogress] at hsound ⊢
          exact hsound

end Coherent

/-! ## A commit that outdates a held map -/

theorem MapsIncluded.mapStep (h : MapsIncluded special merge s) {action : MapAction}
    (hstep : s.mapStep special merge action = some s') : MapsIncluded special merge s' :=
  fun actions => (h (action :: actions)).2 s' hstep

/-- The next call on the base works with the map that Redis has. -/
theorem MapsIncluded.cached (h : MapsIncluded special merge s) {kbId : Nat}
    {mapping : Dict String String} (hcached : s.cache.get? kbId = some mapping) :
    Includes special merge s.flushed s.table kbId mapping := by
  let k := s.transactions.length
  let call : NormalizeCall :=
    { kbId := kbId, raws := [], allowCreate := false, committed := [s.table] }
  let calling : Transaction := { call := some call }
  let normalizing : Transaction := { call := some { call with progress := .normalizing mapping } }
  let started := s.begin.setTransaction k calling
  have hbegin : s.mapStep special merge .begin = some s.begin := rfl
  have hidle : s.begin.transactions[k]? = some {} := List.getElem?_concat_length
  have hstart : s.begin.mapStep special merge (.start k kbId [] false) = some started := by
    show s.begin.transactions[k]?.bind _ = _
    rw [hidle]
    rfl
  have htx : started.transactions[k]? = some calling := by
    have hk : k < s.begin.transactions.length := (List.getElem?_eq_some_iff.1 hidle).1
    exact List.getElem?_set_self hk
  have hlookup : started.mapStep special merge (.lookup k true) =
      some (started.setTransaction k normalizing) := by
    show (started.calling k).bind _ = _
    rw [Deployment.calling_eq_some.2 ⟨htx, rfl⟩]
    show some (started.advance k calling call
      ((s.cache.get? kbId).elim .selecting .normalizing)) = _
    rw [hcached]
    rfl
  have hall : AllIncluded special merge (started.setTransaction k normalizing) :=
    (((h.mapStep hbegin).mapStep hstart).mapStep hlookup) []
  have hmem : normalizing ∈ (started.setTransaction k normalizing).transactions :=
    List.mem_set (List.getElem?_eq_some_iff.1 htx).1 normalizing
  obtain ⟨table, htable, hincludes⟩ := hall normalizing hmem _ rfl mapping rfl
  rw [List.mem_singleton.1 htable] at hincludes
  exact hincludes

/-- A map that a call has read is in Redis after its next step. -/
theorem MapsIncluded.held (h : MapsIncluded special merge s) {kbId : Nat}
    {mapping : Dict String String} (hheld : Held s kbId mapping) :
    Includes special merge s.flushed s.table kbId mapping := by
  cases hheld with
  | cached hcached => exact h.cached hcached
  | @read tx call _ hmem hcall hread =>
      obtain ⟨k, htx⟩ := List.getElem?_of_mem hmem
      let stored : Deployment := { s.advance k tx call (.normalizing mapping) with
        cache := s.cache.set call.kbId mapping }
      have hput : s.mapStep special merge (.put k true) = some stored := by
        show (s.calling k).bind _ = _
        rw [Deployment.calling_eq_some.2 ⟨htx, hcall⟩, Option.bind_some]
        simp only [hread]
        rfl
      have hcached : stored.cache.get? call.kbId = some mapping := Dict.get?_set_self _ _ _
      exact (h.mapStep hput).cached hcached

theorem held_commit {k : Nat} {tx : Transaction} (htx : s.transactions[k]? = some tx)
    (hidle : tx.call = none) (table : TagTable) {kbId : Nat} {mapping : Dict String String}
    (h : Held s kbId mapping) :
    Held { s with
      table := table
      transactions := (s.transactions.eraseIdx k).map (Transaction.sees table) } kbId mapping := by
  cases h with
  | cached hcached => exact .cached hcached
  | @read other call _ hmem hcall hread =>
      -- a transaction that commits is in no call
      obtain ⟨i, hother⟩ := List.getElem?_of_mem hmem
      have hne : i ≠ k := by
        rintro rfl
        rw [htx] at hother
        cases hother
        rw [hidle] at hcall
        cases hcall
      have hleft : other ∈ s.transactions.eraseIdx k :=
        List.mem_eraseIdx_iff_getElem?.2 ⟨i, hne, hother⟩
      have hsees : call.sees table = { call with committed := table :: call.committed } := by
        unfold NormalizeCall.sees
        rw [hread]
      have hcall' : (other.sees table).call = some (call.sees table) := by
        unfold Transaction.sees
        rw [hcall, Option.map_some]
      have hread' : (call.sees table).progress = .read mapping := by
        rw [hsees]
        exact hread
      have hkbId : (call.sees table).kbId = call.kbId := by rw [hsees]
      rw [← hkbId]
      exact .read (List.mem_map_of_mem hleft) hcall' hread'

theorem Coherent.step_iff {action : CacheAction} (hs : Coherent special merge s)
    (h : s.step special merge action = some s') :
    (MapsIncluded special merge s' → CommitKeeps special merge s action) ∧
      (CommitKeeps special merge s action → Coherent special merge s') := by
  cases action with
  | map action => exact ⟨fun _ => trivial, fun _ => hs.mapStep h⟩
  | normalize k => exact ⟨fun _ => trivial, fun _ => hs.normalize h⟩
  | change k kbId call => exact ⟨fun _ => trivial, fun _ => hs.change h⟩
  | invalidate k redis => exact ⟨fun _ => trivial, fun _ => hs.invalidate h⟩
  | commit k =>
      obtain ⟨tx, htx, hidle, rfl⟩ := Deployment.commit_eq_some h
      constructor
      · intro hmaps other hother kbId mapping hheld
        rw [htx] at hother
        cases hother
        exact hmaps.held (held_commit htx hidle _ hheld)
      · intro hkeeps
        exact hs.commit (hkeeps tx htx)
  | abort k =>
      cases h
      exact ⟨fun _ => trivial, fun _ => hs.eraseTransaction k⟩
  | drop kbId =>
      cases h
      exact ⟨fun _ => trivial, fun _ => hs.withCache (hs.erase_cached kbId)⟩

end Preservation

end OpsKnowledge.Tagging
