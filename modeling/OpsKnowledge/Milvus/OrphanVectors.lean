import OpsKnowledge.Lib.Lifetime
import OpsKnowledge.Milvus.Tasks

/-!
# Orphan vectors

`clean_orphan_vectors` lists the ids of a collection, then reads the ids of the chunks of its
base, and deletes in batches what is in the first set and not in the second. A chunk is committed
before its vector is inserted and its id is not used again, so what has no chunk at the second read
never gets one.
-/

namespace OpsKnowledge.Milvus

open OpsKnowledge.Lib OpsKnowledge.Knowledge

/-! ## The properties -/

namespace Stores

variable (st : Stores)

/-- The collection holds a vector of the id. -/
def Holds (name : CollectionName) (i : Nat) : Prop := ∃ held ∈ st.collections name, i ∈ held

/-- A chunk of the base exists. -/
def Exists (kbId i : Nat) : Prop := ∃ c ∈ st.chunks, c.id = i ∧ c.knowledgeBaseId = kbId

end Stores

namespace VectorState

/-- What a governance task of the base deletes is in its collection, and is no chunk of it. -/
def DeletesOrphans (s : VectorState) : VectorAction → Prop
  | .advance k => ∀ g, s.tasks[k]? = some (.governance g) → ∀ name i, s.Holds name i →
      ¬ (g.advance s.toStores).1.Holds name i → name = .live g.kbId ∧ ¬ s.Exists g.kbId i
  | _ => True

/-- With the lock free, a cleaning that runs alone ends, and only ids of chunks are left. -/
def CleansAlone (s : VectorState) : Prop :=
  ∀ kbId batchSize redisUp, 0 < batchSize → (redisUp = true → kbId ∉ s.locks) →
    ∃ n s', runSteps vectorStep s (.startGovernance kbId (some batchSize) redisUp ::
      List.replicate n (.advance s.tasks.length)) = some s' ∧ s'.tasks = s.tasks ∧
        ∀ i, s'.Holds (.live kbId) i → s'.Exists kbId i

end VectorState

/-! ## The lifetimes of chunk ids -/

namespace Stores

def lifetimes (st : Stores) (kbId : Nat) : Lifetimes Nat where
  live := { i | st.Exists kbId i }
  issued := { i | i ∈ st.issued }

/-- No id of a chunk that is gone comes back. -/
def Ages (st st' : Stores) : Prop := ∀ kbId, (st.lifetimes kbId).Later (st'.lifetimes kbId)

/-- Chunk rows are committed before their vectors are inserted. -/
structure Known (st : Stores) : Prop where
  chunks : ∀ c ∈ st.chunks, c.id ∈ st.issued
  vectors : ∀ name i, st.Holds name i → i ∈ st.issued

variable {st st' : Stores} {name : CollectionName} {ids : Option (List Nat)} {i : Nat}

theorem Ages.refl (st : Stores) : Ages st st := fun kbId => Lifetimes.Later.refl (st.lifetimes kbId)

theorem Ages.issued (h : Ages st st') (hi : i ∈ st.issued) : i ∈ st'.issued := (h 0).issued hi

/-- A step that commits no row. -/
theorem Ages.of_chunks (hissued : st'.issued = st.issued)
    (h : ∀ c ∈ st'.chunks, ∃ d ∈ st.chunks, d.id = c.id ∧ d.knowledgeBaseId = c.knowledgeBaseId) :
    Ages st st' := by
  intro kbId
  constructor
  · intro i hi
    show i ∈ st'.issued
    rw [hissued]
    exact hi
  · intro i _ hlive
    obtain ⟨c, hc, hid, hkb⟩ := hlive
    obtain ⟨d, hd, hdid, hdkb⟩ := h c hc
    exact ⟨d, hd, hdid.trans hid, hdkb.trans hkb⟩

theorem holds_setCollection {n : CollectionName} (h : (st.setCollection name ids).Holds n i) :
    (n = name ∧ ∃ held ∈ ids, i ∈ held) ∨ st.Holds n i := by
  obtain ⟨held, hheld, hi⟩ := h
  by_cases hn : n = name
  · subst hn
    left
    have hupdate : Function.update st.collections n ids n = some held := hheld
    rw [Function.update_self] at hupdate
    exact ⟨rfl, held, hupdate, hi⟩
  · right
    have hupdate : Function.update st.collections name ids n = some held := hheld
    rw [Function.update_of_ne hn] at hupdate
    exact ⟨held, hupdate, hi⟩

theorem holds_setCollection_self (held : List Nat) :
    (st.setCollection name (some held)).Holds name i ↔ i ∈ held := by
  unfold Holds setCollection
  simp

theorem holds_setCollection_of_ne {n : CollectionName} (hn : n ≠ name) :
    (st.setCollection name ids).Holds n i ↔ st.Holds n i := by
  unfold Holds setCollection
  simp [hn]

theorem Known.setCollection (h : st.Known) (hids : ∀ held ∈ ids, ∀ i ∈ held, i ∈ st.issued) :
    (st.setCollection name ids).Known := by
  constructor
  · exact h.chunks
  · intro n i hi
    cases holds_setCollection hi with
    | inl hnew =>
      obtain ⟨-, held, hheld, hmem⟩ := hnew
      exact hids held hheld i hmem
    | inr hold => exact h.vectors n i hold

theorem Known.collection (h : st.Known) {held : List Nat} (hheld : st.collections name = some held) :
    ∀ i ∈ held, i ∈ st.issued := fun i hi => h.vectors name i ⟨held, hheld, hi⟩

theorem Known.createCollection (h : st.Known) : (st.createCollection name).Known := by
  apply h.setCollection
  intro held hheld i hi
  cases hcase : st.collections name with
  | none =>
    rw [hcase] at hheld
    cases hheld
    cases hi
  | some old =>
    rw [hcase] at hheld
    cases hheld
    exact h.collection hcase i hi

theorem Known.deleteByIds (h : st.Known) (ids : List Nat) : (st.deleteByIds name ids).Known := by
  apply h.setCollection
  intro held hheld i hi
  obtain ⟨old, hold, rfl⟩ := Option.map_eq_some_iff.1 hheld
  exact h.collection hold i (List.mem_of_mem_filter hi)

/-- Rows that keep their ids and bases. -/
theorem Known.updateChunks (h : st.Known) (p : Chunk → Bool) (f : Chunk → Chunk)
    (hid : ∀ c, (f c).id = c.id) : ({ st with chunks := updateWhere p f st.chunks } : Stores).Known := by
  constructor
  · intro c hc
    obtain ⟨d, hd, rfl⟩ := mem_updateWhere.1 hc
    split
    · rw [hid]
      exact h.chunks d hd
    · exact h.chunks d hd
  · exact h.vectors

theorem Ages.updateChunks (st : Stores) (p : Chunk → Bool) (f : Chunk → Chunk)
    (hid : ∀ c, (f c).id = c.id) (hkb : ∀ c, (f c).knowledgeBaseId = c.knowledgeBaseId) :
    Ages st { st with chunks := updateWhere p f st.chunks } := by
  have hissued : ({ st with chunks := updateWhere p f st.chunks } : Stores).issued = st.issued := rfl
  apply Ages.of_chunks hissued
  intro c hc
  obtain ⟨d, hd, rfl⟩ := mem_updateWhere.1 hc
  split
  · exact ⟨d, hd, (hid d).symm, (hkb d).symm⟩
  · exact ⟨d, hd, rfl, rfl⟩

theorem commitChunks_spec {rows : List Chunk} (h : st.Known) (hst : st.commitChunks rows = some st') :
    st'.Known ∧ Ages st st' ∧ ∀ c ∈ rows, c.id ∈ st'.issued := by
  unfold commitChunks at hst
  obtain ⟨hfresh, ⟨⟩⟩ := Option.ite_none_right_eq_some.1 hst
  have hnew : ∀ c ∈ rows, c.id ∈ st.issued ++ rows.map Chunk.id := by
    intro c hc
    exact List.mem_append_right _ (List.mem_map_of_mem hc)
  have hold : ∀ i ∈ st.issued, i ∈ st.issued ++ rows.map Chunk.id := by
    intro i hi
    exact List.mem_append_left _ hi
  have hknown : ∀ c ∈ st.chunks ++ rows, c.id ∈ st.issued ++ rows.map Chunk.id := by
    intro c hc
    cases List.mem_append.1 hc with
    | inl hc => exact hold c.id (h.chunks c hc)
    | inr hc => exact hnew c hc
  have hages : ∀ kbId i, i ∈ st.issued →
      (∃ c ∈ st.chunks ++ rows, c.id = i ∧ c.knowledgeBaseId = kbId) → st.Exists kbId i := by
    intro kbId i hi hlive
    obtain ⟨c, hc, hid, hkb⟩ := hlive
    cases List.mem_append.1 hc with
    | inl hc => exact ⟨c, hc, hid, hkb⟩
    | inr hc =>
      rw [← hid] at hi
      exact absurd hi (hfresh c hc)
  constructor
  · exact ⟨hknown, fun n i hi => hold i (h.vectors n i hi)⟩
  · exact ⟨fun kbId => ⟨hold, hages kbId⟩, hnew⟩

end Stores

/-! ## What the tasks know -/

structure GovernanceRun.Known (g : GovernanceRun) (st : Stores) : Prop where
  listed : ∀ milvusIds, g.phase = .listed milvusIds → ∀ i ∈ milvusIds, i ∈ st.issued
  orphans : ∀ orphanIds, g.phase = .deleting orphanIds →
    ∀ i ∈ orphanIds, (st.lifetimes g.kbId).Expired i

def MilvusTask.Known (st : Stores) : MilvusTask → Prop
  | .embed e => ∀ c ∈ e.pending, c.id ∈ st.issued
  | .reindex r => ∀ c ∈ r.pending, c.id ∈ st.issued
  | .tags w => ∀ rows ∈ w.rows, ∀ i ∈ rows, i ∈ st.issued
  | .governance g => g.Known st

variable {st st' : Stores}

theorem MilvusTask.Known.later {t : MilvusTask} (h : t.Known st) (hages : st.Ages st') : t.Known st' := by
  cases t with
  | embed e => exact fun c hc => hages.issued (h c hc)
  | reindex r => exact fun c hc => hages.issued (h c hc)
  | tags w => exact fun rows hrows i hi => hages.issued (h rows hrows i hi)
  | governance g =>
    have hg : g.Known st := h
    constructor
    · exact fun ids hphase i hi => hages.issued (hg.listed ids hphase i hi)
    · exact fun ids hphase i hi => (hages g.kbId).expired (hg.orphans ids hphase i hi)

abbrev storesRely : Rely Stores MilvusTask where
  inv := Stores.Known
  later := Stores.Ages
  knows := fun t st => t.Known st
  refl := Stores.Ages.refl
  stable := fun _ _ _ hages h => MilvusTask.Known.later h hages

theorem setVectorIds_kept (h : st.Known) (stored : List Chunk) :
    storesRely.Keeps st ({ st with chunks := setVectorIds stored st.chunks }, none) := by
  apply Rely.Keeps.last
  · exact h.updateChunks _ _ fun _ => rfl
  · exact Stores.Ages.updateChunks st _ _ (fun _ => rfl) fun _ => rfl

/-- A batch of an embedding that is in progress. -/
theorem Stores.Known.storeBatch (h : st.Known) {name : CollectionName} {held : List Nat} {rows : List Chunk}
    (hheld : st.collections name = some held) (hrows : ∀ c ∈ rows, c.id ∈ st.issued) (n : Nat) :
    (st.setCollection name (some (held ∪ (rows.take n).map Chunk.id))).Known := by
  apply h.setCollection
  intro new hnew i hi
  cases hnew
  cases List.mem_union_iff.1 hi with
  | inl hold => exact h.collection hheld i hold
  | inr hbatch =>
    obtain ⟨c, hc, rfl⟩ := List.mem_map.1 hbatch
    exact hrows c (List.mem_of_mem_take hc)

theorem UnitEmbed.advance_kept {e : UnitEmbed} (h : st.Known) (he : ∀ c ∈ e.pending, c.id ∈ st.issued) :
    storesRely.Keeps st (e.advance st) := by
  unfold UnitEmbed.advance
  split
  · split
    · exact setVectorIds_kept h e.stored
    · cases hheld : st.collections (.live e.kbId) with
      | none => exact Rely.Keeps.last h (Stores.Ages.refl st)
      | some held =>
        apply Rely.Keeps.next
        · exact h.storeBatch hheld he batchSize
        · exact Stores.Ages.refl st
        · intro c hc
          exact he c (mem_pending_of_next hc)
  · exact Rely.Keeps.next h.createCollection (Stores.Ages.refl st) he

theorem KbReindex.cleanup_known (r : KbReindex) (h : st.Known) : (r.cleanup st).Known := by
  unfold KbReindex.cleanup
  split
  · exact h
  · exact h.setCollection fun held hheld => nomatch hheld

theorem KbReindex.cleanup_ages (r : KbReindex) (st : Stores) : st.Ages (r.cleanup st) := by
  unfold KbReindex.cleanup
  split
  · exact Stores.Ages.refl st
  · exact Stores.Ages.refl st

theorem KbReindex.advance_kept {r : KbReindex} (h : st.Known) (hr : ∀ c ∈ r.pending, c.id ∈ st.issued) :
    storesRely.Keeps st (r.advance st) := by
  unfold KbReindex.advance
  cases r.phase with
  | started => exact Rely.Keeps.next h.createCollection (Stores.Ages.refl st) hr
  | building =>
    dsimp only
    split
    · apply Rely.Keeps.next
      · exact h.setCollection fun held hheld => nomatch hheld
      · exact Stores.Ages.refl st
      · exact hr
    · cases hheld : st.collections (.fresh r.kbId) with
      | none => exact Rely.Keeps.last (r.cleanup_known h) (r.cleanup_ages st)
      | some held =>
        apply Rely.Keeps.next
        · exact h.storeBatch hheld hr batchSize
        · exact Stores.Ages.refl st
        · intro c hc
          exact hr c (mem_pending_of_next hc)
  | dropped =>
    dsimp only
    split
    · next held hheld hfree =>
      have hnew : (st.setCollection (.live r.kbId) (some held)).Known := by
        apply h.setCollection
        intro new hnew
        cases hnew
        exact h.collection hheld
      apply Rely.Keeps.next
      · exact hnew.setCollection fun held hheld => nomatch hheld
      · exact Stores.Ages.refl st
      · exact hr
    · exact Rely.Keeps.last (r.cleanup_known h) (r.cleanup_ages st)
  | renamed => exact setVectorIds_kept h r.stored

theorem TagWrite.advance_kept {w : TagWrite} (h : st.Known)
    (hw : ∀ rows ∈ w.rows, ∀ i ∈ rows, i ∈ st.issued) : storesRely.Keeps st (w.advance st) := by
  unfold TagWrite.advance
  cases hheld : st.collections (.live w.kbId) with
  | none => exact Rely.Keeps.last h (Stores.Ages.refl st)
  | some held =>
    dsimp only
    cases hrows : w.rows with
    | none =>
      apply Rely.Keeps.next h (Stores.Ages.refl st)
      intro rows hmem i hi
      cases hmem
      exact h.collection hheld i (List.mem_of_mem_filter hi)
    | some rows =>
      apply Rely.Keeps.last
      · apply h.setCollection
        intro new hnew i hi
        cases hnew
        cases List.mem_union_iff.1 hi with
        | inl hold => exact h.collection hheld i hold
        | inr hrow => exact hw rows hrows i hrow
      · exact Stores.Ages.refl st

theorem mem_orphans {milvusIds pgIds : List Nat} {i : Nat} :
    i ∈ orphans milvusIds pgIds ↔ i ∈ milvusIds ∧ i ∉ pgIds := by
  unfold orphans
  rw [mem_orderBy, List.mem_filter, List.mem_dedup, decide_eq_true_iff]

theorem Stores.mem_chunkIds {kbId i : Nat} : i ∈ st.chunkIds kbId ↔ st.Exists kbId i := by
  unfold Stores.chunkIds Stores.Exists
  rw [List.mem_map]
  simp only [List.mem_filter, decide_eq_true_eq, and_assoc, and_comm]

/-- The ids were listed before the chunks are read, so an id without a chunk has expired. -/
theorem GovernanceRun.advance_kept {g : GovernanceRun} (h : st.Known) (hg : g.Known st) :
    storesRely.Keeps st (g.advance st) := by
  unfold GovernanceRun.advance
  cases hphase : g.phase with
  | locked =>
    dsimp only
    split
    · apply Rely.Keeps.next h (Stores.Ages.refl st)
      constructor
      · intro ids heq
        cases heq
      · intro ids heq
        cases heq
    · exact Rely.Keeps.last ⟨h.chunks, h.vectors⟩ (Stores.Ages.refl st)
  | found =>
    dsimp only
    cases hheld : st.collections (.live g.kbId) with
    | none => exact Rely.Keeps.last ⟨h.chunks, h.vectors⟩ (Stores.Ages.refl st)
    | some held =>
      apply Rely.Keeps.next h (Stores.Ages.refl st)
      constructor
      · intro ids heq
        cases heq
        exact h.collection hheld
      · intro ids heq
        cases heq
  | listed milvusIds =>
    apply Rely.Keeps.next h (Stores.Ages.refl st)
    constructor
    · intro ids heq
      cases heq
    · intro ids heq i hi
      cases heq
      have hboth := mem_orphans.1 hi
      have hmissing : ¬ st.Exists g.kbId i := fun hex => hboth.2 (Stores.mem_chunkIds.2 hex)
      exact ⟨hg.listed milvusIds hphase i hboth.1, hmissing⟩
  | deleting orphanIds =>
    dsimp only
    cases g.batchSize with
    | none => exact Rely.Keeps.last ⟨h.chunks, h.vectors⟩ (Stores.Ages.refl st)
    | some batchSize =>
      dsimp only
      split
      · exact Rely.Keeps.last ⟨h.chunks, h.vectors⟩ (Stores.Ages.refl st)
      · apply Rely.Keeps.next (h.deleteByIds _) (Stores.Ages.refl st)
        constructor
        · intro ids heq
          cases heq
        · intro ids heq i hi
          cases heq
          exact hg.orphans orphanIds hphase i (List.mem_of_mem_drop hi)

theorem MilvusTask.advance_kept {t : MilvusTask} (h : st.Known) (ht : t.Known st) :
    storesRely.Keeps st (t.advance st) := by
  cases t with
  | embed e => exact UnitEmbed.advance_kept h ht
  | reindex r => exact KbReindex.advance_kept h ht
  | tags w => exact TagWrite.advance_kept h ht
  | governance g => exact GovernanceRun.advance_kept h ht

theorem MilvusTask.cleanup_kept (t : MilvusTask) (h : st.Known) :
    storesRely.Keeps st (t.cleanup st, none) := by
  cases t with
  | embed e => exact Rely.Keeps.last h (Stores.Ages.refl st)
  | reindex r => exact Rely.Keeps.last (r.cleanup_known h) (r.cleanup_ages st)
  | tags w => exact Rely.Keeps.last h (Stores.Ages.refl st)
  | governance g => exact Rely.Keeps.last ⟨h.chunks, h.vectors⟩ (Stores.Ages.refl st)

/-! ## The invariant -/

namespace VectorState

variable {s s' : VectorState}

/-- The invariant holds, and every task knows what it needs. -/
abbrev Sound (s : VectorState) : Prop := storesRely.Sound s.toStores s.tasks

theorem Sound.startEmbed (h : s.Sound) (unitType : UnitType) (unitId kbId : Nat) :
    (s.startEmbed unitType unitId kbId).Sound := by
  unfold VectorState.startEmbed
  dsimp only
  split
  · exact h
  · apply h.spawn
    intro c hc
    exact h.inv.chunks c (mem_unembedded.1 hc).1

theorem Sound.startSummaries (h : s.Sound) {rows : List Chunk} {kbId : Nat}
    (hs' : s.startSummaries rows kbId = some s') : s'.Sound := by
  obtain ⟨st, hst, heq⟩ := Option.bind_eq_some_iff.1 hs'
  cases heq
  obtain ⟨hknown, hages, hrows⟩ := Stores.commitChunks_spec h.inv hst
  have ht : MilvusTask.Known st (.embed { pending := rows, kbId := kbId, created := true }) := hrows
  exact (h.later hknown hages).spawn ht

theorem Sound.startReindex (h : s.Sound) (kbId : Nat) : (s.startReindex kbId).Sound := by
  unfold VectorState.startReindex
  dsimp only
  split
  · exact h
  · apply h.spawn
    intro c hc
    exact h.inv.chunks c (List.mem_of_mem_filter (mem_orderBy.1 hc))

theorem Sound.startGovernance (h : s.Sound) (kbId : Nat) (batchSize : Option Nat) (redisUp : Bool) :
    (s.startGovernance kbId batchSize redisUp).Sound := by
  have hspawn : (s.spawn (.governance { kbId := kbId, batchSize := batchSize })).Sound := by
    apply h.spawn
    constructor
    · intro ids heq
      cases heq
    · intro ids heq
      cases heq
  unfold VectorState.startGovernance
  dsimp only
  split
  · split
    · exact h
    · have hknown : ({ s.toStores with locks := s.locks ++ [kbId] } : Stores).Known :=
        ⟨h.inv.chunks, h.inv.vectors⟩
      exact hspawn.later hknown (Stores.Ages.refl s.toStores)
  · exact hspawn

theorem vectorStep_sound (h : s.Sound) {a : VectorAction} (hs' : vectorStep s a = some s') : s'.Sound := by
  cases a with
  | commitChunks rows =>
    obtain ⟨st, hst, rfl⟩ := Option.map_eq_some_iff.1 hs'
    obtain ⟨hknown, hages, -⟩ := Stores.commitChunks_spec h.inv hst
    exact h.later hknown hages
  | editChunk chunkId newContent =>
    cases hs'
    apply h.later
    · exact h.inv.updateChunks _ _ fun _ => rfl
    · exact Stores.Ages.updateChunks s.toStores _ _ (fun _ => rfl) fun _ => rfl
  | deleteChunks ids =>
    cases hs'
    apply h.later
    · exact ⟨fun c hc => h.inv.chunks c (List.mem_of_mem_filter hc), h.inv.vectors⟩
    · have hissued : (s.toStores.deleteChunks ids).issued = s.issued := rfl
      apply Stores.Ages.of_chunks hissued
      intro c hc
      exact ⟨c, List.mem_of_mem_filter hc, rfl, rfl⟩
  | deleteVectors kbId ids =>
    cases hs'
    exact h.later (h.inv.deleteByIds ids) (Stores.Ages.refl s.toStores)
  | dropCollection name =>
    cases hs'
    apply h.later
    · exact h.inv.setCollection fun held hheld => nomatch hheld
    · exact Stores.Ages.refl s.toStores
  | startEmbed unitType unitId kbId =>
    cases hs'
    exact h.startEmbed unitType unitId kbId
  | startSummaries rows kbId => exact h.startSummaries hs'
  | startReindex kbId =>
    cases hs'
    exact h.startReindex kbId
  | startTags kbId ids =>
    cases hs'
    apply h.spawn
    intro rows hrows
    cases hrows
  | startGovernance kbId batchSize redisUp =>
    cases hs'
    exact h.startGovernance kbId batchSize redisUp
  | expireLock kbId =>
    cases hs'
    exact h.later ⟨h.inv.chunks, h.inv.vectors⟩ (Stores.Ages.refl s.toStores)
  | advance k =>
    obtain ⟨task, htask, heq⟩ := Option.bind_eq_some_iff.1 hs'
    cases heq
    have hknown := h.knows task (List.mem_of_getElem? htask)
    exact h.replace (MilvusTask.advance_kept h.inv hknown) k
  | fail k =>
    obtain ⟨task, htask, heq⟩ := Option.bind_eq_some_iff.1 hs'
    cases heq
    exact h.replace (task.cleanup_kept h.inv) k
  | kill k =>
    obtain ⟨task, htask, heq⟩ := Option.bind_eq_some_iff.1 hs'
    cases heq
    exact h.replace (Rely.Keeps.last h.inv (Stores.Ages.refl s.toStores)) k

theorem sound_empty : ({} : VectorState).Sound := by
  constructor
  · constructor
    · intro c hc
      cases hc
    · intro name i hi
      obtain ⟨held, hheld, -⟩ := hi
      cases hheld
  · intro t ht
    cases ht

/-! ## Deleting orphans only -/

theorem holds_deleteByIds {st : Stores} {n : CollectionName} {i : Nat} (h : st.Holds n i)
    (name : CollectionName) (ids : List Nat) :
    n = name ∧ i ∈ ids ∨ (st.deleteByIds name ids).Holds n i := by
  unfold Stores.deleteByIds
  by_cases hn : n = name
  · subst hn
    obtain ⟨held, hheld, hi⟩ := h
    have hcollection : st.collections n = some held := hheld
    rw [hcollection, Option.map_some, Stores.holds_setCollection_self, List.mem_filter]
    by_cases hids : i ∈ ids
    · exact .inl ⟨rfl, hids⟩
    · exact .inr ⟨hi, decide_eq_true hids⟩
  · right
    rw [Stores.holds_setCollection_of_ne hn]
    exact h

/-- Only the last phase deletes, and it deletes what it has found to be orphans. -/
theorem governance_deletes {g : GovernanceRun} {st : Stores} {name : CollectionName} {i : Nat}
    (h : st.Holds name i) (hgone : ¬ (g.advance st).1.Holds name i) :
    name = .live g.kbId ∧ ∃ orphanIds, g.phase = .deleting orphanIds ∧ i ∈ orphanIds := by
  unfold GovernanceRun.advance at hgone
  cases hphase : g.phase with
  | locked =>
    rw [hphase] at hgone
    dsimp only at hgone
    split at hgone
    · exact absurd h hgone
    · exact absurd h hgone
  | found =>
    rw [hphase] at hgone
    dsimp only at hgone
    split at hgone
    · exact absurd h hgone
    · exact absurd h hgone
  | listed milvusIds =>
    rw [hphase] at hgone
    exact absurd h hgone
  | deleting orphanIds =>
    rw [hphase] at hgone
    dsimp only at hgone
    split at hgone
    · exact absurd h hgone
    · split at hgone
      · exact absurd h hgone
      · next batchSize _ _ =>
        cases holds_deleteByIds h (.live g.kbId) (orphanIds.take batchSize) with
        | inl hbatch => exact ⟨hbatch.1, orphanIds, rfl, List.mem_of_mem_take hbatch.2⟩
        | inr hkept => exact absurd hkept hgone

theorem Sound.deletesOrphans (h : s.Sound) (a : VectorAction) : s.DeletesOrphans a := by
  cases a with
  | advance k =>
    intro g hg name i hi hgone
    obtain ⟨hname, orphanIds, hphase, hmem⟩ := governance_deletes hi hgone
    have hknown : g.Known s.toStores := h.knows _ (List.mem_of_getElem? hg)
    exact ⟨hname, (hknown.orphans orphanIds hphase i hmem).2⟩
  | _ => trivial

/-! ## A cleaning that runs alone -/

/-- With only its own statements from here on, the task ends and leaves only ids of chunks. -/
def EndsClean (others : List MilvusTask) (st : Stores) (g : GovernanceRun) : Prop :=
  ∃ n s', runSteps vectorStep { toStores := st, tasks := others ++ [.governance g] }
    (List.replicate n (.advance others.length)) = some s' ∧ s'.tasks = others ∧
      ∀ i, s'.Holds (.live g.kbId) i → s'.Exists g.kbId i

variable {others : List MilvusTask} {st st' : Stores} {g g' : GovernanceRun}

theorem advance_last (others : List MilvusTask) (st : Stores) (g : GovernanceRun) :
    vectorStep { toStores := st, tasks := others ++ [.governance g] } (.advance others.length) =
      some { toStores := (g.advance st).1, tasks := others ++ (g.advance st).2.toList } := by
  have hlookup : (others ++ [MilvusTask.governance g])[others.length]? = some (.governance g) := by
    simp
  show VectorState.advance _ _ = _
  unfold VectorState.advance
  dsimp only
  rw [hlookup]
  show some (VectorState.mk (g.advance st).1 _) = _
  congr 2
  show replaceTask _ _ (g.advance st).2 = _
  cases (g.advance st).2 with
  | none =>
    show (others ++ [MilvusTask.governance g]).eraseIdx others.length = others ++ []
    rw [List.eraseIdx_append_of_length_le (Nat.le_refl _)]
    simp
  | some task =>
    show (others ++ [MilvusTask.governance g]).set others.length task = others ++ [task]
    rw [List.set_append_right _ _ (Nat.le_refl _)]
    simp

theorem EndsClean.last (st' : Stores) (h : g.advance st = (st', none))
    (hleft : ∀ i, st'.Holds (.live g.kbId) i → st'.Exists g.kbId i) : EndsClean others st g := by
  refine ⟨1, { toStores := st', tasks := others }, ?_, rfl, hleft⟩
  show (vectorStep _ _).bind _ = _
  rw [advance_last, h]
  show some (VectorState.mk st' (others ++ [])) = _
  rw [List.append_nil]

theorem EndsClean.step (st' : Stores) (g' : GovernanceRun)
    (h : g.advance st = (st', some (.governance g'))) (hkb : g'.kbId = g.kbId)
    (hrest : EndsClean others st' g') : EndsClean others st g := by
  obtain ⟨n, s', hrun, htasks, hleft⟩ := hrest
  rw [hkb] at hleft
  refine ⟨n + 1, s', ?_, htasks, hleft⟩
  show (vectorStep _ _).bind _ = _
  rw [advance_last, h]
  exact hrun

theorem ends_deleting {kbId batchSize : Nat} (hbatch : 0 < batchSize) (orphanIds : List Nat)
    {held : List Nat} (hheld : st.collections (.live kbId) = some held)
    (hcover : ∀ i ∈ held, i ∈ orphanIds ∨ st.Exists kbId i) :
    EndsClean others st
      { kbId := kbId, batchSize := some batchSize, phase := .deleting orphanIds } := by
  -- each batch shortens what is left
  induction hn : orphanIds.length using Nat.strong_induction_on generalizing orphanIds st held with
  | _ n ih =>
    by_cases hempty : orphanIds = []
    · subst hempty
      apply EndsClean.last (st.releaseLock kbId)
      · unfold GovernanceRun.advance
        dsimp only
        rw [if_pos (.inl rfl)]
      · intro i hi
        obtain ⟨ids, hids, hmem⟩ := hi
        have hsame : st.collections (.live kbId) = some ids := hids
        rw [hheld] at hsame
        cases hsame
        cases hcover i hmem with
        | inl hnil => cases hnil
        | inr hex => exact hex
    · have hlength : 0 < orphanIds.length := List.length_pos_iff.2 hempty
      apply EndsClean.step (st.deleteByIds (.live kbId) (orphanIds.take batchSize))
        { kbId := kbId, batchSize := some batchSize, phase := .deleting (orphanIds.drop batchSize) }
      · unfold GovernanceRun.advance
        dsimp only
        rw [if_neg]
        intro hor
        rcases hor with hnil | hzero | hnone
        · exact hempty hnil
        · omega
        · rw [hheld] at hnone
          cases hnone
      · rfl
      · have hnew : (st.deleteByIds (.live kbId) (orphanIds.take batchSize)).collections (.live kbId) =
            some (held.filter (· ∉ orphanIds.take batchSize)) := by
          show Function.update _ _ _ _ = _
          rw [Function.update_self, hheld]
          rfl
        apply ih (orphanIds.drop batchSize).length
        · rw [List.length_drop]
          omega
        · exact hnew
        · intro i hi
          rw [List.mem_filter, decide_eq_true_iff] at hi
          cases hcover i hi.1 with
          | inl hmem =>
            rw [← List.take_append_drop batchSize orphanIds] at hmem
            cases List.mem_append.1 hmem with
            | inl htake => exact absurd htake hi.2
            | inr hdrop => exact .inl hdrop
          | inr hex => exact .inr hex
        · rfl

theorem ends_locked (kbId : Nat) {batchSize : Nat} (hbatch : 0 < batchSize) (others : List MilvusTask)
    (st : Stores) : EndsClean others st { kbId := kbId, batchSize := some batchSize } := by
  cases hheld : st.collections (.live kbId) with
  | none =>
    apply EndsClean.last (st.releaseLock kbId)
    · unfold GovernanceRun.advance
      dsimp only
      rw [hheld]
      rfl
    · intro i hi
      obtain ⟨ids, hids, -⟩ := hi
      have hsame : st.collections (.live kbId) = some ids := hids
      rw [hheld] at hsame
      cases hsame
  | some held =>
    apply EndsClean.step st { kbId := kbId, batchSize := some batchSize, phase := .found }
    · unfold GovernanceRun.advance
      dsimp only
      rw [hheld]
      rfl
    · rfl
    apply EndsClean.step st { kbId := kbId, batchSize := some batchSize, phase := .listed held }
    · unfold GovernanceRun.advance
      dsimp only
      rw [hheld]
    · rfl
    apply EndsClean.step st
      { kbId := kbId, batchSize := some batchSize
        phase := .deleting (orphans held (st.chunkIds kbId)) }
    · rfl
    · rfl
    apply ends_deleting hbatch _ hheld
    intro i hi
    by_cases hex : i ∈ st.chunkIds kbId
    · exact .inr (Stores.mem_chunkIds.1 hex)
    · exact .inl (mem_orphans.2 ⟨hi, hex⟩)

theorem cleansAlone (s : VectorState) : s.CleansAlone := by
  intro kbId batchSize redisUp hbatch hfree
  have hstart : ∃ st, vectorStep s (.startGovernance kbId (some batchSize) redisUp) =
      some { toStores := st
             tasks := s.tasks ++ [.governance { kbId := kbId, batchSize := some batchSize }] } := by
    show ∃ st, some (s.startGovernance kbId (some batchSize) redisUp) = _
    unfold VectorState.startGovernance
    cases redisUp with
    | false => exact ⟨s.toStores, rfl⟩
    | true =>
      dsimp only
      rw [if_pos rfl, if_neg (hfree rfl)]
      exact ⟨{ s.toStores with locks := s.locks ++ [kbId] }, rfl⟩
  obtain ⟨st, hst⟩ := hstart
  obtain ⟨n, s', hrun, htasks, hleft⟩ := ends_locked kbId hbatch s.tasks st
  refine ⟨n, s', ?_, htasks, hleft⟩
  show (vectorStep s _).bind _ = _
  rw [hst]
  exact hrun

/-! ## Every run -/

/-- Whatever interleaves with it, a governance task deletes only ids that are no chunks of its base; alone,
a cleaning leaves only ids of chunks of the base. -/
theorem deletesOrphans_cleansAlone (acts : List VectorAction) :
    EveryStep vectorStep DeletesOrphans {} acts ∧ Visits vectorStep CleansAlone {} acts := by
  have hsound : ∀ s : VectorState, s.Sound → EveryStep vectorStep DeletesOrphans s acts := by
    induction acts with
    | nil => exact fun _ _ => trivial
    | cons a acts ih =>
      intro s hs s' hs'
      exact ⟨hs.deletesOrphans a, ih s' (vectorStep_sound hs hs')⟩
  constructor
  · exact hsound {} sound_empty
  · have hall : EveryStep vectorStep (fun _ _ => True) {} acts :=
      EveryStep.of_forall (fun _ _ => trivial) ({} : VectorState) acts
    exact hall.visits (fun _ _ s' _ _ _ => cleansAlone s') (cleansAlone {})

/-- As `DeletesOrphans`, for the chunks of all bases. -/
def DeletesNoChunk (s : VectorState) : VectorAction → Prop
  | .advance k => ∀ g, s.tasks[k]? = some (.governance g) → ∀ name i, s.Holds name i →
      ¬ (g.advance s.toStores).1.Holds name i → ¬ ∃ c ∈ s.chunks, c.id = i
  | _ => True

/-- A chunk of base 1, edited through base 2, which its embedding task is then given. -/
def foreignEmbed : List VectorAction :=
  [.commitChunks [{ id := 7, unitType := .document, unitId := 5, knowledgeBaseId := 1, content := "a" }],
    .editChunk 7 "b", .startEmbed .document 5 2, .advance 0, .advance 0, .advance 0,
    .startGovernance 2 (some 1000) true, .advance 0, .advance 0, .advance 0]

/-- What the cleaning of base 2 has found when it deletes. -/
def foreignOrphans : GovernanceRun where
  kbId := 2
  batchSize := some 1000
  phase := .deleting [7]

theorem foreign_vector_deleted : ¬ ∀ acts, EveryStep vectorStep DeletesNoChunk {} acts := by
  intro h
  have hstep := EveryStep.after (h (foreignEmbed ++ [.advance 0])) rfl rfl
  have hheld : ∃ held ∈ some [7], 7 ∈ held := ⟨[7], rfl, List.mem_singleton_self 7⟩
  apply hstep foreignOrphans rfl (.live 2) 7 hheld
  · rintro ⟨held, hleft, hmem⟩
    cases hleft
    cases hmem
  · exact ⟨_, List.mem_singleton_self _, rfl⟩

end VectorState

end OpsKnowledge.Milvus
