import OpsKnowledge.Lib.Faults
import OpsKnowledge.Knowledge.Vectors

/-!
# One attempt of a reindex

`reindex_kb` from its first call of the model to the end of the swap, over the collection of the
base and the one that is built beside it. Any call may raise or be the last one; the sessions
before and after write no collection. Nothing else writes the two collections meanwhile.
-/

namespace OpsKnowledge.Milvus

open OpsKnowledge.Lib OpsKnowledge.Knowledge

/-- The collection of a base, and the one named with `_new`. -/
structure KbCollections where
  live : Option Collection := none
  fresh : Option Collection := none

/-- The calls of an attempt; the batches are numbered. -/
inductive ReindexCall where
  | dimProbe
  | hasFresh
  | createFresh
  | embed (batch : Nat)
  | upsert (batch : Nat)
  | dispose
  | hasLive
  | dropLive
  | rename
  | cleanupHas
  | cleanupDrop
  deriving DecidableEq

/-- Which calls fail, and how. -/
abbrev ReindexFaults := ReindexCall → Fault

/-- The row of a chunk, with the vector that the model gives its text. -/
def reindexRow (embed : String → String) (c : Chunk) : VectorRow :=
  let row := milvusRow contextPrefixCharThreshold c
  { row with denseVector := embed row.denseVector }

section Program

variable (embed : String → String) (faults : ReindexFaults)

def reindexRows (chunks : List Chunk) : List (Nat × VectorRow) :=
  chunks.map fun c => (c.id, reindexRow embed c)

def addFresh (s : KbCollections) : Option KbCollections := some { s with fresh := some Store.empty }

/-- `create_collection`: a collection that exists stays. -/
def createNew : Faulty KbCollections Unit := do
  let found ← Faulty.read (faults .hasFresh) fun s => s.fresh.isSome
  if found then pure () else Faulty.write (faults .createFresh) addFresh

/-- `upsert` of a batch in the new collection. -/
def storeRows (batch : List Chunk) (s : KbCollections) : Option KbCollections :=
  s.fresh.map fun fresh => { s with fresh := some (fresh.upsert (reindexRows embed batch)) }

/-- The loop of `embed_and_store`; the fuel is the number of chunks. -/
def embedAndStore : Nat → Nat → List Chunk → Faulty KbCollections Unit
  | 0, _, _ => pure ()
  | fuel + 1, batch, chunks =>
      if chunks = [] then pure ()
      else do
        Faulty.read (faults (.embed batch)) fun _ => ()
        Faulty.write (faults (.upsert batch)) (storeRows embed (chunks.take batchSize))
        embedAndStore fuel (batch + 1) (chunks.drop batchSize)

/-- The body of `_run_reindex`. -/
def fillNew (chunks : List Chunk) : Faulty KbCollections Unit := do
  Faulty.read (faults .dimProbe) fun _ => ()
  createNew faults
  embedAndStore embed faults chunks.length 0 chunks

/-- `_run_reindex` -/
def runReindex (chunks : List Chunk) : Faulty KbCollections Unit :=
  Faulty.withFinally (fillNew embed faults chunks) (Faulty.read (faults .dispose) fun _ => ())

def removeLive (s : KbCollections) : Option KbCollections := some { s with live := none }

def dropOld : Faulty KbCollections Unit := do
  let found ← Faulty.read (faults .hasLive) fun s => s.live.isSome
  if found then Faulty.write (faults .dropLive) removeLive else pure ()

/-- `rename_collection` needs a collection to rename, and a name that is free. -/
def renameNew (s : KbCollections) : Option KbCollections :=
  if s.live.isSome then none else s.fresh.map fun fresh => { live := some fresh, fresh := none }

/-- Drop the old collection, and rename the new one. -/
def swap : Faulty KbCollections Unit := do
  dropOld faults
  Faulty.write (faults .rename) renameNew

def cleanup : Faulty KbCollections Unit := do
  let found ← Faulty.read (faults .cleanupHas) fun s => s.fresh.isSome
  if found then Faulty.write (faults .cleanupDrop) fun s => some { s with fresh := none } else pure ()

/-- A base without chunks is skipped. -/
def reindexKb (chunks : List Chunk) : Faulty KbCollections Unit :=
  if chunks = [] then pure ()
  else Faulty.onException
    (do
      runReindex embed faults chunks
      swap faults)
    (cleanup faults)

/-! ## Building -/

/-- The batches of `chunks`, the first of which has the number `batch`, are embedded and stored. -/
def BatchesDone (batch : Nat) (chunks : List Chunk) : Prop :=
  ∀ i, i * batchSize < chunks.length →
    faults (.embed (batch + i)) = .none ∧ faults (.upsert (batch + i)) = .none

/-- Every call of the body returns. -/
structure FillDone (chunks : List Chunk) (s : KbCollections) : Prop where
  dimProbe : faults .dimProbe = .none
  hasFresh : faults .hasFresh = .none
  createFresh : s.fresh = none → faults .createFresh = .none
  batches : BatchesDone faults 0 chunks

/-- Every call up to the swap returns. -/
structure BuildDone (chunks : List Chunk) (s : KbCollections) : Prop extends
    FillDone faults chunks s where
  dispose : faults .dispose = .none

/-- What is built: the rows of the chunks over what the new collection held before. -/
def built (chunks : List Chunk) (s : KbCollections) : Collection :=
  (s.fresh.getD Store.empty).upsert (reindexRows embed chunks)

variable {embed faults} {chunks : List Chunk} {s : KbCollections}

theorem batchesDone_iff {batch : Nat} (hne : chunks ≠ []) :
    BatchesDone faults batch chunks ↔
      (faults (.embed batch) = .none ∧ faults (.upsert batch) = .none) ∧
        BatchesDone faults (batch + 1) (chunks.drop batchSize) := by
  have hpos : 0 < chunks.length := List.length_pos_iff.2 hne
  constructor
  · intro h
    refine ⟨h 0 (by omega), fun i hi => ?_⟩
    rw [List.length_drop] at hi
    have hnext := h (i + 1) (by rw [Nat.add_mul]; omega)
    rwa [← Nat.add_assoc, Nat.add_right_comm] at hnext
  · rintro ⟨hfirst, hrest⟩ i hi
    cases i with
    | zero => exact hfirst
    | succ i =>
        have hnext := hrest i (by
          rw [List.length_drop]
          rw [Nat.add_mul] at hi
          omega)
        rwa [Nat.add_right_comm] at hnext

theorem upsert_reindexRows (fresh : Collection) (n : Nat) (chunks : List Chunk) :
    (fresh.upsert (reindexRows embed (chunks.take n))).upsert (reindexRows embed (chunks.drop n)) =
      fresh.upsert (reindexRows embed chunks) := by
  unfold Store.upsert reindexRows
  rw [← List.foldl_append, ← List.map_append, List.take_append_drop]

theorem store_nothing (batch : Nat) {fresh : Collection} (hfresh : s.fresh = some fresh) :
    Faulty.ReturnsIff (pure () : Faulty KbCollections Unit) s (BatchesDone faults batch [])
      ((), { s with fresh := some (fresh.upsert (reindexRows embed [])) }) := by
  have hsame : { s with fresh := some (fresh.upsert (reindexRows embed [])) } = s := by
    show { s with fresh := some fresh } = s
    rw [← hfresh]
  rw [hsame]
  exact (Faulty.returnsIff_pure () s).congr (iff_of_true trivial fun i hi => absurd hi (Nat.not_lt_zero _))

/-- The loop returns exactly if all its batches are done, and then all rows are stored. -/
theorem embedAndStore_returnsIff (embed : String → String) (faults : ReindexFaults) {fuel : Nat}
    (batch : Nat) (hfuel : chunks.length ≤ fuel) {fresh : Collection} (hfresh : s.fresh = some fresh) :
    Faulty.ReturnsIff (embedAndStore embed faults fuel batch chunks) s (BatchesDone faults batch chunks)
      ((), { s with fresh := some (fresh.upsert (reindexRows embed chunks)) }) := by
  induction fuel generalizing batch chunks s fresh with
  | zero =>
      cases List.length_eq_zero_iff.1 (Nat.le_zero.1 hfuel)
      exact store_nothing batch hfresh
  | succ fuel ih =>
      unfold embedAndStore
      by_cases hempty : chunks = []
      · subst hempty
        rw [if_pos rfl]
        exact store_nothing batch hfresh
      · rw [if_neg hempty]
        have hpos : 0 < chunks.length := List.length_pos_iff.2 hempty
        have hrest : (chunks.drop batchSize).length ≤ fuel := by
          rw [List.length_drop]
          unfold batchSize
          omega
        have hstore : storeRows embed (chunks.take batchSize) s =
            some { s with fresh := some (fresh.upsert (reindexRows embed (chunks.take batchSize))) } := by
          unfold storeRows
          rw [hfresh]
          rfl
        have hloop := ih (batch + 1) hrest
          (s := { s with fresh := some (fresh.upsert (reindexRows embed (chunks.take batchSize))) }) rfl
        rw [upsert_reindexRows] at hloop
        apply Faulty.ReturnsIff.congr
        · apply Faulty.ReturnsIff.bind (Faulty.returnsIff_read _ _ s)
          apply Faulty.ReturnsIff.bind (Faulty.returnsIff_write _ hstore)
          exact hloop
        · rw [batchesDone_iff hempty, and_assoc]

/-- The collection is created, or found. -/
theorem createNew_returnsIff (faults : ReindexFaults) (s : KbCollections) :
    Faulty.ReturnsIff (createNew faults) s
      (faults .hasFresh = .none ∧ (s.fresh = none → faults .createFresh = .none))
      ((), { s with fresh := some (s.fresh.getD Store.empty) }) := by
  apply Faulty.ReturnsIff.bind (Faulty.returnsIff_read _ _ s)
  cases hfresh : s.fresh with
  | some fresh =>
      have hfound : { s with fresh := some fresh } = s := by rw [← hfresh]
      show Faulty.ReturnsIff _ s _ ((), { s with fresh := some fresh })
      rw [hfound]
      exact (Faulty.returnsIff_pure () s).congr (iff_of_true trivial nofun)
  | none =>
      have hadd : addFresh s = some { s with fresh := some Store.empty } := rfl
      exact (Faulty.returnsIff_write (faults .createFresh) hadd).congr ⟨fun h _ => h, fun h => h rfl⟩

theorem fillNew_returnsIff (embed : String → String) (faults : ReindexFaults) (chunks : List Chunk)
    (s : KbCollections) :
    Faulty.ReturnsIff (fillNew embed faults chunks) s (FillDone faults chunks s)
      ((), { s with fresh := some (built embed chunks s) }) := by
  apply Faulty.ReturnsIff.congr
  · apply Faulty.ReturnsIff.bind (Faulty.returnsIff_read _ _ s)
    apply Faulty.ReturnsIff.bind (createNew_returnsIff faults s)
    exact embedAndStore_returnsIff embed faults 0 (Nat.le_refl chunks.length) rfl
  · exact ⟨fun ⟨hprobe, ⟨hhas, hcreate⟩, hbatches⟩ => ⟨hprobe, hhas, hcreate, hbatches⟩,
      fun h => ⟨h.dimProbe, ⟨h.hasFresh, h.createFresh⟩, h.batches⟩⟩

/-- Building returns exactly if every call does. -/
theorem runReindex_returnsIff (embed : String → String) (faults : ReindexFaults) (chunks : List Chunk)
    (s : KbCollections) :
    Faulty.ReturnsIff (runReindex embed faults chunks) s (BuildDone faults chunks s)
      ((), { s with fresh := some (built embed chunks s) }) :=
  ((fillNew_returnsIff embed faults chunks s).withFinally (Faulty.returnsIff_read _ _ _)).congr
    ⟨fun ⟨hfill, hdispose⟩ => ⟨hfill, hdispose⟩, fun h => ⟨h.toFillDone, h.dispose⟩⟩

/-! ## What happens to the live collection -/

theorem preserves_createNew : Faulty.Preserves KbCollections.live (createNew faults) := by
  refine (Faulty.preserves_read _ _).bind fun found => ?_
  cases found with
  | true => exact Faulty.preserves_pure ()
  | false =>
      refine Faulty.preserves_write _ fun s s' h => ?_
      cases h
      rfl

theorem preserves_embedAndStore (fuel batch : Nat) (chunks : List Chunk) :
    Faulty.Preserves KbCollections.live (embedAndStore embed faults fuel batch chunks) := by
  induction fuel generalizing batch chunks with
  | zero => exact Faulty.preserves_pure ()
  | succ fuel ih =>
      unfold embedAndStore
      by_cases hempty : chunks = []
      · rw [if_pos hempty]
        exact Faulty.preserves_pure ()
      · rw [if_neg hempty]
        refine (Faulty.preserves_read _ _).bind fun _ => Faulty.Preserves.bind ?_ fun _ => ih _ _
        refine Faulty.preserves_write _ fun s s' h => ?_
        rcases Option.map_eq_some_iff.1 h with ⟨fresh, -, rfl⟩
        rfl

theorem preserves_runReindex (chunks : List Chunk) :
    Faulty.Preserves KbCollections.live (runReindex embed faults chunks) := by
  have hfill : Faulty.Preserves KbCollections.live (fillNew embed faults chunks) :=
    (Faulty.preserves_read _ _).bind fun _ => preserves_createNew.bind fun _ =>
      preserves_embedAndStore _ _ _
  exact hfill.withFinally (Faulty.preserves_read _ _)

theorem preserves_cleanup : Faulty.Preserves KbCollections.live (cleanup faults) := by
  refine (Faulty.preserves_read _ _).bind fun found => ?_
  cases found with
  | false => exact Faulty.preserves_pure ()
  | true =>
      refine Faulty.preserves_write _ fun s s' h => ?_
      cases h
      rfl

/-- The drop of the old collection is over, or there was none. -/
def DropDone (faults : ReindexFaults) (s : KbCollections) : Prop :=
  s.live ≠ none → faults .dropLive = .none

/-- The swap is reached, and the rename takes effect. -/
structure Swapped (faults : ReindexFaults) (chunks : List Chunk) (s : KbCollections) : Prop where
  build : BuildDone faults chunks s
  hasLive : faults .hasLive = .none
  drop : DropDone faults s
  rename : (faults .rename).effective = true

/-- The old collection is gone and no other has its name. -/
structure Lost (faults : ReindexFaults) (chunks : List Chunk) (s : KbCollections) : Prop where
  build : BuildDone faults chunks s
  hasLive : faults .hasLive = .none
  live : s.live ≠ none
  dropped : (faults .dropLive).effective = true
  rename : faults .dropLive = .none → (faults .rename).effective = false

theorem drop_live (fault : Fault) (s : KbCollections) :
    (Faulty.write fault removeLive s).2.live =
      if fault.effective then none else s.live := by
  cases fault with
  | none => rfl
  | raised effective => cases effective <;> rfl
  | killed effective => cases effective <;> rfl

/-- The old collection is dropped, or there was none. -/
theorem dropOld_returnsIff (faults : ReindexFaults) (s : KbCollections) :
    Faulty.ReturnsIff (dropOld faults) s (faults .hasLive = .none ∧ DropDone faults s)
      ((), { s with live := none }) := by
  apply Faulty.ReturnsIff.bind (Faulty.returnsIff_read _ _ s)
  unfold DropDone
  cases hlive : s.live with
  | none =>
      have hfree : { s with live := none } = s := by rw [← hlive]
      show Faulty.ReturnsIff _ s _ ((), { s with live := none })
      rw [hfree]
      exact (Faulty.returnsIff_pure () s).congr (iff_of_true trivial fun h => absurd rfl h)
  | some live =>
      have hremove : removeLive s = some { s with live := none } := rfl
      exact (Faulty.returnsIff_write (faults .dropLive) hremove).congr ⟨fun h _ => h, fun h => h nofun⟩

theorem dropOld_live (faults : ReindexFaults) (s : KbCollections) :
    (dropOld faults s).2.live =
      if faults .hasLive = .none ∧ (faults .dropLive).effective then none else s.live := by
  unfold dropOld
  by_cases hhas : faults .hasLive = .none
  · rw [hhas, Faulty.bind_run_of_returned (Faulty.read_none _ s)]
    cases hlive : s.live with
    | none =>
        rw [ite_self]
        exact hlive
    | some live =>
        refine (drop_live (faults .dropLive) s).trans ?_
        rw [hlive]
        cases (faults .dropLive).effective <;> rfl
  · have hended := Faulty.read_ended hhas (fun s : KbCollections => s.live.isSome) s
    rw [(Faulty.bind_run_of_ended hended).1, Faulty.read_run, if_neg fun h => hhas h.1]

/-- The rename of what was built, with the old name free. -/
theorem rename_live (fault : Fault) (fresh : Collection) :
    (Faulty.write fault renameNew { live := none, fresh := some fresh }).2.live =
      if fault.effective then some fresh else none := by
  have hrename : renameNew { live := none, fresh := some fresh } =
      some { live := some fresh, fresh := none } := rfl
  rw [Faulty.write_run hrename]
  cases fault.effective <;> rfl

theorem reindexKb_live (embed : String → String) (faults : ReindexFaults) {chunks : List Chunk}
    (hne : chunks ≠ []) (s : KbCollections) :
    Swapped faults chunks s ∧ (reindexKb embed faults chunks s).2.live = some (built embed chunks s) ∨
      Lost faults chunks s ∧ (reindexKb embed faults chunks s).2.live = none ∨
      ¬ Swapped faults chunks s ∧ ¬ Lost faults chunks s ∧
        (reindexKb embed faults chunks s).2.live = s.live := by
  unfold reindexKb
  rw [if_neg hne, Faulty.onException_run preserves_cleanup]
  rcases runReindex_returnsIff embed faults chunks s with ⟨hbuild, hrun⟩ | ⟨hnot, hended⟩
  · rw [Faulty.bind_run_of_returned hrun]
    unfold swap
    rcases dropOld_returnsIff faults { s with fresh := some (built embed chunks s) } with
      ⟨⟨hhas, hdrop⟩, hswap⟩ | ⟨hnot, hended⟩
    · rw [Faulty.bind_run_of_returned hswap, rename_live]
      by_cases hrename : (faults .rename).effective = true
      · rw [if_pos hrename]
        exact .inl ⟨⟨hbuild, hhas, hdrop, hrename⟩, rfl⟩
      · rw [if_neg hrename]
        by_cases hpresent : s.live = none
        · exact .inr (.inr ⟨fun h => hrename h.rename, fun h => h.live hpresent, hpresent.symm⟩)
        · have hdropped := hdrop hpresent
          exact .inr (.inl ⟨⟨hbuild, hhas, hpresent, by rw [hdropped]; rfl,
            fun _ => Bool.eq_false_iff.2 hrename⟩, rfl⟩)
    · rw [(Faulty.bind_run_of_ended hended).1, dropOld_live]
      have hswapped : ¬ Swapped faults chunks s := fun h => hnot ⟨h.hasLive, h.drop⟩
      by_cases hdropped : faults .hasLive = .none ∧ (faults .dropLive).effective = true
      · rw [if_pos hdropped]
        have hfailed : ¬ DropDone faults s := fun h => hnot ⟨hdropped.1, h⟩
        unfold DropDone at hfailed
        push Not at hfailed
        exact .inr (.inl ⟨⟨hbuild, hdropped.1, hfailed.1, hdropped.2,
          fun h => absurd h hfailed.2⟩, rfl⟩)
      · rw [if_neg hdropped]
        exact .inr (.inr ⟨hswapped, fun h => hdropped ⟨h.hasLive, h.dropped⟩, rfl⟩)
  · rw [(Faulty.bind_run_of_ended hended).1, preserves_runReindex chunks s]
    exact .inr (.inr ⟨fun h => hnot h.build, fun h => hnot h.build, rfl⟩)

/-! ## All or nothing -/

/-- The complete new vector set. -/
def newVectors (embed : String → String) (chunks : List Chunk) : Collection :=
  Store.empty.upsert (reindexRows embed chunks)

/-- The live collection holds the complete old set or the complete new one. -/
def AllOrNothing (embed : String → String) (chunks : List Chunk) (s after : KbCollections) : Prop :=
  after.live = s.live ∨ after.live = some (newVectors embed chunks)

/-- An earlier attempt left no row of another chunk behind. -/
def NothingLeft (chunks : List Chunk) (s : KbCollections) : Prop :=
  ∀ id row, (s.fresh.getD Store.empty) id = some row → ∃ c ∈ chunks, c.id = id

theorem built_eq_iff : built embed chunks s = newVectors embed chunks ↔ NothingLeft chunks s := by
  unfold built newVectors NothingLeft reindexRows
  rw [Store.upsert_eq_upsert_empty_iff]
  simp

/-- A vector set is lost if the drop of the old collection is not followed by the rename, and it
is mixed if the new collection had rows of other chunks. -/
theorem reindexKb_allOrNothing_iff (embed : String → String) (faults : ReindexFaults)
    (chunks : List Chunk) (s : KbCollections) :
    AllOrNothing embed chunks s (reindexKb embed faults chunks s).2 ↔
      chunks = [] ∨
        ¬ Lost faults chunks s ∧
          (Swapped faults chunks s → NothingLeft chunks s ∨ s.live = some (built embed chunks s)) := by
  by_cases hne : chunks = []
  · subst hne
    exact iff_of_true (.inl rfl) (.inl rfl)
  unfold AllOrNothing
  rcases reindexKb_live embed faults hne s with ⟨hswapped, hlive⟩ | ⟨hlost, hlive⟩ | ⟨hswapped, hlost, hlive⟩
  · have hkept : ¬ Lost faults chunks s := by
      intro hlost
      have hineffective := hlost.rename (hswapped.drop hlost.live)
      rw [hswapped.rename] at hineffective
      exact absurd hineffective nofun
    rw [hlive, Option.some.injEq, built_eq_iff]
    constructor
    · exact fun h => .inr ⟨hkept, fun _ => h.symm.imp id Eq.symm⟩
    · rintro (h | h)
      · exact absurd h hne
      · exact (h.2 hswapped).symm.imp Eq.symm id
  · rw [hlive]
    refine iff_of_false ?_ ?_
    · rintro (h | h)
      · exact hlost.live h.symm
      · exact absurd h nofun
    · rintro (h | h)
      · exact hne h
      · exact h.1 hlost
  · exact iff_of_true (.inl hlive) (.inr ⟨hlost, fun h => absurd h hswapped⟩)

/-- The rename fails once: the base has no collection any more. -/
theorem failed_rename_loses_vectors :
    let faults : ReindexFaults := fun call => if call = .rename then .raised false else .none
    let chunk : Chunk := 
      { id := 1, unitType := .document, unitId := 1, knowledgeBaseId := 1, content := "reset the router" }
    let s : KbCollections := { live := some (newVectors id [chunk]) }
    (reindexKb id faults [chunk] s).2.live = none ∧
      ¬ AllOrNothing id [chunk] s (reindexKb id faults [chunk] s).2 := by
  intro faults chunk s
  have hlive : (reindexKb id faults [chunk] s).2.live = none := rfl
  refine ⟨hlive, ?_⟩
  unfold AllOrNothing
  rw [hlive]
  rintro (h | h)
  · exact absurd h nofun
  · exact absurd h nofun

end Program

end OpsKnowledge.Milvus
