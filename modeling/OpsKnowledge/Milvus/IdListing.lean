import Mathlib.Data.String.Basic
import OpsKnowledge.Lib.Paging
import OpsKnowledge.Milvus.ConsistencyScan

/-!
# The listing of a collection's ids

`MilvusService.list_ids`: the iterator of the client, and the loop that pages by a cursor for a
client that has none. Ids are texts of UUIDs, so a filter expression is taken for the predicate
that it spells. The store answers with matching rows up to the limit; which ones, and in what
order, is not determined.
-/

namespace OpsKnowledge.Milvus

open OpsKnowledge.Lib

inductive IdFilter where
  /-- `id != ''` -/
  | any
  /-- `id > "{last_id}"` -/
  | above (lastId : String)

def IdFilter.selects : IdFilter → String → Bool
  | .any, id => id ≠ ""
  | .above lastId, id => lastId < id

/-- `expr or "id != ''"` -/
def filterAfter (lastId : String) : IdFilter := if lastId = "" then .any else .above lastId

/-- What the iterator delivers: everything, or some batches until an attribute is missing. -/
inductive IteratorRun where
  | complete (batches : List (List String))
  | attributeError (batches : List (List String))

section Listing

variable (query : IdFilter → List String) (batchSize : Nat)

/-- `none` when the fuel is used up. -/
def cursorLoop : Nat → String → List String → Option (List String)
  | 0, _, _ => none
  | fuel + 1, lastId, ids =>
      let rows := query (filterAfter lastId)
      if rows.isEmpty then some ids
      else if rows.length < batchSize then some (ids ++ rows)
      else cursorLoop fuel (rows.max?.getD "") (ids ++ rows)

def listIds (fuel : Nat) : IteratorRun → Option (List String)
  | .complete batches => some batches.flatten
  | .attributeError batches => cursorLoop query batchSize fuel "" batches.flatten

end Listing

def idTexts (ids : List Uuid) : List String := ids.map Uuid.text

/-- The answers of a store that holds `ids`. -/
structure Answers (ids : List Uuid) (limit : Nat) where
  query : IdFilter → List String
  subperm : ∀ f, (query f).Subperm ((idTexts ids).filter f.selects)
  length_query : ∀ f, (query f).length = min limit ((idTexts ids).filter f.selects).length

theorem length_idTexts (ids : List Uuid) : (idTexts ids).length = ids.length := List.length_map _

theorem nodup_idTexts {ids : List Uuid} (hids : ids.Nodup) : (idTexts ids).Nodup := by
  apply hids.map
  rintro ⟨_, _, _⟩ ⟨_, _, _⟩ rfl
  rfl

theorem ne_empty_of_mem_idTexts {ids : List Uuid} {id : String} (h : id ∈ idTexts ids) : id ≠ "" := by
  obtain ⟨u, -, rfl⟩ := List.mem_map.1 h
  intro hempty
  have hlength := u.length
  rw [hempty] at hlength
  cases hlength

theorem empty_lt {s : String} (h : s ≠ "") : "" < s := by
  rw [String.lt_iff_toList_lt]
  cases hs : s.toList with
  | nil => exact absurd (String.toList_inj.1 hs) h
  | cons c cs => exact List.nil_lt_cons c cs

/-- The expression of a cursor selects the ids above it. -/
theorem filter_selects (ids : List Uuid) (cursor : Option String) :
    (idTexts ids).filter (filterAfter (cursor.getD "")).selects = above cursor (idTexts ids) := by
  unfold above
  apply List.filter_congr
  intro id hid
  have hne := ne_empty_of_mem_idTexts hid
  cases cursor with
  | none => simp [filterAfter, IdFilter.selects, hne]
  | some c =>
      by_cases hc : c = ""
      · subst hc
        simp only [Option.getD_some, filterAfter, IdFilter.selects, if_true, Option.mem_some_iff,
          forall_eq']
        rw [decide_eq_decide]
        exact iff_of_true hne (empty_lt hne)
      · simp only [Option.getD_some, filterAfter, IdFilter.selects, if_neg hc, Option.mem_some_iff,
          forall_eq']

/-- The pages that the loop asks for. -/
def Answers.pages {ids : List Uuid} {limit : Nat} (store : Answers ids limit) :
    Pages (idTexts ids) limit where
  page cursor := store.query (filterAfter (cursor.getD ""))
  subperm cursor := filter_selects ids cursor ▸ store.subperm _
  length_page cursor := filter_selects ids cursor ▸ store.length_query _

theorem cursorLoop_eq {ids : List Uuid} {limit : Nat} (store : Answers ids limit) (fuel : Nat)
    (cursor : Option String) (found : List String) :
    cursorLoop store.query limit fuel (cursor.getD "") found =
      collect store.pages.page limit fuel cursor found := by
  induction fuel generalizing cursor found with
  | zero => rfl
  | succ fuel ih =>
      rw [cursorLoop, collect]
      rw [ih]
      rfl

/-- The query behind the first `k` full pages of the ids in order. -/
def pageFilter (ids : List Uuid) (batchSize k : Nat) : IdFilter :=
  filterAfter ((Pages.firstPages (idTexts ids) batchSize k).max?.getD "")

/-- A client without the iterator lists every id once exactly when each page but the last holds the least
ids behind the pages before it. -/
theorem listIds_complete_iff {ids : List Uuid} (hids : ids.Nodup) {batchSize : Nat} (hsize : 1 ≤ batchSize)
    (store : Answers ids batchSize) :
    (∃ listed, listIds store.query batchSize (ids.length + 1) (.attributeError []) = some listed ∧
        listed.Perm (idTexts ids)) ↔
      ∀ k, (k + 1) * batchSize < ids.length →
        (store.query (pageFilter ids batchSize k)).Perm (Pages.nextPage (idTexts ids) batchSize k) := by
  have hcollect := store.pages.collect_perm_iff hsize (nodup_idTexts hids)
  rw [length_idTexts, ← cursorLoop_eq] at hcollect
  exact hcollect

def firstId : Uuid := ⟨"00000000-0000-0000-0000-000000000001", by decide, by decide⟩

def secondId : Uuid := ⟨"00000000-0000-0000-0000-000000000002", by decide, by decide⟩

/-- A store whose answers follow an order of its own. -/
def storedAs (ids stored : List Uuid) (h : (idTexts stored).Perm (idTexts ids)) (limit : Nat) :
    Answers ids limit where
  query f := ((idTexts stored).filter f.selects).take limit
  subperm f := (List.take_sublist _ _).subperm.trans (h.filter _).subperm
  length_query f := by rw [List.length_take, (h.filter f.selects).length_eq]

def fiveIds : List Uuid :=
  [firstId, secondId,
    ⟨"00000000-0000-0000-0000-000000000003", by decide, by decide⟩,
    ⟨"00000000-0000-0000-0000-000000000004", by decide, by decide⟩,
    ⟨"00000000-0000-0000-0000-000000000005", by decide, by decide⟩]

/-- Each page of two ids comes with its later id first. -/
def pairsSwapped : Answers fiveIds 2 :=
  storedAs fiveIds [fiveIds[1], fiveIds[0], fiveIds[3], fiveIds[2], fiveIds[4]] (by decide +kernel) 2

/-- Two full pages and the rest; the order within a page does not matter. -/
theorem pairsSwapped_complete : ∃ listed,
    listIds pairsSwapped.query 2 6 (.attributeError []) = some listed ∧ listed.Perm (idTexts fiveIds) := by
  have hdistinct : fiveIds.Nodup := by decide +kernel
  apply (listIds_complete_iff hdistinct (by decide) pairsSwapped).2
  intro k hk
  change (k + 1) * 2 < 5 at hk
  obtain rfl | rfl : k = 0 ∨ k = 1 := by omega
  · decide +kernel
  · decide +kernel

/-- A store of two ids that answers the second one first. -/
def secondFirst (limit : Nat) : Answers [firstId, secondId] limit :=
  storedAs [firstId, secondId] [secondId, firstId] (List.Perm.swap _ _ _) limit

/-- In pages of one row the first id is behind no cursor any more. -/
theorem secondFirst_incomplete : ¬ ∀ (ids : List Uuid), ids.Nodup → ∀ batchSize, 1 ≤ batchSize →
    ∀ store : Answers ids batchSize, ∃ listed,
      listIds store.query batchSize (ids.length + 1) (.attributeError []) = some listed ∧
        listed.Perm (idTexts ids) := by
  intro h
  obtain ⟨listed, hlisted, hperm⟩ := h [firstId, secondId] (by decide) 1 (Nat.le_refl 1) (secondFirst 1)
  have hrun : listIds (secondFirst 1).query 1 3 (.attributeError []) = some [secondId.text] := by decide
  cases hrun.symm.trans hlisted
  exact absurd hperm.length_eq (by decide)

end OpsKnowledge.Milvus
