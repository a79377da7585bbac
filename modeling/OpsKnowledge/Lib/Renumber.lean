import OpsKnowledge.Lib.Dict

/-!
# Fresh numbers for keys

The keys of a list get consecutive numbers, kept in a dictionary; a reference follows it, and a reference
to a key that is not in the list is lost.
-/

namespace OpsKnowledge.Lib

universe u v

variable {α : Type v} {κ : Type u} [DecidableEq κ]

/-- The numbers from `first` on. -/
def renumber (first : Nat) (keys : List κ) : Dict κ Nat :=
  Dict.ofList (keys.zipIdx.map fun p => (p.1, first + p.2))

/-- A reference into a list of keys; any other counts as none. -/
def within (keys : List κ) (ref : Option κ) : Option κ := ref.filter (· ∈ keys)

variable {first : Nat} {keys : List κ} {k : κ} {ref : Option κ}

/-- With keys of their own, rows are numbered by the position of their keys. -/
theorem map_zipIdx_of_nodup {β : Type*} {rows : List α} {key : α → κ} (hn : (rows.map key).Nodup)
    (f : α → Nat → β) : (rows.zipIdx.map fun p => f p.1 p.2) =
      rows.map fun a => f a ((rows.map key).idxOf (key a)) := by
  apply List.ext_getElem
  · simp
  · intro i hi hi'
    have hlen : i < (rows.map key).length := by simpa using hi'
    have hidx := hn.idxOf_getElem i hlen
    rw [List.getElem_map] at hidx
    simp [hidx]

theorem get?_renumber (hn : keys.Nodup) :
    (renumber first keys).get? k = if k ∈ keys then some (first + keys.idxOf k) else none := by
  have hself : (keys.map fun a => a).Nodup := by simpa using hn
  have hmap := map_zipIdx_of_nodup hself fun a i => (a, first + i)
  rw [List.map_id'] at hmap
  have hfst : ((keys.map fun a => (a, first + keys.idxOf a)).map Prod.fst).Nodup := by
    rw [List.map_map]
    simpa [Function.comp_def] using hn
  unfold renumber
  rw [hmap]
  by_cases hk : k ∈ keys
  · rw [if_pos hk, Dict.get?_ofList_of_nodup hfst]
    exact List.mem_map.2 ⟨k, hk, rfl⟩
  · rw [if_neg hk, Dict.get?_eq_none_iff, Dict.mem_keys_ofList, List.map_map]
    intro hmem
    obtain ⟨a, ha, rfl⟩ := List.mem_map.1 hmem
    exact hk ha

theorem keys_renumber_perm (hn : keys.Nodup) : (renumber first keys).keys.Perm keys := by
  apply (List.perm_ext_iff_of_nodup (renumber first keys).nodup hn).2
  intro k
  unfold renumber
  change k ∈ (Dict.ofList _).keys ↔ _
  rw [Dict.mem_keys_ofList, List.map_map]
  have hkeys : keys.zipIdx.map (Prod.fst ∘ fun p => (p.1, first + p.2)) = keys := List.zipIdx_map_fst 0 keys
  rw [hkeys]

theorem within_some (k : κ) : within keys (some k) = if k ∈ keys then some k else none := by
  unfold within
  rw [Option.filter_some]
  by_cases hk : k ∈ keys
  · simp [hk]
  · simp [hk]

theorem within_eq_none_iff : within keys ref = none ↔ ∀ k ∈ ref, k ∉ keys := by
  cases ref with
  | none => exact iff_of_true rfl fun k hk => by cases hk
  | some k => simp [within_some]

/-- A reference that follows the dictionary. -/
theorem bind_renumber (hn : keys.Nodup) (ref : Option κ) :
    ref.bind (renumber first keys).get? = (within keys ref).map fun k => first + keys.idxOf k := by
  cases ref with
  | none => rfl
  | some k =>
      rw [Option.bind_some, get?_renumber hn, within_some]
      by_cases hk : k ∈ keys
      · rw [if_pos hk, if_pos hk, Option.map_some]
      · rw [if_neg hk, if_neg hk, Option.map_none]

/-- What a reference becomes is a new number. -/
theorem within_bind_renumber (hn : keys.Nodup) (ref : Option κ) :
    within (keys.map fun k => first + keys.idxOf k) (ref.bind (renumber first keys).get?) =
      (within keys ref).map fun k => first + keys.idxOf k := by
  rw [bind_renumber hn]
  cases hw : within keys ref with
  | none => rfl
  | some k =>
      have hk : k ∈ keys := by
        have hfilter := Option.mem_filter_iff.1 (show k ∈ ref.filter (· ∈ keys) from hw)
        exact of_decide_eq_true hfilter.2
      rw [Option.map_some, within_some, if_pos]
      exact List.mem_map.2 ⟨k, hk, rfl⟩

theorem injOn_renumber {a b : κ} (ha : a ∈ keys) (h : first + keys.idxOf a = first + keys.idxOf b) :
    a = b :=
  (List.idxOf_inj ha).1 (by omega)

end OpsKnowledge.Lib
