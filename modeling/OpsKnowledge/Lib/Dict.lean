import Mathlib.Data.List.Induction
import Mathlib.Data.List.Nodup

/-!
# Insertion-ordered dictionaries

A dictionary keeps its entries in the order in which their keys were first
inserted; assigning a key that is already present replaces its value in place.
Distinctness of the keys is a field of the structure, so a dictionary with two
entries for one key cannot be built. Every operation is computable, and each one
is described by what it does to `get?` and to `keys`.
-/

namespace OpsKnowledge.Lib

universe u v w

section Entries

variable {κ : Type u} {ν : Type v} [DecidableEq κ]

/-! ## Raw entry lists -/

theorem lookup_cons_if (k k' : κ) (x : ν) (es : List (κ × ν)) :
    List.lookup k ((k', x) :: es) = if k = k' then some x else es.lookup k := by
  by_cases h : k = k'
  · simp [h]
  · have hne : (k == k') = false := by simpa using h
    simp [List.lookup_cons, h, hne]

theorem lookup_eq_some_of_mem {es : List (κ × ν)} (hn : (es.map Prod.fst).Nodup) {k : κ} {x : ν}
    (h : (k, x) ∈ es) : es.lookup k = some x := by
  induction es with
  | nil => cases h
  | cons e es ih =>
      obtain ⟨k', y⟩ := e
      simp only [List.map_cons, List.nodup_cons] at hn
      rw [lookup_cons_if]
      rcases List.mem_cons.1 h with he | h
      · obtain ⟨rfl, rfl⟩ := Prod.mk.inj he
        simp
      · have hne : k ≠ k' := fun he => hn.1 (he ▸ List.mem_map_of_mem (f := Prod.fst) h)
        rw [if_neg hne, ih hn.2 h]

theorem mem_of_lookup_eq_some {es : List (κ × ν)} {k : κ} {x : ν} (h : es.lookup k = some x) :
    (k, x) ∈ es := by
  obtain ⟨l, r, rfl, -⟩ := List.lookup_eq_some_iff.1 h
  simp

theorem lookup_eq_none_iff_notMem {es : List (κ × ν)} {k : κ} :
    es.lookup k = none ↔ k ∉ es.map Prod.fst := by
  simp only [List.lookup_eq_none_iff, List.mem_map, not_exists, not_and]
  constructor
  · intro h e he hk
    simpa [hk] using h e he
  · intro h e he
    simpa using fun hk => h e he hk.symm

/-- Replace the value of `k` in place, or append a new entry for it. -/
def assign (k : κ) (x : ν) : List (κ × ν) → List (κ × ν)
  | [] => [(k, x)]
  | (k', y) :: es => if k' = k then (k, x) :: es else (k', y) :: assign k x es

theorem assign_of_notMem {k : κ} {es : List (κ × ν)} (h : k ∉ es.map Prod.fst) (x : ν) :
    assign k x es = es ++ [(k, x)] := by
  induction es with
  | nil => rfl
  | cons e es ih =>
      simp only [List.map_cons, List.mem_cons, not_or] at h
      rw [assign, if_neg (Ne.symm h.1), ih h.2]
      rfl

theorem map_fst_assign (k : κ) (x : ν) (es : List (κ × ν)) :
    (assign k x es).map Prod.fst =
      if k ∈ es.map Prod.fst then es.map Prod.fst else es.map Prod.fst ++ [k] := by
  induction es with
  | nil => simp [assign]
  | cons e es ih =>
      obtain ⟨k', y⟩ := e
      by_cases he : k' = k
      · simp [assign, he]
      · have hk : ¬ k = k' := fun h => he h.symm
        simp only [assign, he, if_false, List.map_cons, ih, List.mem_cons, hk, false_or]
        split <;> rfl

theorem nodup_assign (k : κ) (x : ν) {es : List (κ × ν)} (h : (es.map Prod.fst).Nodup) :
    ((assign k x es).map Prod.fst).Nodup := by
  rw [map_fst_assign]
  split
  · exact h
  · next hk =>
      rw [List.nodup_append]
      refine ⟨h, by simp, ?_⟩
      rintro a ha b hb rfl
      exact hk (List.mem_singleton.1 hb ▸ ha)

theorem lookup_assign (k k' : κ) (x : ν) (es : List (κ × ν)) :
    (assign k x es).lookup k' = if k' = k then some x else es.lookup k' := by
  induction es with
  | nil => simp [assign, lookup_cons_if]
  | cons e es ih =>
      obtain ⟨k₀, y⟩ := e
      by_cases he : k₀ = k
      · simp only [assign, he, if_true, lookup_cons_if]
        split <;> rfl
      · simp only [assign, he, if_false, lookup_cons_if, ih]
        by_cases h : k' = k
        · have hne : ¬ k = k₀ := fun hk => he hk.symm
          simp [h, hne]
        · simp [h]

/-- Flattening entries under distinct keys and selecting one key gives that entry back. -/
theorem filter_flatMap_entries {β : Type w} (h : ν → List β) {es : List (κ × ν)}
    (hn : (es.map Prod.fst).Nodup) (k : κ) :
    ((es.flatMap fun p => (h p.2).map fun b => (p.1, b)).filter fun q => q.1 = k).map Prod.snd =
      ((es.lookup k).map h).getD [] := by
  induction es with
  | nil => rfl
  | cons e es ih =>
      obtain ⟨k', x⟩ := e
      simp only [List.map_cons, List.nodup_cons] at hn
      rw [List.flatMap_cons, List.filter_append, List.map_append, ih hn.2, lookup_cons_if]
      by_cases hk : k = k'
      · have hnone : es.lookup k = none := lookup_eq_none_iff_notMem.2 (hk ▸ hn.1)
        simp [hk ▸ hnone, hk, List.filter_map, Function.comp_def]
      · have hne : ¬ k' = k := fun he => hk he.symm
        simp [hk, hne, List.filter_map, Function.comp_def]

end Entries

/-! ## The structure -/

/-- Entries in insertion order, with pairwise distinct keys. -/
structure Dict (κ : Type u) (ν : Type v) where
  entries : List (κ × ν)
  nodup : (entries.map Prod.fst).Nodup

namespace Dict

variable {κ : Type u} {ν : Type v}

def empty : Dict κ ν := ⟨[], List.nodup_nil⟩

def keys (d : Dict κ ν) : List κ := d.entries.map Prod.fst

@[simp] theorem keys_empty : (empty : Dict κ ν).keys = [] := rfl

variable [DecidableEq κ]

/-- `d.get(k)`. -/
def get? (d : Dict κ ν) (k : κ) : Option ν := d.entries.lookup k

/-- `d[k] = x`. -/
def set (d : Dict κ ν) (k : κ) (x : ν) : Dict κ ν := ⟨assign k x d.entries, nodup_assign k x d.nodup⟩

/-- `d.setdefault(k, x)`. -/
def setDefault (d : Dict κ ν) (k : κ) (x : ν) : Dict κ ν :=
  match d.get? k with
  | some _ => d
  | none => d.set k x

/-- Assign the pairs one after the other: a later pair wins over an earlier one. -/
def assignAll (d : Dict κ ν) (ps : List (κ × ν)) : Dict κ ν :=
  ps.foldl (fun acc p => acc.set p.1 p.2) d

/-- A dictionary display or comprehension over a list of pairs. -/
def ofList (ps : List (κ × ν)) : Dict κ ν := empty.assignAll ps

/-- `d.update(e)`. -/
def update (d e : Dict κ ν) : Dict κ ν := d.assignAll e.entries

/-! ## Membership and lookup -/

@[simp] theorem get?_empty (k : κ) : (empty : Dict κ ν).get? k = none := rfl

theorem get?_eq_none_iff {d : Dict κ ν} {k : κ} : d.get? k = none ↔ k ∉ d.keys :=
  lookup_eq_none_iff_notMem

theorem mem_keys_iff {d : Dict κ ν} {k : κ} : k ∈ d.keys ↔ ∃ x, d.get? k = some x := by
  rw [← Option.ne_none_iff_exists', ne_eq, get?_eq_none_iff, not_not]

theorem mem_keys_of_get? {d : Dict κ ν} {k : κ} {x : ν} (h : d.get? k = some x) : k ∈ d.keys :=
  mem_keys_iff.2 ⟨x, h⟩

theorem get?_eq_some_iff {d : Dict κ ν} {k : κ} {x : ν} :
    d.get? k = some x ↔ (k, x) ∈ d.entries :=
  ⟨mem_of_lookup_eq_some, lookup_eq_some_of_mem d.nodup⟩

/-! ## Assignment -/

theorem get?_set (d : Dict κ ν) (k k' : κ) (x : ν) :
    (d.set k x).get? k' = if k' = k then some x else d.get? k' :=
  lookup_assign k k' x d.entries

@[simp] theorem get?_set_self (d : Dict κ ν) (k : κ) (x : ν) : (d.set k x).get? k = some x := by
  simp [get?_set]

theorem get?_set_of_ne (d : Dict κ ν) {k k' : κ} (x : ν) (h : k' ≠ k) :
    (d.set k x).get? k' = d.get? k' := by
  simp [get?_set, h]

/-- A new key comes last. -/
theorem entries_set_of_notMem {d : Dict κ ν} {k : κ} (h : k ∉ d.keys) (x : ν) :
    (d.set k x).entries = d.entries ++ [(k, x)] :=
  assign_of_notMem h x

theorem keys_set (d : Dict κ ν) (k : κ) (x : ν) :
    (d.set k x).keys = if k ∈ d.keys then d.keys else d.keys ++ [k] :=
  map_fst_assign k x d.entries

theorem mem_keys_set {d : Dict κ ν} {k k' : κ} {x : ν} :
    k' ∈ (d.set k x).keys ↔ k' = k ∨ k' ∈ d.keys := by
  rw [keys_set]
  split
  · next h => exact ⟨Or.inr, fun h' => h'.elim (fun e => e ▸ h) id⟩
  · simp [or_comm]

theorem get?_setDefault (d : Dict κ ν) (k k' : κ) (x : ν) :
    (d.setDefault k x).get? k' = if k' = k then some ((d.get? k).getD x) else d.get? k' := by
  unfold setDefault
  cases h : d.get? k with
  | some y => by_cases hk : k' = k <;> simp [hk, h]
  | none => simp [get?_set]

/-! ## Removal -/

/-- `d.pop(k, None)` -/
def erase (d : Dict κ ν) (k : κ) : Dict κ ν :=
  ⟨d.entries.filter fun p => p.1 ≠ k, d.nodup.sublist (List.filter_sublist.map _)⟩

omit [DecidableEq κ] in
/-- `d.pop(next(iter(d)))`: the oldest entry leaves. -/
def popFirst (d : Dict κ ν) : Dict κ ν :=
  ⟨d.entries.tail, d.nodup.sublist ((List.tail_sublist _).map _)⟩

theorem get?_of_sublist {d e : Dict κ ν} (h : e.entries.Sublist d.entries) {k : κ} {x : ν}
    (hk : e.get? k = some x) : d.get? k = some x :=
  get?_eq_some_iff.2 (h.subset (get?_eq_some_iff.1 hk))

theorem get?_of_get?_erase {d : Dict κ ν} {k k' : κ} {x : ν} (h : (d.erase k).get? k' = some x) :
    d.get? k' = some x :=
  get?_of_sublist List.filter_sublist h

theorem get?_of_get?_popFirst {d : Dict κ ν} {k : κ} {x : ν} (h : d.popFirst.get? k = some x) :
    d.get? k = some x :=
  get?_of_sublist (List.tail_sublist _) h

/-! ## Assigning many pairs -/

@[simp] theorem assignAll_nil (d : Dict κ ν) : d.assignAll [] = d := rfl

@[simp] theorem assignAll_cons (d : Dict κ ν) (p : κ × ν) (ps : List (κ × ν)) :
    d.assignAll (p :: ps) = (d.set p.1 p.2).assignAll ps := rfl

/-- The last pair for a key decides, and failing that the old dictionary. -/
theorem get?_assignAll (d : Dict κ ν) (ps : List (κ × ν)) (k : κ) :
    (d.assignAll ps).get? k = (ps.reverse.lookup k).or (d.get? k) := by
  induction ps generalizing d with
  | nil => simp
  | cons p ps ih =>
      obtain ⟨k', y⟩ := p
      rw [assignAll_cons, ih, get?_set, List.reverse_cons, List.lookup_append, Option.or_assoc,
        lookup_cons_if]
      by_cases hk : k = k' <;> simp [hk]

theorem mem_keys_assignAll {d : Dict κ ν} {ps : List (κ × ν)} {k : κ} :
    k ∈ (d.assignAll ps).keys ↔ k ∈ d.keys ∨ k ∈ ps.map Prod.fst := by
  induction ps generalizing d with
  | nil => simp
  | cons p ps ih =>
      rw [assignAll_cons, ih, mem_keys_set, List.map_cons, List.mem_cons]
      tauto

theorem mem_keys_ofList {ps : List (κ × ν)} {k : κ} :
    k ∈ (ofList ps).keys ↔ k ∈ ps.map Prod.fst := by
  simp [ofList, mem_keys_assignAll]

/-- In a dictionary built from a list, a key has the value of its last pair. -/
theorem get?_ofList (ps : List (κ × ν)) (k : κ) :
    (ofList ps).get? k = ps.reverse.lookup k := by
  simp [ofList, get?_assignAll]

theorem mem_of_get?_ofList {ps : List (κ × ν)} {k : κ} {x : ν} (h : (ofList ps).get? k = some x) :
    (k, x) ∈ ps := by
  rw [get?_ofList] at h
  exact List.mem_reverse.1 (mem_of_lookup_eq_some h)

/-- Pairs with one value for each key, in any order. -/
theorem get?_ofList_of_functional {ps : List (κ × ν)}
    (h : ∀ k x y, (k, x) ∈ ps → (k, y) ∈ ps → x = y) {k : κ} {x : ν} :
    (ofList ps).get? k = some x ↔ (k, x) ∈ ps := by
  constructor
  · exact mem_of_get?_ofList
  · intro hx
    have hkey : k ∈ (ofList ps).keys := mem_keys_ofList.2 (List.mem_map.2 ⟨(k, x), hx, rfl⟩)
    obtain ⟨y, hy⟩ := mem_keys_iff.1 hkey
    rw [hy, h k y x (mem_of_get?_ofList hy) hx]

theorem get?_update (d e : Dict κ ν) (k : κ) :
    (d.update e).get? k = (e.get? k).or (d.get? k) := by
  rw [update, get?_assignAll]
  congr 1
  cases h : e.get? k with
  | none =>
      rw [lookup_eq_none_iff_notMem, List.map_reverse, List.mem_reverse]
      exact get?_eq_none_iff.1 h
  | some x =>
      refine lookup_eq_some_of_mem ?_ (List.mem_reverse.2 (get?_eq_some_iff.1 h))
      rw [List.map_reverse]
      exact List.nodup_reverse.2 e.nodup

/-- With pairwise distinct keys no pair is overwritten. -/
theorem get?_ofList_of_nodup {ps : List (κ × ν)} (hn : (ps.map Prod.fst).Nodup) {k : κ} {x : ν} :
    (ofList ps).get? k = some x ↔ (k, x) ∈ ps := by
  apply get?_ofList_of_functional
  intro k x y hx hy
  have hpair := List.inj_on_of_nodup_map hn hx hy rfl
  exact (Prod.mk.inj hpair).2

/-! ## Grouping -/

/-- Every key has a value that starts as `start` and takes in the key's members one by one. -/
def tally {α : Type v} {β : Type w} (key : α → κ) (start : β) (add : β → α → β) (xs : List α) :
    Dict κ β :=
  xs.foldl (fun d x => d.set (key x) (add ((d.get? (key x)).getD start) x)) empty

theorem tally_concat {α : Type v} {β : Type w} (key : α → κ) (start : β) (add : β → α → β)
    (xs : List α) (x : α) :
    tally key start add (xs ++ [x]) = (tally key start add xs).set (key x)
      (add (((tally key start add xs).get? (key x)).getD start) x) := by
  simp [tally, List.foldl_append]

/-- A key's value depends on its members only; a key without members is absent. -/
theorem get?_tally {α : Type v} {β : Type w} (key : α → κ) (start : β) (add : β → α → β)
    (xs : List α) (k : κ) :
    (tally key start add xs).get? k =
      if xs.filter (fun x => key x = k) = [] then none
      else some ((xs.filter fun x => key x = k).foldl add start) := by
  induction xs using List.reverseRecOn with
  | nil => simp [tally]
  | append_singleton xs x ih =>
      rw [tally_concat, get?_set]
      by_cases hk : k = key x
      · have hold : ((tally key start add xs).get? k).getD start =
            (xs.filter fun y => key y = k).foldl add start := by
          rw [ih]
          split
          · next h => simp [h]
          · rfl
        rw [if_pos hk, ← hk, hold]
        simp [List.filter_append, List.foldl_append, hk]
      · have hne : ¬ key x = k := fun h => hk h.symm
        rw [if_neg hk, ih]
        simp [List.filter_append, hne]

/-- `defaultdict(list)` filled by `d[key(x)].append(x)`. -/
def groupBy {α : Type v} (key : α → κ) (xs : List α) : Dict κ (List α) :=
  xs.foldl (fun d x => d.set (key x) ((d.get? (key x)).getD [] ++ [x])) empty

/-- A group holds its members in order; a key without members is absent. -/
theorem get?_groupBy {α : Type v} (key : α → κ) (xs : List α) (k : κ) :
    (groupBy key xs).get? k =
      if xs.filter (fun x => key x = k) = [] then none
      else some (xs.filter fun x => key x = k) := by
  have htally : groupBy key xs = tally key [] (fun group x => group ++ [x]) xs := rfl
  have hmembers : ∀ ys zs : List α, ys.foldl (fun group x => group ++ [x]) zs = zs ++ ys := by
    intro ys
    induction ys with
    | nil => simp
    | cons y ys ih => simp [ih]
  rw [htally, get?_tally, hmembers, List.nil_append]

theorem flatMap_assign_perm {α : Type v} (k : κ) (x : α) (es : List (κ × List α)) :
    ((assign k ((es.lookup k).getD [] ++ [x]) es).flatMap Prod.snd).Perm
      (es.flatMap Prod.snd ++ [x]) := by
  induction es with
  | nil => simp [assign]
  | cons e es ih =>
      rw [lookup_cons_if]
      unfold assign
      split
      · next hk =>
          simp only [hk, if_true, Option.getD_some, List.flatMap_cons, List.append_assoc]
          exact List.perm_append_comm.append_left e.2
      · next hk =>
          have hne : ¬ k = e.1 := fun h => hk h.symm
          simp only [hne, if_false, List.flatMap_cons, List.append_assoc]
          exact ih.append_left e.2

/-- Every element is in one group. -/
theorem flatMap_groupBy_perm {α : Type v} (key : α → κ) (xs : List α) :
    ((groupBy key xs).entries.flatMap Prod.snd).Perm xs := by
  induction xs using List.reverseRecOn with
  | nil => exact List.Perm.nil
  | append_singleton xs x ih =>
      have hlast : groupBy key (xs ++ [x]) = (groupBy key xs).set (key x)
          (((groupBy key xs).get? (key x)).getD [] ++ [x]) := List.foldl_concat ..
      rw [hlast]
      exact (flatMap_assign_perm (key x) x _).trans (ih.append_right [x])

theorem get?_groupBy_getD {α : Type v} (key : α → κ) (xs : List α) (k : κ) :
    ((groupBy key xs).get? k).getD [] = xs.filter fun x => key x = k := by
  rw [get?_groupBy]
  split
  · next h => simp [h]
  · rfl

end Dict

end OpsKnowledge.Lib
