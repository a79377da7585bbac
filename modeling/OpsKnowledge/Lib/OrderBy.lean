import Mathlib.Data.List.Sort
import Mathlib.Tactic.Common

/-!
# Rows in the order of a key

`orderBy` sorts a list by a key. A query whose key leaves rows tied may give them in any
order; here the order of ties is part of the key. Where the rows differ in a coarser key,
every key that refines it gives one order. Rows that are not selected, and that do not
reach the first places, do not change these.
-/

namespace OpsKnowledge.Lib

variable {α κ κ' β : Type*} [LinearOrder κ] [LinearOrder κ'] [LinearOrder β]

def orderBy (key : α → κ) (rows : List α) : List α :=
  rows.insertionSort fun a b => key a ≤ key b

/-- From the largest key down, rows of one key in their old order. -/
def orderByDesc (key : α → κ) (rows : List α) : List α :=
  rows.insertionSort fun a b => key b ≤ key a

theorem orderByDesc_perm (key : α → κ) (rows : List α) : (orderByDesc key rows).Perm rows :=
  List.perm_insertionSort _ rows

theorem mem_orderByDesc {key : α → κ} {rows : List α} {a : α} : a ∈ orderByDesc key rows ↔ a ∈ rows :=
  (orderByDesc_perm key rows).mem_iff

theorem orderByDesc_eq_self {key : α → κ} {rows : List α} (h : rows.Pairwise fun a b => key b ≤ key a) :
    orderByDesc key rows = rows :=
  h.insertionSort_eq

theorem orderByDesc_pairwise (key : α → κ) (rows : List α) :
    (orderByDesc key rows).Pairwise fun a b => key b ≤ key a := by
  have : IsTrans α fun a b => key b ≤ key a := ⟨fun _ _ _ hab hbc => hbc.trans hab⟩
  have : Std.Total fun a b : α => key b ≤ key a := ⟨fun a b => le_total (key b) (key a)⟩
  exact List.pairwise_insertionSort _ rows

theorem filterMap_orderedInsert {γ : Type*} {f : α → Option γ} {r : α → α → Prop} {r' : γ → γ → Prop}
    [DecidableRel r] [DecidableRel r'] {a : α} {b : γ} {rows : List α} (hb : f a = some b)
    (h : ∀ c ∈ rows, ∃ d, f c = some d ∧ (r a c ↔ r' b d)) :
    (rows.orderedInsert r a).filterMap f = (rows.filterMap f).orderedInsert r' b := by
  induction rows with
  | nil => simp [hb]
  | cons c rows ih =>
      obtain ⟨d, hd, hac⟩ := h c List.mem_cons_self
      have hrest := ih fun c' hc' => h c' (List.mem_cons_of_mem c hc')
      by_cases hr : r a c
      · simp [List.orderedInsert, hr, hac.1 hr, hb, hd]
      · simp [List.orderedInsert, hr, mt hac.2 hr, hd, hrest]

/-- Rows may be sorted by what they stand for before they are replaced by it. -/
theorem orderByDesc_filterMap {γ : Type*} {f : α → Option γ} {key : α → κ} {key' : γ → κ} {rows : List α}
    (h : ∀ a ∈ rows, ∃ b, f a = some b ∧ key' b = key a) :
    orderByDesc key' (rows.filterMap f) = (orderByDesc key rows).filterMap f := by
  induction rows with
  | nil => rfl
  | cons a rows ih =>
      obtain ⟨b, hb, hkey⟩ := h a List.mem_cons_self
      have hrest : ∀ c ∈ rows, ∃ d, f c = some d ∧ key' d = key c :=
        fun c hc => h c (List.mem_cons_of_mem a hc)
      have hinsert : ∀ c ∈ orderByDesc key rows, ∃ d, f c = some d ∧ (key c ≤ key a ↔ key' d ≤ key' b) := by
        intro c hc
        obtain ⟨d, hd, hkey'⟩ := hrest c (mem_orderByDesc.1 hc)
        exact ⟨d, hd, by rw [hkey, hkey']⟩
      rw [List.filterMap_cons_some hb]
      show (orderByDesc key' (rows.filterMap f)).orderedInsert (fun x y => key' y ≤ key' x) b =
        ((orderByDesc key rows).orderedInsert (fun x y => key y ≤ key x) a).filterMap f
      rw [ih hrest]
      exact (filterMap_orderedInsert (r := fun x y => key y ≤ key x) hb hinsert).symm

section Select

variable {r : α → α → Prop} [DecidableRel r] (p : α → Bool)

theorem filter_orderedInsert [IsTrans α r] (a : α) {rows : List α} (h : rows.Pairwise r) :
    (rows.orderedInsert r a).filter p =
      if p a then (rows.filter p).orderedInsert r a else rows.filter p := by
  induction rows with
  | nil => cases hp : p a <;> simp [hp]
  | cons b rows ih =>
      obtain ⟨hb, hrest⟩ := List.pairwise_cons.1 h
      by_cases hab : r a b
      · rw [List.orderedInsert_cons_of_le r rows hab, List.filter_cons]
        cases hp : p a with
        | false => rfl
        | true =>
            -- `a` comes before every row that is left
            have hle : ∀ c ∈ (b :: rows).filter p, r a c := by
              intro c hc
              rcases List.mem_cons.1 (List.mem_of_mem_filter hc) with rfl | hc
              · exact hab
              · exact Trans.trans hab (hb c hc)
            show a :: (b :: rows).filter p = ((b :: rows).filter p).orderedInsert r a
            cases hrows : (b :: rows).filter p with
            | nil => rfl
            | cons c rest =>
                rw [hrows] at hle
                exact (List.orderedInsert_cons_of_le r rest (hle c List.mem_cons_self)).symm
      · rw [List.orderedInsert_of_not_le r rows hab, List.filter_cons, List.filter_cons, ih hrest]
        cases hp : p a <;> cases hq : p b <;> simp [hab]

/-- Rows of one key keep their order, so the selection may come before or after the sorting. -/
theorem insertionSort_filter [IsTrans α r] [Std.Total r] (rows : List α) :
    (rows.filter p).insertionSort r = (rows.insertionSort r).filter p := by
  induction rows with
  | nil => rfl
  | cons a rows ih =>
      show _ = ((rows.insertionSort r).orderedInsert r a).filter p
      rw [filter_orderedInsert p a (List.pairwise_insertionSort r rows), ← ih]
      cases hp : p a with
      | false => simp [hp]
      | true => simp [hp]

theorem orderByDesc_filter (key : α → κ) (rows : List α) :
    orderByDesc key (rows.filter p) = (orderByDesc key rows).filter p := by
  have : IsTrans α fun a b => key b ≤ key a := ⟨fun _ _ _ hab hbc => hbc.trans hab⟩
  have : Std.Total fun a b : α => key b ≤ key a := ⟨fun a b => le_total (key b) (key a)⟩
  exact insertionSort_filter p rows

theorem filter_orderBy (key : α → κ) (rows : List α) :
    orderBy key (rows.filter p) = (orderBy key rows).filter p := by
  have : IsTrans α fun a b => key a ≤ key b := ⟨fun _ _ _ => le_trans⟩
  have : Std.Total fun a b : α => key a ≤ key b := ⟨fun a b => le_total (key a) (key b)⟩
  exact insertionSort_filter p rows

theorem take_filter_of_forall {n : Nat} {rows : List α} (h : ∀ a ∈ rows.take n, p a = true) :
    (rows.filter p).take n = rows.take n := by
  induction rows generalizing n with
  | nil => rfl
  | cons a rows ih =>
      cases n with
      | zero => simp
      | succ n =>
          rw [List.take_succ_cons] at h
          rw [List.filter_cons_of_pos (h a List.mem_cons_self), List.take_succ_cons, List.take_succ_cons,
            ih fun b hb => h b (List.mem_cons_of_mem a hb)]

/-- Rows that do not reach the first places can as well be left out. -/
theorem take_orderByDesc_filter {key : α → κ} {n : Nat} {rows : List α}
    (h : ∀ a ∈ (orderByDesc key rows).take n, p a = true) :
    (orderByDesc key (rows.filter p)).take n = (orderByDesc key rows).take n := by
  rw [orderByDesc_filter, take_filter_of_forall p h]

end Select

section Order

variable {key : α → κ} {key' : α → κ'} (base : α → β) {rows rows' : List α}

theorem orderBy_perm (key : α → κ) (rows : List α) : (orderBy key rows).Perm rows :=
  List.perm_insertionSort _ rows

theorem mem_orderBy {a : α} : a ∈ orderBy key rows ↔ a ∈ rows := (orderBy_perm key rows).mem_iff

theorem orderBy_pairwise (key : α → κ) (rows : List α) :
    (orderBy key rows).Pairwise fun a b => key a ≤ key b := by
  have : IsTrans α fun a b => key a ≤ key b := ⟨fun _ _ _ => le_trans⟩
  have : Std.Total fun a b : α => key a ≤ key b := ⟨fun a b => le_total (key a) (key b)⟩
  exact List.pairwise_insertionSort _ rows

/-- Rows that differ in `base` stand in strict order under every key that refines it. -/
theorem orderBy_strict (hkey : ∀ a b, key a ≤ key b → base a ≤ base b)
    (hbase : rows.Pairwise fun a b => base a ≠ base b) :
    (orderBy key rows).Pairwise fun a b => base a < base b := by
  have hne : (orderBy key rows).Pairwise fun a b => base a ≠ base b :=
    (orderBy_perm key rows).symm.pairwise hbase fun h => h.symm
  have hle : (orderBy key rows).Pairwise fun a b => base a ≤ base b :=
    (orderBy_pairwise key rows).imp fun h => hkey _ _ h
  exact (hle.and hne).imp fun h => lt_of_le_of_ne h.1 h.2

/-- Two strictly ordered lists of the same rows are equal. -/
theorem eq_of_strict (hperm : rows.Perm rows') (h : rows.Pairwise fun a b => base a < base b)
    (h' : rows'.Pairwise fun a b => base a < base b) : rows = rows' :=
  hperm.eq_of_pairwise (fun _ _ _ _ hlt hlt' => absurd hlt (not_lt_of_gt hlt')) h h'

theorem orderBy_eq_orderBy (hkey : ∀ a b, key a ≤ key b → base a ≤ base b)
    (hkey' : ∀ a b, key' a ≤ key' b → base a ≤ base b)
    (hbase : rows.Pairwise fun a b => base a ≠ base b) : orderBy key rows = orderBy key' rows :=
  eq_of_strict base ((orderBy_perm key rows).trans (orderBy_perm key' rows).symm)
    (orderBy_strict base hkey hbase) (orderBy_strict base hkey' hbase)

/-- Selecting rows before or after the ordering is the same. -/
theorem orderBy_filter (hkey : ∀ a b, key a ≤ key b → base a ≤ base b)
    (hkey' : ∀ a b, key' a ≤ key' b → base a ≤ base b)
    (hbase : rows.Pairwise fun a b => base a ≠ base b) (p : α → Bool) :
    orderBy key (rows.filter p) = (orderBy key' rows).filter p :=
  eq_of_strict base
    ((orderBy_perm key (rows.filter p)).trans ((orderBy_perm key' rows).filter p).symm)
    (orderBy_strict base hkey (hbase.filter p)) ((orderBy_strict base hkey' hbase).filter p)

/-- In rows sorted by `base`, a row below all others comes first. -/
theorem eq_cons_of_forall_lt {a : α} (hsorted : rows.Pairwise fun a b => base a ≤ base b)
    (ha : a ∈ rows) (hdistinct : rows.Nodup) (h : ∀ b ∈ rows, b ≠ a → base a < base b) :
    ∃ post, rows = a :: post ∧ ∀ b ∈ post, base a < base b := by
  cases rows with
  | nil => exact absurd ha List.not_mem_nil
  | cons first post =>
      have hfirst : first = a := by
        by_contra hne
        have hlt : base a < base first := h first List.mem_cons_self hne
        have hmem : a ∈ post := (List.mem_cons.1 ha).resolve_left (Ne.symm hne)
        exact absurd ((List.pairwise_cons.1 hsorted).1 a hmem) (not_le_of_gt hlt)
      subst hfirst
      refine ⟨post, rfl, fun b hb => h b (List.mem_cons_of_mem _ hb) ?_⟩
      rintro rfl
      exact (List.nodup_cons.1 hdistinct).1 hb

/-- In rows sorted by `base`, a row comes directly behind one below it when no other row is between
them or level with one of them. -/
theorem eq_append_of_adjacent {a b : α} (hsorted : rows.Pairwise fun a b => base a ≤ base b)
    (ha : a ∈ rows) (hb : b ∈ rows) (hdistinct : rows.Nodup) (hab : base a < base b)
    (h : ∀ c ∈ rows, c ≠ a → c ≠ b → base c < base a ∨ base b < base c) :
    ∃ pre post, rows = pre ++ a :: b :: post ∧ ∀ c ∈ post, base b < base c := by
  rcases List.append_of_mem ha with ⟨pre, rest, rfl⟩
  rcases List.pairwise_append.1 hsorted with ⟨-, hrest, hpre⟩
  rcases List.pairwise_cons.1 hrest with ⟨hbehind, hsortedRest⟩
  rcases List.nodup_append'.1 hdistinct with ⟨-, hdistinctRest, -⟩
  rcases List.nodup_cons.1 hdistinctRest with ⟨hnotMem, hnodup⟩
  have hne : b ≠ a := by
    rintro rfl
    exact lt_irrefl _ hab
  have hmem : b ∈ rest := by
    rcases List.mem_append.1 hb with hpreMem | hrestMem
    · exact absurd (hpre b hpreMem a List.mem_cons_self) (not_le_of_gt hab)
    · exact (List.mem_cons.1 hrestMem).resolve_left hne
  have hlt : ∀ c ∈ rest, c ≠ b → base b < base c := by
    intro c hc hcb
    have hca : c ≠ a := by
      rintro rfl
      exact hnotMem hc
    have hmemRows : c ∈ pre ++ a :: rest := List.mem_append_right _ (List.mem_cons_of_mem _ hc)
    exact (h c hmemRows hca hcb).resolve_left (not_lt_of_ge (hbehind c hc))
  rcases eq_cons_of_forall_lt base hsortedRest hmem hnodup hlt with ⟨post, rfl, hpost⟩
  exact ⟨pre, post, rfl, hpost⟩

end Order

end OpsKnowledge.Lib
