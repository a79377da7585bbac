import Mathlib.Data.List.Sort
import Mathlib.Order.MinMax
import OpsKnowledge.Lib.OrderBy

/-!
# Paging by a cursor

Keys are collected page by page; a page is asked for the keys above a cursor, and the cursor
of the next one is the greatest key of this page. The pages hold as many keys as fit, but
which ones, and their order, is left to the store. Every key is collected at most once, and
all are exactly when no page that leaves a rest skips a key.
-/

namespace OpsKnowledge.Lib

variable {α : Type*} [LinearOrder α]

def above (cursor : Option α) (keys : List α) : List α := keys.filter fun x => ∀ c ∈ cursor, c < x

/-- Answers to queries for the keys above a cursor. -/
structure Pages (keys : List α) (size : Nat) where
  page : Option α → List α
  subperm : ∀ c, (page c).Subperm (above c keys)
  length_page : ∀ c, (page c).length = min size (above c keys).length

/-- The loop; a page that is not full is the last one. `none` when the fuel is used up. -/
def collect (page : Option α → List α) (size : Nat) : Nat → Option α → List α → Option (List α)
  | 0, _, _ => none
  | fuel + 1, cursor, found =>
      let rows := page cursor
      if rows.isEmpty then some found
      else if rows.length < size then some (found ++ rows)
      else collect page size fuel rows.max? (found ++ rows)

theorem mem_above {cursor : Option α} {keys : List α} {x : α} :
    x ∈ above cursor keys ↔ x ∈ keys ∧ ∀ c ∈ cursor, c < x := by
  simp [above]

theorem max?_eq_some {rows : List α} {y : α} : rows.max? = some y ↔ y ∈ rows ∧ ∀ x ∈ rows, x ≤ y := by
  have : Std.LawfulOrderMax α := .of_max_le_iff (fun _ _ _ => max_le_iff) max_choice
  exact List.max?_eq_some_iff

theorem exists_max? {rows : List α} (h : rows ≠ []) :
    ∃ y, rows.max? = some y ∧ y ∈ rows ∧ ∀ x ∈ rows, x ≤ y := by
  obtain ⟨y, hy⟩ := Option.ne_none_iff_exists'.1 (mt List.max?_eq_none_iff.1 h)
  exact ⟨y, hy, max?_eq_some.1 hy⟩

/-- The greatest key of some that are above a cursor is a cursor above it. -/
theorem above_max_subset {cursor : Option α} {keys rows : List α}
    (hrows : ∀ x ∈ rows, x ∈ above cursor keys) :
    rows ≠ [] → ∀ x ∈ above rows.max? keys, x ∈ above cursor keys ∧ x ∉ rows := by
  intro hne x hx
  obtain ⟨hkey, hlt⟩ := mem_above.1 hx
  obtain ⟨y, hy, hyin, hymax⟩ := exists_max? hne
  have hyx := hlt y hy
  refine ⟨mem_above.2 ⟨hkey, ?_⟩, ?_⟩
  · intro c hc
    exact ((mem_above.1 (hrows y hyin)).2 c hc).trans hyx
  · intro hin
    exact absurd (hymax x hin) (not_le.2 hyx)

namespace Pages

variable {keys : List α} {size : Nat} (p : Pages keys size)

theorem mem_page {cursor : Option α} {x : α} (h : x ∈ p.page cursor) : x ∈ above cursor keys :=
  (p.subperm cursor).subset h

theorem nodup_page (hkeys : keys.Nodup) (cursor : Option α) : (p.page cursor).Nodup := by
  obtain ⟨rows, hperm, hsub⟩ := p.subperm cursor
  exact hperm.nodup_iff.1 (hsub.nodup (hkeys.filter _))

/-- What the loop adds lies above its cursor, each key once. -/
theorem collect_eq_append (hkeys : keys.Nodup) {fuel : Nat} {cursor : Option α} {found out : List α}
    (h : collect p.page size fuel cursor found = some out) :
    ∃ rest, out = found ++ rest ∧ rest.Nodup ∧ ∀ x ∈ rest, x ∈ above cursor keys := by
  induction fuel generalizing cursor found with
  | zero => cases h
  | succ fuel ih =>
      rw [collect] at h
      by_cases hnil : p.page cursor = []
      · rw [if_pos (by simp [hnil])] at h
        cases h
        exact ⟨[], by simp, List.nodup_nil, nofun⟩
      · rw [if_neg (by simpa using hnil)] at h
        split at h
        · cases h
          exact ⟨_, rfl, p.nodup_page hkeys cursor, fun x hx => p.mem_page hx⟩
        · obtain ⟨rest, rfl, hnodup, hrest⟩ := ih h
          have hlater : ∀ x ∈ rest, x ∈ above cursor keys ∧ x ∉ p.page cursor :=
            fun x hx => above_max_subset (fun y hy => p.mem_page hy) hnil x (hrest x hx)
          refine ⟨p.page cursor ++ rest, by rw [List.append_assoc], ?_, ?_⟩
          · exact (p.nodup_page hkeys cursor).append hnodup fun x hx hx' => (hlater x hx').2 hx
          · intro x hx
            rcases List.mem_append.1 hx with hx | hx
            · exact p.mem_page hx
            · exact (hlater x hx).1

/-! ## Complete runs -/

/-- The first `k` pages of the keys in order. -/
def firstPages (keys : List α) (size k : Nat) : List α := (orderBy id keys).take (k * size)

def nextPage (keys : List α) (size k : Nat) : List α := ((orderBy id keys).drop (k * size)).take size

/-- Asked for the keys above the first `k` pages, the store gives the next page. -/
def Exact (k : Nat) : Prop := (p.page (firstPages keys size k).max?).Perm (nextPage keys size k)

omit p in
theorem firstPages_succ (k : Nat) :
    firstPages keys size (k + 1) = firstPages keys size k ++ nextPage keys size k := by
  unfold firstPages nextPage
  rw [Nat.succ_mul, List.take_add]

omit p in
theorem sorted_keys (hkeys : keys.Nodup) : (orderBy id keys).Pairwise (· < ·) :=
  ((orderBy_pairwise id keys).and ((orderBy_perm id keys).nodup_iff.2 hkeys)).imp
    fun h => lt_of_le_of_ne h.1 h.2

omit p in
/-- What is above the first pages is the rest. -/
theorem above_firstPages (hkeys : keys.Nodup) (k : Nat) :
    (above (firstPages keys size k).max? keys).Perm ((orderBy id keys).drop (k * size)) := by
  have hsorted := sorted_keys hkeys
  rw [← List.take_append_drop (k * size) (orderBy id keys), List.pairwise_append] at hsorted
  have hperm : (above (firstPages keys size k).max? keys).Perm
      (above (firstPages keys size k).max? (orderBy id keys)) := (orderBy_perm id keys).symm.filter _
  refine hperm.trans (List.Perm.of_eq ?_)
  conv_lhs => rw [← List.take_append_drop (k * size) (orderBy id keys)]
  unfold above
  rw [List.filter_append]
  have hfirst : ((orderBy id keys).take (k * size)).filter
      (fun x => decide (∀ c ∈ (firstPages keys size k).max?, c < x)) = [] := by
    rw [List.filter_eq_nil_iff]
    intro x hx hlt
    obtain ⟨y, hy, -, hymax⟩ := exists_max? (List.ne_nil_of_mem hx)
    exact absurd (of_decide_eq_true hlt y hy) (not_lt.2 (hymax x hx))
  have hrest : ((orderBy id keys).drop (k * size)).filter
      (fun x => decide (∀ c ∈ (firstPages keys size k).max?, c < x)) =
        (orderBy id keys).drop (k * size) := by
    rw [List.filter_eq_self]
    intro x hx
    apply decide_eq_true
    intro c hc
    exact hsorted.2.2 c (max?_eq_some.1 hc).1 x hx
  rw [hfirst, hrest, List.nil_append]

omit p in
theorem length_above_firstPages (hkeys : keys.Nodup) (k : Nat) :
    (above (firstPages keys size k).max? keys).length = keys.length - k * size := by
  rw [(above_firstPages hkeys k).length_eq, List.length_drop, (orderBy_perm id keys).length_eq]

/-- With an exact page the cursor moves to the end of one more page. -/
theorem max?_page {k : Nat} (hpage : p.Exact k) (hne : p.page (firstPages keys size k).max? ≠ []) :
    (p.page (firstPages keys size k).max?).max? = (firstPages keys size (k + 1)).max? := by
  obtain ⟨y, hy, hyin, hymax⟩ := exists_max? hne
  rw [hy, eq_comm, max?_eq_some, firstPages_succ]
  refine ⟨List.mem_append_right _ (hpage.subset hyin), ?_⟩
  intro x hx
  rcases List.mem_append.1 hx with hx | hx
  · obtain ⟨z, hz, -, hzmax⟩ := exists_max? (List.ne_nil_of_mem hx)
    exact (hzmax x hx).trans ((mem_above.1 (p.mem_page hyin)).2 z hz).le
  · exact hymax x (hpage.symm.subset hx)

omit p in
theorem drop_eq_nextPage (k : Nat) :
    (orderBy id keys).drop (k * size) = nextPage keys size k ++ (orderBy id keys).drop ((k + 1) * size) := by
  rw [nextPage, Nat.succ_mul, ← List.drop_drop, List.take_append_drop]

/-- The page of the last keys has no choice. -/
theorem exact_of_last (hkeys : keys.Nodup) {k : Nat} (hlast : keys.length ≤ (k + 1) * size) : p.Exact k := by
  rw [Nat.succ_mul] at hlast
  have habove : (above (firstPages keys size k).max? keys).length = keys.length - k * size :=
    length_above_firstPages hkeys k
  have hpage : (p.page (firstPages keys size k).max?).Perm (above (firstPages keys size k).max? keys) := by
    apply (p.subperm _).perm_of_length_le
    rw [p.length_page]
    omega
  unfold Exact nextPage
  rw [List.take_of_length_le (by rw [List.length_drop, (orderBy_perm id keys).length_eq]; omega)]
  exact hpage.trans (above_firstPages hkeys k)

theorem length_page_firstPages (hkeys : keys.Nodup) {k : Nat} (hk : (k + 1) * size ≤ keys.length) :
    (p.page (firstPages keys size k).max?).length = size := by
  rw [Nat.succ_mul] at hk
  rw [p.length_page, length_above_firstPages hkeys k]
  omega

theorem page_ne_nil (hsize : 0 < size) (hkeys : keys.Nodup) {k : Nat} (hk : (k + 1) * size ≤ keys.length) :
    p.page (firstPages keys size k).max? ≠ [] := by
  have hlength := p.length_page_firstPages hkeys hk
  rw [← List.length_pos_iff]
  omega

omit p in
theorem nodup_nextPage (hkeys : keys.Nodup) (k : Nat) : (nextPage keys size k).Nodup :=
  ((orderBy_perm id keys).nodup_iff.2 hkeys).sublist
    ((List.take_sublist _ _).trans (List.drop_sublist _ _))

omit p in
theorem length_nextPage {k : Nat} (hk : (k + 1) * size ≤ keys.length) :
    (nextPage keys size k).length = size := by
  rw [Nat.succ_mul] at hk
  rw [nextPage, List.length_take, List.length_drop, (orderBy_perm id keys).length_eq]
  omega

/-- After exact pages the loop is behind them. -/
theorem exists_collect_eq (hsize : 0 < size) (hkeys : keys.Nodup) {k : Nat} (hk : k * size ≤ keys.length)
    (hexact : ∀ j < k, p.Exact j) : ∃ found, found.Perm (firstPages keys size k) ∧
      ∀ fuel, collect p.page size (fuel + k) none [] =
        collect p.page size fuel (firstPages keys size k).max? found := by
  induction k with
  | zero => exact ⟨[], by simp [firstPages], fun fuel => by simp [firstPages]⟩
  | succ k ih =>
      have hk' : k * size ≤ keys.length := by
        rw [Nat.succ_mul] at hk
        omega
      obtain ⟨found, hfound, hrun⟩ := ih hk' fun j hj => hexact j (by omega)
      have hpage := hexact k (Nat.lt_succ_self k)
      have hlength := p.length_page_firstPages hkeys hk
      have hne := p.page_ne_nil hsize hkeys hk
      refine ⟨found ++ p.page (firstPages keys size k).max?, ?_, ?_⟩
      · rw [firstPages_succ]
        exact hfound.append hpage
      · intro fuel
        have hfuel : fuel + (k + 1) = (fuel + 1) + k := by omega
        rw [hfuel, hrun, collect, if_neg (by simpa using hne), if_neg (by omega), p.max?_page hpage hne]

/-- A page whose keys are all below a key of the next page is not full. -/
theorem not_forall_lt (hkeys : keys.Nodup) {k : Nat} (hk : (k + 1) * size < keys.length) {x : α}
    (hx : x ∈ nextPage keys size k) : ¬ ∀ y ∈ p.page (firstPages keys size k).max?, y < x := by
  intro hlt
  have hsorted := (sorted_keys hkeys).sublist (List.drop_sublist (k * size) _)
  rw [drop_eq_nextPage, List.pairwise_append] at hsorted
  have hsub : (p.page (firstPages keys size k).max?).Subperm ((nextPage keys size k).erase x) := by
    apply List.subperm_of_subset (p.nodup_page hkeys _)
    intro y hy
    have hdrop := (above_firstPages hkeys k).subset (p.mem_page hy)
    rw [drop_eq_nextPage] at hdrop
    rcases List.mem_append.1 hdrop with hnext | hlater
    · exact (List.mem_erase_of_ne (hlt y hy).ne).2 hnext
    · exact absurd (hlt y hy) (not_lt.2 (hsorted.2.2 x hx y hlater).le)
  have hlength := hsub.length_le
  have hpos := List.length_pos_of_mem hx
  have hbound : (nextPage keys size k).length ≤ size := List.length_take_le _ _
  rw [p.length_page_firstPages hkeys hk.le, List.length_erase_of_mem hx] at hlength
  omega

/-- A loop that collects all keys has an exact page behind exact ones. -/
theorem exact_of_collect (hsize : 0 < size) (hkeys : keys.Nodup) {k : Nat}
    (hk : (k + 1) * size < keys.length) (hpages : ∀ j < k, p.Exact j) {out : List α}
    (hout : collect p.page size (keys.length + 1) none [] = some out) (hperm : out.Perm keys) :
    p.Exact k := by
  have hk' : k * size ≤ keys.length := by
    rw [Nat.succ_mul] at hk
    omega
  have hkn : k ≤ keys.length := (Nat.le_mul_of_pos_right k hsize).trans hk'
  obtain ⟨found, hfound, hrun⟩ := p.exists_collect_eq hsize hkeys hk' hpages
  have hlength := p.length_page_firstPages hkeys hk.le
  have hne := p.page_ne_nil hsize hkeys hk.le
  have hfuel : keys.length + 1 = (keys.length - k + 1) + k := by omega
  rw [hfuel, hrun, collect, if_neg (by simpa using hne), if_neg (by omega)] at hout
  obtain ⟨rest, rfl, -, hrest⟩ := p.collect_eq_append hkeys hout
  have hsorted := sorted_keys hkeys
  rw [← List.take_append_drop (k * size) (orderBy id keys), List.pairwise_append] at hsorted
  have hsub : nextPage keys size k ⊆ p.page (firstPages keys size k).max? := by
    intro x hx
    have hdrop : x ∈ (orderBy id keys).drop (k * size) := List.mem_of_mem_take hx
    have hkey : x ∈ keys := mem_orderBy.1 (List.mem_of_mem_drop hdrop)
    rcases List.mem_append.1 (hperm.symm.subset hkey) with hbefore | hafter
    · rcases List.mem_append.1 hbefore with hin | hin
      · exact absurd (hsorted.2.2 x (hfound.subset hin) x hdrop) (lt_irrefl x)
      · exact hin
    · -- found later, so above every key of the page
      apply absurd _ (p.not_forall_lt hkeys hk hx)
      intro y hy
      obtain ⟨z, hz, -, hzmax⟩ := exists_max? hne
      exact lt_of_le_of_lt (hzmax y hy) ((mem_above.1 (hrest x hafter)).2 z hz)
  have hnext : (nextPage keys size k).length = size := length_nextPage hk.le
  exact ((List.subperm_of_subset (nodup_nextPage hkeys k) hsub).perm_of_length_le (by omega)).symm

/-- With exact pages the loop ends at the last one. -/
theorem exists_collect_perm (hsize : 0 < size) (hkeys : keys.Nodup) (hall : ∀ k, p.Exact k) :
    ∃ out, collect p.page size (keys.length + 1) none [] = some out ∧ out.Perm keys := by
  have hk := Nat.div_mul_le_self keys.length size
  have hrest : keys.length < (keys.length / size + 1) * size := by
    rw [Nat.succ_mul]
    exact Nat.lt_div_mul_add hsize
  obtain ⟨found, hfound, hrun⟩ := p.exists_collect_eq hsize hkeys hk fun j _ => hall j
  have hkn := Nat.div_le_self keys.length size
  have hfuel : keys.length + 1 = (keys.length - keys.length / size + 1) + keys.length / size := by omega
  have hperm : (found ++ p.page (firstPages keys size (keys.length / size)).max?).Perm keys := by
    refine ((hfound.append (hall (keys.length / size))).trans ?_)
    rw [← firstPages_succ, firstPages,
      List.take_of_length_le ((orderBy_perm id keys).length_eq.trans_le hrest.le)]
    exact orderBy_perm id keys
  have hless : (p.page (firstPages keys size (keys.length / size)).max?).length < size := by
    rw [p.length_page, length_above_firstPages hkeys]
    rw [Nat.succ_mul] at hrest
    omega
  rw [hfuel, hrun, collect]
  by_cases hnil : p.page (firstPages keys size (keys.length / size)).max? = []
  · rw [hnil, List.append_nil] at hperm
    exact ⟨found, by simp [hnil], hperm⟩
  · exact ⟨_, by rw [if_neg (by simpa using hnil), if_pos hless], hperm⟩

/-- The loop collects all keys exactly when every page but the last holds the least keys above its cursor. -/
theorem collect_perm_iff (hsize : 0 < size) (hkeys : keys.Nodup) :
    (∃ out, collect p.page size (keys.length + 1) none [] = some out ∧ out.Perm keys) ↔
      ∀ k, (k + 1) * size < keys.length → p.Exact k := by
  constructor
  · rintro ⟨out, hout, hperm⟩ k hk
    induction k using Nat.strong_induction_on with
    | _ k ih =>
        refine p.exact_of_collect hsize hkeys hk ?_ hout hperm
        intro j hj
        exact ih j hj (lt_of_le_of_lt (Nat.mul_le_mul_right size (by omega)) hk)
  · intro hpages
    apply p.exists_collect_perm hsize hkeys
    intro k
    by_cases hk : (k + 1) * size < keys.length
    · exact hpages k hk
    · exact p.exact_of_last hkeys (Nat.le_of_not_lt hk)

end Pages

end OpsKnowledge.Lib
