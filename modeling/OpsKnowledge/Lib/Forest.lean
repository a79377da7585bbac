import Mathlib.Data.List.Perm.Subperm
import OpsKnowledge.Lib.Digraph
import OpsKnowledge.Lib.Table

/-!
# Parent pointers

First what a change of one pointer does to cycles. Then a table whose rows point to parents, and the trees
that are built from it: without cycles they hold every row once, whatever the order of the rows.
-/

namespace OpsKnowledge.Lib

open Relation (TransGen ReflTransGen)

variable {α κ : Type*} [DecidableEq κ]

/-! ## Pointers -/

section Pointers

variable {up : κ → Option κ} {a b : κ}

def PointsTo (up : κ → Option κ) (a b : κ) : Prop := up a = some b

/-- A path that the pointer of `a` is not needed for. -/
theorem reflTransGen_update_of (c : Option κ) (h : ReflTransGen (PointsTo up) b a) :
    ReflTransGen (PointsTo (Function.update up a c)) b a := by
  induction h using ReflTransGen.head_induction_on with
  | refl => exact .refl
  | head hstep _ ih =>
      rename_i x y _
      by_cases hx : x = a
      · rw [hx]
      · apply ReflTransGen.head _ ih
        unfold PointsTo
        rw [Function.update_of_ne hx]
        exact hstep

/-- What is reached after the change was reached before, or by way of the new pointer. -/
theorem transGen_update_cases {x y : κ} (hout : ¬ ReflTransGen (PointsTo up) b a)
    (h : TransGen (PointsTo (Function.update up a (some b))) x y) :
    TransGen (PointsTo up) x y ∨
      ReflTransGen (PointsTo up) x a ∧ ReflTransGen (PointsTo up) b y := by
  have hstep : ∀ {u v}, PointsTo (Function.update up a (some b)) u v →
      (u = a ∧ v = b) ∨ PointsTo up u v := by
    intro u v huv
    by_cases hu : u = a
    · subst hu
      left
      unfold PointsTo at huv
      rw [Function.update_self] at huv
      exact ⟨rfl, (Option.some.inj huv).symm⟩
    · right
      unfold PointsTo at huv
      rwa [Function.update_of_ne hu] at huv
  induction h with
  | single hxy =>
      rcases hstep hxy with ⟨rfl, rfl⟩ | hold
      · exact .inr ⟨.refl, .refl⟩
      · exact .inl (.single hold)
  | tail _ hzy ih =>
      rcases hstep hzy with ⟨rfl, rfl⟩ | hold
      · rcases ih with hxa | ⟨_, hba⟩
        · exact .inr ⟨hxa.to_reflTransGen, .refl⟩
        · exact absurd hba hout
      · rcases ih with hxz | ⟨hxa, hbz⟩
        · exact .inl (hxz.tail hold)
        · exact .inr ⟨hxa, hbz.tail hold⟩

/-- A new pointer closes a cycle exactly if its origin is above its target. -/
theorem acyclic_update_iff (h : Acyclic (PointsTo up)) :
    Acyclic (PointsTo (Function.update up a (some b))) ↔ ¬ ReflTransGen (PointsTo up) b a := by
  constructor
  · intro hafter hba
    have hpath := reflTransGen_update_of (some b) hba
    have hedge : PointsTo (Function.update up a (some b)) a b := by
      unfold PointsTo
      rw [Function.update_self]
    exact hafter a (TransGen.head' hedge hpath)
  · intro hout v hv
    rcases transGen_update_cases hout hv with hold | ⟨hva, hbv⟩
    · exact h v hold
    · exact hout (hbv.trans hva)

theorem acyclic_update_none (h : Acyclic (PointsTo up)) :
    Acyclic (PointsTo (Function.update up a none)) := by
  apply h.mono
  intro x y hxy
  unfold PointsTo at hxy
  by_cases hx : x = a
  · rw [hx, Function.update_self] at hxy
    cases hxy
  · rwa [Function.update_of_ne hx] at hxy

end Pointers

/-! ## Trees -/

inductive RowTree (α : Type*) where
  | node (row : α) (children : List (RowTree α))

mutual

/-- The rows of a tree, parents first. -/
def RowTree.rows : RowTree α → List α
  | .node row children => row :: rowsOfAll children

def rowsOfAll : List (RowTree α) → List α
  | [] => []
  | t :: ts => t.rows ++ rowsOfAll ts

end

theorem rowsOfAll_map (f : α → RowTree α) (rows : List α) :
    rowsOfAll (rows.map f) = rows.flatMap fun a => (f a).rows := by
  induction rows with
  | nil => rfl
  | cons a rows ih =>
      rw [List.map_cons, rowsOfAll, ih]
      rfl

section Table

variable (key : α → κ) (parent : α → Option κ) (rows : List α)

def parentRow (a : α) : Option α := (parent a).bind fun p => rows.find? fun b => key b = p

/-- The pointers of the rows, by key. -/
def pointers (k : κ) : Option κ := (rows.find? fun b => key b = k).bind parent

def childRows (a : α) : List α := rows.filter fun b => parent b = some (key a)

def rootRows : List α := rows.filter fun b => (parentRow key parent rows b).isNone

def subtree : Nat → α → RowTree α
  | 0, a => .node a []
  | n + 1, a => .node a ((childRows key parent rows a).map (subtree n))

/-- The trees of the rows without a parent among them. -/
def forest : List (RowTree α) := (rootRows key parent rows).map (subtree key parent rows rows.length)

/-- The number of rows above `a`. -/
def HasLevel : Nat → α → Prop
  | 0, a => parentRow key parent rows a = none
  | n + 1, a => ∃ p, parentRow key parent rows a = some p ∧ HasLevel n p

variable {key parent rows} {a b : α} {k n : Nat}

noncomputable local instance : DecidablePred (HasLevel key parent rows n) := Classical.decPred _

theorem HasLevel.unique {m n : Nat} (hm : HasLevel key parent rows m a)
    (hn : HasLevel key parent rows n a) : m = n := by
  induction m generalizing a n with
  | zero =>
      cases n with
      | zero => rfl
      | succ n =>
          obtain ⟨p, hp, -⟩ := hn
          change parentRow key parent rows a = none at hm
          rw [hm] at hp
          cases hp
  | succ m ih =>
      obtain ⟨p, hp, hpm⟩ := hm
      cases n with
      | zero =>
          change parentRow key parent rows a = none at hn
          rw [hn] at hp
          cases hp
      | succ n =>
          obtain ⟨q, hq, hqn⟩ := hn
          rw [hp] at hq
          cases hq
          rw [ih hpm hqn]

theorem parentRow_eq_some_iff (hkeys : (rows.map key).Nodup) (hb : b ∈ rows) :
    parentRow key parent rows a = some b ↔ parent a = some (key b) := by
  unfold parentRow
  rw [Option.bind_eq_some_iff]
  constructor
  · rintro ⟨p, hp, hfind⟩
    rw [hp, ((find?_key_iff hkeys).1 hfind).2]
  · intro hp
    exact ⟨key b, hp, (find?_key_iff hkeys).2 ⟨hb, rfl⟩⟩

theorem mem_of_parentRow (h : parentRow key parent rows a = some b) : b ∈ rows := by
  obtain ⟨p, -, hfind⟩ := Option.bind_eq_some_iff.1 h
  exact List.mem_of_find?_eq_some hfind

/-- Selections that exclude each other. -/
theorem filter_append_filter_perm {p q : α → Prop} [DecidablePred p] [DecidablePred q] (rows : List α)
    (h : ∀ a ∈ rows, p a → ¬ q a) :
    (rows.filter p ++ rows.filter q).Perm (rows.filter fun a => p a ∨ q a) := by
  induction rows with
  | nil => exact .refl _
  | cons a rows ih =>
      have hrest := ih fun b hb => h b (List.mem_cons_of_mem a hb)
      have hexcl := h a List.mem_cons_self
      by_cases hp : p a
      · simpa [hp, hexcl hp] using hrest
      · by_cases hq : q a
        · simp only [List.filter_cons, decide_eq_true_eq, hp, hq, if_true, if_false, or_true]
          exact List.perm_middle.trans (hrest.cons a)
        · simpa [hp, hq] using hrest

/-- The children of selected parents are the rows whose parent is selected. -/
theorem flatMap_childRows_perm (ps : List α) (hn : (ps.map key).Nodup) :
    (ps.flatMap (childRows key parent rows)).Perm
      (rows.filter fun a => ∃ p ∈ ps, parent a = some (key p)) := by
  induction ps with
  | nil =>
      simp
  | cons p ps ih =>
      rw [List.map_cons, List.nodup_cons] at hn
      rw [List.flatMap_cons]
      have hsplit :
          (childRows key parent rows p ++ rows.filter fun a => ∃ q ∈ ps, parent a = some (key q)).Perm
          (rows.filter fun a => parent a = some (key p) ∨ ∃ q ∈ ps, parent a = some (key q)) := by
        apply filter_append_filter_perm
        rintro a _ hp ⟨q, hq, hqa⟩
        rw [hp] at hqa
        exact hn.1 (List.mem_map.2 ⟨q, hq, (Option.some.inj hqa).symm⟩)
      refine ((ih hn.2).append_left _).trans (hsplit.trans (List.Perm.of_eq ?_))
      apply List.filter_congr
      intro a _
      simp

/-- The rows of one level. -/
theorem flatMap_childRows_level (parent : α → Option κ) (hkeys : (rows.map key).Nodup) (k : Nat) :
    ((rows.filter (HasLevel key parent rows k)).flatMap (childRows key parent rows)).Perm
      (rows.filter (HasLevel key parent rows (k + 1))) := by
  refine (flatMap_childRows_perm _ (hkeys.sublist (List.filter_sublist.map _))).trans (List.Perm.of_eq ?_)
  apply List.filter_congr
  intro a _
  rw [decide_eq_decide]
  constructor
  · rintro ⟨p, hp, hpa⟩
    have hmem := List.mem_filter.1 hp
    exact ⟨p, (parentRow_eq_some_iff hkeys hmem.1).2 hpa, of_decide_eq_true hmem.2⟩
  · rintro ⟨p, hp, hlevel⟩
    have hmem := mem_of_parentRow hp
    exact ⟨p, List.mem_filter.2 ⟨hmem, decide_eq_true hlevel⟩, (parentRow_eq_some_iff hkeys hmem).1 hp⟩

/-- The subtrees of the rows of one level hold the rows of the next levels. -/
theorem rows_subtree_level (hkeys : (rows.map key).Nodup) (n k : Nat) :
    ((rows.filter (HasLevel key parent rows k)).flatMap fun a => (subtree key parent rows n a).rows).Perm
      (rows.filter fun a => ∃ j ≤ n, HasLevel key parent rows (k + j) a) := by
  induction n generalizing k with
  | zero =>
      have hself : ∀ a, (subtree key parent rows 0 a).rows = [a] := fun _ => rfl
      simp only [hself, List.flatMap_singleton']
      apply List.Perm.of_eq
      apply List.filter_congr
      intro a _
      simp
  | succ n ih =>
      have hcons : ∀ a, (subtree key parent rows (n + 1) a).rows =
          [a] ++ (childRows key parent rows a).flatMap fun b => (subtree key parent rows n b).rows := by
        intro a
        rw [subtree, RowTree.rows, rowsOfAll_map]
        rfl
      simp only [hcons]
      refine (List.flatMap_append_perm _ _ _).symm.trans ?_
      rw [List.flatMap_singleton', ← List.flatMap_assoc]
      have hnext := (flatMap_childRows_level parent hkeys k).flatMap
        (f := fun b => (subtree key parent rows n b).rows) fun _ _ => .refl _
      have hbelow := hnext.trans (ih (k + 1))
      refine (hbelow.append_left _).trans ?_
      refine (filter_append_filter_perm rows ?_).trans (List.Perm.of_eq ?_)
      · rintro a _ hk ⟨j, -, hj⟩
        have := hk.unique hj
        omega
      · apply List.filter_congr
        intro a _
        rw [decide_eq_decide]
        constructor
        · rintro (hk | ⟨j, hj, hlevel⟩)
          · exact ⟨0, by omega, hk⟩
          · refine ⟨j + 1, by omega, ?_⟩
            rwa [show k + (j + 1) = k + 1 + j by omega]
        · rintro ⟨j, hj, hlevel⟩
          cases j with
          | zero => exact .inl hlevel
          | succ j =>
              right
              refine ⟨j, by omega, ?_⟩
              rwa [show k + 1 + j = k + (j + 1) by omega]

/-! ## Changes of the table -/

section Changes

variable {p q : κ}

theorem pointers_eq_some_iff (hkeys : (rows.map key).Nodup) :
    pointers key parent rows p = some q ↔ ∃ a ∈ rows, key a = p ∧ parent a = some q := by
  unfold pointers
  rw [Option.bind_eq_some_iff]
  constructor
  · rintro ⟨a, hfind, hq⟩
    obtain ⟨ha, hp⟩ := (find?_key_iff hkeys).1 hfind
    exact ⟨a, ha, hp, hq⟩
  · rintro ⟨a, ha, hp, hq⟩
    exact ⟨a, (find?_key_iff hkeys).2 ⟨ha, hp⟩, hq⟩

theorem pointers_concat (hnew : key a ∉ rows.map key) : pointers key parent (rows ++ [a]) =
    Function.update (pointers key parent rows) (key a) (parent a) := by
  funext k
  unfold pointers
  rw [List.find?_append]
  by_cases hk : k = key a
  · subst hk
    have hnone : rows.find? (fun b => key b = key a) = none := by
      rw [List.find?_eq_none]
      intro b hb hsame
      exact hnew (List.mem_map.2 ⟨b, hb, of_decide_eq_true hsame⟩)
    rw [Function.update_self, hnone]
    simp
  · rw [Function.update_of_ne hk]
    simp [Ne.symm hk]

theorem pointers_replaceRow (hkeys : (rows.map key).Nodup) (hb : b ∈ rows) (hkey : key b = key a) :
    pointers key parent (replaceRow key a rows) =
      Function.update (pointers key parent rows) (key a) (parent a) := by
  have hkeys' : ((replaceRow key a rows).map key).Nodup := by
    rw [map_key_replaceRow]
    exact hkeys
  funext k
  apply Option.ext
  intro q
  rw [pointers_eq_some_iff hkeys']
  by_cases hk : k = key a
  · rw [hk, Function.update_self]
    constructor
    · rintro ⟨c, hc, hck, hq⟩
      rcases (mem_replaceRow hb hkey).1 hc with rfl | ⟨-, hne⟩
      · exact hq
      · exact absurd hck hne
    · intro hq
      exact ⟨a, (mem_replaceRow hb hkey).2 (.inl rfl), rfl, hq⟩
  · rw [Function.update_of_ne hk, pointers_eq_some_iff hkeys]
    constructor
    · rintro ⟨c, hc, hck, hq⟩
      rcases (mem_replaceRow hb hkey).1 hc with rfl | ⟨hold, -⟩
      · exact absurd hck.symm hk
      · exact ⟨c, hold, hck, hq⟩
    · rintro ⟨c, hc, rfl, hq⟩
      exact ⟨c, (mem_replaceRow hb hkey).2 (.inr ⟨hc, hk⟩), rfl, hq⟩

/-- Fewer rows make no new cycle. -/
theorem acyclic_pointers_subset {rows' : List α} (hkeys : (rows.map key).Nodup)
    (hkeys' : (rows'.map key).Nodup) (h : Acyclic (PointsTo (pointers key parent rows)))
    (hsub : rows' ⊆ rows) : Acyclic (PointsTo (pointers key parent rows')) := by
  apply h.mono
  intro p q hpq
  obtain ⟨a, ha, hrow⟩ := (pointers_eq_some_iff hkeys').1 hpq
  exact (pointers_eq_some_iff hkeys).2 ⟨a, hsub ha, hrow⟩

end Changes

/-! ## Without cycles -/

/-- Every row has a level. -/
theorem exists_level (hkeys : (rows.map key).Nodup) (h : Acyclic (PointsTo (pointers key parent rows)))
    (ha : a ∈ rows) : ∃ n, HasLevel key parent rows n a := by
  classical
  by_contra hno
  let bad := rows.filter fun b => ¬ ∃ n, HasLevel key parent rows n b
  have hbad : bad ≠ [] := List.ne_nil_of_mem (List.mem_filter.2 ⟨ha, decide_eq_true hno⟩)
  let R : α → α → Prop := fun u v => v ∈ rows ∧ parentRow key parent rows v = some u
  have hacyclic : Acyclic R := by
    intro v hv
    have hpath : ∀ {x y}, TransGen R x y →
        TransGen (PointsTo (pointers key parent rows)) (key y) (key x) := by
      intro x y hxy
      have hedge : ∀ {u w}, R u w → PointsTo (pointers key parent rows) (key w) (key u) := by
        intro u w huw
        exact (pointers_eq_some_iff hkeys).2
          ⟨w, huw.1, rfl, (parentRow_eq_some_iff hkeys (mem_of_parentRow huw.2)).1 huw.2⟩
      induction hxy with
      | single hxy => exact .single (hedge hxy)
      | tail _ hyz ih => exact .head (hedge hyz) ih
    exact h (key v) (hpath hv)
  obtain ⟨b, hb, hsource⟩ := hacyclic.exists_source hbad
  have hmem := List.mem_filter.1 hb
  have hlevel : ¬ ∃ n, HasLevel key parent rows n b := of_decide_eq_true hmem.2
  cases hparent : parentRow key parent rows b with
  | none => exact hlevel ⟨0, hparent⟩
  | some p =>
      by_cases hp : ∃ n, HasLevel key parent rows n p
      · obtain ⟨n, hn⟩ := hp
        exact hlevel ⟨n + 1, p, hparent, hn⟩
      · have hpbad : p ∈ bad := List.mem_filter.2 ⟨mem_of_parentRow hparent, decide_eq_true hp⟩
        exact hsource p hpbad ⟨hmem.1, hparent⟩

/-- The levels above a row are not empty. -/
theorem HasLevel.exists_below (h : HasLevel key parent rows n a) (ha : a ∈ rows) :
    ∀ j ≤ n, ∃ b ∈ rows, HasLevel key parent rows j b := by
  induction n generalizing a with
  | zero =>
      intro j hj
      rw [Nat.le_zero.1 hj]
      exact ⟨a, ha, h⟩
  | succ n ih =>
      intro j hj
      rcases Nat.lt_or_ge n j with hlt | hle
      · have heq : j = n + 1 := by omega
        rw [heq]
        exact ⟨a, ha, h⟩
      · obtain ⟨p, hp, hlevel⟩ := h
        exact ih hlevel (mem_of_parentRow hp) j hle

theorem HasLevel.lt_length (h : HasLevel key parent rows n a) (ha : a ∈ rows) : n < rows.length := by
  have hbelow := h.exists_below ha
  have hnonempty : Nonempty α := ⟨a⟩
  choose! row hrow hlevel using hbelow
  have hnodup : ((List.range (n + 1)).map row).Nodup := by
    rw [List.nodup_map_iff_inj_on List.nodup_range]
    intro i hi j hj hij
    rw [List.mem_range] at hi hj
    have hlevelj := hlevel j (by omega)
    rw [← hij] at hlevelj
    exact (hlevel i (by omega)).unique hlevelj
  have hsub : (List.range (n + 1)).map row ⊆ rows := by
    intro b hb
    obtain ⟨i, hi, rfl⟩ := List.mem_map.1 hb
    rw [List.mem_range] at hi
    exact hrow i (by omega)
  have hle := (hnodup.subperm hsub).length_le
  rw [List.length_map, List.length_range] at hle
  omega

/-- Without cycles, the trees hold every row once. -/
theorem rows_forest_perm (hkeys : (rows.map key).Nodup) (h : Acyclic (PointsTo (pointers key parent rows))) :
    (rowsOfAll (forest key parent rows)).Perm rows := by
  unfold forest
  rw [rowsOfAll_map]
  have hroots : rootRows key parent rows = rows.filter (HasLevel key parent rows 0) := by
    apply List.filter_congr
    intro a _
    rw [Bool.eq_iff_iff, decide_eq_true_iff]
    exact Option.isNone_iff_eq_none
  rw [hroots]
  refine (rows_subtree_level hkeys rows.length 0).trans (List.Perm.of_eq ?_)
  rw [List.filter_eq_self]
  intro a ha
  obtain ⟨n, hn⟩ := exists_level hkeys h ha
  have hlt := hn.lt_length ha
  apply decide_eq_true
  refine ⟨n, by omega, ?_⟩
  rwa [Nat.zero_add]

end Table

end OpsKnowledge.Lib
