import Mathlib.Data.List.Nodup
import Mathlib.Tactic.Common

/-!
# Tables with positions as ids

What a table holds, and a lookup finds, after a row is appended or rewritten.
-/

namespace OpsKnowledge.Lib

variable {α : Type*} {rows : List α} {i j : Nat} {a b c : α}

theorem mem_concat : b ∈ rows ++ [a] ↔ b ∈ rows ∨ b = a := by
  rw [List.mem_append, List.mem_singleton]

/-- A row with a key of its own keeps the keys apart. -/
theorem nodup_keys_concat {κ : Type*} {key : α → κ} (hn : (rows.map key).Nodup)
    (hne : ∀ r ∈ rows, key r ≠ key a) : ((rows ++ [a]).map key).Nodup := by
  rw [List.map_append, List.map_singleton, List.nodup_append]
  refine ⟨hn, List.nodup_singleton _, ?_⟩
  intro k hk k' hk'
  obtain ⟨r, hr, rfl⟩ := List.mem_map.1 hk
  rw [List.mem_singleton.1 hk']
  exact hne r hr

theorem lt_next_of_mem_concat {key : α → Nat} {next : Nat} (hlt : ∀ r ∈ rows, key r < next)
    (ha : key a = next) : ∀ r ∈ rows ++ [a], key r < next + 1 := by
  intro r hr
  rcases mem_concat.1 hr with hr | rfl
  · have hold := hlt r hr
    omega
  · omega

theorem lookup_concat (h : rows[i]? = some b) (a : α) : (rows ++ [a])[i]? = some b := by
  rw [List.getElem?_append_left (List.getElem?_eq_some_iff.1 h).1]
  exact h

theorem lookup_concat_cases (h : (rows ++ [a])[i]? = some b) :
    rows[i]? = some b ∨ i = rows.length ∧ b = a := by
  rw [List.getElem?_append] at h
  split at h
  · exact .inl h
  · next hlt =>
      right
      rcases List.getElem?_eq_some_iff.1 h with ⟨hlen, heq⟩
      rw [List.length_singleton] at hlen
      refine ⟨by omega, ?_⟩
      simpa using heq.symm

theorem lookup_set (h : rows[i]? = some a) (b : α) : (rows.set i b)[i]? = some b := by
  have hlt := (List.getElem?_eq_some_iff.1 h).1
  simp [hlt]

theorem lookup_set_of_ne (h : j ≠ i) (b : α) : (rows.set i b)[j]? = rows[j]? := by
  simp [h.symm]

theorem lookup_set_cases (h : (rows.set i c)[j]? = some b) :
    j = i ∧ b = c ∨ j ≠ i ∧ rows[j]? = some b := by
  by_cases hj : j = i
  · left
    subst hj
    refine ⟨rfl, ?_⟩
    have hlt : j < rows.length := by
      have := (List.getElem?_eq_some_iff.1 h).1
      simpa using this
    rw [List.getElem?_set_self hlt] at h
    exact (Option.some.inj h).symm
  · right
    exact ⟨hj, by rwa [lookup_set_of_ne hj] at h⟩

/-- The rows of other ids stay; the row of the id is replaced. -/
theorem exists_lookup_set (h : rows[i]? = some a) (b : α) (hj : rows[j]? = some c) :
    ∃ d, (rows.set i b)[j]? = some d ∧ (j = i ∧ d = b ∧ c = a ∨ j ≠ i ∧ d = c) := by
  by_cases hji : j = i
  · subst hji
    rw [h] at hj
    cases hj
    exact ⟨b, lookup_set h b, .inl ⟨rfl, rfl, rfl⟩⟩
  · exact ⟨c, by rw [lookup_set_of_ne hji, hj], .inr ⟨hji, rfl⟩⟩

/-! ## Updates by a condition -/

/-- `UPDATE … WHERE p` -/
def updateWhere (p : α → Bool) (f : α → α) (rows : List α) : List α :=
  rows.map fun a => if p a then f a else a

theorem updateWhere_cons (p : α → Bool) (f : α → α) (a : α) (rows : List α) :
    updateWhere p f (a :: rows) = (if p a then f a else a) :: updateWhere p f rows :=
  rfl

/-- A column that the update does not write keeps its values. -/
theorem map_updateWhere {β : Type*} {p : α → Bool} {f : α → α} {g : α → β} (h : ∀ a, g (f a) = g a) :
    (updateWhere p f rows).map g = rows.map g := by
  unfold updateWhere
  rw [List.map_map]
  apply List.map_congr_left
  intro a _
  by_cases hp : p a
  · simp [hp, h]
  · simp [hp]

theorem mem_updateWhere {p : α → Bool} {f : α → α} :
    b ∈ updateWhere p f rows ↔ ∃ a ∈ rows, b = if p a then f a else a := by
  unfold updateWhere
  simp only [List.mem_map, eq_comm]

/-- Rows that are selected neither before nor after an update of others. -/
theorem filter_updateWhere_of_not {p q : α → Bool} {f : α → α}
    (h : ∀ a ∈ rows, p a = true → q a = false ∧ q (f a) = false) :
    (updateWhere p f rows).filter q = rows.filter q := by
  induction rows with
  | nil => rfl
  | cons a rows ih =>
      have hrest := ih fun b hb => h b (List.mem_cons_of_mem a hb)
      rw [updateWhere_cons, List.filter_cons, List.filter_cons, hrest]
      cases hp : p a with
      | false => simp
      | true =>
          obtain ⟨hbefore, hafter⟩ := h a List.mem_cons_self hp
          simp [hbefore, hafter]

theorem filter_filter_of_imp {q r : α → Bool} (h : ∀ a ∈ rows, q a = true → r a = true) :
    (rows.filter r).filter q = rows.filter q := by
  rw [List.filter_filter]
  apply List.filter_congr
  intro a ha
  cases hq : q a with
  | false => rfl
  | true => simp [h a ha hq]

/-- Rows that the update moves out of the selection. -/
theorem filter_updateWhere_of_out {p q : α → Bool} {f : α → α}
    (h : ∀ a ∈ rows, p a = true → q (f a) = false) :
    (updateWhere p f rows).filter q = rows.filter fun a => q a && !p a := by
  induction rows with
  | nil => rfl
  | cons a rows ih =>
      have hrest := ih fun b hb => h b (List.mem_cons_of_mem a hb)
      rw [updateWhere_cons, List.filter_cons, List.filter_cons, hrest]
      cases hp : p a with
      | false => simp
      | true => simp [h a List.mem_cons_self hp]

/-- Rows that stay in or out of the selection, with the same values in a column. -/
theorem map_filter_updateWhere {β : Type*} {p q : α → Bool} {f : α → α} {g : α → β}
    (h : ∀ a ∈ rows, p a = true → q (f a) = q a ∧ g (f a) = g a) :
    ((updateWhere p f rows).filter q).map g = (rows.filter q).map g := by
  induction rows with
  | nil => rfl
  | cons a rows ih =>
      have hrest := ih fun b hb => h b (List.mem_cons_of_mem a hb)
      rw [updateWhere_cons, List.filter_cons, List.filter_cons]
      cases hp : p a with
      | false =>
          simp only [Bool.false_eq_true, if_false]
          split
          · rw [List.map_cons, List.map_cons, hrest]
          · exact hrest
      | true =>
          obtain ⟨hq, hg⟩ := h a List.mem_cons_self hp
          simp only [if_true, hq]
          split
          · rw [List.map_cons, List.map_cons, hrest, hg]
          · exact hrest

/-! ## Rows through a mask -/

section Mask

variable {mask : α → α} {own : α → Bool}

/-- A mask that keeps own rows and shows which they are. -/
theorem filter_map_mask (hmask : ∀ a, own a = true → mask a = a) (hown : ∀ a, own (mask a) = own a)
    (rows : List α) : (rows.map mask).filter own = rows.filter own := by
  induction rows with
  | nil => rfl
  | cons a rows ih =>
      rw [List.map_cons, List.filter_cons, List.filter_cons, hown, ih]
      cases ha : own a with
      | false => rfl
      | true => rw [hmask a ha]

theorem option_filter_map_mask (hmask : ∀ a, own a = true → mask a = a)
    (hown : ∀ a, own (mask a) = own a) (row : Option α) : (row.map mask).filter own = row.filter own := by
  cases row with
  | none => rfl
  | some a =>
      rw [Option.map_some, Option.filter_some, Option.filter_some, hown]
      cases ha : own a with
      | false => rfl
      | true => rw [hmask a ha]

/-- A row that is one's own is seen whole. -/
theorem eq_of_map_mask (hmask : ∀ a, own a = true → mask a = a) (hown : ∀ a, own (mask a) = own a)
    {row row' : Option α} (h : row'.map mask = row.map mask) (hrow : ∀ a, row = some a → own a = true) :
    row' = row := by
  cases row with
  | none =>
      cases row' with
      | none => rfl
      | some b => cases h
  | some a =>
      cases row' with
      | none => cases h
      | some b =>
          have hab : mask b = mask a := Option.some.inj h
          have hb : own b = true := by rw [← hown, hab, hown, hrow a rfl]
          rw [← hmask b hb, hab, hmask a (hrow a rfl)]

end Mask

/-! ## Rows with keys of their own -/

section Keyed

variable {κ : Type*} [DecidableEq κ] {key : α → κ}

theorem find?_key_iff (hn : (rows.map key).Nodup) {k : κ} :
    rows.find? (fun b => key b = k) = some a ↔ a ∈ rows ∧ key a = k := by
  constructor
  · intro h
    exact ⟨List.mem_of_find?_eq_some h, by simpa using List.find?_some h⟩
  · rintro ⟨ha, hk⟩
    cases hfind : rows.find? fun b => key b = k with
    | none => exact absurd (decide_eq_true hk) (List.find?_eq_none.1 hfind a ha)
    | some b =>
        have hkey : key b = k := by simpa using List.find?_some hfind
        rw [List.inj_on_of_nodup_map hn (List.mem_of_find?_eq_some hfind) ha (hkey.trans hk.symm)]

theorem find?_updateWhere {f : α → α} (hf : ∀ a, key (f a) = key a) (k k' : κ) :
    (updateWhere (fun a => key a = k) f rows).find? (fun a => key a = k') =
      (rows.find? fun a => key a = k').map fun a => if k' = k then f a else a := by
  induction rows with
  | nil => rfl
  | cons a rows ih =>
      have hkey : key (if key a = k then f a else a) = key a := by
        split
        · exact hf a
        · rfl
      have hcons : updateWhere (fun a => key a = k) f (a :: rows) =
          (if key a = k then f a else a) :: updateWhere (fun a => key a = k) f rows := by
        simp [updateWhere]
      rw [hcons, List.find?_cons, List.find?_cons, hkey]
      by_cases h : key a = k'
      · simp [h]
      · simp [h, ih]

/-- An update of a key that no row has. -/
theorem updateWhere_of_not_mem {f : α → α} {k : κ} (h : k ∉ rows.map key) :
    updateWhere (fun a => key a = k) f rows = rows := by
  have hid : updateWhere (fun a => key a = k) f rows = rows.map id := by
    apply List.map_congr_left
    intro c hc
    have hne : ¬ key c = k := fun hsame => h (hsame ▸ List.mem_map_of_mem hc)
    simp [hne]
  rw [hid, List.map_id]

/-- An update of one row puts its new value in its place. -/
theorem updateWhere_key_split {a : α} (hn : (rows.map key).Nodup) (ha : a ∈ rows) (f : α → α) :
    ∃ before after, rows = before ++ a :: after ∧
      updateWhere (fun b => key b = key a) f rows = before ++ f a :: after := by
  obtain ⟨before, after, rfl⟩ := List.append_of_mem ha
  rw [List.map_append, List.map_cons, List.nodup_middle, List.nodup_cons, List.mem_append, not_or] at hn
  obtain ⟨⟨hbefore, hafter⟩, -⟩ := hn
  have hsplit : updateWhere (fun b => key b = key a) f (before ++ a :: after) =
      updateWhere (fun b => key b = key a) f before ++
        f a :: updateWhere (fun b => key b = key a) f after := by
    simp [updateWhere]
  rw [updateWhere_of_not_mem hbefore, updateWhere_of_not_mem hafter] at hsplit
  exact ⟨before, after, rfl, hsplit⟩

/-- An update of one row moves a count by what that row counts. -/
theorem countP_updateWhere_key {f : α → α} {a : α} (hn : (rows.map key).Nodup) (ha : a ∈ rows)
    (p : α → Bool) :
    (updateWhere (fun b => key b = key a) f rows).countP p + (if p a then 1 else 0) =
      rows.countP p + (if p (f a) then 1 else 0) := by
  obtain ⟨before, after, hrows, hupdated⟩ := updateWhere_key_split hn ha f
  rw [hupdated, hrows, List.countP_append, List.countP_append, List.countP_cons, List.countP_cons]
  omega

/-- An update that brings one row into the selection. -/
theorem filter_updateWhere_key_perm {f : α → α} {a : α} {p : α → Bool} (hn : (rows.map key).Nodup)
    (ha : a ∈ rows) (hout : p a = false) (hin : p (f a) = true) :
    ((updateWhere (fun b => key b = key a) f rows).filter p).Perm (f a :: rows.filter p) := by
  obtain ⟨before, after, hrows, hupdated⟩ := updateWhere_key_split hn ha f
  rw [hupdated, hrows, List.filter_append, List.filter_append, List.filter_cons_of_pos hin,
    List.filter_cons_of_neg (by simp [hout])]
  exact List.perm_middle

/-- A lookup finds the same values in a column that the update does not write. -/
theorem map_find?_updateWhere {β : Type*} {f : α → α} {g : α → β}
    (hf : ∀ a, key (f a) = key a ∧ g (f a) = g a) (k k' : κ) :
    ((updateWhere (fun a => key a = k) f rows).find? fun a => key a = k').map g =
      (rows.find? fun a => key a = k').map g := by
  rw [find?_updateWhere fun a => (hf a).1, Option.map_map]
  congr 1
  funext a
  by_cases h : k' = k
  · simp [h, (hf a).2]
  · simp [h]

theorem find?_filter_ne (k k' : κ) : (rows.filter fun a => key a ≠ k).find? (fun a => key a = k') =
    if k' = k then none else rows.find? fun a => key a = k' := by
  rw [List.find?_filter]
  by_cases h : k' = k
  · subst h
    rw [if_pos rfl, List.find?_eq_none]
    intro a _
    simp
  · rw [if_neg h]
    congr 1
    funext a
    by_cases ha : key a = k'
    · simp [ha, h]
    · simp [ha]

def replaceRow (key : α → κ) (b : α) (rows : List α) : List α :=
  rows.map fun a => if key a = key b then b else a

@[simp] theorem map_key_replaceRow : (replaceRow key b rows).map key = rows.map key := by
  unfold replaceRow
  rw [List.map_map]
  apply List.map_congr_left
  intro a _
  by_cases h : key a = key b
  · simp [h]
  · simp [h]

/-- The row takes the place of the one with its key. -/
theorem mem_replaceRow (ha : a ∈ rows) (h : key a = key b) :
    c ∈ replaceRow key b rows ↔ c = b ∨ c ∈ rows ∧ key c ≠ key b := by
  unfold replaceRow
  rw [List.mem_map]
  constructor
  · rintro ⟨d, hd, rfl⟩
    by_cases hkey : key d = key b
    · left
      rw [if_pos hkey]
    · right
      rw [if_neg hkey]
      exact ⟨hd, hkey⟩
  · rintro (rfl | ⟨hc, hkey⟩)
    · exact ⟨a, ha, if_pos h⟩
    · exact ⟨c, hc, if_neg hkey⟩

/-- A selection without the row's key does not see the change. -/
theorem filter_replaceRow {p : α → Bool} (h : ∀ c, p c = true → key c ≠ key b) :
    (replaceRow key b rows).filter p = rows.filter p := by
  have hout : ∀ c, key c = key b → p c = false := fun c hc =>
    Bool.eq_false_iff.2 fun hp => h c hp hc
  induction rows with
  | nil => rfl
  | cons a rows ih =>
      show ((if key a = key b then b else a) :: replaceRow key b rows).filter p = _
      by_cases hkey : key a = key b
      · rw [if_pos hkey, List.filter_cons_of_neg (by rw [hout b rfl]; exact nofun),
          List.filter_cons_of_neg (by rw [hout a hkey]; exact nofun), ih]
      · rw [if_neg hkey, List.filter_cons, List.filter_cons, ih]

/-- What a column has in common with the new row does not change. -/
theorem map_replaceRow_of_same {β : Type*} (f : α → β)
    (h : ∀ a ∈ rows, key a = key b → f a = f b) : (replaceRow key b rows).map f = rows.map f := by
  unfold replaceRow
  rw [List.map_map]
  apply List.map_congr_left
  intro a ha
  by_cases hkey : key a = key b
  · simp [hkey, h a ha hkey]
  · simp [hkey]

end Keyed

end OpsKnowledge.Lib
