import OpsKnowledge.Lib.Transition
import OpsKnowledge.Tagging.Normalizer

/-!
# Tags that get a row

With `allow_create` a tag that no active row claims gets a row of its own. The constraint
of the table ranges over all rows of the base, the deprecated ones included, and it compares
what 64 characters leave of a tag, not the key that was looked up.
-/

namespace OpsKnowledge.Tagging

open OpsKnowledge.Lib

section Creation

variable (special : String → Nat → List Char)

/-- Every tag that is not blank is mapped to the canonical of an active row. -/
def Assigns (kbId : Nat) (raws : List String) (s : Normalizing) : Prop :=
  ∀ raw ∈ raws, canonicalizeInput special raw ≠ "" → ∃ canonical ∈ s.result,
    s.mapping.get? (canonicalizeInput special raw) = some canonical ∧
      ∃ r ∈ s.table.active kbId, r.canonical = canonical

/-- The call goes through in whatever order its query gives the rows. -/
def Normalizes (t : TagTable) (kbId : Nat) (raws : List String) : Prop :=
  ∀ rows, rows.Perm (t.active kbId) → ∃ s,
    normalizeTags special kbId true t (loadDict special rows) raws = some s ∧ Assigns special kbId raws s

/-- The displays of the tags that no active row claims, one for each key. -/
def unclaimedNames (t : TagTable) (kbId : Nat) (raws : List String) : List String :=
  newTags special (fun key => (t.active kbId).any fun r => key ∈ r.keys special) raws

structure Creatable (t : TagTable) (kbId : Nat) (raws : List String) : Prop where
  apart : (unclaimedNames special t kbId raws).Nodup
  /-- Of all rows of the base: a deprecated one has its canonical still. -/
  free : ∀ name ∈ unclaimedNames special t kbId raws, ∀ r ∈ t.rows, r.kbId = kbId → r.canonical ≠ name

end Creation

section Rounds

variable {special : String → Nat → List Char} {kbId : Nat} {raw : String} {raws : List String}
  {s s' : Normalizing}

theorem insert_isSome {t : TagTable} {canonical : String} {aliases : List String}
    (h : (kbId, canonical) ∉ t.rows.map fun r => (r.kbId, r.canonical)) :
    ∃ t', t.insert kbId canonical aliases = some t' := by
  unfold TagTable.insert
  rw [dif_neg h]
  exact ⟨_, rfl⟩

theorem notMem_of_insert {t t' : TagTable} {canonical : String} {aliases : List String}
    (h : t.insert kbId canonical aliases = some t') :
    (kbId, canonical) ∉ t.rows.map fun r => (r.kbId, r.canonical) := by
  intro hmem
  unfold TagTable.insert at h
  rw [dif_pos hmem] at h
  cases h

/-! ## When the rounds go through -/

/-- The rows that the rounds would create have names of their own, apart from all that are there. -/
def Insertable (special : String → Nat → List Char) (kbId : Nat) (raws : List String) (s : Normalizing) :
    Prop :=
  (created special true s.mapping raws).Nodup ∧ ∀ name ∈ created special true s.mapping raws,
    (kbId, name) ∉ s.table.rows.map fun r => (r.kbId, r.canonical)

theorem insertable_of_known (htable : s'.table = s.table) (hmapping : s'.mapping = s.mapping)
    (hknown : canonicalizeInput special raw = "" ∨
      (s.mapping.get? (canonicalizeInput special raw)).isSome = true) :
    Insertable special kbId (raw :: raws) s ↔ Insertable special kbId raws s' := by
  unfold Insertable
  rw [created_of_known hknown, htable, hmapping]

/-- A row that has been added is one of those that the rest has to keep apart from. -/
theorem insertable_of_new {table : TagTable} (hkey : canonicalizeInput special raw ≠ "")
    (hnone : s.mapping.get? (canonicalizeInput special raw) = none)
    (htable : s.table.insert kbId (display raw) [] = some table) (hs' : s'.table = table)
    (hmapping : s'.mapping = s.mapping.set (canonicalizeInput special raw) (display raw)) :
    Insertable special kbId (raw :: raws) s ↔ Insertable special kbId raws s' := by
  have hfree := notMem_of_insert htable
  unfold Insertable
  rw [created_of_new hkey hnone, hs', hmapping, insert_eq_some htable]
  simp only [List.nodup_cons, List.forall_mem_cons, List.map_append, List.mem_append, List.map_cons,
    List.map_nil, List.mem_singleton, Prod.mk.injEq, true_and, not_or]
  constructor
  · rintro ⟨⟨hnotin, hnodup⟩, -, hrest⟩
    refine ⟨hnodup, fun name hname => ⟨hrest name hname, ?_⟩⟩
    rintro rfl
    exact hnotin hname
  · rintro ⟨hnodup, hrest⟩
    exact ⟨⟨fun hin => (hrest _ hin).2 rfl, hnodup⟩, hfree, fun name hname => (hrest name hname).1⟩

theorem normalizeTag_insertable_iff : (∃ s₁, normalizeTag special kbId true s raw = some s₁ ∧
    Insertable special kbId raws s₁) ↔ Insertable special kbId (raw :: raws) s := by
  constructor
  · rintro ⟨s₁, hs₁, hrest⟩
    rcases normalizeTag_eq_some hs₁ with ⟨hkey, rfl⟩ | ⟨hkey, ⟨c, hc, rfl⟩ | ⟨hnone, hmiss⟩⟩
    · exact (insertable_of_known rfl rfl (Or.inl hkey)).2 hrest
    · refine (insertable_of_known (addTag_table s c) (addTag_mapping s c) (Or.inr ?_)).2 hrest
      rw [hc]
      rfl
    · rcases hmiss with ⟨hfalse, -⟩ | ⟨-, table, htable, rfl⟩
      · cases hfalse
      · exact (insertable_of_new hkey hnone htable (addTag_table _ _) (addTag_mapping _ _)).2 hrest
  · intro hall
    unfold normalizeTag
    by_cases hkey : canonicalizeInput special raw = ""
    · exact ⟨s, by simp [hkey], (insertable_of_known rfl rfl (Or.inl hkey)).1 hall⟩
    · cases hget : s.mapping.get? (canonicalizeInput special raw) with
      | some c =>
          refine ⟨s.addTag c, by simp [hkey, hget], ?_⟩
          refine (insertable_of_known (addTag_table s c) (addTag_mapping s c) (Or.inr ?_)).1 hall
          rw [hget]
          rfl
      | none =>
          have hfree := hall.2 (display raw) (by
            rw [created_of_new hkey hget]
            exact List.mem_cons_self)
          obtain ⟨table, htable⟩ := @insert_isSome kbId s.table (display raw) [] hfree
          let s₁ : Normalizing := { s with
            table := table
            mapping := s.mapping.set (canonicalizeInput special raw) (display raw)
            createdAny := true }
          refine ⟨s₁.addTag (display raw), by simp [hkey, hget, htable, s₁], ?_⟩
          exact (insertable_of_new hkey hget htable (addTag_table _ _) (addTag_mapping _ _)).1 hall

theorem normalizeTags_goesThrough_iff : (∃ u, raws.foldlM (normalizeTag special kbId true) s = some u) ↔
    Insertable special kbId raws s := by
  induction raws generalizing s with
  | nil => exact iff_of_true ⟨s, rfl⟩ ⟨List.nodup_nil, fun name hname => nomatch hname⟩
  | cons raw raws ih =>
      rw [← normalizeTag_insertable_iff]
      simp only [List.foldlM_cons, Option.bind_eq_bind, Option.bind_eq_some_iff, ← ih]
      constructor
      · rintro ⟨u, s₁, hs₁, hu⟩
        exact ⟨s₁, hs₁, u, hu⟩
      · rintro ⟨s₁, hs₁, u, hu⟩
        exact ⟨u, s₁, hs₁, hu⟩

/-! ## What the tags are mapped to -/

/-- What the map has is the canonical of an active row. -/
def Backed (kbId : Nat) (s : Normalizing) : Prop :=
  ∀ key canonical, s.mapping.get? key = some canonical →
    ∃ r ∈ s.table.active kbId, r.canonical = canonical

structure Advances (s s' : Normalizing) : Prop where
  mapping : ∀ key canonical, s.mapping.get? key = some canonical → s'.mapping.get? key = some canonical
  result : ∀ canonical ∈ s.result, canonical ∈ s'.result

theorem Backed.insert {table : TagTable} {key name : String} (h : Backed kbId s)
    (htable : s.table.insert kbId name [] = some table) (hs' : s'.table = table)
    (hmapping : s'.mapping = s.mapping.set key name) : Backed kbId s' := by
  intro key' canonical hget
  rw [hmapping, Dict.get?_set] at hget
  rw [hs']
  split at hget
  · cases hget
    refine ⟨{ id := s.table.next, kbId := kbId, canonical := name, aliases := [] },
      mem_active.2 ⟨?_, rfl, rfl⟩, rfl⟩
    rw [insert_eq_some htable]
    exact List.mem_append_right _ List.mem_cons_self
  · obtain ⟨r, hr, hcanonical⟩ := h key' canonical hget
    obtain ⟨hrow, hkb, hactive⟩ := mem_active.1 hr
    refine ⟨r, mem_active.2 ⟨?_, hkb, hactive⟩, hcanonical⟩
    rw [insert_eq_some htable]
    exact List.mem_append_left _ hrow

/-- What one round leaves: nothing that was mapped or returned is lost. -/
theorem normalizeTag_advances (h : normalizeTag special kbId true s raw = some s') :
    Advances s s' := by
  rcases normalizeTag_eq_some h with ⟨-, rfl⟩ | ⟨hkey, ⟨c, hc, rfl⟩ | ⟨hnone, hmiss⟩⟩
  · exact ⟨fun _ _ hget => hget, fun _ hin => hin⟩
  · refine ⟨fun key canonical hget => ?_, fun canonical hin => mem_addTag.2 (Or.inl hin)⟩
    rwa [addTag_mapping]
  · rcases hmiss with ⟨hfalse, -⟩ | ⟨-, table, htable, rfl⟩
    · cases hfalse
    · refine ⟨fun key canonical hget => ?_, fun canonical hin => mem_addTag.2 (Or.inl hin)⟩
      rw [addTag_mapping, Dict.get?_set_of_ne]
      · exact hget
      · rintro rfl
        rw [hnone] at hget
        cases hget

theorem normalizeTag_backed (h : normalizeTag special kbId true s raw = some s') (hs : Backed kbId s) :
    Backed kbId s' := by
  rcases normalizeTag_eq_some h with ⟨-, rfl⟩ | ⟨hkey, ⟨c, hc, rfl⟩ | ⟨hnone, hmiss⟩⟩
  · exact hs
  · intro key canonical hget
    rw [addTag_mapping] at hget
    rw [addTag_table]
    exact hs key canonical hget
  · rcases hmiss with ⟨hfalse, -⟩ | ⟨-, table, htable, rfl⟩
    · cases hfalse
    · exact hs.insert htable (addTag_table _ _) (addTag_mapping _ _)

theorem mem_addTag_self (s : Normalizing) (canonical : String) : canonical ∈ (s.addTag canonical).result :=
  mem_addTag.2 (Or.inr rfl)

/-- The tag of the round is mapped, and what it is mapped to is returned. -/
theorem normalizeTag_maps (h : normalizeTag special kbId true s raw = some s')
    (hkey : canonicalizeInput special raw ≠ "") :
    ∃ canonical ∈ s'.result, s'.mapping.get? (canonicalizeInput special raw) = some canonical := by
  rcases normalizeTag_eq_some h with ⟨hblank, -⟩ | ⟨-, ⟨c, hc, rfl⟩ | ⟨hnone, hmiss⟩⟩
  · exact absurd hblank hkey
  · refine ⟨c, mem_addTag_self s c, ?_⟩
    rw [addTag_mapping]
    exact hc
  · rcases hmiss with ⟨hfalse, -⟩ | ⟨-, table, htable, rfl⟩
    · cases hfalse
    · refine ⟨display raw, mem_addTag_self _ _, ?_⟩
      rw [addTag_mapping, Dict.get?_set_self]

theorem Advances.trans {s₁ s₂ s₃ : Normalizing} (h : Advances s₁ s₂) (h' : Advances s₂ s₃) :
    Advances s₁ s₃ :=
  ⟨fun key canonical hget => h'.mapping key canonical (h.mapping key canonical hget),
    fun canonical hin => h'.result canonical (h.result canonical hin)⟩

theorem normalizeTags_advances (h : raws.foldlM (normalizeTag special kbId true) s = some s') :
    Advances s s' := by
  induction raws generalizing s with
  | nil =>
      cases h
      exact ⟨fun _ _ hget => hget, fun _ hin => hin⟩
  | cons raw raws ih =>
      rw [List.foldlM_cons, Option.bind_eq_bind, Option.bind_eq_some_iff] at h
      obtain ⟨s₁, hround, hrest⟩ := h
      exact (normalizeTag_advances hround).trans (ih hrest)

theorem normalizeTags_assigns (h : raws.foldlM (normalizeTag special kbId true) s = some s')
    (hs : Backed kbId s) : Backed kbId s' ∧ Assigns special kbId raws s' := by
  induction raws generalizing s with
  | nil =>
      cases h
      exact ⟨hs, fun raw hraw => nomatch hraw⟩
  | cons raw raws ih =>
      rw [List.foldlM_cons, Option.bind_eq_bind, Option.bind_eq_some_iff] at h
      obtain ⟨s₁, hround, hrest⟩ := h
      obtain ⟨hbacked, hassigns⟩ := ih hrest (normalizeTag_backed hround hs)
      refine ⟨hbacked, ?_⟩
      intro raw' hraw' hkey
      rcases List.mem_cons.1 hraw' with rfl | hraw'
      · obtain ⟨canonical, hin, hget⟩ := normalizeTag_maps hround hkey
        have hkept := normalizeTags_advances hrest
        have hend := hkept.mapping _ _ hget
        exact ⟨canonical, hkept.result _ hin, hend, hbacked _ _ hend⟩
      · exact hassigns raw' hraw' hkey

theorem loadDict_backed {t : TagTable} {rows : List TagDictionary} (hperm : rows.Perm (t.active kbId)) :
    Backed kbId { table := t, mapping := loadDict special rows } := by
  intro key canonical hget
  obtain ⟨r, hr, -, hcanonical⟩ := mem_pairs.1 (Dict.mem_of_get?_ofList hget)
  exact ⟨r, hperm.mem_iff.1 hr, hcanonical⟩

end Rounds

/-! ## The call -/

section Call

variable {special : String → Nat → List Char} {t : TagTable} {kbId : Nat} {raws : List String}

theorem insertable_loadDict_iff {rows : List TagDictionary} (hperm : rows.Perm (t.active kbId)) :
    Insertable special kbId raws { table := t, mapping := loadDict special rows } ↔
      Creatable special t kbId raws := by
  have hknown : (fun key => ((loadDict special rows).get? key).isSome) =
      fun key => (t.active kbId).any fun r => key ∈ r.keys special := by
    funext key
    rw [get?_loadDict_isSome, Bool.eq_iff_iff, List.any_eq_true, List.any_eq_true]
    simp only [hperm.mem_iff]
  unfold Insertable created
  rw [if_pos rfl, hknown]
  constructor
  · rintro ⟨hnodup, hfree⟩
    refine ⟨hnodup, ?_⟩
    rintro name hname r hr hkb rfl
    exact hfree _ hname (List.mem_map.2 ⟨r, hr, by rw [hkb]⟩)
  · rintro ⟨hnodup, hfree⟩
    refine ⟨hnodup, ?_⟩
    intro name hname hin
    obtain ⟨r, hr, heq⟩ := List.mem_map.1 hin
    cases heq
    exact hfree _ hname r hr rfl rfl

/-- Over any dictionary: the call goes through, and maps every tag, exactly when what it creates is
apart from itself and from all rows of the base. -/
theorem normalizes_iff_creatable : Normalizes special t kbId raws ↔ Creatable special t kbId raws := by
  constructor
  · intro h
    obtain ⟨s, hs, -⟩ := h _ (List.Perm.refl _)
    exact (insertable_loadDict_iff (List.Perm.refl _)).1 (normalizeTags_goesThrough_iff.1 ⟨s, hs⟩)
  · intro h rows hperm
    obtain ⟨s, hs⟩ := normalizeTags_goesThrough_iff.2 ((insertable_loadDict_iff hperm).2 h)
    exact ⟨s, hs, (normalizeTags_assigns hs (loadDict_backed hperm)).2⟩

end Call

/-! ## A tag whose row was deleted -/

def deletedTag : List (Nat × TagCall) := [(0, .create "ops" none), (0, .softDelete 0)]

theorem deletedTag_rows : (runSteps (tagStep fun _ _ => []) {} deletedTag).map (fun s => s.table.rows) =
    some [{ id := 0, kbId := 0, canonical := "ops", isDeprecated := true }] :=
  rfl

/-- The row is not looked up any more, and its canonical is still taken. -/
theorem deleted_tag_blocks : ¬ ∀ (special : String → Nat → List Char) (requests : List (Nat × TagCall)) s,
    runSteps (tagStep special) {} requests = some s →
      ∀ kbId raws, Normalizes special s.table kbId raws := by
  intro hall
  obtain ⟨s, hrun, hrows⟩ := Option.map_eq_some_iff.1 deletedTag_rows
  obtain ⟨u, hu, -⟩ := hall (fun _ _ => []) deletedTag s hrun 0 ["ops"] _ (List.Perm.refl _)
  have hactive : s.table.active 0 = [] := by
    unfold TagTable.active
    rw [hrows]
    rfl
  rw [hactive] at hu
  have hcreated : "ops" ∈ created (fun _ _ => []) true (loadDict (fun _ _ => []) []) ["ops"] := by decide
  have hfree := (normalizeTags_goesThrough_iff.1 ⟨u, hu⟩).2 "ops" hcreated
  refine hfree ?_
  rw [hrows]
  decide

end OpsKnowledge.Tagging
