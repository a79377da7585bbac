import OpsKnowledge.Tagging.Dictionary

/-!
# What the normalizer does

The keys of the lookup map, what a round of `normalize_tags` does with a tag, and what a
list of tags ends with: the rows that it creates and the canonicals that it returns. Maps
that find the same have the same effect.
-/

namespace OpsKnowledge.Tagging

open OpsKnowledge.Lib

/-! ## The lookup map -/

section Lookup

variable {special : String → Nat → List Char} {rows : List TagDictionary} {key canonical : String}

theorem mem_keys {r : TagDictionary} : key ∈ r.keys special ↔ ∃ name ∈ r.names, lower special name = key :=
  List.mem_map

theorem mem_pairs : (key, canonical) ∈ (rows.flatMap fun r =>
    r.names.map fun name => (lower special name, r.canonical)) ↔
      ∃ r ∈ rows, key ∈ r.keys special ∧ r.canonical = canonical := by
  rw [List.mem_flatMap]
  constructor
  · rintro ⟨r, hr, hpair⟩
    obtain ⟨name, hname, heq⟩ := List.mem_map.1 hpair
    cases heq
    exact ⟨r, hr, mem_keys.2 ⟨name, hname, rfl⟩, rfl⟩
  · rintro ⟨r, hr, hkey, rfl⟩
    obtain ⟨name, hname, rfl⟩ := mem_keys.1 hkey
    exact ⟨r, hr, List.mem_map.2 ⟨name, hname, rfl⟩⟩

/-- Whether a key is there does not depend on ambiguity. -/
theorem get?_loadDict_isSome :
    ((loadDict special rows).get? key).isSome = rows.any fun r => key ∈ r.keys special := by
  rw [Bool.eq_iff_iff, Option.isSome_iff_exists, ← Dict.mem_keys_iff, loadDict, Dict.mem_keys_ofList,
    List.any_eq_true]
  constructor
  · intro h
    obtain ⟨pair, hpair, rfl⟩ := List.mem_map.1 h
    obtain ⟨r, hr, hkey, -⟩ := mem_pairs.1 hpair
    exact ⟨r, hr, decide_eq_true hkey⟩
  · rintro ⟨r, hr, hkey⟩
    exact List.mem_map.2 ⟨_, mem_pairs.2 ⟨r, hr, of_decide_eq_true hkey, rfl⟩, rfl⟩

end Lookup

/-! ## Rounds -/

/-- The canonicals that a list of tags creates where these are the keys that the map has. -/
def newTags (special : String → Nat → List Char) (known : String → Bool) : List String → List String
  | [] => []
  | raw :: raws =>
      let key := canonicalizeInput special raw
      if key = "" ∨ known key = true then newTags special known raws
      else display raw :: newTags special (fun k => known k || k = key) raws

section Normalization

variable {special : String → Nat → List Char} {kbId : Nat} {allowCreate : Bool} {raw : String}
  {raws : List String} {mapping : Dict String String} {s s' : Normalizing}

@[simp] theorem addTag_table (s : Normalizing) (c : String) : (s.addTag c).table = s.table := by
  unfold Normalizing.addTag
  split
  · rfl
  · rfl

@[simp] theorem addTag_mapping (s : Normalizing) (c : String) : (s.addTag c).mapping = s.mapping := by
  unfold Normalizing.addTag
  split
  · rfl
  · rfl

theorem mem_addTag {c c' : String} : c' ∈ (s.addTag c).result ↔ c' ∈ s.result ∨ c' = c := by
  unfold Normalizing.addTag
  split
  · next h =>
      constructor
      · exact Or.inl
      · rintro (h' | rfl)
        · exact h'
        · exact h
  · exact mem_concat

/-- What a round does: it skips the tag, finds it, or creates a row for it. -/
theorem normalizeTag_eq_some (h : normalizeTag special kbId allowCreate s raw = some s') :
    canonicalizeInput special raw = "" ∧ s' = s ∨
    canonicalizeInput special raw ≠ "" ∧
      ((∃ c, s.mapping.get? (canonicalizeInput special raw) = some c ∧ s' = s.addTag c) ∨
        s.mapping.get? (canonicalizeInput special raw) = none ∧
          (allowCreate = false ∧ s' = s ∨
            allowCreate = true ∧ ∃ table, s.table.insert kbId (display raw) [] = some table ∧
              s' = Normalizing.addTag { s with
                table := table
                mapping := s.mapping.set (canonicalizeInput special raw) (display raw)
                createdAny := true } (display raw))) := by
  unfold normalizeTag at h
  simp only at h
  split at h
  · next hkey =>
      cases h
      exact Or.inl ⟨hkey, rfl⟩
  · next hkey =>
      refine Or.inr ⟨hkey, ?_⟩
      split at h
      · next c hc =>
          cases h
          exact Or.inl ⟨c, hc, rfl⟩
      · next hnone =>
          refine Or.inr ⟨hnone, ?_⟩
          split at h
          · next hallow =>
              obtain ⟨table, htable, rfl⟩ := Option.map_eq_some_iff.1 h
              exact Or.inr ⟨hallow, table, htable, rfl⟩
          · next hallow =>
              cases h
              exact Or.inl ⟨by simpa using hallow, rfl⟩

theorem insert_eq_some {t t' : TagTable} {canonical : String} {aliases : List String}
    (h : t.insert kbId canonical aliases = some t') :
    t'.rows = t.rows ++ [{ id := t.next, kbId := kbId, canonical := canonical, aliases := aliases }] := by
  unfold TagTable.insert at h
  split at h
  · cases h
  · cases h
    rfl

@[simp] theorem newTags_nil (known : String → Bool) : newTags special known [] = [] := rfl

theorem newTags_cons (known : String → Bool) (raw : String) (raws : List String) :
    newTags special known (raw :: raws) =
      if canonicalizeInput special raw = "" ∨ known (canonicalizeInput special raw) = true then
        newTags special known raws
      else display raw ::
        newTags special (fun k => known k || k = canonicalizeInput special raw) raws := rfl

/-- The canonicals of the rows that a run of the rounds creates. -/
def created (special : String → Nat → List Char) (allowCreate : Bool) (mapping : Dict String String)
    (raws : List String) : List String :=
  if allowCreate then newTags special (fun key => (mapping.get? key).isSome) raws else []

theorem created_false : created special false mapping raws = [] := if_neg Bool.false_ne_true

theorem created_of_known (hknown : canonicalizeInput special raw = "" ∨
    (mapping.get? (canonicalizeInput special raw)).isSome = true) :
    created special allowCreate mapping (raw :: raws) = created special allowCreate mapping raws := by
  unfold created
  rw [newTags_cons, if_pos hknown]

theorem created_of_new (hkey : canonicalizeInput special raw ≠ "")
    (hnone : mapping.get? (canonicalizeInput special raw) = none) :
    created special true mapping (raw :: raws) = display raw ::
      created special true (mapping.set (canonicalizeInput special raw) (display raw)) raws := by
  have hknown : (fun key => ((mapping.set (canonicalizeInput special raw) (display raw)).get? key).isSome) =
      fun key => (mapping.get? key).isSome || decide (key = canonicalizeInput special raw) := by
    funext key
    rw [Dict.get?_set]
    split
    · next heq => simp [heq]
    · next hne => simp [hne]
  unfold created
  rw [if_pos rfl, if_pos rfl, newTags_cons, hknown, if_neg]
  simp [hkey, hnone]

theorem normalizeTags_rows (h : raws.foldlM (normalizeTag special kbId allowCreate) s = some s') :
    ∃ rows, s'.table.rows = s.table.rows ++ rows ∧
      rows.map TagDictionary.canonical = created special allowCreate s.mapping raws ∧
        ∀ r ∈ rows, r.kbId = kbId ∧ r.aliases = [] ∧ r.isDeprecated = false := by
  induction raws generalizing s with
  | nil =>
      cases h
      exact ⟨[], by simp, by simp [created], by simp⟩
  | cons raw raws ih =>
      rw [List.foldlM_cons, Option.bind_eq_bind, Option.bind_eq_some_iff] at h
      obtain ⟨s₁, hround, hrest⟩ := h
      obtain ⟨rows, hrows, hcanonicals, hnew⟩ := ih hrest
      rcases normalizeTag_eq_some hround with ⟨hkey, rfl⟩ | ⟨hkey, ⟨c, hc, rfl⟩ | ⟨hnone, hmiss⟩⟩
      · -- a blank tag
        rw [created_of_known (Or.inl hkey)]
        exact ⟨rows, hrows, hcanonicals, hnew⟩
      · -- a tag that the map has
        rw [created_of_known (Or.inr (by rw [hc]; rfl))]
        rw [addTag_table] at hrows
        rw [addTag_mapping] at hcanonicals
        exact ⟨rows, hrows, hcanonicals, hnew⟩
      · rcases hmiss with ⟨rfl, rfl⟩ | ⟨rfl, table, htable, rfl⟩
        · -- a tag that is dropped
          rw [created_false] at hcanonicals ⊢
          exact ⟨rows, hrows, hcanonicals, hnew⟩
        · -- a tag that gets a row
          rw [addTag_table] at hrows
          rw [addTag_mapping] at hcanonicals
          rw [created_of_new hkey hnone]
          refine ⟨{ id := s.table.next, kbId := kbId, canonical := display raw, aliases := [] } :: rows,
            ?_, ?_, ?_⟩
          · rw [hrows, insert_eq_some htable, List.append_assoc]
            rfl
          · rw [List.map_cons, hcanonicals]
          · intro r hr
            rcases List.mem_cons.1 hr with rfl | hr
            · exact ⟨rfl, rfl, rfl⟩
            · exact hnew r hr

/-- A canonical that the map has for one of the tags. -/
def Hit (special : String → Nat → List Char) (mapping : Dict String String) (raws : List String)
    (canonical : String) : Prop :=
  ∃ raw ∈ raws, canonicalizeInput special raw ≠ "" ∧
    mapping.get? (canonicalizeInput special raw) = some canonical

theorem hit_cons {c : String} : Hit special mapping (raw :: raws) c ↔
    (canonicalizeInput special raw ≠ "" ∧ mapping.get? (canonicalizeInput special raw) = some c) ∨
      Hit special mapping raws c := by
  simp [Hit]

/-- A tag that has been created is in the map from then on. -/
theorem hit_set {key d c : String} (h : Hit special (mapping.set key d) raws c) :
    Hit special mapping raws c ∨ c = d := by
  obtain ⟨raw, hraw, hkey, hget⟩ := h
  rw [Dict.get?_set] at hget
  split at hget
  · cases hget
    exact Or.inr rfl
  · exact Or.inl ⟨raw, hraw, hkey, hget⟩

theorem Hit.set {key d c : String} (hnone : mapping.get? key = none) (h : Hit special mapping raws c) :
    Hit special (mapping.set key d) raws c := by
  obtain ⟨raw, hraw, hkey, hget⟩ := h
  refine ⟨raw, hraw, hkey, ?_⟩
  rw [Dict.get?_set, if_neg]
  · exact hget
  · rintro rfl
    rw [hnone] at hget
    cases hget

theorem normalizeTags_result (h : raws.foldlM (normalizeTag special kbId allowCreate) s = some s')
    (c : String) : c ∈ s'.result ↔ c ∈ s.result ∨ Hit special s.mapping raws c ∨
      c ∈ created special allowCreate s.mapping raws := by
  induction raws generalizing s with
  | nil =>
      cases h
      simp [Hit, created]
  | cons raw raws ih =>
      rw [List.foldlM_cons, Option.bind_eq_bind, Option.bind_eq_some_iff] at h
      obtain ⟨s₁, hround, hrest⟩ := h
      rw [ih hrest, hit_cons]
      rcases normalizeTag_eq_some hround with ⟨hkey, rfl⟩ | ⟨hkey, ⟨d, hd, rfl⟩ | ⟨hnone, hmiss⟩⟩
      · rw [created_of_known (Or.inl hkey)]
        simp [hkey]
      · rw [created_of_known (Or.inr (by rw [hd]; rfl)), mem_addTag, addTag_mapping, hd, or_assoc,
          or_assoc]
        simp [hkey, eq_comm]
      · rcases hmiss with ⟨rfl, rfl⟩ | ⟨rfl, table, htable, rfl⟩
        · simp [hnone, created_false]
        · rw [created_of_new hkey hnone, mem_addTag, addTag_mapping, hnone, List.mem_cons]
          constructor
          · rintro ((hold | rfl) | hhit | hnew)
            · exact Or.inl hold
            · exact Or.inr (Or.inr (Or.inl rfl))
            · rcases hit_set hhit with hhit | rfl
              · exact Or.inr (Or.inl (Or.inr hhit))
              · exact Or.inr (Or.inr (Or.inl rfl))
            · exact Or.inr (Or.inr (Or.inr hnew))
          · rintro (hold | (⟨-, hc⟩ | hhit) | rfl | hnew)
            · exact Or.inl (Or.inl hold)
            · cases hc
            · exact Or.inr (Or.inl (hhit.set hnone))
            · exact Or.inl (Or.inr rfl)
            · exact Or.inr (Or.inr hnew)

/-! ## Maps that find the same -/

structure Same (s s' : Normalizing) : Prop where
  table : s'.table = s.table
  result : s'.result = s.result
  lookup : ∀ key, s'.mapping.get? key = s.mapping.get? key

theorem Same.symm (h : Same s s') : Same s' s :=
  ⟨h.table.symm, h.result.symm, fun key => (h.lookup key).symm⟩

theorem Same.addTag (h : Same s s') (c : String) : Same (s.addTag c) (s'.addTag c) := by
  constructor
  · rw [addTag_table, addTag_table, h.table]
  · unfold Normalizing.addTag
    rw [h.result]
    split
    · exact h.result
    · rfl
  · intro key
    rw [addTag_mapping, addTag_mapping, h.lookup]

theorem normalizeTag_same (h : Same s s') {s₁ : Normalizing}
    (hs : normalizeTag special kbId allowCreate s raw = some s₁) :
    ∃ s₁', normalizeTag special kbId allowCreate s' raw = some s₁' ∧ Same s₁ s₁' := by
  unfold normalizeTag
  rcases normalizeTag_eq_some hs with ⟨hkey, rfl⟩ | ⟨hkey, ⟨c, hc, rfl⟩ | ⟨hnone, hmiss⟩⟩
  · exact ⟨s', by simp [hkey], h⟩
  · exact ⟨s'.addTag c, by simp [hkey, h.lookup, hc], h.addTag c⟩
  · rcases hmiss with ⟨rfl, rfl⟩ | ⟨rfl, table, htable, rfl⟩
    · exact ⟨s', by simp [hkey, h.lookup, hnone], h⟩
    · refine ⟨Normalizing.addTag { s' with
          table := table
          mapping := s'.mapping.set (canonicalizeInput special raw) (display raw)
          createdAny := true } (display raw), by simp [hkey, h.lookup, hnone, h.table, htable], ?_⟩
      apply Same.addTag
      refine ⟨rfl, h.result, ?_⟩
      intro key
      rw [Dict.get?_set, Dict.get?_set, h.lookup]

theorem normalizeTags_same (h : Same s s') {u : Normalizing}
    (hs : raws.foldlM (normalizeTag special kbId allowCreate) s = some u) :
    ∃ u', raws.foldlM (normalizeTag special kbId allowCreate) s' = some u' ∧ Same u u' := by
  induction raws generalizing s s' with
  | nil =>
      cases hs
      exact ⟨s', rfl, h⟩
  | cons raw raws ih =>
      rw [List.foldlM_cons, Option.bind_eq_bind, Option.bind_eq_some_iff] at hs
      obtain ⟨s₁, hround, hrest⟩ := hs
      obtain ⟨s₁', hround', hsame⟩ := normalizeTag_same h hround
      obtain ⟨u', hrest', hsame'⟩ := ih hsame hrest
      refine ⟨u', ?_, hsame'⟩
      rw [List.foldlM_cons, hround']
      exact hrest'

end Normalization

end OpsKnowledge.Tagging
