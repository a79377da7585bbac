import OpsKnowledge.Lib.Transition
import OpsKnowledge.Tagging.Normalizer

/-!
# Unambiguous dictionaries

No two active rows of a base should claim one lower-cased name. Then the lookup map does not
depend on the order of the rows, and what it finds is found again. No operation checks it:
the service writes the names that it is given, and the constraint of the table compares
canonicals as they are written.
-/

namespace OpsKnowledge.Tagging

open OpsKnowledge.Lib

section Property

variable (special : String → Nat → List Char)

def Unambiguous (rows : List TagDictionary) : Prop :=
  ∀ r ∈ rows, ∀ r' ∈ rows, ∀ key, key ∈ r.keys special → key ∈ r'.keys special → r = r'

/-- The table and the canonicals that `normalize_tags` ends with, over the rows of a query. -/
def normalized (t : TagTable) (kbId : Nat) (rows : List TagDictionary) (allowCreate : Bool)
    (raws : List String) : Option (TagTable × List String) :=
  (normalizeTags special kbId allowCreate t (loadDict special rows) raws).map
    fun s => (s.table, s.result)

def NormalizesToItself (t : TagTable) (kbId : Nat) (canonical : String) : Prop :=
  ∀ allowCreate, normalized special t kbId (t.active kbId) allowCreate [canonical] =
    some (t, [canonical])

structure Settled (s : TagSession) : Prop where
  unambiguous : ∀ kbId, Unambiguous special (s.table.active kbId)
  orderFree : ∀ kbId rows, rows.Perm (s.table.active kbId) → ∀ allowCreate raws,
    normalized special s.table kbId rows allowCreate raws =
      normalized special s.table kbId (s.table.active kbId) allowCreate raws
  found : ∀ kbId raws t' result,
    normalized special s.table kbId (s.table.active kbId) false raws = some (t', result) →
      ∀ canonical ∈ result, NormalizesToItself special s.table kbId canonical
  returned : ∀ kbId canonical, (kbId, canonical) ∈ s.returned →
    NormalizesToItself special s.table kbId canonical

/-! ## The condition -/

/-- A tag finds one of the names. -/
def Finds (raw : String) (names : List String) : Prop :=
  canonicalizeInput special raw ≠ "" ∧ canonicalizeInput special raw ∈ names.map (lower special)

/-- Names that tags find are found by the canonical. -/
def NamesItself (canonical : String) (aliases : List String) : Prop :=
  ∀ raw, Finds special raw (canonical :: aliases) → Finds special canonical (canonical :: aliases)

/-- No row of a list claims one of the names. -/
def Unclaimed (rows : List TagDictionary) (names : List String) : Prop :=
  ∀ r ∈ rows, ∀ name ∈ names, lower special name ∉ r.keys special

/-- A row with these names has its place beside the others. -/
def Fits (others : List TagDictionary) (canonical : String) (aliases : List String) : Prop :=
  Unclaimed special others (canonical :: aliases) ∧ NamesItself special canonical aliases

/-- The names that the request gives an active row are apart from those of other active rows, and its
canonical is found under one of them. -/
def KeepsApart (s : TagSession) (request : Nat × TagCall) : Prop :=
  let rows := s.table.active request.1
  match request.2 with
  | .create canonical aliases =>
      Fits special rows (Knowledge.slice (strip canonical) 0 64) (aliases.getD [])
  | .setAliases dictId aliases =>
      ∀ row ∈ rows, row.id = dictId →
        Fits special (rows.filter fun r => r.id ≠ dictId) row.canonical (TagTable.cleanAliases aliases)
  | .rename dictId canonical =>
      let new := Knowledge.slice (strip canonical) 0 64
      ∀ row ∈ rows, row.id = dictId → new ≠ "" → new ≠ row.canonical →
        Fits special (rows.filter fun r => r.id ≠ dictId) new (TagTable.renamedAliases row)
  | .merge sourceIds targetId =>
      let sources := s.table.rows.filter fun r => r.id ∈ sourceIds
      ∀ target ∈ rows, target.id = targetId →
        Fits special (rows.filter fun r => r.id ≠ targetId ∧ r.id ∉ sourceIds) target.canonical
          (target.aliases ++ sources.flatMap TagDictionary.names)
  | .softDelete _ => True
  | .normalizeTags raws allowCreate =>
      let created := newTags special (fun key => rows.any fun r => key ∈ r.keys special) raws
      allowCreate = true → (created.map (lower special)).Nodup ∧
        ∀ name ∈ created, Unclaimed special rows [name] ∧ Finds special name [name]

end Property

section Lookup

variable {special : String → Nat → List Char} {rows rows' : List TagDictionary} {key canonical : String}

/-! ## The lookup map -/

theorem get?_loadDict (h : Unambiguous special rows) :
    (loadDict special rows).get? key = some canonical ↔
      ∃ r ∈ rows, key ∈ r.keys special ∧ r.canonical = canonical := by
  rw [loadDict, Dict.get?_ofList_of_functional, mem_pairs]
  intro k x y hx hy
  obtain ⟨r, hr, hrk, rfl⟩ := mem_pairs.1 hx
  obtain ⟨r', hr', hrk', rfl⟩ := mem_pairs.1 hy
  rw [h r hr r' hr' k hrk hrk']

theorem Unambiguous.mono (h : Unambiguous special rows) (hsub : ∀ r ∈ rows', r ∈ rows) :
    Unambiguous special rows' :=
  fun r hr r' hr' key => h r (hsub r hr) r' (hsub r' hr') key

/-- Maps from the same rows in another order find the same. -/
theorem loadDict_perm (h : Unambiguous special rows) (hperm : rows'.Perm rows) :
    (loadDict special rows').get? key = (loadDict special rows).get? key := by
  have h' : Unambiguous special rows' := h.mono fun r hr => hperm.mem_iff.1 hr
  ext canonical
  rw [get?_loadDict h, get?_loadDict h']
  simp only [hperm.mem_iff]

end Lookup

/-! ## Normalization -/

section Normalization

variable {special : String → Nat → List Char} {kbId : Nat} {allowCreate : Bool} {raws : List String}

theorem normalized_congr {t : TagTable} {rows rows' : List TagDictionary}
    (h : ∀ key, (loadDict special rows').get? key = (loadDict special rows).get? key) :
    normalized special t kbId rows' allowCreate raws = normalized special t kbId rows allowCreate raws := by
  have hsame : Same { table := t, mapping := loadDict special rows }
      { table := t, mapping := loadDict special rows' } := ⟨rfl, rfl, h⟩
  have hsub : ∀ s s' : Normalizing, Same s s' → ∀ x,
      (raws.foldlM (normalizeTag special kbId allowCreate) s).map (fun u => (u.table, u.result)) = some x →
        (raws.foldlM (normalizeTag special kbId allowCreate) s').map (fun u => (u.table, u.result)) =
          some x := by
    intro s s' hs x hx
    obtain ⟨u, hu, rfl⟩ := Option.map_eq_some_iff.1 hx
    obtain ⟨u', hu', hend⟩ := normalizeTags_same hs hu
    rw [hu', Option.map_some, hend.table, hend.result]
  ext x
  constructor
  · exact hsub _ _ hsame.symm x
  · exact hsub _ _ hsame x

theorem normalizesToItself_iff {t : TagTable} {canonical : String} :
    NormalizesToItself special t kbId canonical ↔ canonicalizeInput special canonical ≠ "" ∧
      (loadDict special (t.active kbId)).get? (canonicalizeInput special canonical) = some canonical := by
  constructor
  · intro h
    have hlook := h false
    obtain ⟨s', hs', heq⟩ := Option.map_eq_some_iff.1 hlook
    have hmem : canonical ∈ s'.result := by
      have hresult : s'.result = [canonical] := congrArg Prod.snd heq
      rw [hresult]
      exact List.mem_singleton_self _
    rcases (normalizeTags_result hs' canonical).1 hmem with hold | ⟨raw, hraw, hkey, hget⟩ | hnew
    · cases hold
    · obtain rfl := List.mem_singleton.1 hraw
      exact ⟨hkey, hget⟩
    · rw [created_false] at hnew
      cases hnew
  · rintro ⟨hkey, hget⟩ allowCreate
    unfold normalized normalizeTags
    rw [List.foldlM_cons]
    simp [normalizeTag, hkey, hget, Normalizing.addTag]

end Normalization

/-! ## States -/

section States

variable {special : String → Nat → List Char} {kbId : Nat} {s : TagSession} {t t' : TagTable}
  {rows rows' others : List TagDictionary}

/-- Active rows that claim their names alone, and that are found by their canonical. -/
structure Clean (special : String → Nat → List Char) (rows : List TagDictionary) : Prop where
  unambiguous : Unambiguous special rows
  named : ∀ r ∈ rows, NamesItself special r.canonical r.aliases

theorem Clean.mono (h : Clean special rows) (hsub : ∀ r ∈ rows', r ∈ rows) : Clean special rows' :=
  ⟨h.unambiguous.mono hsub, fun r hr => h.named r (hsub r hr)⟩

/-- The operations are about one base: of the others they only take rows away. -/
theorem clean_iff_of_other (hclean : ∀ k, Clean special (t.active k))
    (hother : ∀ k, k ≠ kbId → ∀ r ∈ t'.active k, r ∈ t.active k) :
    (∀ k, Clean special (t'.active k)) ↔ Clean special (t'.active kbId) := by
  constructor
  · intro hall
    exact hall kbId
  · intro hone k
    by_cases hk : k = kbId
    · exact hk ▸ hone
    · exact (hclean k).mono (hother k hk)

theorem eq_of_canonical {r r' : TagDictionary} (hr : r ∈ t.active kbId) (hr' : r' ∈ t.active kbId)
    (h : r.canonical = r'.canonical) : r = r' := by
  obtain ⟨hr, hkb, -⟩ := mem_active.1 hr
  obtain ⟨hr', hkb', -⟩ := mem_active.1 hr'
  apply List.inj_on_of_nodup_map t.unique hr hr'
  simp [hkb, hkb', h]

/-- A canonical that its own row is found by. -/
def Own (special : String → Nat → List Char) (rows : List TagDictionary) (canonical : String) : Prop :=
  ∃ r ∈ rows, r.canonical = canonical ∧ Finds special canonical r.names

theorem normalizesToItself_iff_own {canonical : String} (h : Unambiguous special (t.active kbId)) :
    NormalizesToItself special t kbId canonical ↔ Own special (t.active kbId) canonical := by
  rw [normalizesToItself_iff, get?_loadDict h]
  constructor
  · rintro ⟨hkey, r, hr, hin, hname⟩
    exact ⟨r, hr, hname, hkey, hin⟩
  · rintro ⟨r, hr, hname, hkey, hin⟩
    exact ⟨hkey, r, hr, hin, hname⟩

theorem settled_iff : Settled special s ↔ (∀ kbId, Clean special (s.table.active kbId)) ∧
    ∀ kbId canonical, (kbId, canonical) ∈ s.returned → Own special (s.table.active kbId) canonical := by
  constructor
  · intro h
    refine ⟨?_, ?_⟩
    · intro kbId
      refine ⟨h.unambiguous kbId, ?_⟩
      intro r hr raw hraw
      have hget := (get?_loadDict (h.unambiguous kbId)).2 ⟨r, hr, hraw.2, rfl⟩
      have hlook : normalized special s.table kbId (s.table.active kbId) false [raw] =
          some (s.table, [r.canonical]) := by
        unfold normalized normalizeTags
        rw [List.foldlM_cons]
        simp [normalizeTag, hraw.1, hget, Normalizing.addTag]
      have hself := h.found kbId [raw] _ _ hlook r.canonical (List.mem_singleton_self _)
      obtain ⟨r', hr', hname, hfinds⟩ := (normalizesToItself_iff_own (h.unambiguous kbId)).1 hself
      obtain rfl := eq_of_canonical hr' hr hname
      exact hfinds
    · intro kbId canonical hreturned
      exact (normalizesToItself_iff_own (h.unambiguous kbId)).1 (h.returned kbId canonical hreturned)
  · rintro ⟨hclean, hreturned⟩
    refine ⟨fun kbId => (hclean kbId).unambiguous, ?_, ?_, ?_⟩
    · intro kbId rows hperm allowCreate raws
      exact normalized_congr fun key => loadDict_perm (hclean kbId).unambiguous hperm
    · intro kbId raws t' result hlook canonical hmem
      obtain ⟨u, hu, heq⟩ := Option.map_eq_some_iff.1 hlook
      cases heq
      rcases (normalizeTags_result hu canonical).1 hmem with hold | ⟨raw, -, hkey, hget⟩ | hnew
      · cases hold
      · obtain ⟨r, hr, hin, rfl⟩ := (get?_loadDict (hclean kbId).unambiguous).1 hget
        rw [normalizesToItself_iff_own (hclean kbId).unambiguous]
        exact ⟨r, hr, rfl, (hclean kbId).named r hr raw ⟨hkey, hin⟩⟩
      · rw [created_false] at hnew
        cases hnew
    · intro kbId canonical hmem
      exact (normalizesToItself_iff_own (hclean kbId).unambiguous).2 (hreturned kbId canonical hmem)

/-! ## A row beside others -/

/-- A row takes its place among clean rows exactly when it fits. -/
theorem clean_insert_iff {row : TagDictionary} (hmem : ∀ r, r ∈ rows ↔ r = row ∨ r ∈ others)
    (hrow : row ∉ others) (hothers : Clean special others) :
    Clean special rows ↔ Fits special others row.canonical row.aliases := by
  have hin : row ∈ rows := (hmem row).2 (Or.inl rfl)
  constructor
  · intro h
    refine ⟨?_, h.named row hin⟩
    intro r hr name hname hkey
    have hkey' : lower special name ∈ row.keys special := mem_keys.2 ⟨name, hname, rfl⟩
    have heq := h.unambiguous row hin r ((hmem r).2 (Or.inr hr)) _ hkey' hkey
    exact hrow (heq ▸ hr)
  · rintro ⟨hunclaimed, hnamed⟩
    have happart : ∀ r ∈ others, ∀ key, key ∈ row.keys special → key ∉ r.keys special := by
      intro r hr key hkey
      obtain ⟨name, hname, rfl⟩ := mem_keys.1 hkey
      exact hunclaimed r hr name hname
    constructor
    · intro r hr r' hr' key hkey hkey'
      rcases (hmem r).1 hr with rfl | hr
      · rcases (hmem r').1 hr' with rfl | hr'
        · rfl
        · exact absurd hkey' (happart r' hr' key hkey)
      · rcases (hmem r').1 hr' with rfl | hr'
        · exact absurd hkey (happart r hr key hkey')
        · exact hothers.unambiguous r hr r' hr' key hkey hkey'
    · intro r hr
      rcases (hmem r).1 hr with rfl | hr
      · exact hnamed
      · exact hothers.named r hr

theorem fits_congr {canonical : String} {aliases aliases' : List String}
    (h : ∀ name, name ∈ aliases' ↔ name ∈ aliases) :
    Fits special others canonical aliases' ↔ Fits special others canonical aliases := by
  have hnames : ∀ name, name ∈ canonical :: aliases' ↔ name ∈ canonical :: aliases := by
    intro name
    rw [List.mem_cons, List.mem_cons, h]
  have hfinds : ∀ raw, Finds special raw (canonical :: aliases') ↔
      Finds special raw (canonical :: aliases) := by
    intro raw
    simp only [Finds, List.mem_map, hnames]
  simp only [Fits, Unclaimed, NamesItself, hnames, hfinds]

/-! ## Operations -/

/-- The active rows after an update of one row. -/
theorem mem_active_updateRow {dictId : Nat} {row : TagDictionary} (hrow : t.getOwn kbId dictId = some row)
    {f : TagDictionary → TagDictionary} {hf : ∀ r, (f r).id = r.id}
    (hkb : ∀ r, (f r).kbId = r.kbId) (h : t.updateRow dictId f hf = some t') (k : Nat)
    (r : TagDictionary) : r ∈ t'.active k ↔
      (r = f row ∧ k = kbId ∧ (f row).isDeprecated = false) ∨ (r ∈ t.active k ∧ r.id ≠ dictId) := by
  obtain ⟨hmem, hid, hhome⟩ := getOwn_eq_some.1 hrow
  rw [mem_active, update_eq_some h, mem_active, List.mem_map]
  constructor
  · rintro ⟨⟨r₀, hr₀, rfl⟩, hk, hactive⟩
    by_cases hr₀id : r₀.id = dictId
    · obtain rfl := eq_of_id hr₀ hmem (hr₀id.trans hid.symm)
      rw [if_pos hr₀id] at hk hactive
      rw [hkb, hhome] at hk
      exact Or.inl ⟨if_pos hr₀id, hk.symm, hactive⟩
    · rw [if_neg hr₀id] at hk hactive ⊢
      exact Or.inr ⟨⟨hr₀, hk, hactive⟩, hr₀id⟩
  · rintro (⟨rfl, rfl, hactive⟩ | ⟨⟨hr, hk, hactive⟩, hne⟩)
    · exact ⟨⟨row, hmem, if_pos hid⟩, (hkb row).trans hhome, hactive⟩
    · exact ⟨⟨r, hr, if_neg hne⟩, hk, hactive⟩

/-- A base that the operation is not about. -/
theorem updateRow_other {dictId : Nat} {row : TagDictionary} (hrow : t.getOwn kbId dictId = some row)
    {f : TagDictionary → TagDictionary} {hf : ∀ r, (f r).id = r.id} (hkb : ∀ r, (f r).kbId = r.kbId)
    (h : t.updateRow dictId f hf = some t') {k : Nat} (hk : k ≠ kbId) :
    ∀ r ∈ t'.active k, r ∈ t.active k := by
  intro r hr
  rcases (mem_active_updateRow hrow hkb h k r).1 hr with ⟨-, heq, -⟩ | ⟨hr, -⟩
  · exact absurd heq hk
  · exact hr

theorem updateRow_clean_iff (hclean : ∀ k, Clean special (t.active k)) {dictId : Nat}
    {row : TagDictionary} (hrow : t.getOwn kbId dictId = some row) {f : TagDictionary → TagDictionary}
    {hf : ∀ r, (f r).id = r.id} (hkb : ∀ r, (f r).kbId = r.kbId) (h : t.updateRow dictId f hf = some t') :
    (∀ k, Clean special (t'.active k)) ↔ ((f row).isDeprecated = false →
      Fits special ((t.active kbId).filter fun r => r.id ≠ dictId) (f row).canonical (f row).aliases) := by
  have hmem := mem_active_updateRow hrow hkb h
  have hothers : Clean special ((t.active kbId).filter fun r => r.id ≠ dictId) :=
    (hclean kbId).mono fun r hr => (List.mem_filter.1 hr).1
  rw [clean_iff_of_other hclean fun k hk => updateRow_other hrow hkb h hk]
  cases hactive : (f row).isDeprecated with
  | true =>
      refine iff_of_true (hothers.mono ?_) fun hfalse => nomatch hfalse
      intro r hr
      rcases (hmem kbId r).1 hr with ⟨-, -, hfalse⟩ | ⟨hr, hne⟩
      · rw [hactive] at hfalse
        cases hfalse
      · exact List.mem_filter.2 ⟨hr, decide_eq_true hne⟩
  | false =>
      have hinsert : Clean special (t'.active kbId) ↔ Fits special
          ((t.active kbId).filter fun r => r.id ≠ dictId) (f row).canonical (f row).aliases := by
        apply clean_insert_iff
        · intro r
          rw [hmem, List.mem_filter, decide_eq_true_eq]
          simp [hactive]
        · intro hin
          have hne := of_decide_eq_true (List.mem_filter.1 hin).2
          rw [hf] at hne
          exact hne (getOwn_eq_some.1 hrow).2.1
        · exact hothers
      rw [hinsert]
      exact ⟨fun hfits _ => hfits, fun hfits => hfits rfl⟩

/-- The condition of a request speaks of the active row with its id. -/
theorem forall_active_iff {dictId : Nat} {row : TagDictionary} (hrow : t.getOwn kbId dictId = some row)
    {p : TagDictionary → Prop} : (∀ r ∈ t.active kbId, r.id = dictId → p r) ↔
      (row.isDeprecated = false → p row) := by
  obtain ⟨hmem, hid, hhome⟩ := getOwn_eq_some.1 hrow
  constructor
  · intro h hactive
    exact h row (mem_active.2 ⟨hmem, hhome, hactive⟩) hid
  · intro h r hr hrid
    obtain ⟨hr, -, hactive⟩ := mem_active.1 hr
    obtain rfl := eq_of_id hr hmem (hrid.trans hid.symm)
    exact h hactive

theorem clean_add_iff (hclean : ∀ k, Clean special (t.active k)) {canonical : String}
    {aliases : List String} (h : t.insert kbId canonical aliases = some t') :
    (∀ k, Clean special (t'.active k)) ↔ Fits special (t.active kbId) canonical aliases := by
  let row : TagDictionary := { id := t.next, kbId := kbId, canonical := canonical, aliases := aliases }
  have hmem : ∀ k r, r ∈ t'.active k ↔ (r = row ∧ k = kbId) ∨ r ∈ t.active k := by
    intro k r
    rw [mem_active, mem_active, insert_eq_some h, mem_concat]
    constructor
    · rintro ⟨hr | rfl, hk, hactive⟩
      · exact Or.inr ⟨hr, hk, hactive⟩
      · exact Or.inl ⟨rfl, hk.symm⟩
    · rintro (⟨rfl, rfl⟩ | ⟨hr, hk, hactive⟩)
      · exact ⟨Or.inr rfl, rfl, rfl⟩
      · exact ⟨Or.inl hr, hk, hactive⟩
  have hnew : row ∉ t.active kbId := by
    intro hin
    have hlt := t.below row (mem_active.1 hin).1
    exact Nat.lt_irrefl _ hlt
  have hinsert : Clean special (t'.active kbId) ↔ Fits special (t.active kbId) canonical aliases := by
    apply clean_insert_iff _ hnew (hclean kbId)
    intro r
    rw [hmem]
    simp
  rw [← hinsert]
  apply clean_iff_of_other hclean
  intro k hk r hr
  rcases (hmem k r).1 hr with ⟨-, heq⟩ | hr
  · exact absurd heq hk
  · exact hr

theorem rename_clean_iff (hclean : ∀ k, Clean special (t.active k)) {dictId : Nat} {canonical : String}
    {queued : List Backfill} (h : t.rename kbId dictId canonical = some (t', queued)) :
    (∀ k, Clean special (t'.active k)) ↔
      KeepsApart special { table := t } (kbId, .rename dictId canonical) := by
  unfold TagTable.rename at h
  rw [Option.bind_eq_bind, Option.bind_eq_some_iff] at h
  obtain ⟨row, hrow, hrest⟩ := h
  refine Iff.trans ?_ (forall_active_iff hrow).symm
  simp only at hrest
  split at hrest
  · next hsame =>
      cases hrest
      refine iff_of_true hclean ?_
      intro _ hne hother
      rcases hsame with hempty | hold
      · exact absurd hempty hne
      · exact absurd hold hother
  · next hnew =>
      obtain ⟨t₁, ht₁, heq⟩ := Option.map_eq_some_iff.1 hrest
      cases heq
      let renamed : TagDictionary → TagDictionary := fun r =>
        { r with
          canonical := Knowledge.slice (strip canonical) 0 64
          aliases := TagTable.renamedAliases r }
      have hkb : ∀ r, (renamed r).kbId = r.kbId := fun _ => rfl
      refine (updateRow_clean_iff (f := renamed) hclean hrow hkb ht₁).trans ?_
      push Not at hnew
      constructor
      · intro hfits hactive _ _
        exact hfits hactive
      · intro hfits hactive
        exact hfits hactive hnew.1 hnew.2

theorem mem_mergedAliases {target : TagDictionary} {sources : List TagDictionary} {name : String} :
    name ∈ TagTable.mergedAliases target sources ↔
      name ∈ target.aliases ++ sources.flatMap TagDictionary.names := by
  unfold TagTable.mergedAliases
  generalize sources.flatMap TagDictionary.names = names
  generalize target.aliases = merged
  induction names generalizing merged with
  | nil => simp
  | cons new names ih =>
      rw [List.foldl_cons, ih]
      split
      · next hin =>
          simp only [List.mem_append, List.mem_cons]
          constructor
          · rintro (hold | hrest)
            · exact Or.inl hold
            · exact Or.inr (Or.inr hrest)
          · rintro (hold | rfl | hrest)
            · exact Or.inl hold
            · exact Or.inl hin
            · exact Or.inr hrest
      · simp

/-- The active rows after a merge: the target with more names, and those that are no source. -/
theorem mem_active_merged {target : TagDictionary} {targetId : Nat} {sourceIds : List Nat}
    {aliases : List String} (htarget : target ∈ t.rows) (hid : target.id = targetId)
    (hhome : target.kbId = kbId)
    (hrows : t'.rows = t.rows.map fun r =>
      if r.id = targetId then { r with aliases := aliases }
      else if r.id ∈ sourceIds then { r with isDeprecated := true } else r) (k : Nat) (r : TagDictionary) :
    r ∈ t'.active k ↔
      (r = { target with aliases := aliases } ∧ k = kbId ∧ target.isDeprecated = false) ∨
        (r ∈ t.active k ∧ r.id ≠ targetId ∧ r.id ∉ sourceIds) := by
  rw [mem_active, hrows, mem_active, List.mem_map]
  constructor
  · rintro ⟨⟨r₀, hr₀, rfl⟩, hk, hactive⟩
    by_cases hr₀id : r₀.id = targetId
    · obtain rfl := eq_of_id hr₀ htarget (hr₀id.trans hid.symm)
      rw [if_pos hr₀id] at hk hactive
      exact Or.inl ⟨if_pos hr₀id, hk.symm.trans hhome, hactive⟩
    · by_cases hsource : r₀.id ∈ sourceIds
      · rw [if_neg hr₀id, if_pos hsource] at hactive
        cases hactive
      · rw [if_neg hr₀id, if_neg hsource] at hk hactive ⊢
        exact Or.inr ⟨⟨hr₀, hk, hactive⟩, hr₀id, hsource⟩
  · rintro (⟨rfl, rfl, hactive⟩ | ⟨⟨hr, hk, hactive⟩, hne, hout⟩)
    · exact ⟨⟨target, htarget, if_pos hid⟩, hhome, hactive⟩
    · refine ⟨⟨r, hr, ?_⟩, hk, hactive⟩
      rw [if_neg hne, if_neg hout]

theorem merge_clean_iff (hclean : ∀ k, Clean special (t.active k)) {sourceIds : List Nat} {targetId : Nat}
    {queued : List Backfill} (h : t.merge kbId sourceIds targetId = some (t', queued)) :
    (∀ k, Clean special (t'.active k)) ↔
      KeepsApart special { table := t } (kbId, .merge sourceIds targetId) := by
  obtain ⟨target, htarget, hid, hhome, -, hcase⟩ := merge_eq_some h
  let sources := t.rows.filter fun r => r.id ∈ sourceIds
  let others := (t.active kbId).filter fun r => r.id ≠ targetId ∧ r.id ∉ sourceIds
  have hothers : Clean special others := (hclean kbId).mono fun r hr => (List.mem_filter.1 hr).1
  have hown : t.getOwn kbId targetId = some target := getOwn_eq_some.2 ⟨htarget, hid, hhome⟩
  refine Iff.trans ?_ (forall_active_iff hown).symm
  show _ ↔ (_ → Fits special others target.canonical (target.aliases ++ sources.flatMap TagDictionary.names))
  rcases hcase with ⟨rfl, -, hout⟩ | ⟨-, hrows, -⟩
  · -- No row is merged, and the target fits where it is.
    refine iff_of_true hclean ?_
    intro hactive
    have hsources : sources = [] := by
      apply List.filter_eq_nil_iff.2
      intro r hr hin
      exact hout r hr (of_decide_eq_true hin)
    rw [hsources, List.flatMap_nil, List.append_nil]
    refine (clean_insert_iff ?_ ?_ hothers).1 (hclean kbId)
    · intro r
      simp only [others, List.mem_filter, decide_eq_true_eq]
      constructor
      · intro hr
        by_cases hrid : r.id = targetId
        · exact Or.inl (eq_of_id (mem_active.1 hr).1 htarget (hrid.trans hid.symm))
        · exact Or.inr ⟨hr, hrid, hout r (mem_active.1 hr).1⟩
      · rintro (rfl | ⟨hr, -⟩)
        · exact mem_active.2 ⟨htarget, hhome, hactive⟩
        · exact hr
    · intro hin
      have hne := (of_decide_eq_true (List.mem_filter.1 hin).2).1
      exact hne hid
  · have hmem : ∀ k r, r ∈ t'.active k ↔
        (r = { target with aliases := TagTable.mergedAliases target sources } ∧ k = kbId ∧
          target.isDeprecated = false) ∨ (r ∈ t.active k ∧ r.id ≠ targetId ∧ r.id ∉ sourceIds) :=
      mem_active_merged htarget hid hhome hrows
    cases hactive : target.isDeprecated with
    | true =>
        refine iff_of_true ?_ Bool.noConfusion
        intro k
        apply (hclean k).mono
        intro r hr
        rcases (hmem k r).1 hr with ⟨-, -, hfalse⟩ | ⟨hr, -⟩
        · rw [hactive] at hfalse
          cases hfalse
        · exact hr
    | false =>
        let merged : TagDictionary :=
          { target with aliases := TagTable.mergedAliases target sources }
        have hinsert : Clean special (t'.active kbId) ↔
            Fits special others merged.canonical merged.aliases := by
          refine clean_insert_iff ?_ ?_ hothers
          · intro r
            rw [hmem]
            simp only [others, merged, List.mem_filter, decide_eq_true_eq, hactive, and_true]
          · intro hin
            have hne := (of_decide_eq_true (List.mem_filter.1 hin).2).1
            exact hne hid
        rw [fits_congr fun name => mem_mergedAliases] at hinsert
        have hother : ∀ k, k ≠ kbId → ∀ r ∈ t'.active k, r ∈ t.active k := by
          intro k hk r hr
          rcases (hmem k r).1 hr with ⟨-, heq, -⟩ | ⟨hr, -⟩
          · exact absurd heq hk
          · exact hr
        rw [clean_iff_of_other hclean hother, hinsert]
        exact ⟨fun hfits _ => hfits, fun hfits => hfits rfl⟩

/-- Rows without aliases beside clean rows. -/
theorem clean_append_iff (hmem : ∀ r, r ∈ rows' ↔ r ∈ others ∨ r ∈ rows) (hdisjoint : ∀ r ∈ rows, r ∉ others)
    (hnodup : rows.Nodup) (haliases : ∀ r ∈ rows, r.aliases = []) (hothers : Clean special others)
    (hfound : ∀ r ∈ rows, Finds special r.canonical [r.canonical]) :
    Clean special rows' ↔ (rows.map fun r => lower special r.canonical).Nodup ∧
      ∀ r ∈ rows, Unclaimed special others [r.canonical] := by
  have hkeys : ∀ r ∈ rows, ∀ key, key ∈ r.keys special ↔ key = lower special r.canonical := by
    intro r hr key
    simp [TagDictionary.keys, TagDictionary.names, haliases r hr]
  constructor
  · intro h
    constructor
    · apply List.Nodup.map_on _ hnodup
      intro r hr r' hr' heq
      have hkey : lower special r.canonical ∈ r'.keys special := (hkeys r' hr' _).2 heq
      exact h.unambiguous r ((hmem r).2 (Or.inr hr)) r' ((hmem r').2 (Or.inr hr')) _
        ((hkeys r hr _).2 rfl) hkey
    · intro r hr o ho name hname hkey
      obtain rfl := List.mem_singleton.1 hname
      have heq := h.unambiguous r ((hmem r).2 (Or.inr hr)) o ((hmem o).2 (Or.inl ho)) _
        ((hkeys r hr _).2 rfl) hkey
      exact hdisjoint r hr (heq ▸ ho)
  · rintro ⟨hapart, hunclaimed⟩
    have hmixed : ∀ r ∈ rows, ∀ o ∈ others, ∀ key, key ∈ r.keys special → key ∉ o.keys special := by
      intro r hr o ho key hkey
      rw [(hkeys r hr key).1 hkey]
      exact hunclaimed r hr o ho _ (List.mem_singleton_self _)
    constructor
    · intro r hr r' hr' key hkey hkey'
      rcases (hmem r).1 hr with hold | hnew
      · rcases (hmem r').1 hr' with hold' | hnew'
        · exact hothers.unambiguous r hold r' hold' key hkey hkey'
        · exact absurd hkey (hmixed r' hnew' r hold key hkey')
      · rcases (hmem r').1 hr' with hold' | hnew'
        · exact absurd hkey' (hmixed r hnew r' hold' key hkey)
        · apply List.inj_on_of_nodup_map hapart hnew hnew'
          exact ((hkeys r hnew key).1 hkey).symm.trans ((hkeys r' hnew' key).1 hkey')
    · intro r hr
      rcases (hmem r).1 hr with hold | hnew
      · exact hothers.named r hold
      · intro _ _
        rw [haliases r hnew]
        exact hfound r hnew

theorem normalizeTags_settled_iff (h : Settled special s) {allowCreate : Bool} {raws : List String}
    {u : Normalizing} (hu : normalizeTags special kbId allowCreate s.table
      (loadDict special (s.table.active kbId)) raws = some u) :
    Settled special { table := u.table, returned := u.result.map fun canonical => (kbId, canonical) } ↔
      KeepsApart special s (kbId, .normalizeTags raws allowCreate) := by
  obtain ⟨hclean, -⟩ := settled_iff.1 h
  obtain ⟨rows, hrows, hcanonicals, hnew⟩ := normalizeTags_rows hu
  have hmem : ∀ k r, r ∈ u.table.active k ↔ r ∈ s.table.active k ∨ k = kbId ∧ r ∈ rows := by
    intro k r
    rw [mem_active, hrows, mem_active, List.mem_append]
    constructor
    · rintro ⟨hr | hr, hk, hactive⟩
      · exact Or.inl ⟨hr, hk, hactive⟩
      · exact Or.inr ⟨hk.symm.trans (hnew r hr).1, hr⟩
    · rintro (⟨hr, hk, hactive⟩ | ⟨rfl, hr⟩)
      · exact ⟨Or.inl hr, hk, hactive⟩
      · exact ⟨Or.inr hr, (hnew r hr).1, (hnew r hr).2.2⟩
  have hcreated : ∀ name, name ∈ created special allowCreate
      (loadDict special (s.table.active kbId)) raws ↔ ∃ r ∈ rows, r.canonical = name := by
    intro name
    rw [← hcanonicals, List.mem_map]
  -- What the map has is found again; what has been created has to find itself.
  have hreturned : (∀ k canonical, (k, canonical) ∈ u.result.map (fun canonical => (kbId, canonical)) →
      Own special (u.table.active k) canonical) ↔
        ∀ r ∈ rows, Finds special r.canonical [r.canonical] := by
    constructor
    · intro hall r hr
      have hresult : r.canonical ∈ u.result :=
        (normalizeTags_result hu _).2 (Or.inr (Or.inr ((hcreated _).2 ⟨r, hr, rfl⟩)))
      obtain ⟨r', hr', hname, hfinds⟩ := hall kbId r.canonical (List.mem_map_of_mem hresult)
      obtain rfl := eq_of_canonical hr' ((hmem kbId r).2 (Or.inr ⟨rfl, hr⟩)) hname
      unfold TagDictionary.names at hfinds
      rwa [(hnew r' hr).2.1] at hfinds
    · intro hfound k canonical hin
      obtain ⟨c, hc, heq⟩ := List.mem_map.1 hin
      cases heq
      rcases (normalizeTags_result hu canonical).1 hc with hold | ⟨raw, -, hkey, hget⟩ | hname
      · cases hold
      · obtain ⟨r, hr, hinkeys, rfl⟩ := (get?_loadDict (hclean kbId).unambiguous).1 hget
        exact ⟨r, (hmem kbId r).2 (Or.inl hr), rfl, (hclean kbId).named r hr raw ⟨hkey, hinkeys⟩⟩
      · obtain ⟨r, hr, rfl⟩ := (hcreated canonical).1 hname
        refine ⟨r, (hmem kbId r).2 (Or.inr ⟨rfl, hr⟩), rfl, ?_⟩
        unfold TagDictionary.names
        rw [(hnew r hr).2.1]
        exact hfound r hr
  have hdisjoint : ∀ r ∈ rows, r ∉ s.table.active kbId := by
    intro r hr hold
    have hnodup := u.table.nodup
    rw [hrows, List.map_append, List.nodup_append] at hnodup
    exact hnodup.2.2 _ (List.mem_map_of_mem (mem_active.1 hold).1) _ (List.mem_map_of_mem hr) rfl
  have hrowsnodup : rows.Nodup := by
    have hnodup := u.table.nodup
    rw [hrows, List.map_append, List.nodup_append] at hnodup
    exact hnodup.2.1.of_map
  have hall : (∀ k, Clean special (u.table.active k)) ↔ Clean special (u.table.active kbId) := by
    apply clean_iff_of_other hclean
    intro k hk r hr
    rcases (hmem k r).1 hr with hold | ⟨heq, -⟩
    · exact hold
    · exact absurd heq hk
  rw [settled_iff]
  show (∀ k, Clean special (u.table.active k)) ∧ _ ↔ _
  rw [hall, hreturned]
  have hboth : (Clean special (u.table.active kbId) ∧ ∀ r ∈ rows, Finds special r.canonical [r.canonical]) ↔
      (rows.map fun r => lower special r.canonical).Nodup ∧
        ∀ r ∈ rows, Unclaimed special (s.table.active kbId) [r.canonical] ∧
          Finds special r.canonical [r.canonical] := by
    have happend : (∀ r ∈ rows, Finds special r.canonical [r.canonical]) → _ :=
      clean_append_iff (fun r => (hmem kbId r).trans (by simp)) hdisjoint hrowsnodup
        (fun r hr => (hnew r hr).2.1) (hclean kbId)
    constructor
    · rintro ⟨hclean', hfound⟩
      obtain ⟨hapart, hunclaimed⟩ := (happend hfound).1 hclean'
      exact ⟨hapart, fun r hr => ⟨hunclaimed r hr, hfound r hr⟩⟩
    · rintro ⟨hapart, hrow⟩
      have hfound : ∀ r ∈ rows, Finds special r.canonical [r.canonical] := fun r hr => (hrow r hr).2
      exact ⟨(happend hfound).2 ⟨hapart, fun r hr => (hrow r hr).1⟩, hfound⟩
  rw [hboth]
  cases allowCreate with
  | false =>
      rw [created_false, List.map_eq_nil_iff] at hcanonicals
      subst hcanonicals
      exact iff_of_true ⟨List.nodup_nil, fun r hr => nomatch hr⟩ fun hfalse => nomatch hfalse
  | true =>
      have hknown : (fun key => ((loadDict special (s.table.active kbId)).get? key).isSome) =
          fun key => (s.table.active kbId).any fun r => key ∈ r.keys special :=
        funext fun key => get?_loadDict_isSome
      unfold created at hcanonicals
      rw [if_pos rfl, hknown] at hcanonicals
      show _ ↔ (_ → _ ∧ _)
      simp only [true_imp_iff]
      rw [← hcanonicals, List.map_map, List.forall_mem_map]
      exact Iff.rfl

theorem tagStep_settled_iff {request : Nat × TagCall} {s' : TagSession} (h : Settled special s)
    (hs' : tagStep special s request = some s') : Settled special s' ↔ KeepsApart special s request := by
  obtain ⟨hclean, -⟩ := settled_iff.1 h
  -- Nothing is returned but by the normalizer.
  have hquiet : ∀ t : TagTable, Settled special { table := t } ↔ ∀ k, Clean special (t.active k) := by
    intro t
    rw [settled_iff]
    simp
  obtain ⟨kbId, call⟩ := request
  cases call with
  | create canonical aliases =>
      obtain ⟨t', ht', rfl⟩ := Option.map_eq_some_iff.1 hs'
      exact (hquiet t').trans (clean_add_iff hclean ht')
  | setAliases dictId aliases =>
      obtain ⟨t', ht', rfl⟩ := Option.map_eq_some_iff.1 hs'
      obtain ⟨row, hrow, hupdate⟩ := Option.bind_eq_some_iff.1 ht'
      let changed : TagDictionary → TagDictionary := fun r =>
        { r with aliases := TagTable.cleanAliases aliases }
      have hkb : ∀ r, (changed r).kbId = r.kbId := fun _ => rfl
      have hrows := forall_active_iff (p := fun r =>
        Fits special ((s.table.active kbId).filter fun r => r.id ≠ dictId) r.canonical
          (TagTable.cleanAliases aliases)) hrow
      refine (hquiet t').trans ((updateRow_clean_iff (f := changed) hclean hrow hkb hupdate).trans ?_)
      exact hrows.symm
  | rename dictId canonical =>
      obtain ⟨⟨t', queued⟩, ht', rfl⟩ := Option.map_eq_some_iff.1 hs'
      exact (hquiet t').trans (rename_clean_iff hclean ht')
  | merge sourceIds targetId =>
      obtain ⟨⟨t', queued⟩, ht', rfl⟩ := Option.map_eq_some_iff.1 hs'
      exact (hquiet t').trans (merge_clean_iff hclean ht')
  | softDelete dictId =>
      obtain ⟨t', ht', rfl⟩ := Option.map_eq_some_iff.1 hs'
      obtain ⟨row, hrow, hupdate⟩ := Option.bind_eq_some_iff.1 ht'
      let changed : TagDictionary → TagDictionary := fun r => { r with isDeprecated := true }
      have hkb : ∀ r, (changed r).kbId = r.kbId := fun _ => rfl
      refine (hquiet t').trans ((updateRow_clean_iff (f := changed) hclean hrow hkb hupdate).trans ?_)
      exact iff_of_true (fun hfalse => nomatch hfalse) trivial
  | normalizeTags raws allowCreate =>
      obtain ⟨u, hu, rfl⟩ := Option.map_eq_some_iff.1 hs'
      exact normalizeTags_settled_iff h hu

theorem settled_empty (special : String → Nat → List Char) : Settled special {} := by
  rw [settled_iff]
  refine ⟨fun kbId => ⟨?_, ?_⟩, ?_⟩
  · intro r hr
    cases hr
  · intro r hr
    cases hr
  · intro kbId canonical h
    cases h

/-- Every dictionary of a run from the empty one is unambiguous, and normalizes what it returns to
itself, exactly when each call gives names that are free. -/
theorem settled_visits_iff (special : String → Nat → List Char) (requests : List (Nat × TagCall)) :
    Visits (tagStep special) (Settled special) {} requests ↔
      EveryStep (tagStep special) (KeepsApart special) {} requests :=
  visits_iff_everyStep (fun _ _ _ h hs' => tagStep_settled_iff h hs') (settled_empty special) requests

end States

/-! ## An alias that is another row's canonical -/

def shadowingAlias : List (Nat × TagCall) := [(0, .create "ops" none), (0, .create "sre" (some ["Ops"]))]

theorem shadowingAlias_rows :
    (runSteps (tagStep fun _ _ => []) {} shadowingAlias).map (fun s => s.table.active 0) = some
      [{ id := 0, kbId := 0, canonical := "ops" },
        { id := 1, kbId := 0, canonical := "sre", aliases := ["Ops"] }] :=
  rfl

/-- Both rows claim the tag. -/
theorem alias_shadows_canonical : ¬ ∀ (special : String → Nat → List Char)
    (requests : List (Nat × TagCall)), Visits (tagStep special) (Settled special) {} requests := by
  intro hall
  obtain ⟨s', hrun, hrows⟩ := Option.map_eq_some_iff.1 shadowingAlias_rows
  have hsettled := (hall (fun _ _ => []) shadowingAlias).last hrun
  have hunambiguous := hsettled.unambiguous 0
  rw [hrows] at hunambiguous
  have hsame := hunambiguous _ List.mem_cons_self _ (List.mem_cons_of_mem _ List.mem_cons_self) "ops"
    (by decide) (by decide)
  exact absurd (congrArg TagDictionary.id hsame) (by decide)

end OpsKnowledge.Tagging
