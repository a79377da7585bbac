import OpsKnowledge.Tagging.Backfill
import OpsKnowledge.Tagging.ChunkTagAgreement

/-!
# Runs of backfills

A name that the dictionary has given up is one that a queued backfill takes away, and what a backfill
writes is a name of the dictionary or is taken away by a later one.
-/

namespace OpsKnowledge.Tagging

open OpsKnowledge.Lib
open OpsKnowledge.Knowledge

/-! ## Names -/

theorem mem_rewriteTags {mapping : Dict String String} {tags : List String} {tag : String}
    (h : tag ∈ rewriteTags mapping tags) : ∃ old ∈ tags, (mapping.get? old).getD old = tag := by
  have hmap : tag ∈ tags.map fun old => (mapping.get? old).getD old := by
    unfold rewriteTags at h
    dsimp only at h
    split at h
    · next heq =>
        rw [heq]
        exact h
    · exact (List.mem_filter.1 (List.mem_eraseDups.1 h)).1
  exact List.mem_map.1 hmap

theorem mem_computeChunkTags {tags autoTags : List String} {tag : String}
    (hshort : ∀ name ∈ tags ++ autoTags, name.length ≤ 64) (h : tag ∈ computeChunkTags tags autoTags) :
    tag ∈ tags ++ autoTags := by
  obtain ⟨name, hname, rfl⟩ := List.mem_map.1 h
  have hmem : name ∈ tags ++ autoTags := (List.mem_filter.1 (List.mem_eraseDups.1 hname)).1
  rw [slice_of_short (hshort name hmem)]
  exact hmem

theorem length_slice (name : String) : (slice name 0 64).length ≤ 64 := by
  unfold slice
  rw [String.length_ofList, List.length_take]
  omega

theorem length_of_created {special : String → Nat → List Char} {allowCreate : Bool}
    {mapping : Dict String String} {raws : List String} {name : String}
    (h : name ∈ created special allowCreate mapping raws) : name.length ≤ 64 := by
  induction raws generalizing mapping with
  | nil => simp [created] at h
  | cons raw raws ih =>
      cases allowCreate with
      | false =>
          rw [created_false] at h
          cases h
      | true =>
          by_cases hkey : canonicalizeInput special raw = ""
          · rw [created_of_known (.inl hkey)] at h
            exact ih h
          · cases hget : mapping.get? (canonicalizeInput special raw) with
            | some c =>
                rw [created_of_known (.inr (by rw [hget]; rfl))] at h
                exact ih h
            | none =>
                rw [created_of_new hkey hget] at h
                rcases List.mem_cons.1 h with rfl | h
                · exact length_slice _
                · exact ih h

/-- What the lookup map finds is the canonical of one of its rows. -/
theorem mem_of_get?_loadDict {special : String → Nat → List Char} {rows : List TagDictionary}
    {key canonical : String} (h : (loadDict special rows).get? key = some canonical) :
    ∃ r ∈ rows, r.canonical = canonical := by
  obtain ⟨r, hr, -, hcanonical⟩ := mem_pairs.1 (Dict.mem_of_get?_ofList h)
  exact ⟨r, hr, hcanonical⟩

namespace TagGovernance

variable {special : String → Nat → List Char} {s s' : TagGovernance} {kbId : Nat} {name : String}

/-! ## The invariant -/

/-- A name that may be there still: the dictionary has it, or one of the backfills takes it away. -/
def Due (s : TagGovernance) (later : List Backfill) (kbId : Nat) (name : String) : Prop :=
  name.length ≤ 64 ∧ (s.Known kbId name ∨ ∃ b ∈ later, Rewrites b kbId name)

/-- What a backfill writes is due over the later ones. -/
def Chained (s : TagGovernance) : List Backfill → Prop
  | [] => True
  | b :: later =>
      (∀ old new, b.mapping.get? old = some new → s.Due later b.kbId new) ∧ s.Chained later

/-- The names in the tables and in the hands of extractions. -/
structure Names (s : TagGovernance) (p : Nat → String → Prop) : Prop where
  tags : ∀ e ∈ s.stores.tables.entries, ∀ tag ∈ e.tags, p e.knowledgeBaseId tag
  chunkTags : ∀ c ∈ s.stores.tables.chunks, ∀ tag ∈ c.chunkTags, p c.knowledgeBaseId tag
  found : ∀ run ∈ s.stores.extractions, ∀ found, run.found = some found → ∀ kbId,
    s.extractionKb run = some kbId → ∀ tag ∈ found, p kbId tag

structure Tracked (s : TagGovernance) : Prop where
  valid : s.stores.tables.Valid
  entries : (s.stores.tables.entries.map KnowledgeEntry.id).Nodup
  short : ∀ r ∈ s.dictionary.rows, r.canonical.length ≤ 64
  names : s.Names (s.Due s.backfills)
  chained : s.Chained s.backfills

theorem Names.mono {p q : Nat → String → Prop} (hpq : ∀ kbId name, p kbId name → q kbId name)
    (h : s.Names p) : s.Names q where
  tags := fun e he tag htag => hpq _ _ (h.tags e he tag htag)
  chunkTags := fun c hc tag htag => hpq _ _ (h.chunkTags c hc tag htag)
  found := fun run hrun found hfound kbId hkb tag htag =>
    hpq _ _ (h.found run hrun found hfound kbId hkb tag htag)

theorem Due.mono {later later' : List Backfill} (hsub : later ⊆ later') (h : s.Due later kbId name) :
    s.Due later' kbId name := by
  obtain ⟨hshort, hknown | ⟨b, hb, hrewrites⟩⟩ := h
  · exact ⟨hshort, .inl hknown⟩
  · exact ⟨hshort, .inr ⟨b, hsub hb, hrewrites⟩⟩

theorem Tracked.length_of_known (h : s.Tracked) (hknown : s.Known kbId name) : name.length ≤ 64 := by
  obtain ⟨r, hr, -, rfl, -⟩ := hknown
  exact h.short r hr

theorem Active.known (h : s.Active kbId name) : s.Known kbId name := by
  obtain ⟨r, hr, hkb, hname, hactive⟩ := h
  exact ⟨r, hr, hkb, hname, .inl hactive⟩

theorem Settled.tracked (h : s.Settled) : s.Tracked := by
  have hdue : ∀ kbId name, s.Active kbId name → s.Due s.backfills kbId name := by
    intro kbId name hactive
    obtain ⟨r, hr, -, rfl, -⟩ := hactive.known
    exact ⟨h.short r hr, .inl hactive.known⟩
  refine ⟨h.valid, h.entries, h.short, ⟨?_, ?_, ?_⟩, ?_⟩
  · intro e he tag htag
    exact hdue _ _ (h.active.tags e he tag htag)
  · intro c hc tag htag
    exact hdue _ _ (h.active.chunkTags c hc tag htag)
  · intro run hrun
    rw [h.idle.extractions] at hrun
    cases hrun
  · rw [h.idle.backfills]
    trivial

/-- Without backfills nothing takes a name away. -/
theorem Tracked.allKnown (h : s.Tracked) (hidle : s.backfills = []) : s.AllKnown := by
  have hknown : ∀ kbId name, s.Due s.backfills kbId name → s.Known kbId name := by
    intro kbId name hdue
    rw [hidle] at hdue
    obtain ⟨-, hknown | ⟨b, hb, -⟩⟩ := hdue
    · exact hknown
    · cases hb
  have hnames := h.names.mono hknown
  exact ⟨hnames.tags, hnames.chunkTags⟩

/-! ## Changes of the dictionary -/

/-- The names that go are those that the queued backfills take away. -/
def Hands (s s' : TagGovernance) (queued : List Backfill) : Prop :=
  ∀ kbId name, s.Known kbId name → s'.Known kbId name ∨ ∃ b ∈ queued, Rewrites b kbId name

theorem Due.append {queued later : List Backfill} (hhands : Hands s s' queued)
    (h : s.Due later kbId name) : s'.Due (later ++ queued) kbId name := by
  obtain ⟨hshort, hknown | ⟨b, hb, hrewrites⟩⟩ := h
  · rcases hhands kbId name hknown with hknown' | ⟨b, hb, hrewrites⟩
    · exact ⟨hshort, .inl hknown'⟩
    · exact ⟨hshort, .inr ⟨b, List.mem_append_right _ hb, hrewrites⟩⟩
  · exact ⟨hshort, .inr ⟨b, List.mem_append_left _ hb, hrewrites⟩⟩

theorem Chained.append {queued later : List Backfill} (hhands : Hands s s' queued)
    (h : s.Chained later) (hqueued : s'.Chained queued) : s'.Chained (later ++ queued) := by
  induction later with
  | nil => exact hqueued
  | cons b later ih =>
      obtain ⟨htargets, hlater⟩ := h
      constructor
      · intro old new hget
        exact (htargets old new hget).append hhands
      · exact ih hlater

theorem Chained.mono {later : List Backfill}
    (hknown : ∀ kbId name, s.Known kbId name → s'.Known kbId name) (h : s.Chained later) :
    s'.Chained later := by
  have hhands : Hands s s' [] := fun kbId name hname => .inl (hknown kbId name hname)
  have happend := Chained.append hhands h trivial
  rw [List.append_nil] at happend
  exact happend

theorem Tracked.commit (h : s.Tracked) (queued : List Backfill) (hhands : Hands s s' queued)
    (hstores : s'.stores = s.stores) (hbackfills : s'.backfills = s.backfills ++ queued)
    (hshort : ∀ r ∈ s'.dictionary.rows, r.canonical.length ≤ 64) (hqueued : s'.Chained queued) :
    s'.Tracked := by
  have hdue : ∀ kbId name, s.Due s.backfills kbId name → s'.Due s'.backfills kbId name := by
    intro kbId name hname
    rw [hbackfills]
    exact hname.append hhands
  have hnames : s.Names (s'.Due s'.backfills) := h.names.mono hdue
  refine ⟨?_, ?_, hshort, ⟨?_, ?_, ?_⟩, ?_⟩
  · rw [hstores]
    exact h.valid
  · rw [hstores]
    exact h.entries
  · rw [hstores]
    exact hnames.tags
  · rw [hstores]
    exact hnames.chunkTags
  · unfold extractionKb
    rw [hstores]
    exact hnames.found
  · rw [hbackfills]
    exact h.chained.append hhands hqueued

/-- A backfill that writes one name of the dictionary over others. -/
theorem chained_singleton {pairs : List (String × String)} {target : String}
    (hshort : target.length ≤ 64) (hknown : s.Known kbId target)
    (hpairs : ∀ pair ∈ pairs, pair.2 = target) :
    s.Chained [{ kbId := kbId, mapping := .ofList pairs }] := by
  refine ⟨?_, trivial⟩
  intro old new hget
  have hnew := hpairs _ (Dict.mem_of_get?_ofList hget)
  dsimp only at hnew
  rw [hnew]
  exact ⟨hshort, .inl hknown⟩

theorem rewrites_ofList {pairs : List (String × String)} (h : name ∈ pairs.map Prod.fst) :
    Rewrites { kbId := kbId, mapping := .ofList pairs } kbId name := by
  refine ⟨rfl, ?_⟩
  rw [Option.isSome_iff_exists, ← Dict.mem_keys_iff, Dict.mem_keys_ofList]
  exact h

theorem Tracked.rename (h : s.Tracked) {dictId : Nat} {canonical : String}
    (hs' : s.rename kbId dictId canonical = some s') : s'.Tracked := by
  obtain ⟨⟨dictionary, queued⟩, hrename, rfl⟩ := Option.map_eq_some_iff.1 hs'
  obtain ⟨row, hrow, hid, hkb, ⟨rfl, rfl⟩ | ⟨hrows, rfl⟩⟩ := rename_eq_some hrename
  · refine h.commit _ ?_ rfl rfl h.short trivial
    rintro _ _ ⟨r, hr, hrkb, hname, hkept⟩
    exact .inl ⟨r, hr, hrkb, hname, hkept.imp id (List.mem_cons_of_mem dictId)⟩
  · refine h.commit _ ?_ rfl rfl ?_ ?_
    · rintro _ _ ⟨r, hr, rfl, rfl, hkept⟩
      by_cases hrid : r.id = dictId
      · right
        obtain rfl := eq_of_id hr hrow (hrid.trans hid.symm)
        rw [hkb]
        exact ⟨_, List.mem_singleton_self _, rewrites_ofList (List.mem_singleton_self _)⟩
      · left
        refine ⟨r, ?_, rfl, rfl, hkept.imp id (List.mem_cons_of_mem dictId)⟩
        show r ∈ dictionary.rows
        rw [hrows]
        refine List.mem_map.2 ⟨r, hr, ?_⟩
        rw [if_neg hrid]
    · intro r' hr'
      change r' ∈ dictionary.rows at hr'
      rw [hrows] at hr'
      obtain ⟨r, hr, rfl⟩ := List.mem_map.1 hr'
      split
      · exact length_slice _
      · exact h.short r hr
    · apply chained_singleton (length_slice _)
      · refine ⟨{ row with
            canonical := slice (strip canonical) 0 64
            aliases := TagTable.renamedAliases row }, ?_, hkb, rfl, .inr ?_⟩
        · show _ ∈ dictionary.rows
          rw [hrows]
          refine List.mem_map.2 ⟨row, hrow, ?_⟩
          rw [if_pos hid]
        · show row.id ∈ dictId :: s.retained
          rw [hid]
          exact List.mem_cons_self
      · intro pair hpair
        rw [List.mem_singleton.1 hpair]

theorem Tracked.merge (h : s.Tracked) {sourceIds : List Nat} {targetId : Nat}
    (hs' : s.merge kbId sourceIds targetId = some s') : s'.Tracked := by
  obtain ⟨⟨dictionary, queued⟩, hmerge, rfl⟩ := Option.map_eq_some_iff.1 hs'
  -- a row that is no source stays as known as it was
  have hkeep : ∀ r : TagDictionary, r.id ∉ sourceIds → r.isDeprecated = false ∨ r.id ∈ s.retained →
      r.isDeprecated = false ∨ r.id ∈ targetId :: s.retained.filter (· ∉ sourceIds) := by
    intro r hout hkept
    apply hkept.imp id
    intro hretained
    exact List.mem_cons_of_mem _ (List.mem_filter.2 ⟨hretained, decide_eq_true hout⟩)
  obtain ⟨target, htarget, hid, hkb, hhome, ⟨rfl, rfl, hout⟩ | ⟨-, hrows, rfl⟩⟩ := merge_eq_some hmerge
  · refine h.commit _ ?_ rfl rfl h.short trivial
    rintro _ _ ⟨r, hr, hrkb, hname, hkept⟩
    exact .inl ⟨r, hr, hrkb, hname, hkeep r (hout r hr) hkept⟩
  · refine h.commit _ ?_ rfl rfl ?_ ?_
    · rintro _ _ ⟨r, hr, rfl, rfl, hkept⟩
      by_cases hin : r.id ∈ sourceIds
      · right
        rw [hhome r hr hin]
        refine ⟨_, List.mem_singleton_self _, rewrites_ofList ?_⟩
        rw [List.map_map]
        exact List.mem_map.2 ⟨r, List.mem_filter.2 ⟨hr, decide_eq_true hin⟩, rfl⟩
      · left
        have hmem : (if r.id = targetId then
            { r with
              aliases := TagTable.mergedAliases target
                (s.dictionary.rows.filter fun r => r.id ∈ sourceIds) }
            else if r.id ∈ sourceIds then { r with isDeprecated := true } else r) ∈
              dictionary.rows := by
          rw [hrows]
          exact List.mem_map.2 ⟨r, hr, rfl⟩
        refine ⟨_, hmem, ?_⟩
        by_cases hrid : r.id = targetId
        · rw [if_pos hrid]
          exact ⟨rfl, rfl, hkeep r hin hkept⟩
        · rw [if_neg hrid, if_neg hin]
          exact ⟨rfl, rfl, hkeep r hin hkept⟩
    · intro r' hr'
      change r' ∈ dictionary.rows at hr'
      rw [hrows] at hr'
      obtain ⟨r, hr, rfl⟩ := List.mem_map.1 hr'
      have hshort := h.short r hr
      split
      · exact hshort
      · split
        · exact hshort
        · exact hshort
    · apply chained_singleton (h.short target htarget)
      · refine ⟨{ target with
            aliases := TagTable.mergedAliases target
              (s.dictionary.rows.filter fun r => r.id ∈ sourceIds) }, ?_, hkb, rfl, .inr ?_⟩
        · show _ ∈ dictionary.rows
          rw [hrows]
          refine List.mem_map.2 ⟨target, htarget, ?_⟩
          rw [if_pos hid]
        · show target.id ∈ targetId :: _
          rw [hid]
          exact List.mem_cons_self
      · intro pair hpair
        obtain ⟨source, -, rfl⟩ := List.mem_map.1 hpair
        rfl

theorem Tracked.softDelete (h : s.Tracked) {dictId : Nat} (hs' : s.softDelete kbId dictId = some s') :
    s'.Tracked := by
  obtain ⟨row, hrow, hs'⟩ := Option.bind_eq_some_iff.1 hs'
  obtain ⟨hmem, hid, -⟩ := getOwn_eq_some.1 hrow
  obtain ⟨dictionary, hdelete, rfl⟩ := Option.map_eq_some_iff.1 hs'
  have hrows := softDelete_eq_some hdelete
  let retained := if row.isDeprecated then s.retained else dictId :: s.retained
  have hretained : ∀ i ∈ s.retained, i ∈ retained := by
    intro i hi
    show i ∈ if _ then _ else _
    split
    · exact hi
    · exact List.mem_cons_of_mem _ hi
  refine h.commit [] ?_ rfl (List.append_nil _).symm ?_ trivial
  · rintro _ _ ⟨r, hr, rfl, rfl, hkept⟩
    left
    have hrow' : (if r.id = dictId then { r with isDeprecated := true } else r) ∈ dictionary.rows := by
      rw [hrows]
      exact List.mem_map.2 ⟨r, hr, rfl⟩
    refine ⟨_, hrow', ?_⟩
    by_cases hrid : r.id = dictId
    · obtain rfl := eq_of_id hr hmem (hrid.trans hid.symm)
      rw [if_pos hrid]
      refine ⟨rfl, rfl, .inr ?_⟩
      show r.id ∈ retained
      cases hdeprecated : r.isDeprecated with
      | false =>
          show r.id ∈ if r.isDeprecated then s.retained else dictId :: s.retained
          rw [hdeprecated, hrid]
          exact List.mem_cons_self
      | true =>
          rw [hdeprecated] at hkept
          exact hretained _ (hkept.resolve_left Bool.noConfusion)
    · rw [if_neg hrid]
      exact ⟨rfl, rfl, hkept.imp id (hretained _)⟩
  · intro r' hr'
    change r' ∈ dictionary.rows at hr'
    rw [hrows] at hr'
    obtain ⟨r, hr, rfl⟩ := List.mem_map.1 hr'
    have hshort := h.short r hr
    split
    · exact hshort
    · exact hshort

/-! ## Backfills -/

/-- The other backfills still take the name away. -/
theorem Due.erase {later : List Backfill} {k : Nat} {b : Backfill} (hb : later[k]? = some b)
    (hout : ¬ Rewrites b kbId name) (h : s.Due later kbId name) : s.Due (later.eraseIdx k) kbId name := by
  obtain ⟨hshort, hknown | ⟨b', hb', hrewrites⟩⟩ := h
  · exact ⟨hshort, .inl hknown⟩
  · obtain ⟨i, hi⟩ := List.getElem?_of_mem hb'
    have hne : i ≠ k := by
      rintro rfl
      rw [hb] at hi
      cases hi
      exact hout hrewrites
    exact ⟨hshort, .inr ⟨b', List.mem_eraseIdx_iff_getElem?.2 ⟨i, hne, hi⟩, hrewrites⟩⟩

theorem Chained.target {later : List Backfill} {k : Nat} {b : Backfill} (hb : later[k]? = some b)
    {old new : String} (hget : b.mapping.get? old = some new) (h : s.Chained later) :
    s.Due (later.eraseIdx k) b.kbId new := by
  induction later generalizing k with
  | nil => cases hb
  | cons a later ih =>
      obtain ⟨htargets, hlater⟩ := h
      cases k with
      | zero =>
          cases hb
          exact htargets old new hget
      | succ k => exact (ih hb hlater).mono (List.subset_cons_self a _)

/-- The earlier backfills write no name that the one that leaves takes away. -/
theorem Chained.erase {later : List Backfill} {k : Nat} {b : Backfill} (hb : later[k]? = some b)
    (horder : ∀ earlier ∈ later.take k, ∀ old new, earlier.mapping.get? old = some new →
      ¬ Rewrites b earlier.kbId new) (h : s.Chained later) : s.Chained (later.eraseIdx k) := by
  induction later generalizing k with
  | nil => cases hb
  | cons a later ih =>
      obtain ⟨htargets, hlater⟩ := h
      cases k with
      | zero => exact hlater
      | succ k =>
          constructor
          · intro old new hget
            have hout := horder a List.mem_cons_self old new hget
            exact (htargets old new hget).erase hb hout
          · apply ih hb _ hlater
            intro earlier hearlier
            exact horder earlier (List.mem_cons_of_mem a hearlier)

/-- A column after the backfill that writes it, or that is of another base. -/
theorem Chained.rewritten {later : List Backfill} {k : Nat} {b : Backfill} (hb : later[k]? = some b)
    (h : s.Chained later) {tags tags' : List String} (htags : ∀ tag ∈ tags, s.Due later kbId tag)
    (hwrite : kbId = b.kbId ∧ tags' = rewriteTags b.mapping tags ∨ kbId ≠ b.kbId ∧ tags' = tags) :
    ∀ tag ∈ tags', s.Due (later.eraseIdx k) kbId tag := by
  intro tag htag
  rcases hwrite with ⟨rfl, rfl⟩ | ⟨hkb, rfl⟩
  · obtain ⟨old, hold, rfl⟩ := mem_rewriteTags htag
    cases hget : b.mapping.get? old with
    | some new => exact h.target hb hget
    | none =>
        apply (htags old hold).erase hb
        rintro ⟨-, hsome⟩
        rw [hget] at hsome
        cases hsome
  · apply (htags tag htag).erase hb
    rintro ⟨hsame, -⟩
    exact hkb hsame.symm

/-- Entries stay in their bases. -/
theorem entryKb_backfill (stores : TagStores) (b : Backfill) (i : Nat) :
    ((stores.backfill b).tables.getEntry i).map KnowledgeEntry.knowledgeBaseId =
      (stores.tables.getEntry i).map KnowledgeEntry.knowledgeBaseId := by
  let write : KnowledgeEntry → KnowledgeEntry := fun e =>
    if e.knowledgeBaseId = b.kbId then { e with tags := rewriteTags b.mapping e.tags } else e
  have hkeys : ∀ e, (write e).id = e.id ∧ (write e).knowledgeBaseId = e.knowledgeBaseId := by
    intro e
    unfold write
    split
    · exact ⟨rfl, rfl⟩
    · exact ⟨rfl, rfl⟩
  have hentries : (stores.backfill b).tables.entries = stores.tables.entries.map write := by
    show updateWhere _ _ _ = _
    unfold updateWhere
    simp only [decide_eq_true_eq]
    rfl
  have hid : ((fun e : KnowledgeEntry => decide (e.id = i)) ∘ write) = fun e => decide (e.id = i) := by
    funext e
    show decide ((write e).id = i) = _
    rw [(hkeys e).1]
  unfold Tables.getEntry
  rw [hentries, List.find?_map, Option.map_map, hid]
  congr 1
  funext e
  exact (hkeys e).2

theorem valid_backfill {stores : TagStores} (h : stores.tables.Valid) (b : Backfill) :
    (stores.backfill b).tables.Valid := by
  refine h.write ⟨le_rfl, rfl, ?_⟩ rfl fun _ => ⟨rfl, rfl, rfl, rfl⟩
  funext unitType unitId
  cases unitType with
  | document => rfl
  | entry => exact entryKb_backfill stores b unitId

theorem Tracked.backfill (h : s.Tracked) {k : Nat} (horder : s.InOrder (.backfill k))
    (hs' : s.backfill k = some s') : s'.Tracked := by
  obtain ⟨b, hb, rfl⟩ := Option.map_eq_some_iff.1 hs'
  obtain ⟨hearlier, hhands⟩ := horder b hb
  have hids : (s.stores.backfill b).tables.entries.map KnowledgeEntry.id =
      s.stores.tables.entries.map KnowledgeEntry.id :=
    map_updateWhere fun _ => rfl
  refine ⟨valid_backfill h.valid b, ?_, h.short, ⟨?_, ?_, ?_⟩, ?_⟩
  · rw [hids]
    exact h.entries
  · intro e' he'
    obtain ⟨e, he, rfl⟩ := mem_updateWhere.1 he'
    have htags := h.names.tags e he
    by_cases hkb : e.knowledgeBaseId = b.kbId
    · rw [if_pos (decide_eq_true hkb)]
      exact h.chained.rewritten hb htags (.inl ⟨hkb, rfl⟩)
    · rw [if_neg (by simpa using hkb)]
      exact h.chained.rewritten hb htags (.inr ⟨hkb, rfl⟩)
  · intro c' hc'
    obtain ⟨c, hc, rfl⟩ := mem_updateWhere.1 hc'
    have htags := h.names.chunkTags c hc
    by_cases hkb : c.knowledgeBaseId = b.kbId
    · rw [if_pos (decide_eq_true hkb)]
      exact h.chained.rewritten hb htags (.inl ⟨hkb, rfl⟩)
    · rw [if_neg (by simpa using hkb)]
      exact h.chained.rewritten hb htags (.inr ⟨hkb, rfl⟩)
  · intro run hrun found hfound kbId hkb tag htag
    have hkb' : s.extractionKb run = some kbId := by
      rw [← hkb]
      exact (entryKb_backfill s.stores b run.entryId).symm
    apply (h.names.found run hrun found hfound kbId hkb' tag htag).erase hb
    exact hhands run hrun found hfound kbId hkb' tag htag
  · exact Chained.mono (s := s) (fun _ _ => id) (h.chained.erase hb hearlier)

/-! ## Extractions -/

/-- A step of the stores. -/
theorem Tracked.stores (h : s.Tracked) {stores : TagStores} (hvalid : stores.tables.Valid)
    (hids : stores.tables.entries.map KnowledgeEntry.id = s.stores.tables.entries.map KnowledgeEntry.id)
    (hnames : Names { s with stores := stores } (s.Due s.backfills)) :
    Tracked { s with stores := stores } := by
  refine ⟨hvalid, ?_, h.short, hnames, ?_⟩
  · rw [hids]
    exact h.entries
  · exact Chained.mono (s := s) (fun _ _ => id) h.chained

/-- A step that leaves the tables as they are. -/
theorem Tracked.sameTables (h : s.Tracked) {stores : TagStores} (htables : stores.tables = s.stores.tables)
    (hfound : ∀ run ∈ stores.extractions, ∀ found, run.found = some found → ∀ kbId,
      s.extractionKb run = some kbId → ∀ tag ∈ found, s.Due s.backfills kbId tag) :
    Tracked { s with stores := stores } := by
  apply h.stores
  · rw [htables]
    exact h.valid
  · rw [htables]
  · refine ⟨?_, ?_, ?_⟩
    · rw [htables]
      exact h.names.tags
    · rw [htables]
      exact h.names.chunkTags
    · unfold extractionKb
      dsimp only
      rw [htables]
      exact hfound

theorem Tracked.startExtract (h : s.Tracked) {entryId : Nat}
    (hs' : s.withStores (s.stores.startExtract entryId) = some s') : s'.Tracked := by
  obtain ⟨stores, hstores, rfl⟩ := Option.map_eq_some_iff.1 hs'
  obtain ⟨entry, -, rfl⟩ := Option.map_eq_some_iff.1 hstores
  refine h.sameTables rfl ?_
  intro run hrun found hfound
  rcases mem_concat.1 hrun with hrun | rfl
  · exact h.names.found run hrun found hfound
  · cases hfound

theorem Tracked.failExtract (h : s.Tracked) (k : Nat) :
    Tracked { s with stores := s.stores.failExtract k } := by
  refine h.sameTables rfl ?_
  intro run hrun
  exact h.names.found run (List.mem_of_mem_eraseIdx hrun)

/-- What the normalizer returns are names of active rows, those that it creates among them. -/
theorem known_normalized {kbId : Nat} {raws : List String} {tie : TagDictionary → Nat}
    {normalized : Normalizing}
    (h : normalizeTags special kbId true s.dictionary
      (loadDict special (orderBy tie (s.dictionary.active kbId))) raws = some normalized) :
    ∀ tag ∈ normalized.result, Known { s with dictionary := normalized.table } kbId tag := by
  obtain ⟨rows, hrows, hcreated, hnew⟩ := normalizeTags_rows h
  dsimp only at hrows hcreated
  intro tag htag
  rcases (normalizeTags_result h tag).1 htag with hold | ⟨raw, -, -, hget⟩ | hcreate
  · cases hold
  · obtain ⟨r, hr, hname⟩ := mem_of_get?_loadDict hget
    obtain ⟨hmem, hkb, hactive⟩ := mem_active.1 (mem_orderBy.1 hr)
    refine ⟨r, ?_, hkb, hname, .inl hactive⟩
    show r ∈ normalized.table.rows
    rw [hrows]
    exact List.mem_append_left _ hmem
  · rw [← hcreated] at hcreate
    obtain ⟨r, hr, hname⟩ := List.mem_map.1 hcreate
    obtain ⟨hkb, -, hactive⟩ := hnew r hr
    refine ⟨r, ?_, hkb, hname, .inl hactive⟩
    show r ∈ normalized.table.rows
    rw [hrows]
    exact List.mem_append_right _ hr

theorem Tracked.normalized (h : s.Tracked) {kbId : Nat} {raws : List String}
    {tie : TagDictionary → Nat} {normalized : Normalizing}
    (hnormalized : normalizeTags special kbId true s.dictionary
      (loadDict special (orderBy tie (s.dictionary.active kbId))) raws = some normalized) :
    Tracked { s with dictionary := normalized.table } := by
  obtain ⟨rows, hrows, hcreated, -⟩ := normalizeTags_rows hnormalized
  dsimp only at hrows hcreated
  refine h.commit [] ?_ rfl (List.append_nil _).symm ?_ trivial
  · rintro _ _ ⟨r, hr, hrkb, hname, hkept⟩
    refine .inl ⟨r, ?_, hrkb, hname, hkept⟩
    show r ∈ normalized.table.rows
    rw [hrows]
    exact List.mem_append_left _ hr
  · intro r hr
    change r ∈ normalized.table.rows at hr
    rw [hrows] at hr
    rcases List.mem_append.1 hr with hr | hr
    · exact h.short r hr
    · have hname := List.mem_map_of_mem (f := TagDictionary.canonical) hr
      rw [hcreated] at hname
      exact length_of_created hname

theorem Tracked.normalizeExtract (h : s.Tracked) {k : Nat} {raws found : List String}
    {tie : TagDictionary → Nat} (hs' : s.normalizeExtract special k raws found tie = some s') :
    s'.Tracked := by
  obtain ⟨run, hrun, hs'⟩ := Option.bind_eq_some_iff.1 hs'
  obtain ⟨kbId, hkb, hs'⟩ := Option.bind_eq_some_iff.1 hs'
  obtain ⟨normalized, hnormalized, hs'⟩ := Option.bind_eq_some_iff.1 hs'
  obtain ⟨stores, hstores, hs'⟩ := Option.bind_eq_some_iff.1 hs'
  have htracked := h.normalized hnormalized
  obtain ⟨run', hrun', hset⟩ := Option.bind_eq_some_iff.1 hstores
  rw [hrun] at hrun'
  cases hrun'
  split at hs'
  · next hall =>
      cases hs'
      split at hset
      · cases hset
      · cases hset
        refine htracked.sameTables rfl ?_
        intro other hother names hnames kbId' hkb' tag htag
        rcases List.mem_or_eq_of_mem_set hother with hold | rfl
        · exact htracked.names.found other hold names hnames kbId' hkb' tag htag
        · cases hnames
          have hsame : some kbId' = some kbId := hkb'.symm.trans hkb
          cases hsame
          have hmem : tag ∈ normalized.result := by
            have htrue := List.all_eq_true.1 hall tag htag
            exact of_decide_eq_true htrue
          have hknown := known_normalized hnormalized tag hmem
          exact ⟨htracked.length_of_known hknown, .inl hknown⟩
  · cases hs'

theorem Tracked.finishExtract (h : s.Tracked) {k : Nat}
    (hs' : s.withStores (s.stores.finishExtract k) = some s') : s'.Tracked := by
  obtain ⟨stores, hstores, rfl⟩ := Option.map_eq_some_iff.1 hs'
  obtain ⟨run, hrun, hfinish⟩ := Option.bind_eq_some_iff.1 hstores
  obtain ⟨found, hfound, rfl⟩ := Option.map_eq_some_iff.1 hfinish
  have hmem : run ∈ s.stores.extractions := List.mem_of_getElem? hrun
  let left : TagStores := { s.stores with extractions := s.stores.extractions.eraseIdx k }
  have hleft : Tracked { s with stores := left } := by
    refine h.sameTables rfl ?_
    intro other hother
    exact h.names.found other (List.mem_of_mem_eraseIdx hother)
  cases hentry : s.stores.tables.getEntry run.entryId with
  | none =>
      dsimp only
      exact hleft
  | some entry =>
      dsimp only
      obtain ⟨hin, hid⟩ := Tables.getEntry_eq_some hentry
      have hkb : s.extractionKb run = some entry.knowledgeBaseId := by
        unfold extractionKb
        rw [hentry]
        rfl
      -- the names of the entry and of its extraction
      have hdue : ∀ tag ∈ entry.tags ++ found, s.Due s.backfills entry.knowledgeBaseId tag := by
        intro tag htag
        rcases List.mem_append.1 htag with htag | htag
        · exact h.names.tags entry hin tag htag
        · exact h.names.found run hmem found hfound _ hkb tag htag
      have hhome : s.stores.tables.unitKb .entry entry.id = some entry.knowledgeBaseId := by
        show (s.stores.tables.getEntry entry.id).map _ = _
        rw [hid, hentry]
        rfl
      let written : KnowledgeEntry := { entry with autoTags := found }
      have hkbs : ∀ i, ((left.saveTags written).tables.getEntry i).map KnowledgeEntry.knowledgeBaseId =
          (s.stores.tables.getEntry i).map KnowledgeEntry.knowledgeBaseId := by
        intro i
        rw [TagStores.getEntry_saveTags, Option.map_map]
        show (s.stores.tables.getEntry i).map _ = _
        congr 1
        funext e
        show (if _ then _ else _ : KnowledgeEntry).knowledgeBaseId = _
        split
        · rfl
        · rfl
      apply h.stores
      · apply TagStores.valid_writeChunkTags
        exact TagStores.valid_saveTags _ h.valid
      · exact map_updateWhere fun _ => rfl
      · refine ⟨?_, ?_, ?_⟩
        · intro e' he'
          obtain ⟨e, he, rfl⟩ := mem_updateWhere.1 he'
          by_cases hsame : e.id = written.id
          · rw [if_pos (decide_eq_true hsame)]
            obtain rfl : e = entry := List.inj_on_of_nodup_map h.entries he hin hsame
            exact h.names.tags e he
          · rw [if_neg (by simpa using hsame)]
            exact h.names.tags e he
        · intro c' hc'
          obtain ⟨c, hc, rfl⟩ := mem_updateWhere.1 hc'
          cases hunit : c.inUnit .entry written.id with
          | true =>
              have hckb := (h.valid.inUnit_home hhome c hc hunit).2.2
              rw [if_pos rfl]
              intro tag htag
              show s.Due s.backfills c.knowledgeBaseId tag
              rw [hckb]
              exact hdue tag (mem_computeChunkTags (fun name hname => (hdue name hname).1) htag)
          | false =>
              rw [if_neg Bool.false_ne_true]
              exact h.names.chunkTags c hc
        · intro other hother names hnames kbId' hkb'
          have hkb'' : s.extractionKb other = some kbId' := (hkbs other.entryId).symm.trans hkb'
          exact h.names.found other (List.mem_of_mem_eraseIdx hother) names hnames kbId' hkb''

/-! ## Runs -/

theorem Tracked.step (h : s.Tracked) {a : GovernanceAction} (horder : s.InOrder a)
    (hs' : s.step special a = some s') : s'.Tracked := by
  cases a with
  | rename kbId dictId canonical => exact h.rename hs'
  | merge kbId sourceIds targetId => exact h.merge hs'
  | softDelete kbId dictId => exact h.softDelete hs'
  | backfill k => exact h.backfill horder hs'
  | startExtract entryId => exact h.startExtract hs'
  | normalizeExtract k raws found tie => exact h.normalizeExtract hs'
  | finishExtract k => exact h.finishExtract hs'
  | failExtract k =>
      cases hs'
      exact h.failExtract k
  | queryTags k =>
      obtain ⟨stores, hstores, rfl⟩ := Option.map_eq_some_iff.1 hs'
      obtain ⟨u, -, hset⟩ := Option.bind_eq_some_iff.1 hstores
      split at hset
      · cases hset
      · cases hset
        exact h.sameTables rfl h.names.found
  | upsertTags k =>
      obtain ⟨stores, hstores, rfl⟩ := Option.map_eq_some_iff.1 hs'
      obtain ⟨u, -, hmap⟩ := Option.bind_eq_some_iff.1 hstores
      obtain ⟨rows, -, rfl⟩ := Option.map_eq_some_iff.1 hmap
      exact h.sameTables rfl h.names.found
  | failTags k =>
      cases hs'
      exact h.sameTables rfl h.names.found

/-- Once the queued backfills have run, in order where they build on one another, every tag of an entry
or a chunk is a name that the dictionary has or retains. -/
theorem allKnown_visits (h : s.Settled) {actions : List GovernanceAction}
    (horder : EveryStep (TagGovernance.step special) InOrder s actions) :
    Visits (TagGovernance.step special) (fun s => s.backfills = [] → s.AllKnown) s actions := by
  have hvisits := horder.visits (fun _ _ _ htracked hin hstep => htracked.step hin hstep) h.tracked
  exact hvisits.mono fun _ htracked => htracked.allKnown

/-- A base whose one entry has the tag of the dictionary. -/
def opsBase : TagGovernance :=
  { dictionary :=
      { rows := [{ id := 0, kbId := 0, canonical := "ops" }]
        next := 1
        nodup := List.nodup_singleton _
        below := by
          intro r hr
          rw [List.mem_singleton.1 hr]
          decide
        unique := List.nodup_singleton _ }
    stores :=
      { tables :=
          { kbs := [{ id := 0 }]
            documents := []
            entries := [{
              id := 1
              knowledgeBaseId := 0
              title := "vpn"
              content := "dial in"
              tags := ["ops"] }]
            next := 2 } } }

theorem settled_opsBase : opsBase.Settled where
  valid :=
    { nodup := List.nodup_nil
      chunks := by
        intro c hc
        cases hc
      units := by
        intro unitType unitId k h
        cases unitType with
        | document => cases h
        | entry =>
            obtain ⟨e, he, rfl⟩ := Option.map_eq_some_iff.1 h
            obtain ⟨hmem, rfl⟩ := Tables.getEntry_eq_some he
            rw [List.mem_singleton.1 hmem]
            exact ⟨by decide, _, List.mem_cons_self, rfl⟩ }
  entries := List.nodup_singleton _
  idle := ⟨rfl, rfl, rfl⟩
  short := by
    intro r hr
    rw [List.mem_singleton.1 hr]
    decide
  active :=
    { tags := by
        intro e he tag htag
        rw [List.mem_singleton.1 he] at htag ⊢
        rw [List.mem_singleton.1 htag]
        exact ⟨_, List.mem_cons_self, rfl, rfl, rfl⟩
      autoTags := by
        intro e he tag htag
        rw [List.mem_singleton.1 he] at htag
        cases htag
      chunkTags := by
        intro c hc
        cases hc
      vectors := by
        intro c hc
        cases hc }

/-- A tag that is renamed twice, and the two backfills one after the other. -/
theorem renamed_twice : Visits (TagGovernance.step fun _ _ => [])
    (fun s => s.backfills = [] → s.AllKnown) opsBase
      [.rename 0 0 "platform", .rename 0 0 "infra", .backfill 0, .backfill 0] := by
  apply allKnown_visits settled_opsBase
  have hidle : ∀ (s : TagGovernance), s.stores.extractions = [] → s.InOrder (.backfill 0) := by
    intro s hnone b _
    rw [hnone]
    constructor
    · intro earlier hearlier
      cases hearlier
    · intro run hrun
      cases hrun
  apply EveryStep.cons_of_eq rfl trivial
  apply EveryStep.cons_of_eq rfl trivial
  apply EveryStep.cons_of_eq rfl (hidle _ rfl)
  apply EveryStep.cons_of_eq rfl (hidle _ rfl)
  exact trivial

/-- A delete leaves the tag on the entry. -/
theorem deleted_tag_stays : ¬ ∀ (special : String → Nat → List Char) (s : TagGovernance)
    (actions : List GovernanceAction), s.Settled →
      Visits (TagGovernance.step special) (fun s => s.Idle → s.AllActive) s actions := by
  intro h
  have hrun : ∃ s e, runSteps (TagGovernance.step fun _ _ => []) opsBase [.softDelete 0 0] = some s ∧
      s.Idle ∧ e ∈ s.stores.tables.entries ∧ "ops" ∈ e.tags ∧
        ∀ r ∈ s.dictionary.rows, r.isDeprecated = true :=
    ⟨_, _, rfl, ⟨rfl, rfl, rfl⟩, List.mem_cons_self, List.mem_cons_self, by decide⟩
  obtain ⟨s, e, hrun, hidle, he, htag, hdeprecated⟩ := hrun
  obtain ⟨r, hr, -, -, hactive⟩ :=
    ((h _ opsBase _ settled_opsBase).last hrun hidle).tags e he "ops" htag
  rw [hdeprecated r hr] at hactive
  cases hactive

end TagGovernance

end OpsKnowledge.Tagging
