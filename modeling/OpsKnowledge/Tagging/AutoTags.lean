import OpsKnowledge.Lib.Double
import OpsKnowledge.Lib.Firsts
import OpsKnowledge.Lib.Transition
import OpsKnowledge.Tagging.Normalizer

/-!
# Auto tags of an entry

What `_run_extract` makes of the candidates of an extractor: it drops those of small
confidence and those that are spelled like a rejected tag, gives the others their
canonicals, and keeps the first ones.
-/

namespace OpsKnowledge.Tagging

open OpsKnowledge.Lib

/-- The confidence is the value of a float; a candidate with no number there never passes. -/
structure TagCandidate where
  tag : String
  confidence : ℚ
  source : String

/-- An item of `auto_tags`. -/
structure AutoTag where
  tag : String
  confidence : ℚ
  source : String
  extractedAt : String

/-- `auto_tag_max_per_unit` and `auto_tag_confidence_threshold`; the first is at least one. -/
structure AutoTagSettings where
  maxPerUnit : Nat
  maxPerUnit_pos : 1 ≤ maxPerUnit
  threshold : ℚ

/-- `round(x, 4)` -/
def round4 (x : ℚ) : ℚ := roundDouble (roundDecimals 4 x)

section Extraction

variable (special : String → Nat → List Char) (settings : AutoTagSettings) (rejected : List String)

/-- `filtered` -/
def passing (candidates : List TagCandidate) : List TagCandidate :=
  candidates.filter fun c => settings.threshold ≤ c.confidence ∧ c.tag ∉ rejected

def autoTag (now : String) (canonical : String) (c : TagCandidate) : AutoTag :=
  { tag := canonical, confidence := round4 c.confidence, source := c.source, extractedAt := now }

/-- The loop that maps the candidates again and makes `out_records`. -/
def outRecords (mapping : Dict String String) (canonSet : List String) (now : String) :
    List String → List AutoTag → List TagCandidate → List AutoTag
  | _, out, [] => out
  | seenCanon, out, c :: candidates =>
      match mapping.get? (canonicalizeInput special c.tag) with
      | none => outRecords mapping canonSet now seenCanon out candidates
      | some canonical =>
          if canonical ∈ seenCanon then outRecords mapping canonSet now seenCanon out candidates
          else if canonical ∉ canonSet then outRecords mapping canonSet now seenCanon out candidates
          else
            let out := out ++ [autoTag now canonical c]
            if settings.maxPerUnit ≤ out.length then out
            else outRecords mapping canonSet now (seenCanon ++ [canonical]) out candidates

/-- `_run_extract`. `mapping` is the map that the normalizer gets, from the cache or the table, and
`reloaded` the one of the second look after the commit. -/
def runExtract (kbId : Nat) (t : TagTable) (mapping reloaded : Dict String String) (now : String)
    (candidates : List TagCandidate) : Option (List AutoTag) :=
  let filtered := passing settings rejected candidates
  (normalizeTags special kbId true t mapping (filtered.map TagCandidate.tag)).map fun normalized =>
    outRecords special settings reloaded normalized.result now [] [] filtered

end Extraction

/-- The columns of an entry that hold what was extracted and what was rejected. -/
structure TaggedEntry where
  autoTags : List AutoTag := []
  rejectedAutoTags : List String := []

namespace TaggedEntry

variable (special : String → Nat → List Char) (e : TaggedEntry)

def rejectAutoTag (tag : String) : TaggedEntry :=
  let tag := strip tag
  { autoTags := e.autoTags.filter fun t => t.tag ≠ tag
    rejectedAutoTags :=
      if tag ∈ e.rejectedAutoTags then e.rejectedAutoTags else e.rejectedAutoTags ++ [tag] }

/-- `extract_auto_tags` with the response of the extractor. -/
def extractAutoTags (settings : AutoTagSettings) (kbId : Nat) (t : TagTable)
    (mapping reloaded : Dict String String) (now : String) (candidates : List TagCandidate) :
    Option TaggedEntry :=
  (runExtract special settings e.rejectedAutoTags kbId t mapping reloaded now candidates).map fun autoTags =>
    { e with autoTags := autoTags }

/-- No stored tag was rejected. -/
def Accepted : Prop := ∀ t ∈ e.autoTags, t.tag ∉ e.rejectedAutoTags

/-- What the settings and the rejections ask of the tags that are stored. -/
structure Lawful (settings : AutoTagSettings) : Prop where
  distinct : (e.autoTags.map AutoTag.tag).Nodup
  few : e.autoTags.length ≤ settings.maxPerUnit
  sure : ∀ t ∈ e.autoTags, settings.threshold ≤ t.confidence
  accepted : e.Accepted

end TaggedEntry

section Condition

variable (special : String → Nat → List Char)

/-- The canonicals that the normalizer finds or makes for tags. -/
def offered (mapping : Dict String String) (raws : List String) : List String :=
  ((raws.map (canonicalizeInput special)).filter (· ≠ "")).filterMap mapping.get? ++
    created special true mapping raws

/-- The canonical of a candidate, by the second look, among the tags of a response. -/
def canonicalOf (mapping reloaded : Dict String String) (raws : List String) (c : TagCandidate) :
    Option String :=
  (reloaded.get? (canonicalizeInput special c.tag)).filter (· ∈ offered special mapping raws)

/-- A candidate that passes, and whose canonical was rejected under another spelling, comes too late.
`key` gives the canonicals. -/
def RespelledLate (settings : AutoTagSettings) (rejected : List String) (key : TagCandidate → Option String)
    (filtered : List TagCandidate) : Prop :=
  ∀ pre c post, filtered = pre ++ c :: post → ∀ canonical ∈ key c, canonical ∈ rejected →
    settings.maxPerUnit ≤ (pre.filterMap key).toFinset.card

/-- So does one that rounding takes below the threshold, where it is the first of its canonical. -/
def RoundedLate (settings : AutoTagSettings) (key : TagCandidate → Option String)
    (filtered : List TagCandidate) : Prop :=
  ∀ pre c post, filtered = pre ++ c :: post → round4 c.confidence < settings.threshold →
    ∀ canonical ∈ key c, canonical ∈ pre.filterMap key ∨
      settings.maxPerUnit ≤ (pre.filterMap key).toFinset.card

namespace TaggedEntry

variable (e : TaggedEntry) (settings : AutoTagSettings) (mapping reloaded : Dict String String)
  (candidates : List TagCandidate)

def filtered : List TagCandidate := passing settings e.rejectedAutoTags candidates

def canonicals : TagCandidate → Option String :=
  canonicalOf special mapping reloaded ((e.filtered settings candidates).map TagCandidate.tag)

def SparesRejected : Prop :=
  RespelledLate settings e.rejectedAutoTags (e.canonicals special settings mapping reloaded candidates)
    (e.filtered settings candidates)

def SparesRounded : Prop :=
  RoundedLate settings (e.canonicals special settings mapping reloaded candidates)
    (e.filtered settings candidates)

end TaggedEntry

end Condition

section Records

variable {special : String → Nat → List Char} {settings : AutoTagSettings} {rejected : List String}
  {mapping reloaded : Dict String String} {raws : List String} {now : String}

theorem mem_offered {canonical : String} : canonical ∈ offered special mapping raws ↔
    Hit special mapping raws canonical ∨ canonical ∈ created special true mapping raws := by
  unfold offered
  rw [List.mem_append]
  apply or_congr _ Iff.rfl
  simp only [List.mem_filterMap, List.mem_filter, List.mem_map, decide_eq_true_eq, Hit]
  constructor
  · rintro ⟨_, ⟨⟨raw, hraw, rfl⟩, hkey⟩, hget⟩
    exact ⟨raw, hraw, hkey, hget⟩
  · rintro ⟨raw, hraw, hkey, hget⟩
    exact ⟨_, ⟨⟨raw, hraw, rfl⟩, hkey⟩, hget⟩

/-- The loop takes the first candidate of each canonical. -/
theorem outRecords_eq {canonSet seen : List String} {out : List AutoTag} {filtered : List TagCandidate}
    (hcanon : ∀ canonical, canonical ∈ canonSet ↔ canonical ∈ offered special mapping raws)
    (hout : out.length = seen.length) :
    outRecords special settings reloaded canonSet now seen out filtered =
      out ++ (firsts (canonicalOf special mapping reloaded raws) settings.maxPerUnit seen filtered).map
        fun p => autoTag now p.1 p.2 := by
  induction filtered generalizing seen out with
  | nil => simp [outRecords, firsts]
  | cons c filtered ih =>
      unfold outRecords firsts canonicalOf
      cases hget : reloaded.get? (canonicalizeInput special c.tag) with
      | none => exact ih hout
      | some canonical =>
          simp only [Option.filter_some]
          by_cases hin : canonical ∈ offered special mapping raws
          · have hset : ¬ canonical ∉ canonSet := not_not.2 ((hcanon canonical).2 hin)
            simp only [hin, hset, decide_true, if_true, if_false]
            split
            · exact ih hout
            · rw [List.length_append, List.length_singleton, hout]
              split
              · simp
              · rw [ih (by simp [hout]), List.append_assoc]
                rfl
          · have hset : canonical ∉ canonSet := mt (hcanon canonical).1 hin
            simp only [hin, hset, decide_false, not_false_eq_true, if_true]
            split
            · exact ih hout
            · exact ih hout

theorem respelledLate_iff {key : TagCandidate → Option String} {filtered : List TagCandidate} :
    RespelledLate settings rejected key filtered ↔
      ∀ canonical c, First key settings.maxPerUnit [] filtered canonical c → canonical ∉ rejected := by
  constructor
  · rintro hlate canonical c ⟨pre, post, heq, hkey, -, hfew⟩ hrejected
    exact absurd (hlate pre c post heq canonical hkey hrejected) (Nat.not_le.2 hfew)
  · intro hfirst pre c post heq canonical hkey hrejected
    by_contra hearly
    obtain ⟨d, hd⟩ : ∃ d, First key settings.maxPerUnit [] (pre ++ c :: post) canonical d :=
      exists_first hkey List.not_mem_nil (Nat.not_le.1 hearly)
    exact hfirst canonical d (heq ▸ hd) hrejected

theorem roundedLate_iff {key : TagCandidate → Option String} {filtered : List TagCandidate} :
    RoundedLate settings key filtered ↔ ∀ canonical c,
      First key settings.maxPerUnit [] filtered canonical c → settings.threshold ≤ round4 c.confidence := by
  constructor
  · rintro hlate canonical c ⟨pre, post, heq, hkey, hnew, hfew⟩
    by_contra hless
    rcases hlate pre c post heq (not_le.1 hless) canonical hkey with hin | hmany
    · exact hnew hin
    · exact absurd hmany (Nat.not_le.2 hfew)
  · intro hfirst pre c post heq hless canonical hkey
    by_contra hneither
    obtain ⟨hnew, hearly⟩ := not_or.1 hneither
    have hc : First key settings.maxPerUnit [] filtered canonical c :=
      ⟨pre, post, heq, hkey, hnew, Nat.not_le.1 hearly⟩
    exact absurd (hfirst canonical c hc) (not_le.2 hless)

theorem round4_mono {x y : ℚ} (h : x ≤ y) : round4 x ≤ round4 y := by
  apply roundDouble_mono
  have hpow : (0 : ℚ) < 10 ^ 4 := by norm_num
  have hscaled : roundHalfEven (x * 10 ^ 4) ≤ roundHalfEven (y * 10 ^ 4) :=
    roundHalfEven_mono (mul_le_mul_of_nonneg_right h hpow.le)
  exact div_le_div_of_nonneg_right (by exact_mod_cast hscaled) hpow.le

/-- A threshold of four decimals is kept by the rounding. -/
theorem roundedLate_of_decimal {key : TagCandidate → Option String} {candidates : List TagCandidate}
    (h : round4 settings.threshold = settings.threshold) :
    RoundedLate settings key (passing settings rejected candidates) := by
  intro pre c post heq hless
  have hc : c ∈ passing settings rejected candidates := heq ▸ List.mem_append_right _ List.mem_cons_self
  have hsure : settings.threshold ≤ c.confidence := by
    have hpass := (List.mem_filter.1 hc).2
    rw [decide_eq_true_eq] at hpass
    exact hpass.1
  have hkept := round4_mono hsure
  rw [h] at hkept
  exact absurd hless (not_lt.2 hkept)

variable {kbId : Nat} {t : TagTable} {candidates : List TagCandidate} {e e' : TaggedEntry}

theorem runExtract_eq_some {tags : List AutoTag}
    (h : runExtract special settings rejected kbId t mapping reloaded now candidates = some tags) :
    ∃ normalized, normalizeTags special kbId true t mapping
        ((passing settings rejected candidates).map TagCandidate.tag) = some normalized ∧
      (∀ canonical, canonical ∈ normalized.result ↔ canonical ∈ offered special mapping
        ((passing settings rejected candidates).map TagCandidate.tag)) ∧
      tags = (firsts (canonicalOf special mapping reloaded
        ((passing settings rejected candidates).map TagCandidate.tag)) settings.maxPerUnit []
          (passing settings rejected candidates)).map fun p => autoTag now p.1 p.2 := by
  obtain ⟨normalized, hnormalized, rfl⟩ := Option.map_eq_some_iff.1 h
  have hcanon : ∀ canonical, canonical ∈ normalized.result ↔
      canonical ∈ offered special mapping ((passing settings rejected candidates).map TagCandidate.tag) := by
    intro canonical
    rw [normalizeTags_result hnormalized, mem_offered]
    simp
  exact ⟨normalized, hnormalized, hcanon, (outRecords_eq hcanon rfl).trans (List.nil_append _)⟩

/-- What an extraction stores: the first candidate of each of the first canonicals. -/
theorem extractAutoTags_spec
    (h : e.extractAutoTags special settings kbId t mapping reloaded now candidates = some e') :
    e'.rejectedAutoTags = e.rejectedAutoTags ∧ (e'.autoTags.map AutoTag.tag).Nodup ∧
      e'.autoTags.length ≤ settings.maxPerUnit ∧
      ∀ tag, tag ∈ e'.autoTags ↔ ∃ canonical c,
        First (e.canonicals special settings mapping reloaded candidates) settings.maxPerUnit []
          (e.filtered settings candidates) canonical c ∧ autoTag now canonical c = tag := by
  obtain ⟨tags, htags, rfl⟩ := Option.map_eq_some_iff.1 h
  obtain ⟨-, -, -, rfl⟩ := runExtract_eq_some htags
  have hpos : ([] : List String).length < settings.maxPerUnit := settings.maxPerUnit_pos
  refine ⟨rfl, ?_, ?_, ?_⟩
  · rw [List.map_map]
    exact nodup_firsts.1
  · rw [List.length_map]
    exact (Nat.le_add_left _ _).trans (length_firsts hpos)
  · intro tag
    rw [List.mem_map]
    constructor
    · rintro ⟨⟨canonical, c⟩, hfirst, rfl⟩
      exact ⟨canonical, c, (mem_firsts List.nodup_nil hpos).1 hfirst, rfl⟩
    · rintro ⟨canonical, c, hfirst, rfl⟩
      exact ⟨(canonical, c), (mem_firsts List.nodup_nil hpos).2 hfirst, rfl⟩

theorem accepted_extractAutoTags_iff
    (h : e.extractAutoTags special settings kbId t mapping reloaded now candidates = some e') :
    e'.Accepted ↔ e.SparesRejected special settings mapping reloaded candidates := by
  obtain ⟨hrejected, -, -, hmem⟩ := extractAutoTags_spec h
  rw [TaggedEntry.SparesRejected, respelledLate_iff, TaggedEntry.Accepted, hrejected]
  constructor
  · intro haccepted canonical c hfirst
    exact haccepted _ ((hmem (autoTag now canonical c)).2 ⟨canonical, c, hfirst, rfl⟩)
  · intro hfirst tag htag
    obtain ⟨canonical, c, hc, rfl⟩ := (hmem tag).1 htag
    exact hfirst canonical c hc

theorem sure_extractAutoTags_iff
    (h : e.extractAutoTags special settings kbId t mapping reloaded now candidates = some e') :
    (∀ tag ∈ e'.autoTags, settings.threshold ≤ tag.confidence) ↔
      e.SparesRounded special settings mapping reloaded candidates := by
  obtain ⟨-, -, -, hmem⟩ := extractAutoTags_spec h
  rw [TaggedEntry.SparesRounded, roundedLate_iff]
  constructor
  · intro hsure canonical c hfirst
    exact hsure _ ((hmem (autoTag now canonical c)).2 ⟨canonical, c, hfirst, rfl⟩)
  · intro hfirst tag htag
    obtain ⟨canonical, c, hc, rfl⟩ := (hmem tag).1 htag
    exact hfirst canonical c hc

/-- For every response, dictionary and entry: the stored tags are lawful exactly when the respelled
and the rounded candidates come too late. -/
theorem lawful_extractAutoTags_iff
    (h : e.extractAutoTags special settings kbId t mapping reloaded now candidates = some e') :
    e'.Lawful settings ↔ e.SparesRejected special settings mapping reloaded candidates ∧
      e.SparesRounded special settings mapping reloaded candidates := by
  obtain ⟨-, hdistinct, hfew, -⟩ := extractAutoTags_spec h
  rw [← accepted_extractAutoTags_iff h, ← sure_extractAutoTags_iff h]
  constructor
  · intro hlawful
    exact ⟨hlawful.accepted, hlawful.sure⟩
  · rintro ⟨haccepted, hsure⟩
    exact ⟨hdistinct, hfew, hsure, haccepted⟩

end Records

/-! ## An extraction beside a rejection -/

/-- Two tags of at least one half. -/
def twoTags : AutoTagSettings := ⟨2, by decide, 1 / 2⟩

/-- The entry has rejected "ops". Of its response "ops" is dropped, "vendor" is unsure, "network" has a
canonical, "backup" gets one, and "devops" comes when there are two tags. -/
def network : List TagCandidate :=
  [⟨"ops", 9 / 10, "llm"⟩, ⟨"vendor", 1 / 4, "llm"⟩, ⟨"network", 3 / 4, "llm"⟩, ⟨"lan", 3 / 4, "llm"⟩,
    ⟨"backup", 1 / 2, "llm"⟩, ⟨"devops", 1 / 2, "llm"⟩]

def networkTable : TagTable where
  rows :=
    [{ id := 0, kbId := 0, canonical := "ops", aliases := ["devops"] },
      { id := 1, kbId := 0, canonical := "network", aliases := ["lan"] }]
  next := 2
  nodup := by decide
  below := by decide
  unique := by decide

def networkMapping : Dict String String := loadDict (fun _ _ => []) (networkTable.active 0)

/-- The map of the second look, with what the normalizer has made. -/
def networkReloaded : Dict String String :=
  ((normalizeTags (fun _ _ => []) 0 true networkTable networkMapping
      ["network", "lan", "backup", "devops"]).map
    fun normalized => loadDict (fun _ _ => []) (normalized.table.active 0)).getD networkMapping

/-- What the extraction makes of that entry. -/
def extractNetwork : Option TaggedEntry :=
  TaggedEntry.extractAutoTags (fun _ _ => []) { rejectedAutoTags := ["ops"] } twoTags 0 networkTable
    networkMapping networkReloaded "10:00" network

theorem round4_half : round4 (1 / 2) = 1 / 2 := by
  have hscaled : roundDecimals 4 (1 / 2) = 2 ^ (-1 : ℤ) := by
    have hround : roundHalfEven ((5000 : ℤ) : ℚ) = 5000 := roundHalfEven_intCast 5000
    have hproduct : (1 / 2 : ℚ) * 10 ^ 4 = ((5000 : ℤ) : ℚ) := by norm_num
    rw [roundDecimals, hproduct, hround]
    norm_num
  rw [round4, hscaled, roundDouble_zpow (by decide)]
  norm_num

/-- What is taken spares the rejection. -/
theorem network_spares : ∀ p ∈ firsts (TaggedEntry.canonicals (fun _ _ => []) { rejectedAutoTags := ["ops"] }
    twoTags networkMapping networkReloaded network) twoTags.maxPerUnit []
      (TaggedEntry.filtered { rejectedAutoTags := ["ops"] } twoTags network), p.1 ∉ ["ops"] := by
  decide +kernel

theorem network_lawful : ∃ e', extractNetwork = some e' ∧ e'.Lawful twoTags := by
  have hruns : extractNetwork.isSome = true := by decide +kernel
  obtain ⟨e', he'⟩ := Option.isSome_iff_exists.1 hruns
  refine ⟨e', he', (lawful_extractAutoTags_iff he').2 ⟨?_, roundedLate_of_decimal round4_half⟩⟩
  rw [TaggedEntry.SparesRejected, respelledLate_iff]
  intro canonical c hfirst
  exact network_spares (canonical, c) ((mem_firsts List.nodup_nil twoTags.maxPerUnit_pos).2 hfirst)

/-! ## An alias of a rejected tag -/

/-- One canonical with an alias. -/
def opsTable : TagTable where
  rows := [{ id := 0, kbId := 0, canonical := "ops", aliases := ["devops"] }]
  next := 1
  nodup := by simp
  below := by simp
  unique := by simp

def oneTag : AutoTagSettings := ⟨1, le_rfl, 0⟩

def opsMapping : Dict String String := loadDict (fun _ _ => []) (opsTable.active 0)

/-- The response is the alias. -/
def devops : List TagCandidate := [⟨"devops", 1 / 2, "llm"⟩]

/-- The extraction of that response for an entry with these rejections. -/
def extractDevops (rejected : List String) : Option TaggedEntry :=
  TaggedEntry.extractAutoTags (fun _ _ => []) { rejectedAutoTags := rejected } oneTag 0 opsTable opsMapping
    opsMapping "10:00" devops

theorem extractDevops_tags :
    (extractDevops ["ops"]).map (fun e => e.autoTags.map AutoTag.tag) = some ["ops"] := by
  decide +kernel

/-- The canonical was rejected, its alias comes back as the canonical. -/
theorem rejected_tag_returns : ¬ ∀ (special : String → Nat → List Char) (settings : AutoTagSettings)
    (kbId : Nat) (t : TagTable) (mapping reloaded : Dict String String) (now : String)
    (candidates : List TagCandidate) (e e' : TaggedEntry),
      e.extractAutoTags special settings kbId t mapping reloaded now candidates = some e' →
        e'.Lawful settings := by
  intro hall
  obtain ⟨e', he', htags⟩ := Option.map_eq_some_iff.1 extractDevops_tags
  have hlawful := hall _ oneTag 0 opsTable opsMapping opsMapping "10:00" devops _ e' he'
  have hstored : "ops" ∈ e'.autoTags.map AutoTag.tag := htags ▸ List.mem_cons_self
  obtain ⟨t, ht, hops⟩ := List.mem_map.1 hstored
  have hrejected : e'.rejectedAutoTags = ["ops"] := (extractAutoTags_spec he').1
  have haccepted := hlawful.accepted t ht
  rw [hops, hrejected] at haccepted
  exact haccepted List.mem_cons_self

/-! ## Rejections and extractions -/

inductive AutoTagCall where
  | rejectAutoTag (tag : String)
  | extractAutoTags (settings : AutoTagSettings) (kbId : Nat) (t : TagTable)
      (mapping reloaded : Dict String String) (now : String) (candidates : List TagCandidate)

def autoTagStep (special : String → Nat → List Char) (e : TaggedEntry) :
    AutoTagCall → Option TaggedEntry
  | .rejectAutoTag tag => some (e.rejectAutoTag tag)
  | .extractAutoTags settings kbId t mapping reloaded now candidates =>
      e.extractAutoTags special settings kbId t mapping reloaded now candidates

def SparesRejected (special : String → Nat → List Char) (e : TaggedEntry) : AutoTagCall → Prop
  | .rejectAutoTag _ => True
  | .extractAutoTags settings _ _ mapping reloaded _ candidates =>
      e.SparesRejected special settings mapping reloaded candidates

theorem accepted_rejectAutoTag {e : TaggedEntry} (h : e.Accepted) (tag : String) :
    (e.rejectAutoTag tag).Accepted := by
  intro t ht
  obtain ⟨ht, hne⟩ := List.mem_filter.1 ht
  have hold := h t ht
  unfold TaggedEntry.rejectAutoTag
  simp only
  split
  · exact hold
  · simpa [hold] using hne

/-- What was rejected stays away in a run exactly when each extraction spares it. -/
theorem accepted_run_iff (special : String → Nat → List Char) {e : TaggedEntry} (h : e.Accepted)
    (calls : List AutoTagCall) : Visits (autoTagStep special) TaggedEntry.Accepted e calls ↔
      EveryStep (autoTagStep special) (SparesRejected special) e calls := by
  refine visits_iff_everyStep ?_ h calls
  intro e call e' he hstep
  cases call with
  | rejectAutoTag tag =>
      cases hstep
      exact iff_of_true (accepted_rejectAutoTag he tag) trivial
  | extractAutoTags settings kbId t mapping reloaded now candidates =>
      exact accepted_extractAutoTags_iff hstep

end OpsKnowledge.Tagging
