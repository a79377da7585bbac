import Mathlib.Data.Bool.Count
import OpsKnowledge.Chunking.Markdown
import OpsKnowledge.Knowledge.Store
import OpsKnowledge.Lib.SharedTransaction
import OpsKnowledge.Replies.Parsing
import OpsKnowledge.Tagging.Dictionary

/-!
# The batch import of entries

`_run_import` reads the rows of a file and creates an entry with its chunks for each of them. All
rows share one session, which is committed after the last one; the exception of a row is caught
and counted. What the database accepts, what the tag dictionary is at a row and the ids that rows
get are given for each row.
-/

namespace OpsKnowledge.Sources

open OpsKnowledge.Lib
open OpsKnowledge.Knowledge
open Replies (PyError asDict orElse truthy toInt)
open Workflow (Json)

/-! ## The file -/

/-- What `json.loads` makes of a line; it also raises for one that is nested too deep. -/
inductive Loaded where
  | value (v : JsonValue)
  | decodeError
  | raised

/-- The readers of the standard library. A reader of CSV gives the columns of a row by their names. -/
structure RowReaders where
  dictRows : String → Option (List (List (String × JsonValue)))
  loads : String → Loaded

/-- Where `str.splitlines` cuts; `\r\n` leaves an empty line behind, which is skipped. -/
def isLineBreak (c : Char) : Bool :=
  let n := c.toNat
  10 ≤ n && n ≤ 13 || 28 ≤ n && n ≤ 30 || n = 0x85 || n = 0x2028 || n = 0x2029

def jsonLines (text : String) : List String :=
  ((text.toList.splitOnP isLineBreak).map fun line => strip (String.ofList line)).filter (· ≠ "")

/-- The row of a line, if it has one; `none` when reading it raises. -/
def lineRow (readers : RowReaders) (line : String) : Option (List JsonValue) :=
  match readers.loads line with
  | .value v => some [v]
  | .decodeError => some []
  | .raised => none

/-- `_parse_rows`; `none` when it raises. -/
def parseRows (readers : RowReaders) (fileFormat text : String) : Option (List JsonValue) :=
  if fileFormat = "csv" then (readers.dictRows text).map fun rows => rows.map .obj
  else if fileFormat = "jsonl" then ((jsonLines text).mapM (lineRow readers)).map List.flatten
  else none

/-! ## The fields of a row -/

inductive RowError where
  | missing
  | raised
  deriving DecidableEq

structure RowFields where
  title : String
  content : String
  tags : List JsonValue

/-- `(row.get(name) or "").strip()` -/
def textField (members : List (String × JsonValue)) (name : String) : Except RowError String :=
  match Replies.stripped (orElse (Replies.get members name) (.str "")) with
  | .ok s => .ok s
  | .error _ => .error .raised

/-- `[t.strip() for t in tags.replace(";", ",").split(",") if t.strip()]` -/
def splitTags (tags : String) : List String :=
  (((tags.toList.map fun c => if c = ';' then ',' else c).splitOn ',').map fun t =>
    strip (String.ofList t)).filter (· ≠ "")

def tagsField (members : List (String × JsonValue)) : List JsonValue :=
  match Replies.get members "tags" with
  | .str tags => (splitTags tags).map .str
  | .arr tags => tags
  | _ => []

/-- What a row says; a row that is not an object has no `get`. -/
def rowFields (row : JsonValue) : Except RowError RowFields :=
  match asDict row with
  | none => .error .raised
  | some members => do
      let title ← textField members "title"
      let content ← textField members "content"
      if title = "" ∨ content = "" then .error .missing
      else .ok { title := clip 200 title, content := content, tags := tagsField members }

/-! ## The work of a row -/

/-- The knowledge base that is imported into. -/
structure ImportBase where
  id : Nat
  /-- `source_type == "entry"` -/
  holdsEntries : Bool
  reviewRequired : Bool
  chunkingConfig : List (String × JsonValue)

/-- What `get_kb_dict_map` gives, from the cache or by a query, which may be refused. -/
inductive DictMap where
  | cached (mapping : Dict String String)
  | queried (mapping : Dict String String)
  | refused

/-- What a row meets. -/
structure RowEnv where
  dictMap : DictMap
  acceptsTag : String → Bool
  acceptsEntry : Bool
  refreshes : Bool
  acceptsChunks : Bool
  entryId : Nat
  nextId : Nat

inductive Inserted where
  | tag (kbId : Nat) (canonical : String)
  | entry (e : KnowledgeEntry)
  | chunk (c : Chunk)

section Work

variable (special : String → Nat → List Char) (u : Unicode) (base : ImportBase) (env : RowEnv)

/-- `canonicalize_input(raw)`, with the string that it reads; `none` when `raw` has no `strip`. -/
def tagKey (raw : JsonValue) : Option (String × String) :=
  match raw with
  | .str s => some (Tagging.canonicalizeInput special s, s)
  | v => if truthy v then none else some ("", "")

def addTag (result : List String) (canonical : String) : List String :=
  if canonical ∈ result then result else result ++ [canonical]

/-- The loop of `normalize_tags`: its steps, and the tags where it does not raise. -/
def tagWork : Dict String String → List String → List JsonValue →
    List (WorkStep Inserted) × Option (List String)
  | _, result, [] => ([], some result)
  | mapping, result, raw :: raws =>
      match tagKey special raw with
      | none => ([.raise], none)
      | some (key, s) =>
          if key = "" then tagWork mapping result raws
          else match mapping.get? key with
            | some canonical => tagWork mapping (addTag result canonical) raws
            | none =>
                let canonical := Tagging.display s
                let rest := tagWork (mapping.set key canonical) (addTag result canonical) raws
                (.flush [.tag base.id canonical] (env.acceptsTag canonical) :: rest.1, rest.2)

/-- `normalize_tags` with `allow_create` -/
def normalizeWork (raws : List JsonValue) : List (WorkStep Inserted) × Option (List String) :=
  if raws.isEmpty then ([], some [])
  else match env.dictMap with
    | .cached mapping => tagWork special base env mapping [] raws
    | .queried mapping =>
        let work := tagWork special base env mapping [] raws
        (.read true :: work.1, work.2)
    | .refused => ([.read false], none)

/-- `_estimate_tokens` -/
def estimateTokens (text : String) : Nat := max 1 (text.length / 3)

/-- `_get_threshold` -/
def chunkThreshold : Except PyError Int :=
  toInt u (if Replies.has base.chunkingConfig "entry_chunking_threshold_tokens" then
    Replies.get base.chunkingConfig "entry_chunking_threshold_tokens" else .int 1500)

/-- `to_chunk_seeds`: one chunk, or those of the markdown strategy, which has a fallback. -/
def toChunkSeeds (entry : KnowledgeEntry) : Except PyError (List ChunkSeed) := do
  let threshold ← chunkThreshold u base
  let tokens := estimateTokens entry.content
  let metaBase : Dict String Json :=
    .ofList [("title", .str entry.title), ("tags", .arr (entry.tags.map .str))]
  let whole : ChunkSeed := { content := entry.content, tokenCount := tokens, metadata := metaBase }
  if (tokens : Int) < threshold then return [whole]
  else match Chunking.markdownChunk entry.content.toList {} with
    | some results =>
        return results.map fun r =>
          { content := r.content, level := r.level, position := r.position
            metadata := metaBase.update r.metadata }
    | none => return [whole]

/-- The row of `create_unit`. -/
def newEntry (fields : RowFields) (tags : List String) : KnowledgeEntry where
  id := env.entryId
  knowledgeBaseId := base.id
  title := fields.title
  content := fields.content
  contentHash := some (contentHash fields.content)
  tags := tags
  reviewStatus := if base.reviewRequired then some .pending else none

/-- The rows of `create_chunks_for_unit`. -/
def newChunks (entry : KnowledgeEntry) (seeds : List ChunkSeed) : List Chunk :=
  seedRows .entry entry.id entry.knowledgeBaseId entry.reviewStatus
    (computeChunkTags entry.tags entry.autoTags) env.nextId seeds

/-- `create_unit` behind the tags, then `create_chunks_for_unit`. -/
def entryWork (fields : RowFields) (tags : List String) : List (WorkStep Inserted) :=
  let entry := newEntry base env fields tags
  .flush [.entry entry] env.acceptsEntry :: .read env.refreshes ::
    match toChunkSeeds u base entry with
    | .error _ => [.raise]
    | .ok seeds =>
        if seeds.isEmpty then []
        else [.flush ((newChunks env entry seeds).map .chunk) env.acceptsChunks]

/-- The body of the loop; a row without title or content ends like one that raises. -/
def rowWork (row : JsonValue) : List (WorkStep Inserted) :=
  match rowFields row with
  | .error _ => [.raise]
  | .ok fields =>
      let tags := normalizeWork special base env fields.tags
      tags.1 ++ (tags.2.map (entryWork u base env fields)).getD []

end Work

/-- The rows of an import are those of `Tables.createEntry`. -/
theorem createEntry_eq {base : ImportBase} {env : RowEnv} {fields : RowFields} (t : Tables)
    {kb : KnowledgeBase} (hkb : t.getKb base.id = some kb) (hreview : kb.reviewRequired = base.reviewRequired)
    (hentry : env.entryId = t.next) (hnext : env.nextId = t.next + 1) (tags : List String)
    (seeds : List ChunkSeed) :
    t.createEntry base.id fields.title fields.content tags seeds =
      some ((t.addEntry (newEntry base env fields tags)).insertChunks
        (newChunks env (newEntry base env fields tags) seeds) (t.next + 1 + seeds.length)) := by
  unfold Tables.createEntry
  rw [hkb]
  simp only [Option.bind_eq_bind, Option.bind_some, Tables.createChunksForEntry, newChunks, newEntry, hentry,
    hnext, hreview]
  rfl

/-! ## The import -/

structure ImportReport where
  /-- The rows that are counted as imported. -/
  counted : List Bool
  errors : List (Nat × RowError)
  /-- The entries whose embedding is queued. -/
  enqueued : List Nat

def ImportReport.imported (r : ImportReport) : Nat := r.counted.count true

def ImportReport.failed (r : ImportReport) : Nat := r.counted.count false

inductive ImportEnd where
  | empty
  /-- The base is not there or holds no entries. -/
  | refused
  | raised
  | completed (report : ImportReport)

section Import

variable (special : String → Nat → List Char) (u : Unicode) (envs : Nat → RowEnv)

def rowError (row : JsonValue) : RowError :=
  match rowFields row with
  | .error e => e
  | .ok _ => .raised

/-- The work of all rows. -/
def importWork (base : ImportBase) (rows : List JsonValue) : List (List (WorkStep Inserted)) :=
  rows.zipIdx.map fun (row, idx) => rowWork special u base (envs idx) row

/-- `errors[:50]`; rows are numbered from one. -/
def rowErrors (rows : List JsonValue) (counted : List Bool) : List (Nat × RowError) :=
  (((rows.zip counted).zipIdx.filter fun r => !r.1.2).map fun r => (r.2 + 1, rowError r.1.1)).take 50

/-- The part of `_run_import` behind `_parse_rows`: how it ends, and the rows that it has added. -/
def importRows (base : Option ImportBase) (rows : List JsonValue) : ImportEnd × List Inserted :=
  if rows.isEmpty then (.empty, [])
  else match base.filter ImportBase.holdsEntries with
    | none => (.refused, [])
    | some base =>
        let (tx, counted) := runUnits (.active []) (importWork special u envs base rows)
        match tx.commit with
        | none => (.raised, [])
        | some added =>
            (.completed {
              counted := counted
              errors := rowErrors rows counted
              enqueued := ((counted.zipIdx).filter Prod.fst).map fun r => (envs r.2).entryId }, added)

/-- `_run_import` -/
def runImport (readers : RowReaders) (base : Option ImportBase) (fileFormat text : String) :
    ImportEnd × List Inserted :=
  match parseRows readers fileFormat text with
  | none => (.raised, [])
  | some rows => importRows special u envs base rows

/-! ## Rows that keep to themselves -/

/-- Each row is counted as imported exactly if its own work goes through, and what has been added are the
rows of these; the counts add up. -/
structure Isolates (base : ImportBase) (rows : List JsonValue) (result : ImportEnd × List Inserted)
    (report : ImportReport) : Prop where
  ends : result.1 = .completed report
  total : report.imported + report.failed = rows.length
  counted : report.counted = (importWork special u envs base rows).map isDone
  added : result.2 = (importWork special u envs base rows).flatMap doneRows

/-- An import that comes to its rows keeps them apart. -/
def ImportIsolated (readers : RowReaders) (base : Option ImportBase) (fileFormat text : String) : Prop :=
  ∀ rows b, parseRows readers fileFormat text = some rows → rows ≠ [] → base = some b →
    b.holdsEntries = true →
      ∃ report, Isolates special u envs b rows (runImport special u envs readers base fileFormat text) report

/-! ## Rows that do no harm -/

section Row

variable (base : ImportBase) (env : RowEnv)

/-- The tags of the row can be read and are accepted, and so are its entry and its chunks. -/
def GoesThrough (fields : RowFields) : Prop :=
  isDone (normalizeWork special base env fields.tags).1 = true ∧ env.acceptsEntry = true ∧
    env.refreshes = true ∧ ∃ tags seeds, (normalizeWork special base env fields.tags).2 = some tags ∧
      toChunkSeeds u base (newEntry base env fields tags) = .ok seeds ∧
        (seeds = [] ∨ env.acceptsChunks = true)

/-- A row goes through, or it fails by its fields, or by a tag with no new tag before it. -/
def Harmless (row : JsonValue) : Prop :=
  ∀ fields, rowFields row = .ok fields →
    GoesThrough special u base env fields ∨
      unitEnd (normalizeWork special base env fields.tags).1 = .raised []

variable {special u base env}

theorem exists_tags_of_tagWork {mapping : Dict String String} {result : List String} {raws : List JsonValue}
    (h : isDone (tagWork special base env mapping result raws).1 = true) :
    ∃ tags, (tagWork special base env mapping result raws).2 = some tags := by
  induction raws generalizing mapping result with
  | nil => exact ⟨result, rfl⟩
  | cons raw raws ih =>
      rw [tagWork] at h ⊢
      cases hkey : tagKey special raw with
      | none =>
          rw [hkey] at h
          cases h
      | some pair =>
          rw [hkey] at h
          dsimp only at h ⊢
          by_cases hempty : pair.1 = ""
          · rw [if_pos hempty] at h ⊢
            exact ih h
          · rw [if_neg hempty] at h ⊢
            cases hget : mapping.get? pair.1 with
            | some canonical =>
                rw [hget] at h
                exact ih h
            | none =>
                rw [hget, ← List.singleton_append, isDone_append, Bool.and_eq_true] at h
                exact ih h.2

theorem exists_tags_of_normalizeWork {raws : List JsonValue}
    (h : isDone (normalizeWork special base env raws).1 = true) :
    ∃ tags, (normalizeWork special base env raws).2 = some tags := by
  unfold normalizeWork at h ⊢
  split
  · exact ⟨[], rfl⟩
  · next hraws =>
      rw [if_neg hraws] at h
      cases hdict : env.dictMap with
      | cached mapping =>
          rw [hdict] at h
          exact exists_tags_of_tagWork h
      | queried mapping =>
          rw [hdict] at h
          exact exists_tags_of_tagWork h
      | refused =>
          rw [hdict] at h
          cases h

theorem isDone_entryWork_iff {fields : RowFields} {tags : List String} :
    isDone (entryWork u base env fields tags) = true ↔ env.acceptsEntry = true ∧ env.refreshes = true ∧
      ∃ seeds, toChunkSeeds u base (newEntry base env fields tags) = .ok seeds ∧
        (seeds = [] ∨ env.acceptsChunks = true) := by
  unfold entryWork isDone
  dsimp only
  cases hentry : env.acceptsEntry with
  | false => simp [unitEnd]
  | true =>
      cases hrefresh : env.refreshes with
      | false => simp [unitEnd, UnitEnd.after]
      | true =>
          cases hseeds : toChunkSeeds u base (newEntry base env fields tags) with
          | error e => simp [unitEnd, UnitEnd.after]
          | ok seeds =>
              by_cases hnil : seeds = []
              · simp [unitEnd, UnitEnd.after, hnil]
              · cases hchunks : env.acceptsChunks <;> simp [unitEnd, UnitEnd.after, hnil]

/-- Whatever fails behind the tags, the entry has been written before it. -/
theorem unitEnd_entryWork_ne {fields : RowFields} {tags : List String} :
    unitEnd (entryWork u base env fields tags) ≠ .raised [] := by
  unfold entryWork
  dsimp only
  cases env.acceptsEntry with
  | false => nofun
  | true =>
      rw [unitEnd, ne_eq, UnitEnd.after_eq_raised_nil]
      rintro ⟨hnil, -⟩
      cases hnil

/-- A row is tidy exactly if it does no harm. -/
theorem tidy_rowWork_iff {row : JsonValue} :
    Tidy (rowWork special u base env row) ↔ Harmless special u base env row := by
  unfold rowWork Harmless
  cases hfields : rowFields row with
  | error e => exact iff_of_true (.inr rfl) nofun
  | ok fields =>
      simp only [Except.ok.injEq, forall_eq']
      rw [tidy_append_iff, GoesThrough]
      cases htags : (normalizeWork special base env fields.tags).2 with
      | none =>
          have hnot : isDone (normalizeWork special base env fields.tags).1 = false := by
            rw [Bool.eq_false_iff]
            intro hdone
            obtain ⟨tags, hsome⟩ := exists_tags_of_normalizeWork hdone
            cases htags.symm.trans hsome
          simp [hnot, unitEnd]
      | some tags =>
          simp only [Option.map_some, Option.getD_some, isDone_entryWork_iff, unitEnd_entryWork_ne,
            and_false, or_false, Option.some.injEq, exists_and_left, exists_eq_left']

end Row

variable {special u envs}

theorem importRows_eq {base : ImportBase} (hbase : base.holdsEntries = true) {rows : List JsonValue}
    (hrows : rows ≠ []) : importRows special u envs (some base) rows =
      match (runUnits (.active []) (importWork special u envs base rows)).1.commit with
      | none => (.raised, [])
      | some added =>
          let counted := (runUnits (.active []) (importWork special u envs base rows)).2
          (.completed {
            counted := counted
            errors := rowErrors rows counted
            enqueued := ((counted.zipIdx).filter Prod.fst).map fun r => (envs r.2).entryId }, added) := by
  unfold importRows
  rw [if_neg (by simpa using hrows), Option.filter_some_pos hbase]

theorem exists_isolates_iff {base : ImportBase} (hbase : base.holdsEntries = true) {rows : List JsonValue}
    (hrows : rows ≠ []) :
    (∃ report, Isolates special u envs base rows (importRows special u envs (some base) rows) report) ↔
      KeepsApart (importWork special u envs base rows) := by
  rw [importRows_eq hbase hrows]
  constructor
  · rintro ⟨report, hends, -, hcounted, hadded⟩
    split at hends
    · cases hends
    · next added hcommit =>
        rw [hcommit] at hadded
        cases hends
        cases hadded
        exact ⟨hcommit, hcounted⟩
  · rintro ⟨hcommit, hmarks⟩
    rw [hcommit]
    refine ⟨_, rfl, ?_, hmarks, rfl⟩
    unfold ImportReport.imported ImportReport.failed
    dsimp only
    rw [hmarks, List.count_true_add_count_false, List.length_map]
    simp [importWork]

/-- Rows are isolated exactly if each does no harm, or nothing is kept at all. -/
theorem importIsolated_iff (special : String → Nat → List Char) (u : Unicode) (envs : Nat → RowEnv)
    (readers : RowReaders) (base : Option ImportBase) (fileFormat text : String) :
    ImportIsolated special u envs readers base fileFormat text ↔
      ∀ rows b, parseRows readers fileFormat text = some rows → rows ≠ [] → base = some b →
        b.holdsEntries = true → (∀ r ∈ rows.zipIdx, Harmless special u b (envs r.2) r.1) ∨
          void (importWork special u envs b rows) = true := by
  have htidy : ∀ b rows, (∀ work ∈ importWork special u envs b rows, Tidy work) ↔
      ∀ r ∈ rows.zipIdx, Harmless special u b (envs r.2) r.1 := by
    intro b rows
    unfold importWork
    rw [List.forall_mem_map]
    exact forall₂_congr fun r _ => tidy_rowWork_iff
  have hrun : ∀ rows b, parseRows readers fileFormat text = some rows → base = some b →
      runImport special u envs readers base fileFormat text = importRows special u envs (some b) rows := by
    intro rows b hparse hb
    unfold runImport
    rw [hparse, hb]
  constructor
  · intro h rows b hparse hrows hb hentries
    rw [← htidy, ← keepsApart_iff, ← exists_isolates_iff hentries hrows, ← hrun rows b hparse hb]
    exact h rows b hparse hrows hb hentries
  · intro h rows b hparse hrows hb hentries
    rw [hrun rows b hparse hb, exists_isolates_iff hentries hrows, keepsApart_iff, htidy]
    exact h rows b hparse hrows hb hentries

end Import

/-! ## A threshold that is no number -/

def untroubled : RowEnv where
  dictMap := .cached .empty
  acceptsTag _ := true
  acceptsEntry := true
  refreshes := true
  acceptsChunks := true
  entryId := 1
  nextId := 2

def brokenThreshold : ImportBase where
  id := 1
  holdsEntries := true
  reviewRequired := false
  chunkingConfig := [("entry_chunking_threshold_tokens", .null)]

def oneRow : RowReaders where
  dictRows _ := some [[("title", .str "t"), ("content", .str "c")]]
  loads _ := .decodeError

/-- The row is not counted, and its entry stays. -/
theorem brokenThreshold_not_isolated : ¬ ∀ (special : String → Nat → List Char) (u : Unicode)
    (envs : Nat → RowEnv) (readers : RowReaders) (base : Option ImportBase) (fileFormat text : String),
    ImportIsolated special u envs readers base fileFormat text := by
  intro h
  obtain ⟨report, hisolates⟩ := h (fun _ _ => []) asciiOnly (fun _ => untroubled) oneRow
    (some brokenThreshold) "csv" "" _ brokenThreshold rfl (by simp) rfl rfl
  have hadded := congrArg List.length hisolates.added
  revert hadded
  decide

end OpsKnowledge.Sources
