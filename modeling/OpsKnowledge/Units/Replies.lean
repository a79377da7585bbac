import OpsKnowledge.Knowledge.Keys
import OpsKnowledge.Units.Endpoints

/-!
# What replies show

Sites that differ only in what rows of other bases hold, and the replies that are the same
over them: those of a request that reads its own base alone, and those of a request that
looks a document or a chunk up by its id, when that is of the base.
-/

namespace OpsKnowledge.Units

open OpsKnowledge.Lib
open Knowledge (Tables Document KnowledgeEntry Chunk UnitType EntryPayload ChunkSeed)
open Review (HttpError Organisation User)

section Masks

variable (kbId : Nat)

/-- Of a row of another base only the keys. -/
def maskDocument (d : Document) : Document :=
  if d.knowledgeBaseId = kbId then d else { id := d.id, knowledgeBaseId := d.knowledgeBaseId }

def maskEntry (e : KnowledgeEntry) : KnowledgeEntry :=
  if e.knowledgeBaseId = kbId then e
  else { id := e.id, knowledgeBaseId := e.knowledgeBaseId, title := "", content := "" }

def maskChunk (c : Chunk) : Chunk :=
  if c.knowledgeBaseId = kbId then c
  else { id := c.id, unitType := c.unitType, unitId := c.unitId, knowledgeBaseId := c.knowledgeBaseId
         content := "" }

/-- The sites differ in what rows of other bases hold, under the same keys. -/
structure AgreeOn (s s' : Site) : Prop where
  kbs : s'.tables.kbs = s.tables.kbs
  documents : s'.tables.documents.map (maskDocument kbId) = s.tables.documents.map (maskDocument kbId)
  entries : s'.tables.entries.map (maskEntry kbId) = s.tables.entries.map (maskEntry kbId)
  chunks : s'.tables.chunks.map (maskChunk kbId) = s.tables.chunks.map (maskChunk kbId)
  next : s'.tables.next = s.tables.next
  kbColumns : s'.kbColumns = s.kbColumns
  files : ∀ d ∈ s.tables.documents, d.knowledgeBaseId = kbId → s'.files d.id = s.files d.id
  collection : s'.collections kbId = s.collections kbId

end Masks

section Here

variable (kbId : Nat) (site : Site)

def DocumentHere (docId : Nat) : Prop :=
  ∀ doc, site.tables.getDocument docId = some doc → doc.knowledgeBaseId = kbId

def ChunkHere (chunkId : Nat) : Prop := ∀ c ∈ site.tables.chunks, c.id = chunkId → c.knowledgeBaseId = kbId

/-- A split at positive positions, which the length of the content decides. -/
def Splits (splitPositions : List Int) : Prop := splitPositions ≠ [] ∧ ∀ p ∈ splitPositions, 0 < p

end Here

/-! ## Replies -/

section Replies

variable {org : Organisation} {user : User} {kbId : Nat} {site site' s s' : Site} {docId chunkId : Nat}

theorem maskDocument_own (d : Document) (h : decide (d.knowledgeBaseId = kbId) = true) :
    maskDocument kbId d = d := if_pos (of_decide_eq_true h)

theorem maskEntry_own (e : KnowledgeEntry) (h : decide (e.knowledgeBaseId = kbId) = true) :
    maskEntry kbId e = e := if_pos (of_decide_eq_true h)

theorem maskChunk_own (c : Chunk) (h : decide (c.knowledgeBaseId = kbId) = true) :
    maskChunk kbId c = c := if_pos (of_decide_eq_true h)

theorem maskDocument_keys (d : Document) : (maskDocument kbId d).id = d.id ∧
    (maskDocument kbId d).knowledgeBaseId = d.knowledgeBaseId := by
  unfold maskDocument
  split
  · exact ⟨rfl, rfl⟩
  · exact ⟨rfl, rfl⟩

theorem maskEntry_keys (e : KnowledgeEntry) : (maskEntry kbId e).id = e.id ∧
    (maskEntry kbId e).knowledgeBaseId = e.knowledgeBaseId := by
  unfold maskEntry
  split
  · exact ⟨rfl, rfl⟩
  · exact ⟨rfl, rfl⟩

theorem maskChunk_keys (c : Chunk) : (maskChunk kbId c).id = c.id ∧
    (maskChunk kbId c).unitType = c.unitType ∧ (maskChunk kbId c).unitId = c.unitId ∧
    (maskChunk kbId c).knowledgeBaseId = c.knowledgeBaseId := by
  unfold maskChunk
  split
  · exact ⟨rfl, rfl, rfl, rfl⟩
  · exact ⟨rfl, rfl, rfl, rfl⟩

theorem AgreeOn.getDocument (h : AgreeOn kbId s s') (docId : Nat) :
    (s'.tables.getDocument docId).map (maskDocument kbId) =
      (s.tables.getDocument docId).map (maskDocument kbId) := by
  have hfind : ∀ t : Tables, (t.getDocument docId).map (maskDocument kbId) =
      (t.documents.map (maskDocument kbId)).find? fun d => d.id = docId := by
    intro t
    have hkey : (fun d : Document => decide (d.id = docId)) ∘ maskDocument kbId =
        fun d : Document => decide (d.id = docId) :=
      funext fun d => congrArg (fun id => decide (id = docId)) (maskDocument_keys d).1
    rw [List.find?_map, hkey]
    rfl
  rw [hfind, hfind, h.documents]

theorem AgreeOn.getEntry (h : AgreeOn kbId s s') (entryId : Nat) :
    (s'.tables.getEntry entryId).map (maskEntry kbId) =
      (s.tables.getEntry entryId).map (maskEntry kbId) := by
  have hfind : ∀ t : Tables, (t.getEntry entryId).map (maskEntry kbId) =
      (t.entries.map (maskEntry kbId)).find? fun e => e.id = entryId := by
    intro t
    have hkey : (fun e : KnowledgeEntry => decide (e.id = entryId)) ∘ maskEntry kbId =
        fun e : KnowledgeEntry => decide (e.id = entryId) :=
      funext fun e => congrArg (fun id => decide (id = entryId)) (maskEntry_keys e).1
    rw [List.find?_map, hkey]
    rfl
  rw [hfind, hfind, h.entries]

theorem getChunk_map {f : Chunk → Chunk} (hf : ∀ c, (f c).id = c.id) (chunks : List Chunk) (i : Nat) :
    Knowledge.getChunk (chunks.map f) i = (Knowledge.getChunk chunks i).map f := by
  unfold Knowledge.getChunk
  rw [List.find?_map]
  simp only [Function.comp_def, hf]
  cases chunks.find? fun c => c.id = i with
  | none => rfl
  | some c => rfl

theorem AgreeOn.getChunk (h : AgreeOn kbId s s') (chunkId : Nat) :
    (Knowledge.getChunk s'.tables.chunks chunkId).map (maskChunk kbId) =
      (Knowledge.getChunk s.tables.chunks chunkId).map (maskChunk kbId) := by
  rw [← getChunk_map fun c => (maskChunk_keys c).1, ← getChunk_map fun c => (maskChunk_keys c).1, h.chunks]

/-- A chunk is found in both, and looks the same from the base, or in neither. -/
theorem AgreeOn.getChunk_cases (h : AgreeOn kbId s s') (chunkId : Nat) :
    (∃ e, Knowledge.getChunk s.tables.chunks chunkId = .error e ∧
      Knowledge.getChunk s'.tables.chunks chunkId = .error e) ∨
    ∃ c c', Knowledge.getChunk s.tables.chunks chunkId = .ok c ∧
      Knowledge.getChunk s'.tables.chunks chunkId = .ok c' ∧ maskChunk kbId c' = maskChunk kbId c := by
  have hfound := h.getChunk chunkId
  cases hs : Knowledge.getChunk s.tables.chunks chunkId with
  | error e =>
      cases hs' : Knowledge.getChunk s'.tables.chunks chunkId with
      | error e' =>
          rw [hs, hs'] at hfound
          cases hfound
          exact Or.inl ⟨e, rfl, rfl⟩
      | ok c' =>
          rw [hs, hs'] at hfound
          cases hfound
  | ok c =>
      cases hs' : Knowledge.getChunk s'.tables.chunks chunkId with
      | error e' =>
          rw [hs, hs'] at hfound
          cases hfound
      | ok c' =>
          rw [hs, hs'] at hfound
          exact Or.inr ⟨c, c', rfl, rfl, Except.ok.inj hfound⟩

theorem AgreeOn.getKb (h : AgreeOn kbId s s') (k : Nat) : s'.tables.getKb k = s.tables.getKb k := by
  unfold Tables.getKb
  rw [h.kbs]

theorem AgreeOn.requireKb (h : AgreeOn kbId s s') (level : String) :
    requireKb org user kbId s' level = requireKb org user kbId s level := by
  unfold Units.requireKb
  rw [h.getKb, h.kbColumns]

theorem AgreeOn.requireEntryKb (h : AgreeOn kbId s s') (level : String) :
    requireEntryKb org user kbId s' level = requireEntryKb org user kbId s level := by
  unfold Units.requireEntryKb
  rw [h.getKb]

theorem AgreeOn.ownDocument (h : AgreeOn kbId s s') (docId : Nat) (e : HttpError) :
    ownDocument kbId s' docId e = ownDocument kbId s docId e := by
  have hown : ∀ d, decide ((maskDocument kbId d).knowledgeBaseId = kbId) =
      decide (d.knowledgeBaseId = kbId) := by
    intro d
    rw [(maskDocument_keys d).2]
  unfold Units.ownDocument
  rw [← option_filter_map_mask maskDocument_own hown, h.getDocument,
    option_filter_map_mask maskDocument_own hown]

theorem AgreeOn.ownEntry (h : AgreeOn kbId s s') (entryId : Nat) :
    ownEntry kbId s' entryId = ownEntry kbId s entryId := by
  have hown : ∀ e, decide ((maskEntry kbId e).knowledgeBaseId = kbId) =
      decide (e.knowledgeBaseId = kbId) := by
    intro e
    rw [(maskEntry_keys e).2]
  unfold Units.ownEntry
  rw [← option_filter_map_mask maskEntry_own hown, h.getEntry, option_filter_map_mask maskEntry_own hown]

theorem AgreeOn.findDocument (h : AgreeOn kbId s s') (hhere : DocumentHere kbId s docId) :
    findDocument s' docId = findDocument s docId := by
  have hown : ∀ d, decide ((maskDocument kbId d).knowledgeBaseId = kbId) =
      decide (d.knowledgeBaseId = kbId) := by
    intro d
    rw [(maskDocument_keys d).2]
  have hsame := eq_of_map_mask maskDocument_own hown (h.getDocument docId) fun d hd =>
    decide_eq_true (hhere d hd)
  unfold Units.findDocument
  rw [hsame]

theorem AgreeOn.selectDocuments (h : AgreeOn kbId s s') (ids : List Nat) :
    selectDocuments kbId s' ids = selectDocuments kbId s ids := by
  have hown : ∀ d, decide ((maskDocument kbId d).knowledgeBaseId = kbId) =
      decide (d.knowledgeBaseId = kbId) := by
    intro d
    rw [(maskDocument_keys d).2]
  have hselect : ∀ site : Site, Units.selectDocuments kbId site ids =
      (site.tables.documents.filter fun d => d.knowledgeBaseId = kbId).filter fun d => d.id ∈ ids := by
    intro site
    rw [List.filter_filter]
    simp [Units.selectDocuments]
  rw [hselect, hselect, ← filter_map_mask maskDocument_own hown, h.documents,
    filter_map_mask maskDocument_own hown]

theorem AgreeOn.ownChunks (h : AgreeOn kbId s s') :
    (s'.tables.chunks.filter fun c => c.knowledgeBaseId = kbId) =
      s.tables.chunks.filter fun c => c.knowledgeBaseId = kbId := by
  have hown : ∀ c, decide ((maskChunk kbId c).knowledgeBaseId = kbId) =
      decide (c.knowledgeBaseId = kbId) := by
    intro c
    rw [(maskChunk_keys c).2.2.2]
  rw [← filter_map_mask maskChunk_own hown, h.chunks, filter_map_mask maskChunk_own hown]

/-- The keys of chunks are those of their masks. -/
theorem AgreeOn.unitRows (h : AgreeOn kbId s s') (unitType : UnitType) (unitId : Nat) :
    s'.tables.unitRows unitType unitId = s.tables.unitRows unitType unitId := by
  have hmask : ∀ chunks : List Chunk, (chunks.map (maskChunk kbId)).countP (Chunk.inUnit unitType unitId) =
      chunks.countP (Chunk.inUnit unitType unitId) := by
    intro chunks
    rw [List.countP_map]
    congr 1
    funext c
    simp [Chunk.inUnit, maskChunk_keys]
  unfold Tables.unitRows
  rw [← hmask, h.chunks, hmask]

theorem AgreeOn.reviewRequired (h : AgreeOn kbId s s') (k : Nat) :
    s'.tables.reviewRequired k = s.tables.reviewRequired k := by
  unfold Tables.reviewRequired
  rw [h.getKb]

theorem AgreeOn.purgeFails (h : AgreeOn kbId s s') (unitIds : List Nat) (failure : Option Nat) :
    purgeFails (s'.collections kbId) unitIds failure = purgeFails (s.collections kbId) unitIds failure := by
  rw [h.collection]

theorem AgreeOn.rechunks (h : AgreeOn kbId s s') (entry : KnowledgeEntry) (payload : EntryPayload) :
    rechunks s' entry payload = rechunks s entry payload := by
  rw [rechunks_eq, rechunks_eq, h.unitRows]

/-- What is found of a chunk, when only that matters. -/
theorem AgreeOn.findChunk_bind {β : Type} (h : AgreeOn kbId s s') (chunkId : Nat)
    (rest : Except HttpError β) :
    (findChunk s' chunkId >>= fun _ => rest) = (findChunk s chunkId >>= fun _ => rest) := by
  unfold findChunk
  rcases h.getChunk_cases chunkId with ⟨e, hs, hs'⟩ | ⟨c, c', hs, hs', -⟩
  · rw [hs, hs']
  · rw [hs, hs']
    rfl

theorem reply_after {α : Type} (checks : Except HttpError α) (act : α → Outcome) :
    (site.after checks act).reply = checks >>= fun a => (act a).reply := by
  cases checks with
  | error e => rfl
  | ok a => rfl

theorem reply_purgeThen {unitIds : List Nat} {faults : Faults} {commit : Site → Site} :
    (site.purgeThen kbId unitIds faults commit).reply =
      if purgeFails (site.collections kbId) unitIds faults.milvus then
        .error (documentsUnavailable faults)
      else .ok .noContent := by
  unfold Site.purgeThen
  split
  · rfl
  · rfl

theorem reply_thenPurge {unitIds : List Nat} {faults : Faults} {body : Body} {tasks : List Task} :
    (site.thenPurge kbId unitIds faults body tasks).reply =
      if purgeFails (site.collections kbId) unitIds faults.milvus then
        .error (entriesUnavailable faults)
      else .ok body := by
  unfold Site.thenPurge
  split
  · rfl
  · rfl

/-! ## Readers that look up by the id alone -/

/-- A document whose file the reply shows. -/
theorem reader_iff (hkeyed : site.tables.Keyed) {level : String}
    {shown : Document → DocumentFile → Except HttpError Body}
    (hshows : ∀ doc r, ∃ file, shown doc file ≠ r) :
    (∀ site', AgreeOn kbId site site' →
      (do requireKb org user kbId site' level
          let doc ← findDocument site' docId
          shown doc (site'.files docId)) =
        do requireKb org user kbId site level
           let doc ← findDocument site docId
           shown doc (site.files docId)) ↔
      (requireKb org user kbId site level = .ok () → DocumentHere kbId site docId) := by
  constructor
  · intro hreply hadmitted doc hdoc
    by_contra hother
    obtain ⟨hmem, hid⟩ := Tables.getDocument_eq_some hdoc
    obtain ⟨file, hdiffers⟩ := hshows doc (shown doc (site.files docId))
    let site' : Site := { site with files := Function.update site.files docId file }
    have hagree : AgreeOn kbId site site' := by
      refine ⟨rfl, rfl, rfl, rfl, rfl, rfl, ?_, rfl⟩
      intro d hd hhome
      have hne : d.id ≠ docId := by
        intro heq
        obtain rfl : d = doc :=
          List.inj_on_of_nodup_map hkeyed.documents hd hmem (heq.trans hid.symm)
        exact hother hhome
      simp [site', hne]
    have heq := hreply site' hagree
    rw [hagree.requireKb, hadmitted] at heq
    have hfound : findDocument site docId = .ok doc := orRaise_eq_ok.2 hdoc
    have hfound' : findDocument site' docId = .ok doc := hfound
    rw [hfound, hfound'] at heq
    apply hdiffers
    have hshown : shown doc (site'.files docId) = shown doc (site.files docId) := heq
    have hfile : site'.files docId = file := Function.update_self ..
    rwa [hfile] at hshown
  · intro hhere site' hagree
    rw [hagree.requireKb]
    apply bind_congr_of_ok
    intro _ hadmitted
    have hdoc := hhere hadmitted
    rw [hagree.findDocument hdoc]
    apply bind_congr_of_ok
    intro doc hfound
    have hget := orRaise_eq_ok.1 hfound
    obtain ⟨hmem, rfl⟩ := Tables.getDocument_eq_some hget
    rw [hagree.files doc hmem (hdoc doc hget)]

theorem findChunk_eq_ok {c : Chunk} (hvalid : site.tables.Valid) (hc : c ∈ site.tables.chunks) :
    findChunk site c.id = .ok c := by
  unfold findChunk
  rw [hvalid.getChunk_self hc]
  rfl

theorem findChunk_spec {c : Chunk} (h : findChunk site chunkId = .ok c) :
    c ∈ site.tables.chunks ∧ c.id = chunkId := by
  unfold findChunk at h
  cases hget : Knowledge.getChunk site.tables.chunks chunkId with
  | error e =>
      rw [hget] at h
      cases h
  | ok d =>
      rw [hget] at h
      cases h
      exact Knowledge.getChunk_eq_ok hget

theorem AgreeOn.findChunk (h : AgreeOn kbId s s') (hhere : ChunkHere kbId s chunkId) :
    findChunk s' chunkId = findChunk s chunkId := by
  unfold Units.findChunk
  rcases h.getChunk_cases chunkId with ⟨e, hs, hs'⟩ | ⟨c, c', hs, hs', hmask⟩
  · rw [hs, hs']
  · obtain ⟨hc, hid⟩ := Knowledge.getChunk_eq_ok hs
    have hhome : c.knowledgeBaseId = kbId := hhere c hc hid
    have hhome' : c'.knowledgeBaseId = kbId := by
      rw [← (maskChunk_keys c').2.2.2, hmask, (maskChunk_keys c).2.2.2, hhome]
    rw [maskChunk_own c' (decide_eq_true hhome'), maskChunk_own c (decide_eq_true hhome)] at hmask
    rw [hs, hs', hmask]

/-- The site with another content of a chunk. -/
def withContent (site : Site) (chunkId : Nat) (content : String) : Site :=
  { site with
    tables := { site.tables with
      chunks := updateWhere (fun c => c.id = chunkId) (fun c => { c with content := content })
        site.tables.chunks } }

theorem agreeOn_withContent (hvalid : site.tables.Valid) {c : Chunk} (hc : c ∈ site.tables.chunks)
    (hother : c.knowledgeBaseId ≠ kbId) (content : String) :
    AgreeOn kbId site (withContent site c.id content) := by
  refine ⟨rfl, rfl, rfl, ?_, rfl, rfl, fun _ _ _ => rfl, rfl⟩
  unfold withContent updateWhere
  rw [List.map_map]
  apply List.map_congr_left
  intro d hd
  simp only [Function.comp_apply, decide_eq_true_eq]
  split
  · next hid =>
      obtain rfl := hvalid.eq_of_id hd hc hid
      simp [maskChunk, hother]
  · rfl

theorem findChunk_withContent (hvalid : site.tables.Valid) {c : Chunk} (hc : c ∈ site.tables.chunks)
    (content : String) :
    findChunk (withContent site c.id content) c.id = .ok { c with content := content } := by
  have hget := hvalid.getChunk_self hc
  have hkept : ∀ d : Chunk, ({ d with content := content } : Chunk).id = d.id := fun _ => rfl
  have hfind : (updateWhere (fun d : Chunk => d.id = c.id) (fun d => { d with content := content })
      site.tables.chunks).find? (fun d => d.id = c.id) =
        (site.tables.chunks.find? fun d => d.id = c.id).map fun d =>
          if c.id = c.id then { d with content := content } else d :=
    find?_updateWhere hkept c.id c.id
  unfold findChunk withContent Knowledge.getChunk
  unfold Knowledge.getChunk at hget
  simp only [hfind]
  cases hold : site.tables.chunks.find? fun d => d.id = c.id with
  | none => simp [hold] at hget
  | some d =>
      obtain rfl : d = c := by simpa [hold] using hget
      simp [orHttp]

theorem mem_sortedPositions {positions : List Int} {p : Int} :
    p ∈ Knowledge.sortedPositions positions ↔ p ∈ positions := by
  unfold Knowledge.sortedPositions
  rw [mem_orderBy, List.mem_dedup]

theorem splitRows_eq_error_iff {c : Chunk} {positions : List Int} {next : Nat} :
    Knowledge.splitRows c positions next = .error (.validation "Invalid split positions") ↔
      ¬ (Splits positions ∧ ∀ p ∈ positions, p < (c.content.length : Int)) := by
  unfold Knowledge.splitRows
  simp only
  have hbad : ((Knowledge.sortedPositions positions).isEmpty ||
      (Knowledge.sortedPositions positions).any fun p =>
        p ≤ 0 ∨ (c.content.length : Int) ≤ p) = true ↔
      ¬ (Splits positions ∧ ∀ p ∈ positions, p < (c.content.length : Int)) := by
    have hempty : (Knowledge.sortedPositions positions).isEmpty = true ↔ positions = [] := by
      rw [List.isEmpty_iff, List.eq_nil_iff_forall_not_mem, List.eq_nil_iff_forall_not_mem]
      simp only [mem_sortedPositions]
    rw [Bool.or_eq_true, hempty, List.any_eq_true]
    simp only [mem_sortedPositions, decide_eq_true_eq, Splits, ne_eq]
    constructor
    · intro hbad hgood
      rcases hbad with hnil | ⟨p, hp, hrange⟩
      · exact hgood.1.1 hnil
      · have hpos := hgood.1.2 p hp
        have hlt := hgood.2 p hp
        omega
    · intro hnot
      by_contra hgood
      push Not at hgood
      exact hnot ⟨⟨hgood.1, fun p hp => (hgood.2 p hp).1⟩, fun p hp => (hgood.2 p hp).2⟩
  split
  · next h => exact iff_of_true rfl (hbad.1 h)
  · next h => exact iff_of_false (by simp) fun hnot => h (hbad.2 hnot)

theorem exists_bound (positions : List Int) : ∃ n : Nat, ∀ p ∈ positions, p < (n : Int) := by
  induction positions with
  | nil => exact ⟨0, by simp⟩
  | cons q positions ih =>
      obtain ⟨n, hn⟩ := ih
      refine ⟨n + q.toNat + 1, ?_⟩
      intro p hp
      rcases List.mem_cons.1 hp with rfl | hp
      · omega
      · have hlt := hn p hp
        omega

/-- A split whose reply tells rows from an error. -/
theorem splitter_iff (hvalid : site.tables.Valid) {level : String} {positions : List Int}
    {shown : List Chunk → Except HttpError Body}
    (hshown : ∀ rows, shown rows ≠ .error (validationError "Invalid split positions")) :
    (∀ site', AgreeOn kbId site site' →
      (do requireKb org user kbId site' level
          let chunk ← findChunk site' chunkId
          let rows ← orHttp (Knowledge.splitRows chunk positions site'.tables.next)
          shown rows) =
        do requireKb org user kbId site level
           let chunk ← findChunk site chunkId
           let rows ← orHttp (Knowledge.splitRows chunk positions site.tables.next)
           shown rows) ↔
      (requireKb org user kbId site level = .ok () → Splits positions → ChunkHere kbId site chunkId) := by
  constructor
  · intro hreply hadmitted hsplits c hc hid
    subst hid
    by_contra hother
    let rest : Except HttpError (List Chunk) → Except HttpError Body := fun rows => rows >>= shown
    have hany : ∀ content, rest (orHttp (Knowledge.splitRows { c with content := content } positions
        site.tables.next)) = rest (orHttp (Knowledge.splitRows c positions site.tables.next)) := by
      intro content
      have hagree : AgreeOn kbId site (withContent site c.id content) :=
        agreeOn_withContent hvalid hc hother content
      have heq := hreply _ hagree
      rw [hagree.requireKb, hadmitted, findChunk_withContent hvalid hc, findChunk_eq_ok hvalid hc] at heq
      exact heq
    have hempty : Knowledge.splitRows { c with content := "" } positions site.tables.next =
        .error (.validation "Invalid split positions") := by
      rw [splitRows_eq_error_iff]
      intro hgood
      obtain ⟨p, hp⟩ := List.exists_mem_of_ne_nil positions hsplits.1
      have hpos := hsplits.2 p hp
      have hlt : p < 0 := hgood.2 p hp
      omega
    obtain ⟨n, hn⟩ := exists_bound positions
    have hlong : Knowledge.splitRows { c with content := String.ofList (List.replicate n 'a') } positions
        site.tables.next ≠ .error (.validation "Invalid split positions") := by
      rw [ne_eq, splitRows_eq_error_iff, not_not]
      refine ⟨hsplits, ?_⟩
      intro p hp
      simpa using hn p hp
    have herror := hany ""
    rw [hempty, ← hany (String.ofList (List.replicate n 'a'))] at herror
    cases hrows : Knowledge.splitRows { c with content := String.ofList (List.replicate n 'a') } positions
        site.tables.next with
    | error e =>
        apply hlong
        unfold Knowledge.splitRows at hrows ⊢
        simp only at hrows ⊢
        split at hrows
        · next hbad => rw [if_pos hbad]
        · cases hrows
    | ok rows =>
        rw [hrows] at herror
        exact hshown rows herror.symm
  · intro hhere site' hagree
    rw [hagree.requireKb, hagree.next]
    apply bind_congr_of_ok
    intro _ hadmitted
    by_cases hsplits : Splits positions
    · rw [hagree.findChunk (hhere hadmitted hsplits)]
    · have herror : ∀ c : Chunk, (orHttp (Knowledge.splitRows c positions site.tables.next) >>= shown) =
          .error (validationError "Invalid split positions") := by
        intro c
        rw [splitRows_eq_error_iff.2 fun hgood => hsplits hgood.1]
        rfl
      simp only [herror]
      exact hagree.findChunk_bind chunkId _

end Replies

/-! ## Readers of the base alone -/

section OwnReplies

variable {special : String → Nat → List Char} {org : Organisation} {user : User} {kbId : Nat}
  {faults : Faults} {s s' : Site}

theorem AgreeOn.requireEmbeddingConfig (h : AgreeOn kbId s s') :
    requireEmbeddingConfig kbId s' = requireEmbeddingConfig kbId s := by
  unfold Units.requireEmbeddingConfig
  rw [h.kbColumns]

theorem AgreeOn.updateEntry (h : AgreeOn kbId s s') (entryId : Nat) (payload : EntryPayload)
    (seeds : List ChunkSeed) : (updateEntry org user kbId s' entryId payload seeds faults).reply =
      (updateEntry org user kbId s entryId payload seeds faults).reply := by
  unfold Units.updateEntry
  rw [reply_after, reply_after]
  unfold checkUpdate
  rw [h.requireEntryKb, h.ownEntry, h.requireEmbeddingConfig]
  simp only [h.rechunks]
  apply bind_congr_of_ok
  intro entry _
  simp only [h.reviewRequired]
  split
  · rw [reply_thenPurge, reply_thenPurge]
    simp only [h.purgeFails]
  · split
    · rfl
    · rfl

theorem mapM_getChunk_map {f : Chunk → Chunk} (hf : ∀ c, (f c).id = c.id) (chunks : List Chunk)
    (ids : List Nat) : ids.mapM (Knowledge.getChunk (chunks.map f)) =
      (ids.mapM (Knowledge.getChunk chunks)).map (List.map f) := by
  induction ids with
  | nil => rfl
  | cons i ids ih =>
      rw [List.mapM_cons, List.mapM_cons, ih, getChunk_map hf]
      cases Knowledge.getChunk chunks i with
      | error e => rfl
      | ok c =>
          cases ids.mapM (Knowledge.getChunk chunks) with
          | error e => rfl
          | ok cs => rfl

/-- Whether chunks can be merged depends on their keys. -/
theorem mergeSources_map {f : Chunk → Chunk}
    (hf : ∀ c, (f c).id = c.id ∧ (f c).unitType = c.unitType ∧ (f c).unitId = c.unitId)
    (chunks : List Chunk) (ids : List Nat) :
    (Knowledge.mergeSources (chunks.map f) ids).map (fun _ => ()) =
      (Knowledge.mergeSources chunks ids).map fun _ => () := by
  unfold Knowledge.mergeSources
  rw [mapM_getChunk_map fun c => (hf c).1]
  split
  · rfl
  · cases hsources : ids.mapM (Knowledge.getChunk chunks) with
    | error e => rfl
    | ok sources =>
        have hunits : (sources.map f).map (fun c => (c.unitType, c.unitId)) =
            sources.map fun c => (c.unitType, c.unitId) := by
          rw [List.map_map]
          apply List.map_congr_left
          intro c _
          simp [hf]
        have hlength : (orderBy Chunk.position (sources.map f)).length =
            (orderBy Chunk.position sources).length := by
          rw [(orderBy_perm _ _).length_eq, (orderBy_perm _ _).length_eq, List.length_map]
        show Except.map _ (if 1 < ((sources.map f).map _).dedup.length then _ else _) = _
        rw [hunits]
        by_cases hone : 1 < (sources.map fun c => (c.unitType, c.unitId)).dedup.length
        · simp only [bind, Except.bind, hone, if_true]
          rfl
        · simp only [bind, Except.bind, hone, if_false]
          cases hsorted : orderBy Chunk.position sources with
          | nil =>
              rw [hsorted, List.length_nil, List.length_eq_zero_iff] at hlength
              rw [hlength]
          | cons first rest =>
              cases hsorted' : orderBy Chunk.position (sources.map f) with
              | nil => simp [hsorted, hsorted'] at hlength
              | cons first' rest' => rfl

theorem orHttp_bind_congr {α β : Type} {x y : Except Knowledge.Exn α}
    (h : x.map (fun _ => ()) = y.map fun _ => ()) (rest : Except HttpError β) :
    (orHttp x >>= fun _ => rest) = (orHttp y >>= fun _ => rest) := by
  cases x with
  | error e =>
      cases y with
      | error e' =>
          cases h
          rfl
      | ok b => cases h
  | ok a =>
      cases y with
      | error e' => cases h
      | ok b => rfl

theorem AgreeOn.mergeChunks (h : AgreeOn kbId s s') (ids : List Nat) :
    (mergeChunks org user kbId s' ids).reply = (mergeChunks org user kbId s ids).reply := by
  have hsources : (Knowledge.mergeSources s'.tables.chunks ids).map (fun _ => ()) =
      (Knowledge.mergeSources s.tables.chunks ids).map fun _ => () := by
    have hmask : ∀ c, (maskChunk kbId c).id = c.id ∧ (maskChunk kbId c).unitType = c.unitType ∧
        (maskChunk kbId c).unitId = c.unitId := by
      intro c
      have hkeys := @maskChunk_keys kbId c
      exact ⟨hkeys.1, hkeys.2.1, hkeys.2.2.1⟩
    rw [← mergeSources_map hmask, h.chunks, mergeSources_map hmask]
  unfold Units.mergeChunks Site.answer
  simp only [h.requireKb]
  apply bind_congr_of_ok
  intro _ _
  exact orHttp_bind_congr hsources _

theorem AgreeOn.listChunks (h : AgreeOn kbId s s') (documentId : Option Nat) (offset limit : Nat) :
    (listChunks org user kbId s' documentId offset limit).reply =
      (listChunks org user kbId s documentId offset limit).reply := by
  have hrows : ∀ site : Site, (site.tables.chunks.filter fun c =>
      c.knowledgeBaseId = kbId ∧ documentId.all fun docId => c.inUnit .document docId) =
        (site.tables.chunks.filter fun c => c.knowledgeBaseId = kbId).filter fun c =>
          documentId.all fun docId => c.inUnit .document docId := by
    intro site
    rw [List.filter_filter]
    apply List.filter_congr
    intro c _
    simp [Bool.and_comm]
  unfold Units.listChunks Site.answer
  simp only [h.requireKb, hrows, h.ownChunks]

/-- The reply shows what a row holds that is looked up by its id. -/
def UnitCall.showsById : UnitCall → Bool
  | .getDocument _ | .downloadDocument _ | .previewDocument _ | .splitChunkPreview _ _
  | .splitChunk _ _ => true
  | _ => false

theorem AgreeOn.reply (h : AgreeOn kbId s s') (call : UnitCall) (hcall : call.showsById = false) :
    (respond special org user kbId faults s' call).reply =
      (respond special org user kbId faults s call).reply := by
  cases call with
  | getDocument docId => cases hcall
  | downloadDocument docId => cases hcall
  | previewDocument docId => cases hcall
  | splitChunkPreview chunkId positions => cases hcall
  | splitChunk chunkId positions => cases hcall
  | archiveDocument docId archive =>
      simp only [respond, archiveDocument, reply_after, h.requireKb, h.ownDocument]
  | batchReprocessDocuments ids =>
      simp only [respond, batchReprocessDocuments, reply_after, h.requireKb]
  | batchDeleteDocuments ids =>
      simp only [respond, batchDeleteDocuments, reply_after, reply_purgeThen, h.requireKb,
        h.selectDocuments, h.purgeFails]
  | batchMoveDocuments ids target =>
      simp only [respond, batchMoveDocuments, reply_after, h.requireKb]
  | deleteDocument docId =>
      simp only [respond, deleteDocument, reply_after, reply_purgeThen, h.requireKb, h.ownDocument,
        h.purgeFails]
  | reprocessDocument docId =>
      simp only [respond, reprocessDocument, reply_after, h.requireKb, h.ownDocument]
  | getEntry entryId => simp only [respond, Units.getEntry, Site.answer, h.requireEntryKb, h.ownEntry]
  | updateEntry entryId payload seeds => exact h.updateEntry entryId payload seeds
  | batchDeleteEntries ids =>
      simp only [respond, batchDeleteEntries, reply_after, reply_thenPurge, h.requireEntryKb,
        h.purgeFails]
  | batchArchiveEntries ids =>
      simp only [respond, batchArchiveEntries, reply_after, h.requireEntryKb]
  | deleteEntry entryId =>
      simp only [respond, deleteEntry, reply_after, reply_thenPurge, h.requireEntryKb, h.ownEntry,
        h.purgeFails]
  | listChunks documentId offset limit => exact h.listChunks documentId offset limit
  | getChunk chunkId =>
      simp only [respond, getChunkById, Site.answer, h.requireKb, h.findChunk_bind]
  | editChunk chunkId content =>
      simp only [respond, editChunk, reply_after, bind_assoc, h.requireKb, h.findChunk_bind]
  | mergeChunks ids => exact h.mergeChunks ids
  | deleteChunk chunkId =>
      simp only [respond, deleteChunk, reply_after, bind_assoc, h.requireKb, h.findChunk_bind]
  | annotateChunk chunkId tags notes =>
      simp only [respond, annotateChunk, Site.answer, h.requireKb, h.findChunk_bind]

end OwnReplies
end OpsKnowledge.Units
