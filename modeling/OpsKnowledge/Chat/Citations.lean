import Mathlib.Data.List.Dedup
import OpsKnowledge.Chat.Prompt
import OpsKnowledge.Governance.Events
import OpsKnowledge.Lib.Literals
import OpsKnowledge.Lib.OrderBy

/-!
# Numbered chunks and the citations of an answer

`format_context_chunks` numbers the chunks while it renders them and stops where the budget
ends; `extract_citations` and the end of `run_rag_pipeline` read the numbers of the answer
against the list of all chunks. `u` is the Unicode database behind `\d` and `int`, `uuid`
stands for `uuid.UUID`.
-/

namespace OpsKnowledge.Chat

open OpsKnowledge.Lib
open Governance (ChunkUsageEvent recordAdopted)

/-- An item of `chunks`, as far as the context and the citations read it. -/
structure ChunkEntry where
  content : String
  title : String
  chunkId : String
  sourceKbId : Option String

/-! ## The context -/

/-- A chunk under its number. -/
def entryText (entry : ChunkEntry × Nat) : String :=
  let label := "[" ++ toString entry.2 ++ "] "
  if entry.1.title = "" then label ++ entry.1.content
  else label ++ entry.1.title ++ "\n" ++ entry.1.content

def entryTokens (entry : ChunkEntry × Nat) : Nat := estimateTokens (entryText entry)

/-- `enumerate(chunks, 1)`, up to the first entry that is over the budget. -/
def renderedEntries (chunks : List ChunkEntry) (maxTokens : Int) : List (ChunkEntry × Nat) :=
  takeWithin entryTokens maxTokens 0 (chunks.zipIdx 1)

/-! ## The answer -/

section Answer

variable (u : Unicode)

/-- The groups of `re.findall(r"\[(\d+)\]", text)`: no match begins inside another. -/
def bracketed : List Char → List String
  | [] => []
  | c :: rest =>
      let number := rest.takeWhile fun d => (u.digit d).isSome
      if c = '[' ∧ number ≠ [] ∧ (rest.dropWhile fun d => (u.digit d).isSome).head? = some ']' then
        String.ofList number :: bracketed rest
      else bracketed rest

/-- `none` where `int` raises. -/
def extractCitations (text : String) (chunkCount : Nat) : Option (List Nat) :=
  if chunkCount = 0 then some []
  else
    ((bracketed u text.toList).mapM (intOfString u)).map fun nums =>
      orderBy (fun n => n) ((nums.filter fun num : Int => 1 ≤ num ∧ num ≤ chunkCount).map Int.toNat).dedup

structure CitedSource where
  index : Nat
  title : String
  chunkId : String
  deriving DecidableEq

def citedSources (text : String) (chunks : List ChunkEntry) : Option (List CitedSource) :=
  (extractCitations u text chunks.length).map fun indices => indices.filterMap fun idx =>
    chunks[idx - 1]?.map fun chunk => { index := idx, title := chunk.title, chunkId := chunk.chunkId }

/-- The pairs of `record_adopted`; the base is that of the first chunk with the id. -/
def adoptedPairs (uuid : String → Option Nat) (chunks : List ChunkEntry) (cited : List CitedSource) :
    List (Nat × Nat) :=
  cited.filterMap fun src =>
    if src.chunkId = "" then none
    else
      match ((chunks.find? fun c => c.chunkId = src.chunkId).bind ChunkEntry.sourceKbId).getD "" with
      | "" => none
      | kb => (uuid src.chunkId).bind fun cid => (uuid kb).map fun kbId => (cid, kbId)

/-- What a completed message reports and records; nothing when the extraction raises. -/
structure TurnCitations where
  cited : List CitedSource := []
  events : List ChunkUsageEvent := []

def recordCitations (uuid : String → Option Nat) (chunks : List ChunkEntry) (text : String)
    (messageId createdAt : Nat) : TurnCitations :=
  match citedSources u text chunks with
  | none => {}
  | some cited =>
      { cited := cited
        events := recordAdopted (adoptedPairs uuid chunks cited) (some messageId) createdAt }

end Answer

/-! ## The law -/

/-- The context has this chunk under the number, and no other. -/
def RenderedAs (rendered : List (ChunkEntry × Nat)) (n : Nat) (chunk : ChunkEntry) : Prop :=
  (chunk, n) ∈ rendered ∧ ∀ chunk', (chunk', n) ∈ rendered → chunk' = chunk

def Refers (rendered : List (ChunkEntry × Nat)) (src : CitedSource) : Prop :=
  ∃ chunk, RenderedAs rendered src.index chunk ∧ src.title = chunk.title ∧ src.chunkId = chunk.chunkId

structure TurnCitations.Grounded (out : TurnCitations) (uuid : String → Option Nat)
    (rendered : List (ChunkEntry × Nat)) : Prop where
  cited : ∀ src ∈ out.cited, Refers rendered src
  events : ∀ event ∈ out.events, ∃ src ∈ out.cited, uuid src.chunkId = some event.chunkId ∧
    Refers rendered src

/-- Of the chunks that the answer names each is within the budget, together with all before it. -/
def CitesWithin (u : Unicode) (chunks : List ChunkEntry) (maxTokens : Int) (text : String) : Prop :=
  ∀ n : Nat, 1 ≤ n → n ≤ chunks.length →
    (∃ number ∈ bracketed u text.toList, intOfString u number = some (n : Int)) →
      (((chunks.zipIdx 1).take n).map entryTokens).sum ≤ maxTokens

/-- `int` refuses a number of the answer. -/
def Unreadable (u : Unicode) (text : String) : Prop :=
  ∃ number ∈ bracketed u text.toList, intOfString u number = none

/-! ## Rendered numbers -/

section Rendered

variable {chunks : List ChunkEntry} {maxTokens : Int} {n : Nat} {chunk : ChunkEntry}

theorem mem_zipIdx_one : (chunk, n) ∈ chunks.zipIdx 1 ↔ 1 ≤ n ∧ chunks[n - 1]? = some chunk := by
  rw [List.mem_zipIdx_iff_le_and_getElem?_sub]

/-- The number of an entry is its position, so the rendered ones are the first numbers. -/
theorem mem_renderedEntries : (chunk, n) ∈ renderedEntries chunks maxTokens ↔
    (1 ≤ n ∧ chunks[n - 1]? = some chunk) ∧ n - 1 < (renderedEntries chunks maxTokens).length := by
  have hfront : renderedEntries chunks maxTokens <+: chunks.zipIdx 1 := takeWithin_prefix _ _
  have hat : ∀ i, i < (renderedEntries chunks maxTokens).length →
      (renderedEntries chunks maxTokens)[i]? = (chunks.zipIdx 1)[i]? := by
    intro i hi
    obtain ⟨rest, hrest⟩ := hfront
    rw [← hrest, List.getElem?_append_left hi]
  constructor
  · intro h
    refine ⟨mem_zipIdx_one.1 (hfront.subset h), ?_⟩
    obtain ⟨i, hi⟩ := List.mem_iff_getElem?.1 h
    have hlt : i < (renderedEntries chunks maxTokens).length := (List.getElem?_eq_some_iff.1 hi).1
    rw [hat i hlt, List.getElem?_zipIdx] at hi
    obtain ⟨c, -, heq⟩ := Option.map_eq_some_iff.1 hi
    cases heq
    rwa [Nat.add_sub_cancel_left]
  · rintro ⟨⟨hn, hchunk⟩, hlt⟩
    apply List.mem_of_getElem? (i := n - 1)
    rw [hat _ hlt, List.getElem?_zipIdx, hchunk]
    simp only [Option.map_some, Option.some.injEq, Prod.mk.injEq, true_and]
    omega

theorem renderedAs_iff : RenderedAs (renderedEntries chunks maxTokens) n chunk ↔
    (chunk, n) ∈ renderedEntries chunks maxTokens := by
  refine ⟨And.left, fun h => ⟨h, ?_⟩⟩
  intro chunk' h'
  have hchunk := (mem_renderedEntries.1 h).1.2
  rw [(mem_renderedEntries.1 h').1.2] at hchunk
  exact Option.some.inj hchunk

/-- A number is rendered where the entries up to it fit the budget together. -/
theorem rendered_iff (hn : 1 ≤ n) (hchunk : chunks[n - 1]? = some chunk) :
    (chunk, n) ∈ renderedEntries chunks maxTokens ↔
      (((chunks.zipIdx 1).take n).map entryTokens).sum ≤ maxTokens := by
  have hlt : n - 1 < chunks.length := (List.getElem?_eq_some_iff.1 hchunk).1
  have hsucc : n - 1 + 1 = n := by omega
  rw [mem_renderedEntries, renderedEntries, lt_length_takeWithin_iff, List.length_zipIdx, Nat.zero_add,
    hsucc]
  constructor
  · intro h
    exact h.2.2
  · intro h
    exact ⟨⟨hn, hchunk⟩, hlt, h⟩

end Rendered

/-! ## What is reported -/

section Reported

variable {u : Unicode} {chunks : List ChunkEntry} {text : String} {maxTokens : Int}

theorem mem_of_mapM_eq_some {α β : Type*} {f : α → Option β} {xs : List α} {ys : List β}
    (h : xs.mapM f = some ys) (y : β) : y ∈ ys ↔ ∃ x ∈ xs, f x = some y := by
  induction xs generalizing ys with
  | nil =>
      cases h
      simp
  | cons x xs ih =>
      rw [List.mapM_cons, Option.bind_eq_bind, Option.bind_eq_some_iff] at h
      obtain ⟨z, hz, h⟩ := h
      obtain ⟨zs, hzs, h⟩ := Option.bind_eq_some_iff.1 h
      cases h
      rw [List.mem_cons, ih hzs, List.exists_mem_cons_iff, hz, Option.some.injEq, eq_comm]

theorem mapM_eq_none_iff {α β : Type*} {f : α → Option β} {xs : List α} :
    xs.mapM f = none ↔ ∃ x ∈ xs, f x = none := by
  induction xs with
  | nil => simp
  | cons x xs ih =>
      rw [List.mapM_cons, List.exists_mem_cons_iff, ← ih]
      cases f x with
      | none => simp
      | some y => cases xs.mapM f <;> simp

/-- The numbers of the answer that are numbers of chunks. -/
theorem mem_extractCitations {indices : List Nat}
    (h : extractCitations u text chunks.length = some indices) (n : Nat) : n ∈ indices ↔
      (1 ≤ n ∧ n ≤ chunks.length) ∧
        ∃ number ∈ bracketed u text.toList, intOfString u number = some (n : Int) := by
  unfold extractCitations at h
  split at h
  · next hzero =>
      cases h
      refine iff_of_false List.not_mem_nil ?_
      rintro ⟨⟨hn, hle⟩, -⟩
      omega
  · obtain ⟨nums, hnums, rfl⟩ := Option.map_eq_some_iff.1 h
    rw [mem_orderBy, List.mem_dedup, List.mem_map, ← mem_of_mapM_eq_some hnums]
    constructor
    · rintro ⟨num, hnum, rfl⟩
      obtain ⟨hmem, hrange⟩ := List.mem_filter.1 hnum
      have hrange := of_decide_eq_true hrange
      have hcast : (num.toNat : Int) = num := Int.toNat_of_nonneg (by omega)
      refine ⟨⟨by omega, by omega⟩, ?_⟩
      rwa [hcast]
    · rintro ⟨⟨hn, hle⟩, hmem⟩
      refine ⟨n, List.mem_filter.2 ⟨hmem, decide_eq_true ⟨by omega, by omega⟩⟩, Int.toNat_natCast n⟩

theorem extractCitations_eq_none_iff :
    extractCitations u text chunks.length = none ↔ chunks ≠ [] ∧ Unreadable u text := by
  unfold extractCitations Unreadable
  split
  · next hzero => simp [List.length_eq_zero_iff.1 hzero]
  · next hne =>
      rw [Option.map_eq_none_iff, mapM_eq_none_iff]
      have hchunks : chunks ≠ [] := fun h => hne (by rw [h]; rfl)
      exact ⟨fun h => ⟨hchunks, h⟩, And.right⟩

theorem mem_citedSources {cited : List CitedSource} (h : citedSources u text chunks = some cited)
    (src : CitedSource) : src ∈ cited ↔ ∃ n chunk, ((1 ≤ n ∧ n ≤ chunks.length) ∧
      ∃ number ∈ bracketed u text.toList, intOfString u number = some (n : Int)) ∧
        chunks[n - 1]? = some chunk ∧
          src = { index := n, title := chunk.title, chunkId := chunk.chunkId } := by
  obtain ⟨indices, hindices, rfl⟩ := Option.map_eq_some_iff.1 h
  rw [List.mem_filterMap]
  constructor
  · rintro ⟨n, hn, hsrc⟩
    obtain ⟨chunk, hchunk, rfl⟩ := Option.map_eq_some_iff.1 hsrc
    exact ⟨n, chunk, (mem_extractCitations hindices n).1 hn, hchunk, rfl⟩
  · rintro ⟨n, chunk, hn, hchunk, rfl⟩
    exact ⟨n, (mem_extractCitations hindices n).2 hn, by rw [hchunk]; rfl⟩

/-- The sources of a completed message are all in the context exactly when the answer stays within
what the budget let in. -/
theorem refers_iff_citesWithin {cited : List CitedSource} (h : citedSources u text chunks = some cited) :
    (∀ src ∈ cited, Refers (renderedEntries chunks maxTokens) src) ↔
      CitesWithin u chunks maxTokens text := by
  constructor
  · intro hall n hn hle hnumber
    have hlt : n - 1 < chunks.length := by omega
    have hchunk := List.getElem?_eq_getElem hlt
    have hcited := (mem_citedSources h _).2 ⟨n, _, ⟨⟨hn, hle⟩, hnumber⟩, hchunk, rfl⟩
    obtain ⟨chunk, hrendered, -⟩ := hall _ hcited
    have hmem := renderedAs_iff.1 hrendered
    exact (rendered_iff hn (mem_renderedEntries.1 hmem).1.2).1 hmem
  · intro hall src hsrc
    obtain ⟨n, chunk, ⟨⟨hn, hle⟩, hnumber⟩, hchunk, rfl⟩ := (mem_citedSources h src).1 hsrc
    refine ⟨chunk, renderedAs_iff.2 ((rendered_iff hn hchunk).2 (hall n hn hle hnumber)), rfl, rfl⟩

theorem mem_adoptedPairs {uuid : String → Option Nat} {cited : List CitedSource} {pair : Nat × Nat}
    (h : pair ∈ adoptedPairs uuid chunks cited) : ∃ src ∈ cited, uuid src.chunkId = some pair.1 := by
  obtain ⟨src, hsrc, hpair⟩ := List.mem_filterMap.1 h
  refine ⟨src, hsrc, ?_⟩
  split at hpair
  · cases hpair
  · split at hpair
    · cases hpair
    · obtain ⟨cid, hcid, hrest⟩ := Option.bind_eq_some_iff.1 hpair
      obtain ⟨kbId, -, rfl⟩ := Option.map_eq_some_iff.1 hrest
      exact hcid

/-- For all chunks, budgets and answers. Where a number of the answer is too long for `int` the message
fails, and nothing is reported. -/
theorem grounded_iff (uuid : String → Option Nat) (messageId createdAt : Nat) :
    (recordCitations u uuid chunks text messageId createdAt).Grounded uuid
        (renderedEntries chunks maxTokens) ↔
      (chunks ≠ [] ∧ Unreadable u text) ∨ CitesWithin u chunks maxTokens text := by
  unfold recordCitations
  cases hcited : citedSources u text chunks with
  | none =>
      have hnone := extractCitations_eq_none_iff.1 (Option.map_eq_none_iff.1 hcited)
      exact iff_of_true ⟨(fun src hsrc => nomatch hsrc), fun event hevent => nomatch hevent⟩ (Or.inl hnone)
  | some cited =>
      have hreadable : ¬ (chunks ≠ [] ∧ Unreadable u text) := by
        intro hnone
        unfold citedSources at hcited
        rw [extractCitations_eq_none_iff.2 hnone] at hcited
        cases hcited
      rw [or_iff_right hreadable, ← refers_iff_citesWithin hcited]
      constructor
      · intro hgrounded
        exact hgrounded.cited
      · intro hall
        refine ⟨hall, ?_⟩
        intro event hevent
        obtain ⟨pair, hpair, rfl⟩ := List.mem_map.1 hevent
        obtain ⟨src, hsrc, hid⟩ := mem_adoptedPairs hpair
        exact ⟨src, hsrc, hid, hall src hsrc⟩

end Reported

/-! ## A number behind the budget -/

def twoChunks : List ChunkEntry :=
  [{ content := "a", title := "", chunkId := "1", sourceKbId := some "7" },
    { content := "b", title := "", chunkId := "2", sourceKbId := some "7" }]

/-- The second chunk does not fit, and the answer names it. -/
theorem unrendered_chunk_cited : ¬ ∀ (u : Unicode) (uuid : String → Option Nat) (chunks : List ChunkEntry)
    (maxTokens : Int) (text : String) (messageId createdAt : Nat),
    (recordCitations u uuid chunks text messageId createdAt).Grounded uuid
      (renderedEntries chunks maxTokens) := by
  intro hall
  have hgrounded := hall { decimal := fun _ => none, printable := fun _ => false } (fun _ => none) twoChunks
    1 "[2]" 0 0
  obtain ⟨chunk, hrendered, -⟩ := hgrounded.cited { index := 2, title := "", chunkId := "2" } (by
    decide +kernel)
  have hlt := (mem_renderedEntries.1 hrendered.1).2
  exact absurd hlt (by decide +kernel)

end OpsKnowledge.Chat
