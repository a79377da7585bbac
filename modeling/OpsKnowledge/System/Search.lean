import Mathlib.Data.Prod.Lex
import Mathlib.Order.OrderDual
import OpsKnowledge.Lib.Like
import OpsKnowledge.Lib.Listing
import OpsKnowledge.Lib.Text

/-!
# The global search

`SearchService.search` looks for a text in the names of the knowledge bases, documents and
conversations of a user. A query is read as a pattern of ILIKE, so what it finds is said for a
query without wildcards, and what it never shows for every query.
-/

namespace OpsKnowledge.System

open OpsKnowledge.Lib

structure KnowledgeBase where
  id : Nat
  name : String
  description : Option String
  createdBy : Nat
  updatedAt : Nat

structure Document where
  id : Nat
  title : String
  knowledgeBaseId : Nat
  isArchived : Bool
  updatedAt : Nat

structure Conversation where
  id : Nat
  title : Option String
  userId : Nat
  agentId : Nat
  updatedAt : Nat

structure SearchHit where
  kind : String
  id : String
  title : String
  subtitle : String
  href : String

/-- The tables, and how the database treats letters and level rows: `fold` takes a letter to what its
case does not count in, and `tie` is the place of a row among those that are level. -/
structure Database where
  knowledgeBases : List KnowledgeBase
  documents : List Document
  conversations : List Conversation
  fold : Char → Char
  tie : Nat → Nat
  /-- `str(id)` -/
  uuid : Nat → String

/-! ## Queries -/

section Queries

variable {ρ : Type}

/-- Of the rows of the user those that match, from the lowest rank and, within one, from the latest on;
`none` where a pattern is an error. -/
def topRows (isVisible : ρ → Bool) (found : ρ → Option Bool) (rank : ρ → Option Nat) (updatedAt : ρ → Nat)
    (tie : ρ → Nat) (limit : Nat) (rows : List ρ) : Option (List ρ) :=
  (((rows.filter isVisible).mapM fun row => (found row).bind fun matched =>
    if matched then (rank row).map fun k => some (k, row) else some none)).map fun ranked =>
      ((orderBy (fun p : Nat × ρ => toLex (toLex (p.1, OrderDual.toDual (updatedAt p.2)), tie p.2))
        (ranked.filterMap id)).take limit).map Prod.snd

/-- The number of the first pattern that matches, as a `CASE` has it. -/
def rankOf (matchesPattern : List Char → Option Bool) : List (List Char) → Option Nat
  | [] => some 0
  | pattern :: patterns => (matchesPattern pattern).bind fun matched =>
      if matched then some 0 else (rankOf matchesPattern patterns).map (· + 1)

end Queries

namespace Database

variable (db : Database)

/-- `text ILIKE pattern` -/
def ilike (text : String) (pattern : List Char) : Option Bool :=
  like (pattern.map db.fold) (text.toList.map db.fold)

/-- Where there is no text, the comparison is not true. -/
def ilikeColumn (text : Option String) (pattern : List Char) : Option Bool :=
  text.elim (some false) fun text => db.ilike text pattern

/-- `a OR b` -/
def either (a b : Option Bool) : Option Bool := a.bind fun a => if a then some true else b

def kbHit (kb : KnowledgeBase) : SearchHit where
  kind := "kb"
  id := db.uuid kb.id
  title := kb.name
  subtitle := clip 120 (kb.description.getD "")
  href := "/knowledge/" ++ db.uuid kb.id

def documentHit (row : Document × KnowledgeBase) : SearchHit where
  kind := "document"
  id := db.uuid row.1.id
  title := row.1.title
  subtitle := "KB · " ++ row.2.name
  href := "/knowledge/" ++ db.uuid row.1.knowledgeBaseId ++ "?doc=" ++ db.uuid row.1.id

def conversationHit (c : Conversation) : SearchHit where
  kind := "conversation"
  id := db.uuid c.id
  title := (c.title.filter (· ≠ "")).getD "(无标题)"
  subtitle := ""
  href := "/agents/" ++ db.uuid c.agentId ++ "?conv=" ++ db.uuid c.id

variable (q : List Char) (userId limit : Nat)

/-- `like` -/
def likePattern (q : List Char) : List Char := '%' :: (q ++ ['%'])

/-- `_search_kbs` -/
def searchKbs : Option (List SearchHit) :=
  (topRows (fun kb : KnowledgeBase => kb.createdBy = userId)
    (fun kb => either (db.ilike kb.name (likePattern q)) (db.ilikeColumn kb.description (likePattern q)))
    (fun kb => rankOf (db.ilike kb.name) [q, q ++ ['%'], likePattern q])
    KnowledgeBase.updatedAt (fun kb => db.tie kb.id) limit db.knowledgeBases).map fun rows =>
      rows.map db.kbHit

/-- The documents with their knowledge bases. -/
def documentRows : List (Document × KnowledgeBase) :=
  db.documents.flatMap fun d => (db.knowledgeBases.filter fun kb => kb.id = d.knowledgeBaseId).map (d, ·)

/-- `_search_documents` -/
def searchDocuments : Option (List SearchHit) :=
  (topRows (fun row : Document × KnowledgeBase => row.2.createdBy = userId ∧ row.1.isArchived = false)
    (fun row => db.ilike row.1.title (likePattern q))
    (fun row => rankOf (db.ilike row.1.title) [q, q ++ ['%']])
    (fun row => row.1.updatedAt) (fun row => db.tie row.1.id) limit db.documentRows).map fun rows =>
      rows.map db.documentHit

/-- `_search_conversations` -/
def searchConversations : Option (List SearchHit) :=
  (topRows (fun c : Conversation => c.userId = userId ∧ c.title.isSome)
    (fun c => db.ilikeColumn c.title (likePattern q))
    (fun c => rankOf (db.ilikeColumn c.title) [q, q ++ ['%']])
    Conversation.updatedAt (fun c => db.tie c.id) limit db.conversations).map fun rows =>
      rows.map db.conversationHit

end Database

structure SearchResult where
  kbs : List SearchHit := []
  documents : List SearchHit := []
  conversations : List SearchHit := []

/-- `search`; `none` where the database refuses a pattern. -/
def search (db : Database) (query : String) (userId limitPerDomain : Nat) : Option SearchResult :=
  let q := (strip query).toList
  if q.length < 2 then some {}
  else
    (db.searchKbs q userId limitPerDomain).bind fun kbs =>
      (db.searchDocuments q userId limitPerDomain).bind fun documents =>
        (db.searchConversations q userId limitPerDomain).map fun conversations =>
          { kbs := kbs, documents := documents, conversations := conversations }

/-! ## What a query may show -/

section Queries

variable {ρ : Type} {isVisible : ρ → Bool} {found : ρ → Option Bool} {rank : ρ → Option Nat}
variable {updatedAt tie : ρ → Nat} {limit : Nat} {rows shown : List ρ}

theorem mem_of_mapM {α β : Type} {f : α → Option β} {xs : List α} {ys : List β} (h : xs.mapM f = some ys) :
    ∀ y ∈ ys, ∃ x ∈ xs, f x = some y := by
  induction xs generalizing ys with
  | nil =>
      cases h
      exact fun y hy => by cases hy
  | cons x xs ih =>
      rw [List.mapM_cons] at h
      obtain ⟨y, hy, hrest⟩ := Option.bind_eq_some_iff.1 h
      obtain ⟨ys', hys', heq⟩ := Option.bind_eq_some_iff.1 hrest
      cases heq
      intro z hz
      rcases List.mem_cons.1 hz with rfl | hz
      · exact ⟨x, List.mem_cons_self, hy⟩
      · obtain ⟨x', hx', hfx⟩ := ih hys' z hz
        exact ⟨x', List.mem_cons_of_mem x hx', hfx⟩

/-- Only rows of the user are shown, whatever the pattern. -/
theorem visible_of_topRows (h : topRows isVisible found rank updatedAt tie limit rows = some shown) :
    ∀ row ∈ shown, row ∈ rows ∧ isVisible row = true := by
  obtain ⟨ranked, hranked, rfl⟩ := Option.map_eq_some_iff.1 h
  intro row hrow
  obtain ⟨p, hp, rfl⟩ := List.mem_map.1 hrow
  have hmem := mem_orderBy.1 (List.mem_of_mem_take hp)
  obtain ⟨o, ho, hid⟩ := List.mem_filterMap.1 hmem
  cases hid
  obtain ⟨row', hrow', hf⟩ := mem_of_mapM hranked (some p) ho
  obtain ⟨matched, -, hselect⟩ := Option.bind_eq_some_iff.1 hf
  split at hselect
  · obtain ⟨k, -, hk⟩ := Option.map_eq_some_iff.1 hselect
    cases hk
    exact List.mem_filter.1 hrow'
  · cases hselect

theorem filterMap_filter_pairs (isVisible matched : ρ → Bool) (k : ρ → Nat) (rows : List ρ) :
    (rows.filter isVisible).filterMap (fun row => if matched row then some (k row, row) else none) =
      (rows.filter fun row => isVisible row && matched row).map fun row => (k row, row) := by
  induction rows with
  | nil => rfl
  | cons row rows ih =>
      cases hvisible : isVisible row with
      | false => simpa [hvisible] using ih
      | true =>
          cases hmatched : matched row with
          | false => simpa [hvisible, hmatched] using ih
          | true => simpa [hvisible, hmatched] using ih

/-- Where no pattern is an error, the rows that match are listed by rank and time, up to the limit. -/
theorem topRows_eq {matched : ρ → Bool} {k : ρ → Nat} (hfound : ∀ row, found row = some (matched row))
    (hrank : ∀ row, rank row = some (k row)) : ∃ shown,
      Listing (fun row => toLex (k row, OrderDual.toDual (updatedAt row)))
        (rows.filter fun row => isVisible row && matched row) shown ∧
      topRows isVisible found rank updatedAt tie limit rows = some (shown.take limit) := by
  let select : ρ → Option (Nat × ρ) := fun row => if matched row then some (k row, row) else none
  have hmapM : ((rows.filter isVisible).mapM fun row => (found row).bind fun matched =>
      if matched then (rank row).map fun k => some (k, row) else some none) =
        some ((rows.filter isVisible).map select) := by
    have hstep : (fun row => (found row).bind fun matched =>
        if matched then (rank row).map fun k => some (k, row) else some none) =
          fun row => pure (select row) := by
      funext row
      rw [hfound, hrank]
      show (if matched row then _ else _) = some (if matched row then _ else _)
      split
      · rfl
      · rfl
    rw [hstep, List.mapM_pure]
    rfl
  have hpairs : ((rows.filter isVisible).map select).filterMap id =
      (rows.filter fun row => isVisible row && matched row).map fun row => (k row, row) := by
    rw [List.filterMap_map]
    exact filterMap_filter_pairs isVisible matched k rows
  let base : Nat × ρ → Nat ×ₗ Natᵒᵈ := fun p => toLex (p.1, OrderDual.toDual (updatedAt p.2))
  let key : Nat × ρ → (Nat ×ₗ Natᵒᵈ) ×ₗ Nat := fun p => toLex (base p, tie p.2)
  let pairs := (rows.filter fun row => isVisible row && matched row).map fun row => (k row, row)
  have hlisting : Listing base pairs (orderBy key pairs) := by
    refine listing_orderBy (fun a b h => ?_) pairs
    rcases Prod.Lex.le_iff.1 h with hlt | ⟨heq, -⟩
    · exact hlt.le
    · exact heq.le
  refine ⟨(orderBy key pairs).map Prod.snd, ⟨?_, ?_⟩, ?_⟩
  · have hperm := hlisting.perm.map Prod.snd
    rw [List.map_map] at hperm
    exact hperm.trans (List.Perm.of_eq (List.map_id _))
  · rw [List.pairwise_map]
    refine hlisting.sorted.imp_of_mem ?_
    intro a b ha hb hab
    have hsame : ∀ p ∈ orderBy key pairs, k p.2 = p.1 := by
      intro p hp
      obtain ⟨row, -, rfl⟩ := List.mem_map.1 (mem_orderBy.1 hp)
      rfl
    rw [hsame a ha, hsame b hb]
    exact hab
  · unfold topRows
    rw [hmapM, Option.map_some, hpairs, List.map_take]

end Queries

/-! ## Queries without wildcards -/

namespace Database

variable (db : Database) (q : List Char)

/-- Folding changes letters only. -/
def FoldsLetters : Prop := db.fold '%' = '%' ∧ ∀ c, IsPlain c → IsPlain (db.fold c)

def folded (text : String) : List Char := text.toList.map db.fold

def has (text : String) : Bool := decide (q.map db.fold <:+: db.folded text)

/-- The rank of a title that has the query. -/
def titleRank (title : String) : Nat :=
  if db.folded title = q.map db.fold then 0
  else if q.map db.fold <+: db.folded title then 1
  else 2

/-- The rank of a name; the query may be in the description only. -/
def nameRank (name : String) : Nat :=
  if db.folded name = q.map db.fold then 0
  else if q.map db.fold <+: db.folded name then 1
  else if q.map db.fold <:+: db.folded name then 2
  else 3

variable {db q} (hfold : db.FoldsLetters) (hq : ∀ c ∈ q, IsPlain c)

include hfold hq

theorem plain_map_fold : ∀ c ∈ q.map db.fold, IsPlain c :=
  List.forall_mem_map.2 fun c hc => hfold.2 c (hq c hc)

theorem ilike_query (text : String) :
    db.ilike text q = some (decide (db.folded text = q.map db.fold)) :=
  like_plain (plain_map_fold hfold hq) _

theorem ilike_start (text : String) :
    db.ilike text (q ++ ['%']) = some (decide (q.map db.fold <+: db.folded text)) := by
  unfold ilike
  rw [List.map_append, List.map_singleton, hfold.1]
  exact like_plain_percent (plain_map_fold hfold hq) _

theorem ilike_inside (text : String) : db.ilike text (likePattern q) = some (db.has q text) := by
  unfold ilike likePattern
  rw [List.map_cons, List.map_append, List.map_singleton, hfold.1]
  exact like_percent_plain_percent (plain_map_fold hfold hq) _

theorem rankOf_title (title : String) :
    rankOf (db.ilike title) [q, q ++ ['%']] = some (db.titleRank q title) := by
  unfold titleRank
  simp only [rankOf, ilike_query hfold hq, ilike_start hfold hq, Option.bind_some, decide_eq_true_eq]
  split
  · rfl
  · split
    · rfl
    · rfl

theorem rankOf_name (name : String) :
    rankOf (db.ilike name) [q, q ++ ['%'], likePattern q] = some (db.nameRank q name) := by
  unfold nameRank
  simp only [rankOf, ilike_query hfold hq, ilike_start hfold hq, ilike_inside hfold hq, has,
    Option.bind_some, decide_eq_true_eq]
  split
  · rfl
  · split
    · rfl
    · split
      · rfl
      · rfl

theorem either_inside (name : String) (description : Option String) :
    either (db.ilike name (likePattern q)) (db.ilikeColumn description (likePattern q)) =
      some (db.has q name || description.any (db.has q)) := by
  rw [ilike_inside hfold hq]
  unfold either ilikeColumn
  cases description with
  | none => cases db.has q name <;> rfl
  | some d =>
      rw [Option.elim_some, ilike_inside hfold hq]
      cases db.has q name <;> rfl

theorem ilikeColumn_inside (title : Option String) :
    db.ilikeColumn title (likePattern q) = some (title.any (db.has q)) := by
  cases title with
  | none => rfl
  | some title => exact ilike_inside hfold hq title

theorem rankOf_column (title : Option String) :
    rankOf (db.ilikeColumn title) [q, q ++ ['%']] = some (title.elim 2 (db.titleRank q)) := by
  cases title with
  | none => rfl
  | some title => exact rankOf_title hfold hq title

end Database

/-! ## The result -/

namespace Database

variable (db : Database) (q : List Char) (userId : Nat)

/-- The knowledge bases of the user that have the query in the name or the description. -/
def foundKbs : List KnowledgeBase :=
  db.knowledgeBases.filter fun kb =>
    decide (kb.createdBy = userId) && (db.has q kb.name || kb.description.any (db.has q))

/-- The documents in knowledge bases of the user, not archived, with the query in the title. -/
def foundDocuments : List (Document × KnowledgeBase) :=
  db.documentRows.filter fun row =>
    decide (row.2.createdBy = userId ∧ row.1.isArchived = false) && db.has q row.1.title

/-- The conversations of the user with the query in the title. -/
def foundConversations : List Conversation :=
  db.conversations.filter fun c =>
    decide (c.userId = userId ∧ c.title.isSome = true) && c.title.any (db.has q)

/-- Each part of the result is about rows that the user may see. -/
structure Shows (result : SearchResult) : Prop where
  kbs : ∀ hit ∈ result.kbs, ∃ kb ∈ db.knowledgeBases, kb.createdBy = userId ∧ hit = db.kbHit kb
  documents : ∀ hit ∈ result.documents, ∃ d ∈ db.documents, ∃ kb ∈ db.knowledgeBases,
    kb.id = d.knowledgeBaseId ∧ kb.createdBy = userId ∧ d.isArchived = false ∧ hit = db.documentHit (d, kb)
  conversations : ∀ hit ∈ result.conversations, ∃ c ∈ db.conversations,
    c.userId = userId ∧ c.title.isSome = true ∧ hit = db.conversationHit c

variable {db q userId}

theorem mem_documentRows {row : Document × KnowledgeBase} :
    row ∈ db.documentRows ↔
      row.1 ∈ db.documents ∧ row.2 ∈ db.knowledgeBases ∧ row.2.id = row.1.knowledgeBaseId := by
  obtain ⟨d, kb⟩ := row
  unfold documentRows
  rw [List.mem_flatMap]
  constructor
  · rintro ⟨d', hd', hrow⟩
    obtain ⟨kb', hkb', heq⟩ := List.mem_map.1 hrow
    cases heq
    obtain ⟨hmem, hid⟩ := List.mem_filter.1 hkb'
    exact ⟨hd', hmem, of_decide_eq_true hid⟩
  · rintro ⟨hd, hkb, hid⟩
    exact ⟨d, hd, List.mem_map.2 ⟨kb, List.mem_filter.2 ⟨hkb, decide_eq_true hid⟩, rfl⟩⟩

/-- Whatever the query, as wildcards are only about what matches. -/
theorem shows_of_search {query : String} {limit : Nat} {result : SearchResult}
    (h : search db query userId limit = some result) : db.Shows userId result := by
  simp only [search] at h
  split at h
  · cases h
    exact ⟨List.forall_mem_nil _, List.forall_mem_nil _, List.forall_mem_nil _⟩
  · obtain ⟨kbs, hkbs, h⟩ := Option.bind_eq_some_iff.1 h
    obtain ⟨documents, hdocuments, h⟩ := Option.bind_eq_some_iff.1 h
    obtain ⟨conversations, hconversations, rfl⟩ := Option.map_eq_some_iff.1 h
    obtain ⟨kbRows, hkbRows, rfl⟩ := Option.map_eq_some_iff.1 hkbs
    obtain ⟨rows, hrows, rfl⟩ := Option.map_eq_some_iff.1 hdocuments
    obtain ⟨cs, hcs, rfl⟩ := Option.map_eq_some_iff.1 hconversations
    refine ⟨fun hit hhit => ?_, fun hit hhit => ?_, fun hit hhit => ?_⟩
    · obtain ⟨kb, hkb, rfl⟩ := List.mem_map.1 hhit
      obtain ⟨hmem, hvisible⟩ := visible_of_topRows hkbRows kb hkb
      exact ⟨kb, hmem, of_decide_eq_true hvisible, rfl⟩
    · obtain ⟨row, hrow, rfl⟩ := List.mem_map.1 hhit
      obtain ⟨hmem, hvisible⟩ := visible_of_topRows hrows row hrow
      obtain ⟨hd, hkb, hid⟩ := mem_documentRows.1 hmem
      obtain ⟨howner, harchived⟩ := of_decide_eq_true hvisible
      exact ⟨row.1, hd, row.2, hkb, hid, howner, harchived, rfl⟩
    · obtain ⟨c, hc, rfl⟩ := List.mem_map.1 hhit
      obtain ⟨hmem, hvisible⟩ := visible_of_topRows hcs c hc
      obtain ⟨howner, htitle⟩ := of_decide_eq_true hvisible
      exact ⟨c, hmem, howner, htitle, rfl⟩

section Plain

variable (hfold : db.FoldsLetters) (hq : ∀ c ∈ q, IsPlain c)

include hfold hq

theorem searchKbs_plain (limit : Nat) : ∃ rows,
    Listing (fun kb : KnowledgeBase => toLex (db.nameRank q kb.name, OrderDual.toDual kb.updatedAt))
      (db.foundKbs q userId) rows ∧
    db.searchKbs q userId limit = some ((rows.take limit).map db.kbHit) := by
  obtain ⟨rows, hrows, htop⟩ := topRows_eq
    (fun kb : KnowledgeBase => either_inside hfold hq kb.name kb.description)
    (fun kb => rankOf_name hfold hq kb.name)
  refine ⟨rows, hrows, ?_⟩
  unfold searchKbs
  rw [htop]
  rfl

theorem searchDocuments_plain (limit : Nat) : ∃ rows,
    Listing (fun row : Document × KnowledgeBase =>
        toLex (db.titleRank q row.1.title, OrderDual.toDual row.1.updatedAt))
      (db.foundDocuments q userId) rows ∧
    db.searchDocuments q userId limit = some ((rows.take limit).map db.documentHit) := by
  obtain ⟨rows, hrows, htop⟩ := topRows_eq
    (fun row : Document × KnowledgeBase => ilike_inside hfold hq row.1.title)
    (fun row => rankOf_title hfold hq row.1.title)
  refine ⟨rows, hrows, ?_⟩
  unfold searchDocuments
  rw [htop]
  rfl

theorem searchConversations_plain (limit : Nat) : ∃ rows,
    Listing (fun c : Conversation =>
        toLex (c.title.elim 2 (db.titleRank q), OrderDual.toDual c.updatedAt))
      (db.foundConversations q userId) rows ∧
    db.searchConversations q userId limit = some ((rows.take limit).map db.conversationHit) := by
  obtain ⟨rows, hrows, htop⟩ := topRows_eq
    (fun c : Conversation => ilikeColumn_inside hfold hq c.title)
    (fun c => rankOf_column hfold hq c.title)
  refine ⟨rows, hrows, ?_⟩
  unfold searchConversations
  rw [htop]
  rfl

end Plain

end Database

open Database in
/-- A search shows only what the user may see; and for a query without wildcards it shows, in each
domain, the first of what has the query: the same title, then titles that begin with it, then the
others, the latest first. -/
theorem search_ranked (db : Database) (query : String) (userId limit : Nat) :
    (∀ result, search db query userId limit = some result → db.Shows userId result) ∧
    (db.FoldsLetters → 2 ≤ (strip query).toList.length → (∀ c ∈ (strip query).toList, IsPlain c) →
      ∃ kbs documents conversations,
        Listing (fun kb : KnowledgeBase =>
            toLex (db.nameRank (strip query).toList kb.name, OrderDual.toDual kb.updatedAt))
          (db.foundKbs (strip query).toList userId) kbs ∧
        Listing (fun row : Document × KnowledgeBase =>
            toLex (db.titleRank (strip query).toList row.1.title, OrderDual.toDual row.1.updatedAt))
          (db.foundDocuments (strip query).toList userId) documents ∧
        Listing (fun c : Conversation =>
            toLex (c.title.elim 2 (db.titleRank (strip query).toList), OrderDual.toDual c.updatedAt))
          (db.foundConversations (strip query).toList userId) conversations ∧
        search db query userId limit = some {
          kbs := (kbs.take limit).map db.kbHit
          documents := (documents.take limit).map db.documentHit
          conversations := (conversations.take limit).map db.conversationHit }) := by
  refine ⟨fun result h => shows_of_search h, fun hfold hlong hq => ?_⟩
  obtain ⟨kbs, hkbs, hsearchKbs⟩ := searchKbs_plain hfold hq limit
  obtain ⟨documents, hdocuments, hsearchDocuments⟩ := searchDocuments_plain hfold hq limit
  obtain ⟨conversations, hconversations, hsearchConversations⟩ :=
    searchConversations_plain hfold hq limit
  refine ⟨kbs, documents, conversations, hkbs, hdocuments, hconversations, ?_⟩
  simp only [search]
  rw [if_neg (not_lt.2 hlong), hsearchKbs, hsearchDocuments, hsearchConversations]
  rfl

/-- Two users; a knowledge base that has the query in its description and a conversation without title. -/
def handbook : Database where
  knowledgeBases :=
    [⟨1, "Runbooks", some "for Ops", 7, 3⟩, ⟨2, "ops", none, 7, 1⟩, ⟨3, "Ops notes", none, 8, 2⟩]
  documents := [⟨4, "Ops on call", 1, false, 5⟩, ⟨5, "Ops, old", 1, true, 6⟩, ⟨6, "DevOps", 3, false, 9⟩]
  conversations := [⟨7, none, 7, 9, 4⟩, ⟨8, some "on ops", 7, 9, 4⟩]
  fold c := if c = 'O' then 'o' else c
  tie := id
  uuid := toString

theorem handbook_foldsLetters : handbook.FoldsLetters := by
  refine ⟨by decide, fun c hc => ?_⟩
  show IsPlain (if c = 'O' then 'o' else c)
  split
  · decide
  · exact hc

open Database in
theorem search_ranked_handbook : ∃ kbs documents conversations,
    Listing (fun kb : KnowledgeBase =>
        toLex (handbook.nameRank (strip " Ops ").toList kb.name, OrderDual.toDual kb.updatedAt))
      (handbook.foundKbs (strip " Ops ").toList 7) kbs ∧
    Listing (fun row : Document × KnowledgeBase =>
        toLex (handbook.titleRank (strip " Ops ").toList row.1.title, OrderDual.toDual row.1.updatedAt))
      (handbook.foundDocuments (strip " Ops ").toList 7) documents ∧
    Listing (fun c : Conversation =>
        toLex (c.title.elim 2 (handbook.titleRank (strip " Ops ").toList), OrderDual.toDual c.updatedAt))
      (handbook.foundConversations (strip " Ops ").toList 7) conversations ∧
    search handbook " Ops " 7 8 = some {
      kbs := (kbs.take 8).map handbook.kbHit
      documents := (documents.take 8).map handbook.documentHit
      conversations := (conversations.take 8).map handbook.conversationHit } := by
  have hstrip : (strip " Ops ").toList = ['O', 'p', 's'] := by decide
  refine (search_ranked handbook " Ops " 7 8).2 handbook_foldsLetters ?_ ?_
  · rw [hstrip]
    decide
  · rw [hstrip]
    simp [IsPlain]

end OpsKnowledge.System
