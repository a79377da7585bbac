import OpsKnowledge.Lib.Attribute
import OpsKnowledge.Lib.Transition
import OpsKnowledge.Knowledge.ChunkService
import OpsKnowledge.Orchestrator.Models

/-!
# The edit history of a chunk

`edit_chunk` appends to `edit_history` and `annotate_chunk` sets keys of `metadata`, each
in its own transaction. Both take the object that the session loaded, change it and assign
it back, so the session sees a change only where the column was empty.
-/

namespace OpsKnowledge.Knowledge

open OpsKnowledge.Lib
open Workflow (Json)
open Orchestrator (pyEq)

/-- An entry of `edit_history`; a split and a merge give their rows one. -/
inductive EditRecord where
  | edit (userId : Nat) (timestamp : String) (previousContent : String)
  | split (userId : Nat) (timestamp : String) (sourceChunkId : Nat)
  | merge (userId : Nat) (timestamp : String) (sourceChunkIds : List Nat)
  deriving DecidableEq

def EditRecord.previousContent? : EditRecord → Option String
  | .edit _ _ previousContent => some previousContent
  | _ => none

/-- The columns that the two calls read and write. -/
structure StoredChunk where
  content : String
  isManuallyEdited : Bool := false
  vectorId : Option Nat := none
  tokenCount : Nat := 0
  editHistory : Option (List EditRecord) := none
  metadata : Option (Dict String Json) := none

/-- A column that is null or empty. -/
def emptyHistory (history : Option (List EditRecord)) : Bool := (history.getD []).isEmpty

def emptyMetadata (metadata : Option (Dict String Json)) : Bool :=
  metadata.all fun m => m.entries.isEmpty

/-- How the column type compares two values. -/
def sameMetadata : Option (Dict String Json) → Option (Dict String Json) → Bool
  | none, none => true
  | some m, some m' => pyEq (.obj m.entries) (.obj m'.entries)
  | _, _ => false

namespace StoredChunk

variable (c : StoredChunk)

def editChunk (userId : Nat) (timestamp newContent : String) : StoredChunk :=
  let record := EditRecord.edit userId timestamp c.content
  let history := (Attribute.load c.editHistory).changeAndAssign emptyHistory (some [])
    fun history => history.map (· ++ [record])
  { c with
    content := newContent
    isManuallyEdited := true
    vectorId := none
    tokenCount := wordCount newContent
    editHistory := history.saved (fun h h' => h = h') c.editHistory }

/-- What `annotate_chunk` sets in the dictionary. -/
def annotated (tags : Option (List String)) (notes : Option String) (m : Dict String Json) :
    Dict String Json :=
  let m := match tags with
    | some tags => m.set "tags" (.arr (tags.map .str))
    | none => m
  match notes with
  | some notes => m.set "notes" (.str notes)
  | none => m

def annotateChunk (tags : Option (List String)) (notes : Option String) : StoredChunk :=
  let meta_ := (Attribute.load c.metadata).changeAndAssign emptyMetadata (some Dict.empty)
    fun m => m.map (annotated tags notes)
  { c with metadata := meta_.saved sameMetadata c.metadata }

/-- The chunk with the other columns of a row. -/
def toChunk (row : Chunk) : Chunk :=
  { row with
    content := c.content, isManuallyEdited := c.isManuallyEdited, vectorId := c.vectorId
    tokenCount := c.tokenCount, metadata := c.metadata.getD Dict.empty }

end StoredChunk

inductive ChunkCall where
  | edit (userId : Nat) (timestamp newContent : String)
  | annotate (tags : Option (List String)) (notes : Option String)

def StoredChunk.commit (c : StoredChunk) : ChunkCall → StoredChunk
  | .edit userId timestamp newContent => c.editChunk userId timestamp newContent
  | .annotate tags notes => c.annotateChunk tags notes

/-! ## What the calls are for -/

/-- The content, every content that it had, and the last annotations. -/
structure Ledger where
  content : String
  previous : List String
  tags : Option Json
  notes : Option Json

def Ledger.record (l : Ledger) : ChunkCall → Ledger
  | .edit _ _ newContent => { l with content := newContent, previous := l.previous ++ [l.content] }
  | .annotate tags notes =>
      { l with
        tags := (tags.map fun tags => Json.arr (tags.map .str)).or l.tags
        notes := (notes.map Json.str).or l.notes }

def StoredChunk.ledger (c : StoredChunk) : Ledger :=
  { content := c.content
    previous := (c.editHistory.getD []).filterMap EditRecord.previousContent?
    tags := c.metadata.bind (·.get? "tags")
    notes := c.metadata.bind (·.get? "notes") }

/-- A chunk as it is stored, beside what should be recorded of it. -/
def recordStep (s : StoredChunk × Ledger) (call : ChunkCall) : Option (StoredChunk × Ledger) :=
  some (s.1.commit call, s.2.record call)

def Recorded (s : StoredChunk × Ledger) : Prop := s.1.ledger = s.2

/-- An edit of a chunk without a history; annotations of a chunk without metadata, or which it has. -/
def StoredChunk.Records (c : StoredChunk) : ChunkCall → Prop
  | .edit _ _ _ => emptyHistory c.editHistory = true
  | .annotate tags notes => emptyMetadata c.metadata = true ∨
      (∀ t ∈ tags, c.metadata.bind (·.get? "tags") = some (.arr (t.map .str))) ∧
        ∀ n ∈ notes, c.metadata.bind (·.get? "notes") = some (.str n)

namespace StoredChunk

variable {c : StoredChunk}

/-! ## What is stored -/

theorem toChunk_editChunk (userId : Nat) (timestamp newContent : String) (row : Chunk) :
    (c.editChunk userId timestamp newContent).toChunk row = editedChunk (c.toChunk row) newContent := rfl

theorem editHistory_editChunk (userId : Nat) (timestamp newContent : String) :
    (c.editChunk userId timestamp newContent).editHistory =
      if emptyHistory c.editHistory = true then some [.edit userId timestamp c.content]
      else c.editHistory :=
  Attribute.saved_changeAndAssign c.editHistory fun _ heq => (of_decide_eq_true heq).symm

/-- Only an empty dictionary is the same as an empty one. -/
theorem eq_of_sameMetadata {m : Option (Dict String Json)} {m' : Dict String Json}
    (hempty : emptyMetadata m = true) (h : sameMetadata m (some m') = true) : some m' = m := by
  cases m with
  | none => cases h
  | some m =>
      have hnil : m.entries = [] := List.isEmpty_iff.1 hempty
      have hlen : m'.entries = [] := by
        simp only [sameMetadata, pyEq, hnil, Bool.and_eq_true, decide_eq_true_eq] at h
        exact List.length_eq_zero_iff.1 h.1.symm
      obtain ⟨entries, _⟩ := m
      obtain ⟨entries', _⟩ := m'
      obtain rfl : entries = [] := hnil
      obtain rfl : entries' = [] := hlen
      rfl

theorem metadata_annotateChunk (tags : Option (List String)) (notes : Option String) :
    (c.annotateChunk tags notes).metadata =
      if emptyMetadata c.metadata = true then some (annotated tags notes Dict.empty) else c.metadata :=
  Attribute.saved_changeAndAssign c.metadata fun hempty h => eq_of_sameMetadata hempty h

theorem get?_annotated (tags : Option (List String)) (notes : Option String) :
    (annotated tags notes Dict.empty).get? "tags" = tags.map (fun tags => Json.arr (tags.map .str)) ∧
      (annotated tags notes Dict.empty).get? "notes" = notes.map Json.str := by
  cases tags with
  | none =>
      cases notes with
      | none => exact ⟨rfl, rfl⟩
      | some notes => simp [annotated, Dict.get?_set]
  | some tags =>
      cases notes with
      | none => simp [annotated, Dict.get?_set]
      | some notes => simp [annotated, Dict.get?_set]

/-! ## What is recorded -/

theorem ledger_editChunk (userId : Nat) (timestamp newContent : String) :
    (c.editChunk userId timestamp newContent).ledger =
        c.ledger.record (.edit userId timestamp newContent) ↔ emptyHistory c.editHistory = true := by
  have hledger : (c.editChunk userId timestamp newContent).ledger =
      { c.ledger with
        content := newContent
        previous := ((c.editChunk userId timestamp newContent).editHistory.getD []).filterMap
          EditRecord.previousContent? } := rfl
  rw [hledger, editHistory_editChunk]
  simp only [Ledger.record, ledger, Ledger.mk.injEq, true_and, and_true]
  split
  · next hempty =>
      have hnil : c.editHistory.getD [] = [] := List.isEmpty_iff.1 hempty
      simp [hnil, hempty, EditRecord.previousContent?]
  · next hkept => simp [hkept]

theorem ledger_annotateChunk (tags : Option (List String)) (notes : Option String) :
    (c.annotateChunk tags notes).ledger = c.ledger.record (.annotate tags notes) ↔
      c.Records (.annotate tags notes) := by
  have hledger : (c.annotateChunk tags notes).ledger =
      { c.ledger with
        tags := (c.annotateChunk tags notes).metadata.bind (·.get? "tags")
        notes := (c.annotateChunk tags notes).metadata.bind (·.get? "notes") } := rfl
  rw [hledger, metadata_annotateChunk]
  simp only [Ledger.record, ledger, Ledger.mk.injEq, true_and, Records]
  split
  · next hempty =>
      have hnone : ∀ key, c.metadata.bind (·.get? key) = none := by
        intro key
        cases hmeta : c.metadata with
        | none => rfl
        | some m =>
            rw [hmeta] at hempty
            have hnil : m.entries = [] := List.isEmpty_iff.1 hempty
            simp [Dict.get?, hnil]
      obtain ⟨htags, hnotes⟩ := get?_annotated tags notes
      simp [hnone, htags, hnotes, hempty]
  · next hkept =>
      rw [or_iff_right hkept]
      apply and_congr
      · cases tags with
        | none => simp
        | some tags => simp
      · cases notes with
        | none => simp
        | some notes => simp

theorem ledger_commit (c : StoredChunk) (call : ChunkCall) :
    (c.commit call).ledger = c.ledger.record call ↔ c.Records call := by
  cases call with
  | edit userId timestamp newContent => exact ledger_editChunk userId timestamp newContent
  | annotate tags notes => exact ledger_annotateChunk tags notes

end StoredChunk

/-- In a run of edits and annotations every stored state holds all previous contents and the last
annotations exactly when each edit finds no history and each annotation no metadata, or its own. -/
theorem recorded_iff (c : StoredChunk) (calls : List ChunkCall) :
    Visits recordStep Recorded (c, c.ledger) calls ↔
      EveryStep recordStep (fun s call => s.1.Records call) (c, c.ledger) calls := by
  have hstart : Recorded (c, c.ledger) := rfl
  refine visits_iff_everyStep ?_ hstart calls
  rintro ⟨c, l⟩ call s' hs h
  obtain rfl : c.ledger = l := hs
  obtain rfl := Option.some.inj h
  exact c.ledger_commit call

/-- The second edit is not recorded, and its content is gone with the third. -/
theorem second_edit_lost : ¬ ∀ (c : StoredChunk) (calls : List ChunkCall),
    Visits recordStep Recorded (c, c.ledger) calls := by
  intro hall
  have hvisits := hall { content := "first" } [.edit 1 "10:00" "second", .edit 1 "11:00" "third"]
  have hsteps := hvisits.2 _ rfl
  have hlast := (hsteps.2 _ rfl).head
  have hprevious : ["first"] = ["first", "second"] := congrArg Ledger.previous hlast
  exact absurd hprevious (by decide)

end OpsKnowledge.Knowledge
