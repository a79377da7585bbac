import OpsKnowledge.Lib.Dict
import OpsKnowledge.Workflow.Dsl

/-!
# Knowledge bases: rows

The tables of `app/knowledge/models.py` that the modelled services read and write. Ids are
numbers; a `vector_id` is the id of the chunk it was stored for.
-/

namespace OpsKnowledge.Knowledge

open OpsKnowledge.Lib
open Workflow (Json)

/-- What the modelled code raises. -/
inductive Exn where
  | notFound (entity : String) (id : Nat)
  | validation (msg : String)
  | forbidden (msg : String)
  deriving DecidableEq, Repr

inductive UnitType where
  | document
  | entry
  deriving DecidableEq, Repr

inductive DocumentStatus where
  | pending
  | processing
  | completed
  | error
  deriving DecidableEq, Repr

inductive ReviewStatus where
  | pending
  | approved
  | rejected
  deriving DecidableEq, Repr

structure KnowledgeBase where
  id : Nat
  reviewRequired : Bool := false
  chunkCount : Int := 0

structure Document where
  id : Nat
  knowledgeBaseId : Nat
  folderId : Option Nat := none
  status : DocumentStatus := .pending
  chunkCount : Int := 0
  isArchived : Bool := false
  reviewStatus : Option ReviewStatus := none

structure KnowledgeEntry where
  id : Nat
  knowledgeBaseId : Nat
  folderId : Option Nat := none
  title : String
  content : String
  contentHash : Option String := none
  tags : List String := []
  autoTags : List String := []
  isArchived : Bool := false
  reviewStatus : Option ReviewStatus := none

structure Chunk where
  id : Nat
  unitType : UnitType
  unitId : Nat
  knowledgeBaseId : Nat
  folderId : Option Nat := none
  content : String
  parentChunkId : Option Nat := none
  level : Nat := 0
  position : Nat := 0
  tokenCount : Nat := 0
  vectorId : Option Nat := none
  isManuallyEdited : Bool := false
  reviewExcluded : Bool := false
  metadata : Dict String Json := Dict.empty
  chunkTags : List String := []

/-- `Chunk.unit_type == unit_type, Chunk.unit_id == unit_id` -/
def Chunk.inUnit (unitType : UnitType) (unitId : Nat) (c : Chunk) : Bool :=
  c.unitType = unitType ∧ c.unitId = unitId

theorem Chunk.inUnit_iff {unitType : UnitType} {unitId : Nat} {c : Chunk} :
    c.inUnit unitType unitId = true ↔ c.unitType = unitType ∧ c.unitId = unitId := by
  simp [Chunk.inUnit]

/-- A chunk outside a unit of its own type has another unit. -/
theorem Chunk.unitId_ne_of_inUnit_eq_false {unitType : UnitType} {unitId : Nat} {c : Chunk}
    (h : c.inUnit unitType unitId = false) (htype : c.unitType = unitType) : c.unitId ≠ unitId := by
  intro hid
  rw [inUnit_iff.2 ⟨htype, hid⟩] at h
  cases h

end OpsKnowledge.Knowledge
