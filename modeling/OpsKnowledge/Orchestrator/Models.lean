import Mathlib.Data.List.Infix
import Mathlib.Data.Rat.Defs
import Mathlib.Algebra.Order.Ring.Unbundled.Rat
import OpsKnowledge.Workflow.Dsl

/-!
# Orchestrator agents: rules, configurations, events

The rows and values of `app/agent/orchestrator`, and Python's comparisons on the JSON
values that rules and metadata hold. Ids are numbers, priorities and confidences are
rationals.
-/

namespace OpsKnowledge.Orchestrator

open Workflow (Json)

/-- What the modelled code raises. -/
inductive Exn where
  | keyError (key : String)
  | typeError (msg : String)
  | attributeError (name : String)
  | valueError (msg : String)
  | moduleNotFound (name : String)
  | notFound (entity key : String)
  | validation (msg : String)
  | schema (msg : String)
  | integrityError (column : String)
  deriving DecidableEq, Repr

/-- A row of `agent_rules`. -/
structure AgentRule where
  id : Nat
  agentId : Nat
  priority : ℚ
  isActive : Bool := true
  version : Nat := 1
  matchType : String
  matchConfig : Json
  handlerType : String := "workflow"
  handlerId : Option Nat := none
  handlerConfig : Json := .obj []
  onHandlerError : String := "use_default"
  createdAt : Nat := 0

structure ClassifierCategory where
  name : String
  description : String := ""
  examples : List String := []
  deriving DecidableEq, Repr

structure ClassifierConfig where
  modelRegistryId : Nat
  categories : List ClassifierCategory
  confidenceThreshold : ℚ := 3 / 5
  cacheTtlSeconds : Nat := 300
  deriving DecidableEq, Repr

structure DefaultHandler where
  handlerType : String := "workflow"
  handlerId : Option Nat := none
  handlerConfig : Json := .obj []

structure OrchestratorConfig where
  classifier : Option ClassifierConfig := none
  defaultHandler : Option DefaultHandler := none
  trustedMetadataPaths : List String := []

structure ClassifierOutput where
  category : String
  confidence : ℚ
  cached : Bool
  deriving DecidableEq, Repr

structure OrchestratorEvent where
  type : String
  data : Json

/-! ## Python on JSON values -/

def isDict : Json → Bool
  | .obj _ => true
  | _ => false

/-- `True` and `False` are the integers 1 and 0. -/
def asInt? : Json → Option Int
  | .bool b => some (if b then 1 else 0)
  | .num n => some n
  | _ => none

mutual

/-- `a == b` -/
def pyEq : Json → Json → Bool
  | .null, .null => true
  | .bool a, b => asInt? (.bool a) = asInt? b
  | .num a, b => asInt? (.num a) = asInt? b
  | .str a, .str b => a = b
  | .arr xs, .arr ys => pyEqList xs ys
  | .obj fs, .obj gs => fs.length = gs.length && pyEqFields fs gs
  | _, _ => false

def pyEqList : List Json → List Json → Bool
  | [], [] => true
  | x :: xs, y :: ys => pyEq x y && pyEqList xs ys
  | _, _ => false

/-- Every field has an equal value under its key on the other side. -/
def pyEqFields : List (String × Json) → List (String × Json) → Bool
  | [], _ => true
  | (k, v) :: fs, gs =>
      match gs.lookup k with
      | none => false
      | some w => pyEq v w && pyEqFields fs gs

end

mutual

/-- How `<`, `>` and the like compare two values; `none` is a `TypeError`. -/
def pyCompare : Json → Json → Option Ordering
  | .bool a, b => (asInt? b).map fun n => compare (if a then 1 else 0) n
  | .num a, b => (asInt? b).map fun n => compare a n
  | .str a, .str b => some (compare a b)
  | .arr xs, .arr ys => pyCompareList xs ys
  | _, _ => none

/-- The first place where two lists differ decides, then their lengths. -/
def pyCompareList : List Json → List Json → Option Ordering
  | [], [] => some .eq
  | [], _ :: _ => some .lt
  | _ :: _, [] => some .gt
  | x :: xs, y :: ys => if pyEq x y then pyCompareList xs ys else pyCompare x y

end

/-- `a in b`; a string contains its parts, a dictionary its keys. -/
def pyIn (a b : Json) : Except Exn Bool :=
  match b, a with
  | .arr xs, _ => .ok (xs.any (pyEq a))
  | .str s, .str part => .ok (decide (part.toList <:+: s.toList))
  | .str _, _ => .error (.typeError "'in <string>' requires string as left operand")
  | .obj fields, .str key => .ok (fields.lookup key).isSome
  | .obj _, .arr _ => .error (.typeError "unhashable type: 'list'")
  | .obj _, .obj _ => .error (.typeError "unhashable type: 'dict'")
  | .obj _, _ => .ok false
  | _, _ => .error (.typeError "argument is not iterable")

/-- `d[key]` on a value that should be a dictionary. -/
def getItem (key : String) : Json → Except Exn Json
  | .obj fields =>
      match fields.lookup key with
      | none => .error (.keyError key)
      | some value => .ok value
  | _ => .error (.typeError "object is not subscriptable")

/-- `d.get(key)` on a value that should be a dictionary; a missing value is `None`. -/
def getField (key : String) : Json → Except Exn Json
  | .obj fields => .ok ((fields.lookup key).getD .null)
  | _ => .error (.attributeError "get")

/-- The elements that `for x in value` runs through. -/
def elements : Json → Except Exn (List Json)
  | .arr xs => .ok xs
  | .str s => .ok (s.toList.map fun c => .str (String.ofList [c]))
  | .obj fields => .ok (fields.map fun field => .str field.1)
  | _ => .error (.typeError "object is not iterable")

end OpsKnowledge.Orchestrator
