import Mathlib.Tactic.Common
import OpsKnowledge.Lib.Dict
import OpsKnowledge.Lib.Literals
import OpsKnowledge.Lib.Scan

/-!
# The execution context

`app/workflow/context.py`: selectors and templates over the outputs of the nodes and the
variables of the workflow. The patterns of a template read the only text that their regular
expressions can match at a place.
-/

namespace OpsKnowledge.Workflow

open OpsKnowledge.Lib

/-- A Python value as a template sees it; `other` has its `str` and its `repr`. -/
inductive Value where
  | none
  | str (s : String)
  | other (str repr : String)
  | list (xs : List Value)
  | dict (entries : List (String × Value))

/-- What a `SelectorError` is raised for. -/
inductive SelectorError where
  | tooShort (selector : List String)
  | noOutput (nodeId : String)
  | fieldNotFound (part : String) (available : List String)
  | invalidIndex (part : String)
  | notContainer (part : String)
  | undefinedVariable (head : String)
  deriving DecidableEq

structure ExecutionContext where
  workflowVariables : Dict String Value
  nodeOutputs : Dict String (Dict String Value)

/-! ## Values -/

/-- `xs[i]` -/
def index (xs : List Value) (i : Int) : Option Value :=
  if 0 ≤ i then xs[i.toNat]? else if -i ≤ xs.length then xs[(xs.length + i).toNat]? else Option.none

variable (u : Unicode)

mutual

/-- `repr(val)` -/
def Value.repr : Value → String
  | .none => "None"
  | .str s => reprString u s
  | .other _ r => r
  | .list xs => "[" ++ ", ".intercalate (Value.reprs xs) ++ "]"
  | .dict entries => "\x7b" ++ ", ".intercalate (Value.reprEntries entries) ++ "\x7d"

def Value.reprs : List Value → List String
  | [] => []
  | x :: xs => x.repr :: Value.reprs xs

def Value.reprEntries : List (String × Value) → List String
  | [] => []
  | (k, x) :: entries => (reprString u k ++ ": " ++ x.repr) :: Value.reprEntries entries

end

/-- `_stringify` -/
def stringify : Value → String
  | .str s => s
  | .none => ""
  | .other s _ => s
  | .list xs => (Value.list xs).repr u
  | .dict entries => (Value.dict entries).repr u

/-- One step of `_dig`. -/
def descend (cur : Value) (part : String) : Except SelectorError Value :=
  match cur with
  | .dict entries =>
    match entries.lookup part with
    | some x => .ok x
    | none => .error (.fieldNotFound part (entries.map Prod.fst))
  | .list xs =>
    match (intOfString u part).bind (index xs) with
    | some x => .ok x
    | none => .error (.invalidIndex part)
  | _ => .error (.notContainer part)

theorem descend_of_lookup_eq_some {entries : List (String × Value)} {part : String} {x : Value}
    (h : entries.lookup part = some x) : descend u (.dict entries) part = .ok x := by
  unfold descend
  dsimp only
  rw [h]

theorem descend_of_lookup_eq_none {entries : List (String × Value)} {part : String}
    (h : entries.lookup part = none) :
    descend u (.dict entries) part = .error (.fieldNotFound part (entries.map Prod.fst)) := by
  unfold descend
  dsimp only
  rw [h]

/-- `_dig` -/
def dig (root : Value) (path : List String) : Except SelectorError Value := path.foldlM (descend u) root

variable (ctx : ExecutionContext)

def resolveSelector (selector : List String) : Except SelectorError Value :=
  match selector with
  | nodeId :: field :: rest =>
    if nodeId = "vars" then dig u (.dict ctx.workflowVariables.entries) (field :: rest)
    else
      match ctx.nodeOutputs.get? nodeId with
      | some output => dig u (.dict output.entries) (field :: rest)
      | none => .error (.noOutput nodeId)
  | _ => .error (.tooShort selector)

/-! ## Placeholders -/

def isWord (c : Char) : Bool := c.isAlphanum || c = '_'

def isPathChar (c : Char) : Bool := isWord c || c = '.' || c = '[' || c = ']'

def isVarStart (c : Char) : Bool := c.isAlpha || c = '_'

def isVarChar (c : Char) : Bool := isWord c || c = '.'

/-- `_TEMPLATE_RE` with its groups. -/
def nodePlaceholder : Pattern Char (List Char × List Char) := fun s => do
  let s ← expect ['{', '{', '#'] s
  let s := s.dropWhile isSpace
  let node := s.takeWhile isWord
  let s ← expect ['.'] (s.dropWhile isWord)
  let path := s.takeWhile isPathChar
  let rest ← expect ['#', '}', '}'] ((s.dropWhile isPathChar).dropWhile isSpace)
  if node = [] ∨ path = [] then none else some ((node, path), rest)

/-- `_VAR_RE` with its group. -/
def varPlaceholder : Pattern Char (List Char) := fun s => do
  let s ← expect ['{', '{'] s
  let s ← expect ['v', 'a', 'r', 's', '.'] (s.dropWhile isSpace)
  let path := s.takeWhile isVarChar
  let rest ← expect ['}', '}'] ((s.dropWhile isVarChar).dropWhile isSpace)
  if path.head?.any isVarStart then some (path, rest) else none

/-- `path.split(".")` -/
def splitPath (path : List Char) : List String := (path.splitOn '.').map String.ofList

/-- `_node_sub` -/
def nodeSub (m : List Char × List Char) : Except SelectorError (List Char) :=
  (resolveSelector u ctx (String.ofList m.1 :: splitPath m.2)).map fun v => (stringify u v).toList

/-- `_var_sub` -/
def varSub (path : List Char) : Except SelectorError (List Char) :=
  match splitPath path with
  | [] => .error (.undefinedVariable "")
  | head :: rest =>
    match ctx.workflowVariables.get? head with
    | some x => (dig u x rest).map fun v => (stringify u v).toList
    | none => .error (.undefinedVariable head)

/-- The text after the pass over the nodes. -/
def nodePass (text : List Char) : Except SelectorError (List Char) := nodePlaceholder.sub (nodeSub u ctx) text

/-- The text after the pass over the variables. -/
def varPass (text : List Char) : Except SelectorError (List Char) := varPlaceholder.sub (varSub u ctx) text

def resolveTemplate (text : String) : Except SelectorError String := do
  let text ← nodePass u ctx text.toList
  let text ← varPass u ctx text
  return String.ofList text

end OpsKnowledge.Workflow
