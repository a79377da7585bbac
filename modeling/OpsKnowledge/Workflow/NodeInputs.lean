import Mathlib.Data.List.Infix
import OpsKnowledge.Workflow.Context

/-!
# What a node is given

`_resolve_inputs` of `node_adapters.py` and the adapter around it, for any node class; three of the
classes read all their inputs and declare none. The sandbox of the templates and the client of the
runner are parameters.
-/

namespace OpsKnowledge.Workflow

open OpsKnowledge.Lib

/-- What resolving a reference raises. -/
inductive InputError where
  | template (e : SelectorError)
  | tooShort (selector : List Value)
  | noOutput (nodeId : Value)
  | fieldNotFound (part : Value) (available : List String)
  | invalidIndex (part : Value)
  | notContainer (part : Value)
  | unhashable (part : Value)

section Resolve

variable (u : Unicode) (ctx : ExecutionContext)

/-- `int()` of a truth value or a number, by its text; a large float is no index of any list. -/
def intOfNumber (s : String) : Option Int :=
  if s = "True" then some 1
  else if s = "False" then some 0
  else if ['e', '-'] <:+: s.toList then some 0
  else if 'e' ∈ s.toList then none
  else intOfString u (String.ofList (s.toList.takeWhile (· ≠ '.')))

def intOfPart : Value → Option Int
  | .str s => intOfString u s
  | .other s _ => intOfNumber u s
  | _ => none

/-- One step of `_dig`, by any value. -/
def descendBy (cur part : Value) : Except InputError Value :=
  match cur, part with
  | .dict entries, .str p =>
    match entries.lookup p with
    | some x => .ok x
    | none => .error (.fieldNotFound part (entries.map Prod.fst))
  | .dict _, .list _ => .error (.unhashable part)
  | .dict _, .dict _ => .error (.unhashable part)
  | .dict entries, _ => .error (.fieldNotFound part (entries.map Prod.fst))
  | .list xs, _ =>
    match (intOfPart u part).bind (index xs) with
    | some x => .ok x
    | none => .error (.invalidIndex part)
  | _, _ => .error (.notContainer part)

def digBy (root : Value) (path : List Value) : Except InputError Value := path.foldlM (descendBy u) root

/-- `resolve_selector` of a list as the JSON has it. -/
def selectBy (selector : List Value) : Except InputError Value :=
  match selector with
  | .str nodeId :: field :: rest =>
    if nodeId = "vars" then digBy u (.dict ctx.workflowVariables.entries) (field :: rest)
    else
      match ctx.nodeOutputs.get? nodeId with
      | some output => digBy u (.dict output.entries) (field :: rest)
      | none => .error (.noOutput (.str nodeId))
  | .list xs :: _ :: _ => .error (.unhashable (.list xs))
  | .dict entries :: _ :: _ => .error (.unhashable (.dict entries))
  | nodeId :: _ :: _ => .error (.noOutput nodeId)
  | _ => .error (.tooShort selector)

theorem toOption_descendBy_str (cur : Value) (part : String) :
    (descendBy u cur (.str part)).toOption = (descend u cur part).toOption := by
  unfold descendBy descend
  cases cur with
  | none => rfl
  | str s => rfl
  | other s r => rfl
  | list xs =>
      dsimp only [intOfPart]
      cases (intOfString u part).bind (index xs) <;> rfl
  | dict entries =>
      dsimp only
      cases entries.lookup part <;> rfl

theorem toOption_digBy_str (root : Value) (path : List String) :
    (digBy u root (path.map .str)).toOption = (dig u root path).toOption := by
  unfold digBy dig
  induction path generalizing root with
  | nil => rfl
  | cons part path ih =>
      rw [List.map_cons, List.foldlM_cons, List.foldlM_cons]
      have hstep := toOption_descendBy_str u root part
      cases hby : descendBy u root (.str part) with
      | error e =>
          cases hself : descend u root part with
          | error e' => rfl
          | ok v =>
              rw [hby, hself] at hstep
              exact absurd hstep nofun
      | ok v =>
          cases hself : descend u root part with
          | error e' =>
              rw [hby, hself] at hstep
              exact absurd hstep nofun
          | ok v' =>
              rw [hby, hself] at hstep
              cases hstep
              exact ih v

/-- On a list of strings it is `resolveSelector`. -/
theorem toOption_selectBy_str (selector : List String) :
    (selectBy u ctx (selector.map .str)).toOption = (resolveSelector u ctx selector).toOption := by
  cases selector with
  | nil => rfl
  | cons nodeId path =>
      cases path with
      | nil => rfl
      | cons field rest =>
          show (selectBy u ctx (.str nodeId :: .str field :: rest.map .str)).toOption = _
          unfold selectBy resolveSelector
          dsimp only
          by_cases hvars : nodeId = "vars"
          · rw [if_pos hvars, if_pos hvars]
            exact toOption_digBy_str u _ (field :: rest)
          · rw [if_neg hvars, if_neg hvars]
            cases ctx.nodeOutputs.get? nodeId with
            | none => rfl
            | some output => exact toOption_digBy_str u _ (field :: rest)

def fillTemplate (text : String) : Except InputError Value :=
  match resolveTemplate u ctx text with
  | .ok text => .ok (.str text)
  | .error e => .error (.template e)

/-- The loop body of `_resolve_inputs` for a reference that is not null. -/
def resolveRef : Value → Except InputError Value
  | .list selector => selectBy u ctx selector
  | .str text => fillTemplate u ctx text
  | ref => .ok ref

/-- The reference that binds an input. -/
def boundRef (raw : Dict String Value) (name : String) : Option Value :=
  match raw.get? name with
  | none => none
  | some .none => none
  | some ref => some ref

def bindInput (raw resolved : Dict String Value) (name : String) : Except InputError (Dict String Value) :=
  match boundRef raw name with
  | none => .ok resolved
  | some ref => (resolveRef u ctx ref).map (resolved.set name)

/-- `_resolve_inputs`, by the names that the class declares. -/
def resolveInputs (declared : List String) (raw : Dict String Value) :
    Except InputError (Dict String Value) :=
  declared.foldlM (bindInput u ctx raw) Dict.empty

end Resolve

/-! ## Classes -/

/-- `node_def.data`: the mapping under `inputs`, and what else the class reads. -/
structure NodeData where
  inputs : Dict String Value
  config : Dict String Value

structure NodeContext where
  inputs : Dict String Value
  config : Dict String Value

structure NodeResult where
  outputs : Dict String Value
  branch : Option String := none

inductive NodeError where
  | inputs (e : InputError)
  | keyError (key : String)
  | valueError (msg : String)
  | runtimeError (msg : String)

/-- A registered class; its `io.inputs` is a dictionary. -/
structure NodeClass where
  inputs : List String
  nodup : inputs.Nodup
  validate : NodeContext → Except NodeError Unit
  execute : NodeContext → Except NodeError NodeResult

/-- The update that an adapter returns for its node. -/
structure AdapterDelta where
  inputs : Dict String Value
  outputs : Dict String Value
  branch : Option String

/-- Validate and execute. -/
def NodeClass.run (cls : NodeClass) (c : NodeContext) : Except NodeError AdapterDelta := do
  cls.validate c
  let result ← cls.execute c
  return { inputs := c.inputs, outputs := result.outputs, branch := result.branch }

section Adapter

variable (u : Unicode) (ctx : ExecutionContext) (cls : NodeClass) (data : NodeData)

def nodeContext : Except NodeError NodeContext :=
  match resolveInputs u ctx cls.inputs data.inputs with
  | .ok inputs => .ok { inputs := inputs, config := data.config }
  | .error e => .error (.inputs e)

/-- The callable of `build_node_adapter`. -/
def adapter : Except NodeError AdapterDelta := do
  let c ← nodeContext u ctx cls data
  cls.run c

end Adapter

/-! ## Three classes -/

/-- The truth value of a Python value; a number by its text. -/
def isTruthy : Value → Bool
  | .none => false
  | .str s => s ≠ ""
  | .other s _ => s ∉ ["False", "0", "0.0", "-0.0"]
  | .list xs => !xs.isEmpty
  | .dict entries => !entries.isEmpty

/-- `str(val)` -/
def Value.text (u : Unicode) : Value → String
  | .str s => s
  | .other s _ => s
  | val => val.repr u

/-- `v not in (None, "")` -/
def isFilled : Value → Bool
  | .none => false
  | .str s => s ≠ ""
  | _ => true

/-- `v is not None` -/
def isPresent : Value → Bool
  | .none => false
  | _ => true

def firstFilled (values : List Value) : Value := (values.find? isFilled).getD .none

def mergeObjects (values : List Value) : Dict String Value :=
  values.foldl (fun merged v =>
    match v with
    | .dict entries => merged.assignAll entries
    | _ => merged) Dict.empty

def outputResult (v : Value) : NodeResult := { outputs := Dict.ofList [("output", v)] }

/-- `VariableAggregatorNode` -/
def variableAggregatorNode (u : Unicode) : NodeClass where
  inputs := []
  nodup := List.nodup_nil
  validate _ := .ok ()
  execute c :=
    let mode := (c.config.get? "mode").getD (.str "first_non_null")
    let values := c.inputs.entries.map Prod.snd
    match mode with
    | .str "first_non_null" => .ok (outputResult (firstFilled values))
    | .str "array" => .ok (outputResult (.list (values.filter isPresent)))
    | .str "merge_object" => .ok (outputResult (.dict (mergeObjects values).entries))
    | mode => .error (.valueError ("Variable Aggregator: unknown mode '" ++ mode.text u ++ "'"))

/-- The environment of the templates: what is wrong with a source, and its rendering. -/
structure TemplateSandbox where
  fromString : Value → Option String
  render : Value → Dict String Value → Except String String

/-- `TemplateNode` -/
def templateNode (jinja : TemplateSandbox) : NodeClass where
  inputs := []
  nodup := List.nodup_nil
  validate c :=
    let source := (c.config.get? "template").getD .none
    if !isTruthy source then .error (.valueError "Template: missing 'template' config")
    else
      match jinja.fromString source with
      | some e => .error (.valueError ("Template: invalid Jinja2 syntax: " ++ e))
      | none => .ok ()
  execute c :=
    match c.config.get? "template" with
    | none => .error (.keyError "template")
    | some source =>
      match jinja.render source c.inputs with
      | .ok rendered => .ok (outputResult (.str rendered))
      | .error e => .error (.runtimeError ("Template render failed: " ++ e))

/-- A call of the runner; the limits as configured. -/
structure RunnerRequest where
  code : Value
  inputs : Dict String Value
  timeout : Option Value
  memoryMb : Option Value

structure RunnerReply where
  ok : Bool
  outputs : Dict String Value
  error : String

/-- `CodeNode` -/
def codeNode (runner : RunnerRequest → Except String RunnerReply) : NodeClass where
  inputs := []
  nodup := List.nodup_nil
  validate c :=
    if !isTruthy ((c.config.get? "code").getD .none) then
      .error (.valueError "Code: missing 'code' config")
    else
      match (c.config.get? "language").getD (.str "python") with
      | .str "python" => .ok ()
      | _ => .error (.valueError "Code: only 'python' is supported in Phase 1b")
  execute c :=
    match c.config.get? "code" with
    | none => .error (.keyError "code")
    | some source =>
      match runner { code := source, inputs := c.inputs, timeout := c.config.get? "timeout"
                     memoryMb := c.config.get? "memory_mb" } with
      | .error e => .error (.runtimeError ("Runner unreachable: " ++ e))
      | .ok reply =>
        if reply.ok then .ok { outputs := reply.outputs }
        else .error (.runtimeError ("Code execution failed: " ++ reply.error))

/-! ## What the inputs mean -/

section Meaning

variable (u : Unicode) (ctx : ExecutionContext)

variable {u ctx} {raw : Dict String Value}

theorem adapter_of_undeclared (u : Unicode) (ctx : ExecutionContext) {cls : NodeClass}
    (h : cls.inputs = []) (data : NodeData) :
    adapter u ctx cls data = cls.run { inputs := .empty, config := data.config } := by
  have hcontext : nodeContext u ctx cls data = .ok { inputs := .empty, config := data.config } := by
    unfold nodeContext
    rw [h]
    rfl
  unfold adapter
  rw [hcontext]
  rfl

/-- Whatever their data binds, these three run on nothing. -/
theorem adapter_of_undeclaring_nodes (u : Unicode) (ctx : ExecutionContext) (jinja : TemplateSandbox)
    (runner : RunnerRequest → Except String RunnerReply) (data : NodeData) :
    let c : NodeContext := { inputs := .empty, config := data.config }
    adapter u ctx (variableAggregatorNode u) data = (variableAggregatorNode u).run c ∧
      adapter u ctx (templateNode jinja) data = (templateNode jinja).run c ∧
      adapter u ctx (codeNode runner) data = (codeNode runner).run c :=
  ⟨adapter_of_undeclared u ctx rfl data, adapter_of_undeclared u ctx rfl data,
    adapter_of_undeclared u ctx rfl data⟩

end Meaning

end OpsKnowledge.Workflow
