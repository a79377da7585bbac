import OpsKnowledge.Orchestrator.Models

/-!
# Metadata paths and the four matchers

`metadata.py` and `matchers/`. `casefold` and the regular expressions of the standard
library are parameters. A matcher answers whether the rule fires, or raises.
-/

namespace OpsKnowledge.Orchestrator

open Workflow (Json)

/-! ## Metadata -/

def buildMetadata (userId userRole : String) (departmentId : Option String)
    (callerMetadata : Option Json) : Json :=
  .obj [
    ("trusted", .obj [("user", .obj [
      ("id", .str userId),
      ("role", .str userRole),
      ("department_id", (departmentId.map Json.str).getD .null)])]),
    ("input", callerMetadata.getD (.obj []))]

def resolveSegments : List String → Json → Json
  | [], cur => cur
  | seg :: segs, .obj fields =>
      match fields.lookup seg with
      | none | some .null => .null
      | some next => resolveSegments segs next
  | _ :: _, _ => .null

/-- `user.role` stands for `metadata.trusted.user.role`; a missing segment gives `None`. -/
def resolveTrustedPath (metadata : Json) (path : String) : Json :=
  resolveSegments ((path.toList.splitOn '.').map String.ofList)
    ((metadata.get? "trusted").getD (.obj []))

/-! ## Matchers -/

/-- `compile` gives the search of a pattern under its flags, or `none` for `re.error`. -/
structure Library where
  casefold : String → String
  compile : String → List String → Option (String → Bool)

structure MatchInput where
  message : String
  metadata : Json
  config : OrchestratorConfig
  /-- The `_classifier_result` that the engine puts into the configuration. -/
  classifierResult : Option ClassifierOutput := none

/-- `actual is not None and actual <op> expected` -/
def ordered (test : Ordering → Bool) (actual expected : Json) : Except Exn Bool :=
  match actual with
  | .null => .ok false
  | actual =>
      match pyCompare actual expected with
      | none => .error (.typeError "not supported between instances")
      | some ordering => .ok (test ordering)

/-- `expected or []` -/
def orEmptyList (expected : Json) : Json := if expected.truthy then expected else .arr []

def applyOp (actual op expected : Json) : Except Exn Bool :=
  match op with
  | .str "==" => .ok (pyEq actual expected)
  | .str "!=" => .ok (!pyEq actual expected)
  | .str "in" => pyIn actual (orEmptyList expected)
  | .str "not_in" => do return !(← pyIn actual (orEmptyList expected))
  | .str ">" => ordered Ordering.isGT actual expected
  | .str "<" => ordered Ordering.isLT actual expected
  | .str ">=" => ordered Ordering.isGE actual expected
  | .str "<=" => ordered Ordering.isLE actual expected
  | .str op => .error (.valueError s!"unknown op: {op}")
  | _ => .error (.valueError "unknown op")

/-- `except TypeError: matched = False` -/
def unlessTypeError : Except Exn Bool → Except Exn Bool
  | .error (.typeError _) => .ok false
  | result => result

def matchCondition (config : Json) (input : MatchInput) : Except Exn Bool := do
  let path ← getItem "path" config
  let op ← getItem "op" config
  let expected ← getItem "value" config
  match path with
  | .str path =>
      if path ∈ input.config.trustedMetadataPaths then
        unlessTypeError (applyOp (resolveTrustedPath input.metadata path) op expected)
      else return false
  | _ => return false

/-- One round of the loop over the keywords. -/
def keywordHit (library : Library) (caseSensitive : Bool) (message : String) (kw : Json) :
    Except Exn Bool :=
  let haystack := if caseSensitive then message else library.casefold message
  match kw, caseSensitive with
  | .str kw, _ =>
      let probe := if caseSensitive then kw else library.casefold kw
      .ok (probe ≠ "" && decide (probe.toList <:+: haystack.toList))
  | _, false => .error (.attributeError "casefold")
  | kw, true =>
      if kw.truthy then .error (.typeError "'in <string>' requires string as left operand")
      else .ok false

def matchKeyword (library : Library) (config : Json) (input : MatchInput) : Except Exn Bool := do
  let anyOf ← getField "any_of" config
  let caseSensitive ← getField "case_sensitive" config
  let keywords ← elements (orEmptyList anyOf)
  let hits ← keywords.mapM (keywordHit library caseSensitive.truthy input.message)
  return hits.any id

/-- The flags that `_flags_to_re` combines. -/
def flagsToRe (flags : Json) : Except Exn (List String) := do
  let flags ← elements flags
  flags.mapM fun
    | .str flag => if flag ∈ ["i", "m", "s"] then return flag else throw (.keyError flag)
    | .arr _ | .obj _ => throw (.typeError "unhashable type")
    | _ => throw (.keyError "flag")

def matchRegex (library : Library) (config : Json) (input : MatchInput) : Except Exn Bool := do
  let pattern ← getItem "pattern" config
  let flags ← getField "flags" config
  let flags ← flagsToRe (if flags.truthy then flags else .str "")
  match pattern with
  | .str pattern =>
      match library.compile pattern flags with
      | none => return false
      | some search => return search input.message
  | _ => throw (.typeError "first argument must be string or compiled pattern")

def matchLlmIntent (config : Json) (input : MatchInput) : Except Exn Bool := do
  let expectedCategory ← getItem "category" config
  match input.classifierResult with
  | none => return false
  | some result =>
      let threshold := (input.config.classifier.map (·.confidenceThreshold)).getD (3 / 5)
      return pyEq (.str result.category) expectedCategory && decide (threshold ≤ result.confidence)

/-- `MATCHERS` -/
def matchers (library : Library) (matchType : String) :
    Option (Json → MatchInput → Except Exn Bool) :=
  if matchType = "condition" then some matchCondition
  else if matchType = "keyword" then some (matchKeyword library)
  else if matchType = "regex" then some (matchRegex library)
  else if matchType = "llm_intent" then some matchLlmIntent
  else none

/-- There are matchers for four match types. -/
theorem matchers_eq_some {library : Library} {matchType : String}
    {matcher : Json → MatchInput → Except Exn Bool}
    (h : matchers library matchType = some matcher) :
    matchType = "condition" ∧ matcher = matchCondition ∨
      matchType = "keyword" ∧ matcher = matchKeyword library ∨
      matchType = "regex" ∧ matcher = matchRegex library ∨
      matchType = "llm_intent" ∧ matcher = matchLlmIntent := by
  unfold matchers at h
  split at h
  · next htype => exact .inl ⟨htype, (Option.some.inj h).symm⟩
  · split at h
    · next htype => exact .inr (.inl ⟨htype, (Option.some.inj h).symm⟩)
    · split at h
      · next htype => exact .inr (.inr (.inl ⟨htype, (Option.some.inj h).symm⟩))
      · split at h
        · next htype => exact .inr (.inr (.inr ⟨htype, (Option.some.inj h).symm⟩))
        · cases h

end OpsKnowledge.Orchestrator
