import OpsKnowledge.Lib.JsonText
import OpsKnowledge.Lib.Quoting
import OpsKnowledge.Sources.EntryImport

/-!
# The sandbox of the Python runner

The runner starts a child for every piece of user code. The inputs go to the child as JSON in
its environment; the outputs come back as a line of its standard output that begins with a
sentinel, behind whatever the code itself has written there.
-/

namespace OpsKnowledge.Runner

open OpsKnowledge.Lib
open Sources (Loaded isLineBreak)

/-! ## Lines -/

/-- `str.splitlines` -/
def splitlines : List Char → List (List Char)
  | [] => []
  | '\r' :: '\n' :: s => [] :: splitlines s
  | c :: s =>
    if isLineBreak c then [] :: splitlines s
    else match splitlines s with
      | [] => [[c]]
      | line :: lines => (c :: line) :: lines

/-! ## The user's code -/

/-- How a piece of code ends: with a value, by `SystemExit`, by another exception, or by a signal. -/
inductive Ending (α : Type) where
  | value (a : α)
  | exited (returncode : Int)
  | raised (traceback : List Char)
  | killed (returncode : Int)

/-- What running a piece of code writes, and how it ends. -/
structure Ran (α : Type) where
  stdout : List Char
  stderr : List Char
  ending : Ending α

abbrev Members := List (String × JsonValue)

/-- What `main(_inputs)` returns, and what the given `outputs` holds then. -/
structure MainValue where
  returned : JsonValue
  outputs : Members

/-- What the given `outputs` holds after the module has run, and its `main`, if that can be called. -/
structure ModuleValue where
  outputs : Members
  main : Option (Ran MainValue)

/-- The code of a user, for each value of `inputs`. -/
abbrev UserCode := JsonValue → Ran ModuleValue

/-- A run that goes on with the value of another one. -/
def Ran.bind {α β : Type} (r : Ran α) (next : α → Ran β) : Ran β :=
  match r.ending with
  | .value a => ⟨r.stdout ++ (next a).stdout, r.stderr ++ (next a).stderr, (next a).ending⟩
  | .exited returncode => ⟨r.stdout, r.stderr, .exited returncode⟩
  | .raised traceback => ⟨r.stdout, r.stderr, .raised traceback⟩
  | .killed returncode => ⟨r.stdout, r.stderr, .killed returncode⟩

/-- What the wrapper takes for `_outputs`: `main` is called if the module has left `outputs` empty. -/
def takeOutputs (m : ModuleValue) : Ran Members :=
  match m.main with
  | none => ⟨[], [], .value m.outputs⟩
  | some r =>
    if m.outputs ≠ [] then ⟨[], [], .value m.outputs⟩
    else r.bind fun v => ⟨[], [], .value (match v.returned with
      | .obj res => res
      | _ => v.outputs)⟩

/-- The body of the wrapper's `try`. -/
def userRun (code : UserCode) (inputs : JsonValue) : Ran Members := (code inputs).bind takeOutputs

/-! ## The child -/

def runnerSentinel : List Char := "__RUNNER_OUTPUT__".toList

/-- A process that has ended. -/
structure Proc where
  returncode : Int
  stdout : List Char
  stderr : List Char

/-- The Python of the child, and the tracebacks of what its `json.dumps` and `json.loads` raise. -/
structure Child where
  reprFloat : Double → String
  depth : Nat
  dumpsTraceback : List Char
  loadsTraceback : List Char

namespace Child

variable (child : Child)

/-- The wrapper around the code. -/
def wrapper (code : UserCode) (runnerInputs : String) : Proc :=
  match loads child.depth runnerInputs with
  | none => ⟨1, [], child.loadsTraceback⟩
  | some inputs =>
    let r := userRun code inputs
    match r.ending with
    | .exited returncode => ⟨returncode, r.stdout, r.stderr⟩
    | .raised traceback => ⟨2, r.stdout, r.stderr ++ traceback⟩
    | .killed returncode => ⟨returncode, r.stdout, r.stderr⟩
    | .value outputs =>
      match dumps child.reprFloat child.depth (.obj outputs) with
      | none => ⟨1, r.stdout, r.stderr ++ child.dumpsTraceback⟩
      | some text => ⟨0, r.stdout ++ '\n' :: (runnerSentinel ++ text.toList ++ ['\n']), r.stderr⟩

end Child

/-! ## The runner -/

structure RunResult where
  outputs : JsonValue
  stdout : List Char
  stderr : List Char

inductive RunError where
  | runnerTimeout (message : List Char)
  | resourceExhausted (message : List Char)
  | runtimeError (message : List Char)
  | raised

/-- The Python of the runner. What its `json.loads` raises is a `JSONDecodeError` or not. -/
structure Parent where
  reprFloat : Double → String
  depth : Nat
  loads : String → Loaded
  loads_eq : ∀ s v, loads s = .value v ↔ Lib.loads depth s = some v

/-- What becomes of a child, apart from what its program does. -/
inductive Launch where
  | osError (message : List Char)
  | timeoutExpired
  | completes

/-- What has been found so far in the lines of the standard output. -/
structure Found where
  outputs : JsonValue
  preLines : List (List Char)

namespace Parent

variable (runner : Parent)

/-- One round of the loop over the lines; `none` where it raises. -/
def readLine (found : Found) (line : List Char) : Option Found :=
  if runnerSentinel.isPrefixOf line then
    let rest := line.drop runnerSentinel.length
    match runner.loads (if rest = [] then "\x7b\x7d" else String.ofList rest) with
    | .value outputs => some { found with outputs }
    | .decodeError => some { found with outputs := .obj [] }
    | .raised => none
  else some { found with preLines := found.preLines ++ [line] }

/-- What is made of a child that has ended. -/
def collect (proc : Proc) : Except RunError RunResult :=
  if proc.returncode = -9 ∨ "MemoryError".toList <:+: proc.stderr then
    .error (.resourceExhausted "memory or CPU limit exceeded".toList)
  else if proc.returncode ≠ 0 then
    .error (.runtimeError ("user code exited with ".toList ++ (toString proc.returncode).toList ++
      ": ".toList ++ proc.stderr.take 500))
  else match (splitlines proc.stdout).foldlM runner.readLine ⟨.obj [], []⟩ with
    | none => .error .raised
    | some found => .ok ⟨found.outputs, ['\n'].intercalate found.preLines, proc.stderr⟩

/-- `run_python_code` -/
def runPythonCode (child : Child) (launch : Launch) (timeout : String) (code : UserCode)
    (inputs : JsonValue) : Except RunError RunResult :=
  match dumps runner.reprFloat runner.depth inputs with
  | none => .error .raised
  | some runnerInputs =>
    match launch with
    | .osError message => .error (.resourceExhausted message)
    | .timeoutExpired =>
      .error (.runnerTimeout ("wall-clock ".toList ++ timeout.toList ++ "s exceeded".toList))
    | .completes => runner.collect (child.wrapper code runnerInputs)

end Parent

/-! ## Lines of a standard output -/

/-- A character that does not begin a `\r\n`. -/
theorem splitlines_cons {c : Char} {s : List Char} (h : c = '\r' → s.head? ≠ some '\n') :
    splitlines (c :: s) = if isLineBreak c then [] :: splitlines s
      else match splitlines s with
        | [] => [[c]]
        | line :: lines => (c :: line) :: lines := by
  rw [splitlines.eq_3]
  rintro t rfl rfl
  exact h rfl rfl

theorem splitlines_newline_cons (s : List Char) : splitlines ('\n' :: s) = [] :: splitlines s := by
  rw [splitlines_cons (fun h => by cases h), if_pos (by decide)]

theorem splitlines_ne_nil (c : Char) (s : List Char) : splitlines (c :: s) ≠ [] := by
  by_cases h : c = '\r' → s.head? ≠ some '\n'
  · rw [splitlines_cons h]
    split
    · exact List.cons_ne_nil _ _
    · split
      · exact List.cons_ne_nil _ _
      · exact List.cons_ne_nil _ _
  · obtain ⟨rfl, hhead⟩ := Classical.not_imp.1 h
    obtain ⟨s, rfl⟩ := List.head?_eq_some_iff.1 (not_not.1 hhead)
    rw [splitlines]
    exact List.cons_ne_nil _ _

/-- A character that is no line break is a part of the first line. -/
theorem splitlines_cons_append {c : Char} (hc : isLineBreak c = false) {s t : List Char}
    (h : splitlines (s ++ '\n' :: t) = splitlines (s ++ ['\n']) ++ splitlines t) :
    splitlines (c :: s ++ '\n' :: t) = splitlines (c :: s ++ ['\n']) ++ splitlines t := by
  have hcr : ∀ u : List Char, c = '\r' → u.head? ≠ some '\n' := by
    rintro u rfl
    cases hc
  obtain ⟨d, u, hdu⟩ : ∃ d u, s ++ ['\n'] = d :: u := List.exists_cons_of_ne_nil (by simp)
  obtain ⟨line, lines, hlines⟩ := List.exists_cons_of_ne_nil (splitlines_ne_nil d u)
  rw [← hdu] at hlines
  rw [List.cons_append, List.cons_append, splitlines_cons (hcr _), splitlines_cons (hcr _), h, hlines]
  simp [hc]

/-- The text behind a newline has lines of its own. -/
theorem splitlines_append_newline (s t : List Char) :
    splitlines (s ++ '\n' :: t) = splitlines (s ++ ['\n']) ++ splitlines t := by
  fun_induction splitlines s with
  | case1 =>
      rw [List.nil_append, List.nil_append, splitlines_newline_cons, splitlines_newline_cons, splitlines]
      rfl
  | case2 s ih =>
      have hpair : ∀ s, splitlines ('\r' :: '\n' :: s) = [] :: splitlines s := splitlines.eq_2
      rw [List.cons_append, List.cons_append, hpair, ih, List.cons_append, List.cons_append, hpair]
      rfl
  | case3 c s hpair hbreak ih =>
      by_cases hcr : c = '\r' ∧ s = []
      · obtain ⟨rfl, rfl⟩ := hcr
        have hpair : ∀ s, splitlines ('\r' :: '\n' :: s) = [] :: splitlines s := splitlines.eq_2
        rw [List.cons_append, List.nil_append, hpair, List.cons_append, List.nil_append, hpair, splitlines]
        rfl
      · have hhead : ∀ t, c = '\r' → (s ++ '\n' :: t).head? ≠ some '\n' := by
          rintro t rfl
          cases s with
          | nil => exact absurd ⟨rfl, rfl⟩ hcr
          | cons d s =>
              intro heq
              cases heq
              exact hpair s rfl rfl
        rw [List.cons_append, splitlines_cons (hhead t), if_pos hbreak, ih, List.cons_append,
          splitlines_cons (hhead []), if_pos hbreak]
        rfl
  | case4 c s hpair hbreak hnil ih => exact splitlines_cons_append (by simpa using hbreak) ih
  | case5 c s hpair hbreak line lines hcons ih => exact splitlines_cons_append (by simpa using hbreak) ih

/-- A line without line breaks in it. -/
theorem splitlines_line {s : List Char} (h : ∀ c ∈ s, isLineBreak c = false) :
    splitlines (s ++ ['\n']) = [s] := by
  induction s with
  | nil => rw [List.nil_append, splitlines_newline_cons, splitlines]
  | cons c s ih =>
      rw [List.forall_mem_cons] at h
      have hcr : c = '\r' → (s ++ ['\n']).head? ≠ some '\n' := by
        rintro rfl
        cases h.1
      rw [List.cons_append, splitlines_cons hcr, ih h.2]
      simp [h.1]

theorem isLineBreak_of_isPrintable {c : Char} (h : IsPrintable c) : isLineBreak c = false := by
  obtain ⟨h₁, h₂⟩ := h
  simp only [isLineBreak, Bool.or_eq_false_iff, Bool.and_eq_false_iff, decide_eq_false_iff_not]
  omega

/-! ## The loop over the lines -/

namespace Parent

variable (runner : Parent)

/-- A line whose outputs cannot be read, for another reason than its being no JSON. -/
def raises (line : List Char) : Bool :=
  runnerSentinel.isPrefixOf line &&
    match runner.loads (if line.drop runnerSentinel.length = [] then "\x7b\x7d"
      else String.ofList (line.drop runnerSentinel.length)) with
    | .raised => true
    | _ => false

variable {runner}

theorem readLine_of_raises (found : Found) {line : List Char} (h : runner.raises line = true) :
    runner.readLine found line = none := by
  obtain ⟨hsentinel, hload⟩ := (Bool.and_eq_true _ _).mp h
  unfold readLine
  rw [if_pos hsentinel]
  dsimp only
  split
  · next heq =>
      rw [heq] at hload
      cases hload
  · next heq =>
      rw [heq] at hload
      cases hload
  · rfl

/-- The lines of the code itself are those without the sentinel. -/
def ownLines (lines : List (List Char)) : List (List Char) :=
  lines.filter fun line => !runnerSentinel.isPrefixOf line

theorem readLine_of_not_raises (found : Found) {line : List Char} (h : runner.raises line = false) :
    ∃ outputs, runner.readLine found line = some ⟨outputs, found.preLines ++ ownLines [line]⟩ := by
  unfold raises at h
  unfold readLine ownLines
  split
  · next hsentinel =>
      rw [hsentinel, Bool.true_and] at h
      dsimp only
      split
      · next outputs heq => exact ⟨outputs, by simp [hsentinel]⟩
      · exact ⟨.obj [], by simp [hsentinel]⟩
      · next heq =>
          rw [heq] at h
          cases h
  · next hsentinel => exact ⟨found.outputs, by simp [hsentinel]⟩

/-- The loop ends early at a line that raises, and keeps the code's own lines otherwise. -/
theorem foldlM_readLine (found : Found) (lines : List (List Char)) :
    (lines.any runner.raises = true ∧ lines.foldlM runner.readLine found = none) ∨
      (lines.any runner.raises = false ∧ ∃ outputs, lines.foldlM runner.readLine found =
        some ⟨outputs, found.preLines ++ ownLines lines⟩) := by
  induction lines generalizing found with
  | nil => exact .inr ⟨rfl, found.outputs, by simp [ownLines]⟩
  | cons line lines ih =>
      rw [List.any_cons, List.foldlM_cons]
      cases hline : runner.raises line with
      | true =>
          rw [readLine_of_raises found hline]
          exact .inl ⟨rfl, rfl⟩
      | false =>
          obtain ⟨outputs, hread⟩ := readLine_of_not_raises found hline
          have happend : ownLines (line :: lines) = ownLines [line] ++ ownLines lines := by
            unfold ownLines
            rw [← List.filter_append, List.singleton_append]
          rw [hread, happend, ← List.append_assoc]
          exact ih ⟨outputs, found.preLines ++ ownLines [line]⟩

/-- The line of the wrapper sets the outputs, whatever has set them before. -/
theorem readLine_frame (found : Found) {text : List Char} {outputs : JsonValue} (hne : text ≠ [])
    (h : Lib.loads runner.depth (String.ofList text) = some outputs) :
    runner.readLine found (runnerSentinel ++ text) = some { found with outputs } := by
  unfold readLine
  rw [if_pos (List.isPrefixOf_iff_prefix.2 (List.prefix_append _ _)), List.drop_left]
  dsimp only
  rw [if_neg hne, (runner.loads_eq _ _).2 h]

end Parent

/-! ## Runs -/

section Runs

variable {runner : Parent} {child : Child} {code : UserCode} {inputs : JsonValue} {outputs : Members}

/-- A value that one Python writes and the other reads. -/
structure Passes (reprFloat : Double → String) (depth depth' : Nat) (v : JsonValue) : Prop where
  writable : v.writable depth = true
  readable : v.writable depth' = true
  floats : ∀ x ∈ v.floats, ReadsBack reprFloat x

theorem Passes.dumps {reprFloat : Double → String} {depth depth' : Nat} {v : JsonValue}
    (h : Passes reprFloat depth depth' v) :
    dumps reprFloat depth v = some (String.ofList (v.chars reprFloat)) := dumps_eq_some.2 ⟨h.writable, rfl⟩

theorem Passes.loads {reprFloat : Double → String} {depth depth' : Nat} {v : JsonValue}
    (h : Passes reprFloat depth depth' v) :
    loads depth' (String.ofList (v.chars reprFloat)) = some v := loads_of_dumps h.dumps h.readable h.floats

/-- The outputs are read from behind the code's own text, which keeps its lines. -/
theorem collect_frame (h : Passes child.reprFloat child.depth runner.depth (.obj outputs))
    (stdout stderr : List Char) :
    runner.collect ⟨0, stdout ++ '\n' :: (runnerSentinel ++ (JsonValue.obj outputs).chars child.reprFloat ++
        ['\n']), stderr⟩ =
      if "MemoryError".toList <:+: stderr then
        .error (.resourceExhausted "memory or CPU limit exceeded".toList)
      else if (splitlines (stdout ++ ['\n'])).any runner.raises then .error .raised
      else .ok ⟨.obj outputs,
        ['\n'].intercalate (Parent.ownLines (splitlines (stdout ++ ['\n']))), stderr⟩ := by
  have hsentinel : ∀ c ∈ runnerSentinel, IsPrintable c := isPrintable_of_all (by decide)
  have hbreak : ∀ c ∈ runnerSentinel ++ (JsonValue.obj outputs).chars child.reprFloat,
      isLineBreak c = false := by
    intro c hc
    apply isLineBreak_of_isPrintable
    rcases List.mem_append.1 hc with hc | hc
    · exact hsentinel c hc
    · exact isPrintable_chars h.writable h.floats c hc
  have hne : (JsonValue.obj outputs).chars child.reprFloat ≠ [] := List.cons_ne_nil _ _
  unfold Parent.collect
  dsimp only
  rw [splitlines_append_newline, splitlines_line hbreak, List.foldlM_append]
  have hzero : ¬(0 : Int) = -9 := by decide
  by_cases hmemory : "MemoryError".toList <:+: stderr
  · rw [if_pos (.inr hmemory), if_pos hmemory]
  · rw [if_neg (not_or.2 ⟨hzero, hmemory⟩), if_neg hmemory, if_neg (not_not.2 rfl)]
    rcases runner.foldlM_readLine ⟨.obj [], []⟩ (splitlines (stdout ++ ['\n'])) with
      ⟨hraises, hfold⟩ | ⟨hraises, before, hfold⟩
    · rw [hfold, if_pos hraises]
      rfl
    · rw [hfold, if_neg (by simp [hraises])]
      dsimp only [Option.bind_eq_bind, Option.bind_some]
      rw [List.foldlM_cons, runner.readLine_frame _ hne h.loads]
      rfl

/-- The value of the user's code comes back as it was, and so do the lines that it wrote: the runner
fails only where the errors speak of memory or a line of the code's own passes for outputs that raise. -/
theorem runPythonCode_of_value (timeout : String)
    (hinputs : Passes runner.reprFloat runner.depth child.depth inputs)
    (hvalue : (userRun code inputs).ending = .value outputs)
    (houtputs : Passes child.reprFloat child.depth runner.depth (.obj outputs)) :
    runner.runPythonCode child .completes timeout code inputs =
      if "MemoryError".toList <:+: (userRun code inputs).stderr then
        .error (.resourceExhausted "memory or CPU limit exceeded".toList)
      else if (splitlines ((userRun code inputs).stdout ++ ['\n'])).any runner.raises then .error .raised
      else .ok ⟨.obj outputs,
        ['\n'].intercalate (Parent.ownLines (splitlines ((userRun code inputs).stdout ++ ['\n']))),
        (userRun code inputs).stderr⟩ := by
  unfold Parent.runPythonCode Child.wrapper
  rw [hinputs.dumps]
  dsimp only
  rw [hinputs.loads]
  dsimp only
  rw [hvalue]
  dsimp only
  rw [houtputs.dumps]
  dsimp only
  rw [String.toList_ofList]
  exact collect_frame houtputs _ _

end Runs

/-- A Python that takes whatever it cannot read for no JSON. -/
def Parent.lenient (reprFloat : Double → String) (depth : Nat) : Parent where
  reprFloat
  depth
  loads s := match Lib.loads depth s with
    | some v => .value v
    | none => .decodeError
  loads_eq s v := by
    cases h : Lib.loads depth s with
    | none => simp
    | some w => simp

/-- Code that doubles an input, writes a line of its own, and then one that looks like outputs. -/
def doubling : UserCode := fun inputs =>
  ⟨"hello\n__RUNNER_OUTPUT__[]\n".toList, [],
    .value ⟨[("y", .int (match inputs with
      | .obj [("x", .int n)] => 2 * n
      | _ => 0))], none⟩⟩

theorem runPythonCode_doubling :
    (Parent.lenient (fun _ => "0.0") 9).runPythonCode ⟨fun _ => "0.0", 9, [], []⟩ .completes "5.0" doubling
      (.obj [("x", .int 3)]) = .ok ⟨.obj [("y", .int 6)], "hello\n".toList, []⟩ := by
  have hpasses : ∀ name n, (Nat.toDigits 10 n).length ≤ maxStrDigits →
      Passes (fun _ => "0.0") 9 9 (.obj [(name, .int n)]) := by
    intro name n hn
    have hw : (JsonValue.obj [(name, .int n)]).writable 9 = true := by
      simpa [JsonValue.writable, JsonValue.membersWritable] using hn
    refine ⟨hw, hw, ?_⟩
    intro x hx
    cases hx
  have hvalue : (userRun doubling (.obj [("x", .int 3)])).ending = .value [("y", .int 6)] := rfl
  rw [runPythonCode_of_value "5.0" (hpasses "x" 3 (by decide)) hvalue (hpasses "y" 6 (by decide))]
  rfl

end OpsKnowledge.Runner
