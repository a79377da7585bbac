import OpsKnowledge.Lib.Faults
import OpsKnowledge.Workflow.ExecutionRows
import OpsKnowledge.Workflow.Relay

/-!
# Resuming a paused execution

`_resume_and_cleanup` with `resume_execution` and `_run_with_langgraph` on the row of the execution
and the rows of its nodes, in one transaction. Any call may raise or be the last one of its process;
what is not committed is rolled back. What the graph streams for an input is a parameter.
-/

namespace OpsKnowledge.Workflow

open OpsKnowledge.Lib

/-! ## Tables -/

/-- A row of `workflow_executions`, as far as a resumption reads and writes it. -/
structure ExecutionRecord where
  id : Nat
  workflowVersion : Nat
  triggerInput : Bucket
  status : Status
  output : Dict String Bucket := .empty
  error : Option String := none

/-- A row of `node_executions`. -/
structure StoredNode extends NodeExecution where
  executionId : Nat

structure Tables where
  execution : ExecutionRecord
  rows : List StoredNode

/-! ## Runs of the graph -/

/-- The input of `astream`. -/
inductive GraphInput where
  | command (resume : Json)
  | state (initial : WorkflowState)

/-- What the compiled graph streams, and what its checkpointer answers after it. -/
structure GraphRun where
  snapshot : Option (Option FinalState)
  items : List RelayItem
  ending : StreamEnd

/-- The workflow's definitions, `str` of a value, and the runs of the graph by thread and input;
`none` is a task that is cancelled meanwhile. -/
structure ResumeEnv where
  draft : WorkflowDSL
  published : WorkflowDSL
  str : Json → String
  graph : String → GraphInput → Option GraphRun

def ResumeEnv.dsl (env : ResumeEnv) (execution : ExecutionRecord) : WorkflowDSL :=
  if execution.workflowVersion = 0 then env.draft else env.published

/-- The thread of the checkpointer. -/
def ResumeEnv.threadId (env : ResumeEnv) (execution : ExecutionRecord) : String :=
  match execution.triggerInput.get? "conversation_id" with
  | some conversationId => if conversationId.truthy then env.str conversationId else toString execution.id
  | none => toString execution.id

/-- `None` is the default of `resume_value`. -/
def ResumeEnv.graphInput (env : ResumeEnv) (execution : ExecutionRecord) (resumeValue : Json) : GraphInput :=
  if isNull resumeValue then
    .state (initialState execution.triggerInput
      (Dict.ofList ((env.dsl execution).workflowVariables.map fun v => (v.name, v.default))))
  else .command resumeValue

/-- The tuple of `_run_with_langgraph`. -/
structure PassResult where
  status : Status
  outputs : Dict String Bucket
  inputs : Dict String Bucket
  error : Option String

def passResult : Except String Returned → PassResult
  | .ok r =>
    { status := if r.interrupts.isSome then .waiting else .succeeded
      outputs := r.finalState.channels.outputs
      inputs := r.finalState.channels.inputs
      error := none }
  | .error e => { status := .failed, outputs := .empty, inputs := .empty, error := some e }

/-! ## The program -/

/-- `entered` and `saved` are not in the source: the thread and the input that the graph was run
with, and whether the transaction is committed. -/
structure ResumeState where
  committed : Tables
  session : Tables
  entered : Option (String × GraphInput) := none
  saved : Bool := false

inductive ResumeCall where
  | getExecution
  | getWorkflow
  | parseDsl
  | flushRunning
  | compileDsl
  | deleteRows
  | flushRows
  | publishEvent
  | commit
  deriving DecidableEq

abbrev ResumeFaults := ResumeCall → Fault

def Tables.setRunning (t : Tables) : Tables := { t with execution := { t.execution with status := .running } }

/-- The result in the row of the execution, and the rows of its nodes gone. -/
def Tables.clearRows (t : Tables) (pass : PassResult) : Tables :=
  { execution := { t.execution with status := pass.status, output := pass.outputs, error := pass.error }
    rows := t.rows.filter fun row => row.executionId ≠ t.execution.id }

def nodeRows (dsl : WorkflowDSL) (executionId : Nat) (pass : PassResult) : List StoredNode :=
  let nodeTypeById := Dict.ofList (dsl.graph.nodes.map fun n => (n.id, n.type))
  pass.outputs.entries.map fun q =>
    { executionId := executionId
      nodeId := q.1
      nodeType := (nodeTypeById.get? q.1).getD "unknown"
      status := "succeeded"
      inputData := pass.inputs.get? q.1
      outputData := q.2 }

def Tables.addRows (t : Tables) (dsl : WorkflowDSL) (pass : PassResult) : Tables :=
  { t with rows := t.rows ++ nodeRows dsl t.execution.id pass }

section Program

variable (env : ResumeEnv) (faults : ResumeFaults) (resumeValue : Json)

/-- A call of the session. -/
def onSession (call : ResumeCall) (f : Tables → Tables) : Faulty ResumeState Unit :=
  Faulty.write (faults call) fun s => some { s with session := f s.session }

/-- `resume_execution` up to the run of the graph. -/
def beginResume : Faulty ResumeState Unit := do
  let status ← Faulty.read .none fun s => s.session.execution.status
  if status ≠ .waiting then Faulty.raise
  else do
    Faulty.read (faults .getWorkflow) fun _ => ()
    Faulty.read (faults .parseDsl) fun _ => ()
    onSession faults .flushRunning Tables.setRunning

/-- The call of `stream_execution`, with its handler. -/
def graphPass : Faulty ResumeState PassResult := fun s =>
  let execution := s.session.execution
  let threadId := env.threadId execution
  let initial := env.graphInput execution resumeValue
  let s' := { s with entered := some (threadId, initial) }
  match env.graph threadId initial with
  | none => (.killed, s')
  | some run =>
    let x := Relay.streamExecution (toString execution.id) threadId run.snapshot run.items run.ending
    (.returned (passResult x.result), s')

def runWithLanggraph : Faulty ResumeState PassResult := do
  Faulty.read (faults .compileDsl) fun _ => ()
  graphPass env resumeValue

/-- The rest of `resume_execution`. -/
def finishResume (pass : PassResult) : Faulty ResumeState Unit := do
  onSession faults .deleteRows fun t => t.clearRows pass
  onSession faults .flushRows fun t => t.addRows (env.dsl t.execution) pass
  Faulty.read (faults .publishEvent) fun _ => ()

def resumeExecution : Faulty ResumeState Unit := do
  beginResume faults
  let pass ← runWithLanggraph env faults resumeValue
  finishResume env faults pass

def commitSession (s : ResumeState) : Option ResumeState :=
  some { s with committed := s.session, saved := true }

/-- Run, then `commit`. -/
def commitAfter (body : Faulty ResumeState Unit) : Faulty ResumeState Unit := do
  body
  Faulty.write (faults .commit) commitSession

/-- `_resume_and_cleanup` -/
def resumeAndCleanup : Faulty ResumeState Unit := do
  Faulty.read (faults .getExecution) fun _ => ()
  commitAfter faults (resumeExecution env faults resumeValue)

/-! ## What each part does -/

/-- The row waits, and `resume_execution` reaches `_run_with_langgraph`. -/
structure Begins (t : Tables) : Prop where
  waiting : t.execution.status = .waiting
  getWorkflow : faults .getWorkflow = .none
  parseDsl : faults .parseDsl = .none
  flushRunning : faults .flushRunning = .none

/-- The rest of `resume_execution` returns. -/
structure Finishes : Prop where
  deleteRows : faults .deleteRows = .none
  flushRows : faults .flushRows = .none
  publishEvent : faults .publishEvent = .none

def ResumeEnv.runOf (t : Tables) : Option GraphRun :=
  env.graph (env.threadId t.execution) (env.graphInput t.execution resumeValue)

def GraphRun.result (t : Tables) (run : GraphRun) : PassResult :=
  passResult (Relay.streamExecution (toString t.execution.id) (env.threadId t.execution) run.snapshot
    run.items run.ending).result

/-- The tables after the transaction. -/
def replaced (t : Tables) (pass : PassResult) : Tables :=
  (t.setRunning.clearRows pass).addRows (env.dsl t.execution) pass

end Program

section Spec

variable {env : ResumeEnv} {faults : ResumeFaults} {resumeValue : Json}

/-- What others see of the state. -/
def ResumeState.visible (s : ResumeState) : Tables × Bool := (s.committed, s.saved)

theorem onSession_returnsIff (faults : ResumeFaults) (call : ResumeCall) (f : Tables → Tables)
    (s : ResumeState) :
    Faulty.ReturnsIff (onSession faults call f) s (faults call = .none)
      ((), { s with session := f s.session }) :=
  Faulty.returnsIff_write (faults call) rfl

theorem preserves_onSession {α : Type} {g : ResumeState → α}
    (hg : ∀ (s : ResumeState) (t : Tables), g { s with session := t } = g s) (call : ResumeCall)
    (f : Tables → Tables) : Faulty.Preserves g (onSession faults call f) := by
  refine Faulty.preserves_write _ fun s s' h => ?_
  cases h
  exact hg s _

/-- Up to the run of the graph, only the session changes. -/
theorem preserves_beginResume {α : Type} {g : ResumeState → α}
    (hg : ∀ (s : ResumeState) (t : Tables), g { s with session := t } = g s) :
    Faulty.Preserves g (beginResume faults) := by
  refine (Faulty.preserves_read _ _).bind fun status => ?_
  by_cases hstatus : status ≠ .waiting
  · rw [if_pos hstatus]
    exact Faulty.preserves_raise
  · rw [if_neg hstatus]
    exact (Faulty.preserves_read _ _).bind fun _ => (Faulty.preserves_read _ _).bind fun _ =>
      preserves_onSession hg _ _

theorem preserves_finishResume {α : Type} {g : ResumeState → α}
    (hg : ∀ (s : ResumeState) (t : Tables), g { s with session := t } = g s) (pass : PassResult) :
    Faulty.Preserves g (finishResume env faults pass) :=
  (preserves_onSession hg _ _).bind fun _ => (preserves_onSession hg _ _).bind fun _ =>
    Faulty.preserves_read _ _

theorem preserves_graphPass : Faulty.Preserves ResumeState.visible (graphPass env resumeValue) := by
  intro s
  unfold graphPass
  dsimp only
  cases env.graph (env.threadId s.session.execution) (env.graphInput s.session.execution resumeValue) <;> rfl

/-- Nothing is committed before the end. -/
theorem preserves_resumeExecution :
    Faulty.Preserves ResumeState.visible (resumeExecution env faults resumeValue) :=
  (preserves_beginResume fun _ _ => rfl).bind fun _ =>
    ((Faulty.preserves_read _ _).bind fun _ => preserves_graphPass).bind fun pass =>
      preserves_finishResume (fun _ _ => rfl) pass

theorem beginResume_returnsIff (faults : ResumeFaults) (s : ResumeState) :
    Faulty.ReturnsIff (beginResume faults) s (Begins faults s.session)
      ((), { s with session := s.session.setRunning }) := by
  unfold beginResume Faulty.ReturnsIff
  rw [Faulty.bind_run_of_returned (Faulty.read_none _ s)]
  by_cases hwaiting : s.session.execution.status = .waiting
  · rw [if_neg (not_not.2 hwaiting)]
    apply Faulty.ReturnsIff.congr
    · apply Faulty.ReturnsIff.bind (Faulty.returnsIff_read _ _ s)
      apply Faulty.ReturnsIff.bind (Faulty.returnsIff_read _ _ s)
      exact onSession_returnsIff faults .flushRunning Tables.setRunning s
    · exact ⟨fun ⟨hworkflow, hparse, hflush⟩ => ⟨hwaiting, hworkflow, hparse, hflush⟩,
        fun h => ⟨h.getWorkflow, h.parseDsl, h.flushRunning⟩⟩
  · rw [if_pos hwaiting]
    exact .inr ⟨fun h => hwaiting h.waiting, nofun⟩

theorem graphPass_spec (env : ResumeEnv) (resumeValue : Json) (s : ResumeState) :
    let entered := some (env.threadId s.session.execution, env.graphInput s.session.execution resumeValue)
    (env.runOf resumeValue s.session = none ∧
      graphPass env resumeValue s = (.killed, { s with entered := entered })) ∨
    ∃ run, env.runOf resumeValue s.session = some run ∧
      graphPass env resumeValue s =
        (.returned (run.result env s.session), { s with entered := entered }) := by
  intro entered
  unfold graphPass ResumeEnv.runOf
  dsimp only
  cases env.graph (env.threadId s.session.execution) (env.graphInput s.session.execution resumeValue) with
  | none => exact .inl ⟨rfl, rfl⟩
  | some run => exact .inr ⟨run, rfl, rfl⟩

theorem runWithLanggraph_spec (env : ResumeEnv) (faults : ResumeFaults) (resumeValue : Json)
    (s : ResumeState) :
    (faults .compileDsl = .none ∧
        runWithLanggraph env faults resumeValue s = graphPass env resumeValue s) ∨
      (faults .compileDsl ≠ .none ∧ (∀ a, (runWithLanggraph env faults resumeValue s).1 ≠ .returned a) ∧
        (runWithLanggraph env faults resumeValue s).2 = s) := by
  unfold runWithLanggraph
  by_cases hcompile : faults .compileDsl = .none
  · rw [hcompile]
    exact .inl ⟨rfl, rfl⟩
  · have hended := Faulty.read_ended hcompile (fun _ : ResumeState => ()) s
    refine .inr ⟨hcompile, (Faulty.bind_run_of_ended hended).2, ?_⟩
    rw [(Faulty.bind_run_of_ended hended).1, Faulty.read_run]

theorem finishResume_returnsIff (env : ResumeEnv) (faults : ResumeFaults) (pass : PassResult)
    (s : ResumeState) :
    Faulty.ReturnsIff (finishResume env faults pass) s (Finishes faults)
      ((), { s with
        session := (s.session.clearRows pass).addRows (env.dsl s.session.execution) pass }) := by
  apply Faulty.ReturnsIff.congr
  · apply Faulty.ReturnsIff.bind (onSession_returnsIff faults .deleteRows (fun t => t.clearRows pass) s)
    apply Faulty.ReturnsIff.bind (onSession_returnsIff faults .flushRows _ _)
    exact Faulty.returnsIff_read _ _ _
  · exact ⟨fun ⟨hdelete, hflush, hpublish⟩ => ⟨hdelete, hflush, hpublish⟩,
      fun h => ⟨h.deleteRows, h.flushRows, h.publishEvent⟩⟩

/-- The graph is not entered; or it is entered, and the call ends; or it returns. -/
theorem resumeExecution_spec (env : ResumeEnv) (faults : ResumeFaults) (resumeValue : Json)
    (s : ResumeState) :
    let entered := some (env.threadId s.session.execution, env.graphInput s.session.execution resumeValue)
    let enters := Begins faults s.session ∧ faults .compileDsl = .none
    (¬ enters ∧ (∀ a, (resumeExecution env faults resumeValue s).1 ≠ .returned a) ∧
      (resumeExecution env faults resumeValue s).2.entered = s.entered) ∨
    (enters ∧ (env.runOf resumeValue s.session = none ∨ ¬ Finishes faults) ∧
      (∀ a, (resumeExecution env faults resumeValue s).1 ≠ .returned a) ∧
      (resumeExecution env faults resumeValue s).2.entered = entered) ∨
    (enters ∧ ∃ run, env.runOf resumeValue s.session = some run ∧ Finishes faults ∧
      resumeExecution env faults resumeValue s =
        (.returned (), { s with
          session := replaced env s.session (run.result env s.session), entered := entered })) := by
  intro entered enters
  unfold resumeExecution
  rcases beginResume_returnsIff faults s with ⟨hbegins, hrun⟩ | ⟨hnot, hended⟩
  · rw [Faulty.bind_run_of_returned hrun]
    rcases runWithLanggraph_spec env faults resumeValue { s with session := s.session.setRunning } with
      ⟨hcompile, hrun⟩ | ⟨hcompile, hended, hsame⟩
    · rcases graphPass_spec env resumeValue { s with session := s.session.setRunning } with
        ⟨hnone, hgraph⟩ | ⟨run, hsome, hgraph⟩
      · have hkilled := hrun.trans hgraph
        have hended : ∀ a, (runWithLanggraph env faults resumeValue
            { s with session := s.session.setRunning }).1 ≠ .returned a := by
          rw [hkilled]
          exact nofun
        refine .inr (.inl ⟨⟨hbegins, hcompile⟩, .inl hnone, (Faulty.bind_run_of_ended hended).2, ?_⟩)
        rw [(Faulty.bind_run_of_ended hended).1, hkilled]
        rfl
      · rw [Faulty.bind_run_of_returned (hrun.trans hgraph)]
        rcases finishResume_returnsIff env faults (run.result env s.session)
          { s with session := s.session.setRunning, entered := entered } with
          ⟨hfinishes, hfinish⟩ | ⟨hnot, hended⟩
        · exact .inr (.inr ⟨⟨hbegins, hcompile⟩, run, hsome, hfinishes, hfinish⟩)
        · have hkept : Faulty.Preserves ResumeState.entered
              (finishResume env faults (run.result env s.session)) :=
            preserves_finishResume (fun _ _ => rfl) _
          exact .inr (.inl ⟨⟨hbegins, hcompile⟩, .inr hnot, hended, hkept _⟩)
    · refine .inl ⟨fun h => hcompile h.2, (Faulty.bind_run_of_ended hended).2, ?_⟩
      rw [(Faulty.bind_run_of_ended hended).1, hsame]
  · have hbegin : Faulty.Preserves ResumeState.entered (beginResume faults) :=
      preserves_beginResume fun _ _ => rfl
    exact .inl ⟨fun h => hnot h.1, (Faulty.bind_run_of_ended hended).2,
      (congrArg ResumeState.entered (Faulty.bind_run_of_ended hended).1).trans (hbegin s)⟩

/-! ## What a resumption keeps -/

/-- A fresh session on the tables. -/
def resumeStart (t : Tables) : ResumeState := { committed := t, session := t }

/-- The calls up to the run of the graph return, and the row waits. -/
structure Enters (faults : ResumeFaults) (t : Tables) : Prop extends Begins faults t where
  compileDsl : faults .compileDsl = .none
  getExecution : faults .getExecution = .none

/-- What the run leaves is committed, whether the commit returns or not. -/
structure Saves (faults : ResumeFaults) : Prop extends Finishes faults where
  commit : (faults .commit).effective = true

/-- Where the graph is entered, its thread and its input; and what is committed. -/
theorem resumeAndCleanup_spec (env : ResumeEnv) (faults : ResumeFaults) (resumeValue : Json) (t : Tables) :
    let after := (resumeAndCleanup env faults resumeValue (resumeStart t)).2
    let entered := some (env.threadId t.execution, env.graphInput t.execution resumeValue)
    (¬ Enters faults t ∧ after.entered = none ∧ after.committed = t ∧ after.saved = false) ∨
    (Enters faults t ∧ after.entered = entered ∧ (env.runOf resumeValue t = none ∨ ¬ Saves faults) ∧
      after.committed = t ∧ after.saved = false) ∨
    (Enters faults t ∧ after.entered = entered ∧ ∃ run, env.runOf resumeValue t = some run ∧ Saves faults ∧
      after.committed = replaced env t (run.result env t) ∧ after.saved = true) := by
  intro after entered
  have hvisible : (resumeExecution env faults resumeValue (resumeStart t)).2.visible = (t, false) :=
    preserves_resumeExecution (resumeStart t)
  by_cases hget : faults .getExecution = .none
  · have hread : Faulty.read (faults .getExecution) (fun _ : ResumeState => ()) (resumeStart t) =
        (.returned (), resumeStart t) := by
      rw [hget]
      exact Faulty.read_none _ _
    have hafter : after = (commitAfter faults (resumeExecution env faults resumeValue) (resumeStart t)).2 :=
      congrArg Prod.snd (Faulty.bind_run_of_returned hread)
    rcases resumeExecution_spec env faults resumeValue (resumeStart t) with
      ⟨hnot, hended, hentered⟩ | ⟨⟨hbegins, hcompile⟩, hnot, hended, hentered⟩ |
        ⟨⟨hbegins, hcompile⟩, run, hrun, hfinishes, hreturned⟩
    · rw [hafter, commitAfter, (Faulty.bind_run_of_ended hended).1]
      exact .inl ⟨fun h => hnot ⟨h.toBegins, h.compileDsl⟩, hentered, congrArg Prod.fst hvisible,
        congrArg Prod.snd hvisible⟩
    · rw [hafter, commitAfter, (Faulty.bind_run_of_ended hended).1]
      exact .inr (.inl ⟨⟨hbegins, hcompile, hget⟩, hentered, hnot.imp id fun h hsaves => h hsaves.toFinishes,
        congrArg Prod.fst hvisible, congrArg Prod.snd hvisible⟩)
    · have hcommits : ∀ s : ResumeState,
          commitSession s = some { s with committed := s.session, saved := true } := fun _ => rfl
      rw [hafter, commitAfter, Faulty.bind_run_of_returned hreturned, Faulty.write_run (hcommits _)]
      cases hcommit : (faults .commit).effective with
      | true => exact .inr (.inr ⟨⟨hbegins, hcompile, hget⟩, rfl, run, hrun, ⟨hfinishes, hcommit⟩, rfl, rfl⟩)
      | false =>
          refine .inr (.inl ⟨⟨hbegins, hcompile, hget⟩, rfl, .inr fun hsaves => ?_, rfl, rfl⟩)
          rw [hsaves.commit] at hcommit
          exact absurd hcommit nofun
  · have hended := Faulty.read_ended hget (fun _ : ResumeState => ()) (resumeStart t)
    have hafter : after = resumeStart t :=
      (Faulty.bind_run_of_ended hended).1.trans (Faulty.read_run _ _ _)
    rw [hafter]
    exact .inl ⟨fun h => hget h.getExecution, rfl, rfl, rfl⟩

/-- The run of the graph raises. -/
def RunRaises (env : ResumeEnv) (resumeValue : Json) (t : Tables) : Prop :=
  ∃ run error, env.runOf resumeValue t = some run ∧ run.ending = .raised error

/-- The graph goes on from its interrupt, and no row is lost where the run raises or its transaction
is rolled back. -/
structure KeepsRun (env : ResumeEnv) (resumeValue : Json) (t : Tables) (after : ResumeState) : Prop where
  continues : ∀ thread input, after.entered = some (thread, input) →
    thread = env.threadId t.execution ∧ input = .command resumeValue
  keeps : RunRaises env resumeValue t ∨ after.saved = false →
    ∀ row ∈ t.rows, row ∈ after.committed.rows

/-- The rows of a paused execution. -/
def Tables.ownRows (t : Tables) : List StoredNode := t.rows.filter fun row => row.executionId = t.execution.id

theorem graphInput_eq_command_iff {execution : ExecutionRecord} :
    env.graphInput execution resumeValue = .command resumeValue ↔ isNull resumeValue = false := by
  unfold ResumeEnv.graphInput
  cases isNull resumeValue with
  | true => exact iff_of_false nofun nofun
  | false => exact iff_of_true rfl rfl

/-- A run that raises has no outputs to write rows from. -/
theorem rows_replaced_of_raises {t : Tables} {run : GraphRun} (hrun : env.runOf resumeValue t = some run)
    (h : RunRaises env resumeValue t) :
    (replaced env t (run.result env t)).rows = t.rows.filter fun row => row.executionId ≠ t.execution.id := by
  rcases h with ⟨run', error, hrun', hending⟩
  cases hrun.symm.trans hrun'
  have hresult : run.result env t = passResult (.error error) := by
    unfold GraphRun.result Relay.streamExecution
    rw [hending]
  rw [hresult]
  exact List.append_nil _

/-- A resumption that enters the graph keeps its run exactly if its value is not null and it does not
commit, over rows of its own, a run that raised. -/
theorem resumeAndCleanup_keepsRun_iff (env : ResumeEnv) (faults : ResumeFaults) (resumeValue : Json)
    (t : Tables) :
    KeepsRun env resumeValue t (resumeAndCleanup env faults resumeValue (resumeStart t)).2 ↔
      ¬ Enters faults t ∨
        isNull resumeValue = false ∧ (RunRaises env resumeValue t → ¬ Saves faults ∨ t.ownRows = []) := by
  rcases resumeAndCleanup_spec env faults resumeValue t with
    ⟨hnot, hentered, hcommitted, -⟩ | ⟨henters, hentered, hunsaved, hcommitted, -⟩ |
      ⟨henters, hentered, run, hrun, hsaves, hcommitted, hsaved⟩
  · refine iff_of_true ⟨fun thread input h => ?_, fun _ row hrow => ?_⟩ (.inl hnot)
    · rw [hentered] at h
      exact absurd h nofun
    · rw [hcommitted]
      exact hrow
  · rw [or_iff_right (not_not.2 henters)]
    constructor
    · intro hkeeps
      refine ⟨graphInput_eq_command_iff.1 (hkeeps.continues _ _ hentered).2, fun hraises => .inl ?_⟩
      rcases hraises with ⟨run, error, hrun, -⟩
      refine hunsaved.resolve_left fun hnone => ?_
      rw [hrun] at hnone
      exact absurd hnone nofun
    · rintro ⟨hvalue, -⟩
      refine ⟨fun thread input h => ?_, fun _ row hrow => ?_⟩
      · cases hentered.symm.trans h
        exact ⟨rfl, graphInput_eq_command_iff.2 hvalue⟩
      · rw [hcommitted]
        exact hrow
  · rw [or_iff_right (not_not.2 henters)]
    constructor
    · intro hkeeps
      refine ⟨graphInput_eq_command_iff.1 (hkeeps.continues _ _ hentered).2, fun hraises => .inr ?_⟩
      have hkept := hkeeps.keeps (.inl hraises)
      rw [hcommitted, rows_replaced_of_raises hrun hraises] at hkept
      refine List.filter_eq_nil_iff.2 fun row hrow hown => ?_
      exact of_decide_eq_true (List.mem_filter.1 (hkept row hrow)).2 (of_decide_eq_true hown)
    · rintro ⟨hvalue, hlost⟩
      refine ⟨fun thread input h => ?_, fun hfails row hrow => ?_⟩
      · cases hentered.symm.trans h
        exact ⟨rfl, graphInput_eq_command_iff.2 hvalue⟩
      · have hraises : RunRaises env resumeValue t := hfails.resolve_right fun h => by
          rw [hsaved] at h
          exact absurd h nofun
        have hnone : t.ownRows = [] := (hlost hraises).resolve_left (not_not.2 hsaves)
        rw [hcommitted, rows_replaced_of_raises hrun hraises, List.mem_filter]
        exact ⟨hrow, decide_eq_true fun hown =>
          List.filter_eq_nil_iff.1 hnone row hrow (decide_eq_true hown)⟩

/-- Resumed with null, the graph starts over; resumed with a value, a run that raises loses the rows
of the nodes that were done. -/
theorem resumption_restarts_and_loses_rows :
    let start : WorkflowDSL := { graph := { nodes := [], edges := [] } }
    let env : ResumeEnv :=
      { draft := start, published := start, str := fun _ => ""
        graph := fun _ _ => some { snapshot := none, items := [], ending := .raised "boom" } }
    let row : StoredNode :=
      { executionId := 1, nodeId := "start", nodeType := "start", status := "succeeded"
        inputData := none, outputData := .empty }
    let t : Tables :=
      { execution := { id := 1, workflowVersion := 1, triggerInput := .empty, status := .waiting }
        rows := [row] }
    let faults : ResumeFaults := fun _ => .none
    ¬ KeepsRun env .null t (resumeAndCleanup env faults .null (resumeStart t)).2 ∧
      ¬ KeepsRun env (.bool true) t (resumeAndCleanup env faults (.bool true) (resumeStart t)).2 := by
  intro start env row t faults
  constructor
  · intro hkeeps
    exact absurd (hkeeps.continues _ _ rfl).2 nofun
  · intro hkeeps
    have hraises : RunRaises env (.bool true) t := ⟨_, "boom", rfl, rfl⟩
    have hrows : (resumeAndCleanup env faults (.bool true) (resumeStart t)).2.committed.rows = [] := rfl
    have hkept := hkeeps.keeps (.inl hraises) row (List.mem_singleton.2 rfl)
    rw [hrows] at hkept
    exact absurd hkept List.not_mem_nil

end Spec

end OpsKnowledge.Workflow
