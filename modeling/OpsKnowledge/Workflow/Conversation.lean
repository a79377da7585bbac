import OpsKnowledge.Workflow.Superstep

/-!
# Turns on one checkpointed thread

`stream_execution` of `langgraph/events.py` and what `ExecutionService` and the chat
pipeline keep of its result. All executions of a conversation share one thread, whose
channels outlive the turn that wrote them. A pass is one call of `astream`: a fresh
run or the resumption of a paused one. LangGraph supplies the updates it streams and
the updates it applies to the channels; the model reads them from the pass.
-/

namespace OpsKnowledge.Workflow

open OpsKnowledge.Lib

inductive PassOutcome where
  | succeeded | waiting | failed
  deriving DecidableEq, Repr

structure Pass where
  turn : Nat
  resumed : Bool
  nodeTypes : Dict String String
  streamed : List (String × NodeDelta)
  applied : List (String × NodeDelta)
  outcome : PassOutcome
  /-- `aget_state` answers after the pass. -/
  snapshot : Bool

structure NodeExecution where
  nodeId : String
  nodeType : String
  status : String
  inputData : Option Bucket
  outputData : Bucket

structure Thread where
  channels : Channels
  rows : Nat → List NodeExecution

section Stream

variable (checkpointer : Bool)

/-- The channels LangGraph has saved when a pass over `saved` ends. -/
def savedAfter (saved : Channels) (p : Pass) : Channels :=
  if checkpointer then saved.applyAll p.applied else saved

/-- `stream_execution`: the channels of `final_state`, or `none` when it raises. -/
def streamExecution (saved : Channels) (p : Pass) : Option Channels :=
  if p.outcome = .failed then none
  else
    let finalState := Channels.empty.applyAll p.streamed
    some (if checkpointer ∧ p.snapshot then finalState.update (savedAfter checkpointer saved p)
      else finalState)

/-- One row per node of the outputs. -/
def nodeExecutions (p : Pass) (final : Channels) : List NodeExecution :=
  final.outputs.entries.map fun q =>
    { nodeId := q.1
      nodeType := (p.nodeTypes.get? q.1).getD "unknown"
      status := if p.outcome ≠ .failed ∨ q.1 ∈ final.outputs.keys then "succeeded" else "failed"
      inputData := final.inputs.get? q.1
      outputData := q.2 }

/-- `run_and_persist` adds the rows of the pass, `resume_execution` deletes the old ones first;
a failed pass has no outputs. -/
def runPass (th : Thread) (p : Pass) : Thread :=
  let rows := ((streamExecution checkpointer th.channels p).map (nodeExecutions p)).getD []
  { channels := savedAfter checkpointer th.channels p
    rows := Function.update th.rows p.turn (if p.resumed then rows else th.rows p.turn ++ rows) }

def threadAfter (hist : List Pass) : Thread :=
  hist.foldl (runPass checkpointer) { channels := .empty, rows := fun _ => [] }

end Stream

/-- The first truthy `answer` among the outputs, which the chat pipeline falls back to. -/
def recoverAnswer (outputs : Dict String Bucket) : Option Json :=
  outputs.entries.findSome? fun p => (p.2.get? "answer").filter Json.truthy

/-! ## What belongs to a turn -/

/-- Node `u` executed in turn `t` and returned `d`. -/
def Executed (hist : List Pass) (t : Nat) (u : String) (d : NodeDelta) : Prop :=
  ∃ p ∈ hist, p.turn = t ∧ (u, d) ∈ p.streamed

/-- Every node in the channels executed in turn `t`, and its buckets are from there. -/
def OnlyTurn (hist : List Pass) (t : Nat) (c : Channels) : Prop :=
  ∀ u, u ∈ c.inputs.keys ∨ u ∈ c.outputs.keys ∨ u ∈ c.branches.keys →
    ∃ d, Executed hist t u d ∧ c.inputs.get? u = some d.inputs ∧
      c.outputs.get? u = some d.outputs ∧ c.branches.get? u = some d.branch

/-- The pass `p` after `before` returns, persists and recovers only what its turn produced. -/
structure TurnIsolated (checkpointer : Bool) (before : List Pass) (p : Pass) : Prop where
  result : ∀ c, streamExecution checkpointer (threadAfter checkpointer before).channels p = some c →
    OnlyTurn (before ++ [p]) p.turn c
  rows : ∀ t, ∀ row ∈ (threadAfter checkpointer (before ++ [p])).rows t,
    ∃ d, Executed (before ++ [p]) t row.nodeId d ∧ row.inputData = some d.inputs ∧
      row.outputData = d.outputs
  answer : ∀ c a, streamExecution checkpointer (threadAfter checkpointer before).channels p = some c →
    recoverAnswer c.outputs = some a →
    ∃ u d, Executed (before ++ [p]) p.turn u d ∧ d.outputs.get? "answer" = some a

/-- LangGraph applies no update but those that nodes of the turn returned. -/
def AppliesOwnUpdates (hist : List Pass) : Prop :=
  ∀ before p, before ++ [p] <+: hist → ∀ w ∈ p.applied, Executed (before ++ [p]) p.turn w.1 w.2

def lastApplied (hist : List Pass) (u : String) : Option NodeDelta :=
  (hist.flatMap Pass.applied).reverse.lookup u

/-- When the saved state is read back, each node it holds from before is written again in
this pass, or what it holds is an update of this turn. -/
def Refreshed (checkpointer : Bool) (before : List Pass) (p : Pass) : Prop :=
  checkpointer = true → p.snapshot = true → p.outcome ≠ .failed → ∀ u d,
    lastApplied before u = some d → u ∉ p.applied.map Prod.fst → Executed (before ++ [p]) p.turn u d

/-! ## The saved channels -/

theorem threadAfter_concat (checkpointer : Bool) (before : List Pass) (p : Pass) :
    threadAfter checkpointer (before ++ [p]) =
      runPass checkpointer (threadAfter checkpointer before) p := by
  simp [threadAfter]

theorem represents_threadAfter (hist : List Pass) :
    (threadAfter true hist).channels.Represents (lastApplied hist) := by
  have hall : (threadAfter true hist).channels =
      Channels.empty.applyAll (hist.flatMap Pass.applied) := by
    induction hist using List.reverseRecOn with
    | nil => rfl
    | append_singleton before p ih =>
        rw [threadAfter_concat, List.flatMap_append, Channels.applyAll_append, ← ih]
        simp [runPass, savedAfter]
  rw [hall]
  intro u
  have hu := Channels.represents_empty.applyAll (hist.flatMap Pass.applied) u
  simpa [lastApplied] using hu

theorem lastApplied_concat (before : List Pass) (p : Pass) (u : String) :
    lastApplied (before ++ [p]) u = (p.applied.reverse.lookup u).or (lastApplied before u) := by
  simp [lastApplied, List.lookup_append]

/-- A channel map is of one turn iff the partial map it represents is. -/
theorem onlyTurn_iff {hist : List Pass} {t : Nat} {c : Channels} {f : String → Option NodeDelta}
    (h : c.Represents f) : OnlyTurn hist t c ↔ ∀ u d, f u = some d → Executed hist t u d := by
  constructor
  · intro honly u d hd
    rcases h u with ⟨hin, hout, hbr⟩
    rw [hd] at hin hout hbr
    rcases honly u (Or.inl (Dict.mem_keys_of_get? hin)) with ⟨d', hexec, hin', hout', hbr'⟩
    have hdd : d' = d := by
      cases d
      cases d'
      simp_all
    exact hdd ▸ hexec
  · intro hall u hu
    rcases h u with ⟨hin, hout, hbr⟩
    cases hf : f u with
    | none =>
        rw [hf] at hin hout hbr
        rcases hu with hu | hu | hu
        · exact absurd hu (Dict.get?_eq_none_iff.1 hin)
        · exact absurd hu (Dict.get?_eq_none_iff.1 hout)
        · exact absurd hu (Dict.get?_eq_none_iff.1 hbr)
    | some d =>
        rw [hf] at hin hout hbr
        exact ⟨d, hall u d hf, hin, hout, hbr⟩

/-! ## One pass -/

theorem Executed.mono {hist hist' : List Pass} (hsub : hist ⊆ hist') {t : Nat} {u : String}
    {d : NodeDelta} (h : Executed hist t u d) : Executed hist' t u d := by
  rcases h with ⟨p, hp, hturn, hmem⟩
  exact ⟨p, hsub hp, hturn, hmem⟩

theorem executed_streamed (before : List Pass) (p : Pass) {u : String} {d : NodeDelta}
    (h : p.streamed.reverse.lookup u = some d) : Executed (before ++ [p]) p.turn u d :=
  ⟨p, by simp, rfl, List.mem_reverse.1 (mem_of_lookup_eq_some h)⟩

/-- The result of a pass: what is saved wins over what was streamed. -/
theorem represents_streamExecution {before : List Pass} {p : Pass} {c : Channels}
    (h : streamExecution true (threadAfter true before).channels p = some c)
    (hsnap : p.snapshot = true) :
    c.Represents fun u => (lastApplied (before ++ [p]) u).or (p.streamed.reverse.lookup u) := by
  unfold streamExecution at h
  by_cases hfail : p.outcome = .failed
  · simp [hfail] at h
  · simp [hfail, hsnap] at h
    subst h
    have hsaved : savedAfter true (threadAfter true before).channels p =
        (threadAfter true (before ++ [p])).channels := by
      rw [threadAfter_concat]
      rfl
    have hstreamed := Channels.represents_empty.applyAll p.streamed
    have hboth := hstreamed.update (represents_threadAfter (before ++ [p]))
    intro u
    rw [hsaved]
    simpa using hboth u

theorem onlyTurn_streamExecution {checkpointer : Bool} {before : List Pass} {p : Pass}
    (hown : ∀ w ∈ p.applied, Executed (before ++ [p]) p.turn w.1 w.2) :
    (∀ c, streamExecution checkpointer (threadAfter checkpointer before).channels p = some c →
      OnlyTurn (before ++ [p]) p.turn c) ↔ Refreshed checkpointer before p := by
  by_cases hread : checkpointer = true ∧ p.snapshot = true
  · rcases hread with ⟨rfl, hsnap⟩
    by_cases hfail : p.outcome = .failed
    · simp [streamExecution, hfail, Refreshed]
    · have hsome : ∃ c, streamExecution true (threadAfter true before).channels p = some c := by
        simp [streamExecution, hfail]
      rcases hsome with ⟨c, hc⟩
      have hrep := represents_streamExecution hc hsnap
      have honly : (∀ c', streamExecution true (threadAfter true before).channels p = some c' →
          OnlyTurn (before ++ [p]) p.turn c') ↔ OnlyTurn (before ++ [p]) p.turn c := by
        simp [hc]
      rw [honly, onlyTurn_iff hrep]
      constructor
      · intro h _ _ _ u d hlast hkeep
        have hnone : p.applied.reverse.lookup u = none := by
          rw [lookup_eq_none_iff_notMem]
          simpa using hkeep
        apply h u d
        simp [lastApplied_concat, hnone, hlast]
      · intro h u d hd
        rw [lastApplied_concat] at hd
        cases hwritten : p.applied.reverse.lookup u with
        | some d' =>
            have hdd : d' = d := by simpa [hwritten] using hd
            have hmem := List.mem_reverse.1 (mem_of_lookup_eq_some hwritten)
            exact hdd ▸ hown (u, d') hmem
        | none =>
            have hkeep : u ∉ p.applied.map Prod.fst := by
              simpa using lookup_eq_none_iff_notMem.1 hwritten
            cases hlast : lastApplied before u with
            | some d' =>
                have hdd : d' = d := by simpa [hwritten, hlast] using hd
                exact hdd ▸ h rfl hsnap hfail u d' hlast hkeep
            | none =>
                have hstream : p.streamed.reverse.lookup u = some d := by
                  simpa [hwritten, hlast] using hd
                exact executed_streamed before p hstream
  · have hrefreshed : Refreshed checkpointer before p := fun hc hs => absurd ⟨hc, hs⟩ hread
    refine ⟨fun _ => hrefreshed, ?_⟩
    intro _ c hc
    unfold streamExecution at hc
    by_cases hfail : p.outcome = .failed
    · simp [hfail] at hc
    · simp only [if_neg hfail, if_neg hread, Option.some.injEq] at hc
      subst hc
      rw [onlyTurn_iff (Channels.represents_empty.applyAll p.streamed)]
      intro u d hd
      exact executed_streamed before p (by simpa using hd)

theorem OnlyTurn.of_entry {hist : List Pass} {t : Nat} {c : Channels} (h : OnlyTurn hist t c)
    {q : String × Bucket} (hq : q ∈ c.outputs.entries) :
    ∃ d, Executed hist t q.1 d ∧ c.inputs.get? q.1 = some d.inputs ∧ q.2 = d.outputs := by
  have hget : c.outputs.get? q.1 = some q.2 := Dict.get?_eq_some_iff.2 hq
  rcases h q.1 (Or.inr (Or.inl (Dict.mem_keys_of_get? hget))) with ⟨d, hexec, hin, hout, -⟩
  refine ⟨d, hexec, hin, ?_⟩
  rw [hget] at hout
  simpa using hout

/-! ## A whole conversation -/

/-- Rows of the turn of a pass stay, and those of other turns are not touched. -/
theorem rows_runPass {checkpointer : Bool} {before : List Pass} {p : Pass} {t : Nat}
    {row : NodeExecution} (h : row ∈ (threadAfter checkpointer (before ++ [p])).rows t) :
    row ∈ (threadAfter checkpointer before).rows t ∨
      t = p.turn ∧ ∃ c, streamExecution checkpointer (threadAfter checkpointer before).channels p =
        some c ∧ row ∈ nodeExecutions p c := by
  rw [threadAfter_concat] at h
  by_cases ht : t = p.turn
  · subst ht
    cases hc : streamExecution checkpointer (threadAfter checkpointer before).channels p with
    | none =>
        by_cases hres : p.resumed = true
        · simp [runPass, hc, hres] at h
        · simp [runPass, hc, hres] at h
          exact Or.inl h
    | some c =>
        by_cases hres : p.resumed = true
        · simp [runPass, hc, hres] at h
          exact Or.inr ⟨rfl, c, rfl, h⟩
        · simp [runPass, hc, hres] at h
          exact h.imp_right fun h => ⟨rfl, c, rfl, h⟩
  · simp [runPass, ht] at h
    exact Or.inl h

theorem rows_of_refreshed {checkpointer : Bool} {hist : List Pass} (hown : AppliesOwnUpdates hist)
    (href : ∀ before p, before ++ [p] <+: hist → Refreshed checkpointer before p) :
    ∀ t, ∀ row ∈ (threadAfter checkpointer hist).rows t, ∃ d, Executed hist t row.nodeId d ∧
      row.inputData = some d.inputs ∧ row.outputData = d.outputs := by
  induction hist using List.reverseRecOn with
  | nil =>
      intro t row hrow
      simp [threadAfter] at hrow
  | append_singleton before p ih =>
      have hpre : ∀ b q, b ++ [q] <+: before → b ++ [q] <+: before ++ [p] :=
        fun b q h => h.trans (List.prefix_append before [p])
      have hold := ih (fun b q h => hown b q (hpre b q h)) (fun b q h => href b q (hpre b q h))
      intro t row hrow
      rcases rows_runPass hrow with hrow | ⟨rfl, c, hc, hrow⟩
      · rcases hold t row hrow with ⟨d, hexec, hrest⟩
        exact ⟨d, hexec.mono (List.subset_append_left before [p]), hrest⟩
      · have honly := (onlyTurn_streamExecution (hown before p List.prefix_rfl)).2
          (href before p List.prefix_rfl) c hc
        rcases List.mem_map.1 hrow with ⟨q, hq, rfl⟩
        exact honly.of_entry hq

/-- In every conversation, each pass returns, persists and recovers only what its own turn
produced, iff each pass refreshes what it reads back. -/
theorem conversation_isolated_iff (checkpointer : Bool) (hist : List Pass)
    (hown : AppliesOwnUpdates hist) :
    (∀ before p, before ++ [p] <+: hist → TurnIsolated checkpointer before p) ↔
      ∀ before p, before ++ [p] <+: hist → Refreshed checkpointer before p := by
  constructor
  · intro h before p hp
    exact (onlyTurn_streamExecution (hown before p hp)).1 (h before p hp).result
  · intro h before p hp
    have hresult := (onlyTurn_streamExecution (hown before p hp)).2 (h before p hp)
    refine ⟨hresult, ?_, ?_⟩
    · exact rows_of_refreshed (fun b q hq => hown b q (hq.trans hp)) fun b q hq => h b q (hq.trans hp)
    · intro c a hc ha
      rcases List.exists_of_findSome?_eq_some ha with ⟨q, hq, hqa⟩
      rcases (hresult c hc).of_entry hq with ⟨d, hexec, -, hout⟩
      refine ⟨q.1, d, hexec, ?_⟩
      rw [← hout]
      exact (Option.filter_eq_some_iff.1 hqa).1

/-! ## A pass that runs the compiled graph -/

/-- The updates of the supersteps before `k`. -/
def updatesTo (g : CompiledGraph) (behave : Behaviour) (st : WorkflowState) :
    Nat → List (String × NodeDelta)
  | 0 => []
  | k + 1 =>
      updatesTo g behave st k ++
        match runTo g behave st k with
        | .ok r => r.scheduled.map fun u => (u, behave k u r.state)
        | .error _ => []

/-- The channels of a run are the updates of its supersteps, merged in order. -/
theorem runTo_toChannels {g : CompiledGraph} {behave : Behaviour} {st : WorkflowState} {k : Nat}
    {r : RunState} (h : runTo g behave st k = .ok r) :
    r.state.toChannels = st.toChannels.applyAll (updatesTo g behave st k) := by
  induction k generalizing r with
  | zero => cases h; rfl
  | succ k ih =>
      rcases bind_eq_ok.1 h with ⟨r₀, hr₀, hstep⟩
      rcases bind_eq_ok.1 hstep with ⟨targets, -, hr⟩
      cases hr
      have hfold : ∀ (us : List String) (st' : WorkflowState),
          (us.foldl (fun st u => st.applyDelta u (behave k u r₀.state)) st').toChannels =
            st'.toChannels.applyAll (us.map fun u => (u, behave k u r₀.state)) := by
        intro us
        induction us with
        | nil => intro st'; rfl
        | cons u us ihus => intro st'; exact ihus _
      rw [updatesTo, hr₀, Channels.applyAll_append, ← ih hr₀]
      exact hfold r₀.scheduled r₀.state

/-- A pass that ran `k` supersteps of `g` from the saved channels, with the given trigger. -/
def Pass.ofRun (turn : Nat) (nodeTypes : Dict String String) (g : CompiledGraph)
    (behave : Behaviour) (st : WorkflowState) (k : Nat) : Pass :=
  { turn := turn
    resumed := false
    nodeTypes := nodeTypes
    streamed := updatesTo g behave st k
    applied := updatesTo g behave st k
    outcome := .succeeded
    snapshot := true }

theorem savedAfter_ofRun {g : CompiledGraph} {behave : Behaviour} {st : WorkflowState} {k : Nat}
    {r : RunState} (h : runTo g behave st k = .ok r) (turn : Nat) (nodeTypes : Dict String String) :
    savedAfter true st.toChannels (Pass.ofRun turn nodeTypes g behave st k) = r.state.toChannels :=
  (runTo_toChannels h).symm

/-! ## A leak -/

def plainDelta (outputs : List (String × Json)) (branch : Option String) : NodeDelta :=
  { inputs := .empty, outputs := Dict.ofList outputs, branch := branch }

/-- What the nodes return in a turn of a chatflow whose classifier takes the branch to `nid`. -/
def answerUpdates (nid text : String) : List (String × NodeDelta) :=
  [ ("s", plainDelta [] none),
    ("q", plainDelta [("category_id", .str nid)] (some nid)),
    (nid, plainDelta [("answer", .str text)] none) ]

def answerTurn (turn : Nat) (nid text : String) : Pass :=
  { turn := turn
    resumed := false
    nodeTypes := Dict.ofList
      [("s", "start"), ("q", "question-classifier"), ("a", "answer"), ("b", "answer")]
    streamed := answerUpdates nid text
    applied := answerUpdates nid text
    outcome := .succeeded
    snapshot := true }

def twoTurns : List Pass := [answerTurn 1 "a" "first", answerTurn 2 "b" "second"]

theorem twoTurns_own : AppliesOwnUpdates twoTurns := by
  intro before p hp w hw
  refine ⟨p, by simp, rfl, ?_⟩
  have hmem : p ∈ twoTurns := hp.subset (by simp)
  have happlied : p.applied = p.streamed := by
    rcases List.mem_cons.1 hmem with rfl | hmem
    · rfl
    · rcases List.mem_singleton.1 hmem with rfl
      rfl
  exact happlied ▸ hw

theorem conversation_isolated_twoTurns :
    (∀ before p, before ++ [p] <+: twoTurns → TurnIsolated true before p) ↔
      ∀ before p, before ++ [p] <+: twoTurns → Refreshed true before p :=
  conversation_isolated_iff true twoTurns twoTurns_own

/-- The second turn takes another branch and still returns the answer of the first. -/
theorem twoTurns_leak :
    ¬ ∀ (checkpointer : Bool) (hist : List Pass), AppliesOwnUpdates hist →
      ∀ before p, before ++ [p] <+: hist → TurnIsolated checkpointer before p := by
  intro h
  have hsecond := h true twoTurns twoTurns_own [answerTurn 1 "a" "first"]
    (answerTurn 2 "b" "second") List.prefix_rfl
  rcases hsecond.result _ rfl "a" (by decide) with ⟨d, ⟨p, hp, hturn, hmem⟩, -⟩
  simp only [List.singleton_append, List.mem_cons, List.not_mem_nil, or_false] at hp
  rcases hp with rfl | rfl
  · simp [answerTurn] at hturn
  · simp [answerTurn, answerUpdates] at hmem

end OpsKnowledge.Workflow
