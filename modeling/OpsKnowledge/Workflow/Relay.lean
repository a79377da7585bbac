import OpsKnowledge.Workflow.Streaming

/-!
# The relay between the graph and the event bus

`stream_execution` item by item: the events it publishes and the state it returns. Publishing does
not raise. A node's update is under the name of the node; what LangGraph reports under names of its
own starts with two underscores.
-/

namespace OpsKnowledge.Workflow

open OpsKnowledge.Lib

/-! ## Items -/

/-- An `Interrupt`; a missing value is null. -/
structure Interrupt where
  id : Json
  value : Json

def Interrupt.json (itr : Interrupt) : Json := .obj [("id", itr.id), ("value", itr.value)]

/-- What an `updates` payload holds under a key: interrupts, the update of a node, or anything else
that is no update of a node. -/
inductive UpdateValue where
  | interrupts (itrs : List Interrupt)
  | delta (d : NodeDelta)
  | other

/-- A `custom` payload of the kind `stream_chunk`. -/
structure ChunkPayload where
  nodeId : Option String
  delta : Json := .str ""
  info : Json := .null

/-- An item; a `custom` payload of another kind is `none`. -/
inductive RelayItem where
  | updates (payload : List (String × UpdateValue))
  | custom (payload : Option ChunkPayload)

/-- One turn of the inner or of the outer loop. -/
inductive RelayStep where
  | entry (key : String) (value : UpdateValue)
  | chunk (payload : ChunkPayload)

def RelayItem.steps : RelayItem → List RelayStep
  | .updates payload => payload.map fun e => .entry e.1 e.2
  | .custom payload => payload.toList.map .chunk

/-- How `astream` ends. -/
inductive StreamEnd where
  | completed
  | raised (error : String)
  deriving DecidableEq

/-! ## The state of the relay -/

/-- `final_state`; a channel is missing until something writes it. -/
structure FinalState where
  inputs : Option (Dict String Bucket) := none
  outputs : Option (Dict String Bucket) := none
  branches : Option (Dict String (Option String)) := none

/-- The channels as their readers take them: `final_state.get(key) or {}`. -/
def FinalState.channels (s : FinalState) : Channels :=
  { inputs := s.inputs.getD .empty, outputs := s.outputs.getD .empty, branches := s.branches.getD .empty }

/-- The loop body of `_merge_into`. -/
def mergeKey {ν : Type} (existing : Option (Dict String ν)) (value : Dict String ν) : Dict String ν :=
  match existing with
  | some existing => existing.update value
  | none => value

/-- `_merge_into`, for the update that an adapter returns. -/
def mergeInto (acc : FinalState) (nodeId : String) (d : NodeDelta) : FinalState :=
  { inputs := some (mergeKey acc.inputs (Dict.ofList [(nodeId, d.inputs)]))
    outputs := some (mergeKey acc.outputs (Dict.ofList [(nodeId, d.outputs)]))
    branches := some (mergeKey acc.branches (Dict.ofList [(nodeId, d.branch)])) }

def mergeSnapshotKey {ν : Type} (acc values : Option (Dict String ν)) : Option (Dict String ν) :=
  match values with
  | some values => some (mergeKey acc values)
  | none => acc

/-- The snapshot of the checkpointer over the state of the stream. -/
def mergeSnapshot (acc values : FinalState) : FinalState :=
  { inputs := mergeSnapshotKey acc.inputs values.inputs
    outputs := mergeSnapshotKey acc.outputs values.outputs
    branches := mergeSnapshotKey acc.branches values.branches }

structure Relay where
  published : List Event
  started : List String := []
  finalState : FinalState := {}
  pending : List Interrupt := []

/-- `key.startswith("__")` -/
def isInternal (key : String) : Bool := ['_', '_'].isPrefixOf key.toList

def isNull : Json → Bool
  | .null => true
  | _ => false

section Relay

variable (executionId : String)

def startEvent : Event :=
  { type := .workflowStart, executionId := executionId, data := Dict.ofList [("engine", .str "langgraph")] }

def Relay.step (s : Relay) : RelayStep → Relay
  | .chunk payload =>
    { s with published := s.published ++ [{
        type := .streamChunk, executionId := executionId, nodeId := payload.nodeId
        data := Dict.ofList [("delta", payload.delta), ("meta", payload.info)] }] }
  | .entry key value =>
    if key = "__interrupt__" then
      match value with
      | .interrupts itrs => { s with pending := s.pending ++ itrs.filter fun itr => !isNull itr.value }
      | _ => s
    else if isInternal key then s
    else
      match value with
      | .delta d =>
        { s with
          published := s.published ++ nodeLifecycle executionId s.started key d
          started := if key ∈ s.started then s.started else key :: s.started
          finalState := mergeInto s.finalState key d }
      | _ => s

/-- The `async for` loop. -/
def relay (items : List RelayItem) : Relay :=
  items.foldl (fun s item => item.steps.foldl (Relay.step executionId) s)
    { published := [startEvent executionId] }

def statusText : PassOutcome → String
  | .succeeded => "succeeded"
  | .waiting => "waiting"
  | .failed => "failed"

/-- `workflow_end`, with the error of a failure. -/
def endEvent (outcome : PassOutcome) (error : Option String) : Event :=
  { type := .workflowEnd
    executionId := executionId
    data := Dict.ofList
      (("status", .str (statusText outcome)) :: error.toList.map fun e => ("error", .str e)) }

def waitingEvent (threadId : String) (interrupts : List Interrupt) : Event :=
  { type := .waitingInput
    executionId := executionId
    data := Dict.ofList
      [("interrupts", .arr (interrupts.map Interrupt.json)), ("thread_id", .str threadId)] }

/-- What `stream_execution` returns: the state, and `_interrupts` where `_status` is set. -/
structure Returned where
  finalState : FinalState
  interrupts : Option (List Interrupt)

structure Execution where
  published : List Event
  result : Except String Returned

/-- The state that is returned; `snapshot` is `none` without a checkpointer, and its value is `none`
where `aget_state` raises. -/
def finalStateOf (snapshot : Option (Option FinalState)) (acc : FinalState) : FinalState :=
  match snapshot with
  | some (some values) => mergeSnapshot acc values
  | _ => acc

/-- `stream_execution` -/
def Relay.streamExecution (threadId : String) (snapshot : Option (Option FinalState)) (items : List RelayItem)
    (ending : StreamEnd) : Execution :=
  let s := relay executionId items
  match ending with
  | .raised error =>
    { published := s.published ++ [endEvent executionId .failed (some error)], result := .error error }
  | .completed =>
    let finalState := finalStateOf snapshot s.finalState
    if s.pending.isEmpty then
      { published := s.published ++ [endEvent executionId .succeeded none]
        result := .ok { finalState := finalState, interrupts := none } }
    else
      { published := s.published ++
          [waitingEvent executionId threadId s.pending, endEvent executionId .waiting none]
        result := .ok { finalState := finalState, interrupts := some s.pending } }

end Relay

/-! ## What the stream carried -/

def steps (items : List RelayItem) : List RelayStep := items.flatMap RelayItem.steps

/-- The update of a node. -/
def RelayStep.update? : RelayStep → Option (String × NodeDelta)
  | .entry key (.delta d) => some (key, d)
  | _ => none

def RelayStep.interrupts : RelayStep → List Interrupt
  | .entry key (.interrupts itrs) => if key = "__interrupt__" then itrs else []
  | _ => []

def updatesOf (items : List RelayItem) : List (String × NodeDelta) :=
  (steps items).filterMap RelayStep.update?

def interruptsOf (items : List RelayItem) : List Interrupt := (steps items).flatMap RelayStep.interrupts

/-- The status that the stream stands for. -/
def streamOutcome (items : List RelayItem) : StreamEnd → PassOutcome
  | .raised _ => .failed
  | .completed => if interruptsOf items = [] then .succeeded else .waiting

/-! ## The law of the trace -/

/-- What is told of the end of a node comes after a start of that node. -/
def Announced (events : List Event) : Prop :=
  ∀ before ev, before ++ [ev] <+: events → ev.type = .nodeOutput ∨ ev.type = .nodeEnd →
    ∃ start ∈ before, start.type = .nodeStart ∧ start.nodeId = ev.nodeId

/-- Two states of the channels have the same buckets. -/
def SameBuckets (c c' : Channels) : Prop :=
  (∀ k, c.inputs.get? k = c'.inputs.get? k) ∧ (∀ k, c.outputs.get? k = c'.outputs.get? k) ∧
    ∀ k, c.branches.get? k = c'.branches.get? k

/-- One start before all else, one end with this status after all else, and every node announced. -/
structure TraceLaw (outcome : PassOutcome) (events : List Event) : Prop where
  first : ∃ start rest, events = start :: rest ∧ start.type = .workflowStart ∧
    ∀ ev ∈ rest, ev.type ≠ .workflowStart
  last : ∃ before final, events = before ++ [final] ∧ final.type = .workflowEnd ∧
    final.data.get? "status" = some (.str (statusText outcome)) ∧ ∀ ev ∈ before, ev.type ≠ .workflowEnd
  announced : Announced events

/-- The execution tells and returns what the stream carried. -/
structure Lawful (snapshot : Option (Option FinalState)) (items : List RelayItem) (ending : StreamEnd)
    (x : Execution) : Prop where
  trace : TraceLaw (streamOutcome items ending) x.published
  raised : ∀ error, ending = .raised error ↔ x.result = .error error
  merged : ∀ r, snapshot = none → x.result = .ok r →
    SameBuckets r.finalState.channels (Channels.empty.applyAll (updatesOf items))

section Proofs

variable {executionId : String} {items : List RelayItem}

theorem relay_eq_foldl_steps (executionId : String) (items : List RelayItem) :
    relay executionId items =
      (steps items).foldl (Relay.step executionId) { published := [startEvent executionId] } := by
  unfold relay steps
  rw [List.foldl_flatMap]

/-- An entry is an interrupt signal, the update of a node, or nothing that the relay acts on. -/
theorem Relay.step_entry (executionId : String) (s : Relay) (key : String) (value : UpdateValue) :
    (∃ itrs, value = .interrupts itrs ∧ key = "__interrupt__" ∧
      s.step executionId (.entry key value) =
        { s with pending := s.pending ++ itrs.filter fun itr => !isNull itr.value }) ∨
    (∃ d, value = .delta d ∧ isInternal key = false ∧
      s.step executionId (.entry key value) =
        { s with
          published := s.published ++ nodeLifecycle executionId s.started key d
          started := if key ∈ s.started then s.started else key :: s.started
          finalState := mergeInto s.finalState key d }) ∨
    ((RelayStep.entry key value).interrupts = [] ∧ (∀ d, value = .delta d → isInternal key = true) ∧
      s.step executionId (.entry key value) = s) := by
  unfold Relay.step
  dsimp only
  by_cases hinterrupt : key = "__interrupt__"
  · rw [if_pos hinterrupt]
    have hinternal : isInternal key = true := by
      rw [hinterrupt]
      decide
    cases value with
    | interrupts itrs => exact .inl ⟨itrs, rfl, hinterrupt, rfl⟩
    | delta d => exact .inr (.inr ⟨rfl, fun _ _ => hinternal, rfl⟩)
    | other => exact .inr (.inr ⟨rfl, nofun, rfl⟩)
  · rw [if_neg hinterrupt]
    have hnone : ∀ itrs, (RelayStep.entry key (.interrupts itrs)).interrupts = [] := fun _ =>
      if_neg hinterrupt
    cases hinternal : isInternal key with
    | true =>
        rw [if_pos rfl]
        refine .inr (.inr ⟨?_, fun _ _ => rfl, rfl⟩)
        cases value with
        | interrupts itrs => exact hnone itrs
        | delta d => rfl
        | other => rfl
    | false =>
        rw [if_neg nofun]
        cases value with
        | interrupts itrs => exact .inr (.inr ⟨hnone itrs, nofun, rfl⟩)
        | delta d => exact .inr (.inl ⟨d, rfl, rfl, rfl⟩)
        | other => exact .inr (.inr ⟨rfl, nofun, rfl⟩)

theorem announced_concat {events : List Event} {ev : Event} (h : Announced events)
    (hev : ev.type = .nodeOutput ∨ ev.type = .nodeEnd →
      ∃ start ∈ events, start.type = .nodeStart ∧ start.nodeId = ev.nodeId) :
    Announced (events ++ [ev]) := by
  intro before ev' hprefix htold
  rcases List.prefix_concat_iff.1 hprefix with heq | hprefix
  · rcases List.append_inj' heq rfl with ⟨rfl, hlast⟩
    cases hlast
    exact hev htold
  · exact h before ev' hprefix htold

/-- The events so far, and the nodes that are started. -/
structure InProgress (executionId : String) (published : List Event) (started : List String) : Prop where
  first : ∃ rest, published = startEvent executionId :: rest ∧ ∀ ev ∈ rest, ev.type ≠ .workflowStart
  running : ∀ ev ∈ published, ev.type ≠ .workflowEnd
  started : ∀ key ∈ started, ∃ start ∈ published, start.type = .nodeStart ∧ start.nodeId = some key
  announced : Announced published

section InProgress

variable {published : List Event} {started : List String}

theorem InProgress.publish (h : InProgress executionId published started) (ev : Event)
    (hstart : ev.type ≠ .workflowStart) (hend : ev.type ≠ .workflowEnd)
    (htold : ev.type = .nodeOutput ∨ ev.type = .nodeEnd → ∃ key ∈ started, ev.nodeId = some key) :
    InProgress executionId (published ++ [ev]) started where
  first := by
    rcases h.first with ⟨rest, hpublished, hrest⟩
    refine ⟨rest ++ [ev], by rw [hpublished, List.cons_append], fun e he => ?_⟩
    rcases List.mem_append.1 he with he | he
    · exact hrest e he
    · cases List.mem_singleton.1 he
      exact hstart
  running := by
    intro e he
    rcases List.mem_append.1 he with he | he
    · exact h.running e he
    · cases List.mem_singleton.1 he
      exact hend
  started := by
    intro key hkey
    rcases h.started key hkey with ⟨start, hmem, hstart⟩
    exact ⟨start, List.mem_append_left [ev] hmem, hstart⟩
  announced := by
    refine announced_concat h.announced fun hev => ?_
    rcases htold hev with ⟨key, hkey, hid⟩
    rcases h.started key hkey with ⟨start, hmem, htype, hnode⟩
    exact ⟨start, hmem, htype, hnode.trans hid.symm⟩

theorem InProgress.startNode (h : InProgress executionId published started) (key : String) :
    InProgress executionId
      (published ++ [{ type := .nodeStart, executionId := executionId, nodeId := some key }])
      (key :: started) := by
  have hpublished := h.publish
    { type := .nodeStart, executionId := executionId, nodeId := some key } nofun nofun
    fun htold => htold.elim nofun nofun
  refine { hpublished with started := fun k hk => ?_ }
  rcases List.mem_cons.1 hk with rfl | hk
  · exact ⟨_, List.mem_append_right _ (List.mem_singleton.2 rfl), rfl, rfl⟩
  · exact hpublished.started k hk

theorem InProgress.finishNode (h : InProgress executionId published started) {key : String}
    (hkey : key ∈ started) (data data' : Bucket) :
    InProgress executionId
      (published ++
        [ { type := .nodeOutput, executionId := executionId, nodeId := some key, data := data },
          { type := .nodeEnd, executionId := executionId, nodeId := some key, data := data' } ])
      started := by
  have houtput := h.publish
    { type := .nodeOutput, executionId := executionId, nodeId := some key, data := data } nofun nofun
    fun _ => ⟨key, hkey, rfl⟩
  have hend := houtput.publish
    { type := .nodeEnd, executionId := executionId, nodeId := some key, data := data' } nofun nofun
    fun _ => ⟨key, hkey, rfl⟩
  rwa [List.append_assoc] at hend

theorem InProgress.nodeLifecycle (h : InProgress executionId published started) (key : String)
    (d : NodeDelta) :
    InProgress executionId (published ++ nodeLifecycle executionId started key d)
      (if key ∈ started then started else key :: started) := by
  unfold Workflow.nodeLifecycle
  by_cases hkey : key ∈ started
  · rw [if_pos hkey, if_pos hkey]
    exact h.finishNode hkey _ _
  · rw [if_neg hkey, if_neg hkey]
    have hstarted := (h.startNode key).finishNode List.mem_cons_self
      (Dict.ofList [("outputs", .obj d.outputs.entries), ("inputs", .obj d.inputs.entries)])
      (Dict.ofList [("status", .str "succeeded")])
    rwa [List.append_assoc] at hstarted

theorem InProgress.step {s : Relay} (h : InProgress executionId s.published s.started) (x : RelayStep) :
    InProgress executionId (s.step executionId x).published (s.step executionId x).started := by
  cases x with
  | chunk payload => exact h.publish _ nofun nofun fun htold => htold.elim nofun nofun
  | entry key value =>
      rcases s.step_entry executionId key value with ⟨itrs, -, -, hstep⟩ | ⟨d, -, -, hstep⟩ | ⟨-, -, hstep⟩
      · rw [hstep]
        exact h
      · rw [hstep]
        exact h.nodeLifecycle key d
      · rw [hstep]
        exact h

end InProgress

theorem inProgress_relay (executionId : String) (items : List RelayItem) :
    InProgress executionId (relay executionId items).published (relay executionId items).started := by
  rw [relay_eq_foldl_steps]
  have hstart : InProgress executionId [startEvent executionId] [] :=
    { first := ⟨[], rfl, fun _ h => absurd h List.not_mem_nil⟩
      running := by
        intro ev hev
        cases List.mem_singleton.1 hev
        exact nofun
      started := fun _ h => absurd h List.not_mem_nil
      announced := by
        have hnil : Announced [] := by
          intro before ev hprefix
          exact absurd (List.prefix_nil.1 hprefix) (List.append_ne_nil_of_right_ne_nil before nofun)
        exact announced_concat hnil fun htold => htold.elim nofun nofun }
  generalize hs : ({ published := [startEvent executionId] } : Relay) = s
  have hinv : InProgress executionId s.published s.started := by
    rw [← hs]
    exact hstart
  clear hs
  induction steps items generalizing s with
  | nil => exact hinv
  | cons x xs ih => exact ih _ (hinv.step x)

theorem channels_mergeInto (acc : FinalState) (nodeId : String) (d : NodeDelta) :
    (mergeInto acc nodeId d).channels = acc.channels.applyDelta nodeId d := by
  have hkey : ∀ {ν : Type} (existing : Option (Dict String ν)) (x : ν),
      mergeKey existing (Dict.ofList [(nodeId, x)]) =
        mergeByNode (existing.getD .empty) (Dict.ofList [(nodeId, x)]) := by
    intro ν existing x
    cases existing <;> rfl
  unfold FinalState.channels mergeInto Channels.applyDelta
  rw [hkey, hkey, hkey]
  rfl

/-- The updates that the relay acts on. -/
def relayedUpdates (items : List RelayItem) : List (String × NodeDelta) :=
  (updatesOf items).filter fun w => !isInternal w.1

theorem Relay.step_spec (executionId : String) (s : Relay) (x : RelayStep) :
    (s.step executionId x).pending = s.pending ++ x.interrupts.filter (fun itr => !isNull itr.value) ∧
      (s.step executionId x).finalState.channels =
        s.finalState.channels.applyAll (x.update?.toList.filter fun w => !isInternal w.1) := by
  cases x with
  | chunk payload => exact ⟨(List.append_nil _).symm, rfl⟩
  | entry key value =>
      rcases s.step_entry executionId key value with
        ⟨itrs, rfl, rfl, hstep⟩ | ⟨d, rfl, hvisible, hstep⟩ | ⟨hnone, hhidden, hstep⟩
      · rw [hstep]
        exact ⟨rfl, rfl⟩
      · rw [hstep]
        have hupdate : ((RelayStep.entry key (.delta d)).update?.toList.filter fun w => !isInternal w.1) =
            [(key, d)] := by
          show [(key, d)].filter (fun w => !isInternal w.1) = _
          rw [List.filter_cons_of_pos (by rw [hvisible]; rfl), List.filter_nil]
        rw [hupdate]
        exact ⟨(List.append_nil _).symm, channels_mergeInto _ _ _⟩
      · rw [hstep, hnone]
        refine ⟨(List.append_nil _).symm, ?_⟩
        cases value with
        | interrupts itrs => rfl
        | other => rfl
        | delta d =>
            have hupdate : ((RelayStep.entry key (.delta d)).update?.toList.filter
                fun w => !isInternal w.1) = [] := by
              show [(key, d)].filter (fun w => !isInternal w.1) = _
              rw [List.filter_cons_of_neg (by rw [hhidden d rfl]; exact nofun), List.filter_nil]
            rw [hupdate]
            rfl

/-- The loop collects the interrupts that have a value, and merges the updates of the nodes whose
names do not look internal. -/
theorem relay_spec (executionId : String) (items : List RelayItem) :
    (relay executionId items).pending = (interruptsOf items).filter (fun itr => !isNull itr.value) ∧
      (relay executionId items).finalState.channels =
        Channels.empty.applyAll (relayedUpdates items) := by
  have hsteps : ∀ (xs : List RelayStep) (s : Relay),
      (xs.foldl (Relay.step executionId) s).pending =
          s.pending ++ (xs.flatMap RelayStep.interrupts).filter (fun itr => !isNull itr.value) ∧
        (xs.foldl (Relay.step executionId) s).finalState.channels =
          s.finalState.channels.applyAll
            ((xs.filterMap RelayStep.update?).filter fun w => !isInternal w.1) := by
    intro xs
    induction xs with
    | nil => exact fun s => ⟨(List.append_nil _).symm, rfl⟩
    | cons x xs ih =>
        intro s
        rcases s.step_spec executionId x with ⟨hpending, hchannels⟩
        rcases ih (s.step executionId x) with ⟨hrest, hrest'⟩
        have hupdates : (x :: xs).filterMap RelayStep.update? =
            x.update?.toList ++ xs.filterMap RelayStep.update? := by
          rw [List.filterMap_cons]
          cases x.update? <;> rfl
        constructor
        · rw [List.foldl_cons, hrest, hpending, List.flatMap_cons, List.filter_append, List.append_assoc]
        · rw [List.foldl_cons, hrest', hchannels, hupdates, List.filter_append, Channels.applyAll_append]
  rw [relay_eq_foldl_steps]
  exact hsteps (steps items) _

/-! ## When the law holds -/

theorem traceLaw_of_inProgress {published : List Event} {started : List String}
    (h : InProgress executionId published started) (outcome : PassOutcome) (error : Option String) :
    TraceLaw outcome (published ++ [endEvent executionId outcome error]) where
  first := by
    rcases h.first with ⟨rest, hpublished, hrest⟩
    refine ⟨startEvent executionId, rest ++ [endEvent executionId outcome error], ?_, rfl, fun ev hev => ?_⟩
    · rw [hpublished, List.cons_append]
    · rcases List.mem_append.1 hev with hev | hev
      · exact hrest ev hev
      · cases List.mem_singleton.1 hev
        exact nofun
  last := by
    refine ⟨published, endEvent executionId outcome error, rfl, rfl, ?_, h.running⟩
    unfold endEvent
    rw [Dict.get?_ofList]
    cases error <;> rfl
  announced := announced_concat h.announced fun htold => htold.elim nofun nofun

/-- The last event tells one status. -/
theorem outcome_eq_of_traceLaw {published : List Event} {outcome outcome' : PassOutcome}
    (h : TraceLaw outcome (published ++ [endEvent executionId outcome' none])) : outcome = outcome' := by
  rcases h.last with ⟨before, final, heq, -, hstatus, -⟩
  rcases List.append_inj' heq rfl with ⟨-, hfinal⟩
  cases hfinal
  have hget : (endEvent executionId outcome' none).data.get? "status" =
      some (.str (statusText outcome')) := rfl
  have htext : statusText outcome' = statusText outcome :=
    Json.str.inj (Option.some.inj (hget.symm.trans hstatus))
  cases outcome <;> cases outcome' <;> first | rfl | exact absurd htext (by decide)

theorem sameBuckets_iff (ws : List (String × NodeDelta)) :
    SameBuckets (Channels.empty.applyAll (ws.filter fun w => !isInternal w.1)) (Channels.empty.applyAll ws) ↔
      ∀ w ∈ ws, isInternal w.1 = false := by
  constructor
  · intro hsame w hw
    by_contra hinternal
    rw [Bool.not_eq_false] at hinternal
    have hall := (Channels.represents_empty.applyAll ws w.1).1
    have hvisible := (Channels.represents_empty.applyAll (ws.filter fun w => !isInternal w.1) w.1).1
    have hmissing : (ws.filter fun w => !isInternal w.1).reverse.lookup w.1 = none := by
      rw [lookup_eq_none_iff_notMem]
      intro hmem
      rcases List.mem_map.1 hmem with ⟨w', hw', hkey⟩
      have hfilter := (List.mem_filter.1 (List.mem_reverse.1 hw')).2
      rw [hkey, hinternal] at hfilter
      exact absurd hfilter nofun
    have hfound : ws.reverse.lookup w.1 ≠ none := by
      rw [Ne, lookup_eq_none_iff_notMem, not_not]
      exact List.mem_map_of_mem (List.mem_reverse.2 hw)
    rcases Option.ne_none_iff_exists'.1 hfound with ⟨d, hd⟩
    dsimp only at hall hvisible
    rw [hmissing] at hvisible
    rw [hd] at hall
    have hclash := (hvisible.symm.trans (hsame.1 w.1)).trans hall
    exact absurd hclash nofun
  · intro hvisible
    have hall : (ws.filter fun w => !isInternal w.1) = ws :=
      List.filter_eq_self.2 fun w hw => by rw [hvisible w hw]; rfl
    rw [hall]
    exact ⟨fun _ => rfl, fun _ => rfl, fun _ => rfl⟩

/-- What the stream must be like for the relay to be lawful: an interrupt with a value if there is
one, and without a checkpointer no update of a node whose name looks internal. -/
def Relayable (snapshot : Option (Option FinalState)) (items : List RelayItem) : Prop :=
  (interruptsOf items ≠ [] → ∃ itr ∈ interruptsOf items, isNull itr.value = false) ∧
    (snapshot = none → ∀ w ∈ updatesOf items, isInternal w.1 = false)

theorem isEmpty_pending_iff (executionId : String) (items : List RelayItem) :
    (relay executionId items).pending.isEmpty = true ↔
      ∀ itr ∈ interruptsOf items, isNull itr.value = true := by
  rw [(relay_spec executionId items).1, List.isEmpty_iff, List.filter_eq_nil_iff]
  simp

theorem lawful_completed_iff {published : List Event} {started : List String}
    (h : InProgress executionId published started) (snapshot : Option (Option FinalState))
    (outcome : PassOutcome) (returned : Returned) :
    Lawful snapshot items .completed
        { published := published ++ [endEvent executionId outcome none], result := .ok returned } ↔
      streamOutcome items .completed = outcome ∧ (snapshot = none →
        SameBuckets returned.finalState.channels (Channels.empty.applyAll (updatesOf items))) := by
  constructor
  · exact fun hlaw => ⟨outcome_eq_of_traceLaw hlaw.trace, fun hnone => hlaw.merged returned hnone rfl⟩
  · rintro ⟨rfl, hmerged⟩
    refine ⟨traceLaw_of_inProgress h _ none, fun error => ⟨nofun, nofun⟩, fun r hnone hr => ?_⟩
    cases hr
    exact hmerged hnone

/-- A stream that raises is always told right; one that ends is, exactly if it is relayable. -/
theorem streamExecution_lawful_iff (executionId threadId : String) (snapshot : Option (Option FinalState))
    (items : List RelayItem) (ending : StreamEnd) :
    Lawful snapshot items ending (Relay.streamExecution executionId threadId snapshot items ending) ↔
      ending ≠ .completed ∨ Relayable snapshot items := by
  have hrelay := inProgress_relay executionId items
  unfold Relay.streamExecution
  cases ending with
  | raised error =>
      refine iff_of_true ⟨traceLaw_of_inProgress hrelay .failed (some error), fun e => ?_, nofun⟩ (.inl nofun)
      exact ⟨fun h => by cases h; rfl, fun h => by cases h; rfl⟩
  | completed =>
      have hmerged : (snapshot = none →
          SameBuckets (finalStateOf snapshot (relay executionId items).finalState).channels
            (Channels.empty.applyAll (updatesOf items))) ↔
          (snapshot = none → ∀ w ∈ updatesOf items, isInternal w.1 = false) := by
        refine forall_congr' fun hnone => ?_
        rw [hnone]
        show SameBuckets (relay executionId items).finalState.channels _ ↔ _
        rw [(relay_spec executionId items).2]
        exact sameBuckets_iff (updatesOf items)
      have hcompleted : (StreamEnd.completed ≠ .completed ∨ Relayable snapshot items) ↔
          Relayable snapshot items := or_iff_right fun h => h rfl
      have hnulls := isEmpty_pending_iff executionId items
      dsimp only
      cases hpending : (relay executionId items).pending.isEmpty with
      | true =>
          rw [if_pos rfl, lawful_completed_iff hrelay, hmerged, hcompleted]
          refine and_congr_left fun _ => ?_
          unfold streamOutcome
          constructor
          · intro hsucceeded hne
            rw [if_neg hne] at hsucceeded
            exact absurd hsucceeded nofun
          · intro hvalue
            by_cases hempty : interruptsOf items = []
            · exact if_pos hempty
            · rcases hvalue hempty with ⟨itr, hitr, hfull⟩
              rw [hnulls.1 hpending itr hitr] at hfull
              exact absurd hfull nofun
      | false =>
          have hvalue : ∃ itr ∈ interruptsOf items, isNull itr.value = false := by
            by_contra hnone
            have hall : (relay executionId items).pending.isEmpty = true :=
              hnulls.2 fun itr hitr => by
                by_contra hfull
                exact hnone ⟨itr, hitr, Bool.eq_false_iff.2 hfull⟩
            rw [hpending] at hall
            exact absurd hall nofun
          have hwaiting : streamOutcome items .completed = .waiting := by
            rcases hvalue with ⟨itr, hitr, -⟩
            exact if_neg (List.ne_nil_of_mem hitr)
          have hpublished := hrelay.publish
            (waitingEvent executionId threadId (relay executionId items).pending) nofun nofun
            fun htold => htold.elim nofun nofun
          rw [if_neg nofun, List.append_cons, lawful_completed_iff hpublished, hmerged, hcompleted]
          exact and_congr_left fun _ => iff_of_true hwaiting fun _ => hvalue

/-- An interrupt without a value: the paused run is told to have succeeded. -/
theorem null_interrupt_succeeds :
    let items : List RelayItem :=
      [.updates [("__interrupt__", .interrupts [{ id := .str "i1", value := .null }])]]
    let x := Relay.streamExecution "e1" "e1" (some none) items .completed
    x.published = [startEvent "e1", endEvent "e1" .succeeded none] ∧
      ¬ Lawful (some none) items .completed x := by
  intro items x
  have hpublished : x.published = [startEvent "e1"] ++ [endEvent "e1" .succeeded none] := rfl
  refine ⟨hpublished, fun hlaw => ?_⟩
  have htrace := hlaw.trace
  rw [hpublished] at htrace
  exact absurd (outcome_eq_of_traceLaw htrace) (by decide)

end Proofs

end OpsKnowledge.Workflow
