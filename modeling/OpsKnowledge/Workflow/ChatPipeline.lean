import OpsKnowledge.Workflow.Streaming

/-!
# The text a chat turn persists

`run_workflow_pipeline` of `app/chat/workflow_pipeline.py`. The driver publishes the
events of one graph run on a bus with two subscribers, the trace instrumentation and
the pipeline itself, and closes it; the pipeline collects the text of the chunks that
reach its queue and falls back to the outputs of the run. `str` stands for Python's
`str` on a JSON value.
-/

namespace OpsKnowledge.Workflow

open OpsKnowledge.Lib

/-! ## The driver and the reader -/

structure PipelineState where
  bus : EventBus
  /-- What the driver has still to publish. -/
  script : List Event

inductive PipelineOp where
  | publish
  | putWaiting (i : Nat)
  | timeoutWaiting (i : Nat)
  | get (s : Nat)
  | close

/-- No publication waits for a queue. -/
def EventBus.idle (bus : EventBus) : Bool := bus.inFlight.all fun w => w.2.isEmpty

/-- The driver awaits each publication before the next, and closes the bus after the last. -/
def pipelineStep (st : PipelineState) : PipelineOp → Option PipelineState
  | .publish =>
      match st.script with
      | ev :: rest => if st.bus.idle then some { bus := st.bus.publish ev, script := rest } else none
      | [] => none
  | .putWaiting i => (st.bus.putWaiting i).map fun bus => { st with bus := bus }
  | .timeoutWaiting i => (st.bus.timeoutWaiting i).map fun bus => { st with bus := bus }
  | .get s => (st.bus.get s).map fun bus => { st with bus := bus }
  | .close =>
      if st.script.isEmpty ∧ st.bus.idle ∧ ¬ st.bus.closed then some { st with bus := st.bus.close }
      else none

/-- The instrumentation subscribes first, the pipeline second. -/
def pipelineStart (queueSize historyMax : Nat) (script : List Event) : PipelineState :=
  { bus := (EventBus.new queueSize historyMax).subscribe.subscribe, script := script }

/-- `final_parts` after the events the reader has got; `bus.stream` ends at the sentinel. -/
def finalParts (got : List (Option Event)) : List String :=
  (got.takeWhile Option.isSome).filterMap fun x => x.bind chunkText

/-- `(final_state_holder.get("result") or {}).get("outputs") or {}`. -/
def resultOutputs (checkpointer : Bool) (saved : Channels) (run : ChatRun) : Dict String Bucket :=
  ((streamExecution checkpointer saved run.pass).map Channels.outputs).getD .empty

def persistedText (str : Json → String) (parts : List String) (outputs : Dict String Bucket) :
    String :=
  let parts :=
    if parts.isEmpty then
      match recoverAnswer outputs with
      | some answer => [str answer]
      | none => []
    else parts
  let text := String.join parts
  if text = "" then "（工作流无输出）" else text

/-- Python's `str` on JSON values: the identity on strings, and not empty on a truthy value. -/
structure PyStr (str : Json → String) : Prop where
  ofStr : ∀ s, str (.str s) = s
  nonempty : ∀ v, v.truthy = true → str v ≠ ""

/-! ## When the text is the answer -/

/-- A chunk with text is published only when the reader's queue has room. -/
def chunkFits (st : PipelineState) (op : PipelineOp) : Bool :=
  match op, st.script, st.bus.subs[1]? with
  | .publish, ev :: _, some sub => (chunkText ev).isNone || !isFull st.bus.queueSize sub.queue
  | _, _, _ => true

/-- The `j`-th node run is the only run of an answer node and no other streams any text; its
answer is not empty, and if it streams no text itself it is the first answer of the outputs. -/
structure SoleAnswer (run : ChatRun) (outputs : Dict String Bucket) (j : Nat) (r : NodeRun) :
    Prop where
  place : run.execs[j]? = some r
  answer : r.node.type = "answer"
  alone : ∀ i r', i ≠ j → run.execs[i]? = some r' →
    r'.node.type ≠ "answer" ∧ ∀ c ∈ r'.chunks, c = ""
  nonempty : (answerInput r.inputs).truthy = true
  fallback : (∀ c ∈ r.chunks, c = "") → recoverAnswer outputs = some (answerInput r.inputs)

/-! ## What reaches the reader -/

/-- All text published so far is in the reader's stream, before any sentinel. -/
structure ReaderInv (texts : List String) (st : PipelineState) : Prop where
  critical : ∀ w ∈ st.bus.inFlight, w.1.type.critical = true
  quiet : st.bus.closed = true → st.script = [] ∧ st.bus.idle = true
  reader : ∃ (sub : Subscriber) (evs : List Event), st.bus.subs[1]? = some sub ∧
    evs.filterMap chunkText ++ st.script.filterMap chunkText = texts ∧
    (sub.stream = evs.map some ∨ st.bus.closed = true ∧ sub.stream = evs.map some ++ [none])

theorem chunkText_of_critical {ev : Event} (h : ev.type.critical = true) : chunkText ev = none := by
  apply chunkText_of_type
  intro ht
  rw [ht] at h
  cases h

theorem not_idle_of_waiting {bus : EventBus} {i s : Nat} {ev : Event} {rest : List Nat}
    (h : bus.inFlight[i]? = some (ev, s :: rest)) : bus.idle = false := by
  rw [EventBus.idle, List.all_eq_false]
  exact ⟨_, List.mem_of_getElem? h, by simp⟩

theorem readerInv_publish {texts : List String} {st st' : PipelineState} (hinv : ReaderInv texts st)
    (hfits : chunkFits st .publish = true) (h : pipelineStep st .publish = some st') :
    ReaderInv texts st' := by
  rcases hinv with ⟨hcrit, hquiet, sub, evs, hsub, htexts, hstream⟩
  simp only [pipelineStep] at h
  cases hscript : st.script with
  | nil => simp [hscript] at h
  | cons ev rest =>
      have hopen : st.bus.closed = false := by
        cases hc : st.bus.closed with
        | false => rfl
        | true => simp [(hquiet hc).1] at hscript
      have hstream' : sub.stream = evs.map some := by simpa [hopen] using hstream
      rw [hscript] at h
      cases hidle : st.bus.idle with
      | false => simp [hidle] at h
      | true =>
          simp only [hidle, if_true, Option.some.injEq] at h
          subst h
          rw [hscript] at htexts
          by_cases hc : ev.type.critical = true
          · -- A critical event reaches no queue in this step and has no text.
            have hbus : st.bus.publish ev = { st.bus.record ev with
                inFlight := st.bus.inFlight ++ [(ev, List.range st.bus.subs.length)] } := by
              simp [EventBus.publish, EventBus.record, hopen, hc]
            refine ⟨?_, ?_, sub, evs, ?_, ?_, Or.inl hstream'⟩
            · intro w hw
              rw [hbus] at hw
              rcases List.mem_append.1 hw with hw | hw
              · exact hcrit w hw
              · rw [List.mem_singleton.1 hw]
                exact hc
            · intro hclosed
              simp [hbus, EventBus.record, hopen] at hclosed
            · simpa [hbus, EventBus.record] using hsub
            · simpa [chunkText_of_critical hc] using htexts
          · have hbus : st.bus.publish ev = { st.bus.record ev with
                subs := st.bus.subs.map (Subscriber.offer st.bus.queueSize (some ev)) } := by
              simp [EventBus.publish, EventBus.record, hopen, hc]
            have hsub' : (st.bus.publish ev).subs[1]? =
                some (sub.offer st.bus.queueSize (some ev)) := by
              simp [hbus, hsub]
            have hroom : chunkText ev = none ∨ isFull st.bus.queueSize sub.queue = false := by
              simpa [chunkFits, hscript, hsub] using hfits
            have hclosed' : (st.bus.publish ev).closed = false := by simp [hbus, EventBus.record, hopen]
            have hinFlight : (st.bus.publish ev).inFlight = st.bus.inFlight := by
              simp [hbus, EventBus.record]
            cases hfull : isFull st.bus.queueSize sub.queue with
            | true =>
                have hnone : chunkText ev = none := by simpa [hfull] using hroom
                refine ⟨hinFlight ▸ hcrit, ?_, _, evs, hsub', ?_, Or.inl ?_⟩
                · simp [hclosed']
                · simpa [hnone] using htexts
                · simp [Subscriber.stream_offer, hfull, hstream']
            | false =>
                refine ⟨hinFlight ▸ hcrit, ?_, _, evs ++ [ev], hsub', ?_, Or.inl ?_⟩
                · simp [hclosed']
                · rw [List.filterMap_append, List.append_assoc, ← htexts]
                  cases hev : chunkText ev <;> simp [hev]
                · simp [Subscriber.stream_offer, hfull, hstream']

theorem readerInv_step {texts : List String} {st st' : PipelineState} {op : PipelineOp}
    (hinv : ReaderInv texts st) (hfits : chunkFits st op = true)
    (h : pipelineStep st op = some st') : ReaderInv texts st' := by
  cases op with
  | publish => exact readerInv_publish hinv hfits h
  | putWaiting i =>
      rcases hinv with ⟨hcrit, hquiet, sub, evs, hsub, htexts, hstream⟩
      rcases Option.map_eq_some_iff.1 h with ⟨bus', hbus, rfl⟩
      simp only [EventBus.putWaiting] at hbus
      split at hbus
      · next ev s rest hw =>
          have hopen : st.bus.closed = false := by
            cases hc : st.bus.closed with
            | false => rfl
            | true => simp [not_idle_of_waiting hw] at hquiet; exact absurd hc (by simp [hquiet])
          have hstream' : sub.stream = evs.map some := by simpa [hopen] using hstream
          have hev : ev.type.critical = true := hcrit _ (List.mem_of_getElem? hw)
          have hnone := chunkText_of_critical hev
          split at hbus
          · next sub₀ hs =>
              split at hbus
              · cases hbus
              · cases hbus
                have hcrit' : ∀ w ∈ st.bus.inFlight.set i (ev, rest), w.1.type.critical = true := by
                  intro w hw'
                  rcases List.mem_or_eq_of_mem_set hw' with hw' | rfl
                  · exact hcrit w hw'
                  · exact hev
                have hlt : s < st.bus.subs.length := (List.getElem?_eq_some_iff.1 hs).1
                by_cases hs1 : s = 1
                · subst hs1
                  have hsame : sub₀ = sub := by simpa [hsub] using hs.symm
                  refine ⟨hcrit', by simp [hopen], sub.put (some ev), evs ++ [ev], ?_, ?_, Or.inl ?_⟩
                  · simp [hsame, hlt]
                  · simpa [hnone] using htexts
                  · simp [Subscriber.stream_put, hstream']
                · refine ⟨hcrit', by simp [hopen], sub, evs, ?_, htexts, Or.inl hstream'⟩
                  simpa [List.getElem?_set_ne hs1] using hsub
          · cases hbus
      · cases hbus
  | timeoutWaiting i =>
      rcases hinv with ⟨hcrit, hquiet, hreader⟩
      rcases Option.map_eq_some_iff.1 h with ⟨bus', hbus, rfl⟩
      simp only [EventBus.timeoutWaiting] at hbus
      split at hbus
      · next ev s rest hw =>
          cases hbus
          have hev : ev.type.critical = true := hcrit _ (List.mem_of_getElem? hw)
          refine ⟨?_, ?_, hreader⟩
          · intro w hw'
            rcases List.mem_or_eq_of_mem_set hw' with hw' | rfl
            · exact hcrit w hw'
            · exact hev
          · intro hclosed
            have hidle := (hquiet hclosed).2
            rw [not_idle_of_waiting hw] at hidle
            cases hidle
      · cases hbus
  | get s =>
      rcases hinv with ⟨hcrit, hquiet, sub, evs, hsub, htexts, hstream⟩
      rcases Option.map_eq_some_iff.1 h with ⟨bus', hbus, rfl⟩
      simp only [EventBus.get] at hbus
      split at hbus
      · next sub₀ hs =>
          split at hbus
          · next x rest hq =>
              cases hbus
              have hlt : s < st.bus.subs.length := (List.getElem?_eq_some_iff.1 hs).1
              by_cases hs1 : s = 1
              · subst hs1
                have hsame : sub₀ = sub := by simpa [hsub] using hs.symm
                subst hsame
                refine ⟨hcrit, hquiet, { sub₀ with queue := rest, got := sub₀.got ++ [x] }, evs, ?_,
                  htexts, ?_⟩
                · simp [hlt]
                · simpa [Subscriber.stream, hq] using hstream
              · refine ⟨hcrit, hquiet, sub, evs, ?_, htexts, hstream⟩
                simpa [List.getElem?_set_ne hs1] using hsub
          · cases hbus
      · cases hbus
  | close =>
      rcases hinv with ⟨hcrit, hquiet, sub, evs, hsub, htexts, hstream⟩
      simp only [pipelineStep] at h
      split at h
      · next hguard =>
          cases h
          rcases hguard with ⟨hscript, hidle, hopen⟩
          have hstream' : sub.stream = evs.map some := by simpa [hopen] using hstream
          refine ⟨hcrit, fun _ => ⟨List.isEmpty_iff.1 hscript, hidle⟩,
            sub.offer st.bus.queueSize none, evs, ?_, htexts, ?_⟩
          · simp [EventBus.close, hsub]
          · rw [Subscriber.stream_offer, hstream']
            cases isFull st.bus.queueSize sub.queue with
            | true => exact Or.inl rfl
            | false => exact Or.inr ⟨rfl, rfl⟩
      · cases h

theorem readerInv_start (queueSize historyMax : Nat) (script : List Event) :
    ReaderInv (script.filterMap chunkText) (pipelineStart queueSize historyMax script) := by
  have hsub : (pipelineStart queueSize historyMax script).bus.subs[1]? =
      some { queue := [], joinedAfterEnd := false } := by
    simp [pipelineStart, EventBus.subscribe, EventBus.newSubscriber, EventBus.replay, EventBus.new,
      EventBus.endPublished]
  refine ⟨?_, ?_, _, [], hsub, rfl, Or.inl rfl⟩
  · intro w hw
    simp [pipelineStart, EventBus.subscribe, EventBus.new] at hw
  · intro hc
    simp [pipelineStart, EventBus.subscribe, EventBus.new] at hc

theorem takeWhile_append_of_none_mem {xs : List (Option Event)} (h : none ∈ xs)
    (ys : List (Option Event)) :
    (xs ++ ys).takeWhile Option.isSome = xs.takeWhile Option.isSome := by
  induction xs with
  | nil => cases h
  | cons x xs ih =>
      cases x with
      | none => simp
      | some ev =>
          have hmem : none ∈ xs := by simpa using h
          simp [ih hmem]

/-- When the reader has the sentinel and nothing with text was dropped, it has all the text. -/
theorem finalParts_of_run {queueSize historyMax : Nat} {script : List Event} {ops : List PipelineOp}
    {st : PipelineState} {sub : Subscriber}
    (hrun : runSteps pipelineStep (pipelineStart queueSize historyMax script) ops = some st)
    (hfits : EveryStep pipelineStep (fun st op => chunkFits st op = true)
      (pipelineStart queueSize historyMax script) ops)
    (hsub : st.bus.subs[1]? = some sub) (hdone : none ∈ sub.got) :
    finalParts sub.got = script.filterMap chunkText := by
  have hinv := (hfits.visits (fun _ _ _ hp hc hs => readerInv_step hp hc hs)
    (readerInv_start queueSize historyMax script)).last hrun
  rcases hinv with ⟨-, hquiet, sub', evs, hsub', htexts, hstream⟩
  have hsame : sub' = sub := by simpa [hsub] using hsub'.symm
  subst hsame
  rcases hstream with hstream | ⟨hclosed, hstream⟩
  · have hmem : none ∈ evs.map some := hstream ▸ List.mem_append_left _ hdone
    simp at hmem
  · have hscript := (hquiet hclosed).1
    have hgot : sub'.got.takeWhile Option.isSome = evs.map some := by
      rw [← takeWhile_append_of_none_mem hdone sub'.queue]
      rw [Subscriber.stream] at hstream
      rw [hstream, List.takeWhile_append_of_pos (by simp)]
      simp
    rw [finalParts, hgot, List.filterMap_map, ← htexts, hscript]
    simp

/-! ## The persisted text -/

/-- The text of the chunks of a run in which one node run streams all of it. -/
theorem texts_of_soleAnswer {registry : NodeRegistry} {run : ChatRun} (hvalid : run.Valid registry)
    {outputs : Dict String Bucket} {j : Nat} {r : NodeRun} (hsole : SoleAnswer run outputs j r) :
    (executionEvents run).filterMap chunkText = r.chunks.filter fun c => c ≠ "" := by
  have hj : (run.execs.map fun r => r.chunks.map fun c => (r.node.id, c))[j]? =
      some (r.chunks.map fun c => (r.node.id, c)) := by
    simp [hsole.place]
  have hfilter := hvalid.chunks.filter_eq (p := fun c => c.2 ≠ "") hj (by
    intro i m hij hm x hx
    rw [List.getElem?_map, Option.map_eq_some_iff] at hm
    rcases hm with ⟨r', hr', rfl⟩
    rcases List.mem_map.1 hx with ⟨c, hc, rfl⟩
    simpa using (hsole.alone i r' hij hr').2 c hc)
  rw [filterMap_chunkText_executionEvents, hfilter, List.filter_map, List.map_map]
  simp [Function.comp_def]

theorem persistedText_of_soleAnswer {registry : NodeRegistry} {str : Json → String}
    (hstr : PyStr str) {run : ChatRun} (hvalid : run.Valid registry)
    {outputs : Dict String Bucket} {j : Nat} {r : NodeRun} (hsole : SoleAnswer run outputs j r) :
    persistedText str (r.chunks.filter fun c => c ≠ "") outputs = str (answerInput r.inputs) := by
  have hanswer := hstr.nonempty _ hsole.nonempty
  cases hparts : r.chunks.filter fun c => c ≠ "" with
  | nil =>
      have hsilent : ∀ c ∈ r.chunks, c = "" := by
        simpa [List.filter_eq_nil_iff] using hparts
      simp [persistedText, hsole.fallback hsilent, hanswer]
  | cons c cs =>
      have hchunks := ((hvalid.follows r (List.mem_of_getElem? hsole.place)).answer hsole.answer).2
      have hjoin : String.join (c :: cs) = String.join r.chunks := by
        rw [← hparts, join_filter_ne_empty]
      -- Text in the chunks means that the answer is a string and was sliced.
      have htext : ∃ text, answerInput r.inputs = .str text ∧ r.chunks = answerSlices text := by
        rw [hchunks] at hparts ⊢
        unfold answerOnStream at hparts ⊢
        cases hflag : configFlag r.node.data "stream" with
        | false => simp [hflag] at hparts
        | true =>
            cases hin : answerInput r.inputs with
            | str text => exact ⟨text, rfl, by simp⟩
            | null => simp [hflag, hin] at hparts
            | bool b => simp [hflag, hin] at hparts
            | num n => simp [hflag, hin] at hparts
            | arr xs => simp [hflag, hin] at hparts
            | obj fields => simp [hflag, hin] at hparts
      rcases htext with ⟨text, hin, hslices⟩
      rw [hslices, join_answerSlices] at hjoin
      rw [hin, hstr.ofStr] at hanswer
      rw [hin, hstr.ofStr]
      simp [persistedText, hjoin, hanswer]

/-- In every completed pipeline run that drops no chunk text and in which one answer node
alone streams, the persisted text is that node's resolved answer. -/
theorem runWorkflowPipeline_text {registry : NodeRegistry} {str : Json → String}
    (hstr : PyStr str) {run : ChatRun} (hvalid : run.Valid registry) (checkpointer : Bool)
    (saved : Channels) {queueSize historyMax : Nat} {ops : List PipelineOp} {st : PipelineState}
    {sub : Subscriber}
    (hrun : runSteps pipelineStep (pipelineStart queueSize historyMax (executionEvents run)) ops =
      some st)
    (hsub : st.bus.subs[1]? = some sub) (hdone : none ∈ sub.got)
    (hfits : EveryStep pipelineStep (fun st op => chunkFits st op = true)
      (pipelineStart queueSize historyMax (executionEvents run)) ops)
    {j : Nat} {r : NodeRun}
    (hsole : SoleAnswer run (resultOutputs checkpointer saved run) j r) :
    ∀ r' ∈ run.execs, r'.node.type = "answer" →
      persistedText str (finalParts sub.got) (resultOutputs checkpointer saved run) =
        str (answerInput r'.inputs) := by
  intro r' hr' hanswer
  have hparts := finalParts_of_run hrun hfits hsub hdone
  rw [hparts, texts_of_soleAnswer hvalid hsole, persistedText_of_soleAnswer hstr hvalid hsole]
  rcases List.getElem?_of_mem hr' with ⟨i, hi⟩
  by_cases hij : i = j
  · subst hij
    have hsame : r = r' := by simpa [hsole.place] using hi
    rw [hsame]
  · exact absurd hanswer (hsole.alone i r' hij hi).1

/-! ## A chatflow of a start, an LLM and an answer node -/

/-- `str` on the values that the runs below contain. -/
def strOfString : Json → String
  | .str s => s
  | _ => "value"

theorem strOfString_pyStr : PyStr strOfString := by
  refine ⟨fun s => rfl, ?_⟩
  intro v hv
  cases v with
  | str s => simpa [Json.truthy, strOfString] using hv
  | null => cases hv
  | bool b => simp [strOfString]
  | num n => simp [strOfString]
  | arr xs => simp [strOfString]
  | obj fields => simp [strOfString]

def chatExecs (streaming : Bool) : List NodeRun :=
  [ { node := { id := "s", type := "start" }, inputs := .empty, outputs := .empty },
    { node := { id := "l", type := "llm", data := [("streaming", .bool streaming)] }
      inputs := .empty
      outputs := Dict.ofList [("content", .str "hi")]
      chunks := if streaming then ["hi"] else [] },
    { node := { id := "a", type := "answer" }
      inputs := Dict.ofList [("answer", .str "hi")]
      outputs := Dict.ofList [("answer", .str "hi")]
      chunks := ["hi"] } ]

def chatItems (streaming : Bool) : List StreamItem :=
  (chatExecs streaming).flatMap fun r =>
    r.chunks.map (StreamItem.custom r.node.id) ++ [.updates r.node.id r.delta]

/-- One turn, with or without streaming in the LLM node. -/
def chatRun (streaming : Bool) : ChatRun :=
  { executionId := "e"
    threadId := "c"
    execs := chatExecs streaming
    items := chatItems streaming
    pass :=
      { turn := 1
        resumed := false
        nodeTypes := Dict.ofList [("s", "start"), ("l", "llm"), ("a", "answer")]
        streamed := (chatItems streaming).filterMap StreamItem.update?
        applied := (chatItems streaming).filterMap StreamItem.update?
        outcome := .succeeded
        snapshot := true } }

theorem chatRun_valid (streaming : Bool) : (chatRun streaming).Valid .builtin := by
  refine ⟨?_, ?_, rfl, ?_⟩
  · intro r hr
    simp only [chatRun, chatExecs, List.mem_cons, List.not_mem_nil, or_false] at hr
    rcases hr with rfl | rfl | rfl
    · exact ⟨fun h => absurd h (by decide), fun h => absurd h (by decide), fun _ => rfl⟩
    · refine ⟨fun h => absurd h (by simp), ?_, ?_⟩
      · intro _ hflag
        cases streaming with
        | false => rfl
        | true => cases hflag
      · intro hsilent
        cases hsilent { type := "llm", category := .llm, streaming := true } rfl
    · refine ⟨fun _ => ⟨rfl, rfl⟩, fun h => absurd h (by decide), ?_⟩
      intro hsilent
      cases hsilent { type := "answer", category := .output, streaming := true } rfl
  · cases streaming <;> rfl
  · cases streaming with
    | false => exact .next (i := 2) rfl (.done (by simp [chatRun, chatExecs]))
    | true =>
        exact .next (i := 1) rfl (.next (i := 2) rfl (.done (by simp [chatRun, chatExecs])))

/-- All events are published, the critical ones put to both queues, and the reader drains its own. -/
def chatOps (events : Nat) : List PipelineOp :=
  [.publish, .putWaiting 0, .putWaiting 0] ++ List.replicate events .publish ++
    [.putWaiting 1, .putWaiting 1, .close] ++ List.replicate (events + 2) (.get 1)

theorem chatRun_runs (streaming : Bool) :
    ∃ st sub, runSteps pipelineStep
        (pipelineStart 256 256 (executionEvents (chatRun streaming)))
        (chatOps (if streaming then 12 else 11)) = some st ∧
      st.bus.subs[1]? = some sub ∧ none ∈ sub.got ∧
      finalParts sub.got = if streaming then ["hi", "hi"] else ["hi"] := by
  cases streaming with
  | false => exact ⟨_, _, rfl, rfl, by simp, rfl⟩
  | true => exact ⟨_, _, rfl, rfl, by simp, rfl⟩

theorem chatRun_soleAnswer :
    SoleAnswer (chatRun false) (resultOutputs true .empty (chatRun false)) 2
      { node := { id := "a", type := "answer" }
        inputs := Dict.ofList [("answer", .str "hi")]
        outputs := Dict.ofList [("answer", .str "hi")]
        chunks := ["hi"] } := by
  refine ⟨rfl, rfl, ?_, rfl, fun h => absurd (h "hi" (by simp)) (by decide)⟩
  intro i r' hi hr'
  match i, hi, hr' with
  | 0, _, rfl => exact ⟨by simp, by simp⟩
  | 1, _, rfl => exact ⟨by simp, by simp⟩
  | 2, hi, _ => exact absurd rfl hi

theorem runWorkflowPipeline_text_silentLlm :
    ∃ st sub, runSteps pipelineStep
        (pipelineStart 256 256 (executionEvents (chatRun false))) (chatOps 11) = some st ∧
      st.bus.subs[1]? = some sub ∧
      persistedText strOfString (finalParts sub.got) (resultOutputs true .empty (chatRun false)) =
        "hi" := by
  rcases chatRun_runs false with ⟨st, sub, hrun, hsub, hdone, -⟩
  have hfits : EveryStep pipelineStep (fun st op => chunkFits st op = true)
      (pipelineStart 256 256 (executionEvents (chatRun false))) (chatOps 11) := by decide +kernel
  exact ⟨st, sub, hrun, hsub,
    runWorkflowPipeline_text strOfString_pyStr (chatRun_valid false) true .empty hrun hsub hdone
      hfits chatRun_soleAnswer _ (List.mem_of_getElem? chatRun_soleAnswer.place) rfl⟩

/-- An answer that repeats a streamed LLM text is persisted twice over. -/
theorem streamedLlm_duplicates_text :
    ¬ ∀ (str : Json → String) (run : ChatRun) (checkpointer : Bool) (saved : Channels)
      (queueSize historyMax : Nat) (ops : List PipelineOp) (st : PipelineState) (sub : Subscriber),
      PyStr str → run.Valid .builtin → run.pass.outcome = .succeeded →
      runSteps pipelineStep (pipelineStart queueSize historyMax (executionEvents run)) ops =
        some st →
      st.bus.subs[1]? = some sub → none ∈ sub.got →
      ∀ r ∈ run.execs, r.node.type = "answer" →
        persistedText str (finalParts sub.got) (resultOutputs checkpointer saved run) =
          str (answerInput r.inputs) := by
  intro h
  rcases chatRun_runs true with ⟨st, sub, hrun, hsub, hdone, hparts⟩
  have hmem : (chatExecs true)[2]? = some
      { node := { id := "a", type := "answer" }
        inputs := Dict.ofList [("answer", .str "hi")]
        outputs := Dict.ofList [("answer", .str "hi")]
        chunks := ["hi"] } := rfl
  have htext := h strOfString (chatRun true) true .empty 256 256 _ st sub strOfString_pyStr
    (chatRun_valid true) rfl hrun hsub hdone _ (List.mem_of_getElem? hmem) rfl
  rw [hparts] at htext
  revert htext
  decide

end OpsKnowledge.Workflow
