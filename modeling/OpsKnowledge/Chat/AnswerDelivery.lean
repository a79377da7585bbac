import OpsKnowledge.Chat.EventStream
import OpsKnowledge.Chat.Lifecycle

/-!
# The ways of an answer

A turn is run for a browser that reads its events as they come, for a caller that waits for
one reply, or in the background for a callback; the message it leaves is a fourth copy of the
answer. A browser whose connection breaks looks the message up and fills in what it has missed. The
database takes the messages of the turn; what it does where it fails is not part of this.
-/

namespace OpsKnowledge.Chat

open OpsKnowledge.Lib
open Replies (get truthy)
open EventStream

/-! ## The events of a turn -/

/-- `token_usage` -/
def tokenUsageValue (usage : Nat × Nat) : JsonValue :=
  .obj [("input_tokens", .int usage.1), ("output_tokens", .int usage.2)]

/-- The event and the dictionary that the pipeline yields; `uuid` is the text of an id. -/
def SseEvent.toEvent (uuid : Nat → String) (float : Rat → JsonValue) : SseEvent → Event
  | .messageStart messageId conversationId =>
      { name := "message_start"
        members := [("message_id", .str (uuid messageId)), ("conversation_id", .str (uuid conversationId))] }
  | .guardWarning score rules =>
      { name := "guard_warning"
        members := [("score", float score), ("rules", .arr (rules.map JsonValue.str))] }
  | .thinking step content =>
      { name := "thinking"
        members := [("step", .int step), ("content", .str content)] }
  | .contentDelta delta =>
      { name := "content_delta"
        members := [("delta", .str delta)] }
  | .messageEnd inputTokens outputTokens traceId =>
      { name := "message_end"
        members :=
          [("token_usage", tokenUsageValue (inputTokens, outputTokens)), ("trace_id", .str traceId)] }

/-! ## Callers that wait -/

/-- The reply of `_sync_blocking_chat`. -/
structure BlockingAnswer where
  conversationId : JsonValue := .null
  messageId : JsonValue := .null
  answer : List Char := []
  tokenUsage : JsonValue := .obj []
  references : JsonValue := .arr []

/-- `data.get("delta", "")`, where that is a string. -/
def deltaText (members : List (String × JsonValue)) : Option (List Char) :=
  match members.reverse.lookup "delta" with
  | none => some []
  | some (.str delta) => some delta.toList
  | some _ => none

namespace BlockingAnswer

/-- One event; `none` where something else than a string is added to the answer. -/
def receive (s : BlockingAnswer) (e : Event) : Option BlockingAnswer :=
  if e.name = "message_start" then
    some { s with
      conversationId := get e.members "conversation_id"
      messageId := get e.members "message_id" }
  else if e.name = "content_delta" then
    (deltaText e.members).map fun delta => { s with answer := s.answer ++ delta }
  else if e.name = "retrieval_info" then
    some { s with references := (e.members.reverse.lookup "chunks").getD (.arr []) }
  else if e.name = "message_end" then
    let usage := (e.members.reverse.lookup "token_usage").getD (.obj [])
    some { s with tokenUsage := if truthy usage then usage else .obj [] }
  else some s

end BlockingAnswer

def syncBlockingChat (events : List Event) : Option BlockingAnswer :=
  events.foldlM BlockingAnswer.receive {}

/-- The message id and the answer in the background task of `_start_async_chat`. -/
def asyncReceive (s : JsonValue × List Char) (e : Event) : Option (JsonValue × List Char) :=
  if e.name = "message_start" then some (get e.members "message_id", s.2)
  else if e.name = "content_delta" then (deltaText e.members).map fun delta => (s.1, s.2 ++ delta)
  else some s

/-- What `_start_async_chat` posts to the callback. -/
def asyncChat (events : List Event) : Option (JsonValue × List Char) :=
  events.foldlM asyncReceive (.null, [])

/-! ## The browser -/

/-- The chat window while an answer comes in. -/
structure ChatWindow where
  conversationId : JsonValue := .null
  messageId : JsonValue := .null
  pendingContent : List Char := []

namespace ChatWindow

variable (parse : List Char → Option JsonValue) (text : JsonValue → List Char)

def onData (s : ChatWindow) (name : List Char) (data : JsonValue) : ChatWindow :=
  if name = "message_start".toList then
    let conversationId := property data "conversation_id"
    let messageId := property data "message_id"
    { s with
      conversationId := if isTruthy conversationId then conversationId else s.conversationId
      messageId := if isTruthy messageId then messageId else s.messageId }
  else if name = "content_delta".toList then
    let delta := property data "delta"
    { s with pendingContent := s.pendingContent ++ if isTruthy delta then asText text delta else [] }
  else s

/-- The listener of `sendMessage`; data that cannot be parsed is an empty object. -/
def onEvent (s : ChatWindow) (event : SSEEvent) : ChatWindow :=
  s.onData text event.event ((parse event.data).getD (.obj []))

/-- The window after the reads, where `conversationId` is that of the request. -/
def receive (conversationId : JsonValue) (reads : List (List Char)) : ChatWindow :=
  (streamChat reads).foldl (onEvent parse text) { conversationId := conversationId }

def appendContent (s : ChatWindow) (delta : List Char) : ChatWindow :=
  { s with pendingContent := s.pendingContent ++ delta }

/-- `_tryRecover`, with the message that is found, if one is. -/
def tryRecover (s : ChatWindow) (found : Option AssistantMessage) : ChatWindow :=
  if !isTruthy s.messageId || !isTruthy s.conversationId then s
  else match found with
    | none => s.appendContent "\n\n[网络中断，无法恢复连接]".toList
    | some m =>
      let content := m.content.toList
      match m.status with
      | .completed =>
        if s.pendingContent.length < content.length && s.pendingContent.isPrefixOf content then
          s.appendContent (content.drop s.pendingContent.length)
        else if s.pendingContent = [] then s.appendContent content
        else s
      | .generating => s.appendContent "\n\n[连接中断，生成已停止。请重试以继续。]".toList
      | .error => s.appendContent "\n\n[生成失败，请重试]".toList

end ChatWindow

/-! ## The shape of a turn -/

/-- Between the start and the end of a message. -/
def SseEvent.isInner : SseEvent → Bool
  | .guardWarning _ _ | .thinking _ _ | .contentDelta _ => true
  | .messageStart _ _ | .messageEnd _ _ _ => false

/-- The run goes on from `events` to one end; a message that it has completed has the text that was sent, and
the tokens of a message are those of the end. -/
def EndsFrom (events : List SseEvent) (run : PipelineRun) : Prop :=
  ∃ more inputTokens outputTokens traceId,
    run.events = events ++ (more ++ [.messageEnd inputTokens outputTokens traceId]) ∧
      (∀ e ∈ more, e.isInner = true) ∧
      ∀ m, run.message = some m → (m.status = .completed → m.content = sentContent run.events) ∧
        ∀ usage, m.tokenUsage = some usage → usage = (inputTokens, outputTokens)

section Turns

variable {agent : Agent} {env : PipelineEnv} {run : PipelineRun}

theorem inner_receive {s : Streaming} (h : ∀ e ∈ s.events, e.isInner = true) (chunk : StreamChunk) :
    ∀ e ∈ (s.receive agent chunk).events, e.isInner = true := by
  have hthink : ∀ reasoning, ∀ e ∈ (s.think agent reasoning).events, e.isInner = true := by
    intro reasoning e he
    rcases List.mem_append.1 he with he | he
    · exact h e he
    · split at he
      · split at he
        · cases List.mem_singleton.1 he
          rfl
        · cases he
      · cases List.mem_singleton.1 he
        rfl
  let thought :=
    if agent.showThinking ∧ chunk.reasoningContent ≠ "" then s.think agent chunk.reasoningContent else s
  have hthought : ∀ e ∈ thought.events, e.isInner = true := by
    unfold thought
    split
    · exact hthink _
    · exact h
  unfold Streaming.receive
  split
  · intro e he
    change e ∈ (if chunk.content ≠ "" then _ else thought : Streaming).events at he
    split at he
    · rcases List.mem_append.1 he with he | he
      · exact hthought e he
      · cases List.mem_singleton.1 he
        rfl
    · exact hthought e he
  · exact h

theorem inner_foldl_receive (chunks : List StreamChunk) {s : Streaming}
    (h : ∀ e ∈ s.events, e.isInner = true) :
    ∀ e ∈ (chunks.foldl (Streaming.receive agent) s).events, e.isInner = true := by
  induction chunks generalizing s with
  | nil => exact h
  | cons chunk chunks ih => exact ih (inner_receive h chunk)

/-- A message that is still being generated. -/
def Generating (run : PipelineRun) : Prop :=
  ∀ m, run.message = some m → m.status = .generating ∧ m.tokenUsage = none

theorem endsFrom_fail {events middle : List SseEvent} (hevents : run.events = events ++ middle)
    (hmiddle : ∀ e ∈ middle, e.isInner = true) (hmessage : Generating run) : EndsFrom events run.fail := by
  refine ⟨middle, 0, 0, "", ?_, hmiddle, ?_⟩
  · show run.events ++ _ = _
    rw [hevents, List.append_assoc]
  · intro m hm
    obtain ⟨hstatus, husage⟩ := hmessage m hm
    constructor
    · intro hcompleted
      rw [hstatus] at hcompleted
      cases hcompleted
    · intro usage hsome
      rw [husage] at hsome
      cases hsome

theorem endsFrom_streamAnswer {events middle : List SseEvent} (hevents : run.events = events ++ middle)
    (hmiddle : ∀ e ∈ middle, e.isInner = true) (hnothing : sentContent run.events = "")
    (stream : ModelStream) : EndsFrom events (streamAnswer agent env run stream) := by
  obtain ⟨hcontent, hsent⟩ := foldl_receive agent stream.chunks {}
  have hinner : ∀ e ∈ (stream.chunks.foldl (Streaming.receive agent) {}).events, e.isInner = true :=
    inner_foldl_receive stream.chunks fun e he => by cases he
  unfold streamAnswer
  generalize stream.chunks.foldl (Streaming.receive agent) {} = s at hcontent hsent hinner ⊢
  have hmore : ∀ e ∈ middle ++ s.events, e.isInner = true := fun e he =>
    (List.mem_append.1 he).elim (hmiddle e) (hinner e)
  dsimp only
  cases stream.failure with
  | none =>
      refine ⟨middle ++ s.events, s.tokens.1, s.tokens.2, env.traceId, ?_, hmore, ?_⟩
      · show (run.events ++ _) ++ _ = _
        rw [hevents, List.append_assoc, List.append_assoc, List.append_assoc]
      · intro m hm
        obtain ⟨_, -, rfl⟩ := Option.map_eq_some_iff.1 hm
        constructor
        · intro _
          show _ = sentContent ((run.events ++ _) ++ [_])
          rw [sentContent_concat, sentContent_append, hnothing, hsent]
          exact hcontent.trans (String.append_empty.trans String.empty_append).symm
        · intro usage husage
          cases husage
          rfl
  | some failure =>
      dsimp only
      split
      · next hblank =>
          let errorMsg := "生成出错：" ++
            Knowledge.slice (if strip failure.text = "" then failure.className else strip failure.text) 0 500
          refine ⟨middle ++ s.events ++ [.contentDelta errorMsg], 0, 0, env.traceId, ?_, ?_, ?_⟩
          · show ((run.events ++ _) ++ [_]) ++ _ = _
            rw [hevents]
            simp only [List.append_assoc]
            rfl
          · intro e he
            rcases List.mem_append.1 he with he | he
            · exact hmore e he
            · cases List.mem_singleton.1 he
              rfl
          · intro m hm
            obtain ⟨_, -, rfl⟩ := Option.map_eq_some_iff.1 hm
            exact ⟨nofun, nofun⟩
      · refine ⟨middle ++ s.events, 0, 0, env.traceId, ?_, hmore, ?_⟩
        · show (run.events ++ _) ++ _ = _
          rw [hevents, List.append_assoc, List.append_assoc, List.append_assoc]
        · intro m hm
          obtain ⟨_, -, rfl⟩ := Option.map_eq_some_iff.1 hm
          exact ⟨nofun, nofun⟩

theorem endsFrom_converse {isWord : Char → Bool} {tie : Message → Nat} {conv : Conversation}
    {events middle : List SseEvent} (hevents : run.events = events ++ middle)
    (hmiddle : ∀ e ∈ middle, e.isInner = true) (hmessage : Generating run)
    (hnothing : sentContent run.events = "") :
    EndsFrom events (converse agent env isWord tie conv run) := by
  have hfail : EndsFrom events run.fail := endsFrom_fail hevents hmiddle hmessage
  unfold converse
  split
  · exact hfail
  · split
    · next refusal _ =>
        refine ⟨middle ++ [.contentDelta refusal], 0, 0, env.traceId, ?_, ?_, ?_⟩
        · show (run.events ++ [_]) ++ _ = _
          rw [hevents]
          simp only [List.append_assoc]
        · intro e he
          rcases List.mem_append.1 he with he | he
          · exact hmiddle e he
          · cases List.mem_singleton.1 he
            rfl
        · intro m hm
          obtain ⟨hstatus, husage⟩ := hmessage m hm
          rw [hstatus, husage]
          exact ⟨nofun, nofun⟩
    · split
      · exact hfail
      · split
        · exact hfail
        · exact endsFrom_streamAnswer hevents hmiddle hnothing _

/-- A turn in a conversation has one start, which is first, and one end, which is last. -/
theorem endsFrom_runRagPipeline {conv : Conversation} (hconv : env.conversation = some conv)
    (isWord : Char → Bool) (tie : Message → Nat) (special : String → Nat → List Char)
    (search : String → String → Option (Nat × Nat)) :
    EndsFrom [.messageStart env.turn.assistantMsg.id conv.id]
      (runRagPipeline agent env isWord tie special search) := by
  have hgenerating : ∀ events, Generating { message := some {}, events := events } := by
    intro events m hm
    cases hm
    exact ⟨rfl, rfl⟩
  have hstart : sentContent [.messageStart env.turn.assistantMsg.id conv.id] = "" :=
    sentContent_singleton _
  unfold runRagPipeline
  rw [hconv]
  dsimp only
  split
  · exact endsFrom_fail (List.append_nil _).symm (fun e he => by cases he) (hgenerating _)
  · split
    · exact endsFrom_converse (List.append_nil _).symm (fun e he => by cases he) (hgenerating _) hstart
    · refine endsFrom_converse rfl ?_ (hgenerating _) ?_
      · intro e he
        cases List.mem_singleton.1 he
        rfl
      · show sentContent ([_] ++ [_]) = ""
        rw [sentContent_append, hstart, sentContent_singleton]
        rfl
    · next mode blockThreshold logThreshold _ _ _ =>
        let guard := evaluate search env.turn.userMsg.content mode blockThreshold logThreshold
        let refusal := guard.refusalMessage.getD "请求被安全策略拦截。"
        refine ⟨[.contentDelta refusal], 0, 0, env.traceId, rfl, ?_, ?_⟩
        · intro e he
          cases List.mem_singleton.1 he
          rfl
        · intro m hm
          cases hm
          refine ⟨fun _ => ?_, nofun⟩
          show _ = sentContent (([_] ++ [_]) ++ [_])
          rw [sentContent_concat, sentContent_concat, hstart]
          exact (String.append_empty.trans String.empty_append).symm

end Turns

/-! ## The copies of the answer -/

theorem toList_sentContent_cons (e : SseEvent) (events : List SseEvent) :
    (sentContent (e :: events)).toList = e.delta.toList ++ (sentContent events).toList := by
  have hcons : sentContent (e :: events) = e.delta ++ sentContent events := by
    show String.join (e.delta :: events.map SseEvent.delta) = _
    rw [String.join_cons]
    rfl
  rw [hcons, String.toList_append]

section Copies

variable (uuid : Nat → String) (float : Rat → JsonValue)

/-- An event inside a message only adds its text. -/
theorem receive_toEvent (s : BlockingAnswer) {e : SseEvent} (h : e.isInner = true) :
    s.receive (e.toEvent uuid float) = some { s with answer := s.answer ++ e.delta.toList } := by
  cases e with
  | contentDelta delta => rfl
  | guardWarning | thinking =>
      show some s = some { s with answer := s.answer ++ [] }
      rw [List.append_nil]
  | messageStart | messageEnd => cases h

theorem foldlM_receive_toEvent {events : List SseEvent} (h : ∀ e ∈ events, e.isInner = true)
    (s : BlockingAnswer) :
    (events.map (SseEvent.toEvent uuid float)).foldlM BlockingAnswer.receive s =
      some { s with answer := s.answer ++ (sentContent events).toList } := by
  induction events generalizing s with
  | nil =>
      show some s = some { s with answer := s.answer ++ [] }
      rw [List.append_nil]
  | cons e events ih =>
      rw [List.forall_mem_cons] at h
      rw [List.map_cons, List.foldlM_cons, receive_toEvent uuid float s h.1, Option.bind_eq_bind,
        Option.bind_some, ih h.2, toList_sentContent_cons, List.append_assoc]

theorem asyncReceive_toEvent (s : JsonValue × List Char) {e : SseEvent} (h : e.isInner = true) :
    asyncReceive s (e.toEvent uuid float) = some (s.1, s.2 ++ e.delta.toList) := by
  cases e with
  | contentDelta delta => rfl
  | guardWarning | thinking =>
      show some s = some (s.1, s.2 ++ [])
      rw [List.append_nil]
  | messageStart | messageEnd => cases h

theorem foldlM_asyncReceive_toEvent {events : List SseEvent} (h : ∀ e ∈ events, e.isInner = true)
    (s : JsonValue × List Char) :
    (events.map (SseEvent.toEvent uuid float)).foldlM asyncReceive s =
      some (s.1, s.2 ++ (sentContent events).toList) := by
  induction events generalizing s with
  | nil =>
      show some s = some (s.1, s.2 ++ [])
      rw [List.append_nil]
  | cons e events ih =>
      rw [List.forall_mem_cons] at h
      rw [List.map_cons, List.foldlM_cons, asyncReceive_toEvent uuid float s h.1, Option.bind_eq_bind,
        Option.bind_some, ih h.2, toList_sentContent_cons, List.append_assoc]

variable {middle : List SseEvent} (h : ∀ e ∈ middle, e.isInner = true)
variable (messageId conversationId inputTokens outputTokens : Nat) (traceId : String)

/-- The text of a message is the text between its start and its end. -/
theorem sentContent_framed : sentContent (.messageStart messageId conversationId ::
    (middle ++ [.messageEnd inputTokens outputTokens traceId])) = sentContent middle := by
  rw [← List.singleton_append, sentContent_append, sentContent_concat, sentContent_singleton]
  exact String.empty_append.trans String.append_empty

include h in
theorem syncBlockingChat_framed :
    syncBlockingChat ((.messageStart messageId conversationId ::
      (middle ++ [.messageEnd inputTokens outputTokens traceId])).map (SseEvent.toEvent uuid float)) =
      some {
        conversationId := .str (uuid conversationId)
        messageId := .str (uuid messageId)
        answer := (sentContent middle).toList
        tokenUsage := tokenUsageValue (inputTokens, outputTokens) } := by
  unfold syncBlockingChat
  rw [List.map_cons, List.map_append, List.foldlM_cons]
  show List.foldlM _ _ _ = _
  rw [List.foldlM_append, foldlM_receive_toEvent uuid float h]
  rfl

include h in
theorem asyncChat_framed :
    asyncChat ((.messageStart messageId conversationId ::
      (middle ++ [.messageEnd inputTokens outputTokens traceId])).map (SseEvent.toEvent uuid float)) =
      some (.str (uuid messageId), (sentContent middle).toList) := by
  unfold asyncChat
  rw [List.map_cons, List.map_append, List.foldlM_cons]
  show List.foldlM _ _ _ = _
  rw [List.foldlM_append, foldlM_asyncReceive_toEvent uuid float h]
  rfl

end Copies

/-! ## What the browser shows -/

/-- No read ends between the line of a name and that of its data. -/
def Uncut (reads : List (List Char)) : Prop :=
  ∀ i, 3 * i + 1 < reads.flatten.count '\n' → arrival reads (3 * i) = arrival reads (3 * i + 1)

theorem filter_zipIdx_lt {α : Type} (xs : List α) (k n : Nat) :
    ((xs.zipIdx n).filter fun p => decide (p.2 < k)).map Prod.fst = xs.take (k - n) := by
  induction xs generalizing n with
  | nil => simp
  | cons x xs ih =>
      rw [List.zipIdx_cons, List.filter_cons]
      by_cases hlt : n < k
      · have hsucc : k - n = k - (n + 1) + 1 := by omega
        rw [if_pos (decide_eq_true hlt), List.map_cons, ih, hsucc, List.take_succ_cons]
      · rw [if_neg (by simpa using hlt), ih, show k - n = 0 by omega, show k - (n + 1) = 0 by omega]
        rfl

/-- Where no event is cut, those are emitted whose data line has arrived. -/
theorem streamChat_of_uncut {es : List SSEEvent} (h : ∀ e ∈ es, e.Plain) {reads : List (List Char)}
    (hreads : reads.flatten <+: wire es) (huncut : Uncut reads) :
    streamChat reads = es.take ((reads.flatten.count '\n' + 1) / 3) := by
  have hbuffer : splitSeq ['\n'] [] = [[]] := rfl
  rw [streamChat_eq_delivered h hreads]
  unfold delivered
  simp only [getElem?_flatMap_marked (length_readParts '\n' hbuffer reads)]
  have hiff : ∀ i, (3 * i + 1 < reads.flatten.count '\n' ∧
      arrival reads (3 * i) = arrival reads (3 * i + 1)) ↔ i < (reads.flatten.count '\n' + 1) / 3 := by
    intro i
    constructor
    · rintro ⟨hlt, -⟩
      omega
    · intro hlt
      have harrived : 3 * i + 1 < reads.flatten.count '\n' := by omega
      exact ⟨harrived, huncut i harrived⟩
  simp only [hiff]
  exact filter_zipIdx_lt es _ 0

theorem count_wire {es : List SSEEvent} (h : ∀ e ∈ es, e.Plain) :
    (wire es).count '\n' = 3 * es.length := by
  induction es with
  | nil => rfl
  | cons e es ih =>
      rw [List.forall_mem_cons] at h
      have hframe : e.frame.count '\n' = 1 := by
        unfold SSEEvent.frame
        rw [List.count_append, List.count_cons_self, List.count_eq_zero.2 (newline_notMem_eventLine h.1),
          List.count_eq_zero.2 (newline_notMem_dataLine h.1)]
      have hcons : wire (e :: es) = (e.frame ++ ['\n', '\n']) ++ wire es := List.flatMap_cons
      rw [hcons, List.count_append, List.count_append, hframe, ih h.2, List.length_cons]
      show 1 + 2 + 3 * es.length = _
      omega

section Window

variable {uuid : Nat → String} {float : Rat → JsonValue} {server : Server}
variable {parse : List Char → Option JsonValue} {text : JsonValue → List Char}

theorem onEvent_sent (s : ChatWindow) {e : Event} (h : e.Sendable server parse) :
    s.onEvent parse text (e.sent server) = s.onData text e.name.toList (.obj e.members) := by
  unfold ChatWindow.onEvent
  rw [h.parsed]
  rfl

theorem onData_of_ne (s : ChatWindow) {name : List Char} (hstart : name ≠ "message_start".toList)
    (hdelta : name ≠ "content_delta".toList) (data : JsonValue) : s.onData text name data = s := by
  unfold ChatWindow.onData
  rw [if_neg hstart, if_neg hdelta]

theorem onData_delta (s : ChatWindow) (delta : String) :
    s.onData text "content_delta".toList (.obj [("delta", .str delta)]) =
      { s with pendingContent := s.pendingContent ++ delta.toList } := by
  unfold ChatWindow.onData
  rw [if_neg (by decide), if_pos rfl]
  change { s with pendingContent := s.pendingContent ++
    (if isTruthy (.str delta) = true then asText text (.str delta) else []) } = _
  by_cases hempty : delta = ""
  · rw [hempty]
    rfl
  · rw [if_pos (by simpa [isTruthy] using hempty)]
    rfl

theorem onEvent_toEvent (s : ChatWindow) {e : SseEvent} (h : (e.toEvent uuid float).Sendable server parse)
    (hstart : ∀ m c, e ≠ .messageStart m c) :
    s.onEvent parse text ((e.toEvent uuid float).sent server) =
      { s with pendingContent := s.pendingContent ++ e.delta.toList } := by
  have hnothing : { s with pendingContent := s.pendingContent ++ [] } = s := by rw [List.append_nil]
  rw [onEvent_sent s h]
  cases e with
  | messageStart m c => exact absurd rfl (hstart m c)
  | contentDelta delta => exact onData_delta s delta
  | guardWarning score rules =>
      exact (onData_of_ne s (by decide : "guard_warning".toList ≠ _) (by decide) _).trans hnothing.symm
  | thinking step content =>
      exact (onData_of_ne s (by decide : "thinking".toList ≠ _) (by decide) _).trans hnothing.symm
  | messageEnd inputTokens outputTokens traceId =>
      exact (onData_of_ne s (by decide : "message_end".toList ≠ _) (by decide) _).trans hnothing.symm

theorem foldl_onEvent_toEvent {events : List SseEvent}
    (h : ∀ e ∈ events, (e.toEvent uuid float).Sendable server parse)
    (hstart : ∀ e ∈ events, ∀ m c, e ≠ .messageStart m c) (s : ChatWindow) :
    (events.map fun e => (e.toEvent uuid float).sent server).foldl (ChatWindow.onEvent parse text) s =
      { s with pendingContent := s.pendingContent ++ (sentContent events).toList } := by
  induction events generalizing s with
  | nil =>
      show s = { s with pendingContent := s.pendingContent ++ [] }
      rw [List.append_nil]
  | cons e events ih =>
      rw [List.forall_mem_cons] at h hstart
      rw [List.map_cons, List.foldl_cons, onEvent_toEvent s h.1 hstart.1, ih h.2 hstart.2,
        toList_sentContent_cons, List.append_assoc]

theorem onEvent_messageStart (huuid : ∀ n, uuid n ≠ "") (s : ChatWindow) {m c : Nat}
    (h : ((SseEvent.messageStart m c).toEvent uuid float).Sendable server parse) :
    s.onEvent parse text (((SseEvent.messageStart m c).toEvent uuid float).sent server) =
      { s with conversationId := .str (uuid c), messageId := .str (uuid m) } := by
  have htruthy : ∀ n, isTruthy (.str (uuid n)) = true := fun n => by simpa [isTruthy] using huuid n
  rw [onEvent_sent s h]
  unfold ChatWindow.onData
  rw [if_pos (by rfl)]
  change { s with
    conversationId := if isTruthy (.str (uuid c)) = true then .str (uuid c) else s.conversationId
    messageId := if isTruthy (.str (uuid m)) = true then .str (uuid m) else s.messageId } = _
  rw [if_pos (htruthy c), if_pos (htruthy m)]

/-- A window that knows its message is filled in with what it has missed. -/
theorem tryRecover_completed {s : ChatWindow} {m : AssistantMessage} {rest : List Char}
    (hmessage : isTruthy s.messageId = true) (hconversation : isTruthy s.conversationId = true)
    (hstatus : m.status = .completed) (hcontent : m.content.toList = s.pendingContent ++ rest) :
    (s.tryRecover (some m)).pendingContent = m.content.toList := by
  unfold ChatWindow.tryRecover
  rw [hmessage, hconversation]
  simp only [Bool.not_true, Bool.or_self, Bool.false_eq_true, if_false, hstatus, hcontent]
  split
  · show s.pendingContent ++ _ = _
    rw [List.drop_left]
  · next hall =>
      have hnothing : rest = [] := by
        cases rest with
        | nil => rfl
        | cons c rest => simp at hall
      rw [hnothing, List.append_nil]
      split
      · next hempty => rw [ChatWindow.appendContent, hempty, List.append_nil]
      · rfl

theorem notStart_of_framed {middle : List SseEvent} (hinner : ∀ e ∈ middle, e.isInner = true)
    {inputTokens outputTokens : Nat} {traceId : String} :
    ∀ e ∈ middle ++ [.messageEnd inputTokens outputTokens traceId], ∀ m c, e ≠ SseEvent.messageStart m c := by
  rintro e he m c rfl
  rcases List.mem_append.1 he with he | he
  · cases hinner _ he
  · cases List.mem_singleton.1 he

/-- The window after the start of a message and what has come behind it. -/
theorem receive_framed (huuid : ∀ n, uuid n ≠ "") {m c : Nat} {rest : List SseEvent}
    (hsend : ∀ e ∈ SseEvent.messageStart m c :: rest, (e.toEvent uuid float).Sendable server parse)
    (hrest : ∀ e ∈ rest, ∀ m c, e ≠ .messageStart m c) (requested : JsonValue) {reads : List (List Char)}
    (hreads : reads.flatten <+: wire ((SseEvent.messageStart m c :: rest).map fun e =>
      (e.toEvent uuid float).sent server))
    (huncut : Uncut reads) (harrived : 2 ≤ reads.flatten.count '\n') :
    ChatWindow.receive parse text requested reads =
      { conversationId := .str (uuid c)
        messageId := .str (uuid m)
        pendingContent :=
          (sentContent (rest.take ((reads.flatten.count '\n' - 2) / 3))).toList } := by
  have hplain : ∀ e ∈ (SseEvent.messageStart m c :: rest).map fun e => (e.toEvent uuid float).sent server,
      e.Plain := List.forall_mem_map.2 fun e he => (hsend e he).plain
  have hcount : (reads.flatten.count '\n' + 1) / 3 = (reads.flatten.count '\n' - 2) / 3 + 1 := by omega
  rw [List.forall_mem_cons] at hsend
  unfold ChatWindow.receive
  rw [streamChat_of_uncut hplain hreads huncut, hcount, List.map_cons, List.take_succ_cons, List.foldl_cons,
    onEvent_messageStart huuid _ hsend.1, ← List.map_take,
    foldl_onEvent_toEvent (fun e he => hsend.2 e (List.mem_of_mem_take he))
      (fun e he => hrest e (List.mem_of_mem_take he))]
  rfl

/-- A window that has not yet read the first event. -/
theorem receive_early {events : List SseEvent}
    (hsend : ∀ e ∈ events, (e.toEvent uuid float).Sendable server parse) (requested : JsonValue)
    {reads : List (List Char)}
    (hreads : reads.flatten <+: wire (events.map fun e => (e.toEvent uuid float).sent server))
    (huncut : Uncut reads) (hearly : reads.flatten.count '\n' < 2) :
    ChatWindow.receive parse text requested reads = { conversationId := requested } := by
  have hplain : ∀ e ∈ events.map fun e => (e.toEvent uuid float).sent server, e.Plain :=
    List.forall_mem_map.2 fun e he => (hsend e he).plain
  have hnone : (reads.flatten.count '\n' + 1) / 3 = 0 := by omega
  unfold ChatWindow.receive
  rw [streamChat_of_uncut hplain hreads huncut, hnone, List.take_zero]
  rfl

/-- A browser shows the beginning of the answer, all of it at the end of the stream, and all of it where it
has read the start and found the completed message. -/
theorem receive_shows (huuid : ∀ n, uuid n ≠ "") {m c : Nat} {middle : List SseEvent}
    (hinner : ∀ e ∈ middle, e.isInner = true) {inputTokens outputTokens : Nat} {traceId : String}
    (hsend : ∀ e ∈ SseEvent.messageStart m c :: (middle ++ [.messageEnd inputTokens outputTokens traceId]),
      (e.toEvent uuid float).Sendable server parse)
    (requested : JsonValue) {reads : List (List Char)} (huncut : Uncut reads) :
    let stream := wire
      ((SseEvent.messageStart m c :: (middle ++ [.messageEnd inputTokens outputTokens traceId])).map fun e =>
        (e.toEvent uuid float).sent server)
    let window := ChatWindow.receive parse text requested reads
    let answer := (sentContent middle).toList
    reads.flatten <+: stream →
      (∃ rest, answer = window.pendingContent ++ rest) ∧
        (reads.flatten = stream → window.pendingContent = answer) ∧
        (2 ≤ reads.flatten.count '\n' → ∀ found : AssistantMessage, found.status = .completed →
          found.content.toList = answer → (window.tryRecover (some found)).pendingContent = answer) := by
  intro stream window answer hreads
  let rest := middle ++ [SseEvent.messageEnd inputTokens outputTokens traceId]
  have hrest : sentContent rest = sentContent middle := by
    show sentContent (middle ++ [_]) = _
    rw [sentContent_concat]
    exact String.append_empty
  have hcount : reads.flatten = stream → reads.flatten.count '\n' = 3 * (rest.length + 1) := by
    intro hall
    have hplain : ∀ e ∈ (SseEvent.messageStart m c :: rest).map fun e => (e.toEvent uuid float).sent server,
        e.Plain := List.forall_mem_map.2 fun e he => (hsend e he).plain
    rw [hall, count_wire hplain, List.length_map, List.length_cons]
  by_cases harrived : 2 ≤ reads.flatten.count '\n'
  · have hwindow : window = {
        conversationId := .str (uuid c)
        messageId := .str (uuid m)
        pendingContent := (sentContent (rest.take ((reads.flatten.count '\n' - 2) / 3))).toList } :=
      receive_framed huuid hsend (notStart_of_framed hinner) requested hreads huncut harrived
    have hparts : answer = window.pendingContent ++
        (sentContent (rest.drop ((reads.flatten.count '\n' - 2) / 3))).toList := by
      rw [hwindow, ← String.toList_append, ← sentContent_append, List.take_append_drop, hrest]
    refine ⟨⟨_, hparts⟩, ?_, fun _ found hstatus hcontent => ?_⟩
    · intro hall
      have htake : (reads.flatten.count '\n' - 2) / 3 = rest.length := by
        have hlength := hcount hall
        omega
      rw [hwindow]
      show (sentContent (rest.take _)).toList = (sentContent middle).toList
      rw [htake, List.take_length, hrest]
    · have htruthy : ∀ n, isTruthy (.str (uuid n)) = true := fun n => by simpa [isTruthy] using huuid n
      have hrecovered := tryRecover_completed (s := window) (by rw [hwindow]; exact htruthy _)
        (by rw [hwindow]; exact htruthy _) hstatus (hcontent.trans hparts)
      exact hrecovered.trans hcontent
  · have hwindow : window = { conversationId := requested } :=
      receive_early hsend requested hreads huncut (Nat.lt_of_not_le harrived)
    refine ⟨⟨answer, by rw [hwindow]; rfl⟩, ?_, fun hlate => absurd hlate harrived⟩
    intro hall
    have hlength := hcount hall
    omega

end Window

/-- A turn has one start and one end. The reply of a caller that waits, the callback, the browser that has
read everything and the message that is left have the same answer; a browser shows its beginning, and all
of it where its connection broke after the start and it has found the completed message. -/
theorem answer_on_every_way (agent : Agent) (env : PipelineEnv) (isWord : Char → Bool) (tie : Message → Nat)
    (special : String → Nat → List Char) (search : String → String → Option (Nat × Nat))
    {conv : Conversation} (hconv : env.conversation = some conv) {uuid : Nat → String}
    (huuid : ∀ n, uuid n ≠ "") {float : Rat → JsonValue} {server : Server}
    {parse : List Char → Option JsonValue} (text : JsonValue → List Char)
    (hsend : ∀ e ∈ (runRagPipeline agent env isWord tie special search).events,
      (e.toEvent uuid float).Sendable server parse) :
    let run := runRagPipeline agent env isWord tie special search
    let events := run.events.map (SseEvent.toEvent uuid float)
    (∃ middle inputTokens outputTokens traceId,
      run.events = .messageStart env.turn.assistantMsg.id conv.id ::
        (middle ++ [.messageEnd inputTokens outputTokens traceId]) ∧
        ∀ e ∈ middle, e.isInner = true) ∧
    ∃ b, syncBlockingChat events = some b ∧ asyncChat events = some (b.messageId, b.answer) ∧
      b.messageId = .str (uuid env.turn.assistantMsg.id) ∧ b.conversationId = .str (uuid conv.id) ∧
      (∀ m, run.message = some m → (m.status = .completed → m.content.toList = b.answer) ∧
        ∀ usage, m.tokenUsage = some usage → b.tokenUsage = tokenUsageValue usage) ∧
      ∀ requested reads,
        let stream := server.streamChatResponse (events.map fun e => (e.name, .dict e.members))
        reads.flatten <+: stream → Uncut reads →
          let window := ChatWindow.receive parse text requested reads
          (∃ rest, b.answer = window.pendingContent ++ rest) ∧
            (reads.flatten = stream → window.pendingContent = b.answer) ∧
            (2 ≤ reads.flatten.count '\n' → ∀ m, run.message = some m → m.status = .completed →
              (window.tryRecover (some m)).pendingContent = b.answer) := by
  intro run events
  obtain ⟨middle, inputTokens, outputTokens, traceId, hevents, hinner, hmessage⟩ :=
    @endsFrom_runRagPipeline agent env conv hconv isWord tie special search
  rw [List.singleton_append] at hevents
  have hblocking := syncBlockingChat_framed uuid float hinner env.turn.assistantMsg.id conv.id inputTokens
    outputTokens traceId
  have hasync := asyncChat_framed uuid float hinner env.turn.assistantMsg.id conv.id inputTokens outputTokens
    traceId
  have hsent : sentContent run.events = sentContent middle := by
    rw [hevents]
    exact sentContent_framed _ _ _ _ _
  rw [← hevents] at hblocking hasync
  refine ⟨⟨middle, inputTokens, outputTokens, traceId, hevents, hinner⟩, _, hblocking, hasync, rfl, rfl,
    ?_, ?_⟩
  · intro m hm
    obtain ⟨hcontent, husage⟩ := hmessage m hm
    refine ⟨fun hstatus => ?_, fun usage hsome => ?_⟩
    · rw [hcontent hstatus]
      exact congrArg String.toList hsent
    · rw [husage usage hsome]
  · intro requested reads stream hreads huncut window
    have hstream : stream = wire (run.events.map fun e => (e.toEvent uuid float).sent server) := by
      have heq := streamChatResponse_eq (List.forall_mem_map.2 hsend)
      rw [List.map_map, List.map_map] at heq
      show server.streamChatResponse (events.map _) = _
      rw [List.map_map]
      exact heq
    rw [hstream] at hreads ⊢
    change ∀ e ∈ run.events, _ at hsend
    rw [hevents] at hsend hreads ⊢
    obtain ⟨hbegin, hall, hrecover⟩ := receive_shows huuid hinner hsend requested huncut hreads
    refine ⟨hbegin, hall, fun harrived m hm hstatus => hrecover harrived m hstatus ?_⟩
    rw [(hmessage m hm).1 hstatus]
    exact congrArg String.toList hsent

def vpnAgent : Agent := { modelId := some 0 }

def vpnEnv : PipelineEnv where
  conversation := some { id := 0 }
  turn := firstTurn
  traceId := "t"
  resolveModel := fun _ => some "gpt"
  getProvider := fun _ => some true
  maxInputTokens := fun _ => none
  streamByRegistry := fun _ _ =>
    { chunks := [{ content := "dial " }, { content := "in", usage := some (9, 2) }] }
  stream := fun _ _ _ => { chunks := [] }

def vpnRun : PipelineRun :=
  runRagPipeline vpnAgent vpnEnv Char.isAlphanum Message.id (fun _ _ => []) (fun _ _ => none)

theorem vpnRun_eq : vpnRun = {
    message := some {
      content := "dial in"
      status := .completed
      metadata := some (.retrieval 0)
      tokenUsage := some (9, 2) }
    events := [.messageStart 2 0, .contentDelta "dial ", .contentDelta "in", .messageEnd 9 2 "t"] } := by
  have hlower : lower (fun _ _ => []) "off" = "off" := by decide +kernel
  have hguard : parseGuardConfig (fun _ _ => []) vpnAgent.guardConfig =
      some (.off, max 0 (min 1 (7 / 10)), max 0 (min 1 (4 / 10))) := by
    unfold parseGuardConfig
    rw [show vpnAgent.guardConfig.mode = "off" from rfl, hlower]
    rfl
  unfold vpnRun runRagPipeline
  rw [hguard]
  rfl

def vpnId (n : Nat) : String := "id-" ++ toString n

def vpnParse (s : List Char) : Option JsonValue := loads 9 (String.ofList s)

theorem vpnRun_sendable : ∀ e ∈ vpnRun.events,
    (e.toEvent vpnId fun _ => .null).Sendable ⟨fun _ => "", 9⟩ vpnParse := by
  rw [vpnRun_eq]
  intro e he
  simp only [List.mem_cons, List.not_mem_nil, or_false] at he
  rcases he with rfl | rfl | rfl | rfl
  · refine ⟨by decide, by decide, by decide, rfl, (fun x hx => by cases hx), ?_⟩
    exact loads_chars rfl fun x hx => by cases hx
  · refine ⟨by decide, by decide, by decide, rfl, (fun x hx => by cases hx), ?_⟩
    exact loads_chars rfl fun x hx => by cases hx
  · refine ⟨by decide, by decide, by decide, rfl, (fun x hx => by cases hx), ?_⟩
    exact loads_chars rfl fun x hx => by cases hx
  · refine ⟨by decide, by decide, by decide, rfl, (fun x hx => by cases hx), ?_⟩
    exact loads_chars rfl fun x hx => by cases hx

/-- What has come before the connection breaks. -/
def vpnRead : List Char :=
  ("event: message_start\ndata: \x7b\"message_id\": \"id-2\", \"conversation_id\": \"id-0\"\x7d\n\n" ++
    "event: content_delta\ndata: \x7b\"delta\": \"dial \"\x7d\n\nevent: content_de").toList

theorem answer_on_every_way_vpn : ∃ b,
    syncBlockingChat (vpnRun.events.map (SseEvent.toEvent vpnId fun _ => .null)) = some b ∧
      (∃ rest, b.answer =
        (ChatWindow.receive vpnParse (fun _ => []) .null [vpnRead]).pendingContent ++ rest) ∧
      ∀ m, vpnRun.message = some m → m.status = .completed →
        ((ChatWindow.receive vpnParse (fun _ => []) .null [vpnRead]).tryRecover (some m)).pendingContent =
          b.answer := by
  have hid : ∀ n, vpnId n ≠ "" := by
    intro n h
    have hlength := congrArg String.length h
    rw [vpnId, String.length_append] at hlength
    exact absurd hlength (by show 3 + _ ≠ 0; omega)
  obtain ⟨-, b, hb, -, -, -, -, hreads⟩ := answer_on_every_way vpnAgent vpnEnv Char.isAlphanum Message.id
    (fun _ _ => []) (fun _ _ => none) rfl hid (fun _ => []) vpnRun_sendable
  have hstream : [vpnRead].flatten <+: Server.streamChatResponse ⟨fun _ => "", 9⟩
      ((vpnRun.events.map (SseEvent.toEvent vpnId fun _ => .null)).map fun e =>
        (e.name, .dict e.members)) := by
    rw [vpnRun_eq]
    decide +kernel
  have huncut : Uncut [vpnRead] := by
    intro i hi
    have hcount : [vpnRead].flatten.count '\n' = 6 := by decide +kernel
    have harrival : ∀ n, n < 6 → arrival [vpnRead] n = 0 := by decide +kernel
    rw [hcount] at hi
    rw [harrival _ (by omega), harrival _ hi]
  obtain ⟨hbegin, -, hrecover⟩ := hreads .null [vpnRead] hstream huncut
  exact ⟨b, hb, hbegin, hrecover (by decide +kernel)⟩

end OpsKnowledge.Chat
