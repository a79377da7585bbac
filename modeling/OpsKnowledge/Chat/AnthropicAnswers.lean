import OpsKnowledge.Chat.Lifecycle

/-!
# Answers of the Anthropic provider

`AnthropicProvider` turns the events of a streamed message into chunks of the OpenAI shape. A turn
that consumes them keeps the text and the tokens that `chat` reads off the same message when it
is not streamed, however the message is cut into events.
-/

namespace OpsKnowledge.Chat

open OpsKnowledge.Lib
open OpsKnowledge.Knowledge (slice)

inductive ContentBlock where
  | text (text : String)
  | thinking (thinking : String)
  | other

/-- The text of a text block. -/
def ContentBlock.text? : ContentBlock → Option String
  | .text content => some content
  | .thinking _ | .other => none

/-- What `messages.create` returns. -/
structure AnthropicMessage where
  content : List ContentBlock
  stopReason : Option String
  inputTokens : Nat
  outputTokens : Nat

structure Delta where
  text : Option String := none
  thinking : Option String := none

/-- An event of `messages.stream`, with the tokens of its usage where it has one. -/
inductive StreamEvent where
  | messageStart (inputTokens : Option (Option Nat))
  | contentBlockDelta (delta : Option Delta)
  | messageDelta (outputTokens : Option (Option Nat))
  | messageStop
  | other

/-- A chunk in the shape of a chat completion. -/
structure Chunk where
  content : Option String := none
  role : Option String := none
  reasoningContent : Option String := none
  finishReason : Option String := none
  usage : Option (Nat × Nat × Nat) := none

structure ChatResponse where
  content : String
  finishReason : String
  promptTokens : Nat
  completionTokens : Nat
  totalTokens : Nat

namespace AnthropicProvider

/-- `chat` -/
def chat (m : AnthropicMessage) : ChatResponse where
  content := String.join (m.content.filterMap ContentBlock.text?)
  finishReason := (m.stopReason.filter (· ≠ "")).getD "stop"
  promptTokens := m.inputTokens
  completionTokens := m.outputTokens
  totalTokens := m.inputTokens + m.outputTokens

/-- `_wrap_delta` -/
def wrapDelta (content role reasoningContent : Option String) : Chunk :=
  { content := content, role := role, reasoningContent := reasoningContent }

/-- The variables of `chat_stream`, with the chunks it has yielded. -/
structure StreamState where
  roleEmitted : Bool := false
  usageIn : Nat := 0
  usageOut : Nat := 0
  sent : List Chunk := []

namespace StreamState

variable (s : StreamState)

def onText (text : Option String) : StreamState :=
  match text.filter (· ≠ "") with
  | none => s
  | some text =>
      { s with
        roleEmitted := true
        sent := s.sent ++ [wrapDelta (some text) (if s.roleEmitted then none else some "assistant") none] }

def onThinking (thinking : Option String) : StreamState :=
  match thinking.filter (· ≠ "") with
  | none => s
  | some thinking => { s with sent := s.sent ++ [wrapDelta none none (some thinking)] }

def receive : StreamEvent → StreamState
  | .messageStart usage => { s with usageIn := usage.elim s.usageIn (·.getD 0) }
  | .contentBlockDelta delta => delta.elim s fun d => (s.onText d.text).onThinking d.thinking
  | .messageDelta usage => { s with usageOut := usage.elim s.usageOut (·.getD 0) }
  | .messageStop | .other => s

def finalChunk : Chunk :=
  { finishReason := some "stop", usage := some (s.usageIn, s.usageOut, s.usageIn + s.usageOut) }

end StreamState

end AnthropicProvider

def StreamEvent.isStop : StreamEvent → Bool
  | .messageStop => true
  | .messageStart _ | .contentBlockDelta _ | .messageDelta _ | .other => false

def StreamEvent.isOther : StreamEvent → Bool
  | .other => true
  | .messageStart _ | .contentBlockDelta _ | .messageDelta _ | .messageStop => false

/-- What the pipeline reads of a chunk. -/
def Chunk.read (c : Chunk) : StreamChunk where
  content := c.content.getD ""
  reasoningContent := c.reasoningContent.getD ""
  usage := c.usage.map fun u => (u.1, u.2.1)

namespace AnthropicProvider

/-- The loop over the events, which `message_stop` breaks. -/
def receiveAll (events : List StreamEvent) : StreamState :=
  (events.takeWhile (!·.isStop)).foldl StreamState.receive {}

/-- `chat_stream`, where the iteration ends with an exception or without one. -/
def chatStream (events : List StreamEvent) (failure : Option Failure) : ModelStream :=
  let s := receiveAll events
  if failure.isSome ∧ events.all (!·.isStop) then { chunks := s.sent.map Chunk.read, failure := failure }
  else { chunks := (s.sent ++ [s.finalChunk]).map Chunk.read }

/-! ## What the service sends -/

/-- The deltas in which a block comes. -/
inductive BlockDeltas : ContentBlock → List Delta → Prop where
  | text (ds : List Delta) : BlockDeltas (.text (String.join (ds.map fun d => d.text.getD ""))) ds
  | thinking (ds : List Delta) (h : ∀ d ∈ ds, d.text = none) :
      BlockDeltas (.thinking (String.join (ds.map fun d => d.thinking.getD ""))) ds
  | other (ds : List Delta) (h : ∀ d ∈ ds, d.text = none) : BlockDeltas .other ds

/-- The events of a message up to `message_stop`: the start with the input tokens, the deltas
of each block, and usages of which the last has the output tokens; anything else between them. -/
structure Delivers (m : AnthropicMessage) (events : List StreamEvent) : Prop where
  stops : ∃ e ∈ events, e.isStop
  events : ∃ (deltas : List (List Delta)) (usages : List (Option (Option Nat))),
    List.Forall₂ BlockDeltas m.content deltas ∧
    usages.getLast? = some (some (some m.outputTokens)) ∧
    (events.takeWhile (!·.isStop)).filter (!·.isOther) =
      .messageStart (some (some m.inputTokens)) ::
        (deltas.flatten.map (fun d => .contentBlockDelta (some d)) ++ usages.map .messageDelta)

/-! ## The text -/

def StreamState.text (s : StreamState) : String := String.join (s.sent.map fun c => c.content.getD "")

def eventText : StreamEvent → String
  | .contentBlockDelta (some d) => d.text.getD ""
  | .contentBlockDelta none | .messageStart _ | .messageDelta _ | .messageStop | .other => ""

theorem text_onText (s : StreamState) (text : Option String) :
    (s.onText text).text = s.text ++ text.getD "" := by
  unfold StreamState.onText
  rcases text with _ | text
  · exact String.append_empty.symm
  · by_cases h : text = ""
    · rw [h, Option.filter_some_neg (by simp)]
      exact String.append_empty.symm
    · rw [Option.filter_some_pos (by simpa using h)]
      simp [StreamState.text, wrapDelta]

theorem text_onThinking (s : StreamState) (thinking : Option String) :
    (s.onThinking thinking).text = s.text := by
  unfold StreamState.onThinking
  split
  · rfl
  · simp [StreamState.text, wrapDelta]

theorem text_receive (s : StreamState) (e : StreamEvent) : (s.receive e).text = s.text ++ eventText e := by
  cases e with
  | messageStart usage | messageDelta usage => exact (String.append_empty (s := s.text)).symm
  | messageStop | other => exact (String.append_empty (s := s.text)).symm
  | contentBlockDelta delta =>
      cases delta with
      | none => exact (String.append_empty (s := s.text)).symm
      | some d => exact (text_onThinking _ _).trans (text_onText s d.text)

theorem text_foldl_receive (events : List StreamEvent) (s : StreamState) :
    (events.foldl StreamState.receive s).text = s.text ++ String.join (events.map eventText) := by
  induction events generalizing s with
  | nil => simp
  | cons e events ih =>
      rw [List.foldl_cons, ih, text_receive, List.map_cons, String.join_cons, String.append_assoc]

theorem foldl_receive_filter (events : List StreamEvent) (s : StreamState) :
    events.foldl StreamState.receive s = (events.filter (!·.isOther)).foldl StreamState.receive s := by
  induction events generalizing s with
  | nil => rfl
  | cons e events ih =>
      cases e with
      | other => exact ih s
      | messageStart | contentBlockDelta | messageDelta | messageStop => exact ih _

theorem join_getD_text_of_none {ds : List Delta} (h : ∀ d ∈ ds, d.text = none) :
    String.join (ds.map fun d => d.text.getD "") = "" := by
  induction ds with
  | nil => rfl
  | cons d ds ih =>
      rw [List.forall_mem_cons] at h
      rw [List.map_cons, String.join_cons, ih h.2, h.1]
      rfl

/-- The deltas have the text of the message. -/
theorem join_deltas {blocks : List ContentBlock} {deltas : List (List Delta)}
    (h : List.Forall₂ BlockDeltas blocks deltas) :
    String.join (deltas.flatten.map fun d => d.text.getD "") =
      String.join (blocks.filterMap ContentBlock.text?) := by
  induction h with
  | nil => rfl
  | cons hblock _ ih =>
      rw [List.flatten_cons, List.map_append, String.join_append, ih]
      cases hblock with
      | text ds => exact String.join_cons.symm
      | thinking ds hds =>
          rw [join_getD_text_of_none hds, String.empty_append]
          rfl
      | other ds hds =>
          rw [join_getD_text_of_none hds, String.empty_append]
          rfl

/-! ## The tokens -/

theorem onText_usage (s : StreamState) (text : Option String) :
    (s.onText text).usageIn = s.usageIn ∧ (s.onText text).usageOut = s.usageOut := by
  unfold StreamState.onText
  split
  · exact ⟨rfl, rfl⟩
  · exact ⟨rfl, rfl⟩

theorem onThinking_usage (s : StreamState) (thinking : Option String) :
    (s.onThinking thinking).usageIn = s.usageIn ∧ (s.onThinking thinking).usageOut = s.usageOut := by
  unfold StreamState.onThinking
  split
  · exact ⟨rfl, rfl⟩
  · exact ⟨rfl, rfl⟩

/-- Only the start of the message sets the input tokens. -/
theorem receive_usageIn (s : StreamState) {e : StreamEvent} (h : ∀ usage, e ≠ .messageStart usage) :
    (s.receive e).usageIn = s.usageIn := by
  cases e with
  | messageStart usage => exact absurd rfl (h usage)
  | contentBlockDelta delta =>
      cases delta with
      | none => rfl
      | some d => exact (onThinking_usage _ _).1.trans (onText_usage s d.text).1
  | messageDelta usage => rfl
  | messageStop | other => rfl

theorem foldl_receive_usageIn {events : List StreamEvent}
    (h : ∀ e ∈ events, ∀ usage, e ≠ .messageStart usage) (s : StreamState) :
    (events.foldl StreamState.receive s).usageIn = s.usageIn := by
  induction events generalizing s with
  | nil => rfl
  | cons e events ih =>
      rw [List.forall_mem_cons] at h
      rw [List.foldl_cons, ih h.2, receive_usageIn s h.1]

/-! ## The answer -/

theorem eventText_contentBlockDeltas (ds : List Delta) :
    (ds.map fun d => StreamEvent.contentBlockDelta (some d)).map eventText =
      ds.map fun d => d.text.getD "" := by
  rw [List.map_map]
  rfl

theorem join_eventText_messageDeltas (usages : List (Option (Option Nat))) :
    String.join ((usages.map StreamEvent.messageDelta).map eventText) = "" := by
  induction usages with
  | nil => rfl
  | cons usage usages ih =>
      rw [List.map_cons, List.map_cons, String.join_cons, ih]
      rfl

/-- The events of a message leave its text and its tokens. -/
theorem receiveAll_of_delivers {m : AnthropicMessage} {events : List StreamEvent}
    (h : Delivers m events) :
    (receiveAll events).text = (chat m).content ∧
      (receiveAll events).usageIn = (chat m).promptTokens ∧
      (receiveAll events).usageOut = (chat m).completionTokens := by
  obtain ⟨deltas, usages, hblocks, hlast, hevents⟩ := h.events
  obtain ⟨earlier, husages⟩ := List.getLast?_eq_some_iff.1 hlast
  unfold receiveAll
  rw [foldl_receive_filter, hevents]
  refine ⟨?_, ?_, ?_⟩
  · rw [text_foldl_receive, List.map_cons, List.map_append, eventText_contentBlockDeltas,
      String.join_cons, String.join_append, join_eventText_messageDeltas, join_deltas hblocks]
    exact (String.empty_append.trans String.empty_append).trans String.append_empty
  · rw [List.foldl_cons, foldl_receive_usageIn]
    · rfl
    · intro e he usage
      rcases List.mem_append.1 he with hdelta | husage
      · obtain ⟨d, -, rfl⟩ := List.mem_map.1 hdelta
        exact StreamEvent.noConfusion
      · obtain ⟨u, -, rfl⟩ := List.mem_map.1 husage
        exact StreamEvent.noConfusion
  · rw [husages, List.map_append, ← List.append_assoc, List.foldl_cons, List.foldl_append]
    rfl

theorem text_read (sent : List Chunk) (failure : Option Failure) :
    ModelStream.text { chunks := sent.map Chunk.read, failure := failure } =
      String.join (sent.map fun c => c.content.getD "") := by
  unfold ModelStream.text
  have hall : (sent.map Chunk.read).filter StreamChunk.hasChoices = sent.map Chunk.read := by
    rw [List.filter_eq_self]
    intro c hc
    obtain ⟨c, -, rfl⟩ := List.mem_map.1 hc
    rfl
  dsimp only
  rw [hall, List.map_map]
  rfl

theorem text_read_finalChunk (s : StreamState) :
    ModelStream.text { chunks := (s.sent ++ [s.finalChunk]).map Chunk.read } = s.text := by
  rw [text_read, List.map_append, String.join_append]
  exact String.append_empty

end AnthropicProvider

/-- The pipeline counts the tokens of the last usage. -/
theorem tokens_foldl_receive_concat (agent : Agent) (chunks : List StreamChunk) {chunk : StreamChunk}
    (hchoices : chunk.hasChoices = true) {usage : Nat × Nat} (husage : chunk.usage = some usage)
    (s : Streaming) : ((chunks ++ [chunk]).foldl (Streaming.receive agent) s).tokens = usage := by
  rw [List.foldl_append, List.foldl_cons, List.foldl_nil]
  unfold Streaming.receive
  rw [if_pos hchoices, husage]
  rfl

namespace AnthropicProvider

theorem isSome_and_all_iff {events : List StreamEvent} {failure : Option Failure} :
    (failure.isSome ∧ events.all (!·.isStop)) ↔ failure.isSome ∧ ∀ e ∈ events, e.isStop = false := by
  simp

/-- A stream that stops yields the usage last. -/
theorem chatStream_of_stop {events : List StreamEvent} (h : ∃ e ∈ events, e.isStop)
    (failure : Option Failure) :
    chatStream events failure =
      { chunks := ((receiveAll events).sent ++ [(receiveAll events).finalChunk]).map Chunk.read } := by
  unfold chatStream
  obtain ⟨e, he, hstop⟩ := h
  rw [if_neg]
  rw [isSome_and_all_iff]
  rintro ⟨-, hnone⟩
  rw [hnone e he] at hstop
  cases hstop

theorem chatStream_of_break {events : List StreamEvent} (h : ∀ e ∈ events, e.isStop = false)
    (failure : Failure) :
    chatStream events (some failure) =
      { chunks := (receiveAll events).sent.map Chunk.read, failure := some failure } := by
  unfold chatStream
  rw [if_pos (isSome_and_all_iff.2 ⟨rfl, h⟩)]

/-- Events that do not stop leave the start of the text that they leave with those after them. -/
theorem text_receiveAll_prefix {events : List StreamEvent} {n : Nat}
    (h : ∀ e ∈ events.take n, e.isStop = false) :
    ∃ rest, (receiveAll events).text = (receiveAll (events.take n)).text ++ rest := by
  have hwhile : (events.take n).takeWhile (!·.isStop) = events.take n :=
    List.takeWhile_eq_self_iff.2 fun e he => by rw [h e he]; rfl
  have hall : events.takeWhile (!·.isStop) =
      events.take n ++ (events.drop n).takeWhile (!·.isStop) := by
    conv_lhs => rw [← List.take_append_drop n events]
    exact List.takeWhile_append_of_pos fun e he => by rw [h e he]; rfl
  refine ⟨String.join (((events.drop n).takeWhile (!·.isStop)).map eventText), ?_⟩
  rw [receiveAll, receiveAll, hwhile, hall, List.foldl_append, text_foldl_receive]

end AnthropicProvider

/-- The text that is kept of a stream that breaks off, or the text of its error. -/
def keptText (text : String) (failure : Failure) : String :=
  if strip text = "" then
    "生成出错：" ++ slice (if strip failure.text = "" then failure.className else strip failure.text) 0 500
  else text

section Answers

variable (agent : Agent) (env : PipelineEnv) {run : PipelineRun} {a : AssistantMessage}

theorem message_streamAnswer_of_break (hmessage : run.message = some a) (chunks : List StreamChunk)
    (failure : Failure) :
    (streamAnswer agent env run { chunks := chunks, failure := some failure }).message =
      some { content := keptText (ModelStream.text { chunks := chunks }) failure, status := .error } := by
  obtain ⟨hcontent, -⟩ := foldl_receive agent chunks {}
  have htext : (chunks.foldl (Streaming.receive agent) {}).fullContent =
      ModelStream.text { chunks := chunks } := hcontent.trans String.empty_append
  unfold streamAnswer keptText
  dsimp only
  rw [htext]
  split
  · show run.message.map _ = _
    rw [hmessage]
    rfl
  · show run.message.map _ = _
    rw [hmessage]
    rfl

/-- However a message is cut into events, the turn keeps the text and the tokens that `chat` gives, and
sends this text. Where the events break off, what it keeps of them is the start of that text. -/
theorem streamAnswer_chatStream {m : AnthropicMessage} {events : List StreamEvent}
    (h : AnthropicProvider.Delivers m events) (hmessage : run.message = some a)
    (hnothing : sentContent run.events = "") :
    (∀ failure,
      let answered := streamAnswer agent env run (AnthropicProvider.chatStream events failure)
      let response := AnthropicProvider.chat m
      answered.message = some {
        content := response.content
        status := .completed
        metadata := some (.retrieval 0)
        tokenUsage := some (response.promptTokens, response.completionTokens) } ∧
      sentContent answered.events = response.content) ∧
    ∀ n, (∀ e ∈ events.take n, e.isStop = false) → ∃ text rest,
      (AnthropicProvider.chat m).content = text ++ rest ∧ ∀ failure,
        (streamAnswer agent env run
          (AnthropicProvider.chatStream (events.take n) (some failure))).message =
            some { content := keptText text failure, status := .error } := by
  obtain ⟨htext, husageIn, husageOut⟩ := AnthropicProvider.receiveAll_of_delivers h
  constructor
  · intro failure
    dsimp only
    rw [AnthropicProvider.chatStream_of_stop h.stops]
    set s := AnthropicProvider.receiveAll events
    obtain ⟨hcontent, hsent⟩ := foldl_receive agent ((s.sent ++ [s.finalChunk]).map Chunk.read) {}
    rw [AnthropicProvider.text_read_finalChunk, htext] at hcontent hsent
    have htokens : (((s.sent ++ [s.finalChunk]).map Chunk.read).foldl (Streaming.receive agent) {}).tokens =
        (s.usageIn, s.usageOut) := by
      rw [List.map_append]
      exact tokens_foldl_receive_concat agent _ rfl rfl {}
    constructor
    · show run.message.map _ = _
      rw [hmessage, Option.map_some, hcontent, htokens, husageIn, husageOut]
      rfl
    · show sentContent ((_ ++ _) ++ [_]) = _
      rw [sentContent_concat, sentContent_append, hnothing, hsent]
      exact (String.append_empty.trans String.empty_append).trans String.empty_append
  · intro n hbreak
    obtain ⟨rest, hrest⟩ := AnthropicProvider.text_receiveAll_prefix hbreak
    refine ⟨(AnthropicProvider.receiveAll (events.take n)).text, rest, htext.symm.trans hrest, ?_⟩
    intro failure
    rw [AnthropicProvider.chatStream_of_break hbreak, message_streamAnswer_of_break agent env hmessage,
      AnthropicProvider.text_read]
    rfl

end Answers

def thoughtfulMessage : AnthropicMessage where
  content := [.thinking "先检索", .text "重启服务"]
  stopReason := some "end_turn"
  inputTokens := 12
  outputTokens := 7

def thoughtfulEvents : List StreamEvent :=
  [.messageStart (some (some 12)), .other, .contentBlockDelta (some { thinking := some "先检索" }),
    .other, .contentBlockDelta (some { text := some "重启" }),
    .contentBlockDelta (some { text := some "服务" }), .messageDelta (some (some 7)), .messageStop]

theorem thoughtfulEvents_delivers : AnthropicProvider.Delivers thoughtfulMessage thoughtfulEvents where
  stops := ⟨.messageStop, by simp [thoughtfulEvents], rfl⟩
  events := by
    refine ⟨[[{ thinking := some "先检索" }], [{ text := some "重启" }, { text := some "服务" }]],
      [some (some 7)], .cons ?_ (.cons ?_ .nil), rfl, rfl⟩
    · exact AnthropicProvider.BlockDeltas.thinking [{ thinking := some "先检索" }] (by simp)
    · exact AnthropicProvider.BlockDeltas.text [{ text := some "重启" }, { text := some "服务" }]

def thoughtfulEnv : PipelineEnv where
  conversation := some { id := 0 }
  turn := firstTurn
  traceId := "t"
  resolveModel := fun _ => none
  getProvider := fun _ => some true
  maxInputTokens := fun _ => none
  streamByRegistry := fun _ _ => { chunks := [] }
  stream := fun _ _ _ => AnthropicProvider.chatStream thoughtfulEvents none

theorem streamAnswer_chatStream_thoughtful :
    (streamAnswer { modelProviderId := some 0 } thoughtfulEnv { message := some {} }
      (AnthropicProvider.chatStream thoughtfulEvents none)).message =
        some {
          content := "重启服务"
          status := .completed
          metadata := some (.retrieval 0)
          tokenUsage := some (12, 7) } ∧
      ∃ text rest, "重启服务" = text ++ rest ∧ ∀ failure,
        (streamAnswer { modelProviderId := some 0 } thoughtfulEnv { message := some {} }
          (AnthropicProvider.chatStream (thoughtfulEvents.take 5) (some failure))).message =
            some { content := keptText text failure, status := .error } := by
  obtain ⟨hwhole, hcut⟩ := @streamAnswer_chatStream { modelProviderId := some 0 } thoughtfulEnv
    { message := some {} } {} thoughtfulMessage thoughtfulEvents thoughtfulEvents_delivers rfl rfl
  exact ⟨(hwhole none).1, hcut 5 (by simp [thoughtfulEvents, StreamEvent.isStop])⟩

end OpsKnowledge.Chat
