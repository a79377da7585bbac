import OpsKnowledge.Chat.Pipeline

/-!
# The answer that a turn leaves

Whether the assistant message of a turn ends with a final status and the text that was sent.
-/

namespace OpsKnowledge.Chat

open OpsKnowledge.Lib
open OpsKnowledge.Knowledge (slice)

def SseEvent.delta : SseEvent → String
  | .contentDelta delta => delta
  | .messageStart _ _ | .guardWarning _ _ | .thinking _ _ | .messageEnd _ _ _ => ""

/-- The concatenation of the deltas. -/
def sentContent (events : List SseEvent) : String := String.join (events.map SseEvent.delta)

/-- The message of the turn has been completed, or has failed, with the text that was sent. -/
def PipelineRun.Settled (run : PipelineRun) : Prop :=
  ∀ m, run.message = some m →
    (m.status = .completed ∨ m.status = .error) ∧ m.content = sentContent run.events

/-- The text of the chunks that are read. -/
def ModelStream.text (stream : ModelStream) : String :=
  String.join ((stream.chunks.filter StreamChunk.hasChoices).map StreamChunk.content)

/-- The stream ends, or breaks off before any text or after some that is not blank. -/
def ModelStream.Kept (stream : ModelStream) : Prop :=
  stream.failure = none ∨ stream.text = "" ∨ strip stream.text ≠ ""

/-- The agent's model resolves, or its provider is active, or it names neither. -/
def Agent.ModelUsable (agent : Agent) (env : PipelineEnv) : Prop :=
  (∀ modelId, agent.modelId = some modelId → (env.resolveModel modelId).isSome = true) ∧
    (agent.modelId = none → ∀ providerId, agent.modelProviderId = some providerId →
      env.getProvider providerId = some true)

section Turns

variable (agent : Agent) (env : PipelineEnv) (isWord : Char → Bool) (tie : Message → Nat)

/-- The turn reaches the model, for an agent without knowledge bases, and keeps what the model sends. -/
def Answers (conv : Conversation) : Prop :=
  env.historyFails = false ∧ agent.ModelUsable env ∧ agent.knowledgeBaseIds = [] ∧
    ∃ maxCtx, maxContext agent env = some maxCtx ∧
      (modelStream agent env (env.turn.promptMessages tie isWord agent.systemPrompt
        (promptVariables agent env isWord conv) maxCtx)).Kept

/-- There is no conversation to answer in, or the guard can be read and blocks the query or lets a turn
pass that answers. -/
def Completes (special : String → Nat → List Char) (search : String → String → Option (Nat × Nat)) :
    Prop :=
  ∀ conv, env.conversation = some conv →
    ∃ mode blockThreshold logThreshold,
      parseGuardConfig special agent.guardConfig = some (mode, blockThreshold, logThreshold) ∧
        ((evaluate search env.turn.userMsg.content mode blockThreshold logThreshold).action = .block ∨
          Answers agent env isWord tie conv)

end Turns

/-! ## What is sent -/

section Sent

variable {agent : Agent} {env : PipelineEnv} {run : PipelineRun}

theorem sentContent_append (events more : List SseEvent) :
    sentContent (events ++ more) = sentContent events ++ sentContent more := by
  unfold sentContent
  rw [List.map_append, String.join_append]

theorem sentContent_singleton (event : SseEvent) : sentContent [event] = event.delta := by
  unfold sentContent
  rw [List.map_singleton, String.join_cons, String.join_nil, String.append_empty]

theorem sentContent_concat (events : List SseEvent) (event : SseEvent) :
    sentContent (events ++ [event]) = sentContent events ++ event.delta := by
  rw [sentContent_append, sentContent_singleton]

theorem Streaming.think_sent (s : Streaming) (reasoning : String) :
    sentContent (s.think agent reasoning).events = sentContent s.events := by
  unfold Streaming.think
  dsimp only
  split
  · split
    · rw [sentContent_concat]
      exact String.append_empty
    · rw [List.append_nil]
  · rw [sentContent_concat]
    exact String.append_empty

/-- A chunk adds the same text to the content and to the deltas. -/
theorem Streaming.receive_content (agent : Agent) (s : Streaming) (chunk : StreamChunk) :
    (s.receive agent chunk).fullContent =
        s.fullContent ++ (if chunk.hasChoices then chunk.content else "") ∧
      sentContent (s.receive agent chunk).events =
        sentContent s.events ++ (if chunk.hasChoices then chunk.content else "") := by
  unfold Streaming.receive
  split
  · dsimp only
    let thought :=
      if agent.showThinking ∧ chunk.reasoningContent ≠ "" then s.think agent chunk.reasoningContent else s
    have hthought : thought.fullContent = s.fullContent ∧
        sentContent thought.events = sentContent s.events := by
      unfold thought
      split
      · exact ⟨rfl, s.think_sent _⟩
      · exact ⟨rfl, rfl⟩
    by_cases htext : chunk.content = ""
    · rw [if_neg (not_not.2 htext), htext, String.append_empty, String.append_empty]
      exact hthought
    · rw [if_pos htext]
      constructor
      · exact congrArg (· ++ chunk.content) hthought.1
      · rw [sentContent_concat]
        exact congrArg (· ++ chunk.content) hthought.2
  · rw [String.append_empty, String.append_empty]
    exact ⟨rfl, rfl⟩

theorem foldl_receive (agent : Agent) (chunks : List StreamChunk) (s : Streaming) :
    (chunks.foldl (Streaming.receive agent) s).fullContent =
        s.fullContent ++ ModelStream.text { chunks := chunks } ∧
      sentContent (chunks.foldl (Streaming.receive agent) s).events =
        sentContent s.events ++ ModelStream.text { chunks := chunks } := by
  induction chunks generalizing s with
  | nil =>
      constructor
      · exact String.append_empty.symm
      · exact String.append_empty.symm
  | cons chunk chunks ih =>
      have htext : ModelStream.text { chunks := chunk :: chunks } =
          (if chunk.hasChoices then chunk.content else "") ++ ModelStream.text { chunks := chunks } := by
        unfold ModelStream.text
        cases hchoices : chunk.hasChoices with
        | true =>
            rw [List.filter_cons_of_pos hchoices, List.map_cons, String.join_cons]
            rfl
        | false =>
            rw [List.filter_cons_of_neg (by simp [hchoices])]
            exact String.empty_append.symm
      obtain ⟨hcontent, hsent⟩ := s.receive_content agent chunk
      obtain ⟨ihcontent, ihsent⟩ := ih (s.receive agent chunk)
      rw [htext, ← String.append_assoc, ← String.append_assoc, ← hcontent, ← hsent]
      exact ⟨ihcontent, ihsent⟩

/-! ## Where a turn ends -/

theorem not_settled_fail {m : AssistantMessage} (hmessage : run.message = some m)
    (hstatus : m.status = .generating) : ¬ run.Settled := by
  intro h
  have hfinal := (h m hmessage).1
  rw [hstatus] at hfinal
  simp at hfinal

/-- A final message is settled with the text that was sent. -/
theorem updateMessage_settled_iff {m final : AssistantMessage} (hmessage : run.message = some m)
    (hstatus : final.status = .completed ∨ final.status = .error) :
    (run.updateMessage final).Settled ↔ final.content = sentContent run.events := by
  have hfinal : (run.updateMessage final).message = some final := by
    show run.message.map _ = _
    rw [hmessage]
    rfl
  constructor
  · intro h
    exact (h final hfinal).2
  · intro hcontent m' hm'
    rw [hfinal] at hm'
    cases hm'
    exact ⟨hstatus, hcontent⟩

/-- The end of a message sends no text. -/
theorem yield_messageEnd_sent (inputTokens outputTokens : Nat) (traceId : String) :
    sentContent (run.yield (.messageEnd inputTokens outputTokens traceId)).events =
      sentContent run.events := by
  show sentContent (_ ++ [_]) = _
  rw [sentContent_concat]
  exact String.append_empty

theorem yield_messageEnd_settled_iff (inputTokens outputTokens : Nat) (traceId : String) :
    (run.yield (.messageEnd inputTokens outputTokens traceId)).Settled ↔ run.Settled := by
  unfold PipelineRun.Settled
  rw [yield_messageEnd_sent]
  exact Iff.rfl

theorem append_eq_self_left {text more : String} (h : more = text ++ more) : text = "" := by
  have hlength := congrArg String.length h
  rw [String.length_append] at hlength
  rw [← String.length_eq_zero_iff]
  omega

theorem streamAnswer_settled_iff {m : AssistantMessage} (hmessage : run.message = some m)
    (hnothing : sentContent run.events = "") (stream : ModelStream) :
    (streamAnswer agent env run stream).Settled ↔ stream.Kept := by
  obtain ⟨hcontent, hsent⟩ := foldl_receive agent stream.chunks {}
  have htext : ModelStream.text { chunks := stream.chunks } = stream.text := rfl
  rw [htext] at hcontent hsent
  change _ = "" ++ stream.text at hcontent hsent
  rw [String.empty_append] at hcontent hsent
  have hevents : sentContent (run.events ++ (stream.chunks.foldl (Streaming.receive agent) {}).events) =
      stream.text := by
    rw [sentContent_append, hnothing, hsent, String.empty_append]
  unfold streamAnswer ModelStream.Kept
  dsimp only
  cases hfailure : stream.failure with
  | none =>
      dsimp only
      refine iff_of_true ?_ (.inl rfl)
      rw [yield_messageEnd_settled_iff]
      refine (updateMessage_settled_iff (by exact hmessage) (.inl rfl)).2 ?_
      exact hcontent.trans hevents.symm
  | some failure =>
      dsimp only
      split
      · next hblank =>
          -- the text of the error is sent after the blank text, and stored alone
          rw [hcontent] at hblank
          refine (updateMessage_settled_iff (by exact hmessage) (.inr rfl)).trans ?_
          rw [yield_messageEnd_sent]
          show _ = sentContent (_ ++ [_]) ↔ _
          rw [sentContent_concat, hevents]
          constructor
          · intro h
            right
            left
            exact append_eq_self_left h
          · rintro (hnone | hempty | hnonblank)
            · cases hnone
            · rw [hempty]
              exact String.empty_append.symm
            · exact absurd hblank hnonblank
      · next hnonblank =>
          rw [hcontent] at hnonblank
          refine iff_of_true ?_ (.inr (.inr hnonblank))
          refine (updateMessage_settled_iff (by exact hmessage) (.inr rfl)).2 ?_
          rw [yield_messageEnd_sent]
          exact hcontent.trans hevents.symm

theorem checkModel_eq_none : checkModel agent env = none ↔ agent.ModelUsable env := by
  unfold checkModel Agent.ModelUsable
  cases hmodel : agent.modelId with
  | some modelId =>
      dsimp only
      cases hresolve : env.resolveModel modelId with
      | some name => simp [hresolve]
      | none => simp [hresolve]
  | none =>
      dsimp only
      cases hprovider : agent.modelProviderId with
      | none => simp
      | some providerId =>
          dsimp only
          cases hactive : env.getProvider providerId with
          | none => simp [hactive]
          | some active =>
              cases active with
              | true => simp [hactive]
              | false => simp [hactive]

theorem converse_settled_iff {isWord : Char → Bool} {tie : Message → Nat} {conv : Conversation}
    (hmessage : run.message = some {}) (hnothing : sentContent run.events = "") :
    (converse agent env isWord tie conv run).Settled ↔ Answers agent env isWord tie conv := by
  have hfail : ¬ run.fail.Settled := not_settled_fail hmessage rfl
  unfold converse Answers
  cases hhistory : env.historyFails with
  | true =>
      rw [if_pos rfl]
      refine iff_of_false hfail ?_
      rintro ⟨hread, -⟩
      cases hread
  | false =>
      rw [if_neg Bool.false_ne_true, ← checkModel_eq_none]
      cases hmodel : checkModel agent env with
      | some refusal =>
          dsimp only
          refine iff_of_false (not_settled_fail hmessage rfl) ?_
          rintro ⟨-, husable, -⟩
          cases husable
      | none =>
          dsimp only
          by_cases hkbs : agent.knowledgeBaseIds = []
          · rw [if_neg (not_not.2 hkbs)]
            cases hctx : maxContext agent env with
            | none =>
                refine iff_of_false hfail ?_
                rintro ⟨-, -, -, maxCtx, hsome, -⟩
                cases hsome
            | some maxCtx =>
                dsimp only
                rw [streamAnswer_settled_iff hmessage hnothing]
                constructor
                · intro hkept
                  exact ⟨rfl, rfl, hkbs, maxCtx, rfl, hkept⟩
                · rintro ⟨-, -, -, maxCtx', hsame, hkept⟩
                  cases hsame
                  exact hkept
          · rw [if_pos hkbs]
            refine iff_of_false hfail ?_
            rintro ⟨-, -, hnone, -⟩
            exact hkbs hnone

end Sent

/-- The message of a turn settles exactly where the guard blocks the query or the turn answers. -/
theorem runRagPipeline_settled_iff (agent : Agent) (env : PipelineEnv) (isWord : Char → Bool)
    (tie : Message → Nat) (special : String → Nat → List Char)
    (search : String → String → Option (Nat × Nat)) :
    (runRagPipeline agent env isWord tie special search).Settled ↔
      Completes agent env isWord tie special search := by
  unfold runRagPipeline Completes
  cases hconv : env.conversation with
  | none =>
      refine iff_of_true ?_ ?_
      · intro m hm
        cases hm
      · intro conv h
        cases h
  | some conv =>
      have hone : (∀ c, some conv = some c → ∃ mode blockThreshold logThreshold,
          parseGuardConfig special agent.guardConfig = some (mode, blockThreshold, logThreshold) ∧
            ((evaluate search env.turn.userMsg.content mode blockThreshold logThreshold).action = .block ∨
              Answers agent env isWord tie c)) ↔
          ∃ mode blockThreshold logThreshold,
            parseGuardConfig special agent.guardConfig = some (mode, blockThreshold, logThreshold) ∧
              ((evaluate search env.turn.userMsg.content mode blockThreshold logThreshold).action = .block ∨
                Answers agent env isWord tie conv) := by
        constructor
        · intro h
          exact h conv rfl
        · intro h c hc
          cases hc
          exact h
      rw [hone]
      dsimp only
      cases hguard : parseGuardConfig special agent.guardConfig with
      | none =>
          refine iff_of_false (not_settled_fail rfl rfl) ?_
          rintro ⟨_, _, _, hsome, -⟩
          cases hsome
      | some config =>
          obtain ⟨mode, blockThreshold, logThreshold⟩ := config
          dsimp only
          let start : SseEvent := .messageStart env.turn.assistantMsg.id conv.id
          have hstart : sentContent [start] = "" := sentContent_singleton start
          let guard := evaluate search env.turn.userMsg.content mode blockThreshold logThreshold
          have hconfig : (∃ m b l, some (mode, blockThreshold, logThreshold) = some (m, b, l) ∧
              ((evaluate search env.turn.userMsg.content m b l).action = .block ∨
                Answers agent env isWord tie conv)) ↔
              (guard.action = .block ∨ Answers agent env isWord tie conv) := by
            constructor
            · rintro ⟨m, b, l, hsame, h⟩
              cases hsame
              exact h
            · intro h
              exact ⟨mode, blockThreshold, logThreshold, rfl, h⟩
          rw [hconfig]
          unfold guard
          cases haction :
              (evaluate search env.turn.userMsg.content mode blockThreshold logThreshold).action with
          | allow =>
              dsimp only
              rw [converse_settled_iff rfl hstart]
              simp
          | log =>
              dsimp only
              rw [converse_settled_iff rfl]
              · simp
              · show sentContent ([start] ++ [_]) = ""
                rw [sentContent_concat, hstart]
                exact String.append_empty
          | block =>
              dsimp only
              refine iff_of_true ?_ (.inl rfl)
              rw [updateMessage_settled_iff rfl (.inl rfl), yield_messageEnd_sent]
              show _ = sentContent ([start] ++ [_])
              rw [sentContent_concat, hstart]
              exact String.empty_append.symm

/-- A query in a new conversation. -/
def firstTurn : Turn where
  table :=
    [{ id := 1, conversationId := 0, role := "user", content := "vpn?", createdAt := 0 },
      { id := 2, conversationId := 0, role := "assistant", content := "", createdAt := 1 }]
  userMsg := { id := 1, conversationId := 0, role := "user", content := "vpn?", createdAt := 0 }
  assistantMsg := { id := 2, conversationId := 0, role := "assistant", content := "", createdAt := 1 }
  ids_nodup := by decide
  user_mem := List.mem_cons_self
  assistant_mem := List.mem_cons_of_mem _ List.mem_cons_self
  conversation_eq := rfl

/-- With a knowledge base the turn ends before the model is called. -/
theorem knowledge_base_left_generating :
    ¬ ∀ (agent : Agent) (env : PipelineEnv) (isWord : Char → Bool) (tie : Message → Nat)
      (special : String → Nat → List Char) (search : String → String → Option (Nat × Nat)),
      (runRagPipeline agent env isWord tie special search).Settled := by
  intro h
  let agent : Agent := { modelId := some 0, knowledgeBaseIds := ["kb"] }
  let env : PipelineEnv :=
    { conversation := some { id := 0 }
      turn := firstTurn
      traceId := "t"
      resolveModel := fun _ => some "gpt"
      getProvider := fun _ => some true
      maxInputTokens := fun _ => none
      streamByRegistry := fun _ _ => { chunks := [{ content := "dial in" }] }
      stream := fun _ _ _ => { chunks := [] } }
  have hsettled := h agent env Char.isAlphanum Message.id (fun _ _ => []) (fun _ _ => none)
  have hlower : lower (fun _ _ => []) "off" = "off" := by decide +kernel
  have hguard : parseGuardConfig (fun _ _ => []) agent.guardConfig =
      some (.off, max 0 (min 1 (7 / 10)), max 0 (min 1 (4 / 10))) := by
    unfold parseGuardConfig
    rw [show agent.guardConfig.mode = "off" from rfl, hlower]
    rfl
  have hmessage : (runRagPipeline agent env Char.isAlphanum Message.id (fun _ _ => [])
      (fun _ _ => none)).message = some {} := by
    unfold runRagPipeline
    dsimp only [env]
    rw [hguard]
    rfl
  have hfinal := (hsettled {} hmessage).1
  simp at hfinal

end OpsKnowledge.Chat
