import OpsKnowledge.Lib.OrderBy
import OpsKnowledge.Chat.Prompt
import Mathlib.Data.Prod.Lex

/-!
# The history of a chat turn

The messages that `run_rag_pipeline` of `app/chat/pipeline.py` puts between the system
message and the query. It loads rows of the conversation with
`ConversationService.get_messages`, leaves out the two it has just written, and
`assemble_prompt` trims the rest to the token budget. Rows with one `created_at` come in
the order of `tie`, which is any.
-/

namespace OpsKnowledge.Chat

open OpsKnowledge.Lib

structure Message where
  id : Nat
  conversationId : Nat
  role : String
  content : String
  createdAt : Nat
  deriving DecidableEq

def Message.toPrompt (m : Message) : PromptMessage := { role := m.role, content := m.content }

/-- `SELECT … WHERE conversation_id = … ORDER BY created_at` -/
def conversationRows (tie : Message → Nat) (table : List Message) (conversationId : Nat) :
    List Message :=
  orderBy (fun m => toLex (m.createdAt, tie m)) (table.filter fun m => m.conversationId = conversationId)

def getMessages (tie : Message → Nat) (table : List Message) (conversationId offset limit : Nat) :
    List Message :=
  ((conversationRows tie table conversationId).drop offset).take limit

/-- The committed messages when a turn loads its history. The turn has written the query and an
empty answer. -/
structure Turn where
  table : List Message
  userMsg : Message
  assistantMsg : Message
  ids_nodup : (table.map Message.id).Nodup
  user_mem : userMsg ∈ table
  assistant_mem : assistantMsg ∈ table
  conversation_eq : assistantMsg.conversationId = userMsg.conversationId

/-- `limit` of the call in the pipeline. -/
def messageLimit : Nat := 20

namespace Turn

variable (tie : Message → Nat) (turn : Turn)

/-- `m.role in ("user", "assistant") and m.id not in exclude_ids` -/
def isHistory (m : Message) : Bool :=
  m.role ∈ ["user", "assistant"] ∧ m.id ∉ [turn.userMsg.id, turn.assistantMsg.id]

def loadHistory : List Message :=
  (getMessages tie turn.table turn.userMsg.conversationId 0 messageLimit).filter turn.isHistory

def promptMessages (isWord : Char → Bool) (systemPrompt : Option String)
    (vars : Dict String String) (maxContextTokens : Nat) : List PromptMessage :=
  assemblePrompt isWord systemPrompt vars ((turn.loadHistory tie).map Message.toPrompt)
    turn.userMsg.content maxContextTokens

/-! ## What the history should be -/

def messageCost (m : Message) : Nat := estimateTokens m.content

def conversation : List Message := conversationRows tie turn.table turn.userMsg.conversationId

/-- The messages before the current query, in the order of the conversation. -/
def preceding : List Message :=
  ((turn.conversation tie).takeWhile fun m => m.id ≠ turn.userMsg.id).filter turn.isHistory

/-- Those among the `n` oldest rows of the conversation. -/
def oldest (n : Nat) : List Message := ((turn.conversation tie).take n).filter turn.isHistory

/-- The rows of the messages that the prompt takes from the history. -/
def placed (maxContextTokens : Nat) : List Message :=
  trimSuffix messageCost (historyBudget maxContextTokens) (turn.loadHistory tie)

/-- The limits that are configured for a history. -/
def WithinLimits (maxContextTokens : Nat) (history : List Message) : Prop :=
  history.length ≤ messageLimit ∧ FitsBudget messageCost (historyBudget maxContextTokens) history

/-- The history of the prompt is the longest suffix of the preceding messages that fits. -/
structure PlacesRecentHistory (isWord : Char → Bool) (systemPrompt : Option String)
    (vars : Dict String String) (maxContextTokens : Nat) : Prop where
  prompt : turn.promptMessages tie isWord systemPrompt vars maxContextTokens =
    systemMessage isWord systemPrompt vars ::
      (turn.placed tie maxContextTokens).map Message.toPrompt ++
      [{ role := "user", content := turn.userMsg.content }]
  recent : IsLongestSuffix (WithinLimits maxContextTokens) (turn.preceding tie)
    (turn.placed tie maxContextTokens)

variable {tie turn}

theorem promptMessages_eq (isWord : Char → Bool) (systemPrompt : Option String)
    (vars : Dict String String) (maxContextTokens : Nat) :
    turn.promptMessages tie isWord systemPrompt vars maxContextTokens =
      systemMessage isWord systemPrompt vars ::
        (turn.placed tie maxContextTokens).map Message.toPrompt ++
        [{ role := "user", content := turn.userMsg.content }] := by
  unfold promptMessages assemblePrompt placed
  rw [trimSuffix_map]
  rfl

theorem conversation_nodup : (turn.conversation tie).Nodup := by
  have hrows := (orderBy_perm (fun m => toLex (m.createdAt, tie m))
    (turn.table.filter fun m => m.conversationId = turn.userMsg.conversationId)).nodup_iff
  have htable : turn.table.Nodup := turn.ids_nodup.of_map
  exact hrows.2 (htable.filter _)

theorem loadHistory_eq : turn.loadHistory tie = turn.oldest tie messageLimit := rfl

/-- The loaded history is the history before the query as soon as both end with one message. -/
theorem oldest_eq_preceding_of_getLast? {n : Nat}
    (h : (turn.oldest tie n).getLast? = (turn.preceding tie).getLast?) :
    turn.oldest tie n = turn.preceding tie :=
  filter_eq_of_getLast?_eq turn.isHistory (List.take_prefix n _) (List.takeWhile_prefix _)
    conversation_nodup h

theorem recent_iff_trimSuffix_rtake {maxContextTokens : Nat} {s : List Message} :
    IsLongestSuffix (WithinLimits maxContextTokens) (turn.preceding tie) s ↔
      s = trimSuffix messageCost (historyBudget maxContextTokens)
        ((turn.preceding tie).rtake messageLimit) := by
  rw [eq_trimSuffix_iff, isLongestSuffix_rtake_iff]
  rfl

theorem recent_placed_iff {maxContextTokens : Nat} :
    IsLongestSuffix (WithinLimits maxContextTokens) (turn.preceding tie)
        (turn.placed tie maxContextTokens) ↔
      turn.oldest tie messageLimit = turn.preceding tie ∨
        (LastOverBudget messageCost (historyBudget maxContextTokens) (turn.oldest tie messageLimit) ∧
          LastOverBudget messageCost (historyBudget maxContextTokens) (turn.preceding tie)) := by
  have hlast := getLast?_rtake (n := messageLimit) (by decide) (turn.preceding tie)
  have hnewest : LastOverBudget messageCost (historyBudget maxContextTokens)
      ((turn.preceding tie).rtake messageLimit) ↔
        LastOverBudget messageCost (historyBudget maxContextTokens) (turn.preceding tie) := by
    simp only [LastOverBudget, hlast]
  rw [recent_iff_trimSuffix_rtake, placed, loadHistory_eq]
  constructor
  · intro heq
    by_cases hnil : trimSuffix messageCost (historyBudget maxContextTokens)
        (turn.oldest tie messageLimit) = []
    · apply Or.inr
      exact ⟨trimSuffix_eq_nil_iff.1 hnil, hnewest.1 (trimSuffix_eq_nil_iff.1 (heq ▸ hnil))⟩
    · apply Or.inl
      apply oldest_eq_preceding_of_getLast?
      rw [← getLast?_trimSuffix hnil, heq, getLast?_trimSuffix (heq ▸ hnil), hlast]
  · intro h
    rcases h with heq | ⟨hold, hnew⟩
    · have hlen : (turn.preceding tie).length ≤ messageLimit := by
        rw [← heq]
        exact (List.length_filter_le _ _).trans (List.length_take_le _ _)
      have hall : (turn.preceding tie).rtake messageLimit = turn.preceding tie := by
        simp [List.rtake, Nat.sub_eq_zero_of_le hlen]
      rw [heq, hall]
    · rw [trimSuffix_eq_nil_iff.2 hold, trimSuffix_eq_nil_iff.2 (hnewest.2 hnew)]

/-- The prompt gets the newest messages exactly when the oldest rows of the conversation hold
the messages before the query and no others, or when neither of the two lists ends with a
message that fits. -/
theorem placesRecentHistory_iff (turn : Turn) (tie : Message → Nat) (isWord : Char → Bool)
    (systemPrompt : Option String) (vars : Dict String String) (maxContextTokens : Nat) :
    turn.PlacesRecentHistory tie isWord systemPrompt vars maxContextTokens ↔
      turn.oldest tie messageLimit = turn.preceding tie ∨
        (LastOverBudget messageCost (historyBudget maxContextTokens) (turn.oldest tie messageLimit) ∧
          LastOverBudget messageCost (historyBudget maxContextTokens) (turn.preceding tie)) := by
  rw [← recent_placed_iff]
  constructor
  · intro h
    exact h.recent
  · intro h
    exact ⟨promptMessages_eq isWord systemPrompt vars maxContextTokens, h⟩

end Turn

/-! ## A conversation beyond the limit -/

/-- The messages of `n` turns of a conversation, the last of which has just begun. -/
def sampleTable (n : Nat) : List Message :=
  (List.range (2 * n)).map fun i =>
    { id := i, conversationId := 0, role := if i % 2 = 0 then "user" else "assistant", content := ""
      createdAt := i / 2 }

theorem sampleTable_ids (n : Nat) : (sampleTable n).map Message.id = List.range (2 * n) := by
  simp [sampleTable, Function.comp_def]

def sampleTurn : Turn where
  table := sampleTable 12
  userMsg := { id := 22, conversationId := 0, role := "user", content := "", createdAt := 11 }
  assistantMsg := { id := 23, conversationId := 0, role := "assistant", content := "", createdAt := 11 }
  ids_nodup := by
    rw [sampleTable_ids]
    exact List.nodup_range
  user_mem := List.mem_map.2 ⟨22, by simp, rfl⟩
  assistant_mem := List.mem_map.2 ⟨23, by simp, rfl⟩
  conversation_eq := rfl

/-- In the twelfth turn the history of the prompt ends with the tenth. -/
theorem sampleTurn_drops_newest : ¬ sampleTurn.PlacesRecentHistory Message.id Char.isAlphanum none
    Dict.empty 6000 := by
  intro h
  rcases Turn.recent_placed_iff.1 h.recent with heq | ⟨hold, _⟩
  · have hlen : (sampleTurn.oldest Message.id messageLimit).length ≠
        (sampleTurn.preceding Message.id).length := by decide +kernel
    exact hlen (congrArg List.length heq)
  · have hlast : (sampleTurn.oldest Message.id messageLimit).getLast? =
        some { id := 19, conversationId := 0, role := "assistant", content := "", createdAt := 9 } := by
      decide +kernel
    have hover := hold _ hlast
    exact absurd hover (by decide)

end OpsKnowledge.Chat
