import OpsKnowledge.Lib.Loop
import OpsKnowledge.Replies.Judges
import OpsKnowledge.Retrieval.QueryRewriter

/-!
# Rewritten and planned queries

`rewrite_query_v2` of `query_rewriter.py` and `plan` of `agentic_planner.py`: what they make
of the model's answer, and what they fall back to.
-/

namespace OpsKnowledge.Replies

open OpsKnowledge.Lib

inductive QueryStatus where
  | ok
  | skipped
  | fallback
  | error
  deriving DecidableEq

/-- `(parsed.get("reason") or "")[:80]` -/
def reasonOf (members : List (String × JsonValue)) : Except PyError JsonValue :=
  slice 80 (orElse (get members "reason") (.str ""))

/-! ## The rewriter -/

structure RewriteResult where
  queryUsed : String
  needsRewrite : Bool
  reason : JsonValue
  status : QueryStatus

/-- The query as it is. -/
def kept (query : String) (reason : JsonValue) (status : QueryStatus) : RewriteResult :=
  { queryUsed := query, needsRewrite := false, reason := reason, status := status }

/-- What is made of the answer's JSON. -/
def readRewrite (query : String) (parsed : JsonValue) : Except PyError RewriteResult :=
  match asDict parsed with
  | none => .ok (kept query (.str "parse_failed") .fallback)
  | some members => do
    let needs := truthy (get members "needs_rewrite")
    let rewritten ← stripped (orElse (get members "rewritten") (.str ""))
    let reason ← reasonOf members
    if !needs || rewritten.isEmpty || rewritten = query then
      return kept query (orElse reason (.str "no_change")) .skipped
    else return { queryUsed := rewritten, needsRewrite := true, reason := reason, status := .ok }

/-- `chat` is the text of the model's response, empty where it has none; `none` when the call fails. -/
def rewriteQueryV2 (depth : Nat) (chat : Retrieval.RewriteRequest → Option String) (query : String)
    (history : List Retrieval.Message) (model : Option Retrieval.ModelRef) (memorySummary : Option String) :
    Except PyError RewriteResult :=
  if (strip query).isEmpty then .ok (kept query (.str "empty") .skipped)
  else if history.isEmpty then .ok (kept query (.str "no_history") .skipped)
  else if !Retrieval.hasFollowupHint query && 25 < (strip query).length then
    .ok (kept query (.str "standalone_heuristic") .skipped)
  else
    match model with
    | none => .ok (kept query (.str "no_model_config") .skipped)
    | some m =>
      match chat { model := m, messages := Retrieval.rewriteMessages query history memorySummary } with
      | none => .ok (kept query (.str "llm_failed") .error)
      | some text => readRewrite query (parseJson depth text)

/-! ## The planner -/

inductive Strategy where
  | single
  | decompose
  deriving DecidableEq

structure AgenticPlan where
  strategy : Strategy
  subqueries : List String
  reason : JsonValue
  status : QueryStatus

/-- `MAX_SUBQUERIES` -/
def maxSubqueries : Nat := 4

/-- `MIN_QUERY_LEN_FOR_PLANNING` -/
def minQueryLenForPlanning : Nat := 12

/-- `_PLAN_SYSTEM` -/
def planSystem : String :=
  "你是 RAG 检索调度器。判断用户的查询是否需要拆分成多个子查询并行检索。" ++
  "拆分判定：含「与/和/以及/对比/差异/同时」等连接词、跨越多个独立主题、" ++
  "或问及多个相关但独立维度。\n\n" ++
  "严格返回 JSON：\n" ++
  "\x7b\"strategy\": \"single\" | \"decompose\", " ++
  "\"subqueries\": [\"子查询1\", \"子查询2\", ...], " ++
  "\"reason\": \"<10 字以内的简短理由>\"\x7d\n\n" ++
  "拆分约束：最多 4 条；每条独立可检索；不要扩写、不要解释、不要加引导词。" ++
  "若无需拆分，返回 \x7b\"strategy\": \"single\", \"subqueries\": [\"<原 query>\"], \"reason\": \"...\"\x7d。"

/-- `_DECOMPOSE_HINTS` -/
def decomposeHints : List String :=
  ["与", "和", "以及", "对比", "比较", "差异", "区别", "同时",
    " and ", " vs ", "compare", "difference between", "contrast"]

/-- `_looks_compound`; outside ASCII `lower` makes no character of a hint. -/
def looksCompound (query : String) : Bool :=
  decomposeHints.any fun hint => hint.toList <:+: query.toList.map Char.toLower

/-- `s for s in raw if isinstance(s, str)` -/
def strings (raw : List JsonValue) : List String := raw.filterMap fun v => match v with
  | .str s => some s
  | _ => none

/-- The sub-queries of a decomposition. -/
def subqueriesOf (members : List (String × JsonValue)) : Option (List String) :=
  match get members "strategy", get members "subqueries" with
  | .str "decompose", .arr raw =>
    let subs := (((strings raw).map strip).filter fun s => !s.isEmpty).take maxSubqueries
    if 2 ≤ subs.length then some subs else none
  | _, _ => none

/-- No decomposition. -/
def single (subqueries : List String) (reason : JsonValue) (status : QueryStatus) : AgenticPlan :=
  { strategy := .single, subqueries := subqueries, reason := reason, status := status }

def readPlan (q : String) (parsed : JsonValue) : Except PyError AgenticPlan := do
  let reason ← ((asDict parsed).map reasonOf).getD (.ok (.str "parse_failed"))
  match (asDict parsed).bind subqueriesOf with
  | some subs =>
    return { strategy := .decompose, subqueries := subs, reason := orElse reason (.str "llm_decomposed"),
             status := .ok }
  | none => return single [q] (orElse reason (.str "fallback_single")) .fallback

def plan (depth : Nat) (chatFn : Option Chat) (query : String) : Except PyError AgenticPlan :=
  let q := strip query
  if q.isEmpty then .ok (single [] (.str "empty") .skipped)
  else if q.length < minQueryLenForPlanning || !looksCompound q then
    .ok (single [q] (.str "standalone_heuristic") .skipped)
  else
    match chatFn with
    | none => .ok (single [q] (.str "no_planner_llm") .skipped)
    | some chat =>
      match chat planSystem q with
      | none => .ok (single [q] (.str "llm_failed") .error)
      | some text => readPlan q (parseJson depth text)

/-! ## Well-formed results -/

structure RewriteResult.WellFormed (query : String) (r : RewriteResult) : Prop where
  reason : ∃ s, r.reason = .str s
  kept : r.needsRewrite = false → r.queryUsed = query ∧ r.status ≠ .ok
  rewritten : r.needsRewrite = true → r.status = .ok ∧ r.queryUsed ≠ "" ∧ r.queryUsed ≠ query

structure AgenticPlan.WellFormed (q : String) (p : AgenticPlan) : Prop where
  reason : ∃ s, p.reason = .str s
  single : p.strategy = .single → p.status ≠ .ok ∧ p.subqueries = if q = "" then [] else [q]
  decompose : p.strategy = .decompose → p.status = .ok ∧
    2 ≤ p.subqueries.length ∧ p.subqueries.length ≤ maxSubqueries ∧ ∀ s ∈ p.subqueries, s ≠ ""

/-- The rewritten query and the reason are empty or strings. -/
def RewriteFits (parsed : JsonValue) : Prop := ∀ members, asDict parsed = some members →
  IsText (get members "rewritten") ∧ IsText (get members "reason")

/-- The reason is empty or a string. -/
def PlanFits (parsed : JsonValue) : Prop := ∀ members, asDict parsed = some members →
  IsText (get members "reason")

variable {query q : String} {parsed : JsonValue} {members : List (String × JsonValue)}

theorem reasonOf_isStr_iff : (∃ s, reasonOf members = .ok (.str s)) ↔ IsText (get members "reason") :=
  slice_orElse_isStr_iff 80

/-- A reason that is replaced when it is empty. -/
theorem isText_reason_of_orElse {w : JsonValue} {d s : String} (h : reasonOf members = .ok w)
    (hs : orElse w (.str d) = .str s) : IsText (get members "reason") := by
  obtain ⟨t, rfl⟩ := (orElse_isStr_iff (by decide) h).1 ⟨s, hs⟩
  exact reasonOf_isStr_iff.1 ⟨t, h⟩

theorem orElse_str_isStr (t d : String) : ∃ s, orElse (.str t) (.str d) = .str s := by
  unfold orElse
  split
  · exact ⟨t, rfl⟩
  · exact ⟨d, rfl⟩

theorem wellFormed_kept {reason : JsonValue} {status : QueryStatus} (hreason : ∃ s, reason = .str s)
    (hstatus : status ≠ .ok) : (kept query reason status).WellFormed query := by
  constructor
  · exact hreason
  · intro _
    exact ⟨rfl, hstatus⟩
  · intro h
    cases h

theorem wellFormed_single {subs : List String} {reason : JsonValue} {status : QueryStatus}
    (hreason : ∃ s, reason = .str s) (hstatus : status ≠ .ok) (hsubs : subs = if q = "" then [] else [q]) :
    (single subs reason status).WellFormed q := by
  constructor
  · exact hreason
  · intro _
    exact ⟨hstatus, hsubs⟩
  · intro h
    cases h

theorem readRewrite_wellFormed_iff :
    (∃ r, readRewrite query parsed = .ok r ∧ r.WellFormed query) ↔ RewriteFits parsed := by
  unfold readRewrite RewriteFits
  cases hdict : asDict parsed with
  | none =>
      constructor
      · rintro - _ ⟨⟩
      · intro _
        exact ⟨_, rfl, wellFormed_kept ⟨_, rfl⟩ (by decide)⟩
  | some members =>
      dsimp only
      constructor
      · rintro ⟨r, hr, hformed⟩ _ ⟨⟩
        obtain ⟨rewritten, hrewritten, hr⟩ := bind_eq_ok.1 hr
        obtain ⟨reason, hreason, hr⟩ := bind_eq_ok.1 hr
        refine ⟨stripped_orElse_isOk_iff.1 ⟨rewritten, hrewritten⟩, ?_⟩
        obtain ⟨s, hs⟩ := hformed.reason
        split at hr
        · cases hr
          exact isText_reason_of_orElse hreason hs
        · cases hr
          exact reasonOf_isStr_iff.1 ⟨s, hreason.trans (congrArg Except.ok hs)⟩
      · intro h
        obtain ⟨hrewritten, hreason⟩ := h members rfl
        obtain ⟨rewritten, hrewritten⟩ := stripped_orElse_isOk_iff.2 hrewritten
        obtain ⟨reason, hreason⟩ := reasonOf_isStr_iff.2 hreason
        rw [hrewritten, hreason]
        by_cases hkeep :
            (!truthy (get members "needs_rewrite") || rewritten.isEmpty || rewritten = query) = true
        · exact ⟨_, if_pos hkeep, wellFormed_kept (orElse_str_isStr reason "no_change") (by decide)⟩
        · refine ⟨_, if_neg hkeep, ⟨reason, rfl⟩, fun h => ?_, fun _ => ⟨rfl, ?_, ?_⟩⟩
          · cases h
          · rintro rfl
            exact hkeep (by simp)
          · rintro rfl
            exact hkeep (by simp)

/-- The reply as the retrieval's model has it. -/
def replyOf (parsed : JsonValue) : Option Retrieval.RewriteReply :=
  (asDict parsed).map fun members =>
    { needsRewrite := truthy (get members "needs_rewrite")
      rewritten := match orElse (get members "rewritten") (.str "") with
        | .str s => s
        | _ => "" }

theorem queryUsed_of_readRewrite {r : RewriteResult} (h : readRewrite query parsed = .ok r) :
    r.queryUsed = Retrieval.rewrittenQuery query (replyOf parsed) := by
  unfold readRewrite at h
  unfold replyOf
  cases hdict : asDict parsed with
  | none =>
      rw [hdict] at h
      cases h
      rfl
  | some members =>
      rw [hdict] at h
      dsimp only at h
      obtain ⟨rewritten, hrewritten, h⟩ := bind_eq_ok.1 h
      obtain ⟨reason, -, h⟩ := bind_eq_ok.1 h
      unfold stripped at hrewritten
      split at hrewritten
      · next s hs =>
          cases hrewritten
          rw [Option.map_some, hs]
          unfold Retrieval.rewrittenQuery
          dsimp only
          split at h
          · next hkeep =>
              cases h
              rw [if_pos (by simpa using hkeep)]
              rfl
          · next hkeep =>
              cases h
              rw [if_neg (by simpa using hkeep)]
      · cases hrewritten

theorem subqueriesOf_wellFormed {subs : List String} (h : subqueriesOf members = some subs) :
    2 ≤ subs.length ∧ subs.length ≤ maxSubqueries ∧ ∀ s ∈ subs, s ≠ "" := by
  unfold subqueriesOf at h
  split at h
  · dsimp only at h
    split at h
    · next hlen =>
        cases h
        refine ⟨hlen, List.length_take_le _ _, fun s hs hempty => ?_⟩
        subst hempty
        have hfilter := (List.mem_filter.1 (List.mem_of_mem_take hs)).2
        cases hfilter
    · cases h
  · cases h

theorem readPlan_wellFormed_iff (hq : q ≠ "") :
    (∃ p, readPlan q parsed = .ok p ∧ p.WellFormed q) ↔ PlanFits parsed := by
  have hquery : [q] = if q = "" then [] else [q] := (if_neg hq).symm
  unfold readPlan PlanFits
  cases hdict : asDict parsed with
  | none =>
      constructor
      · rintro - _ ⟨⟩
      · intro _
        exact ⟨_, rfl, wellFormed_single (orElse_str_isStr _ _) (by decide) hquery⟩
  | some members =>
      constructor
      · rintro ⟨p, hp, hformed⟩ _ ⟨⟩
        obtain ⟨reason, hreason, hp⟩ := bind_eq_ok.1 hp
        obtain ⟨s, hs⟩ := hformed.reason
        split at hp
        · cases hp
          exact isText_reason_of_orElse hreason hs
        · cases hp
          exact isText_reason_of_orElse hreason hs
      · intro h
        obtain ⟨reason, hreason⟩ := reasonOf_isStr_iff.2 (h members rfl)
        have hread : ((some members).map reasonOf).getD (.ok (.str "parse_failed")) = .ok (.str reason) :=
          hreason
        rw [hread]
        cases hsubs : (some members).bind subqueriesOf with
        | none => exact ⟨_, rfl, wellFormed_single (orElse_str_isStr _ _) (by decide) hquery⟩
        | some subs =>
            refine ⟨_, rfl, orElse_str_isStr _ _, fun h => ?_, fun _ => ⟨rfl, subqueriesOf_wellFormed hsubs⟩⟩
            cases h

/-! ## The functions -/

section Functions

variable (depth : Nat) (chat : Retrieval.RewriteRequest → Option String) (query : String)
  (history : List Retrieval.Message) (model : Option Retrieval.ModelRef) (memorySummary : Option String)

/-- A query is sent as the retrieval's model says. -/
theorem rewriteQueryV2_of_request {request : Retrieval.RewriteRequest} {text : String}
    (h : Retrieval.rewriteRequest query history model memorySummary = some request)
    (hchat : chat request = some text) :
    rewriteQueryV2 depth chat query history model memorySummary =
      readRewrite query (parseJson depth text) := by
  unfold Retrieval.rewriteRequest at h
  unfold rewriteQueryV2
  split at h
  · cases h
  · next hasked =>
      simp only [Bool.or_eq_true, not_or] at hasked
      rw [if_neg hasked.1, if_neg hasked.2]
      split at h
      · cases h
      · next hheuristic =>
          rw [if_neg (by simpa using hheuristic)]
          cases model with
          | none => cases h
          | some m =>
              cases h
              dsimp only
              rw [hchat]

/-- Where no answer is read, the query is used as it is. -/
theorem rewriteQueryV2_of_no_answer
    (h : ∀ request, Retrieval.rewriteRequest query history model memorySummary = some request →
      chat request = none) : ∃ reason status, status ≠ .ok ∧
      rewriteQueryV2 depth chat query history model memorySummary =
        .ok (kept query (.str reason) status) := by
  unfold Retrieval.rewriteRequest at h
  unfold rewriteQueryV2
  by_cases hempty : (strip query).isEmpty = true
  · rw [if_pos hempty]
    exact ⟨_, _, by decide, rfl⟩
  · rw [if_neg hempty]
    by_cases hhistory : history.isEmpty = true
    · rw [if_pos hhistory]
      exact ⟨_, _, by decide, rfl⟩
    · rw [if_neg hhistory]
      by_cases hheuristic : (!Retrieval.hasFollowupHint query && decide (25 < (strip query).length)) = true
      · rw [if_pos hheuristic]
        exact ⟨_, _, by decide, rfl⟩
      · rw [if_neg hheuristic]
        cases model with
        | none => exact ⟨_, _, by decide, rfl⟩
        | some m =>
            rw [if_neg (by simp [hempty, hhistory]), if_neg hheuristic] at h
            dsimp only
            rw [h _ rfl]
            exact ⟨_, _, by decide, rfl⟩

theorem rewriteQueryV2_wellFormed_iff :
    (∃ r, rewriteQueryV2 depth chat query history model memorySummary = .ok r ∧ r.WellFormed query) ↔
      ∀ request text, Retrieval.rewriteRequest query history model memorySummary = some request →
        chat request = some text → RewriteFits (parseJson depth text) := by
  constructor
  · intro h request text hrequest hchat
    rw [rewriteQueryV2_of_request depth chat query history model memorySummary hrequest hchat] at h
    exact readRewrite_wellFormed_iff.1 h
  · intro h
    by_cases hanswer : ∃ request text,
        Retrieval.rewriteRequest query history model memorySummary = some request ∧ chat request = some text
    · obtain ⟨request, text, hrequest, hchat⟩ := hanswer
      rw [rewriteQueryV2_of_request depth chat query history model memorySummary hrequest hchat]
      exact readRewrite_wellFormed_iff.2 (h request text hrequest hchat)
    · have hnone : ∀ request, Retrieval.rewriteRequest query history model memorySummary = some request →
          chat request = none := by
        intro request hrequest
        by_contra hsome
        obtain ⟨text, hchat⟩ := Option.ne_none_iff_exists'.1 hsome
        exact hanswer ⟨request, text, hrequest, hchat⟩
      obtain ⟨reason, status, hstatus, hkept⟩ :=
        rewriteQueryV2_of_no_answer depth chat query history model memorySummary hnone
      exact ⟨_, hkept, wellFormed_kept ⟨reason, rfl⟩ hstatus⟩

/-- The planner's query goes to the model. -/
def Asked (q : String) : Prop :=
  q ≠ "" ∧ minQueryLenForPlanning ≤ q.length ∧ looksCompound q

theorem plan_wellFormed_iff (chatFn : Option Chat) :
    (∃ p, plan depth chatFn query = .ok p ∧ p.WellFormed (strip query)) ↔
      ∀ chat text, Asked (strip query) → chatFn = some chat → chat planSystem (strip query) = some text →
        PlanFits (parseJson depth text) := by
  unfold plan
  dsimp only
  by_cases hempty : strip query = ""
  · rw [if_pos (String.isEmpty_iff.2 hempty)]
    constructor
    · intro _ _ _ hasked
      exact absurd hempty hasked.1
    · intro _
      exact ⟨_, rfl, wellFormed_single ⟨_, rfl⟩ (by decide) (if_pos hempty).symm⟩
  · rw [if_neg (mt String.isEmpty_iff.1 hempty)]
    have hquery : [strip query] = (if strip query = "" then [] else [strip query]) := (if_neg hempty).symm
    by_cases hheuristic : (decide ((strip query).length < minQueryLenForPlanning) ||
        !looksCompound (strip query)) = true
    · rw [if_pos hheuristic]
      constructor
      · intro _ _ _ hasked
        simp only [Bool.or_eq_true, decide_eq_true_eq, Bool.not_eq_true'] at hheuristic
        rcases hheuristic with hshort | hplain
        · exact absurd hshort (not_lt.2 hasked.2.1)
        · exact absurd hasked.2.2 (by simp [hplain])
      · intro _
        exact ⟨_, rfl, wellFormed_single ⟨_, rfl⟩ (by decide) hquery⟩
    · rw [if_neg hheuristic]
      have hasked : Asked (strip query) := by
        simp only [Bool.or_eq_true, decide_eq_true_eq, Bool.not_eq_true', not_or, not_lt, Bool.not_eq_false]
          at hheuristic
        exact ⟨hempty, hheuristic⟩
      cases chatFn with
      | none =>
          constructor
          · rintro - _ _ _ ⟨⟩
          · intro _
            exact ⟨_, rfl, wellFormed_single ⟨_, rfl⟩ (by decide) hquery⟩
      | some chat =>
          dsimp only
          cases hchat : chat planSystem (strip query) with
          | none =>
              constructor
              · rintro - _ _ - ⟨⟩ htext
                cases hchat.symm.trans htext
              · intro _
                exact ⟨_, rfl, wellFormed_single ⟨_, rfl⟩ (by decide) hquery⟩
          | some text =>
              dsimp only
              rw [readPlan_wellFormed_iff hempty]
              constructor
              · rintro h _ _ - ⟨⟩ htext
                cases hchat.symm.trans htext
                exact h
              · intro h
                exact h chat text hasked rfl hchat

end Functions

end OpsKnowledge.Replies
