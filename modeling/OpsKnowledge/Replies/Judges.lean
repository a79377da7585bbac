import Mathlib.Tactic.Linarith
import OpsKnowledge.Lib.Loop
import OpsKnowledge.Replies.Parsing

/-!
# Judges

`evaluation/judges.py`: each judge asks the model once and makes a score of the answer. The
scores are doubles: every sum, quotient and difference is rounded.
-/

namespace OpsKnowledge.Replies

open OpsKnowledge.Lib

structure JudgeResult where
  score : ℚ
  rationale : JsonValue
  sampleCount : Option Int := none

/-- What the model answers to a system and a user message; `none` when the call fails. -/
abbrev Chat := String → String → Option String

structure Citation where
  index : Nat
  title : String
  chunkText : Option String

/-! ## Prompts -/

/-- `_CP_SYSTEM` -/
def cpSystem : String :=
  "你是检索质量评估员。判断每个候选片段对用户查询的相关性（0-1 之间小数，" ++
  "1 完全相关，0 完全无关）。严格返回 JSON：\n" ++
  "\x7b\"scores\": [<每个片段一个分>], \"rationale\": \"<简短说明>\"\x7d"

/-- `_build_cp_prompt` -/
def buildCpPrompt (query : String) (chunks : List String) : String :=
  let joined := "\n\n".intercalate
    (chunks.mapIdx fun i c => "[片段 " ++ toString (i + 1) ++ "]\n" ++ clip 1200 (strip c))
  "查询：" ++ query ++ "\n\n以下是检索返回的片段，请分别打分：\n\n" ++ joined

/-- `_FAITH_SYSTEM` -/
def faithSystem : String :=
  "你是事实一致性评估员。判断回答中的每个核心断言是否被所给上下文支持。" ++
  "严格返回 JSON：\n" ++
  "\x7b\"score\": <0-1 小数，1 完全一致>, \"unsupported\": [\"<未被支持的断言>\"], " ++
  "\"rationale\": \"<简短说明>\"\x7d"

/-- `_build_faith_prompt` -/
def buildFaithPrompt (answer context : String) : String :=
  "【上下文】\n" ++ clip 6000 (strip context) ++ "\n\n【回答】\n" ++ clip 3000 (strip answer) ++
    "\n\n请评分并列出未被支持的断言（如有）。"

/-- `_REL_SYSTEM` -/
def relSystem : String :=
  "你是回答切题度评估员。评估回答是否紧扣用户问题，无跑题、无敷衍。" ++
  "严格返回 JSON：\n" ++
  "\x7b\"score\": <0-1>, \"rationale\": \"<简短>\"\x7d"

/-- `_build_rel_prompt` -/
def buildRelPrompt (query answer : String) : String :=
  "问题：" ++ query ++ "\n\n回答：" ++ clip 3000 (strip answer) ++ "\n\n请评分。"

/-- `_HAL_SYSTEM` -/
def halSystem : String :=
  "你是幻觉检测员。统计回答中包含的、未出现在上下文中的虚构事实数量。" ++
  "严格 JSON：\x7b\"hallucinated_claims\": <int>, \"total_claims\": <int>, " ++
  "\"examples\": [\"<虚构断言示例>\"], \"rationale\": \"<简短>\"\x7d"

/-- `_build_hal_prompt` -/
def buildHalPrompt (answer context : String) : String :=
  "【上下文】\n" ++ clip 6000 (strip context) ++ "\n\n【回答】\n" ++ clip 3000 (strip answer)

/-- `_CITE_SYSTEM` -/
def citeSystem : String :=
  "你是引用校验员。逐一判断每条 citation 指向的源片段是否真实支持" ++
  "引用处的陈述。严格 JSON：\n" ++
  "\x7b\"scores\": [<每个 citation 一个 0-1>], \"rationale\": \"<简短>\"\x7d"

/-- `_build_cite_prompt` -/
def buildCitePrompt (answer : String) (citations : List Citation) : String :=
  let lines := citations.map fun c =>
    "[" ++ toString c.index ++ "] " ++ c.title ++ "：\n" ++ clip 800 (strip (c.chunkText.getD ""))
  "\n".intercalate (["【回答】\n" ++ clip 3000 (strip answer), "", "【引用】"] ++ lines)

/-! ## What is made of an answer -/

section Answers

variable (u : Unicode)

def parseFailed : JudgeResult := { score := 1 / 2, rationale := .str "parse_failed" }

/-- `(parsed.get("rationale") or "")[:500]` -/
def rationaleOf (members : List (String × JsonValue)) : Except PyError JsonValue :=
  slice 500 (orElse (get members "rationale") (.str ""))

/-- The answer of a judge that asks for one score. -/
def readScore (reply : JsonValue) : Except PyError JudgeResult :=
  match asDict reply with
  | none => .ok parseFailed
  | some members =>
    if has members "score" then do
      let score ← clamp01 u (get members "score")
      let rationale ← rationaleOf members
      return { score := score, rationale := rationale }
    else .ok parseFailed

/-- The answer of a judge that asks for a score for each of `k` parts. -/
def readScores (k : Nat) (aggregate : List ℚ → ℚ) (reply : JsonValue) : Except PyError JudgeResult :=
  match asDict reply with
  | none => .ok parseFailed
  | some members =>
    match get members "scores" with
    | .arr (first :: rest) => do
      let scores ← ((first :: rest).take k).mapM (clamp01 u)
      if scores = [] then .ok parseFailed
      else do
        let rationale ← rationaleOf members
        return { score := aggregate scores, rationale := rationale, sampleCount := some scores.length }
    | _ => .ok parseFailed

/-- The weights of the ranks. A list is too short for the conversion of a rank to fail. -/
def rankWeighted (scores : List ℚ) : ℚ :=
  let weighted := floatSum (scores.mapIdx fun i s => roundDouble (s / roundDouble (i + 1 : Nat)))
  let normalizer := floatSum
    ((List.range scores.length).map fun i => roundDouble (1 / roundDouble (i + 1 : Nat)))
  if 0 < normalizer then roundDouble (weighted / normalizer) else 0

/-- `sum(scores) / len(scores)` -/
def average (scores : List ℚ) : ℚ := roundDouble (floatSum scores / roundDouble scores.length)

/-- The hallucinated and the total claims. -/
def claimCounts (members : List (String × JsonValue)) : Except PyError (Int × Int) := do
  let hc ← toInt u (orElse (get members "hallucinated_claims") (.int 0))
  let tc ← toInt u (orElse (get members "total_claims") (.int 0))
  return (hc, tc)

def readClaims (reply : JsonValue) : Except PyError JudgeResult :=
  match asDict reply with
  | none => .ok parseFailed
  | some members =>
    match claimCounts u members with
    | .ok (hc, tc) =>
      if tc ≤ 0 then .ok { score := 1 / 2, rationale := .str "no_claims_found" }
      else do
        let ratio ← divide hc tc
        let rationale ← rationaleOf members
        return { score := max 0 (roundDouble (1 - ratio)), rationale := rationale, sampleCount := some tc }
    | .error .typeError => .ok parseFailed
    | .error .valueError => .ok parseFailed
    | .error e => .error e

end Answers

/-! ## The judges -/

section Judges

variable (u : Unicode) (depth : Nat) (chat : Chat)

/-- `_judge_call` -/
def judgeCall (system prompt : String) : JsonValue :=
  match chat system prompt with
  | some text => parseJson depth text
  | none => .obj []

def judgeContextPrecision (query : String) (chunks : List String) : Except PyError JudgeResult :=
  if query = "" ∨ chunks = [] then .ok { score := 0, rationale := .str "no_chunks" }
  else readScores u chunks.length rankWeighted (judgeCall depth chat cpSystem (buildCpPrompt query chunks))

def judgeFaithfulness (answer context : String) : Except PyError JudgeResult :=
  if answer = "" ∨ context = "" then .ok { score := 0, rationale := .str "missing_input" }
  else readScore u (judgeCall depth chat faithSystem (buildFaithPrompt answer context))

def judgeAnswerRelevancy (query answer : String) : Except PyError JudgeResult :=
  if query = "" ∨ answer = "" then .ok { score := 0, rationale := .str "missing_input" }
  else readScore u (judgeCall depth chat relSystem (buildRelPrompt query answer))

def judgeHallucination (answer context : String) : Except PyError JudgeResult :=
  if answer = "" ∨ context = "" then .ok { score := 0, rationale := .str "missing_input" }
  else readClaims u (judgeCall depth chat halSystem (buildHalPrompt answer context))

def judgeCitationAccuracy (answer : String) (citations : List Citation) : Except PyError JudgeResult :=
  if answer = "" ∨ citations.isEmpty then .ok { score := 0, rationale := .str "no_citations" }
  else
    readScores u citations.length average
      (judgeCall depth chat citeSystem (buildCitePrompt answer citations))

end Judges

/-! ## Aggregates -/

variable {scores : List ℚ}

theorem one_le_roundDouble_succ (i : Nat) : 1 ≤ roundDouble (i + 1 : Nat) := by
  apply one_le_roundDouble
  push_cast
  linarith [(Nat.cast_nonneg i : (0 : ℚ) ≤ i)]

theorem rankWeighted_mem (hmem : ∀ s ∈ scores, 0 ≤ s ∧ s ≤ 1) :
    0 ≤ rankWeighted scores ∧ rankWeighted scores ≤ 1 := by
  have hweight : ∀ i : Nat, 0 ≤ roundDouble (1 / roundDouble (i + 1 : Nat)) := by
    intro i
    have hone := one_le_roundDouble_succ i
    exact roundDouble_nonneg (by positivity)
  have hterm : ∀ (i : Nat) (hi : i < scores.length),
      0 ≤ roundDouble (scores[i] / roundDouble (i + 1 : Nat)) := by
    intro i hi
    have hone := one_le_roundDouble_succ i
    have hscore := (hmem _ (List.getElem_mem hi)).1
    exact roundDouble_nonneg (by positivity)
  have hall : List.Forall₂ (· ≤ ·) (scores.mapIdx fun i s => roundDouble (s / roundDouble (i + 1 : Nat)))
      ((List.range scores.length).map fun i => roundDouble (1 / roundDouble (i + 1 : Nat))) := by
    rw [List.forall₂_iff_get]
    constructor
    · simp
    · intro i hi _
      have hi' : i < scores.length := by simpa using hi
      have hone := one_le_roundDouble_succ i
      have hscore := (hmem _ (List.getElem_mem hi')).2
      simp only [List.get_eq_getElem, List.getElem_mapIdx, List.getElem_map, List.getElem_range]
      exact roundDouble_mono (div_le_div_of_nonneg_right hscore (by positivity))
  have hweighted : 0 ≤ floatSum (scores.mapIdx fun i s => roundDouble (s / roundDouble (i + 1 : Nat))) := by
    apply floatSum_nonneg
    intro x hx
    obtain ⟨i, hi, rfl⟩ := List.mem_mapIdx.1 hx
    exact hterm i hi
  unfold rankWeighted
  dsimp only
  split
  · next hpos =>
      constructor
      · exact roundDouble_nonneg (div_nonneg hweighted hpos.le)
      · exact roundDouble_le_one ((div_le_one hpos).2 (floatSum_mono hall))
  · exact ⟨le_refl 0, zero_le_one⟩

theorem average_mem (hmem : ∀ s ∈ scores, 0 ≤ s ∧ s ≤ 1) : 0 ≤ average scores ∧ average scores ≤ 1 := by
  have hsum : 0 ≤ floatSum scores := floatSum_nonneg fun s hs => (hmem s hs).1
  have hle : floatSum scores ≤ roundDouble scores.length := floatSum_le_length fun s hs => (hmem s hs).2
  have hcount : 0 ≤ roundDouble scores.length := roundDouble_nonneg (Nat.cast_nonneg _)
  unfold average
  constructor
  · exact roundDouble_nonneg (div_nonneg hsum hcount)
  · exact roundDouble_le_one (div_le_one_of_le₀ hle hcount)

/-! ## Scores between zero and one -/

section Bounds

/-- A score between zero and one, and no exception. -/
def Bounded (x : Except PyError JudgeResult) : Prop := ∃ r, x = .ok r ∧ 0 ≤ r.score ∧ r.score ≤ 1

theorem bounded_ok {r : JudgeResult} (h : 0 ≤ r.score ∧ r.score ≤ 1) : Bounded (.ok r) := ⟨r, rfl, h⟩

theorem bounded_parseFailed : Bounded (.ok parseFailed) :=
  bounded_ok ⟨by norm_num [parseFailed], by norm_num [parseFailed]⟩

/-- `float` has room for the score, and the rationale is empty, a string or a list. -/
def ScoreFits (reply : JsonValue) : Prop := ∀ members, asDict reply = some members → has members "score" →
  FitsFloat (get members "score") ∧ IsSliceable (get members "rationale")

/-- The same for each of the first `k` scores. -/
def ScoresFit (k : Nat) (reply : JsonValue) : Prop := ∀ members, asDict reply = some members →
  ∀ first rest, get members "scores" = .arr (first :: rest) →
    (∀ x ∈ (first :: rest).take k, FitsFloat x) ∧ IsSliceable (get members "rationale")

def IsInfinite : JsonValue → Prop
  | .float (.infinite _) => True
  | _ => False

variable (u : Unicode)

/-- Neither count is infinite; the hallucinated ones are not negative, up to what rounding hides, nor too many
for a quotient, and the rationale is empty, a string or a list. -/
def ClaimsFit (reply : JsonValue) : Prop := ∀ members, asDict reply = some members →
  ¬ IsInfinite (get members "hallucinated_claims") ∧
    ∀ hc, toInt u (orElse (get members "hallucinated_claims") (.int 0)) = .ok hc →
      ¬ IsInfinite (get members "total_claims") ∧
        ∀ tc, toInt u (orElse (get members "total_claims") (.int 0)) = .ok tc → 0 < tc →
          -((2 ^ 53 + 1) * tc) ≤ 2 ^ 106 * hc ∧ hc < doubleLimit * tc ∧ IsSliceable (get members "rationale")

variable {u} {k : Nat} {aggregate : List ℚ → ℚ} {reply : JsonValue} {members : List (String × JsonValue)}

theorem rationaleOf_isOk_iff :
    (∃ r, rationaleOf members = .ok r) ↔ IsSliceable (get members "rationale") :=
  slice_orElse_isOk_iff 500

theorem bounded_readScore_iff : Bounded (readScore u reply) ↔ ScoreFits reply := by
  unfold readScore ScoreFits
  cases hdict : asDict reply with
  | none => exact ⟨fun _ _ h => (nomatch h), fun _ => bounded_parseFailed⟩
  | some members =>
      dsimp only
      by_cases hhas : has members "score" = true
      · rw [if_pos hhas]
        constructor
        · rintro ⟨r, hr, -⟩ _ ⟨⟩ -
          obtain ⟨score, hscore, hr⟩ := bind_eq_ok.1 hr
          obtain ⟨rationale, hrationale, -⟩ := bind_eq_ok.1 hr
          exact ⟨clamp01_isOk_iff.1 ⟨score, hscore⟩, rationaleOf_isOk_iff.1 ⟨rationale, hrationale⟩⟩
        · intro h
          obtain ⟨hfits, hsliceable⟩ := h members rfl hhas
          obtain ⟨score, hscore⟩ := clamp01_isOk_iff (u := u).2 hfits
          obtain ⟨rationale, hrationale⟩ := rationaleOf_isOk_iff.2 hsliceable
          exact ⟨_, bind_eq_ok.2 ⟨score, hscore, bind_eq_ok.2 ⟨rationale, hrationale, rfl⟩⟩,
            clamp01_mem hscore⟩
      · rw [if_neg hhas]
        constructor
        · rintro - _ ⟨⟩ h
          exact absurd h hhas
        · intro _
          exact bounded_parseFailed

theorem mapM_ne_nil {f : JsonValue → Except PyError ℚ} {xs : List JsonValue} {ys : List ℚ} (hxs : xs ≠ [])
    (h : xs.mapM f = .ok ys) : ys ≠ [] := by
  rintro rfl
  exact hxs (List.forall₂_nil_right_iff.1 (mapM_eq_ok.1 h))

theorem bounded_readScores_iff (hk : 0 < k)
    (hagg : ∀ scores : List ℚ, (∀ s ∈ scores, 0 ≤ s ∧ s ≤ 1) → 0 ≤ aggregate scores ∧ aggregate scores ≤ 1) :
    Bounded (readScores u k aggregate reply) ↔ ScoresFit k reply := by
  unfold readScores ScoresFit
  cases hdict : asDict reply with
  | none => exact ⟨fun _ _ h => (nomatch h), fun _ => bounded_parseFailed⟩
  | some members =>
      dsimp only
      split
      · next first rest hraw =>
          have hne : (first :: rest).take k ≠ [] := by
            obtain ⟨k, rfl⟩ := Nat.exists_eq_succ_of_ne_zero hk.ne'
            exact List.cons_ne_nil _ _
          constructor
          · rintro ⟨r, hr, -⟩ _ ⟨⟩ first' rest' hraw'
            cases hraw.symm.trans hraw'
            obtain ⟨scores, hscores, hr⟩ := bind_eq_ok.1 hr
            rw [if_neg (mapM_ne_nil hne hscores)] at hr
            obtain ⟨rationale, hrationale, -⟩ := bind_eq_ok.1 hr
            constructor
            · intro x hx
              exact clamp01_isOk_iff.1 (ok_of_mapM_eq_ok hscores hx)
            · exact rationaleOf_isOk_iff.1 ⟨rationale, hrationale⟩
          · intro h
            obtain ⟨hfits, hsliceable⟩ := h members rfl first rest hraw
            obtain ⟨scores, hscores⟩ := exists_mapM_eq_ok fun x hx => clamp01_isOk_iff (u := u).2 (hfits x hx)
            obtain ⟨rationale, hrationale⟩ := rationaleOf_isOk_iff.2 hsliceable
            have hread : (if scores = [] then Except.ok parseFailed else do
                  let rationale ← rationaleOf members
                  return ({ score := aggregate scores, rationale := rationale,
                            sampleCount := some scores.length } : JudgeResult)) =
                .ok { score := aggregate scores, rationale := rationale,
                      sampleCount := some scores.length } := by
              rw [if_neg (mapM_ne_nil hne hscores)]
              exact bind_eq_ok.2 ⟨rationale, hrationale, rfl⟩
            have hmem : ∀ s ∈ scores, 0 ≤ s ∧ s ≤ 1 := by
              intro s hs
              obtain ⟨x, -, hx⟩ := (mem_of_mapM_eq_ok hscores).1 hs
              exact clamp01_mem hx
            exact ⟨_, bind_eq_ok.2 ⟨scores, hscores, hread⟩, hagg scores hmem⟩
      · next hother =>
          constructor
          · rintro - _ ⟨⟩ first rest hraw
            exact absurd hraw (hother first rest)
          · intro _
            exact bounded_parseFailed

/-! ## Counts of claims -/

theorem toInt_eq_overflow_iff {v : JsonValue} :
    toInt u (orElse v (.int 0)) = .error .overflowError ↔ IsInfinite v := by
  by_cases hv : truthy v = true
  · rw [orElse, if_pos hv]
    cases v with
    | float x =>
        cases x with
        | infinite negative => exact ⟨fun _ => trivial, fun _ => rfl⟩
        | finite q => exact ⟨fun h => (nomatch h), fun h => h.elim⟩
        | nan => exact ⟨fun h => (nomatch h), fun h => h.elim⟩
    | str s =>
        have hint : toInt u (.str s) = (intOfString u s).elim (.error .valueError) .ok := rfl
        rw [hint]
        cases intOfString u s with
        | none => exact ⟨fun h => (nomatch h), fun h => h.elim⟩
        | some n => exact ⟨fun h => (nomatch h), fun h => h.elim⟩
    | null => exact ⟨fun h => (nomatch h), fun h => h.elim⟩
    | bool b => exact ⟨fun h => (nomatch h), fun h => h.elim⟩
    | int n => exact ⟨fun h => (nomatch h), fun h => h.elim⟩
    | arr xs => exact ⟨fun h => (nomatch h), fun h => h.elim⟩
    | obj members => exact ⟨fun h => (nomatch h), fun h => h.elim⟩
  · rw [orElse, if_neg hv]
    constructor
    · intro h
      cases h
    · intro h
      unfold IsInfinite at h
      split at h
      · exact absurd (by simp [truthy]) hv
      · exact h.elim

/-- The quotient of two counts makes a score between zero and one. -/
theorem divide_bounded_iff {hc tc : Int} (htc : 0 < tc) :
    (∃ ratio, divide hc tc = .ok ratio ∧ roundDouble (1 - ratio) ≤ 1) ↔
      -((2 ^ 53 + 1) * tc) ≤ 2 ^ 106 * hc ∧ hc < doubleLimit * tc := by
  have hpos : (0 : ℚ) < tc := Int.cast_pos.2 htc
  have hlimit : (1 : ℚ) ≤ doubleLimit := by
    have hone : 1 ≤ doubleLimit := doubleLimit_pos
    exact_mod_cast hone
  have hlow : -(2 ^ (-53 : ℤ) + 2 ^ (-53 - 53 : ℤ)) ≤ (hc : ℚ) / tc ↔
      -((2 ^ 53 + 1) * tc) ≤ 2 ^ 106 * hc := by
    rw [le_div_iff₀ hpos]
    have hscale : (-(2 ^ (-53 : ℤ) + 2 ^ (-53 - 53 : ℤ)) * tc : ℚ) = -((2 ^ 53 + 1) * tc) / 2 ^ 106 := by
      norm_num
      ring
    rw [hscale, div_le_iff₀ (by norm_num), mul_comm (hc : ℚ)]
    exact_mod_cast Iff.rfl
  have hhigh : (hc : ℚ) / tc < doubleLimit ↔ hc < doubleLimit * tc := by
    rw [div_lt_iff₀ hpos]
    exact_mod_cast Iff.rfl
  have hscore : ∀ ratio : ℚ, roundDouble (1 - ratio) ≤ 1 ↔ -2 ^ (-53 : ℤ) ≤ ratio := by
    intro ratio
    have hone := roundDouble_le_zpow_iff (x := 1 - ratio) (show (-1022 : ℤ) ≤ 0 by omega)
    rw [zpow_zero, zero_sub] at hone
    rw [hone]
    constructor <;> intro h <;> linarith
  rw [← hlow, ← hhigh, ← neg_zpow_le_roundDouble_iff (by omega)]
  unfold divide
  by_cases hover : (doubleLimit : ℚ) ≤ |(hc : ℚ) / tc|
  · rw [if_pos hover]
    constructor
    · rintro ⟨ratio, hratio, -⟩
      cases hratio
    · rintro ⟨hge, hlt⟩
      rw [neg_zpow_le_roundDouble_iff (by omega)] at hge
      rcases le_abs.1 hover with hcase | hcase
      · exact absurd hcase (not_le.2 hlt)
      · norm_num at hge
        linarith
  · rw [if_neg hover]
    constructor
    · rintro ⟨ratio, ⟨⟩, hle⟩
      exact ⟨(hscore _).1 hle, (le_abs_self _).trans_lt (not_le.1 hover)⟩
    · rintro ⟨hge, -⟩
      exact ⟨_, rfl, (hscore _).2 hge⟩

theorem claimCounts_eq_ok_iff {hc tc : Int} : claimCounts u members = .ok (hc, tc) ↔
    toInt u (orElse (get members "hallucinated_claims") (.int 0)) = .ok hc ∧
      toInt u (orElse (get members "total_claims") (.int 0)) = .ok tc := by
  unfold claimCounts
  constructor
  · intro h
    obtain ⟨hc', hhc, h⟩ := bind_eq_ok.1 h
    obtain ⟨tc', htc, h⟩ := bind_eq_ok.1 h
    cases h
    exact ⟨hhc, htc⟩
  · rintro ⟨hhc, htc⟩
    exact bind_eq_ok.2 ⟨hc, hhc, bind_eq_ok.2 ⟨tc, htc, rfl⟩⟩

/-- The second count is not read where the first one cannot be. -/
theorem claimCounts_eq_overflow_iff : claimCounts u members = .error .overflowError ↔
    IsInfinite (get members "hallucinated_claims") ∨
      (∃ hc, toInt u (orElse (get members "hallucinated_claims") (.int 0)) = .ok hc) ∧
        IsInfinite (get members "total_claims") := by
  rw [← toInt_eq_overflow_iff (u := u), ← toInt_eq_overflow_iff (u := u)]
  unfold claimCounts
  cases toInt u (orElse (get members "hallucinated_claims") (.int 0)) with
  | error e =>
      constructor
      · intro h
        exact .inl (congrArg Except.error (Except.error.inj h))
      · rintro (h | ⟨⟨hc, hhc⟩, -⟩)
        · exact congrArg Except.error (Except.error.inj h)
        · cases hhc
  | ok hc =>
      cases toInt u (orElse (get members "total_claims") (.int 0)) with
      | error e =>
          constructor
          · intro h
            exact .inr ⟨⟨hc, rfl⟩, congrArg Except.error (Except.error.inj h)⟩
          · rintro (h | ⟨-, h⟩)
            · cases h
            · exact congrArg Except.error (Except.error.inj h)
      | ok tc =>
          constructor
          · intro h
            cases h
          · rintro (h | ⟨-, h⟩)
            · cases h
            · cases h

theorem raisesOnly_toInt (v : JsonValue) : RaisesOnly (· ≠ .attributeError) (toInt u v) := by
  cases v with
  | str s =>
      have hint : toInt u (.str s) = (intOfString u s).elim (.error .valueError) .ok := rfl
      rw [hint]
      cases intOfString u s with
      | none => exact raisesOnly_error (by decide)
      | some n => exact raisesOnly_ok _ n
  | float x =>
      cases x with
      | finite q => exact raisesOnly_ok _ _
      | infinite negative => exact raisesOnly_error (by decide)
      | nan => exact raisesOnly_error (by decide)
  | null => exact raisesOnly_error (by decide)
  | bool b => exact raisesOnly_ok _ _
  | int n => exact raisesOnly_ok _ n
  | arr xs => exact raisesOnly_error (by decide)
  | obj members => exact raisesOnly_error (by decide)

theorem raisesOnly_claimCounts : RaisesOnly (· ≠ .attributeError) (claimCounts u members) := by
  apply (raisesOnly_toInt _).bind
  intro hc _
  apply (raisesOnly_toInt _).bind
  intro tc _
  exact raisesOnly_ok _ (hc, tc)

/-- With both counts read. -/
theorem bounded_score_iff {hc tc : Int} (htc : 0 < tc) :
    Bounded (do
        let ratio ← divide hc tc
        let rationale ← rationaleOf members
        return { score := max 0 (roundDouble (1 - ratio)), rationale := rationale, sampleCount := some tc }) ↔
      -((2 ^ 53 + 1) * tc) ≤ 2 ^ 106 * hc ∧ hc < doubleLimit * tc ∧
        IsSliceable (get members "rationale") := by
  rw [← and_assoc, ← divide_bounded_iff htc, ← rationaleOf_isOk_iff]
  constructor
  · rintro ⟨r, hr, -, hle⟩
    obtain ⟨ratio, hratio, hr⟩ := bind_eq_ok.1 hr
    obtain ⟨rationale, hrationale, hr⟩ := bind_eq_ok.1 hr
    cases hr
    exact ⟨⟨ratio, hratio, (le_max_right _ _).trans hle⟩, rationale, hrationale⟩
  · rintro ⟨⟨ratio, hratio, hle⟩, rationale, hrationale⟩
    exact ⟨_, bind_eq_ok.2 ⟨ratio, hratio, bind_eq_ok.2 ⟨rationale, hrationale, rfl⟩⟩, le_max_left _ _,
      max_le zero_le_one hle⟩

theorem bounded_readClaims_iff : Bounded (readClaims u reply) ↔ ClaimsFit u reply := by
  unfold readClaims ClaimsFit
  cases hdict : asDict reply with
  | none => exact ⟨fun _ _ h => (nomatch h), fun _ => bounded_parseFailed⟩
  | some members =>
      dsimp only
      have hover : claimCounts u members = .error .overflowError ↔ _ := claimCounts_eq_overflow_iff
      constructor
      · rintro h _ ⟨⟩
        have hcaught : claimCounts u members ≠ .error .overflowError := by
          intro hraise
          rw [hraise] at h
          obtain ⟨r, hr, -⟩ := h
          cases hr
        rw [Ne, hover, not_or, not_and] at hcaught
        refine ⟨hcaught.1, fun hc hhc => ⟨hcaught.2 ⟨hc, hhc⟩, fun tc htc hpos => ?_⟩⟩
        rw [claimCounts_eq_ok_iff.2 ⟨hhc, htc⟩] at h
        dsimp only at h
        rw [if_neg (not_le.2 hpos)] at h
        exact (bounded_score_iff hpos).1 h
      · intro h
        obtain ⟨hhc, hrest⟩ := h members rfl
        cases hcounts : claimCounts u members with
        | error e =>
            cases e with
            | overflowError =>
                rcases hover.1 hcounts with hinf | ⟨⟨hc, hok⟩, hinf⟩
                · exact absurd hinf hhc
                · exact absurd hinf (hrest hc hok).1
            | typeError => exact bounded_parseFailed
            | valueError => exact bounded_parseFailed
            | attributeError => exact absurd rfl (raisesOnly_claimCounts _ hcounts)
        | ok counts =>
            obtain ⟨hc, tc⟩ := counts
            obtain ⟨hok, htc⟩ := claimCounts_eq_ok_iff.1 hcounts
            dsimp only
            by_cases hpos : 0 < tc
            · rw [if_neg (not_le.2 hpos)]
              exact (bounded_score_iff hpos).2 ((hrest hc hok).2 tc htc hpos)
            · rw [if_pos (not_lt.1 hpos)]
              exact bounded_ok ⟨by norm_num, by norm_num⟩

end Bounds

section Judges

variable (u : Unicode) (depth : Nat) (chat : Chat) (query answer context : String)

/-- A judge that is not asked. -/
theorem bounded_ite_iff {c : Prop} [Decidable c] {rationale : JsonValue} {x : Except PyError JudgeResult} :
    Bounded (if c then .ok { score := 0, rationale := rationale } else x) ↔ (¬ c → Bounded x) := by
  split
  · next hc => exact ⟨fun _ h => absurd hc h, fun _ => bounded_ok ⟨le_refl 0, zero_le_one⟩⟩
  · next hc => exact ⟨fun h _ => h, fun h => h hc⟩

theorem bounded_judgeContextPrecision_iff (chunks : List String) :
    Bounded (judgeContextPrecision u depth chat query chunks) ↔ (¬ (query = "" ∨ chunks = []) →
      ScoresFit chunks.length (judgeCall depth chat cpSystem (buildCpPrompt query chunks))) := by
  unfold judgeContextPrecision
  rw [bounded_ite_iff]
  apply imp_congr_right
  intro hasked
  apply bounded_readScores_iff
  · exact List.length_pos_iff.2 fun hnil => hasked (.inr hnil)
  · exact fun _ => rankWeighted_mem

theorem bounded_judgeFaithfulness_iff :
    Bounded (judgeFaithfulness u depth chat answer context) ↔ (¬ (answer = "" ∨ context = "") →
      ScoreFits (judgeCall depth chat faithSystem (buildFaithPrompt answer context))) := by
  unfold judgeFaithfulness
  rw [bounded_ite_iff, bounded_readScore_iff]

theorem bounded_judgeAnswerRelevancy_iff :
    Bounded (judgeAnswerRelevancy u depth chat query answer) ↔ (¬ (query = "" ∨ answer = "") →
      ScoreFits (judgeCall depth chat relSystem (buildRelPrompt query answer))) := by
  unfold judgeAnswerRelevancy
  rw [bounded_ite_iff, bounded_readScore_iff]

theorem bounded_judgeHallucination_iff :
    Bounded (judgeHallucination u depth chat answer context) ↔ (¬ (answer = "" ∨ context = "") →
      ClaimsFit u (judgeCall depth chat halSystem (buildHalPrompt answer context))) := by
  unfold judgeHallucination
  rw [bounded_ite_iff, bounded_readClaims_iff]

theorem bounded_judgeCitationAccuracy_iff (citations : List Citation) :
    Bounded (judgeCitationAccuracy u depth chat answer citations) ↔ (¬ (answer = "" ∨ citations = []) →
      ScoresFit citations.length (judgeCall depth chat citeSystem (buildCitePrompt answer citations))) := by
  unfold judgeCitationAccuracy
  rw [bounded_ite_iff, List.isEmpty_iff]
  apply imp_congr_right
  intro hasked
  apply bounded_readScores_iff
  · exact List.length_pos_iff.2 fun hnil => hasked (.inr hnil)
  · exact fun _ => average_mem

end Judges

end OpsKnowledge.Replies
