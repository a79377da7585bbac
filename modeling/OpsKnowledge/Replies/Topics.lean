import OpsKnowledge.Replies.Queries

/-!
# Labels of topics

`_parse_label_response` of `coverage/topics.py`, which goes on to the braces after an empty
fenced object, and when all parsers of answers return what they promise.
-/

namespace OpsKnowledge.Replies

open OpsKnowledge.Lib

/-- The JSON of a label. -/
def parseLabelJson (depth : Nat) (text : String) : JsonValue :=
  let body := (strip text).toList
  let read (s : List Char) : Option JsonValue := loads depth (String.ofList s)
  match read body with
  | some parsed => parsed
  | none =>
    let parsed := ((fenced body).bind read).getD (.obj [])
    if truthy parsed then parsed
    else
      match braced body with
      | some s => (read s).getD (.obj [])
      | none => parsed

/-- `s.strip(chars)` -/
def stripChars (chars : List Char) (s : String) : String :=
  String.ofList ((s.toList.dropWhile (· ∈ chars)).rdropWhile (· ∈ chars))

/-- The keywords without white space and marks around them. -/
def keywordsOf (members : List (String × JsonValue)) : List String :=
  match get members "keywords" with
  | .arr raw => ((strings raw).map fun s => stripChars "。,，.".toList (strip s)).filter fun s => !s.isEmpty
  | _ => []

def readLabel (parsed : JsonValue) : Except PyError (String × List String) := do
  let label ← stripped
    (orElse (((asDict parsed).map fun members => get members "label").getD .null) (.str ""))
  return (clip 200 label, (((asDict parsed).map keywordsOf).getD []).take 5)

def parseLabelResponse (depth : Nat) (text : String) : Except PyError (String × List String) :=
  readLabel (parseLabelJson depth text)

/-- A label and up to five keywords. -/
def Labelled (x : Except PyError (String × List String)) : Prop :=
  ∃ label keywords, x = .ok (label, keywords) ∧ label.length ≤ 200 ∧
    keywords.length ≤ 5 ∧ ∀ s ∈ keywords, s ≠ ""

/-- The label is empty or a string. -/
def LabelFits (parsed : JsonValue) : Prop := ∀ members, asDict parsed = some members →
  IsText (get members "label")

variable {parsed : JsonValue}

theorem labelled_readLabel_iff : Labelled (readLabel parsed) ↔ LabelFits parsed := by
  have hkeywords : ∀ s ∈ (((asDict parsed).map keywordsOf).getD []).take 5, s ≠ "" := by
    intro s hs hempty
    subst hempty
    have hmem := List.mem_of_mem_take hs
    cases hdict : asDict parsed with
    | none =>
        rw [hdict] at hmem
        cases hmem
    | some members =>
        rw [hdict] at hmem
        change "" ∈ keywordsOf members at hmem
        unfold keywordsOf at hmem
        split at hmem
        · cases (List.mem_filter.1 hmem).2
        · cases hmem
  have hlabel : Labelled (readLabel parsed) ↔
      ∃ s, stripped (orElse (((asDict parsed).map fun members => get members "label").getD .null) (.str "")) =
        .ok s := by
    unfold readLabel
    constructor
    · rintro ⟨label, keywords, h, -⟩
      obtain ⟨s, hs, -⟩ := bind_eq_ok.1 h
      exact ⟨s, hs⟩
    · rintro ⟨s, hs⟩
      refine ⟨_, _, bind_eq_ok.2 ⟨s, hs, rfl⟩, ?_, List.length_take_le _ _, hkeywords⟩
      simp [clip]
  rw [hlabel, stripped_orElse_isOk_iff]
  unfold LabelFits
  cases hdict : asDict parsed with
  | none =>
      constructor
      · rintro - _ ⟨⟩
      · intro _ htruthy
        cases htruthy
  | some members =>
      constructor
      · rintro h _ ⟨⟩
        exact h
      · intro h
        exact h members rfl

/-- The labeller reads an answer as the others do, except after an empty fenced object. -/
theorem parseLabelJson_eq_parseJson {depth : Nat} {text : String}
    (h : ∀ parsed, (fenced (strip text).toList).bind (fun s => loads depth (String.ofList s)) = some parsed →
      truthy parsed) : parseLabelJson depth text = parseJson depth text := by
  unfold parseLabelJson parseJson
  dsimp only
  cases hstrict : loads depth (String.ofList (strip text).toList) with
  | some parsed => rfl
  | none =>
      dsimp only
      cases hfence : (fenced (strip text).toList).bind fun s => loads depth (String.ofList s) with
      | some parsed =>
          have htruthy := h parsed hfence
          rw [Option.getD_some, if_pos htruthy]
          rfl
      | none =>
          have hempty : truthy (.obj []) = false := rfl
          rw [Option.getD_none, hempty]
          cases braced (strip text).toList with
          | none => rfl
          | some s => rfl

/-! ## All parsers -/

/-- For every answer of the model the judges give a score between zero and one, the rewriter and the planner
a well-formed result and the labeller strings, exactly where the members that they convert have the right
types. -/
theorem parsers_total_iff (u : Unicode) (depth : Nat) :
    (∀ chat query chunks, Bounded (judgeContextPrecision u depth chat query chunks) ↔
      (¬ (query = "" ∨ chunks = []) →
        ScoresFit chunks.length (judgeCall depth chat cpSystem (buildCpPrompt query chunks)))) ∧
    (∀ chat answer context, Bounded (judgeFaithfulness u depth chat answer context) ↔
      (¬ (answer = "" ∨ context = "") →
        ScoreFits (judgeCall depth chat faithSystem (buildFaithPrompt answer context)))) ∧
    (∀ chat query answer, Bounded (judgeAnswerRelevancy u depth chat query answer) ↔
      (¬ (query = "" ∨ answer = "") →
        ScoreFits (judgeCall depth chat relSystem (buildRelPrompt query answer)))) ∧
    (∀ chat answer context, Bounded (judgeHallucination u depth chat answer context) ↔
      (¬ (answer = "" ∨ context = "") →
        ClaimsFit u (judgeCall depth chat halSystem (buildHalPrompt answer context)))) ∧
    (∀ chat answer citations, Bounded (judgeCitationAccuracy u depth chat answer citations) ↔
      (¬ (answer = "" ∨ citations = []) →
        ScoresFit citations.length (judgeCall depth chat citeSystem (buildCitePrompt answer citations)))) ∧
    (∀ chat query history model memorySummary,
      (∃ r, rewriteQueryV2 depth chat query history model memorySummary = .ok r ∧ r.WellFormed query) ↔
        ∀ request text, Retrieval.rewriteRequest query history model memorySummary = some request →
          chat request = some text → RewriteFits (parseJson depth text)) ∧
    (∀ chatFn query, (∃ p, plan depth chatFn query = .ok p ∧ p.WellFormed (strip query)) ↔
      ∀ chat text, Asked (strip query) → chatFn = some chat → chat planSystem (strip query) = some text →
        PlanFits (parseJson depth text)) ∧
    (∀ text, Labelled (parseLabelResponse depth text) ↔ LabelFits (parseLabelJson depth text)) := by
  refine ⟨?_, ?_, ?_, ?_, ?_, ?_, ?_, ?_⟩
  · exact bounded_judgeContextPrecision_iff u depth
  · exact bounded_judgeFaithfulness_iff u depth
  · exact bounded_judgeAnswerRelevancy_iff u depth
  · exact bounded_judgeHallucination_iff u depth
  · exact bounded_judgeCitationAccuracy_iff u depth
  · exact rewriteQueryV2_wellFormed_iff depth
  · exact fun chatFn query => plan_wellFormed_iff depth query chatFn
  · exact fun text => labelled_readLabel_iff

/-- A negative count of hallucinated claims makes a score above one. -/
theorem negative_claims_unbounded : ¬ ∀ (u : Unicode) (depth : Nat) (chat : Chat) (answer context : String),
    Bounded (judgeHallucination u depth chat answer context) := by
  intro h
  have hbounded := h ⟨fun _ => none, fun _ => true⟩ 100
    (fun _ _ => some "\x7b\"hallucinated_claims\": -5, \"total_claims\": 1\x7d") "a" "c"
  rw [bounded_judgeHallucination_iff] at hbounded
  have hfits := hbounded (by decide) [("hallucinated_claims", .int (-5)), ("total_claims", .int 1)] rfl
  have hlow := ((hfits.2 (-5) rfl).2 1 rfl (by decide)).1
  exact absurd hlow (by decide)

end OpsKnowledge.Replies
