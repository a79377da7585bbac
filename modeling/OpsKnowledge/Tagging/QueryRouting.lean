import Mathlib.Order.OrderDual
import Mathlib.Data.Prod.Lex
import OpsKnowledge.Lib.Firsts
import OpsKnowledge.Lib.JsonText
import OpsKnowledge.Lib.OrderBy
import OpsKnowledge.Tagging.Dictionary

/-!
# Queries routed to tags

`route_query_to_tags` asks the model for the tags of the dictionary that a query is about. The array of
the reply is what stands between its first bracket and the next closing one, so a tag with a closing
bracket, where it is not escaped, cuts it short.
-/

namespace OpsKnowledge.Tagging

open OpsKnowledge.Lib

structure KBTagSettings where
  tagRoutingEnabled : Bool
  autoTagLlmModelId : Option Nat

/-- `_PROMPT_TEMPLATE` -/
def routePrompt (maxN dictCount : Nat) (canonicals query : String) : String :=
  "你是一个查询路由助手。给定用户的检索 query 和当前知识库的标签字典，请输出 query 在语义上" ++
  "\"应该被限定到\"的标签列表（最多 " ++ toString maxN ++ " 个）。\n\n要求：\n" ++
  "1. 仅输出 JSON 数组，格式：[\"标签1\", \"标签2\"]\n" ++
  "2. 必须从给定的字典列表中选择标签；不要创造新词\n" ++
  "3. 如果 query 与任何字典标签都无明显语义相关，输出空数组 []\n" ++
  "4. 偏严格：宁可少选不要错选，避免把无关 tag 加进过滤反而导致 0 召回\n\n" ++
  "字典列表（" ++ toString dictCount ++ " 个 active canonical）：\n" ++ canonicals ++
  "\n\n用户 query: " ++ query ++ "\n\n仅输出 JSON 数组，不要任何额外文本：\n"

/-- The names in the prompt, the first two hundred. -/
def promptNames (canonicals : List String) : String :=
  " / ".intercalate (canonicals.take 200) ++
    if 200 < canonicals.length then "（…共 " ++ toString canonicals.length ++ " 个，仅展示 200）" else ""

/-- The match of `_JSON_ARRAY_RE`. -/
def jsonArray : List Char → Option (List Char)
  | [] => none
  | c :: s =>
    if c = '[' ∧ ']' ∈ s then some ('[' :: (s.takeWhile (· ≠ ']') ++ [']'])) else jsonArray s

/-- `_extract_json_array`. Where `json.loads` runs into the recursion limit, which is not caught here, the
only caller of `route_query_to_tags` goes on without tags, as it does with none. -/
def extractJsonArray (depth : Nat) (text : String) : List JsonValue :=
  match (jsonArray text.toList).bind fun array => loads depth (String.ofList array) with
  | some (.arr items) => items
  | _ => []

/-- The loop over the items of the reply. -/
def routedItems (canonicals : List String) (maxN : Nat) :
    List String → List String → List JsonValue → List String
  | _, out, [] => out
  | seen, out, .str item :: items =>
      let item := strip item
      if item = "" ∨ item ∈ seen then routedItems canonicals maxN seen out items
      else if item ∉ canonicals then routedItems canonicals maxN seen out items
      else
        let out := out ++ [item]
        if maxN ≤ out.length then out else routedItems canonicals maxN (seen ++ [item]) out items
  | seen, out, _ :: items => routedItems canonicals maxN seen out items

section Routing

variable (usageCount tie : Nat → Nat) (chat : Nat → String → Option String) (depth maxN : Nat)

/-- The active canonicals, the most used first. -/
def routeCanonicals (t : TagTable) (kbId : Nat) : List String :=
  (orderBy (fun r : TagDictionary => toLex (OrderDual.toDual (usageCount r.id), tie r.id))
    (t.active kbId)).map TagDictionary.canonical

def promptOf (t : TagTable) (kbId : Nat) (query : String) : String :=
  let canonicals := routeCanonicals usageCount tie t kbId
  routePrompt maxN canonicals.length (promptNames canonicals) (clip 500 (strip query))

/-- `route_query_to_tags`; `chat` is the text of the first choice, or `none` where it cannot be had. -/
def routeQueryToTags (settings : Option KBTagSettings) (t : TagTable) (kbId : Nat) (query : String) :
    List String :=
  match settings with
  | some { tagRoutingEnabled := true, autoTagLlmModelId := some model } =>
      let canonicals := routeCanonicals usageCount tie t kbId
      if canonicals = [] then []
      else
        match chat model (promptOf usageCount tie maxN t kbId query) with
        | none => []
        | some rawText => routedItems canonicals maxN [] [] (extractJsonArray depth rawText)
  | _ => []

end Routing

/-! ## The items that are taken -/

/-- The tag that an item stands for. -/
def itemTag (canonicals : List String) : JsonValue → Option String
  | .str item => if strip item = "" ∨ strip item ∉ canonicals then none else some (strip item)
  | _ => none

section Items

variable {canonicals : List String} {maxN : Nat} {seen out : List String}

/-- The loop takes the first item of each tag. -/
theorem routedItems_eq (hlength : seen.length = out.length) (items : List JsonValue) :
    routedItems canonicals maxN seen out items =
      out ++ (firsts (itemTag canonicals) maxN seen items).map Prod.fst := by
  induction items generalizing seen out with
  | nil => simp [routedItems, firsts]
  | cons v items ih =>
      cases v with
      | str item =>
          by_cases hnone : strip item = "" ∨ strip item ∉ canonicals
          · have hkey : itemTag canonicals (.str item) = none := if_pos hnone
            have hskip : routedItems canonicals maxN seen out (.str item :: items) =
                routedItems canonicals maxN seen out items := by
              rw [routedItems]
              rcases hnone with hempty | hforeign
              · rw [if_pos (.inl hempty)]
              · rw [if_pos hforeign, ite_self]
            rw [hskip, firsts, hkey]
            exact ih hlength
          · have hkey : itemTag canonicals (.str item) = some (strip item) := if_neg hnone
            rw [not_or, not_not] at hnone
            rw [routedItems, firsts, hkey]
            by_cases hseen : strip item ∈ seen
            · rw [if_pos (.inr hseen)]
              simp only [if_pos hseen]
              exact ih hlength
            · rw [if_neg (not_or.2 ⟨hnone.1, hseen⟩), if_neg (not_not.2 hnone.2)]
              simp only [if_neg hseen, List.length_append, List.length_singleton, hlength]
              split
              · rfl
              · rw [ih (by simp [hlength]), List.map_cons, List.append_assoc]
                rfl
      | _ => exact ih hlength

/-- Tags that are all different and not too many are all taken. -/
theorem firsts_all {α κ : Type} [DecidableEq κ] {key : α → Option κ} {n : Nat} {seen : List κ} {xs : List α}
    {ks : List κ} (hkeys : List.Forall₂ (fun x k => key x = some k) xs ks) (hnodup : (seen ++ ks).Nodup)
    (hfew : seen.length + ks.length ≤ n) : (firsts key n seen xs).map Prod.fst = ks := by
  induction hkeys generalizing seen with
  | nil => rfl
  | @cons x k xs ks hx hxs ih =>
      have hnew : k ∉ seen := fun hk =>
        (List.nodup_append.1 hnodup).2.2 k hk k List.mem_cons_self rfl
      rw [List.length_cons] at hfew
      rw [firsts, hx]
      simp only [if_neg hnew, List.map_cons]
      split
      · next hlast =>
          have hnil : ks = [] := List.eq_nil_of_length_eq_zero (by omega)
          rw [hnil]
          rfl
      · have hmoved : (seen ++ [k] ++ ks).Nodup := by rwa [List.append_assoc]
        rw [ih hmoved (by rw [List.length_append, List.length_singleton]; omega)]

theorem itemTag_eq_some {v : JsonValue} {tag : String} (h : itemTag canonicals v = some tag) :
    tag ∈ canonicals := by
  cases v with
  | str item =>
      by_cases hnone : strip item = "" ∨ strip item ∉ canonicals
      · have hkey : itemTag canonicals (.str item) = none := if_pos hnone
        rw [hkey] at h
        cases h
      · have hkey : itemTag canonicals (.str item) = some (strip item) := if_neg hnone
        rw [hkey] at h
        cases h
        rw [not_or, not_not] at hnone
        exact hnone.2
  | _ => cases h

theorem routedItems_sound (hmax : 0 < maxN) (items : List JsonValue) :
    (routedItems canonicals maxN [] [] items).Nodup ∧
      (routedItems canonicals maxN [] [] items).length ≤ maxN ∧
      ∀ tag ∈ routedItems canonicals maxN [] [] items, tag ∈ canonicals := by
  rw [routedItems_eq rfl, List.nil_append]
  refine ⟨nodup_firsts.1, ?_, fun tag htag => ?_⟩
  · have hlength : ([] : List String).length + (firsts (itemTag canonicals) maxN [] items).length ≤ maxN :=
      length_firsts hmax
    simpa using hlength
  · obtain ⟨⟨k, v⟩, hmem, rfl⟩ := List.mem_map.1 htag
    obtain ⟨-, -, -, hkey, -⟩ := (mem_firsts List.nodup_nil hmax).1 hmem
    exact itemTag_eq_some hkey

/-- Stripped canonicals that are all different and not too many are all taken. -/
theorem routedItems_strings {tags : List String} (hnodup : tags.Nodup) (hfew : tags.length ≤ maxN)
    (htags : ∀ tag ∈ tags, strip tag = tag ∧ tag ≠ "" ∧ tag ∈ canonicals) :
    routedItems canonicals maxN [] [] (tags.map JsonValue.str) = tags := by
  have hkeys : List.Forall₂ (fun v tag => itemTag canonicals v = some tag) (tags.map JsonValue.str) tags := by
    rw [List.forall₂_map_left_iff, List.forall₂_same]
    intro tag htag
    obtain ⟨hstrip, hne, hmem⟩ := htags tag htag
    change (if strip tag = "" ∨ strip tag ∉ canonicals then none else some (strip tag)) = some tag
    rw [hstrip, if_neg (not_or.2 ⟨hne, not_not.2 hmem⟩)]
  rw [routedItems_eq rfl, List.nil_append]
  exact firsts_all hkeys hnodup (by simpa using hfew)

end Items

/-! ## What is read of an array of strings -/

section Arrays

variable {depth : Nat} {strings : List String}

theorem jsonArray_append {pre : List Char} (hpre : '[' ∉ pre) (s : List Char) :
    jsonArray (pre ++ s) = jsonArray s := by
  induction pre with
  | nil => rfl
  | cons c pre ih =>
      rw [List.mem_cons, not_or] at hpre
      rw [List.cons_append, jsonArray, if_neg fun h => hpre.1 h.1.symm]
      exact ih hpre.2

theorem jsonArray_bracket {body : List Char} (hbody : ']' ∉ body) (post : List Char) :
    jsonArray ('[' :: (body ++ ']' :: post)) = some ('[' :: (body ++ [']'])) := by
  have htake : (body ++ ']' :: post).takeWhile (· ≠ ']') = body := by
    rw [List.takeWhile_append_of_pos (fun c hc => by simpa using ne_of_mem_of_not_mem hc hbody)]
    simp
  rw [jsonArray, if_pos ⟨rfl, by simp⟩, htake]

theorem skipJsonSpace_append_bracket (a s : List Char) :
    skipJsonSpace (a ++ ']' :: s) = skipJsonSpace a ++ ']' :: s := by
  unfold skipJsonSpace
  rw [List.dropWhile_append]
  split
  · next hall =>
      rw [List.isEmpty_iff.1 hall]
      rfl
  · rfl

theorem notMem_of_skipJsonSpace_eq_nil {s : List Char} (h : skipJsonSpace s = []) : ']' ∉ s := by
  intro hbracket
  have hall := List.dropWhile_eq_nil_iff.1 h _ hbracket
  exact absurd hall (by decide)

/-- A string that is cut at a closing bracket is no item. -/
theorem scanItems_cut_inside {pre rest : List Char} {x : String} (h : Spells (pre ++ ']' :: rest) x)
    (fuel : Nat) : scanItems (scanValue depth) ']' (fuel + 1) (pre ++ [']']) = none := by
  obtain ⟨body, hbody⟩ := h.begins
  obtain ⟨pre, rfl⟩ : ∃ pre', pre = quotationMark :: pre' := by
    cases pre with
    | nil => exact absurd (List.cons.inj hbody).1 (by decide)
    | cons c pre => exact ⟨pre, by rw [(List.cons.inj hbody).1]⟩
  have hcut := h.cut (List.cons_ne_nil _ _) (by decide)
  exact scanItems_succ_of_none (scanValue_unfinished hcut)

/-- Of strings one of which has the first closing bracket, what ends in that one is no list of items. -/
theorem scanItems_cut {fuel : Nat} {pre rest r : List Char}
    (h : scanItems (scanValue depth) ']' fuel (pre ++ ']' :: rest) = some (strings.map JsonValue.str, r))
    (hpre : ']' ∉ pre) (hrest : ']' ∈ rest) (hr : ']' ∉ r) (fuel' : Nat) :
    scanItems (scanValue depth) ']' fuel' (pre ++ [']']) = none := by
  induction fuel generalizing pre strings fuel' with
  | zero => cases h
  | succ fuel ih =>
      cases fuel' with
      | zero => rfl
      | succ fuel' =>
          obtain ⟨fuel, v, s, hfuel, hfirst, hcases⟩ := scanItems_eq_some h
          cases hfuel
          obtain ⟨x, rfl⟩ : ∃ x, v = .str x := by
            have hv : v ∈ strings.map JsonValue.str := by
              rcases hcases with ⟨-, hone⟩ | ⟨t, xs, -, -, hcons⟩
              · rw [hone]
                exact List.mem_cons_self
              · rw [hcons]
                exact List.mem_cons_self
            obtain ⟨x, -, rfl⟩ := List.mem_map.1 hv
            exact ⟨x, rfl⟩
          obtain ⟨text, hsplit, htext⟩ := spells_of_scanValue hfirst
          -- where the bracket stands behind the string, there is a comma between them
          have hbehind : ∀ a, pre = text ++ a → s = a ++ ']' :: rest →
              scanItems (scanValue depth) ']' (fuel' + 1) (pre ++ [']']) = none := by
            rintro a rfl rfl
            rw [List.mem_append, not_or] at hpre
            rw [skipJsonSpace_append_bracket] at hcases
            rcases hcases with ⟨hclose, -⟩ | ⟨t, xs, hcomma, hlater, hcons⟩
            · cases hspace : skipJsonSpace a with
              | nil =>
                  rw [hspace] at hclose
                  exact absurd ((List.cons.inj hclose).2 ▸ hrest) hr
              | cons c a' =>
                  rw [hspace] at hclose
                  have hbracket : ']' ∈ skipJsonSpace a := by
                    rw [hspace, (List.cons.inj hclose).1]
                    exact List.mem_cons_self
                  exact absurd hbracket (notMem_skipJsonSpace hpre.2)
            · obtain ⟨a', hspace, ht⟩ : ∃ a', skipJsonSpace a = ',' :: a' ∧ t = a' ++ ']' :: rest := by
                cases hspace : skipJsonSpace a with
                | nil =>
                    rw [hspace] at hcomma
                    exact absurd (List.cons.inj hcomma).1 (by decide)
                | cons c a' =>
                    rw [hspace] at hcomma
                    obtain ⟨rfl, ht⟩ := List.cons.inj hcomma
                    exact ⟨a', rfl, ht.symm⟩
              have hbracket : ']' ∉ a' := fun hmem =>
                notMem_skipJsonSpace hpre.2 (hspace ▸ List.mem_cons_of_mem _ hmem)
              obtain ⟨y, ys, rfl, -, rfl⟩ := List.map_eq_cons_iff.1 hcons
              rw [ht, skipJsonSpace_append_bracket] at hlater
              rw [List.append_assoc, scanItems_succ (htext.scanValue _),
                skipJsonSpace_append_bracket, hspace, List.cons_append]
              show (if ',' = ']' then _ else if ',' = ',' then _ else _) = none
              rw [if_neg (by decide), if_pos rfl, skipJsonSpace_append_bracket,
                ih hlater (notMem_skipJsonSpace hbracket)]
              rfl
          rcases List.append_eq_append_iff.1 hsplit with ⟨a, htextEq, hs⟩ | ⟨a, hpreEq, hs⟩
          · cases a with
            | nil => exact hbehind [] (by rw [htextEq, List.append_nil, List.append_nil]) hs.symm
            | cons b a =>
                obtain ⟨rfl, -⟩ := List.cons.inj hs
                exact scanItems_cut_inside (htextEq ▸ htext) fuel'
          · exact hbehind a hpreEq hs

theorem scanBody_cut {pre rest r : List Char}
    (h : scanBody (scanValue depth) ']' (pre ++ ']' :: rest) = some (strings.map JsonValue.str, r))
    (hpre : ']' ∉ pre) (hrest : ']' ∈ rest) (hr : ']' ∉ r) :
    scanBody (scanValue depth) ']' (pre ++ [']']) = none := by
  unfold scanBody at h ⊢
  dsimp only at h ⊢
  rw [skipJsonSpace_append_bracket] at h ⊢
  cases hspace : skipJsonSpace pre with
  | nil =>
      rw [hspace, List.nil_append, List.head?_cons, if_pos rfl] at h
      obtain ⟨-, rfl⟩ := Prod.mk.inj (Option.some.inj h)
      exact absurd hrest hr
  | cons c a =>
      have hbracket : ']' ∉ c :: a := hspace ▸ notMem_skipJsonSpace hpre
      have hopen : ¬ some c = some ']' := fun hc =>
        hbracket (Option.some.inj hc ▸ List.mem_cons_self)
      rw [hspace, List.cons_append, List.head?_cons, if_neg hopen, ← List.cons_append] at h
      rw [List.cons_append, List.head?_cons, if_neg hopen, ← List.cons_append]
      exact scanItems_cut h hbracket hrest hr _

theorem loads_array (s : List Char) : loads (depth + 1) (String.ofList ('[' :: s)) =
    (scanBody (scanValue depth) ']' s).bind fun found =>
      if skipJsonSpace found.2 = [] then some (.arr found.1) else none := by
  unfold loads
  rw [String.toList_ofList, skipJsonSpace_cons (by decide)]
  show ((scanBody (scanValue depth) ']' s).map _).bind _ = _
  cases scanBody (scanValue depth) ']' s with
  | none => rfl
  | some found => rfl

/-- An array of strings that is cut at a closing bracket inside cannot be read. -/
theorem loads_cut {pre rest : List Char}
    (h : loads (depth + 1) (String.ofList ('[' :: (pre ++ ']' :: (rest ++ [']'])))) =
      some (.arr (strings.map JsonValue.str)))
    (hpre : ']' ∉ pre) : loads (depth + 1) (String.ofList ('[' :: (pre ++ [']']))) = none := by
  rw [loads_array] at h ⊢
  obtain ⟨⟨xs, r⟩, hbody, hend⟩ := Option.bind_eq_some_iff.1 h
  obtain ⟨hspace, heq⟩ := Option.ite_none_right_eq_some.1 hend
  cases heq
  have hr := notMem_of_skipJsonSpace_eq_nil hspace
  rw [scanBody_cut hbody hpre (List.mem_append_right _ (List.mem_singleton_self _)) hr]
  rfl

/-- An array of nothing has no bracket inside. -/
theorem notMem_of_loads_nil {body : List Char}
    (h : loads (depth + 1) (String.ofList ('[' :: (body ++ [']']))) = some (.arr [])) : ']' ∉ body := by
  rw [loads_array] at h
  obtain ⟨⟨xs, r⟩, hbody, hend⟩ := Option.bind_eq_some_iff.1 h
  obtain ⟨hend, heq⟩ := Option.ite_none_right_eq_some.1 hend
  cases heq
  unfold scanBody at hbody
  dsimp only at hbody
  rw [skipJsonSpace_append_bracket] at hbody
  intro hbracket
  obtain ⟨c, a, hspace⟩ : ∃ c a, skipJsonSpace body = c :: a := by
    apply List.exists_cons_of_ne_nil
    exact fun hnil => notMem_of_skipJsonSpace_eq_nil hnil hbracket
  rw [hspace] at hbody
  split at hbody
  · obtain ⟨-, rfl⟩ := Prod.mk.inj (Option.some.inj hbody)
    have hlast : ']' ∈ a ++ [']'] := List.mem_append_right _ (List.mem_singleton_self _)
    exact notMem_of_skipJsonSpace_eq_nil hend hlast
  · obtain ⟨fuel, x, s, -, -, ⟨-, hone⟩ | ⟨t, xs, -, -, hcons⟩⟩ := scanItems_eq_some hbody
    · cases hone
    · cases hcons

/-- An array of strings is read from a reply unless one of them is written with a closing bracket. -/
theorem extractJsonArray_strings {pre body : List Char} (hpre : '[' ∉ pre)
    (h : loads (depth + 1) (String.ofList ('[' :: (body ++ [']']))) = some (.arr (strings.map JsonValue.str)))
    (post : List Char) :
    extractJsonArray (depth + 1) (String.ofList (pre ++ '[' :: (body ++ ']' :: post))) =
      if ']' ∈ body then [] else strings.map JsonValue.str := by
  unfold extractJsonArray
  rw [String.toList_ofList, jsonArray_append hpre]
  by_cases hbracket : ']' ∈ body
  · rw [if_pos hbracket]
    obtain ⟨before, after, rfl, hbefore⟩ := List.eq_append_cons_of_mem hbracket
    rw [List.append_assoc, List.cons_append] at h ⊢
    rw [jsonArray_bracket hbefore, Option.bind_some, loads_cut h hbefore]
  · rw [if_neg hbracket, jsonArray_bracket hbracket, Option.bind_some, h]

end Arrays

/-! ## The tags of a query -/

section Queries

variable (usageCount tie : Nat → Nat) (chat : Nat → String → Option String) {depth maxN : Nat}
  {t : TagTable} {kbId : Nat} {query : String}

theorem routeQueryToTags_cases (settings : Option KBTagSettings) :
    routeQueryToTags usageCount tie chat depth maxN settings t kbId query = [] ∨
    ∃ items, routeQueryToTags usageCount tie chat depth maxN settings t kbId query =
      routedItems (routeCanonicals usageCount tie t kbId) maxN [] [] items := by
  unfold routeQueryToTags
  split
  · dsimp only
    split
    · exact .inl rfl
    · split
      · exact .inl rfl
      · exact .inr ⟨_, rfl⟩
  · exact .inl rfl

theorem routeQueryToTags_enabled (hmax : 0 < maxN) {model : Nat} {rawText : String}
    (hchat : chat model (promptOf usageCount tie maxN t kbId query) = some rawText) :
    routeQueryToTags usageCount tie chat depth maxN
        (some { tagRoutingEnabled := true, autoTagLlmModelId := some model }) t kbId query =
      routedItems (routeCanonicals usageCount tie t kbId) maxN [] [] (extractJsonArray depth rawText) := by
  unfold routeQueryToTags
  dsimp only
  rw [hchat]
  split
  · next hcanonicals =>
      -- nothing is taken where there is no tag
      rw [hcanonicals, eq_comm, List.eq_nil_iff_forall_not_mem]
      intro tag htag
      exact List.not_mem_nil ((routedItems_sound hmax _).2.2 tag htag)
  · rfl

end Queries

/-- What is routed are active tags of the base, each once and no more than asked for. Of a reply that has
an array of strings nothing is taken where one of these is written with a closing bracket; and tags of the
base that are stripped, all different and no more than asked for are all taken if and only if none is. -/
theorem tags_routed_by_query (usageCount tie : Nat → Nat) (chat : Nat → String → Option String) (depth : Nat)
    {maxN : Nat} (hmax : 0 < maxN) (settings : Option KBTagSettings) (t : TagTable) (kbId : Nat)
    (query : String) :
    let out := routeQueryToTags usageCount tie chat (depth + 1) maxN settings t kbId query
    (out.Nodup ∧ out.length ≤ maxN ∧ ∀ tag ∈ out, ∃ r ∈ t.active kbId, r.canonical = tag) ∧
    ∀ (model : Nat) (pre body post : List Char) (strings : List String),
      settings = some { tagRoutingEnabled := true, autoTagLlmModelId := some model } →
      chat model (promptOf usageCount tie maxN t kbId query) =
        some (String.ofList (pre ++ '[' :: (body ++ ']' :: post))) →
      '[' ∉ pre →
      loads (depth + 1) (String.ofList ('[' :: (body ++ [']']))) =
        some (.arr (strings.map JsonValue.str)) →
      (']' ∈ body → out = []) ∧
        (strings.Nodup → strings.length ≤ maxN →
          (∀ tag ∈ strings, strip tag = tag ∧ tag ≠ "" ∧ ∃ r ∈ t.active kbId, r.canonical = tag) →
          (out = strings ↔ ']' ∉ body)) := by
  have hactive : ∀ tag, tag ∈ routeCanonicals usageCount tie t kbId ↔
      ∃ r ∈ t.active kbId, r.canonical = tag := by
    intro tag
    unfold routeCanonicals
    rw [List.mem_map]
    simp only [mem_orderBy]
  intro out
  constructor
  · have hout : out.Nodup ∧ out.length ≤ maxN ∧ ∀ tag ∈ out, tag ∈ routeCanonicals usageCount tie t kbId := by
      have hcases : out = [] ∨
          ∃ items, out = routedItems (routeCanonicals usageCount tie t kbId) maxN [] [] items :=
        routeQueryToTags_cases usageCount tie chat settings
      rcases hcases with hnone | ⟨items, hitems⟩
      · rw [hnone]
        exact ⟨List.nodup_nil, Nat.zero_le _, List.forall_mem_nil _⟩
      · rw [hitems]
        exact routedItems_sound hmax items
    exact ⟨hout.1, hout.2.1, fun tag htag => (hactive tag).1 (hout.2.2 tag htag)⟩
  · intro model pre body post strings hsettings hchat hpre hloads
    have hout : out = routedItems (routeCanonicals usageCount tie t kbId) maxN [] []
        (if ']' ∈ body then [] else strings.map JsonValue.str) := by
      change routeQueryToTags usageCount tie chat (depth + 1) maxN settings t kbId query = _
      rw [hsettings, routeQueryToTags_enabled _ _ _ hmax hchat, extractJsonArray_strings hpre hloads]
    have hcut : ']' ∈ body → out = [] := by
      intro hbracket
      rw [hout, if_pos hbracket]
      rfl
    refine ⟨hcut, fun hnodup hfew htags => ⟨fun hall hbracket => ?_, fun hbracket => ?_⟩⟩
    · rw [hcut hbracket] at hall
      subst hall
      exact notMem_of_loads_nil hloads hbracket
    · rw [hout, if_neg hbracket]
      refine routedItems_strings hnodup hfew fun tag htag => ?_
      obtain ⟨hstrip, hne, hrow⟩ := htags tag htag
      exact ⟨hstrip, hne, (hactive tag).2 hrow⟩

/-- A tag of a rack, with its place in brackets. -/
def rackTag : TagDictionary where
  id := 1
  kbId := 7
  canonical := "rack[3]"

def netTag : TagDictionary where
  id := 2
  kbId := 7
  canonical := "net"

def rackTags : TagTable := ⟨[rackTag, netTag], 3, by decide, by decide, by decide⟩

/-- What is routed where the model replies with this text. -/
def rackRouting (reply : String) : List String :=
  routeQueryToTags (fun _ => 0) (fun _ => 0) (fun _ _ => some reply) 1 5 (some ⟨true, some 4⟩) rackTags 7
    "rack 3"

/-- A tag on a line of its own is routed, and nothing where the tag with brackets is chosen too. -/
theorem tags_routed_by_query_rack : rackRouting "Tags:\n[\n  \"net\"\n]." = ["net"] ∧
    rackRouting "[\"net\",\"rack[3]\"]" = [] := by
  have hone : loads 1 (String.ofList ('[' :: ("\n  \"net\"\n".toList ++ [']']))) =
      some (.arr (["net"].map JsonValue.str)) := by rfl
  have htwo : loads 1 (String.ofList ('[' :: ("\"net\",\"rack[3]\"".toList ++ [']']))) =
      some (.arr (["net", "rack[3]"].map JsonValue.str)) := by rfl
  have hrow : netTag ∈ rackTags.active 7 := List.mem_filter.2 ⟨by simp [rackTags], by decide⟩
  have hnet := (tags_routed_by_query (fun _ => 0) (fun _ => 0) (fun _ _ => some "Tags:\n[\n  \"net\"\n].") 0
    (by decide : 0 < 5) (some ⟨true, some 4⟩) rackTags 7 "rack 3").2 4 "Tags:\n".toList _ ['.'] _ rfl rfl
    (by decide) hone
  have hrack := (tags_routed_by_query (fun _ => 0) (fun _ => 0) (fun _ _ => some "[\"net\",\"rack[3]\"]") 0
    (by decide : 0 < 5) (some ⟨true, some 4⟩) rackTags 7 "rack 3").2 4 [] _ [] _ rfl rfl
    (by decide) htwo
  refine ⟨(hnet.2 (by decide) (by decide) ?_).2 (by decide), hrack.1 (by decide)⟩
  intro tag htag
  cases List.mem_singleton.1 htag
  exact ⟨by decide, by decide, netTag, hrow, rfl⟩

end OpsKnowledge.Tagging
