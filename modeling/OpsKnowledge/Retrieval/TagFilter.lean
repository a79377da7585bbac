import Mathlib.Data.Finset.Max
import Mathlib.Data.List.Chain
import OpsKnowledge.Lib.Quoting
import OpsKnowledge.Retrieval.Searcher

/-!
# Tag filters as expressions

`_build_tag_filter_expr` writes the tags between quotes as they are. What an expression says
is up to Milvus, whose string literals escape quotes, backslashes and line breaks.
-/

namespace OpsKnowledge.Retrieval

open OpsKnowledge.Lib

/-! ## The expression -/

/-- `_quote_list` -/
def quoteList (xs : List String) : String :=
  "[" ++ ", ".intercalate ((xs.filter (· ≠ "")).map fun x => "\"" ++ x ++ "\"") ++ "]"

/-- The parts of a filter that are there, in this order. -/
def filterParts (tagFilter : TagFilter) : List String :=
  let part (keyword : String) (xs : List String) :=
    if xs.isEmpty then [] else [keyword ++ quoteList xs ++ ")"]
  part "array_contains_any(chunk_tags, " tagFilter.anyOf ++
    part "array_contains_all(chunk_tags, " tagFilter.allOf ++
    part "not array_contains_any(chunk_tags, " tagFilter.notIn

/-- `_build_tag_filter_expr` -/
def buildTagFilterExpr (tagFilter : TagFilter) : Option String :=
  let parts := filterParts tagFilter
  if parts.isEmpty then none else some (" and ".intercalate parts)

/-! ## The language -/

inductive TagMode
  | anyOf
  | allOf
  | notIn

namespace TagMode

def keyword : TagMode → String
  | anyOf => "array_contains_any(chunk_tags, "
  | allOf => "array_contains_all(chunk_tags, "
  | notIn => "not array_contains_any(chunk_tags, "

def holds (mode : TagMode) (tags chunkTags : List String) : Bool :=
  match mode with
  | anyOf => chunkTags.any (· ∈ tags)
  | allOf => tags.all (· ∈ chunkTags)
  | notIn => !chunkTags.any (· ∈ tags)

/-- The filter of one combination mode. -/
def filter (mode : TagMode) (tags : List String) : TagFilter :=
  match mode with
  | anyOf => { anyOf := tags }
  | allOf => { allOf := tags }
  | notIn => { notIn := tags }

end TagMode

structure TagClause where
  mode : TagMode
  tags : List String

namespace TagClause

def holds (clause : TagClause) (chunkTags : List String) : Bool := clause.mode.holds clause.tags chunkTags

/-- A clause whose tags are written as literals. -/
def text (clause : TagClause) : List Char :=
  clause.mode.keyword.toList ++
    '[' :: ([',', ' '].intercalate (clause.tags.map fun tag => literal tag.toList) ++ [']', ')'])

end TagClause

def clausesText (clauses : List TagClause) : List Char :=
  [' ', 'a', 'n', 'd', ' '].intercalate (clauses.map TagClause.text)

/-- The filter expressions of Milvus and what they say of the tags of a row; `none` for a text that is
rejected. -/
structure FilterLanguage where
  denote : String → Option (List String → Bool)
  denote_clauses : ∀ clauses, clauses ≠ [] →
    denote (String.ofList (clausesText clauses)) = some fun chunkTags => clauses.all (·.holds chunkTags)

/-- The expression of a filter denotes the filter. -/
def DenotesFilter (tagFilter : TagFilter) : Prop :=
  ∀ language : FilterLanguage, match buildTagFilterExpr tagFilter with
    | none => ∀ chunkTags, tagFilter.admits chunkTags = true
    | some expr => language.denote expr = some tagFilter.admits

/-- Without quotes, backslashes and line breaks. -/
def PlainTag (tag : String) : Prop := ∀ c ∈ tag.toList, ¬ IsSpecial c

/-! ## Clauses are read in one way -/

theorem tagLiteral_prefixFree : PrefixFree fun tag : String => literal tag.toList := by
  intro a b r s h
  obtain ⟨heq, hrest⟩ := literal_prefixFree h
  exact ⟨String.toList_inj.1 heq, hrest⟩

theorem tagList_inj {xs ys : List String} {r s : List Char}
    (h : [',', ' '].intercalate (xs.map fun tag => literal tag.toList) ++ ']' :: r =
      [',', ' '].intercalate (ys.map fun tag => literal tag.toList) ++ ']' :: s) : xs = ys ∧ r = s := by
  have hquote : ∀ (y : String) (ys : List String) (u : List Char), ∃ v,
      [',', ' '].intercalate ((y :: ys).map fun tag => literal tag.toList) ++ u = '"' :: v := by
    intro y ys u
    exact ⟨_, by rw [List.map_cons, literal, List.intercalate_cons_cons_left, List.cons_append]⟩
  cases xs with
  | nil =>
      cases ys with
      | nil => exact ⟨rfl, List.tail_eq_of_cons_eq h⟩
      | cons y ys =>
          obtain ⟨v, hv⟩ := hquote y ys (']' :: s)
          rw [hv] at h
          exact absurd (List.cons.inj h).1 (by decide)
  | cons x xs =>
      cases ys with
      | nil =>
          obtain ⟨v, hv⟩ := hquote x xs (']' :: r)
          rw [hv] at h
          exact absurd (List.cons.inj h).1 (by decide)
      | cons y ys =>
          obtain ⟨heq, hrest⟩ := tagLiteral_prefixFree.intercalate_inj (List.cons_ne_nil x xs)
            (List.cons_ne_nil y ys) (by simp) (by simp) h
          exact ⟨heq, List.tail_eq_of_cons_eq hrest⟩

theorem keyword_prefixFree : PrefixFree fun mode : TagMode => mode.keyword.toList ++ ['['] := by
  intro a b r s h
  have hany : TagMode.anyOf.keyword.toList =
      "array_contains_a".toList ++ 'n' :: "y(chunk_tags, ".toList := rfl
  have hall : TagMode.allOf.keyword.toList =
      "array_contains_a".toList ++ 'l' :: "l(chunk_tags, ".toList := rfl
  have hnot : TagMode.notIn.keyword.toList = 'n' :: "ot array_contains_any(chunk_tags, ".toList := rfl
  have hstart : "array_contains_a".toList = 'a' :: "rray_contains_a".toList := rfl
  cases a <;> cases b <;> simp_all

theorem clause_prefixFree : PrefixFree TagClause.text := by
  intro a b r s h
  have hshape : ∀ (clause : TagClause) (u : List Char), clause.text ++ u =
      (clause.mode.keyword.toList ++ ['[']) ++
        ([',', ' '].intercalate (clause.tags.map fun tag => literal tag.toList) ++ ']' :: ')' :: u) := by
    intro clause u
    simp [TagClause.text]
  rw [hshape, hshape] at h
  obtain ⟨hmode, hrest⟩ := keyword_prefixFree h
  obtain ⟨htags, hafter⟩ := tagList_inj hrest
  refine ⟨?_, List.tail_eq_of_cons_eq hafter⟩
  cases a
  cases b
  cases hmode
  cases htags
  rfl

theorem clausesText_inj {as bs : List TagClause} (has : as ≠ []) (hbs : bs ≠ [])
    (h : clausesText as = clausesText bs) : as = bs := by
  have h' : clausesText as ++ [] = clausesText bs ++ [] := by rw [h]
  exact (clause_prefixFree.intercalate_inj has hbs (by simp) (by simp) h').1

open Classical in
/-- The language of nothing but clauses with literals. -/
noncomputable def clauseLanguage : FilterLanguage where
  denote expr :=
    if h : ∃ clauses, clauses ≠ [] ∧ expr.toList = clausesText clauses then
      some fun chunkTags => h.choose.all (·.holds chunkTags)
    else none
  denote_clauses := by
    intro clauses hne
    have h : ∃ cs, cs ≠ [] ∧ (String.ofList (clausesText clauses)).toList = clausesText cs :=
      ⟨clauses, hne, String.toList_ofList⟩
    have hsame : clauses = h.choose :=
      clausesText_inj hne h.choose_spec.1 (String.toList_ofList.symm.trans h.choose_spec.2)
    rw [dif_pos h]
    congr 1
    funext chunkTags
    exact congrArg (fun cs : List TagClause => cs.all (·.holds chunkTags)) hsame.symm

theorem exists_clauses_of_denote {expr : String} {p : List String → Bool}
    (h : clauseLanguage.denote expr = some p) :
    ∃ clauses, expr.toList = clausesText clauses ∧ p = fun chunkTags => clauses.all (·.holds chunkTags) := by
  unfold clauseLanguage at h
  dsimp only at h
  split at h
  · next hex =>
      cases h
      exact ⟨hex.choose, hex.choose_spec.2, rfl⟩
  · cases h

/-! ## Plain tags -/

theorem quoteList_toList (xs : List String) : (quoteList xs).toList =
    '[' :: (quotedItems ((xs.filter (· ≠ "")).map String.toList) ++ [']']) := by
  have hbrackets : "[".toList = ['['] ∧ "]".toList = [']'] ∧ "\"".toList = ['"'] ∧
      ", ".toList = [',', ' '] := by decide
  obtain ⟨hopen, hclose, hquote, hsep⟩ := hbrackets
  unfold quoteList quotedItems
  rw [String.toList_append, String.toList_append, String.toList_intercalate, hopen, hclose, hsep,
    List.map_map, List.map_map]
  have hitem : (String.toList ∘ fun x => "\"" ++ x ++ "\"") =
      (fun text => '"' :: (text ++ ['"'])) ∘ String.toList := by
    funext x
    simp [hquote]
  rw [hitem]
  rfl

theorem clause_of_plain {mode : TagMode} {xs : List String} (h : ∀ tag ∈ xs, PlainTag tag) :
    mode.keyword ++ quoteList xs ++ ")" =
      String.ofList (TagClause.text ⟨mode, xs.filter (· ≠ "")⟩) := by
  have hitems : ((xs.filter (· ≠ "")).map String.toList).map (fun text => '"' :: (text ++ ['"'])) =
      (xs.filter (· ≠ "")).map fun tag => literal tag.toList := by
    rw [List.map_map]
    apply List.map_congr_left
    intro tag htag
    show '"' :: (tag.toList ++ ['"']) = literal tag.toList
    rw [literal, escape_of_not_special (h tag (List.mem_of_mem_filter htag))]
  apply String.toList_inj.1
  rw [String.toList_append, String.toList_append, quoteList_toList, String.toList_ofList,
    String.toList_ofList, TagClause.text, quotedItems, hitems]
  simp

def PlainFilter (f : TagFilter) : Prop := ∀ tag ∈ f.anyOf ++ f.allOf ++ f.notIn, PlainTag tag

def clauseOf (mode : TagMode) (xs : List String) : List TagClause :=
  if xs.isEmpty then [] else [⟨mode, xs.filter (· ≠ "")⟩]

/-- The clauses of a filter. -/
def clausesOf (f : TagFilter) : List TagClause :=
  clauseOf .anyOf f.anyOf ++ clauseOf .allOf f.allOf ++ clauseOf .notIn f.notIn

theorem clausesOf_holds (f : TagFilter) :
    (fun chunkTags => (clausesOf f).all (·.holds chunkTags)) = f.admits := by
  funext chunkTags
  have hclause : ∀ mode xs, (clauseOf mode xs).all (·.holds chunkTags) =
      (xs.isEmpty || mode.holds (xs.filter (· ≠ "")) chunkTags) := by
    intro mode xs
    unfold clauseOf
    split
    · next hnil => simp [hnil]
    · next hne => simp [hne, TagClause.holds]
  unfold clausesOf TagFilter.admits
  rw [List.all_append, List.all_append, hclause, hclause, hclause]
  cases f.allOf <;> cases f.notIn <;> simp [TagMode.holds]

theorem filterParts_of_plain {f : TagFilter} (h : PlainFilter f) :
    filterParts f = (clausesOf f).map fun clause => String.ofList clause.text := by
  have hpart : ∀ mode xs, (∀ tag ∈ xs, PlainTag tag) →
      (if xs.isEmpty then [] else [TagMode.keyword mode ++ quoteList xs ++ ")"]) =
        (clauseOf mode xs).map fun clause => String.ofList clause.text := by
    intro mode xs hxs
    unfold clauseOf
    split
    · rfl
    · rw [clause_of_plain hxs]
      rfl
  have hany := hpart .anyOf f.anyOf fun tag htag => h tag (by simp [htag])
  have hall := hpart .allOf f.allOf fun tag htag => h tag (by simp [htag])
  have hnot := hpart .notIn f.notIn fun tag htag => h tag (by simp [htag])
  unfold clausesOf
  rw [List.map_append, List.map_append, ← hany, ← hall, ← hnot]
  rfl

theorem buildTagFilterExpr_of_plain {f : TagFilter} (h : PlainFilter f) :
    buildTagFilterExpr f =
      if (clausesOf f).isEmpty then none else some (String.ofList (clausesText (clausesOf f))) := by
  unfold buildTagFilterExpr
  rw [filterParts_of_plain h]
  dsimp only
  rw [List.isEmpty_map]
  split
  · rfl
  · congr 1
    apply String.toList_inj.1
    rw [String.toList_intercalate, List.map_map, String.toList_ofList, clausesText]
    have htexts : (String.toList ∘ fun clause : TagClause => String.ofList clause.text) = TagClause.text :=
      funext fun clause => String.toList_ofList
    rw [htexts]
    exact String.toList_ofList.symm

/-- The three modes in any combination, of tags with nothing to escape. -/
theorem denotesFilter_of_plain {f : TagFilter} (h : PlainFilter f) : DenotesFilter f := by
  intro language
  rw [buildTagFilterExpr_of_plain h]
  have hholds := clausesOf_holds f
  split
  · next hnone =>
      intro chunkTags
      have hempty : clausesOf f = [] := by simpa using hnone
      rw [← hholds, hempty]
      rfl
  · next expr hsome =>
      have hne : clausesOf f ≠ [] := by
        intro hnil
        rw [hnil] at hsome
        cases hsome
      rw [if_neg (by simpa using hne)] at hsome
      cases hsome
      rw [language.denote_clauses _ hne, hholds]

/-! ## Tags that an expression names -/

theorem TagMode.holds_congr {mode : TagMode} {tags row row' : List String}
    (h : ∀ tag ∈ tags, tag ∈ row ↔ tag ∈ row') : mode.holds tags row = mode.holds tags row' := by
  have hany : row.any (· ∈ tags) = row'.any (· ∈ tags) := by
    rw [Bool.eq_iff_iff, List.any_eq_true, List.any_eq_true]
    constructor
    · rintro ⟨tag, hrow, htag⟩
      exact ⟨tag, (h tag (of_decide_eq_true htag)).1 hrow, htag⟩
    · rintro ⟨tag, hrow, htag⟩
      exact ⟨tag, (h tag (of_decide_eq_true htag)).2 hrow, htag⟩
  cases mode with
  | anyOf => exact hany
  | notIn => exact congrArg not hany
  | allOf =>
      unfold TagMode.holds
      dsimp only
      rw [Bool.eq_iff_iff, List.all_eq_true, List.all_eq_true]
      constructor
      · intro hall tag htag
        exact decide_eq_true ((h tag htag).1 (of_decide_eq_true (hall tag htag)))
      · intro hall tag htag
        exact decide_eq_true ((h tag htag).2 (of_decide_eq_true (hall tag htag)))

/-- Whether a row passes depends on each tag of the filter. -/
theorem exists_rows (mode : TagMode) {tags : List String} {tag : String} (htag : tag ∈ tags)
    (hne : tag ≠ "") : ∃ row row', (∀ other, other ≠ tag → (other ∈ row ↔ other ∈ row')) ∧
      (mode.filter tags).admits row ≠ (mode.filter tags).admits row' := by
  have hnil : tags.isEmpty = false := by
    cases tags with
    | nil => cases htag
    | cons _ _ => rfl
  cases mode with
  | anyOf =>
      refine ⟨[tag], [], by simp, ?_⟩
      simp [TagMode.filter, TagFilter.admits, hnil, htag, hne]
  | allOf =>
      refine ⟨tags, tags.filter (· ≠ tag), ?_, ?_⟩
      · intro other hother
        simp [hother]
      · have htrue : (TagMode.filter .allOf tags).admits tags = true := by
          simp [TagMode.filter, TagFilter.admits]
          tauto
        have hfalse : (TagMode.filter .allOf tags).admits (tags.filter (· ≠ tag)) = false := by
          simp [TagMode.filter, TagFilter.admits]
          exact ⟨tag, htag, hne, by simp⟩
        rw [htrue, hfalse]
        decide
  | notIn =>
      refine ⟨[tag], [], by simp, ?_⟩
      simp [TagMode.filter, TagFilter.admits, htag, hne]

/-- A tag that the truth depends on is a literal of a clause, and so its escaped form is in the text. -/
theorem escape_infix_clausesText {clauses : List TagClause} {tag : String} {row row' : List String}
    (hrows : ∀ other, other ≠ tag → (other ∈ row ↔ other ∈ row'))
    (hne : clauses.all (·.holds row) ≠ clauses.all (·.holds row')) :
    escape tag.toList <:+: clausesText clauses := by
  have hex : ∃ clause ∈ clauses, tag ∈ clause.tags := by
    by_contra hnone
    apply hne
    rw [Bool.eq_iff_iff, List.all_eq_true, List.all_eq_true]
    have hsame : ∀ clause ∈ clauses, clause.holds row = clause.holds row' := by
      intro clause hclause
      apply TagMode.holds_congr
      intro other hother
      apply hrows
      rintro rfl
      exact hnone ⟨clause, hclause, hother⟩
    constructor
    · intro hall clause hclause
      rw [← hsame clause hclause]
      exact hall clause hclause
    · intro hall clause hclause
      rw [hsame clause hclause]
      exact hall clause hclause
  obtain ⟨clause, hclause, htag⟩ := hex
  have hliteral : escape tag.toList <:+: literal tag.toList :=
    ⟨['"'], ['"'], rfl⟩
  have htags : literal tag.toList <:+:
      [',', ' '].intercalate (clause.tags.map fun tag => literal tag.toList) :=
    infix_intercalate (List.mem_map_of_mem htag)
  have htext : [',', ' '].intercalate (clause.tags.map fun tag => literal tag.toList) <:+: clause.text :=
    ⟨clause.mode.keyword.toList ++ ['['], [']', ')'], by simp [TagClause.text]⟩
  exact hliteral.trans (htags.trans (htext.trans (infix_intercalate (List.mem_map_of_mem hclause))))

theorem buildTagFilterExpr_filter (mode : TagMode) {tags : List String} (hne : tags ≠ []) :
    buildTagFilterExpr (mode.filter tags) = some (mode.keyword ++ quoteList tags ++ ")") := by
  cases tags with
  | nil => exact absurd rfl hne
  | cons tag tags => cases mode <;> rfl

theorem plain_of_denotesFilter {mode : TagMode} {tags : List String}
    (h : DenotesFilter (mode.filter tags)) : ∀ tag ∈ tags, PlainTag tag := by
  intro tag htag
  have hdenote := h clauseLanguage
  rw [buildTagFilterExpr_filter mode (List.ne_nil_of_mem htag)] at hdenote
  obtain ⟨clauses, htext, hadmits⟩ := exists_clauses_of_denote hdenote
  have hshape : (mode.keyword ++ quoteList tags ++ ")").toList = (mode.keyword.toList ++ ['[']) ++
      (quotedItems ((tags.filter (· ≠ "")).map String.toList) ++ [']', ')']) := by
    rw [String.toList_append, String.toList_append, quoteList_toList, String.toList_ofList]
    simp
  have hinfix : ∀ t ∈ (tags.filter (· ≠ "")).map String.toList, escape t <:+:
      (mode.keyword.toList ++ ['[']) ++
        (quotedItems ((tags.filter (· ≠ "")).map String.toList) ++ [']', ')']) := by
    intro t ht
    obtain ⟨name, hname, rfl⟩ := List.mem_map.1 ht
    obtain ⟨hmem, hnonempty⟩ := List.mem_filter.1 hname
    obtain ⟨row, row', hrows, hdiffer⟩ := exists_rows mode hmem (of_decide_eq_true hnonempty)
    rw [hadmits] at hdiffer
    rw [← hshape, htext]
    exact escape_infix_clausesText hrows hdiffer
  have hkeyword : mode.keyword.toList.count '\\' = 0 := by cases mode <;> decide
  by_cases hempty : tag = ""
  · intro c hc
    rw [hempty] at hc
    cases hc
  · exact not_special_of_escape_infix hkeyword (by decide) (by decide) hinfix tag.toList
      (List.mem_map_of_mem (List.mem_filter.2 ⟨htag, decide_eq_true hempty⟩))

/-- The expression of one mode denotes the filter exactly when no tag has a character to escape. -/
theorem denotesFilter_iff_plain (mode : TagMode) (tags : List String) :
    DenotesFilter (mode.filter tags) ↔ ∀ tag ∈ tags, PlainTag tag := by
  constructor
  · exact plain_of_denotesFilter
  · intro h
    apply denotesFilter_of_plain
    intro tag htag
    apply h
    cases mode <;> simpa [TagMode.filter] using htag

/-- One tag that reads as two. -/
theorem quoted_tag_misread :
    ¬ ∀ (mode : TagMode) (tags : List String), DenotesFilter (mode.filter tags) := by
  intro h
  have hplain := plain_of_denotesFilter (h .anyOf ["a\", \"b"]) _ List.mem_cons_self
  exact hplain '"' (by decide) (.inl rfl)

example : buildTagFilterExpr { anyOf := ["a\", \"b"] } = buildTagFilterExpr { anyOf := ["a", "b"] } := by
  decide

end OpsKnowledge.Retrieval
