import OpsKnowledge.Workflow.Context

/-!
# Substitution in a single pass

What the placeholders of a template are, and when the two passes of `resolve_template` amount
to one: the result is the template with the values of its own placeholders, and no other
variable is read.
-/

namespace OpsKnowledge.Workflow

open OpsKnowledge.Lib

/-! ## The texts of placeholders -/

def nodeText (before node path after : List Char) : List Char :=
  '{' :: '{' :: '#' :: (before ++ (node ++ '.' :: (path ++ (after ++ ['#', '}', '}']))))

structure IsNodeText (before node path after : List Char) : Prop where
  before : ∀ c ∈ before, isSpace c
  node_ne : node ≠ []
  node : ∀ c ∈ node, isWord c
  path_ne : path ≠ []
  path : ∀ c ∈ path, isPathChar c
  after : ∀ c ∈ after, isSpace c

def varText (before path after : List Char) : List Char :=
  '{' :: '{' :: (before ++ (['v', 'a', 'r', 's', '.'] ++ (path ++ (after ++ ['}', '}']))))

structure IsVarText (before path after : List Char) : Prop where
  before : ∀ c ∈ before, isSpace c
  start : path.head?.any isVarStart
  path : ∀ c ∈ path, isVarChar c
  after : ∀ c ∈ after, isSpace c

/-! ## Characters -/

theorem toNat_of_isWord {c : Char} (h : isWord c) : 48 ≤ c.toNat ∧ c.toNat ≤ 57 ∨
    65 ≤ c.toNat ∧ c.toNat ≤ 90 ∨ c.toNat = 95 ∨ 97 ≤ c.toNat ∧ c.toNat ≤ 122 := by
  have halphanum : c.isAlphanum = (c.isUpper || c.isLower || c.isDigit) := rfl
  have hupper : c.isUpper = decide (65 ≤ c.val ∧ c.val ≤ 90) := rfl
  have hlower : c.isLower = (decide (97 ≤ c.val) && decide (c.val ≤ 122)) := rfl
  have hdigit : c.isDigit = (decide (48 ≤ c.val) && decide (c.val ≤ 57)) := rfl
  unfold isWord at h
  rw [halphanum, hupper, hlower, hdigit] at h
  simp only [Bool.or_eq_true, Bool.and_eq_true, decide_eq_true_eq, UInt32.le_iff_toNat_le] at h
  rcases h with ((h | h) | h) | rfl
  · right; left
    exact ⟨h.1, h.2⟩
  · right; right; right
    exact ⟨h.1, h.2⟩
  · left
    exact ⟨h.1, h.2⟩
  · decide

theorem isSpace_of_isWord {c : Char} (h : isWord c) : isSpace c = false := by
  have hcases := toNat_of_isWord h
  unfold isSpace
  simp only [Bool.or_eq_false_iff, Bool.and_eq_false_iff, decide_eq_false_iff_not]
  omega

theorem isPathChar_of_isSpace {c : Char} (h : isSpace c) : isPathChar c = false := by
  have hword : isWord c = false := by
    by_contra hword
    rw [isSpace_of_isWord (Bool.not_eq_false _ ▸ hword)] at h
    cases h
  unfold isPathChar
  rw [hword]
  simp only [Bool.false_or, Bool.or_eq_false_iff, decide_eq_false_iff_not]
  refine ⟨⟨?_, ?_⟩, ?_⟩ <;> rintro rfl <;> exact absurd h (by decide)

theorem isVarChar_of_isSpace {c : Char} (h : isSpace c) : isVarChar c = false := by
  have hpath := isPathChar_of_isSpace h
  unfold isPathChar at hpath
  unfold isVarChar
  simp only [Bool.or_eq_false_iff] at hpath ⊢
  exact hpath.1.1

/-! ## What the patterns match -/

variable {before node path after s r : List Char} {m : List Char × List Char}

/-- The head of a text that begins with a run, and goes on otherwise. -/
theorem head_append_of_forall {p q : Char → Bool} {xs ys : List Char} (hxs : ∀ c ∈ xs, p c)
    (hpq : ∀ c, p c → q c = false) (hys : ∀ c, ys.head? = some c → q c = false) :
    ∀ c, (xs ++ ys).head? = some c → q c = false := by
  cases xs with
  | nil => exact hys
  | cons x xs =>
      intro c hc
      cases hc
      exact hpq _ (hxs _ List.mem_cons_self)

theorem nodePlaceholder_nodeText (h : IsNodeText before node path after) :
    nodePlaceholder (nodeText before node path after ++ r) = some ((node, path), r) := by
  have htext : nodeText before node path after ++ r =
      ['{', '{', '#'] ++ (before ++ (node ++ (['.'] ++ (path ++ (after ++ (['#', '}', '}'] ++ r)))))) := by
    simp [nodeText]
  have hbefore : ∀ c, (node ++ (['.'] ++ (path ++ (after ++ (['#', '}', '}'] ++ r))))).head? = some c →
      isSpace c = false := by
    obtain ⟨x, xs, rfl⟩ := List.exists_cons_of_ne_nil h.node_ne
    intro c hc
    cases hc
    exact isSpace_of_isWord (h.node _ List.mem_cons_self)
  have hnode : ∀ c, (['.'] ++ (path ++ (after ++ (['#', '}', '}'] ++ r)))).head? = some c →
      isWord c = false := by
    intro c hc
    cases hc
    decide
  have hafter : ∀ c, (['#', '}', '}'] ++ r).head? = some c → isSpace c = false := by
    intro c hc
    cases hc
    decide
  have hpath : ∀ c, (after ++ (['#', '}', '}'] ++ r)).head? = some c → isPathChar c = false := by
    apply head_append_of_forall h.after (fun c => isPathChar_of_isSpace)
    intro c hc
    cases hc
    decide
  unfold nodePlaceholder
  rw [htext, expect_eq_some.2 rfl]
  dsimp only [Option.bind_eq_bind, Option.bind_some]
  rw [dropWhile_append_of_boundary h.before hbefore, takeWhile_append_of_boundary h.node hnode,
    dropWhile_append_of_boundary h.node hnode, expect_eq_some.2 rfl]
  dsimp only [Option.bind_some]
  rw [takeWhile_append_of_boundary h.path hpath, dropWhile_append_of_boundary h.path hpath,
    dropWhile_append_of_boundary h.after hafter, expect_eq_some.2 rfl]
  dsimp only [Option.bind_some]
  rw [if_neg (by simp [h.node_ne, h.path_ne])]

theorem nodePlaceholder_eq_some : nodePlaceholder s = some (m, r) ↔ ∃ before after,
    IsNodeText before m.1 m.2 after ∧ s = nodeText before m.1 m.2 after ++ r := by
  constructor
  · intro h
    unfold nodePlaceholder at h
    obtain ⟨s₁, hs₁, h⟩ := Option.bind_eq_some_iff.1 h
    obtain ⟨s₂, hs₂, h⟩ := Option.bind_eq_some_iff.1 h
    obtain ⟨s₃, hs₃, h⟩ := Option.bind_eq_some_iff.1 h
    have hopen := expect_eq_some.1 hs₁
    have hdot := expect_eq_some.1 hs₂
    have hclose := expect_eq_some.1 hs₃
    split at h
    · cases h
    · next hne =>
        cases h
        refine ⟨s₁.takeWhile isSpace, (s₂.dropWhile isPathChar).takeWhile isSpace, ?_, ?_⟩
        · constructor
          · exact fun c hc => List.mem_takeWhile_imp hc
          · exact fun hnil => hne (.inl hnil)
          · exact fun c hc => List.mem_takeWhile_imp hc
          · exact fun hnil => hne (.inr hnil)
          · exact fun c hc => List.mem_takeWhile_imp hc
          · exact fun c hc => List.mem_takeWhile_imp hc
        · have hpath : s₂.takeWhile isPathChar ++
              ((s₂.dropWhile isPathChar).takeWhile isSpace ++ (['#', '}', '}'] ++ r)) = s₂ := by
            rw [← hclose, List.takeWhile_append_dropWhile, List.takeWhile_append_dropWhile]
          have hnode : s₁.takeWhile isSpace ++
              ((s₁.dropWhile isSpace).takeWhile isWord ++ (['.'] ++ s₂)) = s₁ := by
            rw [← hdot, List.takeWhile_append_dropWhile, List.takeWhile_append_dropWhile]
          have htext : s₁ = s₁.takeWhile isSpace ++ ((s₁.dropWhile isSpace).takeWhile isWord ++ (['.'] ++
              (s₂.takeWhile isPathChar ++
                ((s₂.dropWhile isPathChar).takeWhile isSpace ++ (['#', '}', '}'] ++ r))))) := by
            rw [hpath]
            exact hnode.symm
          refine (hopen.trans (congrArg (['{', '{', '#'] ++ ·) htext)).trans ?_
          simp [nodeText]
  · rintro ⟨before, after, htext, rfl⟩
    exact nodePlaceholder_nodeText htext

theorem varPlaceholder_varText (h : IsVarText before path after) :
    varPlaceholder (varText before path after ++ r) = some (path, r) := by
  have htext : varText before path after ++ r =
      ['{', '{'] ++ (before ++ (['v', 'a', 'r', 's', '.'] ++ (path ++ (after ++ (['}', '}'] ++ r))))) := by
    simp [varText]
  have hbefore : ∀ c, (['v', 'a', 'r', 's', '.'] ++ (path ++ (after ++ (['}', '}'] ++ r)))).head? = some c →
      isSpace c = false := by
    intro c hc
    cases hc
    decide
  have hafter : ∀ c, (['}', '}'] ++ r).head? = some c → isSpace c = false := by
    intro c hc
    cases hc
    decide
  have hpath : ∀ c, (after ++ (['}', '}'] ++ r)).head? = some c → isVarChar c = false := by
    apply head_append_of_forall h.after (fun c => isVarChar_of_isSpace)
    intro c hc
    cases hc
    decide
  unfold varPlaceholder
  rw [htext, expect_eq_some.2 rfl]
  dsimp only [Option.bind_eq_bind, Option.bind_some]
  rw [dropWhile_append_of_boundary h.before hbefore, expect_eq_some.2 rfl]
  dsimp only [Option.bind_some]
  rw [takeWhile_append_of_boundary h.path hpath, dropWhile_append_of_boundary h.path hpath,
    dropWhile_append_of_boundary h.after hafter, expect_eq_some.2 rfl]
  dsimp only [Option.bind_some]
  rw [if_pos h.start]

theorem varPlaceholder_eq_some : varPlaceholder s = some (path, r) ↔ ∃ before after,
    IsVarText before path after ∧ s = varText before path after ++ r := by
  constructor
  · intro h
    unfold varPlaceholder at h
    obtain ⟨s₁, hs₁, h⟩ := Option.bind_eq_some_iff.1 h
    obtain ⟨s₂, hs₂, h⟩ := Option.bind_eq_some_iff.1 h
    obtain ⟨s₃, hs₃, h⟩ := Option.bind_eq_some_iff.1 h
    have hopen := expect_eq_some.1 hs₁
    have hvars := expect_eq_some.1 hs₂
    have hclose := expect_eq_some.1 hs₃
    split at h
    · next hstart =>
        cases h
        refine ⟨s₁.takeWhile isSpace, (s₂.dropWhile isVarChar).takeWhile isSpace, ?_, ?_⟩
        · constructor
          · exact fun c hc => List.mem_takeWhile_imp hc
          · exact hstart
          · exact fun c hc => List.mem_takeWhile_imp hc
          · exact fun c hc => List.mem_takeWhile_imp hc
        · have hpath : s₂.takeWhile isVarChar ++
              ((s₂.dropWhile isVarChar).takeWhile isSpace ++ (['}', '}'] ++ r)) = s₂ := by
            rw [← hclose, List.takeWhile_append_dropWhile, List.takeWhile_append_dropWhile]
          have hbefore : s₁.takeWhile isSpace ++ (['v', 'a', 'r', 's', '.'] ++ s₂) = s₁ := by
            rw [← hvars, List.takeWhile_append_dropWhile]
          have htext : s₁ = s₁.takeWhile isSpace ++ (['v', 'a', 'r', 's', '.'] ++
              (s₂.takeWhile isVarChar ++
                ((s₂.dropWhile isVarChar).takeWhile isSpace ++ (['}', '}'] ++ r)))) := by
            rw [hpath]
            exact hbefore.symm
          refine (hopen.trans (congrArg (['{', '{'] ++ ·) htext)).trans ?_
          simp [varText]
    · cases h
  · rintro ⟨before, after, htext, rfl⟩
    exact varPlaceholder_varText htext

/-! ## No overlap -/

theorem opened_nodePlaceholder : nodePlaceholder.Opened '{' := by
  intro s m r h
  obtain ⟨before, after, htext, rfl⟩ := nodePlaceholder_eq_some.1 h
  refine ⟨'#' :: (before ++ (m.1 ++ '.' :: (m.2 ++ (after ++ ['#', '}', '}'])))), List.cons_ne_nil _ _, ?_,
    rfl, fun r' => nodePlaceholder_nodeText htext⟩
  intro hbrace
  have hnode : '{' ∉ m.1 := fun hmem => absurd (htext.node _ hmem) (by decide)
  have hpath : '{' ∉ m.2 := fun hmem => absurd (htext.path _ hmem) (by decide)
  have hbefore : '{' ∉ before := fun hmem => absurd (htext.before _ hmem) (by decide)
  have hafter : '{' ∉ after := fun hmem => absurd (htext.after _ hmem) (by decide)
  simp [hnode, hpath, hbefore, hafter] at hbrace

theorem opened_varPlaceholder : varPlaceholder.Opened '{' := by
  intro s path r h
  obtain ⟨before, after, htext, rfl⟩ := varPlaceholder_eq_some.1 h
  refine ⟨before ++ (['v', 'a', 'r', 's', '.'] ++ (path ++ (after ++ ['}', '}']))), by simp, ?_, rfl,
    fun r' => varPlaceholder_varText htext⟩
  intro hbrace
  have hpath : '{' ∉ path := fun hmem => absurd (htext.path _ hmem) (by decide)
  have hbefore : '{' ∉ before := fun hmem => absurd (htext.before _ hmem) (by decide)
  have hafter : '{' ∉ after := fun hmem => absurd (htext.after _ hmem) (by decide)
  simp [hpath, hbefore, hafter] at hbrace

theorem varPlaceholder_of_hash {t : List Char} : varPlaceholder ('{' :: '{' :: '#' :: t) = none := by
  by_contra hsome
  obtain ⟨⟨path, r⟩, hfound⟩ := Option.ne_none_iff_exists'.1 hsome
  obtain ⟨before, after, htext, hsplit⟩ := varPlaceholder_eq_some.1 hfound
  have hthird := (List.cons.inj (List.cons.inj hsplit).2).2
  cases before with
  | nil => cases (List.cons.inj hthird).1
  | cons c before =>
      have hc : isSpace '#' := (List.cons.inj hthird).1 ▸ htext.before _ List.mem_cons_self
      exact absurd hc (by decide)

theorem varPlaceholder_of_nodePlaceholder (h : nodePlaceholder s ≠ none) : varPlaceholder s = none := by
  obtain ⟨⟨m, r⟩, hfound⟩ := Option.ne_none_iff_exists'.1 h
  obtain ⟨before, after, -, rfl⟩ := nodePlaceholder_eq_some.1 hfound
  exact varPlaceholder_of_hash

theorem apart_placeholders : Pattern.Apart nodePlaceholder varPlaceholder :=
  Pattern.apart_of_opened opened_nodePlaceholder opened_varPlaceholder
    fun _ => varPlaceholder_of_nodePlaceholder

/-! ## Two passes and one -/

section Passes

variable (u : Unicode) (ctx : ExecutionContext) (text : String)

/-- Each placeholder of the template replaced by its value. -/
def substituteOnce : Except SelectorError String :=
  ((nodePlaceholder.either varPlaceholder).sub (Sum.elim (nodeSub u ctx) (varSub u ctx)) text.toList).map
    String.ofList

/-- The variables that the second pass asks for. -/
def readVariables : List (List Char) :=
  match nodePass u ctx text.toList with
  | .ok filled => varPlaceholder.holes filled
  | .error _ => []

structure SinglePass : Prop where
  result : (resolveTemplate u ctx text).toOption = (substituteOnce u ctx text).toOption
  reads : ∀ result, resolveTemplate u ctx text = .ok result →
    readVariables u ctx text = varPlaceholder.holes text.toList

variable {u ctx text}

theorem toOption_of_not_toBool {ε α : Type} {x : Except ε α} (h : ¬ x.toBool) : x.toOption = none := by
  cases x with
  | error e => rfl
  | ok a => exact absurd rfl h

theorem exists_of_toBool {ε α : Type} {x : Except ε α} (h : x.toBool) : ∃ a, x = .ok a := by
  cases x with
  | error e => cases h
  | ok a => exact ⟨a, rfl⟩

theorem eq_ok_of_toOption {ε α : Type} {x : Except ε α} {a : α} (h : x.toOption = some a) : x = .ok a := by
  cases x with
  | error e => cases h
  | ok b => exact congrArg Except.ok (Option.some.inj h)

theorem resolveTemplate_of_ok {filled : List Char} (h : nodePass u ctx text.toList = .ok filled) :
    resolveTemplate u ctx text = (varPass u ctx filled).map String.ofList := by
  unfold resolveTemplate
  rw [h]
  show varPass u ctx filled >>= _ = _
  cases varPass u ctx filled with
  | error e => rfl
  | ok t => rfl

theorem resolveTemplate_of_error {e : SelectorError} (h : nodePass u ctx text.toList = .error e) :
    resolveTemplate u ctx text = .error e := by
  unfold resolveTemplate
  rw [h]
  rfl

theorem isOk_substituteOnce_iff : (substituteOnce u ctx text).toBool ↔
    (nodePass u ctx text.toList).toBool ∧
      ∀ v ∈ varPlaceholder.holes text.toList, (varSub u ctx v).toBool := by
  have hboth := apart_placeholders.isOk_sub_either_iff (f := nodeSub u ctx) (g := varSub u ctx) text.toList
  unfold substituteOnce nodePass
  rw [← hboth]
  cases (nodePlaceholder.either varPlaceholder).sub (Sum.elim (nodeSub u ctx) (varSub u ctx)) text.toList with
  | error e => rfl
  | ok t => rfl

theorem singlePass_of_raises (htemplate : ¬ (resolveTemplate u ctx text).toBool)
    (honce : ¬ (substituteOnce u ctx text).toBool) : SinglePass u ctx text := by
  constructor
  · rw [toOption_of_not_toBool htemplate, toOption_of_not_toBool honce]
  · intro result hresult
    exact absurd (by rw [hresult]; rfl) htemplate

/-- The two passes amount to one exactly when filling in the nodes of a template that resolves makes no
placeholder of a variable. -/
theorem singlePass_iff : SinglePass u ctx text ↔ ∀ filled, nodePass u ctx text.toList = .ok filled →
    (∀ v ∈ varPlaceholder.holes text.toList, (varSub u ctx v).toBool) →
      (varPlaceholder.holes filled).length = (varPlaceholder.holes text.toList).length := by
  cases hnode : nodePass u ctx text.toList with
  | error e =>
      constructor
      · intro _ filled hfilled
        cases hfilled
      · intro _
        have honce : ¬ (substituteOnce u ctx text).toBool := by
          rw [isOk_substituteOnce_iff, hnode]
          exact fun h => nomatch h.1
        apply singlePass_of_raises _ honce
        rw [resolveTemplate_of_error hnode]
        exact fun h => nomatch h
  | ok filled =>
      have hsub := apart_placeholders.sublist_holes_sub hnode
      by_cases hvars : ∀ v ∈ varPlaceholder.holes text.toList, (varSub u ctx v).toBool
      · have honce : (substituteOnce u ctx text).toBool := by
          rw [isOk_substituteOnce_iff, hnode]
          exact ⟨rfl, hvars⟩
        constructor
        · rintro h _ ⟨⟩ -
          obtain ⟨once, honce⟩ := exists_of_toBool honce
          have hresult : resolveTemplate u ctx text = .ok once := by
            apply eq_ok_of_toOption
            rw [h.result, honce]
            rfl
          have hreads := h.reads once hresult
          unfold readVariables at hreads
          rw [hnode] at hreads
          rw [← hreads]
        · intro h
          have hlength := h filled rfl hvars
          constructor
          · rw [resolveTemplate_of_ok hnode]
            unfold varPass substituteOnce
            rw [apart_placeholders.sub_sub hnode (Nat.le_of_eq hlength)]
          · intro _ _
            unfold readVariables
            rw [hnode]
            exact (hsub.eq_of_length hlength.symm).symm
      · constructor
        · intro _ _ _ hall
          exact absurd hall hvars
        · intro _
          have honce : ¬ (substituteOnce u ctx text).toBool := by
            rw [isOk_substituteOnce_iff]
            exact fun h => hvars h.2
          -- the variable that is missing is still asked for
          have hpass : ¬ (varPass u ctx filled).toBool := by
            unfold varPass
            rw [Pattern.isOk_sub_iff apart_placeholders.delimited_right]
            exact fun hall => hvars fun v hv => hall v (hsub.subset hv)
          have hresult : ¬ (resolveTemplate u ctx text).toBool := by
            rw [resolveTemplate_of_ok hnode]
            cases hvar : varPass u ctx filled with
            | error e => exact fun h => nomatch h
            | ok t => exact absurd (by rw [hvar]; rfl) hpass
          exact singlePass_of_raises hresult honce

/-- An output that looks like a variable is replaced by its value. -/
theorem output_read_as_variable :
    ¬ ∀ (u : Unicode) (ctx : ExecutionContext) (text : String), SinglePass u ctx text := by
  intro h
  have hresult := (h ⟨fun _ => none, fun _ => true⟩
    { workflowVariables := Dict.empty.set "secret" (.str "s3")
      nodeOutputs := Dict.empty.set "llm" (Dict.empty.set "text" (.str "\x7b\x7bvars.secret\x7d\x7d")) }
    "\x7b\x7b#llm.text#\x7d\x7d").result
  exact absurd hresult (by decide)

end Passes

end OpsKnowledge.Workflow
