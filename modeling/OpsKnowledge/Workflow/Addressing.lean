import OpsKnowledge.Workflow.Templates

/-!
# Templates and selectors

A placeholder of a template addresses the value that the selector with the same node and
fields addresses. It does for the ids and the fields that the pattern can read.
-/

namespace OpsKnowledge.Workflow

open OpsKnowledge.Lib

/-- The placeholder of a node's id and fields. -/
def placeholder (id : String) (path : List String) : String :=
  "\x7b\x7b#" ++ id ++ "." ++ ".".intercalate path ++ "#\x7d\x7d"

/-- The fields as the pattern sees them. -/
def joinPath (path : List String) : List Char := ['.'].intercalate (path.map String.toList)

/-- The id and the fields are of the characters of the pattern, with no dot inside a field, and the fields are
not a single empty one. -/
structure Addressable (id : String) (path : List String) : Prop where
  id_ne : id ≠ ""
  id : ∀ c ∈ id.toList, isWord c
  path_ne : path ≠ [""]
  path : ∀ field ∈ path, ∀ c ∈ field.toList, isPathChar c ∧ c ≠ '.'

variable (u : Unicode) (ctx : ExecutionContext) (id : String) (path : List String)

/-- The placeholder resolves to the text of what the selector resolves to, and raises where it raises. -/
def Agrees : Prop :=
  match resolveSelector u ctx (id :: path) with
  | .ok v => resolveTemplate u ctx (placeholder id path) = .ok (stringify u v)
  | .error _ => ∃ e, resolveTemplate u ctx (placeholder id path) = .error e

/-- The text of the addressed value has no placeholder of a variable. -/
def Inert : Prop :=
  ∀ v, resolveSelector u ctx (id :: path) = .ok v → varPlaceholder.holes (stringify u v).toList = []

variable {u ctx id path}

theorem toList_placeholder : (placeholder id path).toList = nodeText [] id.toList (joinPath path) [] := by
  simp [placeholder, joinPath, nodeText]

/-! ## Joining and splitting fields -/

theorem splitPath_joinPath (hne : path ≠ []) (hdot : ∀ field ∈ path, '.' ∉ field.toList) :
    splitPath (joinPath path) = path := by
  unfold splitPath joinPath
  rw [List.splitOn_intercalate]
  · simp [Function.comp_def]
  · intro l hl
    obtain ⟨field, hfield, rfl⟩ := List.mem_map.1 hl
    exact hdot field hfield
  · simpa using hne

theorem joinPath_splitPath (p : List Char) : joinPath (splitPath p) = p := by
  unfold splitPath joinPath
  rw [List.map_map]
  simp [Function.comp_def]

theorem mem_joinPath {c : Char} {field : String} {rest : List String} (h : c ∈ joinPath (field :: rest)) :
    c = '.' ∨ ∃ f ∈ field :: rest, c ∈ f.toList := by
  induction rest generalizing field with
  | nil =>
      right
      exact ⟨field, List.mem_cons_self, by simpa [joinPath] using h⟩
  | cons next rest ih =>
      have hsplit : joinPath (field :: next :: rest) = field.toList ++ '.' :: joinPath (next :: rest) := by
        simp [joinPath]
      rw [hsplit] at h
      rcases List.mem_append.1 h with h | h
      · exact .inr ⟨field, List.mem_cons_self, h⟩
      · rcases List.mem_cons.1 h with rfl | h
        · exact .inl rfl
        · rcases ih h with hdot | ⟨f, hf, hc⟩
          · exact .inl hdot
          · exact .inr ⟨f, List.mem_cons_of_mem field hf, hc⟩

theorem joinPath_eq_nil {field : String} {rest : List String} (h : joinPath (field :: rest) = []) :
    field :: rest = [""] := by
  cases rest with
  | nil =>
      have hfield : field.toList = [] := by simpa [joinPath] using h
      rw [String.toList_eq_nil_iff.1 hfield]
  | cons next rest =>
      have hsplit : joinPath (field :: next :: rest) = field.toList ++ '.' :: joinPath (next :: rest) := by
        simp [joinPath]
      rw [hsplit] at h
      simp at h

/-- The pieces between the dots. -/
theorem mem_splitOn {p l : List Char} (hl : l ∈ p.splitOn '.') : ∀ c ∈ l, c ∈ p ∧ c ≠ '.' := by
  induction p generalizing l with
  | nil => simp_all
  | cons x p ih =>
      rw [List.splitOn_cons_eq_if_modifyHead] at hl
      split at hl
      · rcases List.mem_cons.1 hl with rfl | hl
        · intro c hc
          cases hc
        · intro c hc
          exact ⟨List.mem_cons_of_mem x (ih hl c hc).1, (ih hl c hc).2⟩
      · next hx =>
          obtain ⟨first, more, hpieces⟩ := List.exists_cons_of_ne_nil (List.splitOn_ne_nil '.' p)
          rw [hpieces, List.modifyHead_cons] at hl
          rw [hpieces] at ih
          rcases List.mem_cons.1 hl with rfl | hl
          · intro c hc
            rcases List.mem_cons.1 hc with rfl | hc
            · exact ⟨List.mem_cons_self, by simpa using hx⟩
            · have hfirst := ih List.mem_cons_self c hc
              exact ⟨List.mem_cons_of_mem x hfirst.1, hfirst.2⟩
          · intro c hc
            have hmore := ih (List.mem_cons_of_mem first hl) c hc
            exact ⟨List.mem_cons_of_mem x hmore.1, hmore.2⟩

/-! ## What the pattern can read -/

variable {field : String} {rest : List String}

theorem Addressable.isNodeText (h : Addressable id (field :: rest)) :
    IsNodeText [] id.toList (joinPath (field :: rest)) [] := by
  constructor
  · intro c hc
    cases hc
  · intro hnil
    exact h.id_ne (String.toList_eq_nil_iff.1 hnil)
  · exact h.id
  · intro hnil
    exact h.path_ne (joinPath_eq_nil hnil)
  · intro c hc
    rcases mem_joinPath hc with rfl | ⟨f, hf, hc⟩
    · decide
    · exact (h.path f hf c hc).1
  · intro c hc
    cases hc

theorem nodePass_placeholder (h : Addressable id (field :: rest)) :
    nodePass u ctx (placeholder id (field :: rest)).toList =
      (resolveSelector u ctx (id :: field :: rest)).map fun v => (stringify u v).toList := by
  have hwhole := nodePlaceholder_nodeText (r := []) h.isNodeText
  rw [List.append_nil, ← toList_placeholder] at hwhole
  have hsplit : splitPath (joinPath (field :: rest)) = field :: rest :=
    splitPath_joinPath (List.cons_ne_nil field rest) fun f hf hdot => (h.path f hf _ hdot).2 rfl
  unfold nodePass
  rw [Pattern.sub_of_whole apart_placeholders.delimited_left hwhole]
  unfold nodeSub
  dsimp only
  rw [hsplit, String.ofList_toList]

/-- For an id and fields that the pattern can read, only the second pass is in the way. -/
theorem agrees_iff_of_addressable (h : Addressable id (field :: rest)) : Agrees u ctx id (field :: rest) ↔
    ∀ v, resolveSelector u ctx (id :: field :: rest) = .ok v →
      varPass u ctx (stringify u v).toList = .ok (stringify u v).toList := by
  have hpass : nodePass u ctx _ = _ := nodePass_placeholder h
  unfold Agrees
  cases hselect : resolveSelector u ctx (id :: field :: rest) with
  | error e =>
      rw [hselect] at hpass
      exact ⟨fun _ _ h => (nomatch h), fun _ => ⟨e, resolveTemplate_of_error hpass⟩⟩
  | ok v =>
      rw [hselect] at hpass
      dsimp only
      rw [resolveTemplate_of_ok hpass]
      constructor
      · rintro hagrees _ ⟨⟩
        obtain ⟨t, ht, heq⟩ := Pattern.map_eq_ok hagrees
        rw [ht, ← heq, String.toList_ofList]
      · intro hsame
        rw [hsame v rfl]
        exact congrArg Except.ok String.ofList_toList

/-! ## A chain of dictionaries along the fields -/

/-- The value that has the empty text at the end of the fields, and nothing else. -/
def chain : List String → Value
  | [] => .str ""
  | field :: rest => .dict [(field, chain rest)]

/-- The only node, or the variables, hold the chain. -/
def chainContext (id field : String) (rest : List String) : ExecutionContext :=
  if id = "vars" then ⟨Dict.empty.set field (chain rest), .empty⟩
  else ⟨.empty, Dict.empty.set id (Dict.empty.set field (chain rest))⟩

theorem descend_chain {part : String} : descend u (chain (field :: rest)) part =
    if part = field then .ok (chain rest) else .error (.fieldNotFound part [field]) := by
  have hlookup := lookup_cons_if part field (chain rest) []
  by_cases hpart : part = field
  · rw [if_pos hpart]
    rw [if_pos hpart] at hlookup
    exact descend_of_lookup_eq_some u hlookup
  · rw [if_neg hpart]
    rw [if_neg hpart] at hlookup
    exact descend_of_lookup_eq_none u hlookup

theorem dig_chain_self (path : List String) : dig u (chain path) path = .ok (.str "") := by
  induction path with
  | nil => rfl
  | cons field rest ih =>
      unfold dig
      rw [List.foldlM_cons]
      rw [descend_chain, if_pos rfl]
      exact ih

/-- What can be dug out of a chain lies on its way. -/
theorem dig_chain {path q : List String} {v : Value} (h : dig u (chain path) q = .ok v) :
    ∃ more, path = q ++ more ∧ v = chain more := by
  induction q generalizing path with
  | nil =>
      cases h
      exact ⟨path, rfl, rfl⟩
  | cons part q ih =>
      unfold dig at h
      rw [List.foldlM_cons] at h
      cases path with
      | nil => cases h
      | cons field rest =>
          rw [descend_chain] at h
          by_cases hpart : part = field
          · rw [if_pos hpart] at h
            obtain ⟨more, hrest, hv⟩ := ih h
            exact ⟨more, by rw [hrest, hpart]; rfl, hv⟩
          · rw [if_neg hpart] at h
            cases h

theorem resolveSelector_chainContext_self :
    resolveSelector u (chainContext id field rest) (id :: field :: rest) = .ok (.str "") := by
  unfold resolveSelector chainContext
  dsimp only
  by_cases hvars : id = "vars"
  · rw [if_pos hvars, if_pos hvars]
    exact dig_chain_self (field :: rest)
  · rw [if_neg hvars, if_neg hvars, Dict.get?_set_self]
    exact dig_chain_self (field :: rest)

theorem resolveSelector_chainContext {id' : String} {q : List String} {v : Value}
    (h : resolveSelector u (chainContext id field rest) (id' :: q) = .ok v) :
    id' = id ∧ ∃ more, field :: rest = q ++ more ∧ v = chain more := by
  cases q with
  | nil => cases h
  | cons first q =>
      unfold resolveSelector chainContext at h
      dsimp only at h
      by_cases hvars : id = "vars"
      · rw [if_pos hvars] at h
        split at h
        · next hvars' =>
            have hdig : dig u (chain (field :: rest)) (first :: q) = .ok v := h
            exact ⟨hvars'.trans hvars.symm, dig_chain hdig⟩
        · cases h
      · rw [if_neg hvars] at h
        split at h
        · -- there are no variables
          cases h
        · by_cases hid : id' = id
          · subst hid
            rw [Dict.get?_set_self] at h
            exact ⟨rfl, dig_chain h⟩
          · rw [Dict.get?_set_of_ne _ _ hid] at h
            cases h

/-! ## What agreement asks of the id and the fields -/

/-- What begins with a brace does not become empty. -/
theorem varPass_ne_nil {t : List Char} (h : varPlaceholder ('{' :: t) = none) :
    varPass u ctx ('{' :: t) ≠ .ok [] := by
  intro hnil
  unfold varPass at hnil
  rw [Pattern.sub_cons h] at hnil
  obtain ⟨t', -, heq⟩ := Pattern.map_eq_ok hnil
  cases heq

theorem nodePass_of_nodePlaceholder_eq_none {body filled : List Char}
    (hnone : nodePlaceholder ('{' :: '{' :: '#' :: body) = none)
    (h : nodePass u ctx ('{' :: '{' :: '#' :: body) = .ok filled) : ∃ t, filled = '{' :: '{' :: '#' :: t := by
  unfold nodePass at h
  have hsecond : nodePlaceholder ('{' :: '#' :: body) = none :=
    opened_nodePlaceholder.eq_none_of_second (by decide)
  have hthird : nodePlaceholder ('#' :: body) = none := opened_nodePlaceholder.eq_none_of_head (by decide)
  rw [Pattern.sub_cons hnone, Pattern.sub_cons hsecond, Pattern.sub_cons hthird] at h
  obtain ⟨t₁, h₁, ht₁⟩ := Pattern.map_eq_ok h
  obtain ⟨t₂, h₂, ht₂⟩ := Pattern.map_eq_ok h₁
  obtain ⟨t₃, -, ht₃⟩ := Pattern.map_eq_ok h₂
  exact ⟨t₃, by rw [← ht₁, ← ht₂, ← ht₃]⟩

/-- The text of a dictionary of the chain. -/
theorem toList_stringify_chain (first : String) (more : List String) :
    ∃ c t, c ≠ '{' ∧ (stringify u (chain (first :: more))).toList = '{' :: c :: t := by
  have hquote : quoteFor first.toList ≠ '{' := by
    unfold quoteFor
    split
    · decide
    · decide
  refine ⟨quoteFor first.toList, ?_, hquote, ?_⟩
  rotate_left
  · simp only [stringify, chain, Value.repr, Value.reprEntries, reprString, String.toList_append,
      String.toList_intercalate, String.toList_ofList, List.map_cons, List.map_nil,
      List.intercalate_singleton, List.cons_append]
    rfl

theorem varPass_eq_nil {text : String} {filled : List Char}
    (hnode : nodePass u ctx text.toList = .ok filled) (h : resolveTemplate u ctx text = .ok "") :
    varPass u ctx filled = .ok [] := by
  rw [resolveTemplate_of_ok hnode] at h
  obtain ⟨t, ht, hempty⟩ := Pattern.map_eq_ok h
  rw [ht, String.ofList_eq_empty_iff.1 hempty]

/-- A match whose fields are those of the path. -/
theorem IsNodeText.addressable {before node path after : List Char} (h : IsNodeText before node path after)
    (hid : String.ofList node = id) (hpath : field :: rest = splitPath path) :
    Addressable id (field :: rest) := by
  constructor
  · intro hempty
    rw [← hid] at hempty
    exact h.node_ne (String.ofList_eq_empty_iff.1 hempty)
  · intro c hc
    rw [← hid, String.toList_ofList] at hc
    exact h.node c hc
  · intro hsingle
    rw [hpath] at hsingle
    apply h.path_ne
    rw [← joinPath_splitPath path, hsingle]
    rfl
  · intro f hf c hc
    rw [hpath] at hf
    obtain ⟨piece, hpiece, rfl⟩ := List.mem_map.1 hf
    rw [String.toList_ofList] at hc
    have hmem := mem_splitOn hpiece c hc
    exact ⟨h.path c hmem.1, hmem.2⟩

theorem addressable_of_agrees (h : Agrees u (chainContext id field rest) id (field :: rest)) :
    Addressable id (field :: rest) := by
  unfold Agrees at h
  rw [resolveSelector_chainContext_self] at h
  dsimp only [stringify] at h
  cases hnode : nodePass u (chainContext id field rest) (placeholder id (field :: rest)).toList with
  | error e => cases (resolveTemplate_of_error hnode).symm.trans h
  | ok filled =>
      have hvar := varPass_eq_nil hnode h
      rw [toList_placeholder] at hnode
      cases hfound : nodePlaceholder (nodeText [] id.toList (joinPath (field :: rest)) []) with
      | none =>
          obtain ⟨t, rfl⟩ := nodePass_of_nodePlaceholder_eq_none hfound hnode
          exact absurd hvar (varPass_ne_nil varPlaceholder_of_hash)
      | some found =>
          obtain ⟨before, after, htext, -⟩ := nodePlaceholder_eq_some.1 hfound
          obtain ⟨w, hw, hlexes⟩ := apart_placeholders.delimited_left _ found.1 found.2 hfound
          rw [hw] at hnode
          obtain ⟨v, t', hv, -, rfl⟩ :=
            Pattern.sub_append_eq_ok apart_placeholders.delimited_left hlexes hnode
          obtain ⟨value, hvalue, rfl⟩ := Pattern.map_eq_ok hv
          obtain ⟨hid, more, hpath, rfl⟩ := resolveSelector_chainContext hvalue
          cases more with
          | cons g gs =>
              -- a dictionary on the way
              obtain ⟨c, t, hc, ht⟩ := toList_stringify_chain (u := u) g gs
              rw [ht] at hvar
              exact absurd hvar (varPass_ne_nil (opened_varPlaceholder.eq_none_of_second hc))
          | nil =>
              rw [List.append_nil] at hpath
              exact htext.addressable hid hpath

/-! ## When templates and selectors address the same values -/

variable (u : Unicode) (id field : String) (rest : List String)

theorem inert_chainContext : Inert u (chainContext id field rest) id (field :: rest) := by
  intro v hv
  cases resolveSelector_chainContext_self.symm.trans hv
  rfl

/-- The ids and the fields for which the two agree, as far as the first pass goes; for them only a change that
the second pass makes to the text of the value is in the way. -/
theorem agrees_iff_addressable :
    ((∀ ctx, Inert u ctx id (field :: rest) → Agrees u ctx id (field :: rest)) ↔
        Addressable id (field :: rest)) ∧
      (Addressable id (field :: rest) → ∀ ctx, Agrees u ctx id (field :: rest) ↔
        ∀ v, resolveSelector u ctx (id :: field :: rest) = .ok v →
          varPass u ctx (stringify u v).toList = .ok (stringify u v).toList) := by
  constructor
  · constructor
    · intro h
      exact addressable_of_agrees (h _ (inert_chainContext u id field rest))
    · intro h ctx hinert
      apply (agrees_iff_of_addressable h).2
      intro v hv
      exact Pattern.sub_of_holes_eq_nil apart_placeholders.delimited_right (hinert v hv)
  · intro h ctx
    exact agrees_iff_of_addressable h

/-- A placeholder with a hyphen in the id stays as it is. -/
theorem hyphen_left_verbatim :
    ¬ ∀ (u : Unicode) (ctx : ExecutionContext) (id field : String) (rest : List String),
    1 ≤ id.length ∧ id.length ≤ 100 → Agrees u ctx id (field :: rest) := by
  intro h
  have hagrees := h ⟨fun _ => none, fun _ => true⟩
    ⟨.empty, Dict.empty.set "llm-1" (Dict.empty.set "text" (.str "S"))⟩ "llm-1" "text" [] (by decide)
  have hselect : resolveSelector ⟨fun _ => none, fun _ => true⟩
      ⟨.empty, Dict.empty.set "llm-1" (Dict.empty.set "text" (.str "S"))⟩ ["llm-1", "text"] =
        .ok (.str "S") := rfl
  unfold Agrees at hagrees
  rw [hselect] at hagrees
  exact absurd hagrees (by decide)

end OpsKnowledge.Workflow
