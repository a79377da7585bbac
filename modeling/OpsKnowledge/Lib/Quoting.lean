import Mathlib.Data.Finset.Max
import Mathlib.Data.List.Chain
import Mathlib.Tactic.Common

/-!
# Quoted texts

A code whose values can be read off the front of a text in one way only, lists of such
values between separators, and string literals in which some characters are escaped.
-/

namespace OpsKnowledge.Lib

/-! ## Prefix-free codes -/

section PrefixFree

variable {α γ : Type*} {encode : α → List γ}

def PrefixFree (encode : α → List γ) : Prop :=
  ∀ ⦃a b r s⦄, encode a ++ r = encode b ++ s → a = b ∧ r = s

/-- A list of values is read up to a mark that no value starts with. -/
theorem PrefixFree.flatMap_inj (h : PrefixFree encode) {mark : γ}
    (hmark : ∀ a r s, encode a ++ r ≠ mark :: s) {xs ys : List α} {r s : List γ}
    (heq : xs.flatMap encode ++ mark :: r = ys.flatMap encode ++ mark :: s) : xs = ys ∧ r = s := by
  induction xs generalizing ys with
  | nil =>
      cases ys with
      | nil => exact ⟨rfl, List.tail_eq_of_cons_eq heq⟩
      | cons y ys =>
          rw [List.flatMap_cons, List.append_assoc] at heq
          exact absurd heq.symm (hmark _ _ _)
  | cons x xs ih =>
      rw [List.flatMap_cons, List.append_assoc] at heq
      cases ys with
      | nil => exact absurd heq (hmark _ _ _)
      | cons y ys =>
          rw [List.flatMap_cons, List.append_assoc] at heq
          obtain ⟨rfl, hrest⟩ := h heq
          obtain ⟨rfl, hafter⟩ := ih hrest
          exact ⟨rfl, hafter⟩

/-- Values between separators are read up to a text that does not go on with a separator. -/
theorem PrefixFree.intercalate_inj (h : PrefixFree encode) {c : γ} {sep : List γ} {xs ys : List α}
    {r s : List γ} (hxs : xs ≠ []) (hys : ys ≠ []) (hr : r.head? ≠ some c) (hs : s.head? ≠ some c)
    (heq : (c :: sep).intercalate (xs.map encode) ++ r = (c :: sep).intercalate (ys.map encode) ++ s) :
    xs = ys ∧ r = s := by
  induction xs generalizing ys with
  | nil => exact absurd rfl hxs
  | cons x xs ih =>
      cases ys with
      | nil => exact absurd rfl hys
      | cons y ys =>
          cases xs with
          | nil =>
              cases ys with
              | nil =>
                  simp only [List.map_cons, List.map_nil, List.intercalate_singleton] at heq
                  obtain ⟨rfl, hafter⟩ := h heq
                  exact ⟨rfl, hafter⟩
              | cons y' ys =>
                  simp only [List.map_cons, List.map_nil, List.intercalate_singleton,
                    List.intercalate_cons_cons, List.append_assoc] at heq
                  rw [(h heq).2] at hr
                  exact absurd rfl hr
          | cons x' xs =>
              cases ys with
              | nil =>
                  simp only [List.map_cons, List.map_nil, List.intercalate_singleton,
                    List.intercalate_cons_cons, List.append_assoc] at heq
                  rw [← (h heq).2] at hs
                  exact absurd rfl hs
              | cons y' ys =>
                  simp only [List.map_cons, List.intercalate_cons_cons, List.append_assoc] at heq
                  obtain ⟨rfl, hrest⟩ := h heq
                  have hrest' := List.append_cancel_left hrest
                  obtain ⟨heq', hafter⟩ := ih (List.cons_ne_nil _ _) (List.cons_ne_nil _ _) hrest'
                  exact ⟨by rw [heq'], hafter⟩

theorem infix_intercalate {sep x : List γ} {xs : List (List γ)} (hx : x ∈ xs) :
    x <:+: sep.intercalate xs := by
  induction xs with
  | nil => cases hx
  | cons y ys ih =>
      cases ys with
      | nil =>
          rw [List.mem_singleton.1 hx, List.intercalate_singleton]
      | cons z zs =>
          rw [List.intercalate_cons_cons]
          rcases List.mem_cons.1 hx with rfl | hx
          · exact ((List.prefix_append x sep).trans (List.prefix_append _ _)).isInfix
          · exact (ih hx).trans (List.suffix_append _ _).isInfix

end PrefixFree

/-! ## Escaped literals -/

def IsSpecial (c : Char) : Prop := c = '"' ∨ c = '\\' ∨ c = '\n' ∨ c = '\r'

instance : DecidablePred IsSpecial := fun c => by unfold IsSpecial; infer_instance

def escapeOf (c : Char) : List Char :=
  if c = '"' then ['\\', '"']
  else if c = '\\' then ['\\', '\\']
  else if c = '\n' then ['\\', 'n']
  else if c = '\r' then ['\\', 'r']
  else [c]

def escape (text : List Char) : List Char := text.flatMap escapeOf

/-- A string literal. -/
def literal (text : List Char) : List Char := '"' :: (escape text ++ ['"'])

theorem escapeOf_of_not_special {c : Char} (h : ¬ IsSpecial c) : escapeOf c = [c] := by
  simp only [IsSpecial, not_or] at h
  simp [escapeOf, h]

theorem escape_of_not_special {text : List Char} (h : ∀ c ∈ text, ¬ IsSpecial c) : escape text = text := by
  induction text with
  | nil => rfl
  | cons c text ih =>
      have hrest := ih fun d hd => h d (List.mem_cons_of_mem c hd)
      unfold escape at hrest ⊢
      rw [List.flatMap_cons, escapeOf_of_not_special (h c List.mem_cons_self), hrest]
      rfl

theorem escapeOf_cases (c : Char) :
    escapeOf c = [c] ∧ c ≠ '"' ∧ c ≠ '\\' ∨ ∃ d, escapeOf c = ['\\', d] := by
  unfold escapeOf
  split_ifs <;> simp_all

theorem escapeOf_prefixFree : PrefixFree escapeOf := by
  intro a b r s h
  unfold escapeOf at h
  split_ifs at h <;> grind

theorem literal_prefixFree : PrefixFree literal := by
  intro a b r s h
  simp only [literal, escape, List.cons_append, List.append_assoc, List.nil_append, List.cons.injEq,
    true_and] at h
  refine escapeOf_prefixFree.flatMap_inj ?_ h
  intro c u v hcontra
  rcases escapeOf_cases c with ⟨heq, hne, -⟩ | ⟨d, heq⟩
  · rw [heq] at hcontra
    exact hne (List.cons.inj hcontra).1
  · rw [heq] at hcontra
    exact absurd (List.cons.inj hcontra).1 (by decide)

/-- Each special character takes one more backslash. -/
theorem count_escape (text : List Char) :
    (escape text).count '\\' = text.count '\\' + text.countP (fun c => IsSpecial c) := by
  induction text with
  | nil => rfl
  | cons c text ih =>
      unfold escape at ih ⊢
      rw [List.flatMap_cons, List.count_append, ih, List.count_cons, List.countP_cons]
      have hone : (escapeOf c).count '\\' =
          (if c == '\\' then 1 else 0) + if decide (IsSpecial c) = true then 1 else 0 := by
        unfold escapeOf IsSpecial
        split_ifs <;> simp_all
      omega

/-! ## Where an escaped text can lie -/

/-- Every quote comes after a backslash. -/
def Guarded (text : List Char) : Prop := (' ' :: text).IsChain fun x y => y = '"' → x = '\\'

theorem escape_guarded (text : List Char) : Guarded (escape text) := by
  have hany : ∀ x, (x :: escape text).IsChain fun x y => y = '"' → x = '\\' := by
    induction text with
    | nil => exact fun x => List.isChain_singleton x
    | cons c text ih =>
        intro x
        unfold escape at ih ⊢
        rw [List.flatMap_cons]
        rcases escapeOf_cases c with ⟨heq, hne, -⟩ | ⟨d, heq⟩
        · rw [heq]
          exact .cons_cons (fun hquote => absurd hquote hne) (ih c)
        · rw [heq]
          exact .cons_cons (fun hquote => absurd hquote (by decide)) (.cons_cons (fun _ => rfl) (ih d))
  exact hany ' '

/-- A guarded text lies on one side of a quote that no backslash stands before. -/
theorem Guarded.infix_split {text u v : List Char} {x : Char} (h : Guarded text) (hx : x ≠ '\\')
    (hin : text <:+: (u ++ [x]) ++ '"' :: v) : text <:+: u ++ [x] ∨ text <:+: v := by
  rcases List.infix_append_iff_ne_nil.1 hin with hleft | hright | ⟨l₁, l₂, hne₁, hne₂, rfl, hl₁, hl₂⟩
  · exact .inl hleft
  · rcases List.infix_cons_iff.1 hright with hprefix | hinfix
    · cases text with
      | nil => exact .inl (List.nil_infix)
      | cons c text =>
          have hc : c = '"' := (List.cons_prefix_cons.1 hprefix).1
          have hfirst := (List.isChain_cons_cons.1 h).1 hc
          exact absurd hfirst (by decide)
    · exact .inr hinfix
  · exfalso
    rcases List.suffix_concat_iff.1 hl₁ with rfl | ⟨l, rfl, -⟩
    · exact hne₁ rfl
    · cases l₂ with
      | nil => exact hne₂ rfl
      | cons c l₂ =>
          have hc : c = '"' := (List.cons_prefix_cons.1 hl₂).1
          subst hc
          have hshape : ' ' :: (l ++ [x] ++ '"' :: l₂) = (' ' :: l) ++ x :: '"' :: l₂ := by simp
          unfold Guarded at h
          rw [hshape] at h
          have hpair := (List.isChain_append_cons_cons.1 h).2.1
          exact hx (hpair rfl)

/-- Texts in quotes, as they are. -/
def quotedItems (texts : List (List Char)) : List Char :=
  [',', ' '].intercalate (texts.map fun text => '"' :: (text ++ ['"']))

/-- A guarded text has no more backslashes than one of the texts between the quotes. -/
theorem Guarded.count_le {text u w : List Char} {x : Char} {texts : List (List Char)} (h : Guarded text)
    (hx : x ≠ '\\') (hw : w.count '\\' = 0) (hin : text <:+: (u ++ [x]) ++ (quotedItems texts ++ w)) :
    text.count '\\' ≤ u.count '\\' ∨ ∃ t ∈ texts, text.count '\\' ≤ t.count '\\' := by
  induction texts generalizing u x with
  | nil =>
      have hle := hin.sublist.count_le '\\'
      simp only [quotedItems, List.map_nil, List.intercalate_nil, List.nil_append,
        List.count_append] at hle
      have hone : [x].count '\\' = 0 := List.count_eq_zero.2 (by simpa using hx.symm)
      exact .inl (by omega)
  | cons t texts ih =>
      have hsplit : ∃ rest, quotedItems (t :: texts) ++ w = '"' :: (t ++ '"' :: rest) ∧
          (rest = w ∨ rest = [',', ' '] ++ (quotedItems texts ++ w)) := by
        cases texts with
        | nil => exact ⟨w, by simp [quotedItems], .inl rfl⟩
        | cons t' texts =>
            exact ⟨_, by simp [quotedItems, List.intercalate_cons_cons], .inr rfl⟩
      obtain ⟨rest, heq, hrest⟩ := hsplit
      rw [heq] at hin
      rcases h.infix_split hx hin with hleft | hright
      · have hle := hleft.sublist.count_le '\\'
        have hone : [x].count '\\' = 0 := List.count_eq_zero.2 (by simpa using hx.symm)
        rw [List.count_append] at hle
        exact .inl (by omega)
      · rcases hrest with rfl | rfl
        · have hle := hright.sublist.count_le '\\'
          rw [List.count_append, List.count_cons, hw] at hle
          exact .inr ⟨t, List.mem_cons_self, by simpa using hle⟩
        · have hin' : text <:+: ((t ++ ['"', ',']) ++ [' ']) ++ (quotedItems texts ++ w) := by
            simpa using hright
          rcases ih (by decide) hin' with hle | ⟨t', ht', hle⟩
          · rw [List.count_append] at hle
            exact .inr ⟨t, List.mem_cons_self, by simpa using hle⟩
          · exact .inr ⟨t', List.mem_cons_of_mem t ht', hle⟩

/-- Texts whose escaped forms all lie in what is between the quotes have nothing to escape. -/
theorem not_special_of_escape_infix {u w : List Char} {x : Char} {texts : List (List Char)}
    (hu : u.count '\\' = 0) (hx : x ≠ '\\') (hw : w.count '\\' = 0)
    (hin : ∀ t ∈ texts, escape t <:+: (u ++ [x]) ++ (quotedItems texts ++ w)) :
    ∀ t ∈ texts, ∀ c ∈ t, ¬ IsSpecial c := by
  have hbound : ∀ t ∈ texts, ∃ t' ∈ texts,
      t.count '\\' + t.countP (fun c => IsSpecial c) ≤ t'.count '\\' := by
    intro t ht
    rcases (escape_guarded t).count_le hx hw (hin t ht) with hle | ⟨t', ht', hle⟩
    · exact ⟨t, ht, by rw [count_escape] at hle; omega⟩
    · exact ⟨t', ht', by rwa [count_escape] at hle⟩
  have hcount : ∀ t : List Char, t.count '\\' ≤ t.countP (fun c => IsSpecial c) := by
    intro t
    apply List.countP_mono_left
    intro c _ hc
    exact decide_eq_true (Or.inr (Or.inl (beq_iff_eq.1 hc)))
  intro t ht
  -- the text with the most backslashes has none
  obtain ⟨top, htop, hlargest⟩ :=
    texts.toFinset.exists_max_image (fun t => t.count '\\') ⟨t, by simpa using ht⟩
  rw [List.mem_toFinset] at htop
  have hnone : top.count '\\' = 0 := by
    obtain ⟨t', ht', hle⟩ := hbound top htop
    have hmost := hlargest t' (List.mem_toFinset.2 ht')
    have hspecial := hcount top
    omega
  obtain ⟨t', ht', hle⟩ := hbound t ht
  have hmost := hlargest t' (List.mem_toFinset.2 ht')
  have hzero : t.countP (fun c => IsSpecial c) = 0 := by omega
  simpa using List.countP_eq_zero.1 hzero

end OpsKnowledge.Lib
