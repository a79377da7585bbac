import OpsKnowledge.Lib.Blank
import OpsKnowledge.Lib.Packing
import OpsKnowledge.Lib.Regex

/-!
# Lines of a text

The lines of a text that are not blank, without the white space at their ends; and texts that
occur in another one, each behind the one before.
-/

namespace OpsKnowledge.Lib

/-! ## Lines that are not blank -/

def contentLines (s : List Char) : List (List Char) := ((s.splitOn '\n').map stripped).filter (!·.isEmpty)

theorem contentLines_append_newline (s t : List Char) :
    contentLines (s ++ '\n' :: t) = contentLines s ++ contentLines t := by
  unfold contentLines
  rw [List.splitOn_append_cons_self, List.map_append, List.filter_append]

theorem contentLines_line {s : List Char} (h : '\n' ∉ s) :
    contentLines s = if stripped s = [] then [] else [stripped s] := by
  unfold contentLines
  rw [List.splitOn_eq_singleton h]
  by_cases hnil : stripped s = [] <;> simp [hnil]

@[simp] theorem contentLines_nil : contentLines [] = [] := rfl

theorem contentLines_newline_cons (s : List Char) : contentLines ('\n' :: s) = contentLines s :=
  contentLines_append_newline [] s

/-- White space before or behind a text takes part in no line. -/
theorem stripped_cons_space {c : Char} (hc : isSpace c = true) (s : List Char) :
    stripped (c :: s) = stripped s := by
  unfold stripped
  rw [List.dropWhile_cons_of_pos hc]

theorem stripped_concat_space {c : Char} (hc : isSpace c = true) (s : List Char) :
    stripped (s ++ [c]) = stripped s := by
  unfold stripped
  rw [List.dropWhile_append]
  split
  · next hblank =>
      rw [List.isEmpty_iff.1 hblank, List.dropWhile_cons_of_pos hc]
      rfl
  · exact List.rdropWhile_concat_pos _ _ _ hc

theorem contentLines_cons_space {c : Char} (hc : isSpace c = true) (s : List Char) :
    contentLines (c :: s) = contentLines s := by
  by_cases hnewline : c = '\n'
  · rw [hnewline, contentLines_newline_cons]
  · unfold contentLines
    rw [List.splitOn_cons_eq_if_modifyHead, if_neg (by simpa using hnewline)]
    obtain ⟨line, lines, heq⟩ := List.exists_cons_of_ne_nil (List.splitOn_ne_nil '\n' s)
    rw [heq, List.modifyHead_cons, List.map_cons, List.map_cons, stripped_cons_space hc]

theorem contentLines_concat_space {c : Char} (hc : isSpace c = true) (s : List Char) :
    contentLines (s ++ [c]) = contentLines s := by
  induction hlength : s.length using Nat.strong_induction_on generalizing s with
  | _ n ih =>
      by_cases hmem : '\n' ∈ s
      · obtain ⟨a, b, rfl⟩ := List.append_of_mem hmem
        rw [List.append_assoc, List.cons_append, contentLines_append_newline, contentLines_append_newline]
        rw [List.length_append, List.length_cons] at hlength
        rw [ih b.length (by omega) b rfl]
      · by_cases hnewline : c = '\n'
        · rw [hnewline, contentLines_append_newline, contentLines_nil, List.append_nil]
        · have hmem' : '\n' ∉ s ++ [c] := by
            rw [List.mem_append, List.mem_singleton]
            exact fun h => h.elim hmem fun heq => hnewline heq.symm
          rw [contentLines_line hmem, contentLines_line hmem', stripped_concat_space hc]

theorem contentLines_blank_append {l : List Char} (hl : marks l = []) (s : List Char) :
    contentLines (l ++ s) = contentLines s := by
  induction l with
  | nil => rfl
  | cons c l ih =>
      rw [marks_eq_nil_iff, List.forall_mem_cons] at hl
      rw [List.cons_append, contentLines_cons_space hl.1, ih (marks_eq_nil_iff.2 hl.2)]

theorem contentLines_append_blank {r : List Char} (hr : marks r = []) (s : List Char) :
    contentLines (s ++ r) = contentLines s := by
  induction r generalizing s with
  | nil => rw [List.append_nil]
  | cons c r ih =>
      rw [marks_eq_nil_iff, List.forall_mem_cons] at hr
      have hrest := ih (marks_eq_nil_iff.2 hr.2) (s ++ [c])
      rw [List.append_assoc, List.singleton_append] at hrest
      rw [hrest, contentLines_concat_space hr.1]

@[simp] theorem contentLines_stripped (s : List Char) : contentLines (stripped s) = contentLines s := by
  obtain ⟨l, r, hs, hl, hr⟩ := exists_margins s
  conv_rhs => rw [hs, contentLines_append_blank hr, contentLines_blank_append hl]

theorem contentLines_eq_nil_iff {s : List Char} : contentLines s = [] ↔ marks s = [] := by
  constructor
  · intro hnil
    have hjoin : marks (['\n'].intercalate (s.splitOn '\n')) = (s.splitOn '\n').flatMap marks :=
      filter_intercalate (by decide) _
    rw [List.intercalate_splitOn] at hjoin
    rw [hjoin, List.flatMap_eq_nil_iff]
    intro line hline
    have hblank := List.filter_eq_nil_iff.1 hnil (stripped line) (List.mem_map_of_mem hline)
    exact stripped_eq_nil_iff.1 (by simpa using hblank)
  · intro h
    have hnil := contentLines_append_blank h []
    exact hnil

/-- Texts with a line break between them. -/
theorem contentLines_intercalate {sep : List Char} (hsep : marks sep = []) (hnewline : '\n' ∈ sep)
    (parts : List (List Char)) : contentLines (sep.intercalate parts) = parts.flatMap contentLines := by
  obtain ⟨l, r, rfl⟩ := List.append_of_mem hnewline
  rw [marks_append, List.append_eq_nil_iff] at hsep
  have hr : marks r = [] := hsep.2
  induction parts with
  | nil => rfl
  | cons part parts ih =>
      cases parts with
      | nil => simp
      | cons part' parts =>
          rw [List.intercalate_cons_cons, List.flatMap_cons, ← ih]
          have hshape : part ++ (l ++ '\n' :: r) ++ (l ++ '\n' :: r).intercalate (part' :: parts) =
              (part ++ l) ++ '\n' :: (r ++ (l ++ '\n' :: r).intercalate (part' :: parts)) := by simp
          rw [hshape, contentLines_append_newline, contentLines_append_blank hsep.1,
            contentLines_blank_append hr]

/-! ## Matches that are whole lines -/

/-- A text that ends with its line. -/
theorem contentLines_append_of_ends {s t : List Char} (h : s = [] ∨ s.getLast? = some '\n') :
    contentLines (s ++ t) = contentLines s ++ contentLines t := by
  rcases h with rfl | hlast
  · rfl
  · obtain ⟨s, rfl⟩ := List.getLast?_eq_some_iff.1 hlast
    rw [List.append_assoc, List.singleton_append, contentLines_append_newline, contentLines_append_newline,
      contentLines_nil, List.append_nil]

/-- A text behind the end of a line. -/
theorem contentLines_append_of_begins {s t : List Char} (h : t = [] ∨ t.head? = some '\n') :
    contentLines (s ++ t) = contentLines s ++ contentLines t := by
  rcases h with rfl | hhead
  · rw [contentLines_nil, List.append_nil, List.append_nil]
  · obtain ⟨t, rfl⟩ := List.head?_eq_some_iff.1 hhead
    rw [contentLines_append_newline, contentLines_newline_cons]

/-- A text has the lines of its matches and of the gaps between them. -/
theorem contentLines_segmented {r : Regex} {prev : Option Char} {s : List Char} {segs : Regex.Segments}
    (h : Regex.Segmented (.line r) prev s segs) : contentLines s =
      segs.1.flatMap (fun seg => contentLines seg.1 ++ contentLines seg.2) ++ contentLines segs.2 := by
  induction h with
  | tail => rfl
  | @seg prev gap m rest segs hm _ _ ih =>
      obtain ⟨hstart, hend⟩ := Regex.bounds_of_mem_run_line hm
      have hgap : gap = [] ∨ gap.getLast? = some '\n' := by
        rcases List.eq_nil_or_concat gap with rfl | ⟨gap, c, rfl⟩
        · exact .inl rfl
        · right
          simpa [Regex.lastChar] using hstart
      rw [List.append_assoc, contentLines_append_of_ends hgap, contentLines_append_of_begins hend, ih]
      simp

/-! ## Texts that occur in order -/

def InOrder : List (List Char) → List Char → Prop
  | [], _ => True
  | x :: xs, t => ∃ a b, t = a ++ x ++ b ∧ InOrder xs b

theorem InOrder.append_left {xs : List (List Char)} {t : List Char} (h : InOrder xs t) (u : List Char) :
    InOrder xs (u ++ t) := by
  cases xs with
  | nil => exact trivial
  | cons x xs =>
      obtain ⟨a, b, rfl, hrest⟩ := h
      exact ⟨u ++ a, b, by simp, hrest⟩

theorem InOrder.append_right {xs : List (List Char)} {t : List Char} (h : InOrder xs t) (v : List Char) :
    InOrder xs (t ++ v) := by
  induction xs generalizing t with
  | nil => exact trivial
  | cons x xs ih =>
      obtain ⟨a, b, rfl, hrest⟩ := h
      exact ⟨a, b ++ v, by simp, ih hrest⟩

theorem InOrder.infix_of_mem {xs : List (List Char)} {t x : List Char} (h : InOrder xs t) (hx : x ∈ xs) :
    x <:+: t := by
  induction xs generalizing t with
  | nil => cases hx
  | cons y xs ih =>
      obtain ⟨a, b, rfl, hrest⟩ := h
      rcases List.mem_cons.1 hx with rfl | hx
      · exact ⟨a, b, rfl⟩
      · exact (ih hrest hx).trans (List.suffix_append _ b).isInfix

/-- Texts that begin and end with a mark do not reach into the margins. -/
theorem InOrder.of_cons_space {xs : List (List Char)} {t : List Char} {c : Char} (hc : isSpace c = true)
    (hxs : ∀ x ∈ xs, Trim x ∧ x ≠ []) (h : InOrder xs (c :: t)) : InOrder xs t := by
  cases xs with
  | nil => exact trivial
  | cons x xs =>
      obtain ⟨a, b, heq, hrest⟩ := h
      obtain ⟨htrim, hne⟩ := hxs x List.mem_cons_self
      cases a with
      | nil =>
          obtain ⟨d, x, rfl⟩ := List.exists_cons_of_ne_nil hne
          cases heq
          have hmark := htrim.head c rfl
          rw [hc] at hmark
          cases hmark
      | cons d a =>
          cases heq
          exact ⟨a, b, rfl, hrest⟩

theorem InOrder.of_concat_space {xs : List (List Char)} {t : List Char} {c : Char} (hc : isSpace c = true)
    (hxs : ∀ x ∈ xs, Trim x ∧ x ≠ []) (h : InOrder xs (t ++ [c])) : InOrder xs t := by
  induction xs generalizing t with
  | nil => exact trivial
  | cons x xs ih =>
      obtain ⟨a, b, heq, hrest⟩ := h
      obtain ⟨htrim, hne⟩ := hxs x List.mem_cons_self
      rcases List.eq_nil_or_concat b with rfl | ⟨b, d, rfl⟩
      · rcases List.eq_nil_or_concat x with rfl | ⟨x, d, rfl⟩
        · exact absurd rfl hne
        · rw [List.append_nil, List.concat_eq_append, ← List.append_assoc] at heq
          have hlast := (List.append_inj' heq rfl).2
          have hmark := htrim.last d (by simp)
          rw [← List.singleton_inj.1 hlast, hc] at hmark
          cases hmark
      · rw [List.concat_eq_append, ← List.append_assoc] at heq
        obtain ⟨hfront, hlast⟩ := List.append_inj' heq rfl
        rw [List.concat_eq_append, ← hlast] at hrest
        exact ⟨a, b, hfront, ih (fun y hy => hxs y (List.mem_cons_of_mem x hy)) hrest⟩

theorem InOrder.stripped {xs : List (List Char)} {t : List Char} (hxs : ∀ x ∈ xs, Trim x ∧ x ≠ [])
    (h : InOrder xs t) : InOrder xs (stripped t) := by
  obtain ⟨l, r, ht, hl, hr⟩ := exists_margins t
  rw [ht] at h
  generalize Lib.stripped t = s at h
  have hleft : ∀ {l s : List Char}, marks l = [] → InOrder xs (l ++ s) → InOrder xs s := by
    intro l s hl h
    induction l with
    | nil => exact h
    | cons c l ih =>
        rw [marks_eq_nil_iff, List.forall_mem_cons] at hl
        exact ih (marks_eq_nil_iff.2 hl.2) (h.of_cons_space hl.1 hxs)
  have hright : ∀ {r s : List Char}, marks r = [] → InOrder xs (s ++ r) → InOrder xs s := by
    intro r s hr h
    induction r generalizing s with
    | nil => rwa [List.append_nil] at h
    | cons c r ih =>
        rw [marks_eq_nil_iff, List.forall_mem_cons] at hr
        have hfront : InOrder xs (s ++ [c]) := ih (marks_eq_nil_iff.2 hr.2) (by simpa using h)
        exact hfront.of_concat_space hr.1 hxs
  exact hleft hl (hright hr h)

end OpsKnowledge.Lib
