import OpsKnowledge.Lib.Text

/-!
# White space around and inside a text

`strip` on lists of characters, and the marks of a text: its characters that are no white space.
-/

namespace OpsKnowledge.Lib

def marks (s : List Char) : List Char := s.filter fun c => !isSpace c

@[simp] theorem marks_nil : marks [] = [] := rfl

@[simp] theorem marks_append (s t : List Char) : marks (s ++ t) = marks s ++ marks t := List.filter_append s t

theorem marks_flatten (parts : List (List Char)) : marks parts.flatten = parts.flatMap marks := by
  unfold marks
  rw [List.filter_flatten, List.flatMap_def]

theorem marks_eq_nil_iff {s : List Char} : marks s = [] ↔ ∀ c ∈ s, isSpace c = true := by
  simp [marks]

theorem marks_ne_nil_of_mem {s : List Char} {c : Char} (hc : c ∈ s) (hmark : isSpace c = false) :
    marks s ≠ [] := by
  intro hnil
  rw [marks_eq_nil_iff.1 hnil c hc] at hmark
  cases hmark

/-- `s.strip()`, on the characters. -/
def stripped (s : List Char) : List Char := (s.dropWhile isSpace).rdropWhile isSpace

/-- What `strip` takes away. -/
theorem exists_margins (s : List Char) :
    ∃ l r, s = l ++ stripped s ++ r ∧ marks l = [] ∧ marks r = [] := by
  refine ⟨s.takeWhile isSpace, (s.dropWhile isSpace).rtakeWhile isSpace, ?_, ?_, ?_⟩
  · unfold stripped
    rw [List.append_assoc, List.rdropWhile_append_rtakeWhile, List.takeWhile_append_dropWhile]
  · exact marks_eq_nil_iff.2 fun c hc => List.mem_takeWhile_imp hc
  · exact marks_eq_nil_iff.2 fun c hc => List.mem_rtakeWhile_imp hc

@[simp] theorem marks_stripped (s : List Char) : marks (stripped s) = marks s := by
  obtain ⟨l, r, hs, hl, hr⟩ := exists_margins s
  have hmarks := congrArg marks hs
  rw [marks_append, marks_append, hl, hr, List.nil_append, List.append_nil] at hmarks
  exact hmarks.symm

/-- Without white space at its ends. -/
structure Trim (s : List Char) : Prop where
  head : ∀ c ∈ s.head?, isSpace c = false
  last : ∀ c ∈ s.getLast?, isSpace c = false

theorem trim_nil : Trim [] := ⟨by simp, by simp⟩

theorem trim_stripped (s : List Char) : Trim (stripped s) := by
  have hlast : ∀ c ∈ (stripped s).getLast?, isSpace c = false := by
    intro c hc
    have hne : stripped s ≠ [] := by
      intro hnil
      rw [hnil] at hc
      cases hc
    have hend := List.rdropWhile_last_not isSpace (s.dropWhile isSpace) hne
    rw [List.getLast?_eq_some_getLast hne] at hc
    cases hc
    exact eq_false_of_ne_true hend
  refine ⟨?_, hlast⟩
  intro c hc
  have hprefix : stripped s <+: s.dropWhile isSpace := List.rdropWhile_prefix isSpace _
  obtain ⟨rest, hrest⟩ := hprefix
  cases hs : stripped s with
  | nil =>
      rw [hs] at hc
      cases hc
  | cons d t =>
      rw [hs] at hc hrest
      cases hc
      have hhead := List.head?_dropWhile_not isSpace s
      rw [← hrest] at hhead
      simpa using hhead

theorem Trim.stripped_eq {s : List Char} (h : Trim s) : stripped s = s := by
  have hdrop : s.dropWhile isSpace = s := by
    cases s with
    | nil => rfl
    | cons c s => exact List.dropWhile_cons_of_neg (by simp [h.head c rfl])
  unfold stripped
  rw [hdrop, List.rdropWhile_eq_self_iff]
  intro hne
  simp [h.last _ (List.getLast?_eq_some_getLast hne)]

@[simp] theorem stripped_stripped (s : List Char) : stripped (stripped s) = stripped s :=
  (trim_stripped s).stripped_eq

theorem stripped_eq_nil_iff {s : List Char} : stripped s = [] ↔ marks s = [] := by
  constructor
  · intro h
    rw [← marks_stripped, h]
    rfl
  · intro h
    rw [← marks_stripped] at h
    cases hs : stripped s with
    | nil => rfl
    | cons c t =>
        have hhead := (trim_stripped s).head c (by rw [hs]; rfl)
        exact absurd h (marks_ne_nil_of_mem (by rw [hs]; exact List.mem_cons_self) hhead)

/-- Leaving out what is blank loses no mark. -/
theorem marks_flatMap_filter {β : Type*} {f g : β → List Char}
    (h : ∀ x, marks (f x) = [] → marks (g x) = []) (xs : List β) :
    marks ((xs.filter fun x => !(stripped (f x)).isEmpty).flatMap g) = marks (xs.flatMap g) := by
  induction xs with
  | nil => rfl
  | cons x xs ih =>
      rw [List.filter_cons, List.flatMap_cons, marks_append, ← ih]
      split
      · rw [List.flatMap_cons, marks_append]
      · next hblank =>
          have hnil := h x (stripped_eq_nil_iff.1 (by simpa using hblank))
          rw [hnil, List.nil_append]

theorem flatMap_fst_zipIdx (parts : List (List Char)) : parts.zipIdx.flatMap Prod.fst = parts.flatten := by
  rw [List.flatMap_def, List.zipIdx_map_fst]

theorem marks_flatten_map_stripped (parts : List (List Char)) :
    marks (parts.map stripped).flatten = marks parts.flatten := by
  induction parts with
  | nil => rfl
  | cons part parts ih =>
      rw [List.map_cons, List.flatten_cons, List.flatten_cons, marks_append, marks_append, marks_stripped, ih]

/-- Between two texts that are trimmed there may be anything. -/
theorem Trim.append {s t : List Char} (hs : Trim s) (ht : Trim t) (hs' : s ≠ []) (ht' : t ≠ [])
    (between : List Char) : Trim (s ++ between ++ t) := by
  constructor
  · intro c hc
    rw [List.append_assoc, List.head?_append_of_ne_nil _ hs'] at hc
    exact hs.head c hc
  · intro c hc
    rw [List.getLast?_append_of_ne_nil _ ht'] at hc
    exact ht.last c hc

end OpsKnowledge.Lib
