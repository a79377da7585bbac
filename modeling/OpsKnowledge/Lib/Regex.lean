import OpsKnowledge.Lib.Literals

/-!
# Regular expressions with backtracking

What the `re` module matches at one place of a text, in the order in which it tries: the
first alternative before the second, more repetitions before fewer. Around it the scan of a
text from left to right, for expressions that match no empty text.
-/

namespace OpsKnowledge.Lib

/-- `lazyStar` is `r*?`; `after p` looks back at one character; the anchors read none. -/
inductive Regex where
  | eps
  | char (p : Char → Bool)
  | seq (r s : Regex)
  | alt (r s : Regex)
  | star (r : Regex)
  | lazyStar (r : Regex)
  | lineStart
  | lineEnd
  | textEnd
  | after (p : Char → Bool)

/-- Only the decimal digits of ASCII. -/
def asciiOnly : Unicode := { decimal := fun _ => none, printable := fun _ => false }

namespace Regex

def opt (r : Regex) : Regex := alt r eps

def plus (r : Regex) : Regex := seq r (star r)

/-- `r{0,n}` -/
def upTo (r : Regex) : Nat → Regex
  | 0 => eps
  | n + 1 => opt (seq r (upTo r n))

/-- `r{m,n}`, with `n` repetitions more than `m`. -/
def between (r : Regex) : Nat → Nat → Regex
  | 0, n => upTo r n
  | m + 1, n => seq r (between r m n)

/-- `r{m,}` -/
def atLeast (r : Regex) : Nat → Regex
  | 0 => star r
  | m + 1 => seq r (atLeast r m)

/-- `\s*` -/
def spaces : Regex := star (char isSpace)

/-- `\d` -/
def digit (u : Unicode) : Regex := char fun c => (u.digit c).isSome

/-- `^r$`, on one or more lines of a text. -/
def line (r : Regex) : Regex := seq lineStart (seq r lineEnd)

/-! ## Matching at one place -/

/-- A match and the text behind it. -/
abbrev Match := List Char × List Char

/-- The character before the text that follows `m`. -/
def lastChar (prev : Option Char) (m : List Char) : Option Char := m.getLast?.or prev

def andThen (f : Option Char → List Char → List Match) (prev : Option Char) (x : Match) : List Match :=
  (f (lastChar prev x.1) x.2).map fun y => (x.1 ++ y.1, y.2)

/-- Repetitions that read something. -/
def runStar (f : Option Char → List Char → List Match) : Nat → Option Char → List Char → List Match
  | 0, _, s => [([], s)]
  | n + 1, prev, s => ((f prev s).filter (!·.1.isEmpty)).flatMap (andThen (runStar f n) prev) ++ [([], s)]

/-- The same, fewer repetitions before more. -/
def runLazy (f : Option Char → List Char → List Match) : Nat → Option Char → List Char → List Match
  | 0, _, s => [([], s)]
  | n + 1, prev, s => ([], s) :: ((f prev s).filter (!·.1.isEmpty)).flatMap (andThen (runLazy f n) prev)

/-- All matches at the front of a text, in the order of the search. -/
def run : Regex → Option Char → List Char → List Match
  | eps, _, s => [([], s)]
  | char _, _, [] => []
  | char p, _, c :: s => if p c then [([c], s)] else []
  | seq r t, prev, s => (run r prev s).flatMap (andThen (run t) prev)
  | alt r t, prev, s => run r prev s ++ run t prev s
  | star r, prev, s => runStar (run r) s.length prev s
  | lazyStar r, prev, s => runLazy (run r) s.length prev s
  | lineStart, prev, s => if prev = none ∨ prev = some '\n' then [([], s)] else []
  | lineEnd, _, s => if s = [] ∨ s.head? = some '\n' then [([], s)] else []
  | textEnd, _, s => if s = [] ∨ s = ['\n'] then [([], s)] else []
  | after p, prev, s => if prev.any p then [([], s)] else []

/-- The characters that an expression reads have a property. -/
def All (P : Char → Prop) : Regex → Prop
  | char p => ∀ c, p c = true → P c
  | seq r t => All P r ∧ All P t
  | alt r t => All P r ∧ All P t
  | star r | lazyStar r => All P r
  | eps | lineStart | lineEnd | textEnd | after _ => True

section Run

variable {r t : Regex} {prev : Option Char} {s : List Char} {x : Match}

theorem mem_andThen {f : Option Char → List Char → List Match} {y : Match} :
    y ∈ andThen f prev x ↔ ∃ m, (m, y.2) ∈ f (lastChar prev x.1) x.2 ∧ y.1 = x.1 ++ m := by
  unfold andThen
  rw [List.mem_map]
  constructor
  · rintro ⟨⟨m, rest⟩, hm, rfl⟩
    exact ⟨m, hm, rfl⟩
  · rintro ⟨m, hm, heq⟩
    exact ⟨(m, y.2), hm, Prod.ext heq.symm rfl⟩

theorem mem_run_seq : x ∈ run (seq r t) prev s ↔
    ∃ m m' rest, (m, rest) ∈ run r prev s ∧ (m', x.2) ∈ run t (lastChar prev m) rest ∧ x.1 = m ++ m' := by
  simp only [run, List.mem_flatMap, mem_andThen, Prod.exists]
  constructor
  · rintro ⟨m, rest, hm, m', hm', heq⟩
    exact ⟨m, m', rest, hm, hm', heq⟩
  · rintro ⟨m, m', rest, hm, hm', heq⟩
    exact ⟨m, rest, hm, m', hm', heq⟩

/-- A property of matches that one repetition more keeps. -/
theorem runStar_induction {f : Option Char → List Char → List Match}
    {P : Option Char → List Char → Match → Prop} (stop : ∀ prev s, P prev s ([], s))
    (more : ∀ prev s m m' rest rest', (m, rest) ∈ f prev s → m ≠ [] → P (lastChar prev m) rest (m', rest') →
      P prev s (m ++ m', rest')) (n : Nat) :
    ∀ prev s x, x ∈ runStar f n prev s → P prev s x := by
  induction n with
  | zero =>
      intro prev s x hx
      rw [List.mem_singleton.1 hx]
      exact stop prev s
  | succ n ih =>
      intro prev s x hx
      unfold runStar at hx
      rcases List.mem_append.1 hx with hx | hx
      · obtain ⟨⟨m, rest⟩, hm, hx⟩ := List.mem_flatMap.1 hx
        obtain ⟨hm, hne⟩ := List.mem_filter.1 hm
        obtain ⟨m', hm', heq⟩ := mem_andThen.1 hx
        have hmore := more prev s m m' rest x.2 hm (by simpa using hne) (ih _ _ _ hm')
        rwa [← heq] at hmore
      · rw [List.mem_singleton.1 hx]
        exact stop prev s

/-- The order of the search does not change what there is to find. -/
theorem mem_runLazy {f : Option Char → List Char → List Match} {n : Nat} :
    x ∈ runLazy f n prev s ↔ x ∈ runStar f n prev s := by
  induction n generalizing prev s x with
  | zero => exact Iff.rfl
  | succ n ih =>
      unfold runLazy runStar
      rw [List.mem_cons, List.mem_append, List.mem_singleton, or_comm]
      simp only [List.mem_flatMap, mem_andThen, ih]

theorem mem_run_lazyStar : x ∈ run (lazyStar r) prev s ↔ x ∈ run (star r) prev s := mem_runLazy

theorem eq_append_of_mem_runStar {f : Option Char → List Char → List Match}
    (h : ∀ prev s x, x ∈ f prev s → s = x.1 ++ x.2) {n : Nat} (hx : x ∈ runStar f n prev s) :
    s = x.1 ++ x.2 := by
  refine runStar_induction (P := fun _ s x => s = x.1 ++ x.2) (fun _ _ => rfl) ?_ n prev s x hx
  intro prev s m m' rest rest' hm _ hrest
  rw [h prev s _ hm, hrest, List.append_assoc]

theorem forall_of_mem_runStar {f : Option Char → List Char → List Match} {P : Char → Prop}
    (h : ∀ prev s x, x ∈ f prev s → ∀ c ∈ x.1, P c) {n : Nat} (hx : x ∈ runStar f n prev s) :
    ∀ c ∈ x.1, P c := by
  refine runStar_induction (P := fun _ _ x => ∀ c ∈ x.1, P c) (fun _ _ => nofun) ?_ n prev s x hx
  intro prev s m m' rest rest' hm _ hrest c hc
  rcases List.mem_append.1 hc with hc | hc
  · exact h prev s _ hm c hc
  · exact hrest c hc

/-- A match is the front of the text. -/
theorem eq_append_of_mem_run (hx : x ∈ run r prev s) : s = x.1 ++ x.2 := by
  induction r generalizing prev s x with
  | eps =>
      rw [List.mem_singleton.1 hx]
      rfl
  | char p =>
      cases s with
      | nil => cases hx
      | cons c s =>
          unfold run at hx
          split at hx
          · rw [List.mem_singleton.1 hx]
            rfl
          · cases hx
  | seq r t ihr iht =>
      obtain ⟨m, m', rest, hm, hm', heq⟩ := mem_run_seq.1 hx
      rw [heq, ihr hm, List.append_assoc, iht hm']
  | alt r t ihr iht =>
      rcases List.mem_append.1 hx with hx | hx
      · exact ihr hx
      · exact iht hx
  | star r ih => exact eq_append_of_mem_runStar (fun _ _ _ hm => ih hm) hx
  | lazyStar r ih => exact eq_append_of_mem_runStar (fun _ _ _ hm => ih hm) (mem_run_lazyStar.1 hx)
  | lineStart | lineEnd | textEnd | after =>
      unfold run at hx
      split at hx
      · rw [List.mem_singleton.1 hx]
        rfl
      · cases hx

theorem All.of_mem_run {P : Char → Prop} (h : r.All P) (hx : x ∈ run r prev s) : ∀ c ∈ x.1, P c := by
  induction r generalizing prev s x with
  | eps =>
      rw [List.mem_singleton.1 hx]
      exact nofun
  | char p =>
      cases s with
      | nil => cases hx
      | cons c s =>
          unfold run at hx
          split at hx
          · next hp =>
              rw [List.mem_singleton.1 hx]
              intro d hd
              rw [List.mem_singleton.1 hd]
              exact h c hp
          · cases hx
  | seq r t ihr iht =>
      obtain ⟨m, m', rest, hm, hm', heq⟩ := mem_run_seq.1 hx
      rw [heq]
      intro c hc
      rcases List.mem_append.1 hc with hc | hc
      · exact ihr h.1 hm c hc
      · exact iht h.2 hm' c hc
  | alt r t ihr iht =>
      rcases List.mem_append.1 hx with hx | hx
      · exact ihr h.1 hx
      · exact iht h.2 hx
  | star r ih => exact forall_of_mem_runStar (fun _ _ _ hm => ih h hm) hx
  | lazyStar r ih => exact forall_of_mem_runStar (fun _ _ _ hm => ih h hm) (mem_run_lazyStar.1 hx)
  | lineStart | lineEnd | textEnd | after =>
      unfold run at hx
      split at hx
      · rw [List.mem_singleton.1 hx]
        exact nofun
      · cases hx

end Run

/-- A match of lines begins where a line begins and ends where one ends. -/
theorem bounds_of_mem_run_line {r : Regex} {prev : Option Char} {s : List Char} {x : Match}
    (hx : x ∈ run (line r) prev s) :
    (prev = none ∨ prev = some '\n') ∧ (x.2 = [] ∨ x.2.head? = some '\n') := by
  obtain ⟨m, m', rest, hm, hm', -⟩ := mem_run_seq.1 hx
  constructor
  · unfold run at hm
    split at hm
    · next hstart => exact hstart
    · cases hm
  · obtain ⟨_, _, rest', -, hend, -⟩ := mem_run_seq.1 hm'
    unfold run at hend
    split at hend
    · next hbound =>
        rw [congrArg Prod.snd (List.mem_singleton.1 hend)]
        exact hbound
    · cases hend

/-! ## Scanning a text -/

section Scan

variable (r : Regex)

/-- The matches, each with the text between it and the match before, and the text after the last one. -/
abbrev Segments := List (List Char × List Char) × List Char

def Segments.cons (c : Char) : Segments → Segments
  | ([], tail) => ([], c :: tail)
  | ((gap, m) :: segs, tail) => ((c :: gap, m) :: segs, tail)

def scan : Nat → Option Char → List Char → Segments
  | 0, _, s => ([], s)
  | _ + 1, _, [] => ([], [])
  | n + 1, prev, c :: s =>
      match (run r prev (c :: s)).head? with
      | some (d :: m, rest) =>
          let after := scan n (d :: m).getLast? rest
          (([], d :: m) :: after.1, after.2)
      | _ => (scan n (some c) s).cons c

/-- `r.finditer(s)` -/
def findIter (s : List Char) : Segments := scan r s.length none s

/-- `r.sub(repl, s)`, of a text without references. -/
def sub (repl s : List Char) : List Char :=
  (r.findIter s).1.flatMap (fun seg => seg.1 ++ repl) ++ (r.findIter s).2

/-- `r.split(s)` -/
def split (s : List Char) : List (List Char) := (r.findIter s).1.map Prod.fst ++ [(r.findIter s).2]

/-- `r.match(s) is not None` -/
def isMatch (s : List Char) : Bool := !(run r none s).isEmpty

/-- A text in its segments: each match is one of the expression where it stands. -/
inductive Segmented : Option Char → List Char → Segments → Prop
  | tail (prev s) : Segmented prev s ([], s)
  | seg {prev : Option Char} {gap m rest : List Char} {segs : Segments} :
      (m, rest) ∈ run r (lastChar prev gap) (m ++ rest) → m ≠ [] → Segmented m.getLast? rest segs →
      Segmented prev (gap ++ m ++ rest) ((gap, m) :: segs.1, segs.2)

variable {r}

theorem Segmented.cons {prev : Option Char} {c : Char} {s : List Char} {segs : Segments}
    (h : Segmented r (some c) s segs) : Segmented r prev (c :: s) (segs.cons c) := by
  cases h with
  | tail => exact .tail _ _
  | @seg prev gap m rest segs hm hne hrest =>
      have hlast : lastChar (some c) gap = lastChar prev (c :: gap) := by
        cases gap with
        | nil => rfl
        | cons d gap =>
            rw [lastChar, lastChar, List.getLast?_cons_cons,
              List.getLast?_eq_some_getLast (List.cons_ne_nil d gap)]
            rfl
      have hseg : Segmented r prev ((c :: gap) ++ m ++ rest) ((c :: gap, m) :: segs.1, segs.2) :=
        .seg (hlast ▸ hm) hne hrest
      exact hseg

theorem segmented_scan (n : Nat) (prev : Option Char) (s : List Char) :
    Segmented r prev s (scan r n prev s) := by
  induction n generalizing prev s with
  | zero => exact .tail _ _
  | succ n ih =>
      cases s with
      | nil => exact .tail _ _
      | cons c s =>
          unfold scan
          split
          · next d m rest hhead =>
              have hmem := List.mem_of_head? hhead
              have heq := eq_append_of_mem_run hmem
              rw [heq] at hmem ⊢
              have hseg : Segmented r prev ([] ++ (d :: m) ++ rest) (([], d :: m) :: _, _) :=
                .seg hmem (List.cons_ne_nil d m) (ih (d :: m).getLast? rest)
              exact hseg
          · exact (ih (some c) s).cons

theorem segmented_findIter (s : List Char) : Segmented r none s (r.findIter s) := segmented_scan _ _ _

/-- The segments are the text. -/
theorem Segmented.eq {prev : Option Char} {s : List Char} {segs : Segments} (h : Segmented r prev s segs) :
    s = segs.1.flatMap (fun seg => seg.1 ++ seg.2) ++ segs.2 := by
  induction h with
  | tail prev s => rfl
  | seg _ _ _ ih =>
      rw [List.flatMap_cons]
      simp [ih.symm]

/-- The text before the first match. -/
def Segments.before (segs : Segments) : List Char := (segs.1.head?.map Prod.fst).getD segs.2

/-- Each match with the text up to the next one. -/
def followed : List (List Char × List Char) → List Char → List (List Char × List Char)
  | [], _ => []
  | (_, m) :: segs, tail => (m, Segments.before (segs, tail)) :: followed segs tail

/-- The text before the first match, and each match with the text behind it, are the gaps and the matches. -/
theorem flatMap_followed {β : Type*} (f g : List Char → List β) (segs : List (List Char × List Char))
    (tail : List Char) :
    f (Segments.before (segs, tail)) ++ (followed segs tail).flatMap (fun p => g p.1 ++ f p.2) =
      segs.flatMap (fun seg => f seg.1 ++ g seg.2) ++ f tail := by
  induction segs with
  | nil => exact List.append_nil _
  | cons seg segs ih =>
      rw [followed, List.flatMap_cons, List.flatMap_cons, List.append_assoc _ _ (f tail), ← ih]
      simp [Segments.before]

/-- A property of the matches, wherever they stand. -/
theorem forall_mem_findIter {P : List Char → Prop} {s : List Char}
    (h : ∀ prev s x, x ∈ run r prev s → x.1 ≠ [] → P x.1) {seg : List Char × List Char}
    (hseg : seg ∈ (r.findIter s).1) : P seg.2 := by
  have hall : ∀ {prev s segs}, Segmented r prev s segs → ∀ seg ∈ segs.1, P seg.2 := by
    intro prev s segs hsegs
    induction hsegs with
    | tail => exact nofun
    | seg hm hne _ ih =>
        intro seg hmem
        rcases List.mem_cons.1 hmem with rfl | hmem
        · exact h _ _ _ hm hne
        · exact ih seg hmem
  exact hall (segmented_findIter s) seg hseg

theorem All.of_mem_findIter {P : Char → Prop} (h : r.All P) {s : List Char} {seg : List Char × List Char}
    (hseg : seg ∈ (r.findIter s).1) : ∀ c ∈ seg.2, P c :=
  forall_mem_findIter (P := fun m => ∀ c ∈ m, P c) (fun _ _ _ hx _ => h.of_mem_run hx) hseg

end Scan

end Regex

end OpsKnowledge.Lib
