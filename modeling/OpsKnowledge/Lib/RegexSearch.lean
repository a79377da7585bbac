import OpsKnowledge.Lib.Regex

/-!
# Searching a text

`re.search`: the first place of a text at which an expression matches. What surrounds a
text takes nothing away from what an expression finds in it, unless the expression asks
where the text ends or what is before it.
-/

namespace OpsKnowledge.Lib

namespace Regex

/-- The expression does not ask where the text ends. -/
def openEnd : Regex → Bool
  | lineEnd | textEnd => false
  | seq r t | alt r t => openEnd r && openEnd t
  | star r | lazyStar r => openEnd r
  | eps | char _ | lineStart | after _ => true

/-- The expression does not ask what is before the text. -/
def openStart : Regex → Bool
  | lineStart | after _ => false
  | seq r t | alt r t => openStart r && openStart t
  | star r | lazyStar r => openStart r
  | eps | char _ | lineEnd | textEnd => true

/-- Of what is before the text the expression only asks whether a line begins. -/
def asksLines : Regex → Bool
  | after _ => false
  | seq r t | alt r t => asksLines r && asksLines t
  | star r | lazyStar r => asksLines r
  | eps | char _ | lineStart | lineEnd | textEnd => true

/-- What the expression may ask of `p`, the character before the text, holds of `q` too. -/
def Agree (p q : Option Char) : Regex → Prop
  | lineStart => p = none ∨ p = some '\n' → q = none ∨ q = some '\n'
  | after c => p.any c = true → q.any c = true
  | seq r t | alt r t => Agree p q r ∧ Agree p q t
  | star r | lazyStar r => Agree p q r
  | eps | char _ | lineEnd | textEnd => True

section Surroundings

variable {r t : Regex} {p q : Option Char} {s : List Char} {x : Match}

theorem Agree.refl (p : Option Char) (r : Regex) : Agree p p r := by
  induction r with
  | seq r t ihr iht | alt r t ihr iht => exact ⟨ihr, iht⟩
  | star r ih | lazyStar r ih => exact ih
  | lineStart | after => exact id
  | eps | char | lineEnd | textEnd => trivial

theorem agree_of_openStart (h : r.openStart = true) (p q : Option Char) : Agree p q r := by
  induction r with
  | seq r t ihr iht | alt r t ihr iht =>
      obtain ⟨hr, ht⟩ := Bool.and_eq_true_iff.1 h
      exact ⟨ihr hr, iht ht⟩
  | star r ih | lazyStar r ih => exact ih h
  | lineStart | after => cases h
  | eps | char | lineEnd | textEnd => trivial

theorem agree_of_asksLines (h : r.asksLines = true) (p : Option Char) (hq : q = none ∨ q = some '\n') :
    Agree p q r := by
  induction r with
  | seq r t ihr iht | alt r t ihr iht =>
      obtain ⟨hr, ht⟩ := Bool.and_eq_true_iff.1 h
      exact ⟨ihr hr, iht ht⟩
  | star r ih | lazyStar r ih => exact ih h
  | lineStart => exact fun _ => hq
  | after => cases h
  | eps | char | lineEnd | textEnd => trivial

/-- Behind a match that reads something, nothing is left of what was before the text. -/
theorem Agree.lastChar (h : Agree p q r) (m : List Char) : Agree (lastChar p m) (lastChar q m) r := by
  cases m with
  | nil => exact h
  | cons c m =>
      have hlast : ∀ p, Regex.lastChar p (c :: m) = (c :: m).getLast? := by
        intro p
        simp [Regex.lastChar, List.getLast?_cons]
      rw [hlast p, hlast q]
      exact Agree.refl _ _

theorem mem_runStar_surround {f g : Option Char → List Char → List Match} {post : List Char}
    {R : Option Char → Option Char → Prop} (hR : ∀ p q m, R p q → R (lastChar p m) (lastChar q m))
    (h : ∀ p q s x, R p q → x ∈ f p s → (x.1, x.2 ++ post) ∈ g q (s ++ post)) {n : Nat} :
    ∀ {n' p q s x}, n ≤ n' → R p q → x ∈ runStar f n p s →
      (x.1, x.2 ++ post) ∈ runStar g n' q (s ++ post) := by
  induction n with
  | zero =>
      intro n' p q s x _ _ hx
      obtain rfl := List.mem_singleton.1 hx
      cases n' with
      | zero => exact List.mem_singleton_self _
      | succ n' => exact List.mem_append_right _ (List.mem_singleton_self _)
  | succ n ih =>
      intro n' p q s x hn hpq hx
      obtain ⟨n', rfl⟩ : ∃ k, n' = k + 1 := ⟨n' - 1, by omega⟩
      unfold runStar at hx ⊢
      rcases List.mem_append.1 hx with hx | hx
      · obtain ⟨y, hy, hx⟩ := List.mem_flatMap.1 hx
        obtain ⟨hy, hne⟩ := List.mem_filter.1 hy
        obtain ⟨m, hm, heq⟩ := mem_andThen.1 hx
        refine List.mem_append_left _ (List.mem_flatMap.2 ⟨(y.1, y.2 ++ post), ?_, ?_⟩)
        · exact List.mem_filter.2 ⟨h p q s y hpq hy, hne⟩
        · exact mem_andThen.2 ⟨m, ih (Nat.le_of_succ_le_succ hn) (hR p q y.1 hpq) hm, heq⟩
      · obtain rfl := List.mem_singleton.1 hx
        exact List.mem_append_right _ (List.mem_singleton_self _)

/-- A match stays one when the text goes on, and when something else is before it. -/
theorem mem_run_surround (hend : r.openEnd = true) (hpq : Agree p q r) (post : List Char)
    (hx : x ∈ run r p s) : (x.1, x.2 ++ post) ∈ run r q (s ++ post) := by
  induction r generalizing p q s x with
  | eps =>
      obtain rfl := List.mem_singleton.1 hx
      exact List.mem_singleton_self _
  | char c =>
      cases s with
      | nil => cases hx
      | cons d s =>
          unfold run at hx
          split at hx
          · next hd =>
              obtain rfl := List.mem_singleton.1 hx
              rw [List.cons_append, run, if_pos hd]
              exact List.mem_singleton_self _
          · cases hx
  | seq r t ihr iht =>
      obtain ⟨hr, ht⟩ := Bool.and_eq_true_iff.1 hend
      obtain ⟨m, m', rest, hm, hm', heq⟩ := mem_run_seq.1 hx
      exact mem_run_seq.2 ⟨m, m', rest ++ post, ihr hr hpq.1 hm, iht ht (hpq.2.lastChar m) hm', heq⟩
  | alt r t ihr iht =>
      obtain ⟨hr, ht⟩ := Bool.and_eq_true_iff.1 hend
      rcases List.mem_append.1 hx with hx | hx
      · exact List.mem_append_left _ (ihr hr hpq.1 hx)
      · exact List.mem_append_right _ (iht ht hpq.2 hx)
  | star r ih =>
      exact mem_runStar_surround (R := fun p q => Agree p q r) (fun _ _ m h => h.lastChar m)
        (fun _ _ _ _ h hm => ih hend h hm) (by simp) hpq hx
  | lazyStar r ih =>
      exact mem_run_lazyStar.2 (mem_runStar_surround (R := fun p q => Agree p q r)
        (fun _ _ m h => h.lastChar m) (fun _ _ _ _ h hm => ih hend h hm) (by simp) hpq
        (mem_run_lazyStar.1 hx))
  | lineStart | after =>
      unfold run at hx ⊢
      split at hx
      · next hbefore =>
          obtain rfl := List.mem_singleton.1 hx
          rw [if_pos (hpq hbefore)]
          exact List.mem_singleton_self _
      · cases hx
  | lineEnd | textEnd => cases hend

end Surroundings

/-! ## The search -/

/-- `r.search(s)` from a place on: where the match begins and ends. -/
def searchFrom (r : Regex) : Nat → Option Char → List Char → Option (Nat × Nat)
  | i, prev, [] => (run r prev []).head?.map fun x => (i, i + x.1.length)
  | i, prev, c :: s =>
      match (run r prev (c :: s)).head? with
      | some x => some (i, i + x.1.length)
      | none => searchFrom r (i + 1) (some c) s

def search (r : Regex) (s : List Char) : Option (Nat × Nat) := searchFrom r 0 none s

variable {r : Regex}

theorem searchFrom_isSome_iff {i : Nat} {prev : Option Char} {s : List Char} :
    (searchFrom r i prev s).isSome ↔
      ∃ before rest, s = before ++ rest ∧ run r (lastChar prev before) rest ≠ [] := by
  induction s generalizing i prev with
  | nil =>
      rw [searchFrom, Option.isSome_map, List.isSome_head?]
      constructor
      · intro h
        exact ⟨[], [], rfl, by simpa [lastChar] using h⟩
      · rintro ⟨before, rest, heq, h⟩
        obtain ⟨rfl, rfl⟩ := List.append_eq_nil_iff.1 heq.symm
        simpa [lastChar] using h
  | cons c s ih =>
      have hlast : ∀ before, lastChar prev (c :: before) = lastChar (some c) before := by
        intro before
        cases before with
        | nil => rfl
        | cons d before => simp [lastChar, List.getLast?_cons]
      rw [searchFrom]
      cases hhead : (run r prev (c :: s)).head? with
      | some x =>
          refine iff_of_true rfl ⟨[], c :: s, rfl, ?_⟩
          intro hnil
          rw [show lastChar prev [] = prev from rfl] at hnil
          simp [hnil] at hhead
      | none =>
          rw [List.head?_eq_none_iff] at hhead
          simp only [ih]
          constructor
          · rintro ⟨before, rest, rfl, h⟩
            exact ⟨c :: before, rest, rfl, by rwa [hlast]⟩
          · rintro ⟨before, rest, heq, h⟩
            cases before with
            | nil =>
                cases heq
                exact absurd hhead h
            | cons d before =>
                cases heq
                exact ⟨before, rest, rfl, by rwa [← hlast]⟩

/-- What is found in a text is found in the text with its surroundings. -/
theorem isSome_search_surround {s pre post : List Char} (hend : r.openEnd = true)
    (hpre : Agree none pre.getLast? r) (h : (search r s).isSome) :
    (search r (pre ++ s ++ post)).isSome := by
  obtain ⟨before, rest, rfl, hrun⟩ := searchFrom_isSome_iff.1 h
  obtain ⟨x, hx⟩ := List.exists_mem_of_ne_nil _ hrun
  have hlast : lastChar none (pre ++ before) = lastChar pre.getLast? before := by
    simp [lastChar, List.getLast?_append]
  refine searchFrom_isSome_iff.2 ⟨pre ++ before, rest ++ post, by simp, ?_⟩
  rw [hlast]
  exact List.ne_nil_of_mem (mem_run_surround hend (hpre.lastChar before) post hx)

end Regex

end OpsKnowledge.Lib
