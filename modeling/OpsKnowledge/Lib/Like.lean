import Mathlib.Data.List.Infix

/-!
# Patterns of LIKE

`%` is any text, `_` any character and a backslash takes the next character of the pattern as it
is. A text without these three matches itself; with `%` behind it what begins with it, and
with `%` on both sides what has it inside.
-/

namespace OpsKnowledge.Lib

/-- Some suffix matches; `none` where one is found before that on which the match fails with an error. -/
def anySuffix (f : List Char → Option Bool) : List Char → Option Bool
  | [] => f []
  | c :: t =>
    match f (c :: t) with
    | some false => anySuffix f t
    | found => found

/-- One character, and the rest. -/
def oneThen (accepts : Char → Bool) (rest : List Char → Option Bool) : List Char → Option Bool
  | [] => some false
  | d :: t => if accepts d then rest t else some false

/-- `likeFrom escaped p t`: the pattern `p`, behind a backslash or not. A pattern that ends with its escape is
an error where there is text left to match it with. -/
def likeFrom (escaped : Bool) : List Char → List Char → Option Bool
  | [], t => if escaped then (if t.isEmpty then some false else none) else some t.isEmpty
  | c :: p, t =>
    if escaped then oneThen (· = c) (likeFrom false p) t
    else if c = '%' then anySuffix (likeFrom false p) t
    else if c = '_' then oneThen (fun _ => true) (likeFrom false p) t
    else if c = '\\' then likeFrom true p t
    else oneThen (· = c) (likeFrom false p) t

/-- `t LIKE p` -/
def like (p t : List Char) : Option Bool := likeFrom false p t

/-- A character with no meaning of its own. -/
def IsPlain (c : Char) : Prop := c ≠ '%' ∧ c ≠ '_' ∧ c ≠ '\\'

instance : DecidablePred IsPlain := fun c => inferInstanceAs (Decidable (c ≠ '%' ∧ c ≠ '_' ∧ c ≠ '\\'))

variable {q p t : List Char}

theorem like_nil (t : List Char) : like [] t = some t.isEmpty := rfl

theorem like_plain_cons {c : Char} (hc : IsPlain c) (p t : List Char) :
    like (c :: p) t = oneThen (· = c) (like p) t := by
  unfold like
  rw [likeFrom, if_neg Bool.false_ne_true, if_neg hc.1, if_neg hc.2.1, if_neg hc.2.2]

theorem like_percent (p t : List Char) : like ('%' :: p) t = anySuffix (like p) t := by
  unfold like
  rw [likeFrom, if_neg Bool.false_ne_true, if_pos rfl]

/-- A plain text matches itself, and the pattern goes on behind it. -/
theorem like_plain_append (hq : ∀ c ∈ q, IsPlain c) (p t : List Char) :
    like (q ++ p) t = if q <+: t then like p (t.drop q.length) else some false := by
  induction q generalizing t with
  | nil => exact (if_pos List.nil_prefix).symm
  | cons c q ih =>
      rw [List.forall_mem_cons] at hq
      rw [List.cons_append, like_plain_cons hq.1]
      cases t with
      | nil => exact (if_neg (by simp)).symm
      | cons d t =>
          rw [oneThen, ih hq.2]
          by_cases hdc : d = c
          · rw [if_pos (decide_eq_true hdc), hdc]
            simp [List.cons_prefix_cons]
          · rw [if_neg (by simpa using hdc), if_neg fun hpre => hdc (List.cons_prefix_cons.1 hpre).1.symm]

theorem anySuffix_of_forall {f : List Char → Option Bool} {g : List Char → Bool}
    (hf : ∀ s, f s = some (g s)) (t : List Char) : anySuffix f t = some (t.tails.any g) := by
  induction t with
  | nil =>
      rw [anySuffix, hf]
      simp
  | cons c t ih =>
      rw [anySuffix, hf, ih, List.tails_cons, List.any_cons]
      cases g (c :: t) with
      | false => rfl
      | true => rfl

/-- Whatever is left. -/
theorem like_percent_nil (t : List Char) : like ['%'] t = some true := by
  rw [like_percent, anySuffix_of_forall like_nil]
  refine congrArg some (List.any_eq_true.2 ⟨[], ?_, rfl⟩)
  exact (List.mem_tails _ _).2 List.nil_suffix

theorem like_plain (hq : ∀ c ∈ q, IsPlain c) (t : List Char) : like q t = some (decide (t = q)) := by
  have happend := like_plain_append hq [] t
  rw [List.append_nil] at happend
  rw [happend]
  split
  · next hpre =>
      obtain ⟨rest, rfl⟩ := hpre
      rw [List.drop_left, like_nil]
      cases rest with
      | nil => simp
      | cons c rest => simp
  · next hnot =>
      refine congrArg some (decide_eq_false ?_).symm
      rintro rfl
      exact hnot List.prefix_rfl

theorem like_plain_percent (hq : ∀ c ∈ q, IsPlain c) (t : List Char) :
    like (q ++ ['%']) t = some (decide (q <+: t)) := by
  rw [like_plain_append hq]
  split
  · next hpre => rw [like_percent_nil, decide_eq_true hpre]
  · next hnot => rw [decide_eq_false hnot]

theorem like_percent_plain_percent (hq : ∀ c ∈ q, IsPlain c) (t : List Char) :
    like ('%' :: (q ++ ['%'])) t = some (decide (q <:+: t)) := by
  rw [like_percent, anySuffix_of_forall (like_plain_percent hq)]
  refine congrArg some (Bool.eq_iff_iff.2 ?_)
  rw [List.any_eq_true, decide_eq_true_iff, List.infix_iff_prefix_suffix]
  simp only [List.mem_tails, decide_eq_true_iff, and_comm]

end OpsKnowledge.Lib
