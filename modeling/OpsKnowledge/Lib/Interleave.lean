import Mathlib.Tactic.Common

/-!
# Interleavings of several lists

A merge of the outputs of concurrent producers, each of which keeps its own order.
What only one producer emits arrives in that producer's order, and complete.
-/

namespace OpsKnowledge.Lib

variable {α : Type*}

/-- `xs` takes the elements of the lists one by one, each time from the head of one of them. -/
inductive Interleaves : List (List α) → List α → Prop where
  | done {ls : List (List α)} : (∀ l ∈ ls, l = []) → Interleaves ls []
  | next {ls : List (List α)} {i : Nat} {a : α} {l xs : List α} : ls[i]? = some (a :: l) →
      Interleaves (ls.set i l) xs → Interleaves ls (a :: xs)

theorem Interleaves.filter_eq {ls : List (List α)} {xs : List α} (h : Interleaves ls xs)
    {p : α → Bool} {j : Nat} {l : List α} (hj : ls[j]? = some l)
    (hothers : ∀ i m, i ≠ j → ls[i]? = some m → ∀ x ∈ m, p x = false) :
    xs.filter p = l.filter p := by
  induction h generalizing l with
  | done hnil => rw [hnil l (List.mem_of_getElem? hj)]
  | @next ls i a m xs hi _ ih =>
      have hlen : i < ls.length := (List.getElem?_eq_some_iff.1 hi).1
      have hrest : ∀ i' m', i' ≠ j → (ls.set i m)[i']? = some m' → ∀ x ∈ m', p x = false := by
        intro i' m' hne hm' x hx
        by_cases hii : i' = i
        · subst hii
          have hmm : m = m' := by simpa [hlen] using hm'
          subst hmm
          exact hothers i' _ hne hi x (List.mem_cons_of_mem a hx)
        · rw [List.getElem?_set_ne (Ne.symm hii)] at hm'
          exact hothers i' m' hne hm' x hx
      by_cases hij : i = j
      · subst hij
        have hl : a :: m = l := by simpa [hi] using hj
        have hset : (ls.set i m)[i]? = some m := by simp [hlen]
        rw [← hl, List.filter_cons, List.filter_cons, ih hset hrest]
      · have hset : (ls.set i m)[j]? = some l := by rw [List.getElem?_set_ne hij]; exact hj
        have ha : p a = false := hothers i _ hij hi a List.mem_cons_self
        rw [List.filter_cons_of_neg (by simp [ha]), ih hset hrest]

end OpsKnowledge.Lib
