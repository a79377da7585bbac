import OpsKnowledge.Lib.Packing

/-!
# Splitting a stream

A stream arrives in reads that are cut anywhere. A reader keeps a buffer: after each read it
takes the parts that a separator has ended, and leaves the last one. However the stream is cut,
the parts are those of the whole.
-/

namespace OpsKnowledge.Lib

variable {α : Type*} [DecidableEq α] {sep : List α}

/-! ## A text that goes on -/

/-- Only the last part goes on with what is appended. -/
theorem splitSeq_append_right (hsep : sep ≠ []) (xs ys : List α) :
    splitSeq sep (xs ++ ys) =
      (splitSeq sep xs).dropLast ++ splitSeq sep ((splitSeq sep xs).getLastD [] ++ ys) := by
  induction xs using splitSeq_induction hsep with
  | nil => rfl
  | append xs ih =>
      obtain ⟨part, parts, heq⟩ := List.exists_cons_of_ne_nil (splitSeq_ne_nil hsep xs)
      rw [List.append_assoc, splitSeq_append hsep, splitSeq_append hsep, ih, heq]
      rfl
  | cons x xs h ih =>
      by_cases hin : sep <:+: xs
      · have hlater : ¬ sep <+: x :: (xs ++ ys) := by
          intro hpre
          have hlength : sep.length ≤ (x :: xs).length := hin.length_le.trans (Nat.le_succ _)
          exact h (List.prefix_of_prefix_length_le hpre (List.prefix_append (x :: xs) ys) hlength)
        have hparts := one_lt_length_splitSeq hsep hin
        rw [List.cons_append, splitSeq_cons hlater, splitSeq_cons h, ih]
        match splitSeq sep xs, hparts with
        | part :: part' :: parts, _ => rfl
      · have hnone : ¬ sep <:+: x :: xs := fun hcons => (List.infix_cons_iff.1 hcons).elim h hin
        rw [splitSeq_eq_singleton hsep hnone]
        rfl

theorem splitSeq_getLastD (hsep : sep ≠ []) (xs : List α) :
    splitSeq sep ((splitSeq sep xs).getLastD []) = [(splitSeq sep xs).getLastD []] := by
  have happend := splitSeq_append_right hsep xs []
  rw [List.append_nil, List.append_nil] at happend
  obtain ⟨parts, part, heq⟩ := (List.eq_nil_or_concat (splitSeq sep xs)).resolve_left
    (splitSeq_ne_nil hsep xs)
  have hlast : (splitSeq sep xs).getLastD [] = part := by simp [heq]
  rw [hlast] at happend ⊢
  rw [heq, List.concat_eq_append, List.dropLast_concat] at happend
  exact (List.append_cancel_left happend).symm

/-! ## Parts that a separator ends -/

/-- The separator begins nowhere inside the part, nor at its end with a piece of the next one. -/
def EndsPart (sep part : List α) : Prop := ∀ s, s ≠ [] → s <:+ part → ¬ sep <+: s ++ sep

theorem splitSeq_part_append (hsep : sep ≠ []) {part : List α} (h : EndsPart sep part) (rest : List α) :
    splitSeq sep (part ++ (sep ++ rest)) = part :: splitSeq sep rest := by
  induction part with
  | nil => rw [List.nil_append, splitSeq_append hsep]
  | cons c part ih =>
      have hnone : ¬ sep <+: c :: (part ++ (sep ++ rest)) := by
        intro hpre
        refine h (c :: part) (List.cons_ne_nil _ _) (List.suffix_refl _) ?_
        have hshape : c :: (part ++ (sep ++ rest)) = (c :: part ++ sep) ++ rest := by simp
        rw [hshape] at hpre
        exact List.prefix_of_prefix_length_le hpre (List.prefix_append _ _) (by
          rw [List.length_append]
          exact Nat.le_add_left _ _)
      rw [List.cons_append, splitSeq_cons hnone,
        ih fun s hs hsuffix => h s hs (hsuffix.trans (List.suffix_cons c part))]
      rfl

/-- A stream of parts, each with the separator behind it. -/
theorem splitSeq_flatMap {β : Type*} (hsep : sep ≠ []) {part : β → List α} {xs : List β}
    (h : ∀ x ∈ xs, EndsPart sep (part x)) (rest : List α) :
    splitSeq sep ((xs.flatMap fun x => part x ++ sep) ++ rest) = xs.map part ++ splitSeq sep rest := by
  induction xs with
  | nil => rfl
  | cons x xs ih =>
      rw [List.forall_mem_cons] at h
      rw [List.flatMap_cons, List.append_assoc, List.append_assoc, splitSeq_part_append hsep h.1, ih h.2]
      rfl

omit [DecidableEq α] in
theorem endsPart_singleton {c : α} {part : List α} (h : c ∉ part) : EndsPart [c] part := by
  intro s hs hsuffix hpre
  obtain ⟨d, s, rfl⟩ := List.exists_cons_of_ne_nil hs
  have heq : c = d := (List.cons_prefix_cons.1 hpre).1
  exact h (heq ▸ hsuffix.subset List.mem_cons_self)

/-- A separator of one element ends as many parts as it occurs. -/
theorem length_splitSeq_singleton (c : α) (xs : List α) : (splitSeq [c] xs).length = xs.count c + 1 := by
  have hsep : [c] ≠ [] := List.cons_ne_nil _ _
  induction xs using splitSeq_induction hsep with
  | nil => rfl
  | append xs ih =>
      rw [splitSeq_append hsep, List.length_cons, ih, List.singleton_append, List.count_cons_self]
  | cons x xs h ih =>
      have hne : x ≠ c := fun heq => h (heq ▸ List.prefix_append [x] xs)
      rw [splitSeq_cons h, List.length_modifyHead, ih, List.count_cons_of_ne hne]

/-! ## Reads -/

/-- The parts that each read has completed, and the buffer after the last one. -/
def readParts (sep : List α) : List α → List (List α) → List (List (List α)) × List α
  | buffer, [] => ([], buffer)
  | buffer, read :: reads =>
    let parts := splitSeq sep (buffer ++ read)
    let (groups, buffer) := readParts sep (parts.getLastD []) reads
    (parts.dropLast :: groups, buffer)

/-- However the stream is cut, the parts are those of the whole, and so is what is left of it. -/
theorem readParts_flatten (hsep : sep ≠ []) {buffer : List α} (hbuffer : splitSeq sep buffer = [buffer])
    (reads : List (List α)) :
    (readParts sep buffer reads).1.flatten = (splitSeq sep (buffer ++ reads.flatten)).dropLast ∧
      (readParts sep buffer reads).2 = (splitSeq sep (buffer ++ reads.flatten)).getLastD [] := by
  induction reads generalizing buffer with
  | nil => simp [readParts, hbuffer]
  | cons read reads ih =>
      obtain ⟨hparts, hlast⟩ := ih (splitSeq_getLastD hsep (buffer ++ read))
      obtain ⟨part, parts, heq⟩ := List.exists_cons_of_ne_nil
        (splitSeq_ne_nil hsep ((splitSeq sep (buffer ++ read)).getLastD [] ++ reads.flatten))
      have happend := splitSeq_append_right hsep (buffer ++ read) reads.flatten
      unfold readParts
      dsimp only
      rw [List.flatten_cons, List.flatten_cons, hparts, hlast, ← List.append_assoc, happend, heq]
      constructor
      · rw [List.dropLast_append_of_ne_nil (List.cons_ne_nil _ _)]
      · simp [List.getLast?_cons]

/-- Each read completes as many parts as there are separators of one element in it. -/
theorem length_readParts (c : α) {buffer : List α} (hbuffer : splitSeq [c] buffer = [buffer])
    (reads : List (List α)) :
    List.Forall₂ (fun parts read => parts.length = read.count c) (readParts [c] buffer reads).1 reads := by
  induction reads generalizing buffer with
  | nil => exact .nil
  | cons read reads ih =>
      have hnone : buffer.count c = 0 := by
        have hlength := length_splitSeq_singleton c buffer
        rw [hbuffer, List.length_singleton] at hlength
        omega
      refine .cons ?_ (ih (splitSeq_getLastD (List.cons_ne_nil _ _) _))
      rw [List.length_dropLast, length_splitSeq_singleton, List.count_append, hnone]
      omega

/-- One read of a reader that hands the parts of a read to `take` together. -/
def readLoop {σ : Type*} (sep : List α) (take : σ → List (List α) → σ) :
    List α × σ → List α → List α × σ
  | (buffer, s), read =>
    let parts := splitSeq sep (buffer ++ read)
    (parts.getLastD [], take s parts.dropLast)

theorem foldl_readLoop {σ : Type*} (take : σ → List (List α) → σ) (buffer : List α) (s : σ)
    (reads : List (List α)) : reads.foldl (readLoop sep take) (buffer, s) =
      ((readParts sep buffer reads).2, (readParts sep buffer reads).1.foldl take s) := by
  induction reads generalizing buffer s with
  | nil => rfl
  | cons read reads ih =>
      rw [List.foldl_cons, readLoop, ih]
      rfl

/-- A reader that takes the parts one by one sees those of the whole stream. -/
theorem foldl_readLoop_foldl {σ : Type*} (hsep : sep ≠ []) (step : σ → List α → σ) (s : σ)
    (reads : List (List α)) : (reads.foldl (readLoop sep (List.foldl step)) ([], s)).2 =
      (splitSeq sep reads.flatten).dropLast.foldl step s := by
  rw [foldl_readLoop, ← List.foldl_flatten, (readParts_flatten hsep (splitSeq_nil sep) reads).1,
    List.nil_append]

/-- What has been completed of a stream that is still to go on. -/
theorem dropLast_splitSeq_prefix (hsep : sep ≠ []) {xs ys : List α} (h : xs <+: ys) :
    (splitSeq sep xs).dropLast <+: (splitSeq sep ys).dropLast := by
  obtain ⟨rest, rfl⟩ := h
  rw [splitSeq_append_right hsep, List.dropLast_append_of_ne_nil (splitSeq_ne_nil hsep _)]
  exact List.prefix_append _ _

end OpsKnowledge.Lib
