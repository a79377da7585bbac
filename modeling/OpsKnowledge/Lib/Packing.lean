import Mathlib.Data.List.Basic
import Mathlib.Data.List.Chain
import Mathlib.Data.List.Infix
import Mathlib.Tactic.Common

/-!
# Splitting lists and packing the parts

A list is cut into slices of one length, or split at the occurrences of a separator. Parts are
packed greedily into pieces up to a size: a part joins the piece that is being filled while
the two and a separator fit, and a part that is too large by itself is split again.
-/

namespace OpsKnowledge.Lib

variable {α : Type*}

/-! ## Slices -/

/-- `[xs[i : i + n] for i in range(0, len(xs), n)]` -/
def slices (n : Nat) (xs : List α) : List (List α) :=
  (List.range ((xs.length + n - 1) / n)).map fun i => (xs.drop (i * n)).take n

theorem flatten_slices {n : Nat} (hn : 0 < n) (xs : List α) : (slices n xs).flatten = xs := by
  have htake : ∀ k, ((List.range k).map fun i => (xs.drop (i * n)).take n).flatten = xs.take (k * n) := by
    intro k
    induction k with
    | zero => simp
    | succ k ih =>
        rw [List.range_succ, List.map_append, List.flatten_append, ih, Nat.succ_mul, List.take_add]
        simp
  unfold slices
  rw [htake]
  apply List.take_of_length_le
  have hlt : xs.length + n - 1 < (xs.length + n - 1) / n * n + n := Nat.lt_div_mul_add hn
  omega

theorem length_le_of_mem_slices {n : Nat} {xs piece : List α} (h : piece ∈ slices n xs) :
    piece.length ≤ n := by
  obtain ⟨i, -, rfl⟩ := List.mem_map.1 h
  exact List.length_take_le _ _

/-- `range(0, n, step)` -/
def rangeStep (n step : Nat) : List Nat := (List.range ((n + step - 1) / step)).map (· * step)

/-- Ranges from each start up to the next one cover the range, in its order. -/
theorem flatMap_rangeStep {n step : Nat} (hstep : 0 < step) :
    ((rangeStep n step).flatMap fun start => List.range' start (min (start + step) n - start)) =
      List.range n := by
  have hflat := flatten_slices hstep (List.range n)
  unfold slices at hflat
  rw [List.length_range] at hflat
  conv_rhs => rw [← hflat]
  rw [rangeStep, List.flatMap_map, List.flatMap_def]
  congr 1
  apply List.map_congr_left
  intro i _
  rw [List.range_eq_range', List.drop_range', Nat.mul_one, Nat.zero_add]
  by_cases hlast : n - i * step ≤ step
  · rw [List.take_range'_of_length_le hlast]
    congr 1
    omega
  · rw [List.take_range'_of_length_ge (by omega)]
    congr 1
    omega

/-! ## Splitting at a separator -/

section Split

variable [DecidableEq α] (sep : List α)

/-- `xs.split(sep)`; of a separator that was found, `skip` elements are still ahead. -/
def splitFrom : Nat → List α → List (List α)
  | _, [] => [[]]
  | skip + 1, _ :: xs => splitFrom skip xs
  | 0, x :: xs =>
      if sep <+: x :: xs then [] :: splitFrom (sep.length - 1) xs
      else (splitFrom 0 xs).modifyHead (x :: ·)

def splitSeq (xs : List α) : List (List α) := splitFrom sep 0 xs

@[simp] theorem splitSeq_nil : splitSeq sep [] = [[]] := rfl

theorem splitFrom_eq (skip : Nat) (xs : List α) : splitFrom sep skip xs = splitSeq sep (xs.drop skip) := by
  induction skip generalizing xs with
  | zero => rfl
  | succ skip ih =>
      cases xs with
      | nil => rfl
      | cons x xs => exact ih xs

variable {sep}

theorem splitSeq_append (hsep : sep ≠ []) (xs : List α) :
    splitSeq sep (sep ++ xs) = [] :: splitSeq sep xs := by
  cases sep with
  | nil => exact absurd rfl hsep
  | cons c sep =>
      have hprefix : c :: sep <+: c :: (sep ++ xs) := List.prefix_append (c :: sep) xs
      rw [List.cons_append]
      unfold splitSeq
      rw [splitFrom, if_pos hprefix, splitFrom_eq]
      simp [splitSeq]

theorem splitSeq_cons {x : α} {xs : List α} (h : ¬ sep <+: x :: xs) :
    splitSeq sep (x :: xs) = (splitSeq sep xs).modifyHead (x :: ·) := by
  unfold splitSeq
  rw [splitFrom, if_neg h]

/-- A text is empty, begins with the separator, or has a character before the rest. -/
theorem splitSeq_induction {P : List α → Prop} (hsep : sep ≠ []) (nil : P [])
    (append : ∀ xs, P xs → P (sep ++ xs)) (cons : ∀ x xs, ¬ sep <+: x :: xs → P xs → P (x :: xs))
    (xs : List α) : P xs := by
  induction hlength : xs.length using Nat.strong_induction_on generalizing xs with
  | _ n ih =>
      cases xs with
      | nil => exact nil
      | cons x xs =>
          by_cases h : sep <+: x :: xs
          · obtain ⟨rest, hrest⟩ := h
            have hpos := List.length_pos_iff.2 hsep
            have hsum := congrArg List.length hrest
            rw [List.length_append] at hsum
            rw [← hrest]
            exact append rest (ih rest.length (by omega) rest rfl)
          · rw [List.length_cons] at hlength
            exact cons x xs h (ih xs.length (by omega) xs rfl)

theorem splitSeq_ne_nil (hsep : sep ≠ []) (xs : List α) : splitSeq sep xs ≠ [] := by
  induction xs using splitSeq_induction hsep with
  | nil => exact List.cons_ne_nil _ _
  | append xs _ =>
      rw [splitSeq_append hsep]
      exact List.cons_ne_nil _ _
  | cons x xs h ih =>
      rw [splitSeq_cons h]
      intro hnil
      exact ih (List.modifyHead_eq_nil_iff.1 hnil)

/-- The parts with the separator between them are the text. -/
theorem intercalate_splitSeq (hsep : sep ≠ []) (xs : List α) : sep.intercalate (splitSeq sep xs) = xs := by
  induction xs using splitSeq_induction hsep with
  | nil => simp
  | append xs ih =>
      rw [splitSeq_append hsep, List.intercalate_cons_of_ne_nil (splitSeq_ne_nil hsep xs), ih]
      rfl
  | cons x xs h ih =>
      rw [splitSeq_cons h]
      obtain ⟨part, parts, heq⟩ := List.exists_cons_of_ne_nil (splitSeq_ne_nil hsep xs)
      rw [heq] at ih ⊢
      rw [List.modifyHead_cons, List.intercalate_cons_cons_left, ih]

theorem splitSeq_eq_singleton (hsep : sep ≠ []) {xs : List α} (h : ¬ sep <:+: xs) :
    splitSeq sep xs = [xs] := by
  induction xs using splitSeq_induction hsep with
  | nil => rfl
  | append xs _ => exact absurd (List.prefix_append sep xs).isInfix h
  | cons x xs hno ih =>
      rw [splitSeq_cons hno, ih fun hin => h (hin.trans (List.suffix_cons x xs).isInfix)]
      rfl

theorem one_lt_length_splitSeq (hsep : sep ≠ []) {xs : List α} (h : sep <:+: xs) :
    1 < (splitSeq sep xs).length := by
  induction xs using splitSeq_induction hsep with
  | nil => exact absurd (List.infix_nil.1 h) hsep
  | append xs _ =>
      have hpos := List.length_pos_iff.2 (splitSeq_ne_nil hsep xs)
      rw [splitSeq_append hsep, List.length_cons]
      omega
  | cons x xs hno ih =>
      rw [splitSeq_cons hno, List.length_modifyHead]
      exact ih ((List.infix_cons_iff.1 h).resolve_left hno)

end Split

/-! ## Packing -/

/-- The pieces that are finished and the one that is being filled. -/
abbrev Packed (α : Type*) := List (List α) × List α

section Pack

variable (size : Int) (sep : List α) (resplit : List α → Option (List (List α)))

/-- The pieces when nothing follows; an empty one is not kept. -/
def closed (st : Packed α) : List (List α) := if st.2.isEmpty then st.1 else st.1 ++ [st.2]

/-- The piece with one more part. -/
def candidate (st : Packed α) (part : List α) : List α := if st.2.isEmpty then part else st.2 ++ sep ++ part

/-- `none` when splitting a part again raises. -/
def packStep (st : Packed α) (part : List α) : Option (Packed α) :=
  if ((candidate sep st part).length : Int) ≤ size then some (st.1, candidate sep st part)
  else if size < (part.length : Int) then do
    let sub ← resplit part
    some (closed st ++ sub, [])
  else some (closed st, part)

def pack (parts : List (List α)) : Option (List (List α)) := do
  let st ← parts.foldlM (packStep size sep resplit) ([], [])
  some (closed st)

/-- What one part does. -/
inductive PackStep (st : Packed α) (part : List α) : Packed α → Prop
  | start : st.2 = [] → (part.length : Int) ≤ size → PackStep st part (st.1, part)
  | join : st.2 ≠ [] → ((st.2 ++ sep ++ part).length : Int) ≤ size →
      PackStep st part (st.1, st.2 ++ sep ++ part)
  | cut : st.2 ≠ [] → (part.length : Int) ≤ size → size < ((st.2 ++ sep ++ part).length : Int) →
      PackStep st part (closed st, part)
  | split {sub : List (List α)} : size < (part.length : Int) → resplit part = some sub →
      PackStep st part (closed st ++ sub, [])

variable {size sep resplit}

theorem candidate_of_nil {st : Packed α} (h : st.2 = []) (part : List α) : candidate sep st part = part := by
  simp [candidate, h]

theorem candidate_of_ne_nil {st : Packed α} (h : st.2 ≠ []) (part : List α) :
    candidate sep st part = st.2 ++ sep ++ part := by
  simp [candidate, h]

theorem packStep_eq_some {st st' : Packed α} {part : List α}
    (h : packStep size sep resplit st part = some st') : PackStep size sep resplit st part st' := by
  unfold packStep at h
  split at h
  · next hfits =>
      cases h
      by_cases hnil : st.2 = []
      · rw [candidate_of_nil hnil] at hfits ⊢
        exact .start hnil hfits
      · rw [candidate_of_ne_nil hnil] at hfits ⊢
        exact .join hnil hfits
  · next hlarge =>
      split at h
      · next hpart =>
          obtain ⟨sub, hsub, heq⟩ := Option.bind_eq_some_iff.1 h
          cases heq
          exact .split hpart hsub
      · next hpart =>
          cases h
          have hne : st.2 ≠ [] := by
            intro hnil
            rw [candidate_of_nil hnil] at hlarge
            omega
          rw [candidate_of_ne_nil hne] at hlarge
          exact .cut hne (by omega) (by omega)

theorem packStep_isSome {st : Packed α} {part : List α}
    (h : size < (part.length : Int) → (resplit part).isSome) :
    (packStep size sep resplit st part).isSome := by
  unfold packStep
  split
  · rfl
  · split
    · next hlarge =>
        obtain ⟨sub, hsub⟩ := Option.isSome_iff_exists.1 (h hlarge)
        rw [hsub]
        rfl
    · rfl

theorem pack_isSome {parts : List (List α)}
    (h : ∀ part ∈ parts, size < (part.length : Int) → (resplit part).isSome) :
    (pack size sep resplit parts).isSome := by
  have hfold : ∀ (parts : List (List α)) (st : Packed α),
      (∀ part ∈ parts, size < (part.length : Int) → (resplit part).isSome) →
      (parts.foldlM (packStep size sep resplit) st).isSome := by
    intro parts
    induction parts with
    | nil => exact fun st _ => rfl
    | cons part parts ih =>
        intro st hparts
        rw [List.foldlM_cons]
        have hsome : (packStep size sep resplit st part).isSome :=
          packStep_isSome (hparts part List.mem_cons_self)
        obtain ⟨st', hst'⟩ := Option.isSome_iff_exists.1 hsome
        rw [hst']
        exact ih st' fun q hq => hparts q (List.mem_cons_of_mem part hq)
  obtain ⟨st, hst⟩ := Option.isSome_iff_exists.1 (hfold parts ([], []) h)
  unfold pack
  rw [hst]
  rfl

/-- One part that is too large is what it is split into. -/
theorem pack_singleton {part : List α} (h : size < (part.length : Int)) :
    pack size sep resplit [part] = resplit part := by
  have hlarge : ¬ ((candidate sep ([], []) part).length : Int) ≤ size := by
    rw [candidate_of_nil rfl]
    omega
  unfold pack
  rw [List.foldlM_cons]
  unfold packStep
  rw [if_neg hlarge, if_pos h]
  cases resplit part <;> simp [closed]

/-- What holds of no part and is kept by every part holds at the end of the parts. -/
theorem pack_induction {P : List (List α) → Packed α → Prop} {parts pieces : List (List α)}
    (h : pack size sep resplit parts = some pieces) (nil : P [] ([], []))
    (step : ∀ done part st st', part ∈ parts → P done st → PackStep size sep resplit st part st' →
      P (done ++ [part]) st') : ∃ st, pieces = closed st ∧ P parts st := by
  obtain ⟨st, hfold, heq⟩ := Option.bind_eq_some_iff.1 h
  cases heq
  refine ⟨st, rfl, ?_⟩
  have hrun : ∀ (rest done : List (List α)) (st₀ : Packed α), P done st₀ → (∀ part ∈ rest, part ∈ parts) →
      rest.foldlM (packStep size sep resplit) st₀ = some st → P (done ++ rest) st := by
    intro rest
    induction rest with
    | nil =>
        intro done st₀ hst₀ _ heq
        cases heq
        rwa [List.append_nil]
    | cons part rest ih =>
        intro done st₀ hst₀ hmem heq
        rw [List.foldlM_cons] at heq
        obtain ⟨st₁, hst₁, hrest⟩ := Option.bind_eq_some_iff.1 heq
        have hnext := ih (done ++ [part]) st₁
          (step done part st₀ st₁ (hmem part List.mem_cons_self) hst₀ (packStep_eq_some hst₁))
          (fun q hq => hmem q (List.mem_cons_of_mem part hq)) hrest
        rwa [List.append_assoc] at hnext
  exact hrun parts [] ([], []) nil (fun _ hpart => hpart) hfold

/-! ### Sizes -/

theorem closed_of_nil {st : Packed α} (h : st.2 = []) : closed st = st.1 := by simp [closed, h]

theorem closed_of_ne_nil {st : Packed α} (h : st.2 ≠ []) : closed st = st.1 ++ [st.2] := by
  simp [closed, h]

theorem mem_closed {st : Packed α} {piece : List α} (h : piece ∈ closed st) :
    piece ∈ st.1 ∨ piece = st.2 := by
  unfold closed at h
  split at h
  · exact .inl h
  · simpa using h

/-- The pieces are as large as allowed. -/
theorem length_le_of_mem_pack {parts pieces : List (List α)} (h : pack size sep resplit parts = some pieces)
    (hsub : ∀ part ∈ parts, ∀ sub, resplit part = some sub → ∀ piece ∈ sub, piece.length ≤ size.toNat) :
    ∀ piece ∈ pieces, piece.length ≤ size.toNat := by
  obtain ⟨st, rfl, hst⟩ := pack_induction
    (P := fun _ st => ∀ piece, piece ∈ st.1 ∨ piece = st.2 → piece.length ≤ size.toNat) h
    (by
      intro piece hpiece
      rcases hpiece with hpiece | rfl
      · cases hpiece
      · exact Nat.zero_le _) (by
      intro done part st st' hpart hst hstep
      have hclosed : ∀ piece ∈ closed st, piece.length ≤ size.toNat :=
        fun piece hp => hst piece (mem_closed hp)
      intro piece hpiece
      cases hstep with
      | start hnil hfits =>
          rcases hpiece with hpiece | rfl
          · exact hst piece (.inl hpiece)
          · omega
      | join hne hfits =>
          rcases hpiece with hpiece | rfl
          · exact hst piece (.inl hpiece)
          · dsimp only
            omega
      | cut hne hfits hlarge =>
          rcases hpiece with hpiece | rfl
          · exact hclosed piece hpiece
          · omega
      | split hlarge hresplit =>
          rcases hpiece with hpiece | rfl
          · rcases List.mem_append.1 hpiece with hpiece | hpiece
            · exact hclosed piece hpiece
            · exact hsub part hpart _ hresplit piece hpiece
          · exact Nat.zero_le _)
  exact fun piece hpiece => hst piece (mem_closed hpiece)

/-! ### Contents -/

def held (st : Packed α) : List α := st.1.flatten ++ st.2

theorem flatten_closed (st : Packed α) : (closed st).flatten = held st := by
  by_cases h : st.2 = []
  · rw [closed_of_nil h, held, h, List.append_nil]
  · rw [closed_of_ne_nil h, held, List.flatten_append, List.flatten_singleton]

/-- What comes out of a part: it, or the pieces that it is split into. -/
def partContent (size : Int) (resplit : List α → Option (List (List α))) (part : List α) : List α :=
  if size < (part.length : Int) then ((resplit part).getD []).flatten else part

/-- A part is added behind the separator when it joins, and otherwise without it. -/
theorem PackStep.held_eq {st st' : Packed α} {part : List α} (h : PackStep size sep resplit st part st') :
    (held st' = held st ++ sep ++ partContent size resplit part ∧ st.2 ≠ [] ∧
        st' = (st.1, st.2 ++ sep ++ part) ∧ ((st.2 ++ sep ++ part).length : Int) ≤ size) ∨
      held st' = held st ++ partContent size resplit part ∧
        (st.2 = [] ∨ size < ((st.2 ++ sep ++ part).length : Int)) ∧
        st'.2 = if (part.length : Int) ≤ size then part else [] := by
  cases h with
  | start hnil hfits =>
      refine .inr ⟨?_, .inl hnil, (if_pos hfits).symm⟩
      rw [held, held, hnil, List.append_nil, partContent, if_neg (by omega)]
  | join hne hfits =>
      have hpart : ¬ size < (part.length : Int) := by
        rw [List.length_append] at hfits
        omega
      refine .inl ⟨?_, hne, rfl, hfits⟩
      rw [partContent, if_neg hpart]
      simp [held]
  | cut hne hfits hlarge =>
      refine .inr ⟨?_, .inr hlarge, (if_pos hfits).symm⟩
      rw [held, flatten_closed, partContent, if_neg (by omega)]
  | split hlarge hsub =>
      have hlarge' : size < ((st.2 ++ sep ++ part).length : Int) := by
        rw [List.length_append]
        omega
      refine .inr ⟨?_, .inr hlarge', (if_neg (by omega)).symm⟩
      rw [held, List.flatten_append, flatten_closed, List.append_nil, partContent, if_pos hlarge, hsub,
        Option.getD_some]

theorem filter_intercalate {q : α → Bool} (hsep : sep.filter q = []) (parts : List (List α)) :
    (sep.intercalate parts).filter q = parts.flatMap (·.filter q) := by
  induction parts with
  | nil => rfl
  | cons part parts ih =>
      cases parts with
      | nil => simp
      | cons part' parts =>
          rw [List.intercalate_cons_cons, List.filter_append, List.filter_append, hsep, List.append_nil, ih]
          rfl

theorem sublist_flatMap {β : Type*} {f g : β → List α} {xs : List β} (h : ∀ x ∈ xs, (f x).Sublist (g x)) :
    (xs.flatMap f).Sublist (xs.flatMap g) := by
  induction xs with
  | nil => exact List.Sublist.refl _
  | cons x xs ih =>
      rw [List.flatMap_cons, List.flatMap_cons]
      exact (h x List.mem_cons_self).append (ih fun y hy => h y (List.mem_cons_of_mem x hy))

/-- Parts of which each may lose something: nothing is lost together when none loses anything. -/
theorem sublist_flatMap_iff {β : Type*} {f g : β → List α} {xs : List β}
    (h : ∀ x ∈ xs, (f x).Sublist (g x)) :
    (xs.flatMap g).Sublist (xs.flatMap f) ↔ ∀ x ∈ xs, f x = g x := by
  constructor
  · intro hsub
    induction xs with
    | nil => exact nofun
    | cons x xs ih =>
        have hx := h x List.mem_cons_self
        have hrest := fun y hy => h y (List.mem_cons_of_mem x hy)
        have hxs := (sublist_flatMap hrest).length_le
        have hlength := hsub.length_le
        have hbound := hx.length_le
        rw [List.flatMap_cons, List.flatMap_cons, List.length_append, List.length_append] at hlength
        have hsame : f x = g x := hx.eq_of_length (by omega)
        rw [List.flatMap_cons, List.flatMap_cons, hsame] at hsub
        intro y hy
        rcases List.mem_cons.1 hy with rfl | hy
        · exact hsame
        · exact ih hrest ((List.append_sublist_append_left _).1 hsub) y hy
  · intro hsame
    have heq : xs.flatMap f = xs.flatMap g := by
      rw [List.flatMap_def, List.flatMap_def, List.map_congr_left hsame]
    rw [heq]

section Marks

variable {q : α → Bool} {parts pieces : List (List α)} (h : pack size sep resplit parts = some pieces)

include h

/-- With nothing that counts in a separator, it is what comes out of the parts. -/
theorem filter_flatten_pack (hsep : sep.filter q = []) :
    pieces.flatten.filter q = parts.flatMap fun part => (partContent size resplit part).filter q := by
  obtain ⟨st, rfl, hst⟩ := pack_induction
    (P := fun done st =>
      (held st).filter q = done.flatMap fun part => (partContent size resplit part).filter q) h rfl (by
      intro done part st st' hpart hst hstep
      rw [List.flatMap_append, List.flatMap_singleton]
      rcases hstep.held_eq with ⟨heq, -⟩ | ⟨heq, -⟩
      · rw [heq, List.filter_append, List.filter_append, hsep, List.append_nil, hst]
      · rw [heq, List.filter_append, hst])
  rw [flatten_closed, hst]

omit h in
theorem intercalate_concat {done : List (List α)} (hne : done ≠ []) (part : List α) :
    sep.intercalate (done ++ [part]) = sep.intercalate done ++ sep ++ part := by
  induction done with
  | nil => exact absurd rfl hne
  | cons x xs ih =>
      cases xs with
      | nil => simp [List.intercalate_cons_cons]
      | cons y ys =>
          have hrest := ih (List.cons_ne_nil y ys)
          rw [List.cons_append] at hrest ⊢
          rw [List.cons_append, List.intercalate_cons_cons, List.intercalate_cons_cons, hrest]
          simp

variable (hsub : ∀ part ∈ parts, ((partContent size resplit part).filter q).Sublist (part.filter q))

include hsub

/-- After some of the parts: what is held is their text, less some of the separators. Where a separator
counts and none is lost, all parts are in the open piece, or it was one part and it was split. -/
theorem pack_kept : ∃ st, pieces = closed st ∧
    ((held st).filter q).Sublist ((sep.intercalate parts).filter q) ∧
    (sep.filter q ≠ [] → ((held st).filter q).length = ((sep.intercalate parts).filter q).length →
      (st.1 = [] ∧ st.2 = sep.intercalate parts) ∨ (parts.length = 1 ∧ st.2 = [])) := by
  obtain ⟨st, heq, hst, -, hkept⟩ := pack_induction
    (P := fun done st => ((held st).filter q).Sublist ((sep.intercalate done).filter q) ∧
      (done = [] → st = ([], [])) ∧
      (sep.filter q ≠ [] → ((held st).filter q).length = ((sep.intercalate done).filter q).length →
        (st.1 = [] ∧ st.2 = sep.intercalate done) ∨ (done.length = 1 ∧ st.2 = [])))
    h ⟨List.Sublist.refl _, fun _ => rfl, fun _ _ => .inl ⟨rfl, rfl⟩⟩ (by
      intro done part st st' hpart ⟨hst, hfirst, hkept⟩ hstep
      by_cases hne : done = []
      · subst hne
        cases hfirst rfl
        rw [List.nil_append, List.intercalate_singleton]
        refine ⟨?_, by simp, ?_⟩
        · rcases hstep.held_eq with ⟨-, hopen, -⟩ | ⟨heq, -⟩
          · exact absurd rfl hopen
          · rw [heq]
            exact hsub part hpart
        · intro _ _
          cases hstep with
          | start _ _ => exact .inl ⟨rfl, rfl⟩
          | join hopen _ => exact absurd rfl hopen
          | cut hopen _ _ => exact absurd rfl hopen
          | split _ _ => exact .inr ⟨rfl, rfl⟩
      · rw [intercalate_concat hne, List.filter_append, List.filter_append]
        have hbound := hst.length_le
        have hbound' := (hsub part hpart).length_le
        rcases hstep.held_eq with ⟨heq, hopen, rfl, -⟩ | ⟨heq, -⟩
        · refine ⟨?_, by simp, ?_⟩
          · rw [heq, List.filter_append, List.filter_append]
            exact (hst.append (List.Sublist.refl _)).append (hsub part hpart)
          · intro hsep hlength
            rw [heq, List.filter_append, List.filter_append, List.length_append, List.length_append,
              List.length_append, List.length_append] at hlength
            rcases hkept hsep (by omega) with ⟨hpieces, hcurrent⟩ | ⟨-, hnil⟩
            · exact .inl ⟨hpieces, by rw [hcurrent]⟩
            · exact absurd hnil hopen
        · refine ⟨?_, by simp, ?_⟩
          · rw [heq, List.filter_append]
            exact (hst.trans (List.sublist_append_left _ _)).append (hsub part hpart)
          · intro hsep hlength
            have hpos := List.length_pos_iff.2 hsep
            rw [heq, List.filter_append, List.length_append, List.length_append,
              List.length_append] at hlength
            omega)
  exact ⟨st, heq, hst, hkept⟩

/-- The pieces hold the text, less some of the separators. -/
theorem filter_flatten_pack_sublist :
    (pieces.flatten.filter q).Sublist ((sep.intercalate parts).filter q) := by
  obtain ⟨st, rfl, hst, -⟩ := pack_kept h hsub
  rw [flatten_closed]
  exact hst

/-- A separator that counts is lost where more than one part goes into more than one piece. -/
theorem length_filter_flatten_pack_lt (hsep : sep.filter q ≠ []) (hparts : 1 < parts.length)
    (hone : pieces ≠ [sep.intercalate parts]) :
    (pieces.flatten.filter q).length < ((sep.intercalate parts).filter q).length := by
  obtain ⟨st, rfl, hst, hkept⟩ := pack_kept h hsub
  rw [flatten_closed]
  apply Nat.lt_of_le_of_ne hst.length_le
  intro hlength
  rcases hkept hsep hlength with ⟨hpieces, hcurrent⟩ | ⟨hsingle, -⟩
  · apply hone
    have hne : st.2 ≠ [] := by
      intro hnil
      rw [hcurrent] at hnil
      match parts, hparts with
      | x :: y :: rest, _ =>
          rw [List.intercalate_cons_cons, List.append_eq_nil_iff, List.append_eq_nil_iff] at hnil
          rw [hnil.1.2] at hsep
          exact hsep rfl
    rw [closed_of_ne_nil hne, hpieces, hcurrent]
    rfl
  · omega

end Marks

/-! ### When nothing that counts comes out -/

section Loose

variable {q : α → Bool} {parts pieces : List (List α)}

/-- Parts with nothing that counts, of which no two neighbours are joined. -/
def Loose (size : Int) (sep : List α) (q : α → Bool) (parts : List (List α)) : Prop :=
  (∀ part ∈ parts, part.filter q = []) ∧
    parts.IsChain fun x y => x = [] ∨ size < (x.length + sep.length + y.length : Nat)

theorem loose_concat {done : List (List α)} {part : List α} :
    Loose size sep q (done ++ [part]) ↔ Loose size sep q done ∧ part.filter q = [] ∧
      ∀ x ∈ done.getLast?, x = [] ∨ size < (x.length + sep.length + part.length : Nat) := by
  unfold Loose
  rw [List.isChain_append, List.forall_mem_append, List.forall_mem_singleton]
  simp only [List.isChain_singleton, List.head?_singleton, Option.mem_some_iff, forall_eq', true_and]
  tauto

/-- The last part, where it is not split again. -/
def lastOpen (size : Int) (done : List (List α)) : List α :=
  (done.getLast?.map fun x => if (x.length : Int) ≤ size then x else []).getD []

theorem lastOpen_concat (done : List (List α)) (part : List α) :
    lastOpen size (done ++ [part]) = if (part.length : Int) ≤ size then part else [] := by
  simp [lastOpen]

theorem filter_pack_eq_nil_iff (h : pack size sep resplit parts = some pieces) (hsep : sep.filter q ≠ [])
    (hsub : ∀ part ∈ parts, (partContent size resplit part).filter q = part.filter q) :
    pieces.flatten.filter q = [] ↔ Loose size sep q parts := by
  obtain ⟨st, rfl, hst, -⟩ := pack_induction
    (P := fun done st => ((held st).filter q = [] ↔ Loose size sep q done) ∧
      (Loose size sep q done → st.2 = lastOpen size done)) h
    ⟨iff_of_true rfl ⟨nofun, List.isChain_nil⟩, fun _ => rfl⟩ (by
      intro done part st st' hpart ⟨hst, hopen⟩ hstep
      rw [loose_concat, lastOpen_concat]
      have hlast : Loose size sep q done → st.2 ≠ [] → st.2 ∈ done.getLast? := by
        intro hloose hne
        rw [hopen hloose] at hne ⊢
        unfold lastOpen at hne ⊢
        cases hx : done.getLast? with
        | none =>
            rw [hx] at hne
            exact absurd rfl hne
        | some x =>
            rw [hx] at hne
            dsimp only [Option.map_some, Option.getD_some] at hne ⊢
            split at hne
            · next hfits => rw [if_pos hfits]; rfl
            · exact absurd rfl hne
      rcases hstep.held_eq with ⟨heq, hne, rfl, hfits⟩ | ⟨heq, hroom, hcurrent⟩
      · -- a separator is in what is held
        have hcounts : (held (st.1, st.2 ++ sep ++ part)).filter q ≠ [] := by
          rw [heq, List.filter_append, List.filter_append]
          simp [hsep]
        have hjoined : ¬ (Loose size sep q done ∧ part.filter q = [] ∧
            ∀ x ∈ done.getLast?, x = [] ∨ size < (x.length + sep.length + part.length : Nat)) := by
          rintro ⟨hloose, -, hnext⟩
          rw [List.length_append, List.length_append] at hfits
          rcases hnext st.2 (hlast hloose hne) with hnil | hlarge
          · exact hne hnil
          · omega
        exact ⟨iff_of_false hcounts hjoined, fun hno => absurd hno hjoined⟩
      · refine ⟨?_, fun _ => hcurrent⟩
        rw [heq, List.filter_append, List.append_eq_nil_iff, hst, hsub part hpart]
        constructor
        · rintro ⟨hloose, hnil⟩
          refine ⟨hloose, hnil, ?_⟩
          intro x hx
          by_cases hfits : (x.length : Int) ≤ size
          · have hsame : st.2 = x := by
              rw [hopen hloose, lastOpen, Option.mem_def.1 hx]
              exact if_pos hfits
            rw [hsame, List.length_append, List.length_append] at hroom
            exact hroom
          · right
            omega
        · exact fun hall => ⟨hall.1, hall.2.1⟩)
  rw [flatten_closed, hst]

end Loose

end Pack

end OpsKnowledge.Lib
