import Mathlib.Tactic.Common

/-!
# Patterns in a text

A pattern reads what it matches at the beginning of a text. Scanning goes from left to right:
where the pattern matches, the match is taken as a whole. No match of a delimited pattern
begins inside another, so a scan finds a match wherever the pattern matches.
-/

namespace OpsKnowledge.Lib

variable {γ α β ε : Type*}

/-- What is matched at the beginning of a text, and the text after it. -/
abbrev Pattern (γ α : Type*) := List γ → Option (α × List γ)

/-! ## Runs of a class -/

/-- A run ends where a character is not of its class. -/
theorem takeWhile_append_of_boundary {p : γ → Bool} {xs ys : List γ} (hxs : ∀ c ∈ xs, p c)
    (hys : ∀ c, ys.head? = some c → p c = false) : (xs ++ ys).takeWhile p = xs := by
  rw [List.takeWhile_append_of_pos hxs]
  cases ys with
  | nil => simp
  | cons c ys => simp [hys c rfl]

theorem dropWhile_append_of_boundary {p : γ → Bool} {xs ys : List γ} (hxs : ∀ c ∈ xs, p c)
    (hys : ∀ c, ys.head? = some c → p c = false) : (xs ++ ys).dropWhile p = ys := by
  rw [List.dropWhile_append_of_pos hxs]
  cases ys with
  | nil => rfl
  | cons c ys => simp [hys c rfl]

/-- The text after `p`. -/
def expect [DecidableEq γ] (p s : List γ) : Option (List γ) :=
  if p.isPrefixOf s then some (s.drop p.length) else none

theorem expect_eq_some [DecidableEq γ] {p s t : List γ} : expect p s = some t ↔ s = p ++ t := by
  unfold expect
  constructor
  · intro h
    split at h
    · next hpre =>
        obtain ⟨t', rfl⟩ := List.isPrefixOf_iff_prefix.1 hpre
        cases h
        rw [List.drop_left]
    · cases h
  · rintro rfl
    have hpre : p.isPrefixOf (p ++ t) = true := List.isPrefixOf_iff_prefix.2 (List.prefix_append p t)
    rw [if_pos hpre, List.drop_left]

namespace Pattern

/-- The text `w` is matched as `a` whatever follows it, and no match begins inside. -/
structure Lexes (m : Pattern γ α) (w : List γ) (a : α) : Prop where
  ne : w ≠ []
  eq : ∀ r, m (w ++ r) = some (a, r)
  inside : ∀ v, v ≠ [] → v <:+ w → v ≠ w → ∀ r, m (v ++ r) = none

def Delimited (m : Pattern γ α) : Prop :=
  ∀ s a r, m s = some (a, r) → ∃ w, s = w ++ r ∧ m.Lexes w a

/-- No match of the pattern begins in `v` when `r` follows it. -/
def Quiet (m : Pattern γ α) (v r : List γ) : Prop := ∀ u, u ≠ [] → u <:+ v → m (u ++ r) = none

/-! ## Scanning -/

section Scan

variable (m : Pattern γ α)

def scan : Nat → List γ → List (γ ⊕ α)
  | 0, _ => []
  | _ + 1, [] => []
  | n + 1, c :: s =>
    match m (c :: s) with
    | some (a, r) => .inr a :: scan n r
    | none => .inl c :: scan n s

/-- The characters that are in no match, and the matches, in their order. -/
def pieces (s : List γ) : List (γ ⊕ α) := m.scan s.length s

def holes (s : List γ) : List α := (m.pieces s).filterMap Sum.getRight?

/-- The text of a list of pieces. -/
def fill (f : α → Except ε (List γ)) : List (γ ⊕ α) → Except ε (List γ)
  | [] => .ok []
  | .inl c :: ps => (fill f ps).map (c :: ·)
  | .inr a :: ps =>
    match f a with
    | .error e => .error e
    | .ok v => (fill f ps).map (v ++ ·)

/-- `re.sub` -/
def sub (f : α → Except ε (List γ)) (s : List γ) : Except ε (List γ) := fill f (m.pieces s)

end Scan

variable {m : Pattern γ α} {f : α → Except ε (List γ)} {c : γ} {s r w v : List γ} {a : α}

theorem Delimited.shorter (hm : m.Delimited) (h : m s = some (a, r)) : r.length < s.length := by
  obtain ⟨w, rfl, hw⟩ := hm s a r h
  have hpos := List.length_pos_iff.2 hw.ne
  rw [List.length_append]
  omega

theorem scan_of_length_le (hm : m.Delimited) {n : Nat} (h : s.length ≤ n) : m.scan n s = m.pieces s := by
  unfold pieces
  suffices hboth : ∀ k n s, List.length s ≤ n → List.length s ≤ k → m.scan n s = m.scan k s from
    hboth s.length n s h (Nat.le_refl _)
  intro k
  induction k with
  | zero =>
      intro n s _ hk
      have hnil : s = [] := List.eq_nil_of_length_eq_zero (by omega)
      rw [hnil]
      cases n with
      | zero => rfl
      | succ n => rfl
  | succ k ih =>
      intro n s hn hk
      cases s with
      | nil =>
          cases n with
          | zero => rfl
          | succ n => rfl
      | cons c s =>
          cases n with
          | zero =>
              rw [List.length_cons] at hn
              omega
          | succ n =>
              unfold scan
              rw [List.length_cons] at hn hk
              cases hmatch : m (c :: s) with
              | none => rw [ih n s (by omega) (by omega)]
              | some found =>
                  have hshort := hm.shorter hmatch
                  rw [List.length_cons] at hshort
                  dsimp only
                  rw [ih n found.2 (by omega) (by omega)]

theorem pieces_cons (h : m (c :: s) = none) : m.pieces (c :: s) = .inl c :: m.pieces s := by
  unfold pieces
  rw [List.length_cons, scan, h]

theorem pieces_append (hm : m.Delimited) (hw : m.Lexes w a) : m.pieces (w ++ s) = .inr a :: m.pieces s := by
  obtain ⟨c, w', rfl⟩ := List.exists_cons_of_ne_nil hw.ne
  have hmatch : m (c :: (w' ++ s)) = some (a, s) := hw.eq s
  have hstep : m.pieces (c :: (w' ++ s)) = .inr a :: m.scan (w' ++ s).length s := by
    unfold pieces
    rw [List.length_cons, scan, hmatch]
  rw [List.cons_append, hstep, scan_of_length_le hm (by simp)]

/-- Induction over a text as a scan reads it. -/
theorem Delimited.induction (hm : m.Delimited) {P : List γ → Prop} (nil : P [])
    (cons : ∀ c s, m (c :: s) = none → P s → P (c :: s))
    (append : ∀ w a s, m.Lexes w a → P s → P (w ++ s)) (s : List γ) : P s := by
  suffices hbound : ∀ n s, List.length s ≤ n → P s from hbound s.length s (Nat.le_refl _)
  intro n
  induction n with
  | zero =>
      intro s hn
      have hnil : s = [] := List.eq_nil_of_length_eq_zero (by omega)
      rw [hnil]
      exact nil
  | succ n ih =>
      intro s hn
      cases s with
      | nil => exact nil
      | cons c s =>
          cases hmatch : m (c :: s) with
          | none =>
              rw [List.length_cons] at hn
              exact cons c s hmatch (ih s (by omega))
          | some found =>
              obtain ⟨w, hs, hw⟩ := hm _ found.1 found.2 hmatch
              have hshort := hm.shorter hmatch
              rw [hs]
              exact append w found.1 found.2 hw (ih found.2 (by omega))

/-! ## What a scan finds -/

theorem holes_cons (h : m (c :: s) = none) : m.holes (c :: s) = m.holes s := by
  unfold holes
  rw [pieces_cons h]
  rfl

theorem holes_append (hm : m.Delimited) (hw : m.Lexes w a) : m.holes (w ++ s) = a :: m.holes s := by
  unfold holes
  rw [pieces_append hm hw]
  rfl

theorem sub_cons (h : m (c :: s) = none) : m.sub f (c :: s) = (m.sub f s).map (c :: ·) := by
  unfold sub
  rw [pieces_cons h]
  rfl

theorem sub_append_of_ok (hm : m.Delimited) (hw : m.Lexes w a) (hv : f a = .ok v) :
    m.sub f (w ++ s) = (m.sub f s).map (v ++ ·) := by
  unfold sub
  rw [pieces_append hm hw, fill, hv]

theorem sub_append_of_error (hm : m.Delimited) (hw : m.Lexes w a) {e : ε} (he : f a = .error e) :
    m.sub f (w ++ s) = .error e := by
  unfold sub
  rw [pieces_append hm hw, fill, he]

theorem Quiet.tail (h : m.Quiet (c :: v) r) : m.Quiet v r :=
  fun u hne hu => h u hne (hu.trans (List.suffix_cons c v))

theorem Quiet.head (h : m.Quiet (c :: v) r) : m (c :: (v ++ r)) = none :=
  h (c :: v) (List.cons_ne_nil c v) (List.suffix_refl _)

theorem holes_append_of_quiet (h : m.Quiet v r) : m.holes (v ++ r) = m.holes r := by
  induction v with
  | nil => rfl
  | cons c v ih =>
      rw [List.cons_append, holes_cons h.head]
      exact ih h.tail

theorem sub_append_of_quiet (h : m.Quiet v r) : m.sub f (v ++ r) = (m.sub f r).map (v ++ ·) := by
  induction v with
  | nil =>
      show m.sub f r = (m.sub f r).map fun t => t
      cases m.sub f r with
      | error e => rfl
      | ok t => rfl
  | cons c v ih =>
      rw [List.cons_append, sub_cons h.head, ih h.tail]
      cases m.sub f r with
      | error e => rfl
      | ok t => rfl

theorem map_eq_ok {δ η : Type*} {x : Except ε δ} {h : δ → η} {b : η} (hb : x.map h = .ok b) :
    ∃ d, x = .ok d ∧ h d = b := by
  cases x with
  | error e => cases hb
  | ok d => exact ⟨d, rfl, Except.ok.inj hb⟩

theorem sub_append_eq_ok (hm : m.Delimited) (hw : m.Lexes w a) {t : List γ} (ht : m.sub f (w ++ s) = .ok t) :
    ∃ v t', f a = .ok v ∧ m.sub f s = .ok t' ∧ v ++ t' = t := by
  cases hv : f a with
  | error e => cases (sub_append_of_error hm hw hv).symm.trans ht
  | ok v =>
      obtain ⟨t', hrest, heq⟩ := map_eq_ok ((sub_append_of_ok hm hw hv).symm.trans ht)
      exact ⟨v, t', rfl, hrest, heq⟩

/-- Where the pattern matches, the rest of the match has no more. -/
theorem holes_cons_of_some (hm : m.Delimited) (h : m (c :: s) = some (a, r)) :
    m.holes (c :: s) = a :: m.holes s := by
  obtain ⟨w, hs, hw⟩ := hm _ a r h
  obtain ⟨c', w', rfl⟩ := List.exists_cons_of_ne_nil hw.ne
  obtain ⟨rfl, rfl⟩ := List.cons.inj (hs.trans (List.cons_append))
  have hquiet : m.Quiet w' r := by
    intro u hne hu
    apply hw.inside u hne (hu.trans (List.suffix_cons c w'))
    intro heq
    have hlength := hu.length_le
    rw [heq, List.length_cons] at hlength
    omega
  rw [holes_append_of_quiet hquiet, ← List.cons_append, holes_append hm hw]

theorem sublist_holes_cons (hm : m.Delimited) (c : γ) (s : List γ) :
    (m.holes s).Sublist (m.holes (c :: s)) := by
  cases hmatch : m (c :: s) with
  | none =>
      have hsame : m.holes s = m.holes (c :: s) := (holes_cons hmatch).symm
      exact hsame ▸ List.Sublist.refl (m.holes s)
  | some found =>
      rw [holes_cons_of_some hm hmatch]
      exact List.sublist_cons_self found.1 (m.holes s)

/-- More text at the front can only add matches. -/
theorem sublist_holes_append (hm : m.Delimited) (v s : List γ) : (m.holes s).Sublist (m.holes (v ++ s)) := by
  induction v with
  | nil => exact List.Sublist.refl _
  | cons c v ih => exact ih.trans (sublist_holes_cons hm c (v ++ s))

/-- A text at the front that adds no match is quiet. -/
theorem quiet_of_length_holes (hm : m.Delimited) (h : (m.holes (v ++ s)).length ≤ (m.holes s).length) :
    m.Quiet v s := by
  induction v with
  | nil =>
      intro u hne hu
      exact absurd (List.suffix_nil.1 hu) hne
  | cons c v ih =>
      have hmore := (sublist_holes_append hm v s).length_le
      have hnone : m (c :: (v ++ s)) = none := by
        cases hmatch : m (c :: (v ++ s)) with
        | none => rfl
        | some found =>
            rw [List.cons_append, holes_cons_of_some hm hmatch, List.length_cons] at h
            omega
      rw [List.cons_append, holes_cons hnone] at h
      intro u hne hu
      rcases List.suffix_cons_iff.1 hu with rfl | hu
      · exact hnone
      · exact ih h u hne hu

/-- A text is filled exactly when each of its matches has a value. -/
theorem isOk_sub_iff (hm : m.Delimited) (s : List γ) :
    (m.sub f s).toBool ↔ ∀ a ∈ m.holes s, (f a).toBool := by
  induction s using hm.induction with
  | nil => simp [sub, pieces, holes, scan, fill, Except.toBool]
  | cons c s hnone ih =>
      rw [sub_cons hnone, holes_cons hnone, ← ih]
      cases m.sub f s with
      | error e => rfl
      | ok t => rfl
  | append w a s hw ih =>
      rw [holes_append hm hw, List.forall_mem_cons, ← ih]
      cases hv : f a with
      | error e => simp [sub_append_of_error hm hw hv, Except.toBool]
      | ok v =>
          rw [sub_append_of_ok hm hw hv]
          cases m.sub f s with
          | error e => simp [Except.map, Except.toBool]
          | ok t => simp [Except.map, Except.toBool]

theorem sub_of_whole (hm : m.Delimited) (h : m s = some (a, [])) : m.sub f s = f a := by
  obtain ⟨w, rfl, hw⟩ := hm s a [] h
  cases hv : f a with
  | error e => exact sub_append_of_error hm hw hv
  | ok v =>
      rw [sub_append_of_ok hm hw hv]
      exact congrArg Except.ok (List.append_nil v)

/-- A text without a match is left as it is. -/
theorem sub_of_holes_eq_nil (hm : m.Delimited) (h : m.holes s = []) : m.sub f s = .ok s := by
  induction s using hm.induction with
  | nil => rfl
  | cons c s hnone ih =>
      rw [holes_cons hnone] at h
      rw [sub_cons hnone, ih h]
      rfl
  | append w a s hw ih =>
      rw [holes_append hm hw] at h
      cases h

/-- Matches open with a character twice, have it nowhere else, and do not depend on what follows. -/
def Opened (x : γ) (m : Pattern γ α) : Prop :=
  ∀ s a r, m s = some (a, r) → ∃ y, y ≠ [] ∧ x ∉ y ∧ s = x :: x :: (y ++ r) ∧
    ∀ r', m (x :: x :: (y ++ r')) = some (a, r')

theorem Opened.eq_none_of_head {x : γ} (h : m.Opened x) (hc : c ≠ x) : m (c :: s) = none := by
  by_contra hsome
  obtain ⟨found, hfound⟩ := Option.ne_none_iff_exists'.1 hsome
  obtain ⟨y, -, -, hsplit, -⟩ := h _ found.1 found.2 hfound
  exact hc (List.cons.inj hsplit).1

theorem Opened.eq_none_of_second {x : γ} (h : m.Opened x) (hc : c ≠ x) : m (x :: c :: s) = none := by
  by_contra hsome
  obtain ⟨found, hfound⟩ := Option.ne_none_iff_exists'.1 hsome
  obtain ⟨y, -, -, hsplit, -⟩ := h _ found.1 found.2 hfound
  exact hc (List.cons.inj (List.cons.inj hsplit).2).1

theorem Opened.delimited {x : γ} (h : m.Opened x) : m.Delimited := by
  intro s a r hs
  obtain ⟨y, hne, hx, rfl, heq⟩ := h s a r hs
  refine ⟨x :: x :: y, rfl, List.cons_ne_nil _ _, heq, ?_⟩
  intro v hvne hv hvw r'
  rcases List.suffix_cons_iff.1 hv with hv | hv
  · exact absurd hv hvw
  · rcases List.suffix_cons_iff.1 hv with rfl | hv
    · -- the second opener, with the rest of the match after it
      obtain ⟨c, y, rfl⟩ := List.exists_cons_of_ne_nil hne
      exact h.eq_none_of_second fun hc => hx (hc ▸ List.mem_cons_self)
    · obtain ⟨c, v, rfl⟩ := List.exists_cons_of_ne_nil hvne
      exact h.eq_none_of_head fun hc => hx (hc ▸ hv.subset List.mem_cons_self)

/-! ## Two patterns -/

/-- What matches either pattern, the first one where both do. -/
def either (m : Pattern γ α) (n : Pattern γ β) : Pattern γ (α ⊕ β) := fun s =>
  match m s with
  | some (a, r) => some (.inl a, r)
  | none => (n s).map fun found => (.inr found.1, found.2)

/-- The patterns do not match at one place, and no match of one begins inside a match of the other. -/
structure Apart (m : Pattern γ α) (n : Pattern γ β) : Prop where
  exclusive : ∀ s, m s ≠ none → n s = none
  delimited : (m.either n).Delimited

section Either

variable {n : Pattern γ β} {b : β} {g : β → Except ε (List γ)}

theorem either_eq_inl : m.either n s = some (.inl a, r) ↔ m s = some (a, r) := by
  unfold either
  cases hm : m s with
  | none => simp
  | some found => simp [Prod.ext_iff]

theorem either_eq_none : m.either n s = none ↔ m s = none ∧ n s = none := by
  unfold either
  cases hm : m s with
  | none => simp
  | some found => simp

theorem Apart.either_eq_inr (h : Apart m n) : m.either n s = some (.inr b, r) ↔ n s = some (b, r) := by
  unfold either
  cases hm : m s with
  | none => simp [Prod.ext_iff]
  | some found =>
      have hnone := h.exclusive s (by rw [hm]; exact Option.some_ne_none found)
      simp [hnone]

theorem apart_of_opened {x : γ} (hm : m.Opened x) (hn : n.Opened x)
    (hexclusive : ∀ s, m s ≠ none → n s = none) : Apart m n := by
  refine ⟨hexclusive, Opened.delimited (x := x) ?_⟩
  intro s c r hs
  cases c with
  | inl a =>
      obtain ⟨y, hne, hx, hsplit, heq⟩ := hm s a r (either_eq_inl.1 hs)
      exact ⟨y, hne, hx, hsplit, fun r' => either_eq_inl.2 (heq r')⟩
  | inr b =>
      have hns : n s = some (b, r) := by
        unfold either at hs
        split at hs
        · cases hs
        · obtain ⟨found, hfound, heq⟩ := Option.map_eq_some_iff.1 hs
          cases heq
          exact hfound
      obtain ⟨y, hne, hx, hsplit, heq⟩ := hn s b r hns
      refine ⟨y, hne, hx, hsplit, fun r' => ?_⟩
      have hmnone : m (x :: x :: (y ++ r')) = none := by
        by_contra hsome
        cases (hexclusive _ hsome).symm.trans (heq r')
      unfold either
      rw [hmnone, heq r']
      rfl

theorem Apart.lexes_left (h : Apart m n) (hw : (m.either n).Lexes w (.inl a)) :
    m.Lexes w a ∧ ∀ r, n.Quiet w r := by
  have heq : ∀ r, m (w ++ r) = some (a, r) := fun r => either_eq_inl.1 (hw.eq r)
  constructor
  · exact ⟨hw.ne, heq, fun v hne hv hvw r => (either_eq_none.1 (hw.inside v hne hv hvw r)).1⟩
  · intro r u hne hu
    by_cases huw : u = w
    · rw [huw]
      apply h.exclusive
      rw [heq r]
      exact Option.some_ne_none _
    · exact (either_eq_none.1 (hw.inside u hne hu huw r)).2

theorem Apart.lexes_right (h : Apart m n) (hw : (m.either n).Lexes w (.inr b)) :
    n.Lexes w b ∧ ∀ r, m.Quiet w r := by
  have heq : ∀ r, n (w ++ r) = some (b, r) := fun r => h.either_eq_inr.1 (hw.eq r)
  constructor
  · exact ⟨hw.ne, heq, fun v hne hv hvw r => (either_eq_none.1 (hw.inside v hne hv hvw r)).2⟩
  · intro r u hne hu
    by_cases huw : u = w
    · rw [huw]
      by_contra hsome
      cases (h.exclusive _ hsome).symm.trans (heq r)
    · exact (either_eq_none.1 (hw.inside u hne hu huw r)).1

theorem Apart.delimited_left (h : Apart m n) : m.Delimited := by
  intro s a r hs
  obtain ⟨w, hsplit, hw⟩ := h.delimited s (.inl a) r (either_eq_inl.2 hs)
  exact ⟨w, hsplit, (h.lexes_left hw).1⟩

theorem Apart.delimited_right (h : Apart m n) : n.Delimited := by
  intro s b r hs
  obtain ⟨w, hsplit, hw⟩ := h.delimited s (.inr b) r (h.either_eq_inr.2 hs)
  exact ⟨w, hsplit, (h.lexes_right hw).1⟩

/-- The matches of the second pattern survive the replacement of those of the first. -/
theorem Apart.sublist_holes_sub (h : Apart m n) {t : List γ} (ht : m.sub f s = .ok t) :
    (n.holes s).Sublist (n.holes t) := by
  induction s using h.delimited.induction generalizing t with
  | nil => exact List.nil_sublist _
  | cons c s hnone ih =>
      obtain ⟨hmnone, hnnone⟩ := either_eq_none.1 hnone
      obtain ⟨t', hrest, rfl⟩ := map_eq_ok ((sub_cons hmnone).symm.trans ht)
      rw [holes_cons hnnone]
      exact (ih hrest).trans (sublist_holes_cons h.delimited_right c t')
  | append w x s hw ih =>
      cases x with
      | inl a =>
          obtain ⟨hlexes, hquiet⟩ := h.lexes_left hw
          obtain ⟨v, t', -, hrest, rfl⟩ := sub_append_eq_ok h.delimited_left hlexes ht
          rw [holes_append_of_quiet (hquiet s)]
          exact (ih hrest).trans (sublist_holes_append h.delimited_right v t')
      | inr b =>
          obtain ⟨hlexes, hquiet⟩ := h.lexes_right hw
          obtain ⟨t', hrest, rfl⟩ := map_eq_ok ((sub_append_of_quiet (hquiet s)).symm.trans ht)
          rw [holes_append h.delimited_right hlexes, holes_append h.delimited_right hlexes]
          exact (ih hrest).cons_cons b

/-- Where the replacement adds no match, replacing one pattern after the other is replacing both at once. -/
theorem Apart.sub_sub (h : Apart m n) {t : List γ} (ht : m.sub f s = .ok t)
    (hnew : (n.holes t).length ≤ (n.holes s).length) : n.sub g t = (m.either n).sub (Sum.elim f g) s := by
  induction s using h.delimited.induction generalizing t with
  | nil =>
      cases ht
      rfl
  | cons c s hnone ih =>
      obtain ⟨hmnone, hnnone⟩ := either_eq_none.1 hnone
      obtain ⟨t', hrest, rfl⟩ := map_eq_ok ((sub_cons hmnone).symm.trans ht)
      rw [holes_cons hnnone] at hnew
      have hkept := (h.sublist_holes_sub hrest).length_le
      have hquiet : n.Quiet [c] t' := quiet_of_length_holes h.delimited_right (Nat.le_trans hnew hkept)
      have hcnone : n (c :: t') = none := hquiet.head
      have hmore := (sublist_holes_cons h.delimited_right c t').length_le
      rw [sub_cons hcnone, sub_cons hnone, ih hrest (by omega)]
  | append w x s hw ih =>
      cases x with
      | inl a =>
          obtain ⟨hlexes, hquiet⟩ := h.lexes_left hw
          obtain ⟨v, t', hv, hrest, rfl⟩ := sub_append_eq_ok h.delimited_left hlexes ht
          rw [holes_append_of_quiet (hquiet s)] at hnew
          have hkept := (h.sublist_holes_sub hrest).length_le
          have hmore := (sublist_holes_append h.delimited_right v t').length_le
          have hfill : Sum.elim f g (.inl a : α ⊕ β) = .ok v := hv
          rw [sub_append_of_quiet (quiet_of_length_holes h.delimited_right (Nat.le_trans hnew hkept)),
            sub_append_of_ok h.delimited hw hfill, ih hrest (by omega)]
      | inr b =>
          obtain ⟨hlexes, hquiet⟩ := h.lexes_right hw
          obtain ⟨t', hrest, rfl⟩ := map_eq_ok ((sub_append_of_quiet (hquiet s)).symm.trans ht)
          rw [holes_append h.delimited_right hlexes, holes_append h.delimited_right hlexes] at hnew
          have hrestEq := ih hrest (by simpa using hnew)
          cases hv : g b with
          | error e =>
              have hfill : Sum.elim f g (.inr b : α ⊕ β) = .error e := hv
              rw [sub_append_of_error h.delimited_right hlexes hv, sub_append_of_error h.delimited hw hfill]
          | ok v =>
              have hfill : Sum.elim f g (.inr b : α ⊕ β) = .ok v := hv
              rw [sub_append_of_ok h.delimited_right hlexes hv, sub_append_of_ok h.delimited hw hfill,
                hrestEq]

theorem Apart.mem_holes_iff (h : Apart m n) (s : List γ) :
    (∀ a, .inl a ∈ (m.either n).holes s ↔ a ∈ m.holes s) ∧
      ∀ b, .inr b ∈ (m.either n).holes s ↔ b ∈ n.holes s := by
  induction s using h.delimited.induction with
  | nil => simp [holes, pieces, scan]
  | cons c s hnone ih =>
      obtain ⟨hmnone, hnnone⟩ := either_eq_none.1 hnone
      rw [holes_cons hnone, holes_cons hmnone, holes_cons hnnone]
      exact ih
  | append w x s hw ih =>
      rw [holes_append h.delimited hw]
      cases x with
      | inl a =>
          obtain ⟨hlexes, hquiet⟩ := h.lexes_left hw
          rw [holes_append h.delimited_left hlexes, holes_append_of_quiet (hquiet s)]
          simp [ih.1, ih.2]
      | inr b =>
          obtain ⟨hlexes, hquiet⟩ := h.lexes_right hw
          rw [holes_append h.delimited_right hlexes, holes_append_of_quiet (hquiet s)]
          simp [ih.1, ih.2]

/-- Both patterns are replaced exactly when the first is and each match of the second has a value. -/
theorem Apart.isOk_sub_either_iff (h : Apart m n) (s : List γ) :
    ((m.either n).sub (Sum.elim f g) s).toBool ↔ (m.sub f s).toBool ∧ ∀ b ∈ n.holes s, (g b).toBool := by
  rw [isOk_sub_iff h.delimited, isOk_sub_iff h.delimited_left, Sum.forall]
  simp only [(h.mem_holes_iff s).1, (h.mem_holes_iff s).2]
  exact Iff.rfl

end Either

end Pattern

end OpsKnowledge.Lib
