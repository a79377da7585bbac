import Mathlib.Data.Prod.Lex
import OpsKnowledge.Lib.OrderBy

/-!
# Listings in the order of a column

A query that is ordered by a column may give rows that are level there in any order. When
a row is replaced by a block of rows, every listing shows the block in its place exactly
where no other row comes between the ends of the block or is level with one of them.
-/

namespace OpsKnowledge.Lib

variable {α β : Type*} [LinearOrder β]

/-- What the query may show of `rows`. -/
structure Listing (base : α → β) (rows shown : List α) : Prop where
  perm : shown.Perm rows
  sorted : shown.Pairwise fun a b => base a ≤ base b

variable {base : α → β} {rows rows' shown others block pre mid post : List α} {c first last x : α}
  {low high : β}

theorem listing_orderBy {κ : Type*} [LinearOrder κ] {key : α → κ}
    (hkey : ∀ a b, key a ≤ key b → base a ≤ base b) (rows : List α) :
    Listing base rows (orderBy key rows) :=
  ⟨orderBy_perm key rows, (orderBy_pairwise key rows).imp fun h => hkey _ _ h⟩

theorem Listing.of_perm (h : Listing base rows shown) (hperm : rows.Perm rows') :
    Listing base rows' shown :=
  ⟨h.perm.trans hperm, h.sorted⟩

/-- A sorted list is cut where a property ends. -/
theorem filter_append_filter_not (h : shown.Pairwise fun a b => base a ≤ base b) {p : α → Bool}
    (hp : ∀ a b, base a ≤ base b → p b = true → p a = true) :
    shown.filter p ++ shown.filter (fun a => !p a) = shown := by
  induction shown with
  | nil => rfl
  | cons a shown ih =>
      obtain ⟨hhead, htail⟩ := List.pairwise_cons.1 h
      by_cases ha : p a = true
      · simp [ha, ih htail]
      · have hnone : shown.filter p = [] := by
          rw [List.filter_eq_nil_iff]
          intro b hb hpb
          exact ha (hp a b (hhead b hb) hpb)
        have hrest := ih htail
        rw [hnone, List.nil_append] at hrest
        simp [ha, hnone, hrest]

theorem filter_parts {p : α → Bool} {xs ys : List α} (hxs : ∀ a ∈ xs, p a = true)
    (hys : ∀ a ∈ ys, p a = false) :
    (xs ++ ys).filter p = xs ∧ (xs ++ ys).filter (fun a => !p a) = ys := by
  have hnone : ys.filter p = [] := List.filter_eq_nil_iff.2 (by simpa using hys)
  have hall : xs.filter (fun a => !p a) = [] := List.filter_eq_nil_iff.2 (by simpa using hxs)
  rw [List.filter_append, List.filter_append, hnone, hall, List.filter_eq_self.2 hxs,
    List.filter_eq_self.2 (by simpa using hys)]
  exact ⟨List.append_nil xs, rfl⟩

/-- A sorted list is what lies below two bounds, between them and above. -/
theorem exists_cut (h : shown.Pairwise fun a b => base a ≤ base b) (low high : β) :
    ∃ pre mid post, shown = pre ++ mid ++ post ∧ (∀ a ∈ pre, base a < low) ∧
      (∀ a ∈ mid, low ≤ base a ∧ base a ≤ high) ∧ ∀ a ∈ post, low ≤ base a ∧ high < base a := by
  let isLow : α → Bool := fun a => base a < low
  let isMid : α → Bool := fun a => base a ≤ high
  let rest := shown.filter fun a => !isLow a
  have hlow : shown.filter isLow ++ rest = shown :=
    filter_append_filter_not h fun a b hab hb => by
      simp only [isLow, decide_eq_true_eq] at hb ⊢
      exact hab.trans_lt hb
  have hmid : rest.filter isMid ++ rest.filter (fun a => !isMid a) = rest :=
    filter_append_filter_not (h.filter _) fun a b hab hb => by
      simp only [isMid, decide_eq_true_eq] at hb ⊢
      exact hab.trans hb
  have hrest : ∀ a ∈ rest, low ≤ base a := by
    intro a ha
    simpa [isLow] using (List.mem_filter.1 ha).2
  refine ⟨shown.filter isLow, rest.filter isMid, rest.filter fun a => !isMid a, ?_, ?_, ?_, ?_⟩
  · rw [List.append_assoc, hmid, hlow]
  · intro a ha
    simpa [isLow] using (List.mem_filter.1 ha).2
  · intro a ha
    obtain ⟨hin, hhigh⟩ := List.mem_filter.1 ha
    exact ⟨hrest a hin, by simpa [isMid] using hhigh⟩
  · intro a ha
    obtain ⟨hin, hhigh⟩ := List.mem_filter.1 ha
    exact ⟨hrest a hin, by simpa [isMid] using hhigh⟩

/-- Rows that are the same with a part each: the parts are the same where the rests are. -/
theorem perm_around (h : (pre ++ mid ++ post).Perm (block ++ others)) :
    (pre ++ post).Perm others ↔ mid.Perm block := by
  have hmove : (mid ++ (pre ++ post)).Perm (block ++ others) := by
    refine List.Perm.trans ?_ h
    rw [← List.append_assoc]
    exact List.perm_append_comm.append_right post
  constructor
  · intro hothers
    exact (List.perm_append_right_iff others).1 ((hothers.symm.append_left mid).trans hmove)
  · intro hmid
    exact (List.perm_append_left_iff block).1 ((hmid.symm.append_right (pre ++ post)).trans hmove)

/-! ## A block in the place of a row -/

theorem Listing.inPlace (h : Listing base (block ++ others) shown)
    (hblock : block.Pairwise fun a b => base a < base b)
    (hends : ∀ a ∈ block, low ≤ base a ∧ base a ≤ high) (hc : base c = low)
    (hapart : ∀ a ∈ others, base a < low ∨ high < base a) :
    ∃ pre post, Listing base (c :: others) (pre ++ c :: post) ∧ shown = pre ++ block ++ post := by
  obtain ⟨pre, mid, post, rfl, hpre, hmid, hpost⟩ := exists_cut h.sorted low high
  obtain ⟨hpremid, hpostSorted, hcross⟩ := List.pairwise_append.1 h.sorted
  obtain ⟨hpreSorted, hmidSorted, -⟩ := List.pairwise_append.1 hpremid
  -- what lies between the bounds is the block
  have hperm : mid.Perm block := by
    let inside : α → Bool := fun a => low ≤ base a ∧ base a ≤ high
    have hselected : (block ++ others).filter inside = block := by
      refine (filter_parts (fun a ha => ?_) fun a ha => ?_).1
      · exact decide_eq_true (hends a ha)
      · rcases hapart a ha with hlt | hgt
        · exact decide_eq_false fun hin => not_le.2 hlt hin.1
        · exact decide_eq_false fun hin => not_le.2 hgt hin.2
    have hcut : (pre ++ mid ++ post).filter inside = mid := by
      rw [List.filter_append, List.filter_append, List.filter_eq_nil_iff.2 fun a ha => ?_,
        List.filter_eq_self.2 fun a ha => ?_, List.filter_eq_nil_iff.2 fun a ha => ?_, List.nil_append,
        List.append_nil]
      · simpa [inside] using fun _ => (hpost a ha).2
      · exact decide_eq_true (hmid a ha)
      · simpa [inside] using fun hle => absurd (hpre a ha) (not_lt.2 hle)
    have hfiltered := h.perm.filter inside
    rwa [hselected, hcut] at hfiltered
  have hmiddle : mid = block := by
    have hne : mid.Pairwise fun a b => base a ≠ base b :=
      hperm.symm.pairwise (hblock.imp fun hlt => hlt.ne) fun hne => hne.symm
    exact eq_of_strict base hperm
      ((hmidSorted.and hne).imp fun hboth => lt_of_le_of_ne hboth.1 hboth.2) hblock
  subst hmiddle
  refine ⟨pre, post, ⟨?_, ?_⟩, rfl⟩
  · exact List.perm_middle.trans (((perm_around h.perm).2 hperm).cons c)
  · rw [List.pairwise_append, List.pairwise_cons]
    refine ⟨hpreSorted, ⟨fun a ha => hc ▸ (hpost a ha).1, hpostSorted⟩, ?_⟩
    intro a ha b hb
    rcases List.mem_cons.1 hb with rfl | hb
    · exact hc ▸ (hpre a ha).le
    · exact hcross a (List.mem_append_left mid ha) b hb

/-- A row between the ends, or level with one, is listed inside the block by some listing. -/
theorem exists_interleaved [DecidableEq α] (hfirst : first ∈ block) (hlast : last ∈ block)
    (hlt : base first < base last) (hx : x ∈ others) (hnot : x ∉ block) (hlow : base first ≤ base x)
    (hhigh : base x ≤ base last) : ∃ shown, Listing base (block ++ others) shown ∧
      ∀ pre mid post, shown = pre ++ mid ++ post → ¬ (pre ++ post).Perm others := by
  let rank : α → Nat := fun a => if a = first then 0 else if a = x then 1 else 2
  let key : α → β ×ₗ Nat := fun a => toLex (base a, rank a)
  have hkey : ∀ a b, key a ≤ key b → base a ≤ base b := by
    intro a b hab
    rcases Prod.Lex.toLex_le_toLex.1 hab with hless | ⟨heq, -⟩
    · exact hless.le
    · exact heq.le
  have hxfirst : x ≠ first := fun heq => hnot (heq ▸ hfirst)
  have hxlast : last ≠ x := fun heq => hnot (heq ▸ hlast)
  have hlastfirst : last ≠ first := fun heq => hlt.ne (by rw [heq])
  have hfx : key first < key x := by
    rw [Prod.Lex.toLex_lt_toLex]
    rcases hlow.lt_or_eq with hless | heq
    · exact Or.inl hless
    · exact Or.inr ⟨heq, by simp [rank, hxfirst]⟩
  have hxl : key x < key last := by
    rw [Prod.Lex.toLex_lt_toLex]
    rcases hhigh.lt_or_eq with hless | heq
    · exact Or.inl hless
    · exact Or.inr ⟨heq, by simp [rank, hxfirst, hxlast, hlastfirst]⟩
  refine ⟨orderBy key (block ++ others), listing_orderBy hkey _, ?_⟩
  intro pre mid post heq hothers
  have hsorted := orderBy_pairwise key (block ++ others)
  have hperm : (pre ++ mid ++ post).Perm (block ++ others) := heq ▸ orderBy_perm key (block ++ others)
  rw [heq] at hsorted
  have hmid : mid.Perm block := (perm_around hperm).1 hothers
  obtain ⟨hpremid, -, hpost⟩ := List.pairwise_append.1 hsorted
  have hpre := (List.pairwise_append.1 hpremid).2.2
  rcases List.mem_append.1 (hothers.mem_iff.2 hx) with hin | hin
  · exact absurd (hpre x hin first (hmid.mem_iff.2 hfirst)) (not_le.2 hfx)
  · have hbefore := hpost last (List.mem_append_right _ (hmid.mem_iff.2 hlast)) x hin
    exact absurd hbefore (not_le.2 hxl)

/-! ## One row for several -/

/-- The parts of a merge are found again. -/
theorem filter_merge {p : α → Bool} (le : α → α → Bool) {xs ys : List α} (hxs : ∀ a ∈ xs, p a = true)
    (hys : ∀ a ∈ ys, p a = false) :
    (xs.merge ys le).filter p = xs ∧ (xs.merge ys le).filter (fun a => !p a) = ys := by
  induction xs generalizing ys with
  | nil =>
      rw [List.nil_merge]
      exact ⟨List.filter_eq_nil_iff.2 (by simpa using hys), List.filter_eq_self.2 (by simpa using hys)⟩
  | cons x xs ihx =>
      have hx := hxs x List.mem_cons_self
      have hrest : ∀ a ∈ xs, p a = true := fun a ha => hxs a (List.mem_cons_of_mem x ha)
      induction ys with
      | nil =>
          rw [List.merge_right]
          exact ⟨List.filter_eq_self.2 hxs, List.filter_eq_nil_iff.2 (by simpa using hxs)⟩
      | cons y ys ihy =>
          have hy := hys y List.mem_cons_self
          by_cases hle : le x y = true
          · rw [List.cons_merge_cons_pos le _ _ hle]
            obtain ⟨htrue, hfalse⟩ := ihx hrest hys
            simp [hx, htrue, hfalse]
          · rw [List.cons_merge_cons_neg le _ _ hle]
            obtain ⟨htrue, hfalse⟩ := ihy fun a ha => hys a (List.mem_cons_of_mem y ha)
            simp [hy, htrue, hfalse]

theorem pairwise_merge {xs ys : List α} (hxs : xs.Pairwise fun a b => base a ≤ base b)
    (hys : ys.Pairwise fun a b => base a ≤ base b) :
    (xs.merge ys fun a b => base a ≤ base b).Pairwise fun a b => base a ≤ base b := by
  have htrans : ∀ a b c : α, decide (base a ≤ base b) = true → decide (base b ≤ base c) = true →
      decide (base a ≤ base c) = true := by
    intro a b c hab hbc
    exact decide_eq_true ((of_decide_eq_true hab).trans (of_decide_eq_true hbc))
  have htotal : ∀ a b : α, (decide (base a ≤ base b) || decide (base b ≤ base a)) = true := by
    intro a b
    simpa using le_total (base a) (base b)
  have hmerged := List.pairwise_merge htrans htotal xs ys (hxs.imp fun hab => decide_eq_true hab)
    (hys.imp fun hab => decide_eq_true hab)
  exact hmerged.imp fun hab => of_decide_eq_true hab

/-- A listing shows a row at the place of the first of the rows that it stands for. -/
theorem Listing.gather {p : α → Bool} {m : α} {rest : List α} (h : Listing base (m :: others) shown)
    (hm : base m = base first) (hsorted : (first :: rest).Pairwise fun a b => base a ≤ base b)
    (hp : ∀ a ∈ first :: rest, p a = true) (hothers : ∀ a ∈ others, p a = false) :
    ∃ pre post, Listing base (first :: rest ++ others) (pre ++ first :: post) ∧
      (∀ a ∈ pre, p a = false) ∧ (pre ++ first :: post).filter p = first :: rest ∧
      shown = pre ++ m :: post.filter fun a => !p a := by
  obtain ⟨pre, behind, rfl⟩ := List.append_of_mem (h.perm.mem_iff.2 List.mem_cons_self)
  have hperm : (pre ++ behind).Perm others :=
    (List.perm_cons m).1 (List.perm_middle.symm.trans h.perm)
  have hpre : ∀ a ∈ pre, p a = false := fun a ha =>
    hothers a (hperm.mem_iff.1 (List.mem_append_left _ ha))
  have hbehind : ∀ a ∈ behind, p a = false := fun a ha =>
    hothers a (hperm.mem_iff.1 (List.mem_append_right _ ha))
  obtain ⟨hfirst, hrest⟩ := List.pairwise_cons.1 hsorted
  obtain ⟨hpreSorted, hmSorted, hcross⟩ := List.pairwise_append.1 h.sorted
  obtain ⟨hmBehind, hbehindSorted⟩ := List.pairwise_cons.1 hmSorted
  let le : α → α → Bool := fun a b => base a ≤ base b
  let post := rest.merge behind le
  obtain ⟨htrue, hfalse⟩ := filter_merge le (fun a ha => hp a (List.mem_cons_of_mem first ha)) hbehind
  have hpost : ∀ a ∈ post, base first ≤ base a := by
    intro a ha
    rcases List.mem_merge.1 ha with hin | hin
    · exact hfirst a hin
    · exact hm ▸ hmBehind a hin
  refine ⟨pre, post, ⟨?_, ?_⟩, hpre, ?_, ?_⟩
  · have hparts : post.Perm (rest ++ behind) := List.merge_perm_append le
    have hmerge : (pre ++ post).Perm (rest ++ others) := by
      refine (hparts.append_left pre).trans ?_
      rw [← List.append_assoc]
      refine (List.perm_append_comm.append_right behind).trans ?_
      rw [List.append_assoc]
      exact hperm.append_left rest
    exact List.perm_middle.trans (hmerge.cons first)
  · rw [List.pairwise_append, List.pairwise_cons]
    refine ⟨hpreSorted, ⟨hpost, pairwise_merge hrest hbehindSorted⟩, ?_⟩
    intro a ha b hb
    have hfirstLe : base a ≤ base first := hm ▸ hcross a ha m List.mem_cons_self
    rcases List.mem_cons.1 hb with rfl | hb
    · exact hfirstLe
    · exact hfirstLe.trans (hpost b hb)
  · rw [List.filter_append, List.filter_eq_nil_iff.2 (by simpa using hpre), List.nil_append,
      List.filter_cons_of_pos (hp first List.mem_cons_self), htrue]
  · rw [hfalse]

/-- A row that is listed in place of the ones with a property is the new one. -/
theorem eq_of_listed [DecidableEq α] {p : α → Bool} {m m' : α} {gone kept : List α}
    (hrows : (pre ++ first :: post).Perm (gone ++ kept)) (hfirst : p first = true)
    (hpre : ∀ a ∈ pre, p a = false) (hgone : ∀ a ∈ gone, p a = true) (hkept : ∀ a ∈ kept, p a = false)
    (hshown : (pre ++ m' :: post.filter fun a => !p a).Perm (m :: kept)) :
    m' = m ∧ ((pre ++ first :: post).filter p).Perm gone := by
  obtain ⟨hparts, hrest⟩ := filter_parts hgone hkept
  have hselected := hrows.filter p
  have hstay := hrows.filter fun a => !p a
  rw [hparts] at hselected
  rw [hrest, List.filter_append, List.filter_cons_of_neg (by simpa using hfirst),
    List.filter_eq_self.2 (by simpa using hpre)] at hstay
  refine ⟨?_, hselected⟩
  have hswap : ([m'] ++ kept).Perm ([m] ++ kept) :=
    (hstay.cons m').symm.trans (List.perm_middle.symm.trans hshown)
  exact List.singleton_perm_singleton.1 ((List.perm_append_right_iff kept).1 hswap)

end OpsKnowledge.Lib
