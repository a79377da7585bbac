import Mathlib.Data.List.Perm.Basic
import Mathlib.Logic.Function.Basic

/-!
# Channels that keep nothing

A message goes to whoever listens when it is published, and to nobody afterwards. What a
listener has not taken when it stops listening is gone. Messages carry the number of their
place among all that were published.
-/

namespace OpsKnowledge.Lib

variable {ι μ : Type*}

/-- `taken` and `missed` are what became of the messages for each listener. -/
structure Channel (ι μ : Type*) where
  published : List μ := []
  /-- What is still to be taken; `none` while nobody listens. -/
  inbox : ι → Option (List (μ × Nat)) := fun _ => none
  taken : ι → List (μ × Nat) := fun _ => []
  missed : ι → List (μ × Nat) := fun _ => []

namespace Channel

def numbered (c : Channel ι μ) : List (μ × Nat) := c.published.zipIdx

def publish (c : Channel ι μ) (m : μ) : Channel ι μ :=
  { c with
    published := c.published ++ [m]
    inbox := fun i => (c.inbox i).map (· ++ [(m, c.published.length)])
    missed := fun i =>
      if (c.inbox i).isSome then c.missed i else c.missed i ++ [(m, c.published.length)] }

/-- Who listens already goes on with what there is. -/
def subscribe [DecidableEq ι] (c : Channel ι μ) (i : ι) : Channel ι μ :=
  { c with inbox := Function.update c.inbox i (some ((c.inbox i).getD [])) }

def drop [DecidableEq ι] (c : Channel ι μ) (i : ι) : Channel ι μ :=
  { c with
    inbox := Function.update c.inbox i none
    missed := Function.update c.missed i (c.missed i ++ (c.inbox i).getD []) }

/-- The listener takes the first message. -/
def take [DecidableEq ι] (c : Channel ι μ) (i : ι) : Option ((μ × Nat) × Channel ι μ) :=
  match c.inbox i with
  | some (x :: rest) =>
      some (x, { c with
        inbox := Function.update c.inbox i (some rest)
        taken := Function.update c.taken i (c.taken i ++ [x]) })
  | _ => none

/-- Every message is taken once, missed once or still to be taken; and messages are taken in their order. -/
structure Sound (c : Channel ι μ) : Prop where
  account : ∀ i, (c.taken i ++ c.missed i ++ (c.inbox i).getD []).Perm c.numbered
  ordered : ∀ i, (c.taken i ++ (c.inbox i).getD []).Sublist c.numbered

variable {c : Channel ι μ}

theorem numbered_publish (c : Channel ι μ) (m : μ) :
    (c.publish m).numbered = c.numbered ++ [(m, c.published.length)] := by
  simp [numbered, publish, List.zipIdx_append]

theorem mem_numbered {m : μ} {k : Nat} : (m, k) ∈ c.numbered ↔ c.published[k]? = some m :=
  List.mem_zipIdx_iff_getElem?

theorem sound_empty : (({} : Channel ι μ)).Sound := ⟨fun _ => List.Perm.refl _, fun _ => List.Sublist.refl _⟩

theorem Sound.publish (h : c.Sound) (m : μ) : (c.publish m).Sound := by
  refine ⟨fun i => ?_, fun i => ?_⟩
  · rw [numbered_publish]
    cases hinbox : c.inbox i with
    | none =>
        have haccount := h.account i
        simp only [hinbox, Option.getD_none, List.append_nil] at haccount
        simpa [Channel.publish, hinbox, ← List.append_assoc] using haccount.append_right _
    | some q =>
        have haccount := h.account i
        simp only [hinbox, Option.getD_some] at haccount
        simpa [Channel.publish, hinbox, ← List.append_assoc] using haccount.append_right _
  · rw [numbered_publish]
    have hordered := h.ordered i
    cases hinbox : c.inbox i with
    | none =>
        simp only [hinbox, Option.getD_none, List.append_nil] at hordered
        have hlonger := List.sublist_append_left c.numbered [(m, c.published.length)]
        simpa [Channel.publish, hinbox] using hordered.trans hlonger
    | some q =>
        simp only [hinbox, Option.getD_some] at hordered
        have hboth := hordered.append_right [(m, c.published.length)]
        simpa [Channel.publish, hinbox, ← List.append_assoc] using hboth

/-- No number is taken twice. -/
theorem Sound.nodup_taken (h : c.Sound) (i : ι) :
    ((c.taken i ++ (c.inbox i).getD []).map Prod.snd).Nodup := by
  refine ((h.ordered i).map Prod.snd).nodup ?_
  rw [numbered, List.zipIdx_map_snd]
  exact List.nodup_range'

theorem Sound.eq_of_taken (h : c.Sound) {i : ι} {m m' : μ} {k : Nat} (hm : (m, k) ∈ c.taken i)
    (hm' : (m', k) ∈ c.taken i) : m = m' := by
  have hin : ∀ x ∈ c.taken i, x ∈ c.numbered :=
    fun x hx => (h.ordered i).subset (List.mem_append_left _ hx)
  have hk := mem_numbered.1 (hin _ hm)
  rw [mem_numbered.1 (hin _ hm')] at hk
  exact (Option.some.inj hk).symm

section Listeners

variable [DecidableEq ι]

theorem Sound.subscribe (h : c.Sound) (i : ι) : (c.subscribe i).Sound := by
  have hgetD : ∀ j, ((c.subscribe i).inbox j).getD [] = (c.inbox j).getD [] := by
    intro j
    by_cases hj : j = i
    · subst hj
      simp [Channel.subscribe]
    · simp [Channel.subscribe, hj]
  refine ⟨fun j => ?_, fun j => ?_⟩
  · rw [hgetD]
    exact h.account j
  · rw [hgetD]
    exact h.ordered j

theorem Sound.drop (h : c.Sound) (i : ι) : (c.drop i).Sound := by
  refine ⟨fun j => ?_, fun j => ?_⟩
  · by_cases hj : j = i
    · subst hj
      simpa [Channel.drop, numbered, ← List.append_assoc] using h.account j
    · simpa [Channel.drop, numbered, hj] using h.account j
  · by_cases hj : j = i
    · subst hj
      simpa [Channel.drop, numbered] using (List.sublist_append_left _ _).trans (h.ordered j)
    · simpa [Channel.drop, numbered, hj] using h.ordered j

theorem take_eq_some {i : ι} {x : μ × Nat} {c' : Channel ι μ} (h : c.take i = some (x, c')) :
    ∃ rest, c.inbox i = some (x :: rest) ∧ c' = { c with
      inbox := Function.update c.inbox i (some rest)
      taken := Function.update c.taken i (c.taken i ++ [x]) } := by
  unfold take at h
  split at h
  · next y rest hinbox =>
      cases h
      exact ⟨rest, hinbox, rfl⟩
  · cases h

theorem Sound.take (h : c.Sound) {i : ι} {x : μ × Nat} {c' : Channel ι μ} (htake : c.take i = some (x, c')) :
    c'.Sound := by
  obtain ⟨rest, hinbox, rfl⟩ := take_eq_some htake
  refine ⟨fun j => ?_, fun j => ?_⟩
  · by_cases hj : j = i
    · subst hj
      have haccount := h.account j
      simp only [hinbox, Option.getD_some] at haccount
      have hmove : (c.taken j ++ [x] ++ c.missed j ++ rest).Perm (c.taken j ++ c.missed j ++ x :: rest) := by
        rw [List.append_assoc, List.append_assoc, List.append_assoc, List.singleton_append]
        exact List.Perm.append_left _ List.perm_middle.symm
      simpa [numbered] using hmove.trans haccount
    · simpa [numbered, hj] using h.account j
  · by_cases hj : j = i
    · subst hj
      have hordered := h.ordered j
      simp only [hinbox, Option.getD_some] at hordered
      simpa [numbered] using hordered
    · simpa [numbered, hj] using h.ordered j

/-- The message that is taken next was not taken before, under its number. -/
theorem Sound.fresh (h : c.Sound) {i : ι} {x : μ × Nat} {c' : Channel ι μ} (htake : c.take i = some (x, c'))
    (m : μ) : (m, x.2) ∉ c.taken i := by
  obtain ⟨rest, hinbox, -⟩ := take_eq_some htake
  have hnodup := h.nodup_taken i
  rw [hinbox, Option.getD_some, List.map_append] at hnodup
  intro hmem
  exact (List.nodup_append.1 hnodup).2.2 _ (List.mem_map_of_mem hmem) _ List.mem_cons_self rfl

end Listeners

end Channel

end OpsKnowledge.Lib
