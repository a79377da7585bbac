import Mathlib.Data.Finset.Card
import Mathlib.Logic.Relation
import OpsKnowledge.Lib.Loop

/-!
# Breadth-first closure

A loop that asks for the successors of a whole frontier at once, keeps those it has
not seen and goes on with them. When the successors always come from one finite set
it ends, on every graph, with exactly the vertices reachable from its start.
-/

namespace OpsKnowledge.Lib

variable {V : Type*} [DecidableEq V]

structure Frontier (V : Type*) [DecidableEq V] where
  seen : Finset V
  pending : List V

namespace Frontier

def start (vs : List V) : Frontier V := { seen := vs.toFinset, pending := vs }

/-- One round: `next` lists the successors of a frontier, in any order and with repetitions. -/
def expand (next : List V → List V) (f : Frontier V) : Frontier V :=
  let children := (next f.pending).filter (· ∉ f.seen)
  { seen := f.seen ∪ children.toFinset, pending := children }

def Reaches (R : V → V → Prop) (vs : List V) (v : V) : Prop :=
  ∃ s ∈ vs, Relation.ReflTransGen R s v

structure Inv (R : V → V → Prop) (vs : List V) (f : Frontier V) : Prop where
  started : ∀ s ∈ vs, s ∈ f.seen
  sound : ∀ v ∈ f.seen, Reaches R vs v
  pending_seen : ∀ v ∈ f.pending, v ∈ f.seen
  closed : ∀ u ∈ f.seen, u ∉ f.pending → ∀ v, R u v → v ∈ f.seen

variable {R : V → V → Prop} {next : List V → List V} {vs : List V} {f : Frontier V}

theorem inv_start : Inv R vs (start vs) := by
  refine ⟨?_, ?_, ?_, ?_⟩
  · intro s hs
    exact List.mem_toFinset.2 hs
  · intro v hv
    exact ⟨v, List.mem_toFinset.1 hv, .refl⟩
  · intro v hv
    exact List.mem_toFinset.2 hv
  · intro u hu hnot
    exact absurd (List.mem_toFinset.1 hu) hnot

theorem mem_expand_seen {v : V} :
    v ∈ (f.expand next).seen ↔ v ∈ f.seen ∨ v ∈ next f.pending := by
  by_cases hv : v ∈ f.seen <;> simp [expand, hv]

theorem mem_expand_pending {v : V} :
    v ∈ (f.expand next).pending ↔ v ∈ next f.pending ∧ v ∉ f.seen := by
  simp [expand]

theorem Inv.expand (hnext : ∀ ps v, v ∈ next ps ↔ ∃ p ∈ ps, R p v) (h : Inv R vs f) :
    Inv R vs (f.expand next) := by
  refine ⟨?_, ?_, ?_, ?_⟩
  · intro s hs
    exact mem_expand_seen.2 (Or.inl (h.started s hs))
  · intro v hv
    rcases mem_expand_seen.1 hv with hv | hv
    · exact h.sound v hv
    · obtain ⟨p, hp, hpv⟩ := (hnext _ _).1 hv
      obtain ⟨s, hs, hsp⟩ := h.sound p (h.pending_seen p hp)
      exact ⟨s, hs, hsp.tail hpv⟩
  · intro v hv
    exact mem_expand_seen.2 (Or.inr (mem_expand_pending.1 hv).1)
  · intro u hu hnot v huv
    have hseen : u ∈ f.seen := by
      by_contra hun
      rcases mem_expand_seen.1 hu with hu | hu
      · exact hun hu
      · exact hnot (mem_expand_pending.2 ⟨hu, hun⟩)
    -- A vertex of the old frontier is closed by this round, any other one was closed before.
    by_cases hp : u ∈ f.pending
    · exact mem_expand_seen.2 (Or.inr ((hnext _ _).2 ⟨u, hp, huv⟩))
    · exact mem_expand_seen.2 (Or.inl (h.closed u hseen hp v huv))

/-- The vertices not seen yet, and one for a frontier that still has to be asked. -/
def measure (univ : Finset V) (f : Frontier V) : Nat :=
  (univ \ f.seen).card + if f.pending.isEmpty then 0 else 1

theorem measure_expand_lt {univ : Finset V} (huniv : ∀ ps, ∀ v ∈ next ps, v ∈ univ)
    (hcond : (!f.pending.isEmpty) = true) : (f.expand next).measure univ < f.measure univ := by
  have hbefore : f.measure univ = (univ \ f.seen).card + 1 := by
    simp_all [measure]
  have hsub : univ \ (f.expand next).seen ⊆ univ \ f.seen := by
    intro v hv
    have hv' := Finset.mem_sdiff.1 hv
    exact Finset.mem_sdiff.2 ⟨hv'.1, fun hs => hv'.2 (mem_expand_seen.2 (Or.inl hs))⟩
  cases hp : (f.expand next).pending with
  | nil =>
      have hle := Finset.card_le_card hsub
      have hafter : (f.expand next).measure univ = (univ \ (f.expand next).seen).card := by
        simp [measure, hp]
      omega
  | cons v rest =>
      have hv : v ∈ next f.pending ∧ v ∉ f.seen :=
        mem_expand_pending.1 (hp ▸ List.mem_cons_self)
      have hlt : (univ \ (f.expand next).seen).card < (univ \ f.seen).card := by
        apply Finset.card_lt_card
        refine ⟨hsub, fun hsup => ?_⟩
        have hmem := hsup (Finset.mem_sdiff.2 ⟨huniv _ v hv.1, hv.2⟩)
        exact (Finset.mem_sdiff.1 hmem).2 (mem_expand_seen.2 (Or.inr hv.1))
      have hafter : (f.expand next).measure univ = (univ \ (f.expand next).seen).card + 1 := by
        simp [measure, hp]
      omega

/-- The loop ends on every graph and has then seen the reachable vertices and no others. -/
theorem closure_spec {ε : Type*} (R : V → V → Prop) (vs : List V) {univ : Finset V} {fuel : Nat}
    (hnext : ∀ ps v, v ∈ next ps ↔ ∃ p ∈ ps, R p v) (huniv : ∀ ps, ∀ v ∈ next ps, v ∈ univ)
    (hfuel : univ.card + 1 ≤ fuel) :
    ∃ f : Frontier V, whileLoop (fun f => !f.pending.isEmpty)
        (fun f => (.ok (f.expand next) : Except ε _)) fuel (start vs) = some (.ok f) ∧
      ∀ v, v ∈ f.seen ↔ Reaches R vs v := by
  have hle : (start vs).measure univ ≤ fuel := by
    have hcard := Finset.card_le_card (Finset.sdiff_subset (s := univ) (t := (start vs).seen))
    have hone : (if (start vs).pending.isEmpty then 0 else 1) ≤ 1 := by split <;> omega
    unfold measure
    omega
  obtain ⟨f, hrun, hinv, hcond⟩ := whileLoop_total (Inv R vs) (measure univ)
    (fun f hf hc => ⟨_, rfl, hf.expand hnext, measure_expand_lt huniv hc⟩)
    inv_start hle
  have hempty : f.pending = [] := by simpa using hcond
  refine ⟨f, hrun, fun v => ⟨hinv.sound v, ?_⟩⟩
  intro hv
  obtain ⟨s, hs, hsv⟩ := hv
  have hseen := hinv.started s hs
  clear hs
  induction hsv with
  | refl => exact hseen
  | tail _ hbc ih => exact hinv.closed _ ih (by simp [hempty]) _ hbc

end Frontier

end OpsKnowledge.Lib
