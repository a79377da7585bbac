import Mathlib.Data.Fintype.Card
import Mathlib.Data.Set.Finite.Basic
import Mathlib.Logic.Relation
import Mathlib.Order.WellFounded

/-!
# Directed graphs as relations

Acyclicity, sources and counted walks of a binary relation. A rank that grows
along every edge excludes cycles, and a nonempty finite set in which every vertex
has a predecessor inside the set contains one; together they are what a
topological-sort argument needs.
-/

namespace OpsKnowledge.Lib

variable {V : Type*}

/-- No vertex is on a directed cycle. -/
def Acyclic (R : V → V → Prop) : Prop := ∀ v, ¬ Relation.TransGen R v v

theorem acyclic_of_rank {R : V → V → Prop} (rank : V → Nat)
    (h : ∀ a b, R a b → rank a < rank b) : Acyclic R := by
  intro v hv
  have grows : ∀ {a b}, Relation.TransGen R a b → rank a < rank b := by
    intro a b hab
    induction hab with
    | single hab => exact h _ _ hab
    | tail _ hbc ih => exact ih.trans (h _ _ hbc)
  exact lt_irrefl _ (grows hv)

theorem Acyclic.mono {R S : V → V → Prop} (h : Acyclic S) (hle : ∀ a b, R a b → S a b) : Acyclic R :=
  fun v hv => h v (Relation.TransGen.mono hle v v hv)

/-- A finite set that contains a predecessor of each of its members contains a cycle. -/
theorem Acyclic.exists_source {R : V → V → Prop} (hR : Acyclic R) {s : List V} (hs : s ≠ []) :
    ∃ v ∈ s, ∀ u ∈ s, ¬ R u v := by
  let S : V → V → Prop := Relation.TransGen R
  let T : {v // v ∈ s} → {v // v ∈ s} → Prop := fun a b => S a.1 b.1
  have hfin : Finite {v // v ∈ s} := s.finite_toSet.to_subtype
  have htrans : IsTrans _ T := ⟨fun _ _ _ hab hbc => Relation.TransGen.trans hab hbc⟩
  have hirrefl : Std.Irrefl T := ⟨fun a => hR a.1⟩
  have hwf : WellFounded T := Finite.wellFounded_of_trans_of_irrefl T
  obtain ⟨v₀, hv₀⟩ := List.exists_mem_of_ne_nil s hs
  obtain ⟨m, -, hm⟩ := hwf.has_min Set.univ ⟨⟨v₀, hv₀⟩, trivial⟩
  exact ⟨m.1, m.2, fun u hu hr => hm ⟨u, hu⟩ trivial (Relation.TransGen.single hr)⟩

/-! ## Walks of a given length -/

theorem transGen_of_path {R : V → V → Prop} {p : Nat → V} {n : Nat}
    (hstep : ∀ i < n, R (p i) (p (i + 1))) {i j : Nat} (hij : i < j) (hj : j ≤ n) :
    Relation.TransGen R (p i) (p j) := by
  induction j, hij using Nat.le_induction with
  | base => exact Relation.TransGen.single (hstep i hj)
  | succ j hij ih => exact (ih (Nat.le_of_succ_le hj)).tail (hstep j hj)

/-- A path of an acyclic relation never comes back, so it is shorter than what it stays in is long. -/
theorem Acyclic.length_lt_of_path {R : V → V → Prop} (hR : Acyclic R) {s : List V} {p : Nat → V}
    {n : Nat} (hstep : ∀ i < n, R (p i) (p (i + 1))) (hmem : ∀ i ≤ n, p i ∈ s) : n < s.length := by
  have hinj : ((List.range (n + 1)).map p).Nodup := by
    apply List.Nodup.map_on _ List.nodup_range
    intro i hi j hj hij
    rw [List.mem_range] at hi hj
    rcases Nat.lt_trichotomy i j with hlt | heq | hlt
    · have hcycle := transGen_of_path hstep hlt (by omega)
      rw [hij] at hcycle
      exact absurd hcycle (hR _)
    · exact heq
    · have hcycle := transGen_of_path hstep hlt (by omega)
      rw [hij] at hcycle
      exact absurd hcycle (hR _)
  have hsub : (List.range (n + 1)).map p ⊆ s := by
    intro v hv
    obtain ⟨i, hi, rfl⟩ := List.mem_map.1 hv
    exact hmem i (by rw [List.mem_range] at hi; omega)
  have hlength := (hinj.subperm hsub).length_le
  simp only [List.length_map, List.length_range] at hlength
  omega

end OpsKnowledge.Lib
