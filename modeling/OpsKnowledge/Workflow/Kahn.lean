import Mathlib.Data.List.Dedup
import Mathlib.Data.Finset.Card
import OpsKnowledge.Workflow.Dsl

/-!
# Correctness of the cycle check

The loop invariant names the list `P` of vertices popped so far. Each counter is
the number of edges (with multiplicity) whose source has not been popped, a vertex
is in `P` or in the queue exactly when its counter is zero, and `P` is a
topological prefix. The graph is any list of nodes and edges: ids may repeat and
only the endpoints are assumed to be declared.
-/

namespace OpsKnowledge.Workflow

open OpsKnowledge.Lib

/-! ## The two tables -/

theorem get?_countTarget (d : Dict String Int) (e : EdgeDef) (v : String) :
    (countTarget d e).get? v = (d.get? v).map (· + if e.target = v then 1 else 0) := by
  unfold countTarget
  cases h : d.get? e.target with
  | none =>
      by_cases hv : e.target = v
      · simp [← hv, h]
      · simp [hv]
  | some k =>
      by_cases hv : e.target = v
      · simp [← hv, h]
      · have hne : v ≠ e.target := fun heq => hv heq.symm
        simp [hv, Dict.get?_set_of_ne _ _ hne]

theorem get?_foldl_countTarget (edges : List EdgeDef) (d : Dict String Int) (v : String) :
    (edges.foldl countTarget d).get? v =
      (d.get? v).map (· + (edges.countP (fun e => e.target = v) : Int)) := by
  induction edges generalizing d with
  | nil => simp
  | cons e edges ih =>
      rw [List.foldl_cons, ih, get?_countTarget, Option.map_map, List.countP_cons]
      congr 1
      funext k
      by_cases hv : e.target = v
      · simp [hv]; omega
      · simp [hv]

theorem get?_ofList_const {α : Type*} (nodes : List NodeDef) (x : α) (v : String) :
    (Dict.ofList (nodes.map fun n => (n.id, x))).get? v =
      if v ∈ nodes.map NodeDef.id then some x else none := by
  have hkeys : v ∈ (Dict.ofList (nodes.map fun n => (n.id, x))).keys ↔ v ∈ nodes.map NodeDef.id := by
    rw [Dict.mem_keys_ofList, List.map_map]
    rfl
  cases h : (Dict.ofList (nodes.map fun n => (n.id, x))).get? v with
  | none =>
      have hv := mt hkeys.2 (Dict.get?_eq_none_iff.1 h)
      rw [if_neg hv]
  | some y =>
      have hv := hkeys.1 (Dict.mem_keys_of_get? h)
      rw [Dict.get?_ofList] at h
      have hy := mem_of_lookup_eq_some h
      simp only [List.mem_reverse, List.mem_map, Prod.mk.injEq] at hy
      rcases hy with ⟨_, _, _, rfl⟩
      rw [if_pos hv]

/-- The counter of a declared id is the number of edges into it. -/
theorem get?_inDegrees (nodes : List NodeDef) (edges : List EdgeDef) (v : String) :
    (inDegrees nodes edges).get? v =
      if v ∈ nodes.map NodeDef.id then some (edges.countP (fun e => e.target = v) : Int)
      else none := by
  rw [inDegrees, get?_foldl_countTarget, get?_ofList_const]
  split <;> simp

theorem get?_addTarget (adj : Dict String (List String)) (e : EdgeDef) (u : String) :
    (addTarget adj e).get? u =
      (adj.get? u).map (· ++ if e.source = u then [e.target] else []) := by
  unfold addTarget
  cases h : adj.get? e.source with
  | none =>
      by_cases hu : e.source = u
      · simp [← hu, h]
      · simp [hu]
  | some ts =>
      by_cases hu : e.source = u
      · simp [← hu, h]
      · have hne : u ≠ e.source := fun heq => hu heq.symm
        simp [hu, Dict.get?_set_of_ne _ _ hne]

theorem get?_foldl_addTarget (edges : List EdgeDef) (adj : Dict String (List String)) (u : String) :
    (edges.foldl addTarget adj).get? u = (adj.get? u).map (· ++ targetsOf edges u) := by
  induction edges generalizing adj with
  | nil => simp [targetsOf]
  | cons e edges ih =>
      rw [List.foldl_cons, ih, get?_addTarget, Option.map_map]
      congr 1
      funext ts
      by_cases hu : e.source = u <;> simp [targetsOf, hu]

theorem get?_adjacency (nodes : List NodeDef) (edges : List EdgeDef) (u : String) :
    (adjacency nodes edges).get? u =
      if u ∈ nodes.map NodeDef.id then some (targetsOf edges u) else none := by
  rw [adjacency, get?_foldl_addTarget, get?_ofList_const]
  split <;> simp

theorem count_targetsOf (edges : List EdgeDef) (u t : String) :
    (targetsOf edges u).count t = edges.countP (fun e => e.target = t ∧ e.source = u) := by
  induction edges with
  | nil => rfl
  | cons e edges ih =>
      have hstep : targetsOf (e :: edges) u =
          if e.source = u then e.target :: targetsOf edges u else targetsOf edges u := by
        by_cases hu : e.source = u <;> simp [targetsOf, hu]
      rw [hstep, List.countP_cons, ← ih]
      by_cases hu : e.source = u <;> by_cases ht : e.target = t <;>
        simp [hu, ht]

/-! ## One round -/

/-- The inner loop lowers every counter by the multiplicity of the vertex and queues
exactly the vertices whose counter it brings to zero. -/
theorem foldlM_relax (ts : List String) (st : KahnState)
    (hkeys : ∀ t ∈ ts, t ∈ st.inDegree.keys)
    (hle : ∀ v d, st.inDegree.get? v = some d → (ts.count v : Int) ≤ d) :
    ∃ st', ts.foldlM relax st = .ok st' ∧ st'.visited = st.visited ∧
      (∀ v, st'.inDegree.get? v = (st.inDegree.get? v).map (· - (ts.count v : Int))) ∧
      ∃ q, st'.queue = st.queue ++ q ∧ q.Nodup ∧
        ∀ v, v ∈ q ↔ v ∈ ts ∧ st'.inDegree.get? v = some 0 := by
  induction ts generalizing st with
  | nil => exact ⟨st, rfl, rfl, by simp, [], by simp, by simp, by simp⟩
  | cons t ts ih =>
      have htk : t ∈ st.inDegree.keys := hkeys t List.mem_cons_self
      obtain ⟨d, hd⟩ := Dict.mem_keys_iff.1 htk
      have hdle : (ts.count t : Int) + 1 ≤ d := by
        have := hle t d hd
        simpa using this
      let st₁ : KahnState :=
        { st with
          inDegree := st.inDegree.set t (d - 1)
          queue := if d - 1 = 0 then st.queue ++ [t] else st.queue }
      have hrelax : relax st t = .ok st₁ := by simp [relax, hd, st₁]
      have hget₁ : ∀ v, st₁.inDegree.get? v =
          (st.inDegree.get? v).map (· - if v = t then (1 : Int) else 0) := by
        intro v
        by_cases hv : v = t
        · simp [st₁, hv, hd]
        · simp [st₁, hv, Dict.get?_set_of_ne _ _ hv]
      have hkeys₁ : ∀ u ∈ ts, u ∈ st₁.inDegree.keys := by
        intro u hu
        exact Dict.mem_keys_set.2 (Or.inr (hkeys u (List.mem_cons_of_mem _ hu)))
      have hle₁ : ∀ v k, st₁.inDegree.get? v = some k → (ts.count v : Int) ≤ k := by
        intro v k hk
        rw [hget₁] at hk
        cases hv : st.inDegree.get? v with
        | none => simp [hv] at hk
        | some k₀ =>
            have hk₀ := hle v k₀ hv
            have hkk : k₀ - (if v = t then (1 : Int) else 0) = k := by simpa [hv] using hk
            by_cases hvt : v = t
            · subst hvt
              rw [if_pos rfl] at hkk
              rw [List.count_cons_self] at hk₀
              omega
            · rw [if_neg hvt] at hkk
              rw [List.count_cons_of_ne (Ne.symm hvt)] at hk₀
              omega
      obtain ⟨st', hrun, hvis, hget, q, hqueue, hnodup, hmem⟩ := ih st₁ hkeys₁ hle₁
      have hfinal : ∀ v, st'.inDegree.get? v =
          (st.inDegree.get? v).map (· - ((t :: ts).count v : Int)) := by
        intro v
        rw [hget, hget₁, Option.map_map]
        congr 1
        funext k
        by_cases hv : v = t
        · subst hv; simp; omega
        · simp [hv, List.count_cons_of_ne (Ne.symm hv)]
      have hrun' : (t :: ts).foldlM relax st = .ok st' := by
        rw [List.foldlM_cons, hrelax]; exact hrun
      have hft : st'.inDegree.get? t = some (d - 1 - (ts.count t : Int)) := by
        rw [hget, hget₁, hd]; simp
      by_cases hz : d - 1 = 0
      · -- The counter of `t` reaches zero here, so `t` cannot occur in `ts` again.
        have hts : t ∉ ts := by
          intro hmem
          have := List.count_pos_iff.2 hmem
          omega
        refine ⟨st', hrun', hvis, hfinal, t :: q, by simp [hqueue, st₁, hz], ?_, ?_⟩
        · exact List.nodup_cons.2 ⟨fun h => hts ((hmem t).1 h).1, hnodup⟩
        · intro v
          by_cases hv : v = t
          · subst hv
            simp [hft, hz, List.count_eq_zero.2 hts]
          · simp [hv, hmem]
      · refine ⟨st', hrun', hvis, hfinal, q, by simp [hqueue, st₁, hz], hnodup, ?_⟩
        intro v
        by_cases hv : v = t
        · subst hv
          rw [hmem]
          constructor
          · intro h; exact ⟨List.mem_cons_self, h.2⟩
          · intro h
            refine ⟨?_, h.2⟩
            have hzero : d - 1 - (ts.count v : Int) = 0 := by simpa [hft] using h.2
            exact List.count_pos_iff.1 (by omega)
        · simp [hv, hmem]

/-! ## The loop invariant -/

/-- Every predecessor of a vertex of `P` stands before it in `P`. -/
def TopologicalPrefix (edges : List EdgeDef) (P : List String) : Prop :=
  ∀ A v B, P = A ++ v :: B → ∀ e ∈ edges, e.target = v → e.source ∈ A

theorem TopologicalPrefix.snoc {edges : List EdgeDef} {P : List String} {u : String}
    (h : TopologicalPrefix edges P) (hu : ∀ e ∈ edges, e.target = u → e.source ∈ P) :
    TopologicalPrefix edges (P ++ [u]) := by
  intro A v B hsplit e he hev
  rcases List.eq_nil_or_concat B with hB | ⟨B', z, hB⟩
  · subst hB
    have hlast := List.append_inj' hsplit rfl
    have hv : u = v := by simpa using hlast.2
    subst hv
    exact hlast.1 ▸ hu e he hev
  · subst hB
    have hinit : P = A ++ v :: B' := by
      have hcat : P ++ [u] = (A ++ v :: B') ++ [z] := by simpa using hsplit
      exact (List.append_inj' hcat rfl).1
    exact h A v B' hinit e he hev

/-- The number of edges into `v` whose source is still unpopped. -/
def pending (edges : List EdgeDef) (P : List String) (v : String) : Nat :=
  edges.countP (fun e => e.target = v ∧ e.source ∉ P)

theorem pending_eq_zero_iff {edges : List EdgeDef} {P : List String} {v : String} :
    pending edges P v = 0 ↔ ∀ e ∈ edges, e.target = v → e.source ∈ P := by
  simp [pending, List.countP_eq_zero]

theorem pending_snoc (edges : List EdgeDef) (P : List String) {u : String} (hu : u ∉ P) (v : String) :
    pending edges P v = pending edges (P ++ [u]) v + (targetsOf edges u).count v := by
  rw [count_targetsOf]
  induction edges with
  | nil => rfl
  | cons e edges ih =>
      unfold pending at ih ⊢
      rw [List.countP_cons, List.countP_cons, List.countP_cons, ih]
      by_cases hv : e.target = v
      · by_cases hs : e.source = u
        · simp [hv, hs, hu]; omega
        · simp [hv, hs]; omega
      · simp [hv]

structure KahnInv (graph : GraphDef) (P : List String) (st : KahnState) : Prop where
  nodup : (P ++ st.queue).Nodup
  declared : ∀ v ∈ P ++ st.queue, v ∈ graph.ids
  visited : st.visited = P.length
  degree : ∀ v, st.inDegree.get? v =
    if v ∈ graph.ids then some (pending graph.edges P v : Int) else none
  zero : ∀ v ∈ graph.ids, v ∈ P ++ st.queue ↔ pending graph.edges P v = 0
  topological : TopologicalPrefix graph.edges P

theorem kahnStart_inv (graph : GraphDef) : KahnInv graph [] (kahnStart graph) := by
  have hpending : ∀ v, graph.edges.countP (fun e => e.target = v) = pending graph.edges [] v := by
    intro v
    simp [pending]
  have hdegree : ∀ v, (kahnStart graph).inDegree.get? v =
      if v ∈ graph.ids then some (pending graph.edges [] v : Int) else none := by
    intro v
    rw [← hpending]
    exact get?_inDegrees graph.nodes graph.edges v
  have hqueue : ∀ v, v ∈ (kahnStart graph).queue ↔ (kahnStart graph).inDegree.get? v = some 0 := by
    intro v
    rw [Dict.get?_eq_some_iff]
    simp [kahnStart]
  refine ⟨?_, ?_, rfl, hdegree, ?_, ?_⟩
  · have hsub : ((inDegrees graph.nodes graph.edges).entries.filter fun p => p.2 = 0).Sublist
        (inDegrees graph.nodes graph.edges).entries := List.filter_sublist
    exact (hsub.map Prod.fst).nodup (inDegrees graph.nodes graph.edges).nodup
  · intro v hv
    rw [List.nil_append, hqueue, hdegree] at hv
    by_contra hids
    simp [hids] at hv
  · intro v hids
    rw [List.nil_append, hqueue, hdegree, if_pos hids]
    simp
  · intro A v B hsplit
    simp at hsplit

/-- One round pops the head of the queue and keeps the invariant. -/
theorem kahnRound_inv {graph : GraphDef} (hend : graph.EndpointsDeclared) {P : List String}
    {st : KahnState} (hinv : KahnInv graph P st) {u : String} {rest : List String}
    (hqueue : st.queue = u :: rest) :
    ∃ st', kahnRound (adjacency graph.nodes graph.edges) st = .ok st' ∧
      KahnInv graph (P ++ [u]) st' := by
  have huP : u ∉ P := by
    have hdisj := (List.nodup_append.1 hinv.nodup).2.2
    intro hmem
    exact hdisj u hmem u (by simp [hqueue]) rfl
  have huids : u ∈ graph.ids := hinv.declared u (by simp [hqueue])
  have hadj : (adjacency graph.nodes graph.edges).get? u = some (targetsOf graph.edges u) := by
    rw [get?_adjacency]
    exact if_pos huids
  let st₀ : KahnState := { st with queue := rest, visited := st.visited + 1 }
  have hkeys : ∀ t ∈ targetsOf graph.edges u, t ∈ st₀.inDegree.keys := by
    intro t ht
    rcases mem_targetsOf.1 ht with ⟨e, he, -, het⟩
    have hids : t ∈ graph.ids := het ▸ (hend e he).2
    exact Dict.mem_keys_of_get? (by rw [hinv.degree t, if_pos hids])
  have hle : ∀ v d, st₀.inDegree.get? v = some d → ((targetsOf graph.edges u).count v : Int) ≤ d := by
    intro v d hd
    have hsplit := pending_snoc graph.edges P huP v
    rw [show st₀.inDegree.get? v = _ from hinv.degree v] at hd
    split at hd
    · have : (pending graph.edges P v : Int) = d := by simpa using hd
      omega
    · cases hd
  obtain ⟨st', hrun, hvis, hget, q, hq, hqn, hqmem⟩ := foldlM_relax _ st₀ hkeys hle
  have hdegree : ∀ v, st'.inDegree.get? v =
      if v ∈ graph.ids then some (pending graph.edges (P ++ [u]) v : Int) else none := by
    intro v
    have hsplit := pending_snoc graph.edges P huP v
    rw [hget, show st₀.inDegree.get? v = _ from hinv.degree v]
    split
    · simp; omega
    · rfl
  have hqmem' : ∀ v ∈ graph.ids, v ∈ q ↔
      v ∈ targetsOf graph.edges u ∧ pending graph.edges (P ++ [u]) v = 0 := by
    intro v hv
    rw [hqmem, hdegree, if_pos hv]
    simp
  have hqids : ∀ v ∈ q, v ∈ graph.ids := by
    intro v hv
    rcases mem_targetsOf.1 ((hqmem v).1 hv).1 with ⟨e, he, -, het⟩
    exact het ▸ (hend e he).2
  have hold : ∀ v ∈ P ++ st.queue, pending graph.edges (P ++ [u]) v = 0 ∧
      v ∉ targetsOf graph.edges u := by
    intro v hv
    have hz := (hinv.zero v (hinv.declared v hv)).1 hv
    have hsplit := pending_snoc graph.edges P huP v
    exact ⟨by omega, fun hmem => by have := List.count_pos_iff.2 hmem; omega⟩
  have happ : P ++ [u] ++ st'.queue = (P ++ st.queue) ++ q := by
    simp [hq, st₀, hqueue]
  refine ⟨st', ?_, ?_, ?_, ?_, hdegree, ?_, ?_⟩
  · simp only [kahnRound, hqueue, hadj]
    exact hrun
  · rw [happ, List.nodup_append]
    refine ⟨hinv.nodup, hqn, ?_⟩
    intro a ha b hb hab
    subst hab
    exact (hold a ha).2 ((hqmem a).1 hb).1
  · intro v hv
    rw [happ] at hv
    rcases List.mem_append.1 hv with hv | hv
    · exact hinv.declared v hv
    · exact hqids v hv
  · rw [hvis]
    simp [st₀, hinv.visited]
  · intro v hv
    rw [happ, List.mem_append, hqmem' v hv, hinv.zero v hv]
    have hsplit := pending_snoc graph.edges P huP v
    constructor
    · intro h
      rcases h with h | h
      · omega
      · exact h.2
    · intro h
      by_cases hmem : v ∈ targetsOf graph.edges u
      · exact Or.inr ⟨hmem, h⟩
      · have := List.count_eq_zero.2 hmem
        omega
  · refine hinv.topological.snoc ?_
    exact pending_eq_zero_iff.1 ((hinv.zero u huids).1 (by simp [hqueue]))

/-! ## The verdict -/

theorem KahnInv.length_le {graph : GraphDef} {P : List String} {st : KahnState}
    (hinv : KahnInv graph P st) : (P ++ st.queue).length ≤ graph.nodes.length := by
  have hsub := List.subperm_of_subset hinv.nodup hinv.declared
  simpa [GraphDef.ids] using hsub.length_le

/-- The loop ends with an empty queue after at most one round per node. -/
theorem kahn_run {graph : GraphDef} (hend : graph.EndpointsDeclared) {fuel : Nat}
    (hfuel : graph.nodes.length ≤ fuel) :
    ∃ st P, whileLoop (fun st => !st.queue.isEmpty) (kahnRound (adjacency graph.nodes graph.edges))
      fuel (kahnStart graph) = some (.ok st) ∧ st.queue = [] ∧ KahnInv graph P st := by
  have hround : ∀ st, (∃ P, KahnInv graph P st) → (!st.queue.isEmpty) = true →
      ∃ st', kahnRound (adjacency graph.nodes graph.edges) st = .ok st' ∧
        (∃ P, KahnInv graph P st') ∧
        graph.nodes.length - st'.visited < graph.nodes.length - st.visited := by
    intro st hst hcond
    obtain ⟨P, hP⟩ := hst
    cases hq : st.queue with
    | nil => simp [hq] at hcond
    | cons u rest =>
        obtain ⟨st', hrun, hinv'⟩ := kahnRound_inv hend hP hq
        refine ⟨st', hrun, ⟨_, hinv'⟩, ?_⟩
        have hlen := hinv'.length_le
        rw [hinv'.visited, hP.visited]
        simp only [List.length_append, List.length_singleton] at hlen ⊢
        omega
  have hfuel' : graph.nodes.length - (kahnStart graph).visited ≤ fuel := by omega
  obtain ⟨st, hrun, ⟨P, hP⟩, hcond⟩ := whileLoop_total
    (fun st => ∃ P, KahnInv graph P st) (fun st => graph.nodes.length - st.visited) hround
    ⟨[], kahnStart_inv graph⟩ hfuel'
  exact ⟨st, P, hrun, by simpa using hcond, hP⟩

/-- At the end every id has been popped exactly when there is no cycle. -/
theorem KahnInv.popped_all_iff {graph : GraphDef} (hend : graph.EndpointsDeclared) {P : List String}
    {st : KahnState} (hinv : KahnInv graph P st) (hq : st.queue = []) :
    (∀ v ∈ graph.ids, v ∈ P) ↔ Acyclic graph.HasEdge := by
  constructor
  · intro hall
    apply acyclic_of_rank (fun v => P.idxOf v)
    intro a b hab
    rcases hab with ⟨e, he, rfl, rfl⟩
    have hmem : e.target ∈ P := hall _ (hend e he).2
    obtain ⟨A, B, hsplit, hA⟩ := List.eq_append_cons_of_mem hmem
    have hsrc : e.source ∈ A := hinv.topological A e.target B hsplit e he rfl
    have htgt : P.idxOf e.target = A.length := by
      rw [hsplit, List.idxOf_append_of_notMem hA]
      simp
    have hlt : A.idxOf e.source < A.length := List.idxOf_lt_length_of_mem hsrc
    rw [htgt, hsplit, List.idxOf_append_of_mem hsrc]
    exact hlt
  · intro hac v hv
    by_contra hvP
    -- Every unpopped vertex has an unpopped predecessor.
    have hleft : graph.ids.filter (fun v => v ∉ P) ≠ [] :=
      List.ne_nil_of_mem (List.mem_filter.2 ⟨hv, by simpa using hvP⟩)
    obtain ⟨m, hm, hsource⟩ := hac.exists_source hleft
    have hm' : m ∈ graph.ids ∧ m ∉ P := by simpa using hm
    have hne : pending graph.edges P m ≠ 0 := by
      intro hz
      have := (hinv.zero m hm'.1).2 hz
      rw [hq, List.append_nil] at this
      exact hm'.2 this
    rw [ne_eq, pending_eq_zero_iff] at hne
    push Not at hne
    obtain ⟨e, he, het, hes⟩ := hne
    exact hsource e.source (by simp [(hend e he).1, hes]) ⟨e, he, rfl, het⟩

/-- The cycle check on a graph with declared endpoints: it ends, looks up only keys
that exist, and accepts exactly the acyclic graphs with pairwise distinct ids. -/
theorem assertAcyclic_spec {graph : GraphDef} (hend : graph.EndpointsDeclared) :
    (assertAcyclic graph = .ok () ∧ graph.ids.Nodup ∧ Acyclic graph.HasEdge) ∨
      (assertAcyclic graph = .error (.dslValidation "Graph contains a cycle") ∧
        ¬ (graph.ids.Nodup ∧ Acyclic graph.HasEdge)) := by
  obtain ⟨st, P, hrun, hq, hinv⟩ := kahn_run hend le_rfl
  have hPnodup : P.Nodup := by simpa [hq] using hinv.nodup
  have hPids : ∀ v ∈ P, v ∈ graph.ids := by
    intro v hv
    exact hinv.declared v (List.mem_append_left _ hv)
  have hlen : P.length = graph.nodes.length ↔ graph.ids.Nodup ∧ ∀ v ∈ graph.ids, v ∈ P := by
    have hsub := List.subperm_of_subset hPnodup hPids
    have hidslen : graph.ids.length = graph.nodes.length := by simp [GraphDef.ids]
    constructor
    · intro hl
      have hperm := hsub.perm_of_length_le (by omega)
      exact ⟨hperm.nodup_iff.1 hPnodup, fun v hv => hperm.mem_iff.2 hv⟩
    · intro h
      have hsub' := List.subperm_of_subset h.1 h.2
      have h1 := hsub.length_le
      have h2 := hsub'.length_le
      omega
  rw [hinv.popped_all_iff hend hq] at hlen
  simp only [assertAcyclic, hrun, hinv.visited]
  by_cases h : P.length = graph.nodes.length
  · exact Or.inl ⟨by simp [h], hlen.1 h⟩
  · exact Or.inr ⟨by simp [h], fun hok => h (hlen.2 hok)⟩

end OpsKnowledge.Workflow
