import Mathlib.Tactic.Common

/-!
# Runs of a partial step function

A system is a step function that answers `none` when an action is not enabled. A
property of the states along a run and a condition on its steps are related action by
action: where each step establishes the property exactly under the condition, whole
runs do.
-/

namespace OpsKnowledge.Lib

variable {σ α : Type*} (step : σ → α → Option σ)

/-- The state after a list of actions; `none` when one of them is not enabled. -/
def runSteps : σ → List α → Option σ
  | s, [] => some s
  | s, a :: as => (step s a).bind fun s' => runSteps s' as

/-- `P` holds in every state that the run of `as` from `s` visits. -/
def Visits (P : σ → Prop) : σ → List α → Prop
  | s, [] => P s
  | s, a :: as => P s ∧ ∀ s', step s a = some s' → Visits P s' as

/-- Every step of the run of `as` from `s` meets `C`. -/
def EveryStep (C : σ → α → Prop) : σ → List α → Prop
  | _, [] => True
  | s, a :: as => ∀ s', step s a = some s' → C s a ∧ EveryStep C s' as

instance EveryStep.decidable {C : σ → α → Prop} [∀ s a, Decidable (C s a)] :
    ∀ (s : σ) (as : List α), Decidable (EveryStep step C s as)
  | _, [] => .isTrue trivial
  | s, a :: as =>
      match h : step s a with
      | none => .isTrue fun _ hs' => nomatch h.symm.trans hs'
      | some t =>
          have := EveryStep.decidable (C := C) t as
          decidable_of_iff (C s a ∧ EveryStep step C t as)
            ⟨fun hc _ hs' => Option.some.inj (h.symm.trans hs') ▸ hc, fun hall => hall t h⟩

variable {step}

theorem EveryStep.of_forall {C : σ → α → Prop} (h : ∀ s a, C s a) (s : σ) (as : List α) :
    EveryStep step C s as := by
  induction as generalizing s with
  | nil => trivial
  | cons a as ih => exact fun s' _ => ⟨h s a, ih s'⟩

theorem EveryStep.of_mem {D : α → Prop} {as : List α} (h : ∀ a ∈ as, D a) (s : σ) :
    EveryStep step (fun _ a => D a) s as := by
  induction as generalizing s with
  | nil => trivial
  | cons a as ih =>
      intro s' _
      exact ⟨h a List.mem_cons_self, ih (fun b hb => h b (List.mem_cons_of_mem a hb)) s'⟩

theorem EveryStep.cons_of_eq {C : σ → α → Prop} {s s' : σ} {a : α} {as : List α}
    (hs' : step s a = some s') (hc : C s a) (h : EveryStep step C s' as) :
    EveryStep step C s (a :: as) := by
  intro t ht
  rw [hs'] at ht
  cases ht
  exact ⟨hc, h⟩

/-- What a run asks of the step after its first actions. -/
theorem EveryStep.after {C : σ → α → Prop} {s t t' : σ} {as bs : List α} {a : α}
    (h : EveryStep step C s (as ++ a :: bs)) (hrun : runSteps step s as = some t)
    (ht : step t a = some t') : C t a := by
  induction as generalizing s with
  | nil =>
      cases hrun
      exact (h t' ht).1
  | cons b as ih =>
      rcases Option.bind_eq_some_iff.1 hrun with ⟨s', hs', hrun⟩
      exact ih (h s' hs').2 hrun

theorem EveryStep.and {C D : σ → α → Prop} {s : σ} {as : List α} (hc : EveryStep step C s as)
    (hd : EveryStep step D s as) : EveryStep step (fun s a => C s a ∧ D s a) s as := by
  induction as generalizing s with
  | nil => trivial
  | cons a as ih =>
      intro s' hs'
      obtain ⟨hc, hcs⟩ := hc s' hs'
      obtain ⟨hd, hds⟩ := hd s' hs'
      exact ⟨⟨hc, hd⟩, ih hcs hds⟩

/-- Two conditions that agree on the steps that are taken from states with the invariant. -/
theorem everyStep_congr_of_inv {C D : σ → α → Prop} {I : σ → Prop}
    (hinv : ∀ s a s', I s → step s a = some s' → I s')
    (h : ∀ s a s', I s → step s a = some s' → (C s a ↔ D s a)) {s : σ} (hs : I s) (as : List α) :
    EveryStep step C s as ↔ EveryStep step D s as := by
  induction as generalizing s with
  | nil => exact Iff.rfl
  | cons a as ih =>
      constructor
      · intro hc s' hs'
        exact ⟨(h s a s' hs hs').1 (hc s' hs').1, (ih (hinv s a s' hs hs')).1 (hc s' hs').2⟩
      · intro hd s' hs'
        exact ⟨(h s a s' hs hs').2 (hd s' hs').1, (ih (hinv s a s' hs hs')).2 (hd s' hs').2⟩

theorem everyStep_congr {C D : σ → α → Prop} (h : ∀ s a s', step s a = some s' → (C s a ↔ D s a))
    (s : σ) (as : List α) : EveryStep step C s as ↔ EveryStep step D s as :=
  have htriv : ∀ s a s', True → step s a = some s' → True := fun _ _ _ h _ => h
  everyStep_congr_of_inv htriv (fun s a s' _ => h s a s') trivial as

theorem Visits.head {P : σ → Prop} {s : σ} {as : List α} (h : Visits step P s as) : P s := by
  cases as with
  | nil => exact h
  | cons a as => exact h.1

theorem Visits.mono {P Q : σ → Prop} (hpq : ∀ s, P s → Q s) {s : σ} {as : List α}
    (h : Visits step P s as) : Visits step Q s as := by
  induction as generalizing s with
  | nil => exact hpq s h
  | cons a as ih => exact ⟨hpq s h.1, fun s' hs' => ih (h.2 s' hs')⟩

/-- The state that a run ends in is one that it visits. -/
theorem Visits.last {P : σ → Prop} {s s' : σ} {as : List α} (h : Visits step P s as)
    (hrun : runSteps step s as = some s') : P s' := by
  induction as generalizing s with
  | nil => cases hrun; exact h
  | cons a as ih =>
      rcases Option.bind_eq_some_iff.1 hrun with ⟨t, ht, hrun⟩
      exact ih (h.2 t ht) hrun

/-- The invariant rule, with a condition on the steps. -/
theorem EveryStep.visits {C : σ → α → Prop} {P : σ → Prop}
    (hstep : ∀ s a s', P s → C s a → step s a = some s' → P s') {s : σ} {as : List α} (hs : P s)
    (h : EveryStep step C s as) : Visits step P s as := by
  induction as generalizing s with
  | nil => exact hs
  | cons a as ih =>
      refine ⟨hs, ?_⟩
      intro s' hs'
      rcases h s' hs' with ⟨hc, hrest⟩
      exact ih (hstep s a s' hs hc hs') hrest

/-- Where each step from a good state leads to a good state exactly under `C`, a run
visits good states only iff each of its steps meets `C`. The invariant `I` holds anyway. -/
theorem visits_iff_everyStep_of_inv {C : σ → α → Prop} {I P : σ → Prop}
    (hinv : ∀ s a s', I s → step s a = some s' → I s')
    (hstep : ∀ s a s', I s → P s → step s a = some s' → (P s' ↔ C s a)) {s : σ} (hi : I s)
    (hs : P s) (as : List α) : Visits step P s as ↔ EveryStep step C s as := by
  induction as generalizing s with
  | nil => exact ⟨fun _ => trivial, fun _ => hs⟩
  | cons a as ih =>
      constructor
      · intro h s' hs'
        have hrest := h.2 s' hs'
        have hgood := hrest.head
        exact ⟨(hstep s a s' hi hs hs').1 hgood, (ih (hinv s a s' hi hs') hgood).1 hrest⟩
      · intro h
        refine ⟨hs, ?_⟩
        intro s' hs'
        rcases h s' hs' with ⟨hc, hrest⟩
        have hgood := (hstep s a s' hi hs hs').2 hc
        exact (ih (hinv s a s' hi hs') hgood).2 hrest

theorem visits_iff_everyStep {C : σ → α → Prop} {P : σ → Prop}
    (hstep : ∀ s a s', P s → step s a = some s' → (P s' ↔ C s a)) {s : σ} (hs : P s)
    (as : List α) : Visits step P s as ↔ EveryStep step C s as :=
  have htriv : ∀ s a s', True → step s a = some s' → True := fun _ _ _ h _ => h
  visits_iff_everyStep_of_inv htriv (fun s a s' _ => hstep s a s') trivial hs as

/-- As above, where `Q` is what a run under `C` keeps and `P` what it is asked for, in runs whose steps meet
`D` anyway. -/
theorem visits_iff_everyStep_under {C D : σ → α → Prop} {P Q : σ → Prop} (hpq : ∀ s, Q s → P s)
    (hstep : ∀ s a s', Q s → D s a → step s a = some s' → (P s' → C s a) ∧ (C s a → Q s')) {s : σ}
    {as : List α} (hd : EveryStep step D s as) (hs : Q s) :
    Visits step P s as ↔ EveryStep step C s as := by
  constructor
  · intro h
    induction as generalizing s with
    | nil => trivial
    | cons a as ih =>
        intro s' hs'
        have hrest := h.2 s' hs'
        have hboth := hstep s a s' hs (hd s' hs').1 hs'
        have hc := hboth.1 hrest.head
        exact ⟨hc, ih (hd s' hs').2 (hboth.2 hc) hrest⟩
  · intro h
    have hkeep := (hd.and h).visits (fun s a s' hq hc hs' => (hstep s a s' hq hc.1 hs').2 hc.2) hs
    exact hkeep.mono hpq

theorem visits_iff_everyStep_of_companion {C : σ → α → Prop} {P Q : σ → Prop}
    (hpq : ∀ s, Q s → P s)
    (hstep : ∀ s a s', Q s → step s a = some s' → (P s' → C s a) ∧ (C s a → Q s')) {s : σ}
    (hs : Q s) (as : List α) : Visits step P s as ↔ EveryStep step C s as :=
  have htriv : EveryStep step (fun _ _ => True) s as := EveryStep.of_forall (fun _ _ => trivial) s as
  visits_iff_everyStep_under hpq (fun s a s' hq _ => hstep s a s' hq) htriv hs

end OpsKnowledge.Lib
