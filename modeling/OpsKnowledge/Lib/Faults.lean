import Mathlib.Tactic.Common

/-!
# Programs whose calls may fail

A program is a function of a state that other systems keep. Each of its calls returns, raises,
or is the last thing that the process does; a call that does not return may have taken effect or
not. Handlers run after an exception, not after the end of the process.
-/

namespace OpsKnowledge.Lib

/-- What happens to a call. -/
inductive Fault where
  | none
  | raised (effective : Bool)
  | killed (effective : Bool)
  deriving DecidableEq

/-- The call does what it should, whether it returns or not. -/
def Fault.effective : Fault → Bool
  | .none => true
  | .raised effective | .killed effective => effective

inductive Exit (α : Type) where
  | returned (a : α)
  | raised
  | killed

/-- The end of a handler that raises again. -/
def Exit.reraised {α β : Type} : Exit α → Exit β
  | .returned _ | .raised => .raised
  | .killed => .killed

def Faulty (σ α : Type) : Type := σ → Exit α × σ

namespace Faulty

variable {σ α β : Type}

def andThen (p : Faulty σ α) (q : α → Faulty σ β) : Faulty σ β := fun s =>
  match p s with
  | (.returned a, s') => q a s'
  | (.raised, s') => (.raised, s')
  | (.killed, s') => (.killed, s')

instance monad : Monad (Faulty σ) where
  pure a s := (.returned a, s)
  bind := andThen

/-- A call that reads the state. -/
def read (fault : Fault) (f : σ → α) : Faulty σ α := fun s =>
  match fault with
  | .none => (.returned (f s), s)
  | .raised _ => (.raised, s)
  | .killed _ => (.killed, s)

/-- A call that changes the state; where the other system cannot do it, it raises. -/
def write (fault : Fault) (f : σ → Option σ) : Faulty σ Unit := fun s =>
  match f s, fault with
  | some s', .none => (.returned (), s')
  | some s', .raised effective => (.raised, if effective then s' else s)
  | some s', .killed effective => (.killed, if effective then s' else s)
  | none, .none => (.raised, s)
  | none, .raised _ => (.raised, s)
  | none, .killed _ => (.killed, s)

/-- `raise` -/
def raise : Faulty σ α := fun s => (.raised, s)

/-- `except Exception: handler; raise` -/
def onException (body : Faulty σ α) (handler : Faulty σ Unit) : Faulty σ α := fun s =>
  match body s with
  | (.returned a, s') => (.returned a, s')
  | (.raised, s') => ((handler s').1.reraised, (handler s').2)
  | (.killed, s') => (.killed, s')

/-- `try: body` `finally: last`; an exception of the last part takes the place of the body's end. -/
def withFinally (body : Faulty σ α) (last : Faulty σ Unit) : Faulty σ α := fun s =>
  match body s with
  | (.returned a, s') => (last >>= fun _ => pure a) s'
  | (.raised, s') => ((last s').1.reraised, (last s').2)
  | (.killed, s') => (.killed, s')

/-! ## Rules -/

/-- The program goes on. -/
theorem bind_run_of_returned {p : Faulty σ α} {q : α → Faulty σ β} {s s' : σ} {a : α}
    (h : p s = (.returned a, s')) : (p >>= q) s = q a s' := by
  show andThen p q s = _
  unfold andThen
  rw [h]

/-- A program that ends early leaves its state to whoever runs it. -/
theorem bind_run_of_ended {p : Faulty σ α} {q : α → Faulty σ β} {s : σ}
    (h : ∀ a, (p s).1 ≠ .returned a) :
    ((p >>= q) s).2 = (p s).2 ∧ ∀ b, ((p >>= q) s).1 ≠ .returned b := by
  show (andThen p q s).2 = _ ∧ ∀ b, (andThen p q s).1 ≠ _
  unfold andThen
  cases hrun : p s with
  | mk exit s' =>
      cases exit with
      | returned a =>
          rw [hrun] at h
          exact absurd rfl (h a)
      | raised => exact ⟨rfl, nofun⟩
      | killed => exact ⟨rfl, nofun⟩

theorem withFinally_run_of_returned {body : Faulty σ α} {last : Faulty σ Unit} {s s' : σ} {a : α}
    (h : body s = (.returned a, s')) : withFinally body last s = (last >>= fun _ => pure a) s' := by
  unfold withFinally
  rw [h]

/-- The last part does not make a body return. -/
theorem withFinally_ended {body : Faulty σ α} {s : σ} (h : ∀ a, (body s).1 ≠ .returned a)
    (last : Faulty σ Unit) (a : α) : (withFinally body last s).1 ≠ .returned a := by
  unfold withFinally
  cases hrun : body s with
  | mk exit s' =>
      cases exit with
      | returned b =>
          rw [hrun] at h
          exact absurd rfl (h b)
      | killed => exact nofun
      | raised =>
          show (last s').1.reraised ≠ _
          cases (last s').1 <;> exact nofun

theorem read_none (f : σ → α) (s : σ) : read .none f s = (.returned (f s), s) := rfl

theorem read_run (fault : Fault) (f : σ → α) (s : σ) : (read fault f s).2 = s := by
  cases fault with
  | none => rfl
  | raised effective => cases effective <;> rfl
  | killed effective => cases effective <;> rfl

theorem read_ended {fault : Fault} (h : fault ≠ .none) (f : σ → α) (s : σ) (a : α) :
    (read fault f s).1 ≠ .returned a := by
  cases fault with
  | none => exact absurd rfl h
  | raised effective => exact nofun
  | killed effective => exact nofun

theorem write_none {f : σ → Option σ} {s s' : σ} (h : f s = some s') :
    write .none f s = (.returned (), s') := by
  unfold write
  rw [h]

theorem write_run {fault : Fault} {f : σ → Option σ} {s s' : σ} (h : f s = some s') :
    (write fault f s).2 = if fault.effective then s' else s := by
  unfold write
  rw [h]
  cases fault <;> rfl

theorem write_ended {fault : Fault} (h : fault ≠ .none) (f : σ → Option σ) (s : σ) (a : Unit) :
    (write fault f s).1 ≠ .returned a := by
  unfold write
  cases f s with
  | none => cases fault <;> simp
  | some s' =>
      cases fault with
      | none => exact absurd rfl h
      | raised effective => simp
      | killed effective => simp

/-! ## When a program returns -/

/-- From `s` the program returns `r` where `c` holds, and does not return where it does not. -/
def ReturnsIff (p : Faulty σ α) (s : σ) (c : Prop) (r : α × σ) : Prop :=
  (c ∧ p s = (.returned r.1, r.2)) ∨ (¬ c ∧ ∀ a, (p s).1 ≠ .returned a)

theorem returnsIff_pure (a : α) (s : σ) : ReturnsIff (pure a : Faulty σ α) s True (a, s) :=
  .inl ⟨trivial, rfl⟩

theorem returnsIff_read (fault : Fault) (f : σ → α) (s : σ) :
    ReturnsIff (read fault f) s (fault = .none) (f s, s) := by
  by_cases hfault : fault = .none
  · rw [hfault]
    exact .inl ⟨rfl, read_none f s⟩
  · exact .inr ⟨hfault, read_ended hfault f s⟩

theorem returnsIff_write (fault : Fault) {f : σ → Option σ} {s s' : σ} (h : f s = some s') :
    ReturnsIff (write fault f) s (fault = .none) ((), s') := by
  by_cases hfault : fault = .none
  · rw [hfault]
    exact .inl ⟨rfl, write_none h⟩
  · exact .inr ⟨hfault, write_ended hfault f s⟩

namespace ReturnsIff

variable {p : Faulty σ α} {q : α → Faulty σ β} {s s' : σ} {c d : Prop} {a : α}

theorem congr {r : α × σ} (h : ReturnsIff p s c r) (hcd : c ↔ d) : ReturnsIff p s d r := by
  unfold ReturnsIff
  rw [← hcd]
  exact h

theorem bind {r : β × σ} (hp : ReturnsIff p s c (a, s')) (hq : ReturnsIff (q a) s' d r) :
    ReturnsIff (p >>= q) s (c ∧ d) r := by
  rcases hp with ⟨hc, hrun⟩ | ⟨hc, hended⟩
  · unfold ReturnsIff
    rw [bind_run_of_returned hrun, and_iff_right hc]
    exact hq
  · exact .inr ⟨fun h => hc h.1, (bind_run_of_ended hended).2⟩

theorem withFinally {last : Faulty σ Unit} {s'' : σ} (hp : ReturnsIff p s c (a, s'))
    (hlast : ReturnsIff last s' d ((), s'')) : ReturnsIff (withFinally p last) s (c ∧ d) (a, s'') := by
  rcases hp with ⟨hc, hrun⟩ | ⟨hc, hended⟩
  · unfold ReturnsIff
    rw [withFinally_run_of_returned hrun, and_iff_right hc]
    exact (hlast.bind (returnsIff_pure a s'')).congr (and_iff_left trivial)
  · exact .inr ⟨fun h => hc h.1, withFinally_ended hended last⟩

end ReturnsIff

/-! ## What a program leaves alone -/

def Preserves (f : σ → β) (p : Faulty σ α) : Prop := ∀ s, f (p s).2 = f s

section Preserves

variable {γ : Type} {f : σ → γ} {p : Faulty σ α}

theorem preserves_pure (a : α) : Preserves f (pure a : Faulty σ α) := fun _ => rfl

theorem Preserves.bind {q : α → Faulty σ β} (hp : Preserves f p) (hq : ∀ a, Preserves f (q a)) :
    Preserves f (p >>= q) := by
  intro s
  cases hrun : p s with
  | mk exit s' =>
      have hs' : f s' = f s := by
        have hps := hp s
        rwa [hrun] at hps
      cases exit with
      | returned a =>
          rw [bind_run_of_returned hrun, hq a s', hs']
      | raised =>
          rw [(bind_run_of_ended (by rw [hrun]; exact nofun)).1, hrun]
          exact hs'
      | killed =>
          rw [(bind_run_of_ended (by rw [hrun]; exact nofun)).1, hrun]
          exact hs'

theorem preserves_raise : Preserves f (raise : Faulty σ α) := fun _ => rfl

theorem preserves_read (fault : Fault) (g : σ → α) : Preserves f (read fault g) := fun s =>
  congrArg f (read_run fault g s)

theorem preserves_write (fault : Fault) {g : σ → Option σ} (h : ∀ s s', g s = some s' → f s' = f s) :
    Preserves f (write fault g) := by
  intro s
  cases hg : g s with
  | none =>
      unfold write
      rw [hg]
      cases fault <;> rfl
  | some s' =>
      rw [write_run hg]
      cases fault.effective with
      | false => rfl
      | true => exact h s s' hg

theorem Preserves.withFinally {last : Faulty σ Unit} (hp : Preserves f p) (hlast : Preserves f last) :
    Preserves f (withFinally p last) := by
  intro s
  have hps := hp s
  unfold Faulty.withFinally
  cases hrun : p s with
  | mk exit s' =>
      rw [hrun] at hps
      cases exit with
      | returned a => exact (hlast.bind (fun _ => preserves_pure a) s').trans hps
      | raised => exact (hlast s').trans hps
      | killed => exact hps

/-- A handler that leaves something alone leaves it as the body left it. -/
theorem onException_run {handler : Faulty σ Unit} (h : Preserves f handler) (s : σ) :
    f (onException p handler s).2 = f (p s).2 := by
  unfold onException
  cases hrun : p s with
  | mk exit s' =>
      cases exit with
      | returned a => rfl
      | killed => rfl
      | raised => exact h s'

end Preserves

end Faulty

end OpsKnowledge.Lib
