import Mathlib.Tactic.Common

/-!
# Key-value stores

A store by the values it finds, with upserts of several rows at once and deletions by key
and by value; and one whose entries vanish at a moment of their own. An entry that is gone
does not come back by itself, so what is found later was there before.
-/

namespace OpsKnowledge.Lib

def Store (κ α : Type*) := κ → Option α

namespace Store

variable {κ α : Type*} {s : Store κ α} {k : κ} {a : α}

def empty : Store κ α := fun _ => none

def deleteWhere (s : Store κ α) (p : α → Bool) : Store κ α := fun k => (s k).filter fun a => !p a

theorem deleteWhere_eq_some {p : α → Bool} :
    s.deleteWhere p k = some a ↔ s k = some a ∧ p a = false := by
  unfold deleteWhere
  rw [Option.filter_eq_some_iff]
  simp

variable [DecidableEq κ]

def put (s : Store κ α) (k : κ) (a : α) : Store κ α := fun k' => if k' = k then some a else s k'

theorem put_self : s.put k a k = some a := if_pos rfl

theorem put_of_ne {k' : κ} (h : k' ≠ k) : s.put k a k' = s k' := if_neg h

/-- Rows with equal keys: the last one stays. -/
def upsert (s : Store κ α) (rows : List (κ × α)) : Store κ α :=
  rows.foldl (fun s row => s.put row.1 row.2) s

def deleteIds (s : Store κ α) (ks : List κ) : Store κ α := fun k => if k ∈ ks then none else s k

variable {rows : List (κ × α)}

theorem upsert_cons (row : κ × α) :
    s.upsert (row :: rows) = (s.put row.1 row.2).upsert rows := rfl

/-- What an upsert leaves under a key is one of its rows, or the old row under a key without one. -/
theorem upsert_cases (s : Store κ α) (rows : List (κ × α)) (k : κ) :
    (∃ b, (k, b) ∈ rows ∧ s.upsert rows k = some b) ∨
    (∀ b, (k, b) ∉ rows) ∧ s.upsert rows k = s k := by
  induction rows generalizing s with
  | nil => exact .inr ⟨by simp, rfl⟩
  | cons row rows ih =>
      rw [upsert_cons]
      rcases ih (s.put row.1 row.2) with ⟨b, hb, heq⟩ | ⟨hnone, heq⟩
      · exact .inl ⟨b, List.mem_cons_of_mem row hb, heq⟩
      · by_cases hk : k = row.1
        · subst hk
          left
          refine ⟨row.2, List.mem_cons_self, ?_⟩
          rw [heq]
          simp [put]
        · right
          constructor
          · intro b hb
            rcases List.mem_cons.1 hb with heq | hb
            · exact hk (congrArg Prod.fst heq)
            · exact hnone b hb
          · rw [heq]
            simp [put, hk]

/-- Under a key, an upsert depends on the old row only where it has none of its own. -/
theorem upsert_congr {s' : Store κ α} (h : (∃ b, (k, b) ∈ rows) ∨ s k = s' k) :
    s.upsert rows k = s'.upsert rows k := by
  induction rows generalizing s s' with
  | nil =>
      rcases h with ⟨b, hb⟩ | h
      · exact absurd hb (List.not_mem_nil)
      · exact h
  | cons row rows ih =>
      rw [upsert_cons, upsert_cons]
      apply ih
      by_cases hk : k = row.1
      · right
        rw [hk, put_self, put_self]
      · rw [put_of_ne hk, put_of_ne hk]
        refine h.imp (fun ⟨b, hb⟩ => ⟨b, ?_⟩) id
        rcases List.mem_cons.1 hb with heq | hb
        · exact absurd (congrArg Prod.fst heq) hk
        · exact hb

theorem upsert_eq_upsert_empty_iff :
    s.upsert rows = empty.upsert rows ↔ ∀ k a, s k = some a → ∃ b, (k, b) ∈ rows := by
  constructor
  · intro h k a hk
    rcases upsert_cases s rows k with ⟨b, hb, -⟩ | ⟨-, hs⟩
    · exact ⟨b, hb⟩
    · rcases upsert_cases empty rows k with ⟨b, hb, -⟩ | ⟨-, hempty⟩
      · exact ⟨b, hb⟩
      · have hnone : s k = none := hs.symm.trans ((congrFun h k).trans hempty)
        rw [hk] at hnone
        exact absurd hnone nofun
  · intro h
    funext k
    refine upsert_congr ?_
    cases hk : s k with
    | none => exact .inr rfl
    | some a => exact .inl (h k a hk)

theorem deleteIds_eq_some {ks : List κ} :
    s.deleteIds ks k = some a ↔ k ∉ ks ∧ s k = some a := by
  unfold deleteIds
  by_cases hk : k ∈ ks
  · simp [hk]
  · simp [hk]

end Store

/-! ## Keys with a time to live -/

/-- A value, and the moment at which it vanishes. -/
abbrev ExpiringStore (κ α : Type*) := Store κ (α × Nat)

namespace ExpiringStore

variable {κ α : Type*} {s : ExpiringStore κ α} {k k' : κ} {a : α} {now later ttl : Nat}

/-- `GET` -/
def get (s : ExpiringStore κ α) (now : Nat) (k : κ) : Option α :=
  (s k).bind fun e => if now < e.2 then some e.1 else none

theorem get_eq_some : s.get now k = some a ↔ ∃ x, s k = some (a, x) ∧ now < x := by
  unfold get
  constructor
  · intro h
    obtain ⟨⟨b, x⟩, hs, hlive⟩ := Option.bind_eq_some_iff.1 h
    dsimp only at hlive
    split at hlive
    · next hx =>
        cases hlive
        exact ⟨x, hs, hx⟩
    · cases hlive
  · rintro ⟨x, hs, hx⟩
    simp [hs, hx]

variable [DecidableEq κ]

/-- `SET … EX` -/
def setEx (s : ExpiringStore κ α) (now ttl : Nat) (k : κ) (a : α) : ExpiringStore κ α :=
  s.put k (a, now + ttl)

/-- `SET … NX EX`; `none` when the key is there. -/
def setNx (s : ExpiringStore κ α) (now ttl : Nat) (k : κ) (a : α) : Option (ExpiringStore κ α) :=
  if (s.get now k).isSome then none else some (s.setEx now ttl k a)

/-- `DEL` -/
def delete (s : ExpiringStore κ α) (k : κ) : ExpiringStore κ α := fun k' => if k' = k then none else s k'

theorem setEx_self : s.setEx now ttl k a k = some (a, now + ttl) := if_pos rfl

theorem setEx_of_ne (h : k' ≠ k) : s.setEx now ttl k a k' = s k' := if_neg h

theorem delete_self : s.delete k k = none := if_pos rfl

theorem delete_of_ne (h : k' ≠ k) : s.delete k k' = s k' := if_neg h

theorem get_setEx_self (h : later < now + ttl) : (s.setEx now ttl k a).get later k = some a :=
  get_eq_some.2 ⟨now + ttl, setEx_self, h⟩

end ExpiringStore

end OpsKnowledge.Lib
