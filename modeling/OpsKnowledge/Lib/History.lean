import Mathlib.Data.List.Basic

/-!
# What was before

Two records of the past of a run. A log of its events: a fact about the events before one of
them is fixed when the event is logged, whatever is logged later, and two such facts that
contradict each other, about a first and a later event, show what was logged between the two.
And a value that changes over time, as the list of the values it took with the instants from
which they held; two values can share an instant, the one that ends there and the one that
begins.
-/

namespace OpsKnowledge.Lib

/-! ## What had happened before an event -/

section Events

variable {ε α : Type*} {e e' : ε} {log more : List ε} {P Q : List ε → Prop}

/-- `P` holds of the events before each occurrence of `e`. -/
def BeforeEach (e : ε) (P : List ε → Prop) (log : List ε) : Prop :=
  ∀ before after, log = before ++ e :: after → P before

/-- Later events change nothing. -/
theorem BeforeEach.append (h : BeforeEach e P log) (hmore : e ∉ more) :
    BeforeEach e P (log ++ more) := by
  intro before after heq
  rcases List.append_eq_append_iff.1 heq with ⟨rest, -, hrest⟩ | ⟨rest, hlog, hrest⟩
  · rw [hrest] at hmore
    exact absurd (by simp) hmore
  · cases rest with
    | nil =>
        rw [List.nil_append] at hrest
        rw [← hrest] at hmore
        exact absurd List.mem_cons_self hmore
    | cons d rest =>
        cases hrest
        exact h before rest hlog

/-- The first occurrence. -/
theorem BeforeEach.concat_self (h : P log) (hlog : e ∉ log) : BeforeEach e P (log ++ [e]) := by
  intro before after heq
  rcases List.append_eq_append_iff.1 heq with ⟨rest, hbefore, hrest⟩ | ⟨rest, hlog', hrest⟩
  · cases rest with
    | nil =>
        rw [List.append_nil] at hbefore
        exact hbefore ▸ h
    | cons d rest => simp at hrest
  · cases rest with
    | nil =>
        rw [List.append_nil] at hlog'
        exact hlog' ▸ h
    | cons d rest =>
        cases hrest
        rw [hlog'] at hlog
        exact absurd (by simp) hlog

/-- The last value that an event of the log has. -/
def lastOf (f : ε → Option α) (log : List ε) : Option α := (log.filterMap f).getLast?

variable {f : ε → Option α}

theorem lastOf_append (log more : List ε) : lastOf f (log ++ more) = (lastOf f more).or (lastOf f log) := by
  unfold lastOf
  rw [List.filterMap_append, List.getLast?_append]

theorem lastOf_append_of_none (h : ∀ d ∈ more, f d = none) : lastOf f (log ++ more) = lastOf f log := by
  have hnone : lastOf f more = none := by
    unfold lastOf
    rw [List.filterMap_eq_nil_iff.2 h]
    rfl
  rw [lastOf_append, hnone, Option.none_or]

theorem exists_mem_of_lastOf {a : α} (h : lastOf f log = some a) : ∃ d ∈ log, f d = some a :=
  List.mem_filterMap.1 (List.mem_of_getLast? h)

/-- Where one value was the last before a first event, and only another can have been it before a later
one, that other value was logged in between. -/
theorem exists_between {a b : α} (hab : a ≠ b) (hfirst : BeforeEach e (fun l => lastOf f l = some a) log)
    (hsecond : BeforeEach e' (fun l => ∀ c ∈ lastOf f l, c = b) log) (he : f e = none)
    {before middle after : List ε} (hlog : log = before ++ e :: (middle ++ e' :: after)) :
    ∃ d ∈ middle, f d = some b := by
  have ha : lastOf f before = some a := hfirst before _ hlog
  have hb : ∀ c ∈ lastOf f (before ++ e :: middle), c = b :=
    hsecond (before ++ e :: middle) after (by rw [hlog, List.append_assoc]; rfl)
  have hmiddle : lastOf f (e :: middle) = lastOf f middle := by
    unfold lastOf
    rw [List.filterMap_cons_none he]
  rw [lastOf_append, hmiddle, ha] at hb
  cases hlast : lastOf f middle with
  | none =>
      rw [hlast, Option.none_or] at hb
      exact absurd (hb a rfl) hab
  | some c =>
      rw [hlast] at hb
      have hc : c = b := hb c rfl
      exact exists_mem_of_lastOf (hlast.trans (congrArg some hc))

end Events

/-! ## What held when -/

section Values

variable {α : Type*} {log : List (Nat × α)} {a b : α} {t now : Nat}

/-- `a` held at `t`. -/
def InForce (log : List (Nat × α)) (t : Nat) (a : α) : Prop :=
  ∃ before start after, log = before ++ (start, a) :: after ∧ start ≤ t ∧
    ∀ next ∈ after.head?, t ≤ next.1

theorem inForce_concat_self (h : now ≤ t) : InForce (log ++ [(now, a)]) t a :=
  ⟨log, now, [], rfl, h, by simp⟩

/-- What comes later does not change what held. -/
theorem InForce.concat (h : InForce log t a) (ht : t ≤ now) : InForce (log ++ [(now, b)]) t a := by
  obtain ⟨before, start, after, rfl, hstart, hnext⟩ := h
  refine ⟨before, start, after ++ [(now, b)], by simp, hstart, ?_⟩
  intro next hmem
  cases after with
  | nil =>
      cases hmem
      exact ht
  | cons e after => exact hnext next hmem

/-- After the last change only its value holds. -/
theorem InForce.eq_of_concat (hlog : ∀ e ∈ log, e.1 ≤ now) (h : InForce (log ++ [(now, a)]) t b)
    (ht : now < t) : b = a := by
  obtain ⟨before, start, after, heq, -, hnext⟩ := h
  cases after with
  | nil =>
      have hlast := (List.append_inj' heq rfl).2
      cases hlast
      rfl
  | cons next after =>
      -- The value that follows came no later than the last one.
      have hin : next ∈ log ++ [(now, a)] := by
        rw [heq]
        simp
      have hle : next.1 ≤ now := by
        rcases List.mem_append.1 hin with hin | hin
        · exact hlog next hin
        · exact Nat.le_of_eq (congrArg Prod.fst (List.mem_singleton.1 hin))
      have := hnext next rfl
      omega

end Values

end OpsKnowledge.Lib
