import OpsKnowledge.Lib.Transition
import OpsKnowledge.Auth.Sso

/-!
# Subjects and users

Sequences of logins over one identity provider. A user who has been bound to a subject should
stay bound to it, and be the result of no login with another subject or with none.
-/

namespace OpsKnowledge.Auth

open OpsKnowledge.Lib

namespace UserTable

variable {t t' : UserTable} {id newId : UserId} {sub : String} {c : Change} {u : User}

theorem mem_boundTo : u ∈ t.boundTo sub ↔ u ∈ t.rows ∧ u.authProvider = "oidc" ∧ u.externalId = some sub := by
  simp [boundTo]

theorem bound_of_mem_boundTo (h : u ∈ t.boundTo sub) : t.Bound u.id sub := by
  obtain ⟨hu, hoidc, hsub⟩ := mem_boundTo.1 h
  exact ⟨u, hu, rfl, hoidc, hsub⟩

theorem not_bound_of_boundTo_eq_nil (h : t.boundTo sub = []) : ¬ t.Bound id sub := by
  rintro ⟨u, hu, -, hoidc, hsub⟩
  have hmem := mem_boundTo.2 ⟨hu, hoidc, hsub⟩
  rw [h] at hmem
  cases hmem

theorem bound_unique {sub' : String} (h : t.Bound id sub) (h' : t.Bound id sub') : sub = sub' := by
  obtain ⟨u, hu, hid, -, hsub⟩ := h
  obtain ⟨u', hu', hid', -, hsub'⟩ := h'
  have hsame := List.inj_on_of_nodup_map t.ids hu hu' (hid.trans hid'.symm)
  rw [← hsame, hsub] at hsub'
  exact Option.some.inj hsub'

/-- The user of the id is bound by what the change makes of the row, any other user as before. -/
theorem bound_update {id' : UserId} : (t.update id c).Bound id' sub ↔ ∃ u ∈ t.rows, u.id = id' ∧
    (if u.id = id then c.apply u else u).authProvider = "oidc" ∧
      (if u.id = id then c.apply u else u).externalId = some sub := by
  have hid : ∀ u : User, (if u.id = id then c.apply u else u).id = u.id := by
    intro u
    split <;> rfl
  constructor
  · rintro ⟨u', hu', hid', hoidc, hsub⟩
    obtain ⟨u, hu, rfl⟩ := mem_updateWhere.1 hu'
    simp only [decide_eq_true_eq] at hid' hoidc hsub
    exact ⟨u, hu, (hid u).symm.trans hid', hoidc, hsub⟩
  · rintro ⟨u, hu, hid', hoidc, hsub⟩
    refine ⟨if u.id = id then c.apply u else u, ?_, (hid u).trans hid', hoidc, hsub⟩
    exact mem_updateWhere.2 ⟨u, hu, by simp⟩

theorem bound_update_role {role : Option UserRole} {id' : UserId} :
    (t.update id { role := role }).Bound id' sub ↔ t.Bound id' sub := by
  rw [bound_update]
  constructor
  · rintro ⟨u, hu, hid, hoidc, hsub⟩
    refine ⟨u, hu, hid, ?_⟩
    split at hoidc
    · next heq =>
        rw [if_pos heq] at hsub
        exact ⟨hoidc, hsub⟩
    · next hne =>
        rw [if_neg hne] at hsub
        exact ⟨hoidc, hsub⟩
  · rintro ⟨u, hu, hid, hoidc, hsub⟩
    refine ⟨u, hu, hid, ?_⟩
    split
    · exact ⟨hoidc, hsub⟩
    · exact ⟨hoidc, hsub⟩

theorem bound_update_of_ne {id' : UserId} (hne : id' ≠ id) :
    (t.update id c).Bound id' sub ↔ t.Bound id' sub := by
  rw [bound_update]
  apply exists_congr
  intro u
  by_cases hid : u.id = id'
  · rw [if_neg (hid ▸ hne)]
  · simp [hid]

theorem bound_link {role : Option UserRole} {sub' : String} (h : (t.update id
    { authProvider := some "oidc", externalId := some sub, role := role }).Bound id sub') : sub' = sub := by
  obtain ⟨u, -, hid, -, hsub⟩ := bound_update.1 h
  rw [if_pos hid] at hsub
  exact (Option.some.inj hsub).symm

theorem insert_eq_some (h : t.insert u = some t') :
    t'.rows = t.rows ++ [u] ∧ u.id ∉ t.rows.map User.id := by
  unfold insert at h
  split at h
  · cases h
  · split at h
    · next hnew =>
        cases h
        exact ⟨rfl, hnew.1⟩
    · cases h

theorem bound_insert (h : t.insert u = some t') {id' : UserId} (hb : t.Bound id' sub) :
    t'.Bound id' sub ∧ id' ≠ u.id := by
  obtain ⟨hrows, hnew⟩ := insert_eq_some h
  obtain ⟨v, hv, hid, hbound⟩ := hb
  constructor
  · exact ⟨v, hrows ▸ List.mem_append_left _ hv, hid, hbound⟩
  · rintro rfl
    exact hnew (hid ▸ List.mem_map_of_mem hv)

end UserTable

/-! ## Sequences of logins -/

structure Login where
  cfg : SsoConfig
  claims : Claims
  joins : UserId → String → Bool := fun _ _ => true
  newId : UserId

/-- `bound` holds the bindings that were there before the last login, and `answer` whom it returned for
which subject. -/
structure LoginState where
  table : UserTable
  bound : Set (UserId × String) := ∅
  answer : Option (UserId × Option String) := none

namespace LoginState

/-- The bindings up to now. -/
def seen (s : LoginState) : Set (UserId × String) := {b | b ∈ s.bound ∨ s.table.Bound b.1 b.2}

/-- The state after a login with that result. -/
def after (s : LoginState) (claimed : Option String) : Option (UserId × UserTable) → LoginState
  | none => { s with bound := s.seen, answer := none }
  | some (id, table) => { table := table, bound := s.seen, answer := some (id, claimed) }

def step (s : LoginState) (l : Login) : Option LoginState :=
  some (s.after l.claims.sub (upsertUser l.cfg l.claims l.joins l.newId s.table))

variable {s s' : LoginState} {l : Login} {id : UserId} {sub : String}

/-- A user who was bound is still bound, and is returned for that subject only. -/
def KeepsBindings (s : LoginState) : Prop :=
  ∀ id sub, (id, sub) ∈ s.bound → s.table.Bound id sub ∧ ∀ sub', s.answer = some (id, sub') → sub' = some sub

/-- No bound user has the e-mail. A text that the database does not take lets the login fail, and so does a
department that does not take the user. -/
def FreeEmail (t : UserTable) (l : Login) : Prop :=
  storable (loginEmail l.claims) → fits 255 (subText l.claims.sub) →
    ∀ u, t.byEmail (loginEmail l.claims) = some u → joinsDepartment l.cfg l.claims l.joins u.id →
      ∀ sub, ¬ t.Bound u.id sub

/-- Either a user is bound to the subject, and the claims do carry it; or none is, and no bound user has
the e-mail. -/
def FitsBindings (s : LoginState) (l : Login) : Prop :=
  storable (subText l.claims.sub) →
    match s.table.boundTo (subText l.claims.sub) with
    | [user] => joinsDepartment l.cfg l.claims l.joins user.id → l.claims.sub ≠ none
    | _ :: _ :: _ => True
    | [] => FreeEmail s.table l

theorem bound_of_mem_seen (h : s.KeepsBindings) (hb : (id, sub) ∈ s.seen) : s.table.Bound id sub := by
  rcases hb with hb | hb
  · exact (h id sub hb).1
  · exact hb

theorem subText_eq {sub : Option String} (h : sub ≠ none) : sub = some (subText sub) := by
  cases sub with
  | none => exact absurd rfl h
  | some s => rfl

/-! ## One login -/

theorem keepsBindings_of_failed (h : s.KeepsBindings) {claimed : Option String} :
    (s.after claimed none).KeepsBindings := by
  intro id sub hb
  have hold : s.table.Bound id sub := bound_of_mem_seen h hb
  refine ⟨hold, ?_⟩
  intro sub' hanswer
  cases hanswer

/-- A login whose department does not take the user keeps every binding. -/
theorem keepsBindings_filter_iff (h : s.KeepsBindings) {claimed : Option String} {table : UserTable}
    {joined : UserId × UserTable → Bool} :
    (s.after claimed ((some (id, table)).filter joined)).KeepsBindings ↔
      (joined (id, table) = true → (s.after claimed (some (id, table))).KeepsBindings) := by
  cases hjoined : joined (id, table) with
  | true => rw [Option.filter_some_pos hjoined, forall_prop_of_true rfl]
  | false =>
      rw [Option.filter_some_neg (by simp [hjoined])]
      exact iff_of_true (keepsBindings_of_failed h) nofun

/-- A login that finds the bound user changes no binding. -/
theorem keepsBindings_of_known (h : s.KeepsBindings) {user : User} {role : Option UserRole}
    {claimed : Option String} (huser : s.table.Bound user.id (subText claimed)) :
    (s.after claimed (some (user.id, s.table.update user.id { role := role }))).KeepsBindings ↔
      claimed ≠ none := by
  constructor
  · intro hkeeps hmissing
    have hanswer := (hkeeps user.id (subText claimed) (.inr huser)).2 claimed rfl
    rw [hmissing] at hanswer
    cases hanswer
  · intro hclaimed id sub hb
    have hold := bound_of_mem_seen h hb
    refine ⟨UserTable.bound_update_role.2 hold, ?_⟩
    intro sub' hanswer
    cases hanswer
    rw [subText_eq hclaimed, UserTable.bound_unique huser hold]

/-- A login that links an account takes it away from the subject that it was bound to. -/
theorem keepsBindings_of_linked (h : s.KeepsBindings) {existing : User} {role : Option UserRole}
    {claimed : Option String} (hnone : s.table.boundTo (subText claimed) = []) :
    (s.after claimed (some (existing.id, s.table.update existing.id
        { authProvider := some "oidc", externalId := some (subText claimed), role := role }))).KeepsBindings ↔
      ∀ sub, ¬ s.table.Bound existing.id sub := by
  constructor
  · intro hkeeps sub hb
    have hstill := (hkeeps existing.id sub (.inr hb)).1
    rw [UserTable.bound_link hstill] at hb
    exact UserTable.not_bound_of_boundTo_eq_nil hnone hb
  · intro hfree id sub hb
    have hold := bound_of_mem_seen h hb
    have hne : id ≠ existing.id := by
      rintro rfl
      exact hfree sub hold
    refine ⟨(UserTable.bound_update_of_ne hne).2 hold, ?_⟩
    intro sub' hanswer
    cases hanswer
    exact absurd rfl hne

theorem keepsBindings_of_created (h : s.KeepsBindings) {user : User} {claimed : Option String}
    {joined : UserId × UserTable → Bool} :
    (s.after claimed (((s.table.insert user).map fun t => (user.id, t)).filter joined)).KeepsBindings := by
  cases hinsert : s.table.insert user with
  | none => exact keepsBindings_of_failed h
  | some table =>
      rw [Option.map_some, keepsBindings_filter_iff h]
      intro _ id sub hb
      obtain ⟨hstill, hne⟩ := UserTable.bound_insert hinsert (bound_of_mem_seen h hb)
      refine ⟨hstill, ?_⟩
      intro sub' hanswer
      cases hanswer
      exact absurd rfl hne

theorem keepsBindings_linkOrCreate (h : s.KeepsBindings)
    (hnone : s.table.boundTo (subText l.claims.sub) = []) :
    (s.after l.claims.sub ((linkOrCreate l.cfg l.claims l.newId s.table).filter fun user =>
        joinsDepartment l.cfg l.claims l.joins user.1)).KeepsBindings ↔ FreeEmail s.table l := by
  unfold linkOrCreate FreeEmail
  dsimp only
  split
  · next hstorable =>
      rw [forall_prop_of_true hstorable]
      cases hemail : s.table.byEmail (loginEmail l.claims) with
      | some existing =>
          dsimp only
          split
          · next hfits =>
              rw [keepsBindings_filter_iff h, keepsBindings_of_linked h hnone, forall_prop_of_true hfits]
              constructor
              · rintro hfree u ⟨⟩
                exact hfree
              · intro hfree
                exact hfree existing rfl
          · next hfits =>
              exact ⟨fun _ hfits' => absurd hfits' hfits, fun _ => keepsBindings_of_failed h⟩
      | none => exact ⟨fun _ _ _ hu => (nomatch hu), fun _ => keepsBindings_of_created h⟩
  · next hstorable =>
      exact ⟨fun _ hstorable' => absurd hstorable' hstorable, fun _ => keepsBindings_of_failed h⟩

theorem step_keepsBindings_iff (h : s.KeepsBindings) (hs' : s.step l = some s') :
    s'.KeepsBindings ↔ s.FitsBindings l := by
  cases hs'
  unfold upsertUser FitsBindings
  dsimp only
  split
  · next hstorable =>
      rw [forall_prop_of_true hstorable]
      cases hbound : s.table.boundTo (subText l.claims.sub) with
      | nil => exact keepsBindings_linkOrCreate h hbound
      | cons user more =>
          have huser : s.table.Bound user.id (subText l.claims.sub) := by
            apply UserTable.bound_of_mem_boundTo
            rw [hbound]
            exact List.mem_cons_self
          cases more with
          | nil =>
              dsimp only
              rw [keepsBindings_filter_iff h, keepsBindings_of_known h huser]
          | cons other more => exact ⟨fun _ => trivial, fun _ => keepsBindings_of_failed h⟩
  · next hstorable =>
      exact ⟨fun _ hstorable' => absurd hstorable' hstorable, fun _ => keepsBindings_of_failed h⟩

/-! ## Every sequence -/

def start (t : UserTable) : LoginState := { table := t }

theorem start_keepsBindings (t : UserTable) : (start t).KeepsBindings := by
  intro id sub hb
  cases hb

/-- No login of a sequence returns or rebinds a user who was bound to another subject, exactly when each login
fits the bindings that it finds. -/
theorem keepsBindings_iff (t : UserTable) (ls : List Login) :
    Visits step KeepsBindings (start t) ls ↔ EveryStep step FitsBindings (start t) ls :=
  visits_iff_everyStep (fun _ _ _ h hs' => step_keepsBindings_iff h hs') (start_keepsBindings t) ls

end LoginState

/-- Two subjects with one e-mail. -/
theorem binding_taken_over :
    ¬ ∀ (t : UserTable) (ls : List Login), Visits LoginState.step LoginState.KeepsBindings (.start t) ls := by
  intro h
  obtain ⟨-, hall⟩ := h .empty
    [{ cfg := {}, claims := { sub := some "s1", email := some "alice@host" }, newId := ⟨"a", by decide⟩ },
      { cfg := {}, claims := { sub := some "s2", email := some "alice@host" }, newId := ⟨"b", by decide⟩ }]
  obtain ⟨-, hall⟩ := hall _ rfl
  have hlast := hall _ rfl
  have hbound := (hlast ⟨"a", by decide⟩ "s1" (.inr ⟨_, List.mem_cons_self, rfl, rfl, rfl⟩)).1
  obtain ⟨u, hu, -, -, hsub⟩ := hbound
  cases List.mem_singleton.1 hu
  exact absurd hsub (by decide)

end OpsKnowledge.Auth
