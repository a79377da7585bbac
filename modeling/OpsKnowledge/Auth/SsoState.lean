import OpsKnowledge.Lib.KeyValue
import OpsKnowledge.Lib.Transition
import OpsKnowledge.Auth.Sso

/-!
# Login states

`app/auth/sso_state.py` and the callback of `app/auth/sso_router.py`: what a login start
keeps in Redis under the state that it sends to the identity provider, and the steps of the
callbacks, of which any number run at once. `consume` reads the key and then deletes it.
-/

namespace OpsKnowledge.Auth

open OpsKnowledge.Lib

def ttlSeconds : Nat := 300

/-- The saved payload; the state is its key. -/
structure SavedState where
  verifier : String
  nonce : String
  nonce_ne : nonce ≠ ""
  returnTo : Option String := none

inductive Phase where
  | requested
  /-- between the read and the delete of `consume` -/
  | found (saved : SavedState)
  | consumed (saved : SavedState)
  /-- 400 -/
  | invalidState
  /-- 401, or an exception -/
  | failed (saved : SavedState)
  | authenticated (saved : SavedState) (claims : Claims) (user : UserId)

/-- What the callback has read. -/
def Phase.saved : Phase → Option SavedState
  | .requested => none
  | .invalidState => none
  | .found saved => some saved
  | .consumed saved => some saved
  | .failed saved => some saved
  | .authenticated saved _ _ => some saved

/-- `consume` has returned the payload. -/
def Phase.hasConsumed : Phase → Bool
  | .requested => false
  | .invalidState => false
  | .found _ => false
  | .consumed _ => true
  | .failed _ => true
  | .authenticated _ _ _ => true

structure Callback where
  code : String
  state : String
  phase : Phase := .requested

/-- `issued` holds what `begin` ever saved, and `now` is in milliseconds. -/
structure SsoState where
  now : Nat := 0
  redis : ExpiringStore String SavedState := .empty
  issued : Store String SavedState := .empty
  callbacks : Store Nat Callback := .empty
  users : UserTable

inductive SsoAction where
  | wait (ms : Nat)
  | start (state : String) (saved : SavedState)
  | callback (i : Nat) (code state : String)
  | get (i : Nat)
  | delete (i : Nat)
  | authenticate (i : Nat) (cfg : SsoConfig) (joins : UserId → String → Bool) (idToken : Option String)
      (newId : UserId)

namespace SsoState

def setPhase (s : SsoState) (i : Nat) (c : Callback) (phase : Phase) : SsoState :=
  { s with callbacks := s.callbacks.put i { c with phase := phase } }

def step (decode : String → Option Claims) (s : SsoState) : SsoAction → Option SsoState
  | .wait ms => some { s with now := s.now + ms }
  | .start state saved =>
    -- a new `uuid4`
    if (s.issued state).isSome then none
    else some
      { s with
        redis := s.redis.setEx s.now (ttlSeconds * 1000) state saved
        issued := s.issued.put state saved }
  | .callback i code state =>
    if (s.callbacks i).isSome then none
    else some (s.setPhase i { code := code, state := state } .requested)
  | .get i =>
    match s.callbacks i with
    | some ⟨code, state, .requested⟩ =>
      match s.redis.get s.now state with
      | none => some (s.setPhase i ⟨code, state, .requested⟩ .invalidState)
      | some saved => some (s.setPhase i ⟨code, state, .requested⟩ (.found saved))
    | _ => none
  | .delete i =>
    match s.callbacks i with
    | some ⟨code, state, .found saved⟩ =>
      some ({ s with redis := s.redis.delete state }.setPhase i ⟨code, state, .found saved⟩ (.consumed saved))
    | _ => none
  | .authenticate i cfg joins idToken newId =>
    match s.callbacks i with
    | some ⟨code, state, .consumed saved⟩ =>
      match Auth.authenticate decode cfg joins idToken code saved.verifier saved.nonce newId s.users with
      | none => some (s.setPhase i ⟨code, state, .consumed saved⟩ (.failed saved))
      | some (claims, user, users) =>
        some ({ s with users := users }.setPhase i ⟨code, state, .consumed saved⟩
          (.authenticated saved claims user))
    | _ => none

variable {decode : String → Option Claims} {s s' : SsoState}

/-- No two callbacks have consumed one state. -/
def SingleUse (s : SsoState) : Prop :=
  ∀ i j c d, s.callbacks i = some c → s.callbacks j = some d → c.state = d.state →
    c.phase.hasConsumed → d.phase.hasConsumed → i = j

/-- Whoever is authenticated came with the nonce that was issued with the state. -/
def NonceBound (s : SsoState) : Prop :=
  ∀ i c saved claims user, s.callbacks i = some c → c.phase = .authenticated saved claims user →
    ∃ own, s.issued c.state = some own ∧ claims.nonce = some own.nonce

/-- A live state is not read while another callback is between its read and its delete, and a valid id
token has a nonce. -/
def Careful (decode : String → Option Claims) (s : SsoState) : SsoAction → Prop
  | .get i => ∀ c, s.callbacks i = some c → s.redis.get s.now c.state ≠ none →
      ∀ j d saved, s.callbacks j = some d → d.state = c.state → d.phase ≠ .found saved
  | .authenticate _ _ _ (some idToken) _ =>
    ∀ claims, decode idToken = some claims → nonempty claims.nonce ≠ none
  | _ => True

/-! ## What careful steps keep -/

structure Tracked (s : SsoState) : Prop where
  stored : ∀ k e, s.redis k = some e → s.issued k = some e.1
  read : ∀ i c saved, s.callbacks i = some c → c.phase.saved = some saved → s.issued c.state = some saved
  gone : ∀ i c, s.callbacks i = some c → c.phase.hasConsumed → s.redis c.state = none
  alone : ∀ i j c d, s.callbacks i = some c → s.callbacks j = some d → c.state = d.state →
    c.phase.saved ≠ none → d.phase.saved ≠ none → i = j
  bound : ∀ i c saved claims user, s.callbacks i = some c → c.phase = .authenticated saved claims user →
    claims.nonce = some saved.nonce

theorem saved_of_hasConsumed {p : Phase} (h : p.hasConsumed) : p.saved ≠ none := by
  cases p with
  | requested => cases h
  | invalidState => cases h
  | found saved => exact Option.some_ne_none saved
  | consumed saved => exact Option.some_ne_none saved
  | failed saved => exact Option.some_ne_none saved
  | authenticated saved claims user => exact Option.some_ne_none saved

theorem Tracked.singleUse (h : s.Tracked) : s.SingleUse :=
  fun i j c d hc hd hstate hcc hdc =>
    h.alone i j c d hc hd hstate (saved_of_hasConsumed hcc) (saved_of_hasConsumed hdc)

theorem Tracked.nonceBound (h : s.Tracked) : s.NonceBound := by
  intro i c saved claims user hc hphase
  refine ⟨saved, h.read i c saved hc ?_, h.bound i c saved claims user hc hphase⟩
  rw [hphase]
  rfl

/-- A callback may enter a phase that agrees with what was issued, is alone with what it has read, and has
consumed nothing that is still there. -/
theorem Tracked.setPhase (h : s.Tracked) {i : Nat} {c : Callback} {phase : Phase}
    (hread : ∀ saved, phase.saved = some saved → s.issued c.state = some saved)
    (hgone : phase.hasConsumed → s.redis c.state = none)
    (halone : phase.saved ≠ none → ∀ j d, j ≠ i → s.callbacks j = some d → d.state = c.state →
      d.phase.saved = none)
    (hbound : ∀ saved claims user, phase = .authenticated saved claims user →
      claims.nonce = some saved.nonce) : (s.setPhase i c phase).Tracked := by
  have hcases : ∀ {j d}, (s.setPhase i c phase).callbacks j = some d →
      (j = i ∧ d = { c with phase := phase }) ∨ (j ≠ i ∧ s.callbacks j = some d) := by
    intro j d hd
    by_cases hj : j = i
    · subst hj
      exact .inl ⟨rfl, (Option.some.inj (Store.put_self.symm.trans hd)).symm⟩
    · exact .inr ⟨hj, (Store.put_of_ne hj).symm.trans hd⟩
  constructor
  · exact h.stored
  · intro j d saved hd hsaved
    rcases hcases hd with ⟨-, rfl⟩ | ⟨-, hd⟩
    · exact hread saved hsaved
    · exact h.read j d saved hd hsaved
  · intro j d hd hconsumed
    rcases hcases hd with ⟨-, rfl⟩ | ⟨-, hd⟩
    · exact hgone hconsumed
    · exact h.gone j d hd hconsumed
  · intro j k d e hd he hstate hdsaved hesaved
    rcases hcases hd with ⟨rfl, rfl⟩ | ⟨hj, hold⟩
    · rcases hcases he with ⟨rfl, rfl⟩ | ⟨hk, hother⟩
      · rfl
      · exact absurd (halone hdsaved k e hk hother hstate.symm) hesaved
    · rcases hcases he with ⟨rfl, rfl⟩ | ⟨hk, hother⟩
      · exact absurd (halone hesaved j d hj hold hstate) hdsaved
      · exact h.alone j k d e hold hother hstate hdsaved hesaved
  · intro j d saved claims user hd hphase
    rcases hcases hd with ⟨-, rfl⟩ | ⟨-, hd⟩
    · exact hbound saved claims user hphase
    · exact h.bound j d saved claims user hd hphase

/-- Who has read a state is alone with it. -/
theorem Tracked.others (h : s.Tracked) {i : Nat} {c : Callback} (hc : s.callbacks i = some c)
    (hsaved : c.phase.saved ≠ none) (j : Nat) (d : Callback) (hj : j ≠ i) (hd : s.callbacks j = some d)
    (hstate : d.state = c.state) : d.phase.saved = none := by
  by_contra hdsaved
  exact hj (h.alone j i d c hd hc hstate hdsaved hsaved)

/-- A callback that has read nothing. -/
theorem Tracked.setPhase_of_unsaved (h : s.Tracked) (i : Nat) (c : Callback) {phase : Phase}
    (hphase : phase.saved = none) : (s.setPhase i c phase).Tracked := by
  apply h.setPhase
  · intro saved hsaved
    cases hphase.symm.trans hsaved
  · intro hconsumed
    exact absurd hphase (saved_of_hasConsumed hconsumed)
  · intro hsaved
    exact absurd hphase hsaved
  · rintro saved claims user rfl
    cases hphase

/-- A callback that goes on with what it has read, once that is deleted. -/
theorem Tracked.setPhase_of_gone (h : s.Tracked) {i : Nat} {c : Callback} {phase : Phase} {saved : SavedState}
    (hc : s.callbacks i = some c) (hread : c.phase.saved = some saved) (hphase : phase.saved = some saved)
    (hgone : s.redis c.state = none)
    (hbound : ∀ own claims user, phase = .authenticated own claims user → claims.nonce = some own.nonce) :
    (s.setPhase i c phase).Tracked := by
  apply h.setPhase
  · intro own hown
    cases hphase.symm.trans hown
    exact h.read i c saved hc hread
  · intro _
    exact hgone
  · intro _
    apply h.others hc
    rw [hread]
    exact Option.some_ne_none saved
  · exact hbound

theorem Tracked.withUsers (h : s.Tracked) (users : UserTable) : Tracked { s with users := users } :=
  ⟨h.stored, h.read, h.gone, h.alone, h.bound⟩

theorem Tracked.delete (h : s.Tracked) (k : String) : Tracked { s with redis := s.redis.delete k } where
  stored k' e hk' := by
    by_cases hk : k' = k
    · subst hk
      cases ExpiringStore.delete_self.symm.trans hk'
    · exact h.stored k' e ((ExpiringStore.delete_of_ne hk).symm.trans hk')
  read := h.read
  gone i c hc hconsumed := by
    show s.redis.delete k c.state = none
    by_cases hk : c.state = k
    · rw [hk, ExpiringStore.delete_self]
    · rw [ExpiringStore.delete_of_ne hk]
      exact h.gone i c hc hconsumed
  alone := h.alone
  bound := h.bound

theorem Tracked.start (h : s.Tracked) {k : String} {saved : SavedState} {x : Nat}
    (hfresh : s.issued k = none) :
    Tracked { s with redis := s.redis.put k (saved, x), issued := s.issued.put k saved } where
  stored k' e hk' := by
    show s.issued.put k saved k' = some e.1
    by_cases hk : k' = k
    · subst hk
      cases Store.put_self.symm.trans hk'
      exact Store.put_self
    · rw [Store.put_of_ne hk]
      exact h.stored k' e ((Store.put_of_ne hk).symm.trans hk')
  read i c own hc hown := by
    have hissued := h.read i c own hc hown
    have hk : c.state ≠ k := by
      rintro rfl
      cases hfresh.symm.trans hissued
    exact (Store.put_of_ne hk).trans hissued
  gone i c hc hconsumed := by
    obtain ⟨own, hown⟩ := Option.ne_none_iff_exists'.1 (saved_of_hasConsumed hconsumed)
    have hk : c.state ≠ k := by
      rintro rfl
      cases hfresh.symm.trans (h.read i c own hc hown)
    exact (Store.put_of_ne hk).trans (h.gone i c hc hconsumed)
  alone := h.alone
  bound := h.bound

/-- With a nonce in the id token, it is the one that was asked for. -/
theorem nonce_of_verifyIdToken {idToken nonce : String} {claims : Claims} (hne : nonce ≠ "")
    (hcarries : nonempty claims.nonce ≠ none) (h : verifyIdToken decode idToken nonce = some claims) :
    claims.nonce = some nonce := by
  obtain ⟨carried, hcarried⟩ := Option.ne_none_iff_exists'.1 hcarries
  obtain ⟨hsome, -⟩ := Option.filter_eq_some_iff.1 hcarried
  obtain ⟨got, -, hcheck⟩ := Option.bind_eq_some_iff.1 h
  by_cases hsame : carried = nonce
  · rw [hsome, hsame]
  · split at hcheck
    · cases hcheck
    · next hpass =>
        cases hcheck
        rw [hcarried] at hpass
        simp [hne, hsame] at hpass

theorem authenticate_eq_some {cfg : SsoConfig} {joins : UserId → String → Bool} {idToken : Option String}
    {code verifier nonce : String} {newId : UserId} {t : UserTable} {claims : Claims}
    {user : UserId × UserTable}
    (h : Auth.authenticate decode cfg joins idToken code verifier nonce newId t = some (claims, user)) :
    ∃ token, idToken = some token ∧ verifyIdToken decode token nonce = some claims := by
  unfold Auth.authenticate at h
  split at h
  · cases h
  · obtain ⟨token, htoken, h⟩ := Option.bind_eq_some_iff.1 h
    obtain ⟨got, hverify, h⟩ := Option.bind_eq_some_iff.1 h
    obtain ⟨user', -, h⟩ := Option.bind_eq_some_iff.1 h
    cases h
    exact ⟨token, (Option.filter_eq_some_iff.1 htoken).1, hverify⟩

theorem decode_of_verifyIdToken {idToken nonce : String} {claims : Claims}
    (h : verifyIdToken decode idToken nonce = some claims) : decode idToken = some claims := by
  obtain ⟨got, hdecode, hcheck⟩ := Option.bind_eq_some_iff.1 h
  split at hcheck
  · cases hcheck
  · cases hcheck
    exact hdecode

/-! ## Every run -/

/-- A read of a state that no other callback is consuming. -/
theorem Tracked.get (h : s.Tracked) {i : Nat} {code state : String} {saved : SavedState} {x : Nat}
    (hstored : s.redis state = some (saved, x))
    (hfree : ∀ j d saved, s.callbacks j = some d → d.state = state → d.phase ≠ .found saved) :
    (s.setPhase i ⟨code, state, .requested⟩ (.found saved)).Tracked := by
  apply h.setPhase
  · intro own hown
    cases hown
    exact h.stored state (saved, x) hstored
  · intro hconsumed
    cases hconsumed
  · intro _ j d _ hd hstate
    -- who has consumed the state has deleted it
    have hpresent : d.phase.hasConsumed = false := by
      by_contra hconsumed
      have hgone := h.gone j d hd (Bool.not_eq_false _ ▸ hconsumed)
      rw [hstate] at hgone
      cases hgone.symm.trans hstored
    cases hphase : d.phase with
    | requested => rfl
    | invalidState => rfl
    | found own => exact absurd hphase (hfree j d own hd hstate)
    | consumed own => cases hphase ▸ hpresent
    | failed own => cases hphase ▸ hpresent
    | authenticated own claims user => cases hphase ▸ hpresent
  · intro own claims user hphase
    cases hphase

theorem Tracked.step {a : SsoAction} (h : s.Tracked) (hcareful : s.Careful decode a)
    (hs' : s.step decode a = some s') : s'.Tracked := by
  cases a with
  | wait ms =>
      cases hs'
      exact ⟨h.stored, h.read, h.gone, h.alone, h.bound⟩
  | start state saved =>
      unfold SsoState.step at hs'
      dsimp only at hs'
      split at hs'
      · cases hs'
      · next hfresh =>
          cases hs'
          exact h.start (by simpa using hfresh)
  | callback i code state =>
      unfold SsoState.step at hs'
      dsimp only at hs'
      split at hs'
      · cases hs'
      · cases hs'
        exact h.setPhase_of_unsaved i _ rfl
  | get i =>
      unfold SsoState.step at hs'
      dsimp only at hs'
      split at hs'
      · next code state hc =>
          cases hget : s.redis.get s.now state with
          | none =>
              rw [hget] at hs'
              cases hs'
              exact h.setPhase_of_unsaved i _ rfl
          | some saved =>
              rw [hget] at hs'
              cases hs'
              obtain ⟨x, hstored, -⟩ := ExpiringStore.get_eq_some.1 hget
              have hlive : s.redis.get s.now state ≠ none := by
                rw [hget]
                exact Option.some_ne_none saved
              exact h.get hstored (hcareful ⟨code, state, .requested⟩ hc hlive)
      · cases hs'
  | delete i =>
      unfold SsoState.step at hs'
      dsimp only at hs'
      split at hs'
      · next code state saved hc =>
          cases hs'
          apply (h.delete state).setPhase_of_gone hc rfl rfl ExpiringStore.delete_self
          intro own claims user hphase
          cases hphase
      · cases hs'
  | authenticate i cfg joins idToken newId =>
      unfold SsoState.step at hs'
      dsimp only at hs'
      split at hs'
      · next code state saved hc =>
          have hgone := h.gone i _ hc rfl
          split at hs'
          · cases hs'
            apply h.setPhase_of_gone hc rfl rfl hgone
            intro own claims user hphase
            cases hphase
          · next claims user users hauth =>
              cases hs'
              apply (h.withUsers users).setPhase_of_gone hc rfl rfl hgone
              intro own claims' user' hphase
              cases hphase
              obtain ⟨token, rfl, hverify⟩ := authenticate_eq_some hauth
              have hcarries := hcareful claims (decode_of_verifyIdToken hverify)
              exact nonce_of_verifyIdToken saved.nonce_ne hcarries hverify
      · cases hs'

theorem tracked_new (users : UserTable) : Tracked { users := users } where
  stored _ _ hk := nomatch hk
  read _ _ _ hc := nomatch hc
  gone _ _ hc := nomatch hc
  alone _ _ _ _ hc := nomatch hc
  bound _ _ _ _ _ hc := nomatch hc

/-- Along every interleaving of starts and callbacks whose steps are careful, a state is consumed once and
whoever is authenticated brought the nonce that was issued with it. -/
theorem singleUse_and_nonceBound (users : UserTable) (as : List SsoAction)
    (h : EveryStep (step decode) (Careful decode) { users := users } as) :
    Visits (step decode) (fun s => s.SingleUse ∧ s.NonceBound) { users := users } as := by
  have hkeep := h.visits (fun _ _ _ htracked hc hs' => htracked.step hc hs') (tracked_new users)
  exact hkeep.mono fun s hs => ⟨hs.singleUse, hs.nonceBound⟩

/-- A login with its callback. -/
theorem singleUse_and_nonceBound_login :
    Visits (step fun _ => some { sub := some "s1", nonce := some "n1" }) (fun s => s.SingleUse ∧ s.NonceBound)
      { users := .empty }
      [.start "st" ⟨"v1", "n1", by decide, none⟩, .callback 0 "code" "st", .get 0, .delete 0,
        .authenticate 0 {} (fun _ _ => true) (some "jwt") ⟨"a", by decide⟩] := by
  apply singleUse_and_nonceBound
  apply EveryStep.cons_of_eq rfl trivial
  apply EveryStep.cons_of_eq rfl trivial
  apply EveryStep.cons_of_eq rfl
  · intro c hc _ j d saved hd _ hphase
    by_cases hj : j = 0
    · subst hj
      cases hd
      cases hphase
    · cases (Store.put_of_ne hj).symm.trans hd
  apply EveryStep.cons_of_eq rfl trivial
  apply EveryStep.cons_of_eq rfl
  · intro claims hclaims
    cases hclaims
    decide
  trivial

/-- Two callbacks read the state before either deletes it; and an id token without a nonce. -/
theorem state_consumed_twice_or_nonce_missing :
    (¬ ∀ (decode : String → Option Claims) (users : UserTable) (as : List SsoAction),
      Visits (step decode) SingleUse { users := users } as) ∧
    ¬ ∀ (decode : String → Option Claims) (users : UserTable) (as : List SsoAction),
      Visits (step decode) NonceBound { users := users } as := by
  constructor
  · intro h
    have hlast := (h (fun _ => none) .empty
      [.start "st" ⟨"v1", "n1", by decide, none⟩, .callback 0 "code" "st", .callback 1 "code" "st", .get 0,
        .get 1, .delete 0, .delete 1]).last rfl
    have hsame := hlast 0 1 _ _ rfl rfl rfl rfl rfl
    cases hsame
  · intro h
    have hlast := (h (fun _ => some { sub := some "s1" }) .empty
      [.start "st" ⟨"v1", "n1", by decide, none⟩, .callback 0 "code" "st", .get 0, .delete 0,
        .authenticate 0 {} (fun _ _ => true) (some "jwt") ⟨"a", by decide⟩]).last rfl
    obtain ⟨own, -, hnonce⟩ := hlast 0 _ _ _ _ rfl rfl
    cases hnonce

end SsoState

end OpsKnowledge.Auth
