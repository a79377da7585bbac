import OpsKnowledge.Lib.Transition
import OpsKnowledge.Auth.Tokens

/-!
# Revocation by a password change

Logins, refreshes and password changes as they interleave. `create_tokens` makes its two tokens
one after the other, and `revoke_user_tokens` reads the clock before it writes the cutoff.
-/

namespace OpsKnowledge.Auth

open OpsKnowledge.Lib

structure RevocationState where
  now : Nat
  users : List User
  revocations : Revocations := {}
  issued : List Payload := []
  /-- The users of the calls of `create_tokens` that have made the access token. -/
  opening : List User := []
  /-- The password changes that have read the clock, with the cutoff. -/
  changing : List (UserId × Nat) := []
  /-- The tokens that had been issued to a user when a change of theirs completed. -/
  killed : List Payload := []

inductive RevocationAction (Token : Type) where
  | tick (elapsed : Nat)
  | login (userId : UserId) (jti : String)
  | refresh (refreshToken : Token) (jti : String)
  | finishTokens (k : Nat) (jti : String)
  | readClock (userId : UserId)
  | writeCutoff (k : Nat)

section Steps

variable {Token : Type} (jose : Jose Token) (settings : JwtSettings) (s : RevocationState)

def startTokens (user : User) (jti : String) : RevocationState :=
  { s with issued := s.issued ++ [mint settings s.now user jti .access], opening := s.opening ++ [user] }

def finishTokens (k : Nat) (jti : String) : Option RevocationState := do
  let user ← s.opening[k]?
  some { s with
    issued := s.issued ++ [mint settings s.now user jti .refresh], opening := s.opening.eraseIdx k }

/-- The write of `revoke_user_tokens`, with which the change is complete. -/
def writeCutoff (k : Nat) : Option RevocationState := do
  let (userId, cutoff) ← s.changing[k]?
  some { s with
    revocations := { s.revocations with
      users := s.revocations.users.setEx s.now (settings.cutoffSeconds * microseconds) userId.text cutoff }
    changing := s.changing.eraseIdx k
    killed := s.killed ++ s.issued.filter fun p => p.sub = some userId.text }

def revocationStep : RevocationAction Token → Option RevocationState
  | .tick elapsed => some { s with now := s.now + elapsed }
  | .login userId jti => (getUserById s.users userId.text).map fun user => startTokens settings s user jti
  | .refresh refreshToken jti =>
    match refresh jose s.revocations s.now s.users refreshToken with
    | .error _ => none
    | .ok user => some (startTokens settings s user jti)
  | .finishTokens k jti => finishTokens settings s k jti
  | .readClock userId => (getUserById s.users userId.text).map fun _ =>
      { s with changing := s.changing ++ [(userId, seconds s.now)] }
  | .writeCutoff k => writeCutoff settings s k

end Steps

namespace RevocationState

/-! ## The property and the condition -/

/-- What a password change has revoked is not accepted. -/
def NoneAccepted {Token : Type} (jose : Jose Token) (s : RevocationState) : Prop :=
  ∀ p ∈ s.killed, verifyToken jose s.revocations s.now (jose.encode p) = none

/-- The tokens of the user that are still good were issued in an earlier second than the cutoff. -/
def CutoffAfterTokens {Token : Type} (s : RevocationState) : RevocationAction Token → Prop
  | .writeCutoff k => ∀ userId cutoff, s.changing[k]? = some (userId, cutoff) → ∀ p ∈ s.issued,
      p.sub = some userId.text → p.isExpired s.now = false → ∀ iat, p.iat = some iat → iat < cutoff
  | _ => True

/-! ## Rejected tokens -/

structure Minted (p : Payload) (userId : UserId) (iat exp : Nat) : Prop where
  sub : p.sub = some userId.text
  iat : p.iat = some iat
  exp : p.exp = some exp

/-- The cutoff of the user lies after the token, and stays for as long as the token could. -/
structure CutOff (s : RevocationState) (p : Payload) (cutoff goneAt : Nat) : Prop where
  stored : ∀ userId, p.sub = some userId → s.revocations.users userId = some (cutoff, goneAt)
  after : ∀ iat, p.iat = some iat → iat < cutoff
  outlives : ∀ exp, p.exp = some exp → (exp + 1) * microseconds ≤ goneAt

/-- What holds in a run whose cutoffs all come after the tokens. -/
structure Sound (settings : JwtSettings) (s : RevocationState) : Prop where
  jtis : s.revocations.jtis = Store.empty
  issued : ∀ p ∈ s.issued, ∃ userId iat exp, Minted p userId iat exp ∧
    exp + 1 ≤ seconds s.now + settings.cutoffSeconds
  killed : ∀ p ∈ s.killed, p ∈ s.issued
  cut : ∀ p ∈ s.killed, p.isExpired s.now = true ∨ ∃ cutoff goneAt, s.CutOff p cutoff goneAt

variable {Token : Type} {jose : Jose Token} {settings : JwtSettings} {s s' : RevocationState} {p : Payload}

theorem seconds_le_of_le {now later : Nat} (h : now ≤ later) : seconds now ≤ seconds later :=
  Nat.div_le_div_right h

theorem isExpired_of_later {now later : Nat} (hle : now ≤ later) (h : p.isExpired now = true) :
    p.isExpired later = true := by
  have hseconds := seconds_le_of_le hle
  cases hexp : p.exp with
  | none => simp [Payload.isExpired, hexp] at h
  | some exp =>
      simp only [Payload.isExpired, hexp, Option.any_some, decide_eq_true_eq] at h ⊢
      omega

theorem verifyToken_of_isExpired {r : Revocations} {now : Nat} (h : p.isExpired now = true) :
    verifyToken jose r now (jose.encode p) = none := by
  rw [verifyToken_encode, if_pos h]

/-- A token without a revoked id is judged by the cutoff of its user. -/
theorem isRevoked_of_noJtis {r : Revocations} {now : Nat} {jti : Option String} {userId : String}
    {iat cutoff : Nat} (hjtis : r.jtis = Store.empty) (hcutoff : r.users.get now userId = some cutoff) :
    r.isRevoked now jti userId (some iat) = decide (iat < cutoff) := by
  have hnone : (jti.filter fun j => j ≠ "").any (fun j => (r.jtis.get now j).isSome) = false := by
    rw [hjtis]
    cases jti.filter fun j => j ≠ "" with
    | none => rfl
    | some j => rfl
  unfold Revocations.isRevoked
  rw [hnone, hcutoff]
  rfl

/-- Before it expires, the entry of the cutoff is there. -/
theorem CutOff.get {cutoff goneAt : Nat} {userId : UserId} {iat exp : Nat} (h : s.CutOff p cutoff goneAt)
    (hp : Minted p userId iat exp) (hgood : p.isExpired s.now = false) :
    s.revocations.users.get s.now userId.text = some cutoff := by
  have houtlives := h.outlives exp hp.exp
  simp only [Payload.isExpired, hp.exp, Option.any_some, decide_eq_false_iff_not] at hgood
  refine ExpiringStore.get_eq_some.2 ⟨goneAt, h.stored _ hp.sub, ?_⟩
  unfold seconds microseconds at *
  omega

theorem Sound.noneAccepted (h : s.Sound settings) : s.NoneAccepted jose := by
  intro p hp
  rcases h.cut p hp with hexpired | ⟨cutoff, goneAt, hcut⟩
  · exact verifyToken_of_isExpired hexpired
  · obtain ⟨userId, iat, exp, hminted, -⟩ := h.issued p (h.killed p hp)
    cases hgood : p.isExpired s.now with
    | true => exact verifyToken_of_isExpired hgood
    | false =>
        have hget := hcut.get hminted hgood
        have hrevoked : s.revocations.isRevoked s.now p.jti userId.text p.iat = true := by
          rw [hminted.iat, isRevoked_of_noJtis h.jtis hget]
          exact decide_eq_true (hcut.after iat hminted.iat)
        rw [verifyToken_encode, hgood, hminted.sub]
        simp [hrevoked, userId.ne]

/-! ## Steps -/

/-- A minted token ends before a cutoff that is written from now on. -/
theorem minted_mint (hlife : settings.accessSeconds < settings.cutoffSeconds) (now : Nat) (user : User)
    (jti : String) (kind : TokenKind) :
    ∃ exp, Minted (mint settings now user jti kind) user.id (seconds now) exp ∧
      exp + 1 ≤ seconds now + settings.cutoffSeconds := by
  cases kind with
  | access =>
      refine ⟨seconds now + settings.accessSeconds, ⟨rfl, rfl, rfl⟩, ?_⟩
      omega
  | refresh =>
      refine ⟨seconds now + settings.refreshSeconds, ⟨rfl, rfl, rfl⟩, ?_⟩
      unfold JwtSettings.refreshSeconds JwtSettings.cutoffSeconds
      omega

/-- Time passes, and tokens are minted. -/
theorem Sound.grow (h : s.Sound settings) (hnow : s.now ≤ s'.now) (hrev : s'.revocations = s.revocations)
    (hkilled : s'.killed = s.killed) (hold : ∀ p ∈ s.issued, p ∈ s'.issued)
    (hissued : ∀ p ∈ s'.issued, p ∈ s.issued ∨ ∃ userId iat exp, Minted p userId iat exp ∧
      exp + 1 ≤ seconds s'.now + settings.cutoffSeconds) : s'.Sound settings where
  jtis := by rw [hrev]; exact h.jtis
  issued := by
    intro p hp
    rcases hissued p hp with hp | hnew
    · obtain ⟨userId, iat, exp, hminted, hends⟩ := h.issued p hp
      have hseconds := seconds_le_of_le hnow
      exact ⟨userId, iat, exp, hminted, by omega⟩
    · exact hnew
  killed := by
    rw [hkilled]
    exact fun p hp => hold p (h.killed p hp)
  cut := by
    rw [hkilled]
    intro p hp
    rcases h.cut p hp with hexpired | ⟨cutoff, goneAt, hcut⟩
    · exact .inl (isExpired_of_later hnow hexpired)
    · right
      refine ⟨cutoff, goneAt, ?_, hcut.after, hcut.outlives⟩
      rw [hrev]
      exact hcut.stored

theorem Sound.mints (h : s.Sound settings) (hlife : settings.accessSeconds < settings.cutoffSeconds)
    {user : User} {jti : String} {kind : TokenKind} (hnow : s'.now = s.now)
    (hrev : s'.revocations = s.revocations) (hkilled : s'.killed = s.killed)
    (hissued : s'.issued = s.issued ++ [mint settings s.now user jti kind]) : s'.Sound settings := by
  apply h.grow (Nat.le_of_eq hnow.symm) hrev hkilled
  · intro p hp
    rw [hissued]
    exact List.mem_append_left _ hp
  · intro p hp
    rw [hissued] at hp
    rcases List.mem_append.1 hp with hp | hp
    · exact .inl hp
    · obtain ⟨exp, hminted, hends⟩ := minted_mint hlife s.now user jti kind
      rw [← List.mem_singleton.1 hp, ← hnow] at *
      exact .inr ⟨_, _, exp, hminted, hends⟩

theorem writeCutoff_eq_some {k : Nat} : writeCutoff settings s k = some s' ↔
    ∃ userId cutoff, s.changing[k]? = some (userId, cutoff) ∧ s' = { s with
      revocations := { s.revocations with
        users := s.revocations.users.setEx s.now (settings.cutoffSeconds * microseconds) userId.text cutoff }
      changing := s.changing.eraseIdx k
      killed := s.killed ++ s.issued.filter fun p => p.sub = some userId.text } := by
  unfold writeCutoff
  cases s.changing[k]? with
  | none => simp
  | some change =>
      obtain ⟨userId, cutoff⟩ := change
      constructor
      · intro h
        cases h
        exact ⟨userId, cutoff, rfl, rfl⟩
      · rintro ⟨_, _, heq, rfl⟩
        cases heq
        rfl

theorem writeCutoff_sound (h : s.Sound settings) {k : Nat}
    (hafter : CutoffAfterTokens s (.writeCutoff k : RevocationAction Token))
    (hs' : writeCutoff settings s k = some s') : s'.Sound settings := by
  obtain ⟨userId, cutoff, hchange, rfl⟩ := writeCutoff_eq_some.1 hs'
  have hkilled : ∀ p ∈ s.killed ++ s.issued.filter (fun p => p.sub = some userId.text), p ∈ s.issued := by
    intro p hp
    rcases List.mem_append.1 hp with hp | hp
    · exact h.killed p hp
    · exact (List.mem_filter.1 hp).1
  refine ⟨h.jtis, h.issued, hkilled, ?_⟩
  intro p hp
  cases hgood : p.isExpired s.now with
  | true => exact .inl rfl
  | false =>
      right
      obtain ⟨owner, iat, exp, hminted, hends⟩ := h.issued p (hkilled p hp)
      by_cases howner : owner.text = userId.text
      · -- the new cutoff takes the place of an older one
        have hsub : p.sub = some userId.text := howner ▸ hminted.sub
        refine ⟨cutoff, s.now + settings.cutoffSeconds * microseconds, ?_, ?_, ?_⟩
        · intro id hid
          rw [hsub] at hid
          cases hid
          exact ExpiringStore.setEx_self
        · intro i hi
          exact hafter userId cutoff hchange p (hkilled p hp) hsub hgood i hi
        · intro e he
          rw [hminted.exp] at he
          cases he
          unfold seconds microseconds at *
          omega
      · rcases List.mem_append.1 hp with hp | hp
        · rcases h.cut p hp with hexpired | ⟨old, goneAt, hcut⟩
          · rw [hgood] at hexpired
            cases hexpired
          · refine ⟨old, goneAt, ?_, hcut.after, hcut.outlives⟩
            intro id hid
            rw [hminted.sub] at hid
            cases hid
            exact (ExpiringStore.setEx_of_ne howner).trans (hcut.stored _ hminted.sub)
        · have hsub := of_decide_eq_true (List.mem_filter.1 hp).2
          rw [hminted.sub] at hsub
          exact absurd (Option.some.inj hsub) howner

/-- A good token of the cutoff's second or of a later one is still accepted after the change. -/
theorem cutoffAfterTokens_of_noneAccepted (h : s.Sound settings) {k : Nat}
    (hs' : writeCutoff settings s k = some s') (hnone : s'.NoneAccepted jose) :
    CutoffAfterTokens s (.writeCutoff k : RevocationAction Token) := by
  intro userId cutoff hchange p hp hsub hgood iat hiat
  obtain ⟨userId', cutoff', hchange', rfl⟩ := writeCutoff_eq_some.1 hs'
  rw [hchange] at hchange'
  cases hchange'
  have hkilled : p ∈ s.killed ++ s.issued.filter (fun p => p.sub = some userId.text) :=
    List.mem_append_right _ (List.mem_filter.2 ⟨hp, decide_eq_true hsub⟩)
  have hrejected := hnone p hkilled
  have hget : (s.revocations.users.setEx s.now (settings.cutoffSeconds * microseconds) userId.text cutoff).get
      s.now userId.text = some cutoff := by
    apply ExpiringStore.get_setEx_self
    unfold JwtSettings.cutoffSeconds microseconds
    omega
  by_contra hlate
  rw [verifyToken_encode, hgood, hsub, hiat] at hrejected
  rw [if_neg (by simp)] at hrejected
  have hrevoked : Revocations.isRevoked { s.revocations with
      users := s.revocations.users.setEx s.now (settings.cutoffSeconds * microseconds) userId.text cutoff }
      s.now p.jti userId.text (some iat) = decide (iat < cutoff) := isRevoked_of_noJtis h.jtis hget
  simp only [Option.getD_some, hrevoked, hlate, decide_false, Bool.and_false] at hrejected
  cases hrejected

theorem revocationStep_sound (h : s.Sound settings) (hlife : settings.accessSeconds < settings.cutoffSeconds)
    {a : RevocationAction Token} (hafter : CutoffAfterTokens s a)
    (hs' : revocationStep jose settings s a = some s') : s'.Sound settings := by
  cases a with
  | tick elapsed =>
      cases hs'
      exact h.grow (Nat.le_add_right _ _) rfl rfl (fun _ hp => hp) fun _ hp => .inl hp
  | login userId jti =>
      obtain ⟨user, -, rfl⟩ := Option.map_eq_some_iff.1 hs'
      exact h.mints hlife rfl rfl rfl rfl
  | refresh refreshToken jti =>
      unfold revocationStep at hs'
      dsimp only at hs'
      split at hs'
      · cases hs'
      · cases hs'
        exact h.mints hlife rfl rfl rfl rfl
  | finishTokens k jti =>
      obtain ⟨user, -, heq⟩ := Option.bind_eq_some_iff.1 hs'
      cases heq
      exact h.mints hlife rfl rfl rfl rfl
  | readClock userId =>
      obtain ⟨user, -, rfl⟩ := Option.map_eq_some_iff.1 hs'
      exact h.grow (Nat.le_refl _) rfl rfl (fun _ hp => hp) fun _ hp => .inl hp
  | writeCutoff k => exact writeCutoff_sound h hafter hs'

def start (users : List User) (now : Nat) : RevocationState := { now := now, users := users }

theorem start_sound (settings : JwtSettings) (users : List User) (now : Nat) :
    (start users now).Sound settings where
  jtis := rfl
  issued _ hp := nomatch hp
  killed _ hp := nomatch hp
  cut _ hp := nomatch hp

/-- No run accepts a token that a completed change has revoked, exactly when each change takes a cutoff that
lies after the good tokens of its user. -/
theorem noneAccepted_iff (jose : Jose Token) (hlife : settings.accessSeconds < settings.cutoffSeconds)
    (users : List User) (now : Nat) (as : List (RevocationAction Token)) :
    Visits (revocationStep jose settings) (NoneAccepted jose) (start users now) as ↔
      EveryStep (revocationStep jose settings) CutoffAfterTokens (start users now) as := by
  have hstep : ∀ s a s', Sound settings s → revocationStep jose settings s a = some s' →
      (NoneAccepted jose s' → CutoffAfterTokens s a) ∧ (CutoffAfterTokens s a → Sound settings s') := by
    intro s a s' h hs'
    constructor
    · intro hnone
      cases a with
      | writeCutoff k => exact cutoffAfterTokens_of_noneAccepted h hs' hnone
      | _ => trivial
    · intro hafter
      exact revocationStep_sound h hlife hafter hs'
  exact visits_iff_everyStep_of_companion (fun _ h => h.noneAccepted) hstep (start_sound settings users now)
    as

end RevocationState

open RevocationState

/-- The password is changed in the second after the login. -/
theorem noneAccepted_nextSecond :
    Visits (revocationStep plainJose {}) (NoneAccepted plainJose) (start [alice] 0)
      [.login alice.id "1", .finishTokens 0 "2", .tick 1000000, .readClock alice.id, .writeCutoff 0] := by
  apply (noneAccepted_iff plainJose (by decide) [alice] 0 _).2
  iterate 4 apply EveryStep.cons_of_eq rfl trivial
  apply EveryStep.cons_of_eq rfl
  · intro userId cutoff hchange p hp _ _ iat hiat
    cases hchange
    rcases List.mem_cons.1 hp with rfl | hp
    · cases hiat
      decide
    · obtain rfl := List.mem_singleton.1 hp
      cases hiat
      decide
  · trivial

/-- The password is changed within the second of the login. -/
theorem token_survives_change : ¬ ∀ (users : List User) (now : Nat) (as : List (RevocationAction Payload)),
    Visits (revocationStep plainJose {}) (NoneAccepted plainJose) (start users now) as := by
  intro h
  have hlast := (h [alice] 0
    [.login alice.id "1", .finishTokens 0 "2", .readClock alice.id, .writeCutoff 0]).last rfl
  have hrejected := hlast _ List.mem_cons_self
  cases hrejected

end OpsKnowledge.Auth
