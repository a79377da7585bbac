import OpsKnowledge.Lib.KeyValue

/-!
# Tokens

`app/auth/service.py`: the tokens that a login hands out, their revocation in Redis, and the
checks of the endpoints that take a token. Times are microseconds, and what a token holds
are whole seconds. Signing and reading a token is the matter of the JWT library.
-/

namespace OpsKnowledge.Auth

open OpsKnowledge.Lib

/-- The text of a user's id. -/
structure UserId where
  text : String
  ne : text ≠ ""
  deriving DecidableEq

inductive UserRole where
  | systemAdmin
  | user
  deriving DecidableEq

def UserRole.value : UserRole → String
  | .systemAdmin => "system_admin"
  | .user => "user"

/-- The columns that authentication reads. -/
structure User where
  id : UserId
  username : String
  email : String
  hashedPassword : String
  role : UserRole := .user
  authProvider : String := "local"
  externalId : Option String := none
  isActive : Bool := true

/-- The claims that are set or read. -/
structure Payload where
  sub : Option String := none
  role : Option String := none
  type : Option String := none
  exp : Option Nat := none
  iat : Option Nat := none
  jti : Option String := none
  deriving DecidableEq

/-- `jose.jwt` under the secret and the algorithm of the settings: `decode` reads the payload of a
token with a valid signature. -/
structure Jose (Token : Type) where
  encode : Payload → Token
  decode : Token → Option Payload
  decode_encode : ∀ p, decode (encode p) = some p

def microseconds : Nat := 1000000

def seconds (now : Nat) : Nat := now / microseconds

/-- `JWT_ACCESS_TOKEN_EXPIRE_MINUTES` and `JWT_REFRESH_TOKEN_EXPIRE_DAYS` -/
structure JwtSettings where
  accessMinutes : Nat := 30
  refreshDays : Nat := 7

namespace JwtSettings

variable (settings : JwtSettings)

def accessSeconds : Nat := settings.accessMinutes * 60

def refreshSeconds : Nat := settings.refreshDays * 86400

/-- The time to live of a user's cutoff. -/
def cutoffSeconds : Nat := settings.refreshDays * 86400 + 3600

end JwtSettings

/-! ## Minting -/

inductive TokenKind where
  | access
  | refresh
  deriving DecidableEq

/-- `_create_token`; `jti` is a fresh `uuid4`. -/
def createToken (now : Nat) (data : Payload) (lifetime : Nat) (jti : String) : Payload :=
  { data with exp := some (seconds now + lifetime), iat := some (seconds now), jti := some jti }

/-- One of the tokens of `create_tokens`. -/
def mint (settings : JwtSettings) (now : Nat) (user : User) (jti : String) : TokenKind → Payload
  | .access =>
    createToken now { sub := some user.id.text, role := some user.role.value } settings.accessSeconds jti
  | .refresh =>
    createToken now { sub := some user.id.text, type := some "refresh" } settings.refreshSeconds jti

/-! ## Verification -/

/-- The keys `jwt:revoked_jti:` and `jwt:revoked_user:` of Redis. -/
structure Revocations where
  jtis : ExpiringStore String Unit := Store.empty
  users : ExpiringStore String Nat := Store.empty

/-- `_is_revoked` -/
def Revocations.isRevoked (r : Revocations) (now : Nat) (jti : Option String) (userId : String)
    (iat : Option Nat) : Bool :=
  (jti.filter fun j => j ≠ "").any (fun j => (r.jtis.get now j).isSome) ||
    match r.users.get now userId, iat with
    | some cutoff, some iat => iat < cutoff
    | _, _ => false

/-- `exp` lies in the past; a token is good for the whole second that it names. -/
def Payload.isExpired (p : Payload) (now : Nat) : Bool := p.exp.any fun exp => exp < seconds now

section Verify

variable {Token : Type} (jose : Jose Token) (r : Revocations) (now : Nat) (users : List User)

/-- `verify_token` -/
def verifyToken (token : Token) : Option Payload := do
  let payload ← jose.decode token
  if payload.isExpired now then none
  else
    let userId := payload.sub.getD ""
    if userId ≠ "" && r.isRevoked now payload.jti userId payload.iat then none else some payload

/-- `get_user_by_id` -/
def getUserById (userId : String) : Option User :=
  users.find? fun u => u.id.text = userId && u.isActive

/-- The JWT part of `get_current_user` and `_get_caller`. -/
def getCurrentUser (credentials : Option Token) : Except String User :=
  match credentials with
  | none => .error "Not authenticated"
  | some token =>
    match verifyToken jose r now token with
    | none => .error "Invalid token"
    | some payload =>
      match payload.sub with
      | none => .error "Invalid token"
      | some userId =>
        match getUserById users userId with
        | none => .error "User not found"
        | some user => .ok user

/-- `authenticate_ws_token`; an absent token is one that is empty. -/
def authenticateWsToken (token : Option Token) : Except String User :=
  match token with
  | none => .error "missing token"
  | some token =>
    match verifyToken jose r now token with
    | none => .error "invalid token"
    | some payload =>
      match payload.sub.filter fun sub => sub ≠ "" with
      | none => .error "invalid token (no sub)"
      | some sub =>
        match getUserById users sub with
        | none => .error "user not found or inactive"
        | some user => .ok user

/-- The user whom the refresh endpoint makes new tokens for. -/
def refresh (refreshToken : Token) : Except String User :=
  match verifyToken jose r now refreshToken with
  | none => .error "Invalid refresh token"
  | some payload =>
    if payload.type ≠ some "refresh" then .error "Invalid refresh token"
    else
      match getUserById users (payload.sub.getD "") with
      | none => .error "User not found"
      | some user => .ok user

end Verify

/-! ## What the verifiers accept -/

section Accept

variable {Token : Type} {jose : Jose Token} {r : Revocations} {now : Nat} {users : List User}
  {token : Token} {user : User}

theorem verifyToken_encode (p : Payload) : verifyToken jose r now (jose.encode p) =
    if p.isExpired now then none
    else if p.sub.getD "" ≠ "" && r.isRevoked now p.jti (p.sub.getD "") p.iat then none else some p := by
  unfold verifyToken
  rw [jose.decode_encode]
  rfl

theorem eq_of_verifyToken {p q : Payload} (h : verifyToken jose r now (jose.encode p) = some q) : q = p := by
  rw [verifyToken_encode] at h
  split at h
  · cases h
  · split at h
    · cases h
    · cases h
      rfl

theorem getCurrentUser_eq_ok : getCurrentUser jose r now users (some token) = .ok user ↔
    ∃ p sub, verifyToken jose r now token = some p ∧ p.sub = some sub ∧
      getUserById users sub = some user := by
  unfold getCurrentUser
  cases hverify : verifyToken jose r now token with
  | none => simp [hverify]
  | some p =>
      cases hsub : p.sub with
      | none => simp [hverify, hsub]
      | some sub => cases huser : getUserById users sub <;> simp [hverify, hsub, huser]

/-- On a token with a subject the two checks agree. -/
theorem authenticateWsToken_eq_ok {p : Payload} {sub : String} (hp : verifyToken jose r now token = some p)
    (hsub : p.sub = some sub) (hne : sub ≠ "") :
    authenticateWsToken jose r now users (some token) = .ok user ↔
      getCurrentUser jose r now users (some token) = .ok user := by
  have hfilter : (some sub).filter (fun s => s ≠ "") = some sub := by simp [Option.filter, hne]
  unfold authenticateWsToken getCurrentUser
  simp only [hp, hsub, hfilter]
  cases getUserById users sub <;> simp

theorem refresh_eq_ok (h : refresh jose r now users token = .ok user) :
    ∃ p, verifyToken jose r now token = some p ∧ p.type = some "refresh" := by
  unfold refresh at h
  cases hverify : verifyToken jose r now token with
  | none => simp [hverify] at h
  | some p =>
      by_cases htype : p.type = some "refresh"
      · exact ⟨p, rfl, htype⟩
      · simp [hverify, htype] at h

theorem getUserById_isSome {id : UserId} :
    (getUserById users id.text).isSome = true ↔ ∃ u ∈ users, u.id = id ∧ u.isActive = true := by
  have htext : ∀ u : User, u.id.text = id.text ↔ u.id = id := by
    intro u
    constructor
    · intro h
      cases hu : u.id
      cases id
      simp_all
    · intro h
      rw [h]
  simp [getUserById, htext]

end Accept

/-! ## Access and refresh tokens -/

/-- The checks of the endpoints tell the two kinds of tokens apart. -/
structure Separated {Token : Type} (jose : Jose Token) (r : Revocations) (now : Nat) (users : List User)
    (token : Token) (kind : TokenKind) : Prop where
  currentUser : ∀ user, getCurrentUser jose r now users (some token) = .ok user → kind = .access
  webSocket : ∀ user, authenticateWsToken jose r now users (some token) = .ok user → kind = .access
  refresh : ∀ user, refresh jose r now users token = .ok user → kind = .refresh

theorem mint_sub (settings : JwtSettings) (now : Nat) (user : User) (jti : String) (kind : TokenKind) :
    (mint settings now user jti kind).sub = some user.id.text := by
  cases kind <;> rfl

theorem mint_type (settings : JwtSettings) (now : Nat) (user : User) (jti : String) (kind : TokenKind) :
    (mint settings now user jti kind).type = some "refresh" ↔ kind = .refresh := by
  cases kind <;> simp [mint, createToken]

/-- Only a refresh token that is still good, of an active user, is taken for what it is not. -/
theorem separated_iff {Token : Type} (jose : Jose Token) (settings : JwtSettings) (r : Revocations)
    (mintedAt now : Nat) (users : List User) (owner : User) (jti : String) (kind : TokenKind) :
    Separated jose r now users (jose.encode (mint settings mintedAt owner jti kind)) kind ↔
      ¬ (kind = .refresh ∧
        (verifyToken jose r now (jose.encode (mint settings mintedAt owner jti kind))).isSome = true ∧
        ∃ u ∈ users, u.id = owner.id ∧ u.isActive = true) := by
  have hsub := mint_sub settings mintedAt owner jti kind
  constructor
  · rintro h ⟨rfl, hverify, hactive⟩
    obtain ⟨p, hp⟩ := Option.isSome_iff_exists.1 hverify
    obtain ⟨user, huser⟩ := Option.isSome_iff_exists.1 (getUserById_isSome.2 hactive)
    have hpayload := eq_of_verifyToken hp
    have haccepted := getCurrentUser_eq_ok.2 ⟨p, owner.id.text, hp, hpayload ▸ hsub, huser⟩
    cases h.currentUser user haccepted
  · intro h
    have haccess : ∀ user, getCurrentUser jose r now users
        (some (jose.encode (mint settings mintedAt owner jti kind))) = .ok user → kind = .access := by
      intro user huser
      obtain ⟨p, sub, hp, hpsub, hfound⟩ := getCurrentUser_eq_ok.1 huser
      have hpayload := eq_of_verifyToken hp
      have hid : sub = owner.id.text := Option.some.inj (hpsub.symm.trans (hpayload ▸ hsub))
      rw [hid] at hfound
      cases kind with
      | access => rfl
      | refresh =>
          exfalso
          apply h
          exact ⟨rfl, Option.isSome_iff_exists.2 ⟨p, hp⟩,
            getUserById_isSome.1 (Option.isSome_iff_exists.2 ⟨user, hfound⟩)⟩
    refine ⟨haccess, ?_, ?_⟩
    · intro user huser
      cases hverify : verifyToken jose r now (jose.encode (mint settings mintedAt owner jti kind)) with
      | none => simp [authenticateWsToken, hverify] at huser
      | some p =>
          have hpsub := eq_of_verifyToken hverify ▸ hsub
          exact haccess user ((authenticateWsToken_eq_ok hverify hpsub owner.id.ne).1 huser)
    · intro user huser
      obtain ⟨p, hp, htype⟩ := refresh_eq_ok huser
      rw [eq_of_verifyToken hp] at htype
      exact (mint_type settings mintedAt owner jti kind).1 htype

/-- Tokens that are their payloads. -/
def plainJose : Jose Payload where
  encode := id
  decode := some
  decode_encode _ := rfl

def alice : User :=
  { id := ⟨"a", by decide⟩, username := "alice", email := "alice@host", hashedPassword := "hash" }

/-- A refresh token is shown to the API. -/
theorem refresh_token_grants_access : ¬ ∀ (settings : JwtSettings) (r : Revocations) (mintedAt now : Nat)
    (users : List User) (owner : User) (jti : String) (kind : TokenKind),
      Separated plainJose r now users (plainJose.encode (mint settings mintedAt owner jti kind)) kind := by
  intro h
  have hseparated := h {} {} 0 0 [alice] alice "1" .refresh
  cases hseparated.currentUser alice rfl

end OpsKnowledge.Auth
