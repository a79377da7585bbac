import OpsKnowledge.Lib.Table
import OpsKnowledge.Auth.Tokens

/-!
# Single sign-on

`app/auth/providers/oidc.py`: the check of an id token, and the user that its claims stand
for. Reading a signed token is the matter of the JWT library.
-/

namespace OpsKnowledge.Auth

open OpsKnowledge.Lib

/-- The claims that are read; `groups` is the claim that the configuration names, a single group as a
list of one. -/
structure Claims where
  sub : Option String := none
  email : Option String := none
  preferredUsername : Option String := none
  name : Option String := none
  nonce : Option String := none
  groups : List String := []

structure SsoConfig where
  enabled : Bool := true
  roleMap : List (String × String) := []
  deptMap : List (String × String) := []

/-- `x` where `if x` would take it. -/
def nonempty (x : Option String) : Option String := x.filter fun s => s ≠ ""

/-- `_verify_id_token`; `decode` gives the claims of a token with a valid signature, audience and issuer. -/
def verifyIdToken (decode : String → Option Claims) (idToken nonce : String) : Option Claims := do
  let claims ← decode idToken
  if nonce ≠ "" && (nonempty claims.nonce).any (fun n => n ≠ nonce) then none else some claims

/-! ## The table of users -/

/-- A text without the character that no text of the database holds. -/
def storable (s : String) : Bool := s.toList.all (· ≠ '\x00')

/-- A text that a column `String(n)` takes. -/
def fits (n : Nat) (s : String) : Bool := storable s && s.length ≤ n

/-- Rows of `users` under its constraints. -/
structure UserTable where
  rows : List User
  ids : (rows.map User.id).Nodup
  usernames : (rows.map User.username).Nodup
  emails : (rows.map User.email).Nodup

namespace UserTable

def empty : UserTable := ⟨[], List.nodup_nil, List.nodup_nil, List.nodup_nil⟩

variable (t : UserTable)

/-- `none` where a constraint is violated or a text does not fit its column. -/
def insert (u : User) : Option UserTable :=
  if !(fits 50 u.username && fits 255 u.email && u.externalId.all (fits 255)) then none
  else if h : u.id ∉ t.rows.map User.id ∧ u.username ∉ t.rows.map User.username ∧
      u.email ∉ t.rows.map User.email then
    some
      { rows := t.rows ++ [u]
        ids := by
          rw [List.map_append]
          exact List.nodup_append.2 ⟨t.ids, by simp, by simp_all⟩
        usernames := by
          rw [List.map_append]
          exact List.nodup_append.2 ⟨t.usernames, by simp, by simp_all⟩
        emails := by
          rw [List.map_append]
          exact List.nodup_append.2 ⟨t.emails, by simp, by simp_all⟩ }
  else none

/-- What a login writes to a row. -/
structure Change where
  authProvider : Option String := none
  externalId : Option String := none
  role : Option UserRole := none

def Change.apply (c : Change) (u : User) : User :=
  { u with
    authProvider := c.authProvider.getD u.authProvider
    externalId := c.externalId.or u.externalId
    role := c.role.getD u.role }

def update (id : UserId) (c : Change) : UserTable where
  rows := updateWhere (fun u => u.id = id) c.apply t.rows
  ids := by
    rw [map_updateWhere (f := c.apply) fun _ => rfl]
    exact t.ids
  usernames := by
    rw [map_updateWhere (f := c.apply) fun _ => rfl]
    exact t.usernames
  emails := by
    rw [map_updateWhere (f := c.apply) fun _ => rfl]
    exact t.emails

/-- The user of the id is bound to the subject. -/
def Bound (id : UserId) (sub : String) : Prop :=
  ∃ u ∈ t.rows, u.id = id ∧ u.authProvider = "oidc" ∧ u.externalId = some sub

def boundTo (sub : String) : List User :=
  t.rows.filter fun u => u.authProvider = "oidc" && u.externalId = some sub

def byEmail (email : String) : Option User := t.rows.find? fun u => u.email = email

end UserTable

/-! ## The user of a login -/

/-- `str(sub)` -/
def subText (sub : Option String) : String := sub.getD "None"

/-- `UserRole(mapped)`; `none` for a value that is none of them, the empty one too. -/
def userRole (value : String) : Option UserRole :=
  if value = "system_admin" then some .systemAdmin
  else if value = "user" then some .user
  else none

/-- `_map_role` -/
def mapRole (cfg : SsoConfig) (claims : Claims) : Option UserRole :=
  claims.groups.findSome? fun g => (cfg.roleMap.lookup g).bind userRole

/-- `_map_department` -/
def mapDepartment (cfg : SsoConfig) (claims : Claims) : Option String :=
  claims.groups.findSome? fun g => cfg.deptMap.lookup g

def loginEmail (claims : Claims) : String :=
  (nonempty claims.email).getD ("sso-" ++ subText claims.sub ++ "@example.invalid")

def loginName (claims : Claims) : String :=
  ((nonempty claims.preferredUsername).or (nonempty claims.name)).getD (loginEmail claims)

/-- The part of `_upsert_user` for a subject that no user is bound to. -/
def linkOrCreate (cfg : SsoConfig) (claims : Claims) (newId : UserId) (t : UserTable) :
    Option (UserId × UserTable) :=
  let sub := subText claims.sub
  let role := mapRole cfg claims
  if storable (loginEmail claims) then
    match t.byEmail (loginEmail claims) with
    | some existing =>
      -- the account with the e-mail is linked, whatever it was bound to
      if fits 255 sub then
        some (existing.id, t.update existing.id
          { authProvider := some "oidc", externalId := some sub, role := role })
      else none
    | none =>
      (t.insert
        { id := newId, username := loginName claims, email := loginEmail claims, hashedPassword := ""
          authProvider := "oidc", externalId := some sub, role := role.getD .user }).map fun t => (newId, t)
  else none

/-- The department of the claims takes the user, where they have one. `joins` says what
`ensure_user_membership` does, which fails for a name that two departments have or none can have. -/
def joinsDepartment (cfg : SsoConfig) (claims : Claims) (joins : UserId → String → Bool) (id : UserId) :
    Bool :=
  (nonempty (mapDepartment cfg claims)).all (joins id)

/-- `_upsert_user`: the user's id and the table after it; `none` when it raises. -/
def upsertUser (cfg : SsoConfig) (claims : Claims) (joins : UserId → String → Bool) (newId : UserId)
    (t : UserTable) : Option (UserId × UserTable) :=
  let sub := subText claims.sub
  let user :=
    if storable sub then
      match t.boundTo sub with
      | [user] => some (user.id, t.update user.id { role := mapRole cfg claims })
      | _ :: _ :: _ => none
      | [] => linkOrCreate cfg claims newId t
    else none
  user.filter fun user => joinsDepartment cfg claims joins user.1

/-- `OIDCAuthProvider.authenticate`, where `idToken` is what the provider gave for the code: the claims, the
user's id and the table after it. `none` when it fails. -/
def authenticate (decode : String → Option Claims) (cfg : SsoConfig) (joins : UserId → String → Bool)
    (idToken : Option String) (code verifier nonce : String) (newId : UserId) (t : UserTable) :
    Option (Claims × UserId × UserTable) := do
  if !cfg.enabled || code = "" || verifier = "" then none
  let idToken ← nonempty idToken
  let claims ← verifyIdToken decode idToken nonce
  let user ← upsertUser cfg claims joins newId t
  return (claims, user)

end OpsKnowledge.Auth
