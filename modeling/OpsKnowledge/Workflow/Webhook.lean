import OpsKnowledge.Lib.Dict
import OpsKnowledge.Lib.Text
import OpsKnowledge.Lib.Transition

/-!
# Webhook configurations and their verification

`WebhookService`: the operations on the configuration of one workflow, and `verify`.
`hmac` with SHA-256 is a parameter, taken as an ideal keyed function.
-/

namespace OpsKnowledge.Workflow

open OpsKnowledge.Lib

/-- The digest of a message under a key, in hexadecimal. Two keys never give one digest. -/
structure KeyedDigest where
  hexdigest : String → List UInt8 → String
  hex : ∀ key message, ∀ c ∈ (hexdigest key message).toList, c ∈ "0123456789abcdef".toList
  key_injective : ∀ key key' message, hexdigest key message = hexdigest key' message → key = key'

structure WebhookConfig where
  hookId : Option String := none
  authType : Option String := none
  secret : Option String := none
  allowedIps : Option (List String) := none
  deriving DecidableEq, Repr

/-- The keys of a patch that `update_config` takes over. -/
structure ConfigPatch where
  authType : Option String := none
  allowedIps : Option (List String) := none
  deriving DecidableEq, Repr

structure WebhookRequest where
  headers : Dict String String
  rawBody : List UInt8 := []
  clientIp : String := ""

inductive WebhookError where
  | authFailed (msg : String)
  /-- `compare_digest` on texts that are not ASCII. -/
  | typeError
  deriving DecidableEq, Repr

/-- `lastIssued` is not in the source: the secret issued last. -/
structure Webhook where
  config : Option WebhookConfig := none
  lastIssued : Option String := none
  deriving DecidableEq, Repr

/-- A regeneration comes with the random values it draws; a secret is never empty. -/
inductive WebhookOp where
  | regenerate (authType hookId : String) (secret : { token : String // token ≠ "" })
  | updateConfig (patch : ConfigPatch)
  | delete
  deriving DecidableEq

/-! ## The operations -/

namespace Webhook

def regenerate (webhook : Webhook) (authType hookId : String)
    (secret : { token : String // token ≠ "" }) : Webhook :=
  let cfg := webhook.config.getD {}
  if authType = "bearer" ∨ authType = "hmac" then
    { config := some { cfg with
        hookId := some hookId, authType := some authType, secret := some secret.val }
      lastIssued := some secret.val }
  else
    { webhook with
      config := some { cfg with
        hookId := some hookId, authType := some authType, secret := none } }

def updateConfig (webhook : Webhook) (patch : ConfigPatch) : Webhook :=
  let cfg := webhook.config.getD {}
  { webhook with
    config := some { cfg with
      authType := patch.authType.or cfg.authType
      allowedIps := patch.allowedIps.or cfg.allowedIps } }

def delete (webhook : Webhook) : Webhook := { webhook with config := none }

def apply (webhook : Webhook) : WebhookOp → Webhook
  | .regenerate authType hookId secret => webhook.regenerate authType hookId secret
  | .updateConfig patch => webhook.updateConfig patch
  | .delete => webhook.delete

end Webhook

def webhookStep (webhook : Webhook) (op : WebhookOp) : Option Webhook := some (webhook.apply op)

/-! ## Verification -/

/-- `headers.get(name, "") or headers.get(altName, "")` -/
def headerValue (headers : Dict String String) (name altName : String) : String :=
  let value := (headers.get? name).getD ""
  if value ≠ "" then value else (headers.get? altName).getD ""

/-- What a header presents after its scheme. -/
def presented (headers : Dict String String) (name altName scheme : String) : Option String :=
  let value := headerValue headers name altName
  if startsWith scheme value then some (strip (removePrefix scheme value)) else none

def bearerToken (request : WebhookRequest) : Option String :=
  presented request.headers "authorization" "Authorization" "Bearer "

def signature (request : WebhookRequest) : Option String :=
  presented request.headers "x-signature" "X-Signature" "sha256="

/-- `raw_body + cfg.get("hook_id", "").encode()` -/
def signedMessage (cfg : WebhookConfig) (request : WebhookRequest) : List UInt8 :=
  request.rawBody ++ (cfg.hookId.getD "").toUTF8.toList

/-- `hmac.compare_digest`, with the error for a mismatch. -/
def compareDigest (a b mismatch : String) : Except WebhookError Unit :=
  if ¬ (isAscii a ∧ isAscii b) then .error .typeError
  else if a = b then .ok ()
  else .error (.authFailed mismatch)

def verify (digest : KeyedDigest) (cfg : WebhookConfig) (request : WebhookRequest) :
    Except WebhookError Unit :=
  let allowed := cfg.allowedIps.getD []
  let authType := cfg.authType.getD "none"
  let secret := cfg.secret.getD ""
  if allowed ≠ [] ∧ request.clientIp ∉ allowed then
    .error (.authFailed s!"IP {request.clientIp} not allowed")
  else if authType = "none" then .ok ()
  else if authType = "bearer" then
    match bearerToken request with
    | none => .error (.authFailed "missing Bearer token")
    | some token => compareDigest token secret "bearer token mismatch"
  else if authType = "hmac" then
    match signature request with
    | none => .error (.authFailed "missing X-Signature: sha256=...")
    | some sig =>
        compareDigest sig (digest.hexdigest secret (signedMessage cfg request))
          "hmac signature mismatch"
  else .error (.authFailed s!"unknown auth_type: {authType}")

/-! ## What acceptance has to prove -/

/-- The request carries the secret, or is signed with it. -/
def Proves (digest : KeyedDigest) (cfg : WebhookConfig) (request : WebhookRequest)
    (secret : String) : Prop :=
  cfg.authType = some "bearer" ∧ bearerToken request = some secret ∨
    cfg.authType = some "hmac" ∧
      signature request = some (digest.hexdigest secret (signedMessage cfg request))

/-- Under an `auth_type` other than `none`, who is accepted has the secret issued last. -/
def Authenticated (digest : KeyedDigest) (webhook : Webhook) : Prop :=
  ∀ cfg request, webhook.config = some cfg → cfg.authType.getD "none" ≠ "none" →
    verify digest cfg request = .ok () →
      ∃ secret, webhook.lastIssued = some secret ∧ secret ≠ "" ∧ Proves digest cfg request secret

def NeedsSecret (authType : Option String) : Prop :=
  authType = some "bearer" ∨ authType = some "hmac"

instance (authType : Option String) : Decidable (NeedsSecret authType) :=
  inferInstanceAs (Decidable (_ ∨ _))

/-- A configuration that compares with a secret has one. -/
def Keyed (webhook : Webhook) : Prop :=
  ∀ cfg, webhook.config = some cfg → NeedsSecret cfg.authType → cfg.secret ≠ none

/-- A patch turns authentication on only where there is a secret. -/
def PatchKeyed (webhook : Webhook) : WebhookOp → Prop
  | .updateConfig patch =>
      NeedsSecret patch.authType → (webhook.config.bind WebhookConfig.secret).isSome
  | .regenerate .. | .delete => True

/-- The stored secret is the one issued last. -/
def Issued (webhook : Webhook) : Prop :=
  ∀ cfg secret, webhook.config = some cfg → cfg.secret = some secret →
    secret ≠ "" ∧ webhook.lastIssued = some secret

theorem issued_apply {webhook : Webhook} (h : Issued webhook) (op : WebhookOp) :
    Issued (webhook.apply op) := by
  intro cfg secret hcfg hsecret
  cases op with
  | regenerate authType hookId token =>
      simp only [Webhook.apply, Webhook.regenerate] at hcfg ⊢
      split at hcfg
      · next hauth =>
          cases hcfg
          cases hsecret
          rw [if_pos hauth]
          exact ⟨token.property, rfl⟩
      · cases hcfg
        cases hsecret
  | updateConfig patch =>
      cases hcfg
      cases hold : webhook.config with
      | none => rw [hold] at hsecret; cases hsecret
      | some old =>
          rw [hold] at hsecret
          exact h old secret hold hsecret
  | delete => cases hcfg

/-- From a keyed configuration an operation leads to a keyed one exactly under `PatchKeyed`. -/
theorem keyed_apply_iff {webhook : Webhook} (h : Keyed webhook) (op : WebhookOp) :
    Keyed (webhook.apply op) ↔ PatchKeyed webhook op := by
  cases op with
  | regenerate authType hookId token =>
      refine ⟨fun _ => trivial, fun _ => ?_⟩
      intro cfg hcfg hneeds
      simp only [Webhook.apply, Webhook.regenerate] at hcfg
      split at hcfg
      · cases hcfg
        exact nofun
      · next hauth =>
          cases hcfg
          rcases hneeds with hneeds | hneeds
          · exact absurd (Or.inl (Option.some.inj hneeds)) hauth
          · exact absurd (Or.inr (Option.some.inj hneeds)) hauth
  | updateConfig patch =>
      constructor
      · intro hkeyed hneeds
        have hauth : NeedsSecret (patch.authType.or (webhook.config.getD {}).authType) := by
          rcases hneeds with hneeds | hneeds <;> simp [NeedsSecret, hneeds]
        have hsecret := hkeyed _ rfl hauth
        cases hold : webhook.config with
        | none => simp [hold] at hsecret
        | some old => simpa [hold, Option.isSome_iff_ne_none] using hsecret
      · intro hpatch cfg hcfg hneeds
        cases hcfg
        cases hpatched : patch.authType with
        | none =>
            simp only [hpatched, Option.none_or] at hneeds
            cases hold : webhook.config with
            | none => rw [hold] at hneeds; rcases hneeds with hneeds | hneeds <;> cases hneeds
            | some old =>
                rw [hold] at hneeds
                exact h old hold hneeds
        | some authType =>
            simp only [hpatched, Option.some_or] at hneeds
            have hsome := hpatch (by rw [hpatched]; exact hneeds)
            cases hold : webhook.config with
            | none => simp [hold] at hsome
            | some old => simpa [hold, Option.isSome_iff_ne_none] using hsome
  | delete => exact ⟨fun _ => trivial, fun _ => nofun⟩

/-! ## What `verify` accepts -/

theorem compareDigest_eq_ok {a b mismatch : String} :
    compareDigest a b mismatch = .ok () ↔ (isAscii a ∧ isAscii b) ∧ a = b := by
  unfold compareDigest
  by_cases hascii : isAscii a = true ∧ isAscii b = true
  · by_cases hab : a = b
    · simp [hascii, hab]
    · simp [hascii, hab]
  · simp [hascii]

section Verify

variable (digest : KeyedDigest)

/-- Who is accepted proves the stored secret, a missing one read as the empty text. -/
theorem proves_of_verify {cfg : WebhookConfig} {request : WebhookRequest}
    (hauth : cfg.authType.getD "none" ≠ "none") (h : verify digest cfg request = .ok ()) :
    Proves digest cfg request (cfg.secret.getD "") := by
  cases htype : cfg.authType with
  | none => rw [htype] at hauth; exact absurd rfl hauth
  | some authType =>
      simp only [htype, Option.getD_some] at hauth
      simp only [verify, htype, Option.getD_some, if_neg hauth] at h
      split at h
      · cases h
      · split at h
        · next hbearer =>
            left
            refine ⟨by rw [htype, hbearer], ?_⟩
            cases htoken : bearerToken request with
            | none => simp [htoken] at h
            | some token =>
                simp only [htoken] at h
                rw [(compareDigest_eq_ok.1 h).2]
        · split at h
          · next hhmac =>
              right
              refine ⟨by rw [htype, hhmac], ?_⟩
              cases hsig : signature request with
              | none => simp [hsig] at h
              | some sig =>
                  simp only [hsig] at h
                  rw [(compareDigest_eq_ok.1 h).2]
          · cases h

/-- A request that needs no secret: an empty token, and the digest under the empty key. -/
def unkeyedRequest (cfg : WebhookConfig) : WebhookRequest where
  headers := Dict.ofList [("authorization", "Bearer "),
    ("x-signature", "sha256=" ++ digest.hexdigest "" (cfg.hookId.getD "").toUTF8.toList)]
  clientIp := (cfg.allowedIps.getD []).headD ""

theorem KeyedDigest.hex_plain (key : String) (message : List UInt8) :
    isAscii (digest.hexdigest key message) = true ∧
      strip (digest.hexdigest key message) = digest.hexdigest key message := by
  have hall : ("0123456789abcdef".toList.all fun c => c.toNat < 128 && !isSpace c) = true := by
    decide
  have hdigits : ∀ c ∈ "0123456789abcdef".toList, c.toNat < 128 ∧ isSpace c = false := by
    intro c hc
    simpa using List.all_eq_true.1 hall c hc
  constructor
  · rw [isAscii, List.all_eq_true]
    intro c hc
    exact decide_eq_true (hdigits c (digest.hex key message c hc)).1
  · apply strip_eq_self
    intro c hc
    exact (hdigits c (digest.hex key message c hc)).2

theorem bearerToken_unkeyedRequest (cfg : WebhookConfig) :
    bearerToken (unkeyedRequest digest cfg) = some "" := by
  have hheader : headerValue (unkeyedRequest digest cfg).headers "authorization" "Authorization" =
      "Bearer " := rfl
  simp only [bearerToken, presented, hheader]
  decide

theorem signature_unkeyedRequest (cfg : WebhookConfig) :
    signature (unkeyedRequest digest cfg) =
      some (digest.hexdigest "" (signedMessage cfg (unkeyedRequest digest cfg))) := by
  have hmessage : signedMessage cfg (unkeyedRequest digest cfg) =
      (cfg.hookId.getD "").toUTF8.toList := rfl
  have hheader : headerValue (unkeyedRequest digest cfg).headers "x-signature" "X-Signature" =
      "sha256=" ++ digest.hexdigest "" (cfg.hookId.getD "").toUTF8.toList := by
    have hget : (unkeyedRequest digest cfg).headers.get? "x-signature" =
        some ("sha256=" ++ digest.hexdigest "" (cfg.hookId.getD "").toUTF8.toList) := rfl
    have hne : "sha256=" ++ digest.hexdigest "" (cfg.hookId.getD "").toUTF8.toList ≠ "" := by
      simp
    simp only [headerValue, hget, Option.getD_some, if_pos hne]
  simp only [signature, presented, hheader, startsWith_append, removePrefix_append, if_true,
    (digest.hex_plain _ _).2, hmessage]

/-- Without a secret, the request without one is accepted. -/
theorem verify_unkeyedRequest {cfg : WebhookConfig} (hneeds : NeedsSecret cfg.authType)
    (hsecret : cfg.secret = none) : verify digest cfg (unkeyedRequest digest cfg) = .ok () := by
  have hallowed : ¬ (cfg.allowedIps.getD [] ≠ [] ∧
      (unkeyedRequest digest cfg).clientIp ∉ cfg.allowedIps.getD []) := by
    show ¬ (cfg.allowedIps.getD [] ≠ [] ∧
      (cfg.allowedIps.getD []).headD "" ∉ cfg.allowedIps.getD [])
    cases cfg.allowedIps.getD [] with
    | nil => simp
    | cons ip ips => simp
  rcases hneeds with htype | htype
  · have hcompare : compareDigest "" "" "bearer token mismatch" = .ok () := rfl
    simp [verify, hallowed, htype, hsecret, bearerToken_unkeyedRequest, hcompare]
  · have hplain := (digest.hex_plain "" (signedMessage cfg (unkeyedRequest digest cfg))).1
    have hcompare : compareDigest
        (digest.hexdigest "" (signedMessage cfg (unkeyedRequest digest cfg)))
        (digest.hexdigest "" (signedMessage cfg (unkeyedRequest digest cfg)))
        "hmac signature mismatch" = .ok () :=
      compareDigest_eq_ok.2 ⟨⟨hplain, hplain⟩, rfl⟩
    simp [verify, hallowed, htype, hsecret, signature_unkeyedRequest, hcompare]

theorem authenticated_iff_keyed {webhook : Webhook} (h : Issued webhook) :
    Authenticated digest webhook ↔ Keyed webhook := by
  constructor
  · intro hauthenticated cfg hcfg hneeds hsecret
    have hauth : cfg.authType.getD "none" ≠ "none" := by
      rcases hneeds with htype | htype <;> rw [htype] <;> decide
    rcases hauthenticated cfg (unkeyedRequest digest cfg) hcfg hauth
      (verify_unkeyedRequest digest hneeds hsecret) with ⟨secret, -, hne, hproves⟩
    rcases hproves with ⟨-, htoken⟩ | ⟨-, hsig⟩
    · rw [bearerToken_unkeyedRequest] at htoken
      exact hne (Option.some.inj htoken).symm
    · rw [signature_unkeyedRequest] at hsig
      exact hne (digest.key_injective _ _ _ (Option.some.inj hsig)).symm
  · intro hkeyed cfg request hcfg hauth hverify
    have hproves := proves_of_verify digest hauth hverify
    have hneeds : NeedsSecret cfg.authType := by
      rcases hproves with ⟨htype, -⟩ | ⟨htype, -⟩
      · exact .inl htype
      · exact .inr htype
    cases hsecret : cfg.secret with
    | none => exact absurd hsecret (hkeyed cfg hcfg hneeds)
    | some secret =>
        rcases h cfg secret hcfg hsecret with ⟨hne, hissued⟩
        rw [hsecret] at hproves
        exact ⟨secret, hissued, hne, hproves⟩

end Verify

/-- No state of a run accepts a request without the secret iff every patch that turns
authentication on finds one. -/
theorem webhook_authenticated_iff (digest : KeyedDigest) (ops : List WebhookOp) :
    Visits webhookStep (Authenticated digest) {} ops ↔ EveryStep webhookStep PatchKeyed {} ops := by
  have hissued : Issued {} := nofun
  have hinv : ∀ webhook op webhook', Issued webhook → webhookStep webhook op = some webhook' →
      Issued webhook' := by
    intro webhook op webhook' h hstep
    cases hstep
    exact issued_apply h op
  have hstart : Authenticated digest {} := nofun
  apply visits_iff_everyStep_of_inv hinv ?_ hissued hstart
  intro webhook op webhook' h hauthenticated hstep
  cases hstep
  have hkeyed := (authenticated_iff_keyed digest h).1 hauthenticated
  exact (authenticated_iff_keyed digest (issued_apply h op)).trans (keyed_apply_iff hkeyed op)

/-! ## Authentication without a secret -/

/-- An ideal digest: the key in unary, its characters separated by zeros. -/
def unaryDigits : List Char → List Char
  | [] => []
  | c :: cs => List.replicate c.toNat '1' ++ '0' :: unaryDigits cs

theorem mem_unaryDigits {cs : List Char} {d : Char} (h : d ∈ unaryDigits cs) :
    d = '0' ∨ d = '1' := by
  induction cs with
  | nil => cases h
  | cons c cs ih =>
      rcases List.mem_append.1 h with h | h
      · exact .inr (List.eq_of_mem_replicate h)
      · rcases List.mem_cons.1 h with h | h
        · exact .inl h
        · exact ih h

theorem unaryDigits_injective : Function.Injective unaryDigits := by
  intro cs
  induction cs with
  | nil =>
      intro cs' h
      cases cs' with
      | nil => rfl
      | cons c' cs' => simp [unaryDigits] at h
  | cons c cs ih =>
      intro cs' h
      cases cs' with
      | nil => simp [unaryDigits] at h
      | cons c' cs' =>
          have hsplit : ∀ (m n : Nat) (l l' : List Char),
              List.replicate m '1' ++ '0' :: l = List.replicate n '1' ++ '0' :: l' →
                m = n ∧ l = l' := by
            intro m
            induction m with
            | zero =>
                intro n l l' h
                cases n with
                | zero => exact ⟨rfl, (List.cons.inj h).2⟩
                | succ n => simp [List.replicate_succ] at h
            | succ m ihm =>
                intro n l l' h
                cases n with
                | zero => simp [List.replicate_succ] at h
                | succ n =>
                    rcases ihm n l l' (List.cons.inj h).2 with ⟨hmn, hl⟩
                    exact ⟨by omega, hl⟩
          rcases hsplit _ _ _ _ h with ⟨hc, hcs⟩
          rw [Char.toNat_inj.1 hc, ih hcs]

def unaryDigest : KeyedDigest where
  hexdigest key _ := String.ofList (unaryDigits key.toList)
  hex key _ c hc := by
    rw [String.toList_ofList] at hc
    rcases mem_unaryDigits hc with rfl | rfl <;> decide
  key_injective key key' _ h := by
    have hdigits := String.ofList_injective h
    exact String.toList_injective (unaryDigits_injective hdigits)

/-- Regenerated without authentication, then patched to `hmac`: the empty key signs. -/
theorem patched_hmac_unkeyed :
    ¬ ∀ (digest : KeyedDigest) (ops : List WebhookOp),
        Visits webhookStep (Authenticated digest) {} ops := by
  intro h
  have hlast := (h unaryDigest [.regenerate "none" "hook" ⟨"token", by decide⟩,
    .updateConfig { authType := some "hmac" }]).last rfl
  have hneeds : NeedsSecret (some "hmac") := .inr rfl
  rcases hlast _ _ rfl (by decide) (verify_unkeyedRequest unaryDigest hneeds rfl) with
    ⟨secret, hissued, -⟩
  cases hissued

end OpsKnowledge.Workflow
