import Telepty.Session.Persistence

/-!
# The registration route

`POST /api/sessions/register`: the checks on a request, the re-registration of a session that the
daemon holds, and the registration of a new instance. What the request needs of the outside world
comes with it: what the principal middleware has verified, the random values, the outcome of the
write of the session store and of the calls to the mailbox. The clock is read once.
-/

namespace Telepty.Registry

open Infra
open Interaction (truthy own member byteLength utf16Length)
open Principal (coerced coercedOrEmpty identifier AuthPrincipal Acceptance)
open Session (Policy)

/-! ## The host -/

/-- What the handler uses of the platform. -/
structure Host where
  /-- SHA-256 of the UTF-8 text -/
  digest : Text → List UInt8
  /-- the PEM text of `crypto.createPublicKey(pem)`, where that is an Ed25519 key -/
  ed25519Pem : Text → Option Text
  /-- `Number.isFinite(new Date(t).getTime())` -/
  isDate : Text → Bool
  /-- `new Date(ms).toISOString()` -/
  isoText : Nat → Text
  /-- `Number(value)`, where that is an integer -/
  number : Json → Option Int
  /-- `process.cwd()` -/
  cwd : Text

/-- How a write of the session store ends: a failure before the rename has not been committed. -/
inductive Saved where
  | ok
  | failed (committed : Bool)
  deriving DecidableEq

/-- A request, with what the handler is given while it serves it. -/
structure Call where
  body : Json
  /-- the header `x-telepty-session-token` -/
  sessionToken : Option Text
  /-- the header `x-telepty-input-policy-capability` -/
  capability : Option Text
  /-- what the principal middleware has verified -/
  accepted : Option Acceptance
  now : Nat
  saved : Saved
  /-- `mailbox.withAcknowledgedCustody(id, event, () => true) === true` -/
  acknowledged : Bool
  /-- `mailbox.initializeCustody(id)` does not throw -/
  custodyReady : Bool
  epoch : Text
  secret : Text
  nonce : Text
  policyCapability : Text
  policyAttempt : Text

structure Response where
  status : Nat
  body : Json

def refuse (status : Nat) (code error : Text) : Response :=
  ⟨status, .obj [("code", .str code), ("error", .str error)]⟩

/-! ## The checks on a request -/

def isControlChar (c : Char) : Bool := c.toNat ≤ 0x1F || (0x7F ≤ c.toNat && c.toNat ≤ 0x9F)

/-- `validSessionId(value)` -/
def validSessionId (t : Text) : Bool := t ≠ [] && byteLength t ≤ 128 && !t.any isControlChar

/-- `readIdentity(body, key)` -/
def readIdentity (body : Json) (key : Text) : Except Text Text :=
  match body with
  | .obj _ =>
    match body.field key with
    | none => .error (key ++ " is required")
    | some value =>
      match value.asText with
      | some t => if validSessionId t then .ok t else .error (("Invalid " : Text) ++ key)
      | none => .error (("Invalid " : Text) ++ key)
  | _ => .error (("Invalid " : Text) ++ key)

def includesText (needle t : Text) : Bool := t.tails.any fun s => needle.isPrefixOf s

/-- `parseExternalApprovalPolicy(value)` -/
def parseExternalApprovalPolicy (host : Host) (value : Option Json) : Except Text (Option Text) :=
  match value with
  | none => .ok none
  | some (.obj members) =>
    match ((Json.obj members).field "public_key_spki").bind Json.asText with
    | some pem =>
      if members.any (fun e => e.1 ≠ "public_key_spki".toList) ∨
          ("-----BEGIN PUBLIC KEY-----" : Text).isPrefixOf pem = false ∨
          includesText "PRIVATE KEY" pem ∨ 8192 < byteLength pem then
        .error "External approval requires an Ed25519 SPKI public key."
      else
        match host.ed25519Pem pem with
        | some key => .ok (some key)
        | none => .error "External approval requires an Ed25519 SPKI public key."
    | none => .error "External approval requires an Ed25519 SPKI public key."
  | some _ => .error "External approval requires an Ed25519 SPKI public key."

/-- `parseInputPolicy(body)` -/
def parseInputPolicy (body : Json) : Except Text (Option Policy) :=
  match body.field "input_policy" with
  | none => .ok none
  | some value =>
    if value.asText = some "user-supervised" then .ok (some .userSupervised)
    else if value.asText = some "guarded" then .ok (some .guarded)
    else .error "input_policy must be user-supervised or guarded"

/-- `validateSessionId(id)` of the mailbox, on a platform other than Windows. -/
def validMailboxId (t : Text) : Bool :=
  t ≠ [] && byteLength t ≤ 128 && !t.any (fun c => isControlChar c || c = '/' || c = '\\') &&
    t ≠ "." && t ≠ ".." &&
    match t with
    | c :: ':' :: _ => !c.isAlpha
    | _ => true

/-- `parseMailboxLease(value)` -/
def parseMailboxLease (value : Option Json) : Except Text Nat :=
  match value with
  | none => .ok 300
  | some (.num n) =>
    if 1 ≤ n ∧ n ≤ 3600 then .ok n.toNat
    else .error "lease_seconds must be an integer between 1 and 3600."
  | some _ => .error "lease_seconds must be an integer between 1 and 3600."

def isSpaceChar (c : Char) : Bool := (codeUnits [c]).all CodeUnit.isSpace

/-- `text.trim()` -/
def trimText (t : Text) : Text :=
  ((t.dropWhile isSpaceChar).reverse.dropWhile isSpaceChar).reverse

/-- `UNIT_MS[unit]` -/
def unitMs (unit : Text) : Option Nat :=
  if unit = "ms" then some 1
  else if unit = "s" then some 1000
  else if unit = "m" then some 60000
  else if unit = "h" then some 3600000
  else if unit = "d" then some 86400000
  else none

/-- `parseDuration(value, { fieldName })`; `null` is the duration `off`. -/
def parseDuration (value : Json) (fieldName : Text) : Except Text (Option Nat) :=
  match value with
  | .null | .str [] => .error (fieldName ++ " is required")
  | .num n =>
    if n < 0 then .error (fieldName ++ " must be a non-negative duration") else .ok (some n.toNat)
  | value =>
    let raw := (trimText (coerced value)).map Char.toLower
    if raw = "off" then .ok none
    else
      let digits := raw.takeWhile Char.isDigit
      match unitMs (raw.dropWhile Char.isDigit), parseNat digits with
      | some ms, some amount =>
        if Interaction.maxSafeInteger < amount then .error (fieldName ++ " is too large")
        else .ok (some (amount * ms))
      | _, _ => .error (fieldName ++ " must be a duration like 30m, 1h, 2d, or off")

/-- `parseOptionalIdleTtl(body)` -/
def parseOptionalIdleTtl (body : Json) : Except Text (Option (Text × Option Nat)) :=
  match body.field "idle_ttl" with
  | none => .ok none
  | some value =>
    let value := if isNull (some value) then .str "off" else value
    (parseDuration value "idle_ttl").map fun ms => some (coerced value, ms)

/-- What the checks on a request have found. -/
structure Checked where
  /-- the request names the instance that it expects -/
  conditionalInstance : Bool
  externalPolicy : Option Text
  inputPolicy : Option Policy
  mailboxRequest : Bool
  cooperative : Bool
  lease : Except Text Nat
  sshRemote : Option SshMetadata
  idleTtl : Option (Text × Option Nat)

/-- The instance that the request expects is the one that the daemon holds. -/
def checkInstance (sessions : OrdMap Text SessionRecord) (id : Text) (body : Json) :
    Except Response Bool :=
  if own body "expected_epoch" || own body "expected_credential_generation" then
    if isEpoch (coercedOrEmpty (body.field "expected_epoch")) = false ∨
        intWithin 1 Interaction.maxSafeInteger (body.field "expected_credential_generation") = false
    then .error (refuse 400 "REGISTRATION_PRECONDITION_INVALID"
      "Both valid instance preconditions are required.")
    else
      match sessions.get? id with
      | some r =>
        if r.sessionEpoch.isSome ∧ (body.field "expected_epoch").bind Json.asText = r.sessionEpoch ∧
            (r.credentialGeneration.any fun n =>
              intWithin n n (body.field "expected_credential_generation")) then .ok true
        else .error (refuse 409 "REGISTRATION_INSTANCE_CHANGED"
          "Expected session instance differs or is unavailable.")
      | none => .error (refuse 409 "REGISTRATION_INSTANCE_CHANGED"
          "Expected session instance differs or is unavailable.")
  else .ok false

def orRefuse {α : Type} (status : Nat) (code : Text) (e : Except Text α) : Except Response α :=
  e.mapError fun error => refuse status code error

/-- The checks that come before the daemon looks whether it holds the session. -/
def checkRequest (host : Host) (sessions : OrdMap Text SessionRecord) (call : Call)
    (sessionId : Text) : Except Response Checked := do
  let body := call.body
  let conditionalInstance ← checkInstance sessions sessionId body
  if own body "require_owner_proof" && !isBool (body.field "require_owner_proof") then
    throw (refuse 400 "INVALID_OWNER_POLICY" "require_owner_proof must be boolean.")
  let externalPolicy ← orRefuse 400 "INVALID_APPROVAL_POLICY"
    (parseExternalApprovalPolicy host (body.field "external_approval_policy"))
  let inputPolicy ← orRefuse 400 "INVALID_INPUT_POLICY" (parseInputPolicy body)
  let mailboxRequest := (body.field "delivery_type").bind Json.asText = some "mailbox".toList
  if own body "cooperative_handoff" && !isBool (body.field "cooperative_handoff") then
    throw ⟨400, .obj [("code", .str "HANDOFF_INVALID_REQUEST")]⟩
  let cooperative := Interaction.isTrue body "cooperative_handoff"
  if cooperative && (verifiedOwningPrincipal call.accepted).isNone then
    throw ⟨403, .obj [("code", .str "HANDOFF_PRINCIPAL_REQUIRED")]⟩
  if mailboxRequest && !validMailboxId sessionId then
    throw (refuse 400 "INVALID_SESSION_ID" "Invalid mailbox session identifier.")
  let lease := parseMailboxLease (body.field "lease_seconds")
  if mailboxRequest || own body "lease_seconds" then
    let _ ← orRefuse 400 "INVALID_LEASE" lease
  if mailboxRequest && (truthy (member body "delivery") || truthy (member body "delivery_endpoint"))
  then throw (refuse 400 "INVALID_DELIVERY" "Mailbox sessions do not accept delivery endpoints.")
  let sshRemote ← orRefuse 400 "INVALID_SSH_METADATA" (validateSshMetadata (body.field "ssh_remote"))
  if sshRemote.isSome && (body.field "command").bind Json.asText ≠ some "ssh".toList then
    throw (refuse 400 "INVALID_SSH_METADATA" "SSH transport command must be ssh.")
  let idleTtl ← orRefuse 400 "INVALID_IDLE_TTL" (parseOptionalIdleTtl body)
  if Interaction.isTrue body "create_only" && sessions.has sessionId then
    throw (refuse 409 "SESSION_EXISTS" "Session already exists; create_only refused it unchanged.")
  return ⟨conditionalInstance, externalPolicy, inputPolicy, mailboxRequest, cooperative,
    lease, sshRemote, idleTtl⟩

/-! ## The input policy -/

/-- What is known of a caller that requests an input policy. -/
structure PolicyRequest where
  policy : Policy
  principal : Option AuthPrincipal
  bearer : Option Bearer
  sessionId : Text
  /-- the session is one that the daemon holds -/
  existing : Bool
  credentialed : Bool
  hasCredential : Bool
  external : Bool
  sshRemote : Bool
  wrapped : Bool
  capabilityProved : Bool
  ownerReissue : Bool

/-- The answer: the source of the grant and whether the capability is issued anew, or a code. -/
abbrev PolicyGrant := Except Text (Text × Bool)

/-- `authorizeInputPolicy(request)` -/
def authorizeInputPolicy (r : PolicyRequest) : PolicyGrant :=
  if r.existing && r.hasCredential && !r.credentialed then .error "SESSION_CREDENTIAL_REQUIRED"
  else if r.policy ≠ .userSupervised then .ok ("registration", false)
  else if r.external || r.sshRemote || !r.wrapped then .error "INPUT_POLICY_UNSUPPORTED"
  else if r.principal.any fun p => p.authority ≠ "operator".toList then
    .error "INPUT_POLICY_OPERATOR_REQUIRED"
  else if r.bearer.any fun b => b.sid ≠ r.sessionId then .error "INPUT_POLICY_SESSION_BEARER"
  else if !r.existing && r.bearer.isSome then .error "INPUT_POLICY_SESSION_BEARER"
  else if r.existing && !r.capabilityProved && !r.ownerReissue then
    .error "INPUT_POLICY_CAPABILITY_REQUIRED"
  else if !r.principal.any fun p => p.source = "ed25519".toList && p.authority = "operator".toList
  then .error "INPUT_POLICY_OPERATOR_REQUIRED"
  else if r.existing && !r.hasCredential then .error "INPUT_POLICY_CREDENTIAL_REQUIRED"
  else .ok ("operator_principal_registration", r.existing && !r.capabilityProved && r.ownerReissue)

def policyText : Policy → Text
  | .userSupervised => "user-supervised"
  | .guarded => "guarded"

/-- `grant && !grant.ok ? grant.code : null` -/
def refusedCode : Option PolicyGrant → Json
  | some (.error code) => .str code
  | _ => .null

/-- `policyResponse(inputPolicy, grant, capability)` -/
def policyResponse (policy : Option Policy) (grant : Option PolicyGrant)
    (capability : Option Text) : List (Text × Json) :=
  match policy with
  | none => []
  | some policy =>
    ([("input_policy_requested", Json.str (policyText policy)),
      ("input_policy_pending", Json.bool (grant.any (·.isOk) && policy = .userSupervised)),
      ("input_policy_refused", refusedCode grant)] : List (Text × Json)) ++
      capability.toList.map fun c => (("input_policy_capability" : Text), Json.str c)

/-! ## The store of the sessions -/

/-- What the daemon holds, and what its session store holds. -/
structure Context where
  /-- the `sessions` object -/
  sessions : OrdMap Text SessionRecord
  index : CredentialStore
  /-- `sidNonces` -/
  nonces : OrdMap Text Text
  /-- the value of `sessions.json` -/
  file : Json

/-! ## Re-registration -/

/-- The principal of the presented bearer, where one is presented. -/
def presented (host : Host) (reg : Context) (call : Call) : Option Bearer :=
  reg.index.verify host.digest (call.sessionToken.filter (· ≠ []))

/-- The bearer is the current credential of the record. -/
def provesRecord (r : SessionRecord) (b : Option Bearer) : Bool :=
  b.any fun p => p.sid = r.id && some p.epoch = r.sessionEpoch && p.generation = r.generationOrOne

/-- The fences in front of a re-registration. -/
def reregisterRefusal (host : Host) (reg : Context) (call : Call) (r : SessionRecord) :
    Option Response :=
  if r.isClosing then some (refuse 409 "SESSION_CLOSING" "Session is closing")
  else if own call.body "external_approval_policy" then
    some (refuse 409 "APPROVAL_POLICY_IMMUTABLE"
      "External approval policy is immutable for this session instance.")
  else if own call.body "require_owner_proof" &&
      Interaction.isTrue call.body "require_owner_proof" ≠ r.requireOwnerProof then
    some (refuse 409 "OWNER_POLICY_IMMUTABLE" "Owner policy is immutable for this session instance.")
  else if r.requireOwnerProof && !provesRecord r (reg.index.verify host.digest call.sessionToken) then
    some (refuse 403 "SESSION_CREDENTIAL_REQUIRED" "Current session credential is required.")
  else if activeHandoff r then some ⟨409, .obj [("code", .str "HANDOFF_FENCED")]⟩
  else none

/-- The persisted owner may have the capability issued anew. -/
def ownerReissue (host : Host) (reg : Context) (call : Call) (policy : Policy) (r : SessionRecord) :
    Bool :=
  policy = .userSupervised &&
    (call.accepted.any fun a =>
      a.principal.source = "ed25519".toList && a.principal.authority = "operator".toList &&
        a.action = "session.register".toList && a.target = r.id &&
        (r.owningPrincipal.any fun p => p.id = a.principal.id && p.audience = a.principal.audience) &&
        r.sessionEpoch.isSome && a.sessionEpoch = r.sessionEpoch) &&
    provesRecord r (presented host reg call) &&
    (Session.currentGrant r.policyRecord).1.isNone &&
    r.restoredFromPersistence && r.supervisionRestorable

/-- What the route answers to a requested input policy of a session that it holds. -/
def reregisterGrant (host : Host) (reg : Context) (call : Call) (c : Checked) (r : SessionRecord)
    (credentialed : Bool) : Option PolicyGrant :=
  c.inputPolicy.map fun policy =>
    authorizeInputPolicy
      { policy := policy, principal := call.accepted.map (·.principal)
        bearer := presented host reg call, sessionId := r.id, existing := true
        credentialed := credentialed, hasCredential := reg.index.hasCredential r.id
        external := r.externalApprovalPolicy.isSome
        sshRemote := r.sshRemote.isSome || c.sshRemote.isSome
        wrapped := r.hasType "wrapped" && !c.mailboxRequest &&
          (!own call.body "delivery_type" || isTextIn ["wrapped"] (call.body.field "delivery_type"))
        capabilityProved :=
          (Session.verifyInputPolicyCapability host.digest call.capability r.policyRecord).1.isSome
        ownerReissue := ownerReissue host reg call policy r }

/-- The request touches what the transferred messages of a handoff are delivered by. -/
def touchesDelivery (body : Json) : Bool :=
  own body "delivery_type" || own body "delivery" || own body "delivery_endpoint" ||
    own body "ssh_remote" || Interaction.isTrue body "provenance_capable"

/-- The metadata that any caller may change. -/
def describe (host : Host) (body : Json) (r : SessionRecord) : SessionRecord :=
  { r with
    command := orKeep (body.field "command") r.command
    cwd := orKeep (some ((body.field "cwd").getD (.str host.cwd))) r.cwd
    backend := orKeep (body.field "backend") r.backend
    cmuxWorkspaceId := orKeep (body.field "cmux_workspace_id") r.cmuxWorkspaceId
    cmuxSurfaceId := orKeep (body.field "cmux_surface_id") r.cmuxSurfaceId
    termProgram := if own body "term_program" then orNull (body.field "term_program")
      else r.termProgram
    term := if own body "term" then orNull (body.field "term") else r.term
    type := orKeep (body.field "delivery_type") r.type }

/-- The delivery of the session's injects, which only its holder may redirect. -/
def redirect (body : Json) (ssh : Option SshMetadata) (r : SessionRecord) : SessionRecord :=
  let r := { r with
    sshRemote := ssh.or r.sshRemote
    deliveryEndpoint := orKeep (body.field "delivery_endpoint") r.deliveryEndpoint }
  if truthy (member body "delivery") then
    { r with
      delivery := member body "delivery"
      deliveryEndpoint := if truthy r.deliveryEndpoint then r.deliveryEndpoint
        else orKeep ((member body "delivery").field "address") r.deliveryEndpoint }
  else r

/-- What a re-registration makes of the record. -/
def reregistered (host : Host) (call : Call) (c : Checked) (mayRedirect : Bool)
    (grant : Option PolicyGrant) (r : SessionRecord) : SessionRecord :=
  let body := call.body
  let iso := host.isoText call.now
  let r := describe host body r
  let r := if mayRedirect then redirect body c.sshRemote r else r
  let r := if isTextIn ["aterm"] (body.field "delivery_type") then
      markSessionConnected iso { r with ready := true } else r
  let r := if mayRedirect then applyProcessMetadata host.number body r else r
  let r := applyIdleTtlMetadata c.idleTtl r
  let r := applyTimestampMetadata host.isDate body r
  let r := initializeBootstrapState iso r
  let r := { r with provenanceCapable :=
    r.provenanceCapable || Interaction.isTrue body "provenance_capable" }
  match grant, c.inputPolicy with
  | some (.ok (source, reissue)), some policy =>
    let p := r.policyRecord
    let p := if reissue then
        Session.mintInputPolicyCapability host.digest call.policyCapability call.policyAttempt p
      else p
    r.withPolicy (Session.requestInputPolicy policy source call.now .reregistration p)
  | _, _ => r

/-- The grant brought a fresh capability. -/
def reissued : Option PolicyGrant → Bool
  | some (.ok (_, reissue)) => reissue
  | _ => false

/-- The record after a write that was not committed: its members as they were. The map of the grants
is not among them. -/
def rolledBack (before after : SessionRecord) : SessionRecord := { before with grant := after.grant }

/-- A write of the session store was committed, whether or not it is reported as saved. -/
def Saved.committed : Saved → Bool
  | .ok => true
  | .failed committed => committed

/-- `persistSessions()` -/
def Context.persist (host : Host) (saved : Saved) (reg : Context) : Context :=
  if saved.committed then { reg with file := serializePersistedSessions host.isDate reg.sessions }
  else reg

def Context.put (id : Text) (r : SessionRecord) (reg : Context) : Context :=
  { reg with sessions := reg.sessions.set id r }

def storeFailed : Response :=
  ⟨503, .obj [("error", .str "Session store write failed"),
    ("code", .str "SESSION_STORE_WRITE_FAILED")]⟩

/-- `renewMailboxLease(session, leaseSeconds, persistSessions, now)` for a session that is open. -/
def renewMailboxLease (host : Host) (call : Call) (seconds : Nat) (id : Text) (r : SessionRecord)
    (reg : Context) : Context × Response :=
  let iso := host.isoText call.now
  let renewed := { r with
    leaseExpiresAt := some (call.now + seconds * 1000)
    lastActivityAt := some iso
    lastConnectedAt := some iso
    lastDisconnectedAt := none }
  let saved := (reg.put id renewed).persist host call.saved
  if call.saved = .ok then
    (saved, ⟨200, .obj [("success", .bool true), ("session_id", .str r.id),
      ("type", .str "mailbox"), ("lease_expires_at", .num (call.now + seconds * 1000)),
      ("reregistered", .bool true)]⟩)
  else
    (if call.saved.committed then saved else reg, ⟨503, .obj [("success", .bool false),
      ("code", .str "SESSION_STORE_WRITE_FAILED"), ("error", .str "Session store write failed."),
      ("reregistered", .bool false)]⟩)

/-- The branch of the handler for a mailbox. -/
def reregisterMailbox (host : Host) (call : Call) (c : Checked) (credentialed : Bool) (id : Text)
    (r : SessionRecord) (reg : Context) : Context × Response :=
  if !credentialed then
    (reg, refuse 403 "SESSION_CREDENTIAL_REQUIRED" "Current session credential is required.")
  else if !r.hasType "mailbox" ||
      (truthy (member call.body "delivery_type") && !c.mailboxRequest) then
    (reg, refuse 409 "DELIVERY_TYPE_CONFLICT"
      "Mailbox session type cannot be changed by re-registration.")
  else
    match c.lease with
    | .error error => (reg, refuse 400 "INVALID_LEASE" error)
    | .ok seconds => renewMailboxLease host call seconds id r reg

/-- The record that the handler leaves, from what stood before and what it made of it. -/
def settledRecord (saved : Saved) (reissue : Bool) (before after : SessionRecord) : SessionRecord :=
  if saved = .ok then after
  else
    let r := if saved.committed then after else rolledBack before after
    if reissue then { r with grant := none, inputPolicyPending := none } else r

def reregisteredBody (call : Call) (c : Checked) (grant : Option PolicyGrant) (id : Text)
    (r : SessionRecord) : Json :=
  .obj (([("session_id", Json.str id), ("type", r.type), ("command", r.command),
    ("cwd", r.cwd), ("reregistered", .bool true),
    ("session_epoch", textOrNull r.sessionEpoch)] : List (Text × Json)) ++
    (if c.conditionalInstance then
      ([("registration_instance_matched", Json.bool true),
        ("credential_generation", (r.credentialGeneration.elim .null fun n => .num n))] :
        List (Text × Json)) else []) ++
    ([("provenance_capable", Json.bool r.provenanceCapable)] : List (Text × Json)) ++
    policyResponse c.inputPolicy grant
      (if reissued grant then some call.policyCapability else none))

/-- The branch of the handler for a session that the daemon holds. -/
def reregister (host : Host) (reg : Context) (call : Call) (c : Checked) (id : Text)
    (r : SessionRecord) : Context × Response :=
  match reregisterRefusal host reg call r with
  | some response => (reg, response)
  | none =>
    let credentialed := reg.index.matchesSid host.digest r.id call.sessionToken
    let grant := reregisterGrant host reg call c r credentialed
    -- reading the grant of the session drops one that is no longer current
    let r := if c.inputPolicy.isSome then r.withPolicy (Session.currentGrant r.policyRecord).2 else r
    let reg := reg.put id r
    if touchesDelivery call.body && pendingNamespaceReserved call.acknowledged r then
      (reg, ⟨409, .obj [("code", .str "HANDOFF_FENCED")]⟩)
    else if r.hasType "mailbox" || c.mailboxRequest then
      reregisterMailbox host call c credentialed id r reg
    else
      let after := reregistered host call c (credentialed || !reg.index.hasCredential r.id) grant r
      let saved := (reg.put id after).persist host call.saved
      (saved.put id (settledRecord call.saved (reissued grant) r after),
        if call.saved = .ok then ⟨200, reregisteredBody call c grant id after⟩ else storeFailed)

/-! ## Registration -/

/-- What the route answers to a requested input policy of a new instance. -/
def registerGrant (host : Host) (reg : Context) (call : Call) (c : Checked) (id : Text) :
    Option PolicyGrant :=
  c.inputPolicy.map fun policy =>
    authorizeInputPolicy
      { policy := policy, principal := call.accepted.map (·.principal)
        bearer := presented host reg call, sessionId := id, existing := false
        credentialed := false, hasCredential := false, external := c.externalPolicy.isSome
        sshRemote := c.sshRemote.isSome
        wrapped := !truthy (member call.body "delivery_type") ||
          isTextIn ["wrapped"] (call.body.field "delivery_type")
        capabilityProved := false, ownerReissue := false }

/-- `sessionRecord` as the handler first makes it. -/
def freshRecord (host : Host) (call : Call) (c : Checked) (id : Text) : SessionRecord :=
  let body := call.body
  let iso := host.isoText call.now
  let connected := c.mailboxRequest || isTextIn ["aterm"] (body.field "delivery_type")
  let delivery := member body "delivery"
  { id := id
    type := orKeep (body.field "delivery_type") (.str "wrapped")
    owningPrincipal := verifiedOwningPrincipal call.accepted
    externalApprovalPolicy := c.externalPolicy
    requireOwnerProof := Interaction.isTrue body "require_owner_proof" || c.externalPolicy.isSome
    authorityAudit := none
    authorityAuditInvalid := false
    leaseExpiresAt := if c.mailboxRequest then
        some (call.now + c.lease.toOption.getD 0 * 1000) else none
    command := orKeep (body.field "command") (.str "wrapped")
    cwd := (body.field "cwd").getD (.str host.cwd)
    sshRemote := c.sshRemote
    backend := if c.mailboxRequest then .str "mailbox" else orKeep (body.field "backend") (.str "kitty")
    cmuxWorkspaceId := orNull (body.field "cmux_workspace_id")
    cmuxSurfaceId := orNull (body.field "cmux_surface_id")
    termProgram := orNull (body.field "term_program")
    term := orNull (body.field "term")
    delivery := orNull (some delivery)
    deliveryEndpoint := orKeep (body.field "delivery_endpoint")
      (if truthy delivery then orNull (delivery.field "address") else .null)
    createdAt := iso
    lastActivityAt := some iso
    lastConnectedAt := if connected then some iso else none
    lastDisconnectedAt := if connected then none else some iso
    lastStateReportAt := none
    stateReport := .null
    idleTtl := c.idleTtl.map (·.1)
    idleTtlMs := c.idleTtl.bind (·.2)
    cooperativeHandoffCapable := c.cooperative
    cooperativeHandoff := none
    cooperativeHandoffAudit := none
    ownerPid := if c.mailboxRequest then none else positiveInt host.number (body.field "owner_pid")
    ptyPid := if c.mailboxRequest then none else positiveInt host.number (body.field "pty_pid")
    sessionEpoch := some call.epoch
    credentialVerifier := some (verifierFor host.digest (bearerOf call.epoch call.secret))
    credentialGeneration := some 1
    bracketedPasteCapable := none
    provenanceCapable := Interaction.isTrue body "provenance_capable"
    provenanceNonce := some call.nonce
    inputPolicyPending := none
    inputPolicy := none
    supervisionRestorable := false
    grant := none
    restoredFromPersistence := false
    isClosing := false
    closeDurabilityPending := false
    ready := true
    bootstrapReady := false
    bootstrapReadyAt := none
    bootstrapReadyReason := none
    interactionOwnerGeneration := none
    ownerToken := none
    sessionEpochProved := none
    ownerWs := none
    ptyProcess := none }

/-- The grant lets the session be supervised by its user. -/
def mints (c : Checked) (grant : Option PolicyGrant) : Bool :=
  grant.any (·.isOk) && c.inputPolicy = some .userSupervised

/-- The record of a new instance when it is stored. -/
def newRecord (host : Host) (call : Call) (c : Checked) (grant : Option PolicyGrant) (id : Text) :
    SessionRecord :=
  let r := freshRecord host call c id
  let r := if mints c grant then
      r.withPolicy (Session.mintInputPolicyCapability host.digest call.policyCapability
        call.policyAttempt r.policyRecord)
    else r
  let r := match grant, c.inputPolicy with
    | some (.ok (source, _)), some policy =>
      r.withPolicy (Session.requestInputPolicy policy source call.now .newInstance r.policyRecord)
    | _, _ => r
  applyTimestampMetadata host.isDate call.body (initializeBootstrapState (host.isoText call.now) r)

def registeredBody (call : Call) (c : Checked) (grant : Option PolicyGrant) (id : Text)
    (r : SessionRecord) : Json :=
  .obj (([("session_id", Json.str id)] : List (Text × Json)) ++
    (r.owningPrincipal.toList.map fun p => (("owningPrincipal" : Text), p.toJson)) ++
    ([("type", .str (if c.mailboxRequest then "mailbox" else "wrapped"))] : List (Text × Json)) ++
    (if c.mailboxRequest then
      r.leaseExpiresAt.toList.map fun expires => (("lease_expires_at" : Text), Json.num expires) else []) ++
    ([("command", r.command), ("cwd", r.cwd),
      ("session_token", .str (bearerOf call.epoch call.secret)), ("session_epoch", .str call.epoch),
      ("credential_generation", .num 1), ("session_nonce", textOrNull r.provenanceNonce),
      ("provenance_capable", .bool r.provenanceCapable)] : List (Text × Json)) ++
    policyResponse c.inputPolicy grant
      (if mints c grant then some call.policyCapability else none))

/-- The branch of the handler for a new instance. -/
def registerNew (host : Host) (reg : Context) (call : Call) (c : Checked) (id : Text) :
    Context × Response :=
  let grant := registerGrant host reg call c id
  if (c.mailboxRequest || c.cooperative) && !call.custodyReady then
    (reg, refuse 503 "MAILBOX_CUSTODY_UNAVAILABLE" "Mailbox custody initialization failed.")
  else
    let r := newRecord host call c grant id
    let issued := { reg with
      index := reg.index.issue host.digest id call.epoch call.secret
      nonces := reg.nonces.set id call.nonce }
    let saved := (issued.put id r).persist host call.saved
    if call.saved = .ok then (saved, ⟨201, registeredBody call c grant id r⟩)
    else if call.saved.committed then (saved, storeFailed)
    else
      ({ saved with
          sessions := saved.sessions.delete id
          index := saved.index.revoke id
          nonces := saved.nonces.delete id }, storeFailed)

/-- **`POST /api/sessions/register`** -/
def register (host : Host) (reg : Context) (call : Call) : Context × Response :=
  match readIdentity call.body "session_id" with
  | .error error => (reg, ⟨400, .obj [("error", .str error)]⟩)
  | .ok id =>
    match checkRequest host reg.sessions call id with
    | .error response => (reg, response)
    | .ok c =>
      match reg.sessions.get? id with
      | some r => reregister host reg call c id r
      | none => registerNew host reg call c id

/-! ## A daemon that was just started -/

/-- A platform whose keys, dates and numbers are those of its own texts. -/
def plainHost : Host :=
  { digest := fun t => (Sha256.digest (encodeText t)).map UInt8.ofNat
    ed25519Pem := fun _ => none
    isDate := fun t => ("1970-01-01T" : Text).isPrefixOf t
    isoText := fun _ => "1970-01-01T00:00:00.000Z"
    number := fun
      | .num n => some n
      | .bool b => some b.toNat
      | .str t => (parseNat t).map Int.ofNat
      | .null => some 0
      | _ => none
    cwd := "/work" }

def Context.started : Context :=
  { sessions := .empty, index := .empty, nonces := .empty, file := .obj [] }

/-- A request without headers, served at the epoch. -/
def plainCall (body : List (Text × Json)) : Call :=
  { body := .obj body, sessionToken := none, capability := none, accepted := none, now := 0
    saved := .ok, acknowledged := false, custodyReady := true
    epoch := "AAAAAAAAAAAAAAAAAAAAAA", secret := "s", nonce := "n", policyCapability := "c"
    policyAttempt := "a" }

/-- The daemon once it has registered `claude` under the name `s`. -/
def Context.launched : Context :=
  (register plainHost .started (plainCall [("session_id", .str "s"), ("command", .str "claude")])).1

end Telepty.Registry
