import Telepty.Session.Register

/-!
# The life of a record

What else moves a session record and its credential: a rename, the takeover of a mailbox whose lease
has run out, the two ways in which a session is destroyed, and a restart of the daemon.

The alias that a rename resolves, and the moment at which a session counts as disconnected for long
enough, are left to the caller.
-/

namespace Telepty.Registry

open Infra
open Interaction (truthy own member)
open Principal (coercedOrEmpty Acceptance)

/-! ## Renaming -/

structure RenameCall where
  body : Json
  /-- the id in the path -/
  requested : Text
  /-- `resolveSessionAlias(requested)` -/
  resolved : Option Text
  sessionToken : Option Text
  acknowledged : Bool
  saved : Saved

/-- The fences in front of a rename. -/
def renameRefusal (host : Host) (reg : Context) (call : RenameCall) (id : Text) (r : SessionRecord) :
    Option Response :=
  if activeHandoff r then some ⟨409, .obj [("code", .str "HANDOFF_FENCED")]⟩
  else if r.isClosing then some (refuse 409 "SESSION_CLOSING" "Session is closing")
  else if r.requireOwnerProof && call.requested ≠ id then
    some ⟨404, .obj [("error", .str "Exact session id required.")]⟩
  else if r.requireOwnerProof &&
      !((reg.index.verify host.digest call.sessionToken).any fun p =>
        p.sid = id && some p.epoch = r.sessionEpoch && p.generation = r.generationOrOne) then
    some (refuse 403 "SESSION_CREDENTIAL_REQUIRED"
      "Protected rename requires the current session credential.")
  else if pendingNamespaceReserved call.acknowledged r then
    some ⟨409, .obj [("code", .str "HANDOFF_FENCED")]⟩
  else none

/-- The record stands under the new name. -/
def Context.move (old new : Text) (r : SessionRecord) (reg : Context) : Context :=
  { reg with sessions := (reg.sessions.set new { r with id := new }).delete old }

/-- What follows a rename that reached the store. -/
def Context.follow (old new : Text) (reg : Context) : Context :=
  { reg with
    index := reg.index.rename old new
    nonces := match reg.nonces.get? old with
      | some nonce => (reg.nonces.delete old).set new nonce
      | none => reg.nonces }

/-- `PATCH /api/sessions/:id` -/
def renameSession (host : Host) (reg : Context) (call : RenameCall) : Context × Response :=
  match call.resolved.bind fun id => (reg.sessions.get? id).map fun r => (id, r) with
  | none => (reg, ⟨404, .obj [("error", .str "Session not found"),
      ("requested", .str call.requested)]⟩)
  | some (id, r) =>
    match renameRefusal host reg call id r with
    | some response => (reg, response)
    | none =>
      match readIdentity call.body "new_id" with
      | .error error => (reg, ⟨400, .obj [("error", .str error)]⟩)
      | .ok newId =>
        if reg.sessions.has newId then
          (reg, ⟨409, .obj [("error", .str (("Session ID '" : Text) ++ newId ++
            "' is already in use."))]⟩)
        else
          let moved := (reg.move id newId r).persist host call.saved
          if call.saved = .ok then
            (moved.follow id newId, ⟨200, .obj [("success", .bool true),
              ("old_id", .str id), ("new_id", .str newId)]⟩)
          else if call.saved.committed then (moved.follow id newId, storeFailed)
          else
            ({ moved with sessions := (moved.sessions.delete newId).set id { r with id := id } },
              storeFailed)

/-! ## Takeover -/

structure TakeoverCall where
  id : Text
  body : Json
  accepted : Option Acceptance
  /-- `now()` in front of the mailbox, and inside it -/
  seen : Nat
  now : Nat
  /-- how many messages the mailbox holds, where `withCustodySnapshot` does not throw -/
  custody : Option Nat
  saved : Saved
  epoch : Text
  secret : Text
  nonce : Text

def denied (status : Nat) (code : Text) : Response :=
  ⟨status, .obj [("success", .bool false), ("code", .str code)]⟩

/-- `verifiedRequestPrincipal(req, { action: 'session.takeover', target: id })` -/
def takeoverPrincipal (call : TakeoverCall) : Option Principal.AuthPrincipal :=
  (call.accepted.filter fun a =>
    a.action = "session.takeover".toList && a.target = call.id).map (·.principal)

def isVerifier (t : Text) : Bool :=
  t.length = 64 && t.all fun c => c.isDigit || ('a' ≤ c && c ≤ 'f')

/-- The record has no process and no owner socket. -/
def unattended (r : SessionRecord) : Bool :=
  r.ownerWs.isNone && r.ptyProcess.isNone && natOrNull r.ownerPid matches .null &&
    natOrNull r.ptyPid matches .null

/-- The credential is one that a takeover may supersede. -/
def supersedable (r : SessionRecord) : Bool :=
  r.sessionEpoch.any isEpoch && r.credentialVerifier.any isVerifier &&
    r.credentialGeneration.any fun (n : Nat) => 1 ≤ n && (n : Int) < Interaction.maxSafeInteger

/-- The fences in front of a takeover: the lease that it is to get and the audit so far, or the
refusal. -/
def takeoverChecks (host : Host) (call : TakeoverCall) (principal : Principal.AuthPrincipal)
    (r : SessionRecord) : Except Response (Nat × List Json) :=
  let expected := (call.body.field "expected_epoch").bind Json.asText
  if !(r.owningPrincipal.any fun o => o.id = principal.id && o.audience = principal.audience) then
    .error (denied 403 "TAKEOVER_OWNER_REQUIRED")
  else if r.isClosing then .error (denied 409 "SESSION_CLOSING")
  else if !r.hasType "mailbox" then .error (denied 409 "TAKEOVER_TRANSPORT_UNSUPPORTED")
  else if !unattended r then .error (denied 409 "TAKEOVER_PROCESS_CUSTODY_UNAVAILABLE")
  else if !keysWithin ["expected_epoch", "lease_seconds"] call.body then
    .error (denied 400 "TAKEOVER_INVALID_REQUEST")
  else if expected.isNone || expected ≠ r.sessionEpoch then
    .error (denied 409 "TAKEOVER_EPOCH_CHANGED")
  else if !r.leaseExpiresAt.any (0 ≤ ·) then .error (denied 409 "TAKEOVER_LEASE_UNKNOWN")
  else if r.leaseExpiresAt.any ((call.seen : Int) < ·) then
    .error (denied 409 "TAKEOVER_LEASE_ACTIVE")
  else
    match parseMailboxLease (call.body.field "lease_seconds") with
    | .error _ => .error (denied 400 "INVALID_LEASE")
    | .ok lease =>
      if !supersedable r then .error (denied 409 "TAKEOVER_CREDENTIAL_STATE_INVALID")
      else if r.authorityAuditInvalid then .error (denied 409 "TAKEOVER_AUDIT_INVALID")
      else
        match normalizeAuthorityAudit host.isDate r.authorityAudit with
        | none => .error (denied 409 "TAKEOVER_AUDIT_INVALID")
        | some history => .ok (lease, history.getD [])

/-- The row that a takeover adds to the audit. -/
def takeoverRow (host : Host) (call : TakeoverCall) (principal : Principal.AuthPrincipal)
    (r : SessionRecord) : Json :=
  let generation := r.credentialGeneration.getD 0
  .obj (([("schema", .str "telepty.mailbox-takeover/v1"),
    ("actor", .obj [("id", .str principal.id), ("key_id", .str principal.keyId),
      ("source", .str "ed25519"), ("audience", .str principal.audience)]),
    ("at", .str (host.isoText call.now)), ("previous_epoch", textOrNull r.sessionEpoch),
    ("next_epoch", .str call.epoch), ("previous_generation", .num generation),
    ("next_generation", .num (generation + 1)), ("previous_owner_state", .str "mailbox_lease_expired"),
    ("previous_lease_expires_at", r.leaseExpiresAt.elim .null Json.num), ("pending_count", .num 0),
    ("custody_digest", .str emptyDigest)] : List (Text × Json)))

/-- The record that a takeover makes. -/
def takenOver (host : Host) (call : TakeoverCall) (lease : Nat) (history : List Json) (row : Json)
    (r : SessionRecord) : SessionRecord :=
  let iso := host.isoText call.now
  { r with
    sessionEpoch := some call.epoch
    credentialVerifier := some (verifierFor host.digest (bearerOf call.epoch call.secret))
    credentialGeneration := r.credentialGeneration.map (· + 1)
    provenanceNonce := some call.nonce
    sessionEpochProved := none
    ownerToken := none
    interactionOwnerGeneration := none
    leaseExpiresAt := some (call.now + lease * 1000)
    lastConnectedAt := some iso
    lastDisconnectedAt := none
    lastActivityAt := some iso
    stateReport := .null
    lastStateReportAt := none
    authorityAudit := some (.arr ((history ++ [row]).drop ((history.length + 1) - maxAuthorityEvents))) }

/-- What follows a takeover that reached the store. -/
def Context.reissue (id nonce : Text) (r : SessionRecord) (reg : Context) : Context :=
  { reg with
    index := (reg.index.revoke id).adopt id (orText r.sessionEpoch none)
      (orText r.credentialVerifier none) (generationOrOne r.credentialGeneration)
    nonces := reg.nonces.set id nonce }

/-- `POST /api/sessions/:id/takeover` -/
def takeover (host : Host) (reg : Context) (call : TakeoverCall) : Context × Response :=
  match takeoverPrincipal call with
  | none => (reg, denied 403 "TAKEOVER_PRINCIPAL_REQUIRED")
  | some principal =>
    match reg.sessions.get? call.id with
    | none => (reg, denied 404 "SESSION_NOT_FOUND")
    | some r =>
      match takeoverChecks host call principal r with
      | .error response => (reg, response)
      | .ok (lease, history) =>
        match call.custody with
        | none => (reg, denied 503 "TAKEOVER_CUSTODY_UNAVAILABLE")
        | some pending =>
          if r.leaseExpiresAt.any ((call.now : Int) < ·) then
            (reg, denied 409 "TAKEOVER_LEASE_ACTIVE")
          else if pending ≠ 0 then (reg, denied 409 "TAKEOVER_PENDING_UNPROVEN")
          else
            let row := takeoverRow host call principal r
            let taken := takenOver host call lease history row r
            let saved := (reg.put call.id taken).persist host call.saved
            if call.saved.committed then
              (saved.reissue call.id call.nonce taken,
                if call.saved = .ok then
                  ⟨200, .obj [("success", .bool true), ("session_id", .str call.id),
                    ("type", .str "mailbox"), ("session_epoch", .str call.epoch),
                    ("credential_generation",
                      taken.credentialGeneration.elim .null fun n => .num n),
                    ("session_token", .str (bearerOf call.epoch call.secret)),
                    ("session_nonce", .str call.nonce),
                    ("lease_expires_at", taken.leaseExpiresAt.elim .null Json.num),
                    ("pending", .num 0), ("custody", .str "preserved"), ("audit", row)]⟩
                else denied 503 "SESSION_STORE_WRITE_FAILED")
            else (reg, denied 503 "SESSION_STORE_WRITE_FAILED")

/-! ## Destroying -/

/-- `revokeSessionCredential(sid)` -/
def Context.revoke (id : Text) (reg : Context) : Context :=
  { reg with index := reg.index.revoke id, nonces := reg.nonces.delete id }

/-- `beginDurableSessionClose(id, session)` -/
def beginDurableSessionClose (host : Host) (acknowledged : Bool) (saved : Saved) (id : Text)
    (r : SessionRecord) (reg : Context) : Context × Response :=
  if activeHandoff r || pendingNamespaceReserved acknowledged r then
    (reg, refuse 409 "HANDOFF_FENCED" "Cooperative handoff reserves this instance.")
  else if r.isClosing && !r.closeDurabilityPending then
    (reg, refuse 409 "SESSION_CLOSING" "Session is closing")
  else
    let closing := { r with isClosing := true }
    let written := (reg.put id closing).persist host saved
    if saved = .ok then
      ((written.put id { closing with closeDurabilityPending := false }).revoke id,
        ⟨200, .obj [("success", .bool true)]⟩)
    else
      let failed : Response := ⟨503, .obj [("success", .bool false),
        ("code", .str "SESSION_STORE_WRITE_FAILED"),
        ("error", .str "Session removal was not durably saved; no process action was attempted"),
        ("process_action_attempted", .bool false), ("removal_visible", .bool saved.committed)]⟩
      if !saved.committed && !r.closeDurabilityPending then (reg, failed)
      else (written.put id { closing with closeDurabilityPending := true }, failed)

/-- The end of a teardown: `delete sessions[id]`, where the record is still the one that was closed. -/
def removeClosed (id : Text) (reg : Context) : Context :=
  match reg.sessions.get? id with
  | some r =>
    if r.isClosing && !r.closeDurabilityPending then { reg with sessions := reg.sessions.delete id }
    else reg
  | none => reg

/-- The removal of a session that was disconnected for too long. -/
def collectStale (host : Host) (saved : Saved) (id : Text) (reg : Context) : Context :=
  match reg.sessions.get? id with
  | some r =>
    if (r.hasType "wrapped" || r.hasType "aterm") && r.ownerWs.isNone then
      let removed := ({ reg with sessions := reg.sessions.delete id }).persist host saved
      if saved.committed then removed.revoke id else removed.put id r
    else reg
  | none => reg

/-! ## Restarting -/

/-- What the start of the daemon makes of one entry of the session store. -/
def restoreEntry (host : Host) (nowIso : Text) (reg : Context) (member : Text × Json) : Context :=
  let (id, entry) := member
  if !isSafeRegisteredSessionId id then reg
  else
    match buildRestoredWrappedSession host.isDate host.cwd nowIso id entry with
    | none => reg
    | some r =>
      { reg with
        sessions := reg.sessions.set id (initializeBootstrapState nowIso r)
        index := reg.index.adopt id (textAt entry "sessionEpoch") (textAt entry "credentialVerifier")
          (generationOrOne (natAt entry "credentialGeneration")) }

/-- A daemon that starts over the session store of its predecessor. -/
def restart (host : Host) (now : Nat) (reg : Context) : Context :=
  let fresh : Context := { Context.started with file := reg.file }
  match reg.file with
  | .obj members => members.foldl (restoreEntry host (host.isoText now)) fresh
  | _ => fresh

end Telepty.Registry
