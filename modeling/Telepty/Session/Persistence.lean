import Telepty.Infra.Members
import Telepty.Session.Handoff

/-!
# The session store

What `sessions.json` keeps of the records and what a restart rebuilds from it. The writer and the
reader name the members one by one, each with its own defaults; a member that the writer leaves out
is absent from the entry.

The reader takes a member of another type than the writer gives it as absent.
-/

namespace Telepty.Registry

open Infra
open Interaction (truthy own)

/-! ## Defaults -/

/-- `if (value) old = value` -/
def orKeep (value : Option Json) (old : Json) : Json :=
  match value with
  | some v => if truthy v then v else old
  | none => old

/-- `value || null` -/
def orNull (value : Option Json) : Json := orKeep value .null

/-- `text || null` -/
def textOrNull (t : Option Text) : Json := (orText t none).elim .null Json.str

/-- `n || null` -/
def natOrNull (n : Option Nat) : Json :=
  match n with
  | none | some 0 => .null
  | some n => .num n

/-- `p ? { name: true } : {}` -/
def whenTrue (p : Bool) : Option Json := if p then some (.bool true) else none

/-- `Number(generation) || 1` -/
def generationOrOne (generation : Option Nat) : Nat :=
  match generation with
  | none | some 0 => 1
  | some n => n

/-! ## Writing -/

/-- The credential that a record or an entry holds: the epoch, the verifier and the generation. -/
def credentialOf (epoch verifier : Option Text) (generation : Option Nat) :
    Option (Text × Text × Nat) :=
  match orText epoch none, orText verifier none with
  | some e, some v => some (e, v, generationOrOne generation)
  | _, _ => none

/-- What `normalizeAuthorityAudit` leaves of an audit, where it leaves rows. -/
def auditRows (isDate : Text → Bool) (audit : Option Json) : Option Json :=
  match normalizeAuthorityAudit isDate audit with
  | some (some (row :: rows)) => some (.arr (row :: rows))
  | _ => none

/-- The audit is marked invalid, or it is not one. -/
def auditInvalid (isDate : Text → Bool) (marked : Bool) (audit : Option Json) : Bool :=
  marked || (normalizeAuthorityAudit isDate audit).isNone

/-- The policy as `parseExternalApprovalPolicy` makes it. -/
def approvalPolicyJson (pem : Text) : Json :=
  .obj [("public_key_spki", .str pem), ("mode", .str "signed-inject")]

/-- Who the session is and where it runs. -/
def identityMembers (isDate : Text → Bool) (id : Text) (r : SessionRecord) :
    List (Text × Option Json) :=
  [("id", some (.str id)),
   ("owningPrincipal", r.owningPrincipal.map OwningPrincipal.toJson),
   ("authorityAuditInvalid", whenTrue (auditInvalid isDate r.authorityAuditInvalid r.authorityAudit)),
   ("authorityAudit", auditRows isDate r.authorityAudit),
   ("type", some r.type),
   ("externalApprovalPolicy", r.externalApprovalPolicy.map approvalPolicyJson),
   ("requireOwnerProof", whenTrue r.requireOwnerProof),
   ("command", some r.command),
   ("sshRemote", r.sshRemote.map (·.value)),
   ("cwd", some r.cwd),
   ("backend", some (orNull (some r.backend))),
   ("cmuxWorkspaceId", some (orNull (some r.cmuxWorkspaceId))),
   ("cmuxSurfaceId", some (orNull (some r.cmuxSurfaceId))),
   ("termProgram", some (orNull (some r.termProgram))),
   ("term", some (orNull (some r.term))),
   ("delivery", some (orNull (some r.delivery))),
   ("deliveryEndpoint", some (orNull (some r.deliveryEndpoint))),
   ("leaseExpiresAt", if r.hasType "mailbox" then
      some (orNull (r.leaseExpiresAt.map Json.num)) else none)]

/-- Its times, its handoffs, its processes and its credential. -/
def stateMembers (r : SessionRecord) : List (Text × Option Json) :=
  let credential := credentialOf r.sessionEpoch r.credentialVerifier r.credentialGeneration
  [("createdAt", some (.str r.createdAt)),
   ("lastActivityAt", some (textOrNull r.lastActivityAt)),
   ("lastConnectedAt", some (textOrNull r.lastConnectedAt)),
   ("lastDisconnectedAt", some (textOrNull r.lastDisconnectedAt)),
   ("lastStateReportAt", some (textOrNull r.lastStateReportAt)),
   ("stateReport", some (orNull (some r.stateReport))),
   ("idleTtl", some (textOrNull r.idleTtl)),
   ("idleTtlMs", some (r.idleTtlMs.elim .null fun ms => .num ms)),
   ("cooperativeHandoffCapable", whenTrue r.cooperativeHandoffCapable),
   ("cooperativeHandoff", r.cooperativeHandoff),
   ("cooperativeHandoffAudit", r.cooperativeHandoffAudit.filter truthy),
   ("ownerPid", some (natOrNull r.ownerPid)),
   ("ptyPid", some (natOrNull r.ptyPid)),
   ("sessionEpoch", credential.map fun c => .str c.1),
   ("credentialVerifier", credential.map fun c => .str c.2.1),
   ("credentialGeneration", credential.map fun c => .num c.2.2),
   ("bracketedPasteCapable", r.bracketedPasteCapable.map Json.bool),
   ("supervisionRestorable", whenTrue r.supervisionRestorable)]

/-- The members of the entry that `serializePersistedSessions` writes for a record. -/
def persistedMembers (isDate : Text → Bool) (id : Text) (r : SessionRecord) :
    List (Text × Option Json) :=
  identityMembers isDate id r ++ stateMembers r

def persistedEntry (isDate : Text → Bool) (id : Text) (r : SessionRecord) : Json :=
  Json.ofMembers (persistedMembers isDate id r)

/-- `serializePersistedSessions(sessions)` -/
def serializePersistedSessions (isDate : Text → Bool) (sessions : OrdMap Text SessionRecord) : Json :=
  .obj ((sessions.entries.filter fun e => !e.2.isClosing).map fun e =>
    (e.1, persistedEntry isDate e.1 e.2))

/-! ## Reading -/

/-- The text of a member, where it is not empty. -/
def textAt (entry : Json) (k : Text) : Option Text :=
  ((entry.field k).bind Json.asText).filter (· ≠ [])

def natAt (entry : Json) (k : Text) : Option Nat :=
  match entry.field k with
  | some (.num n) => if 0 ≤ n then some n.toNat else none
  | _ => none

/-- `Number.isFinite(entry[k]) ? entry[k] : null` -/
def intAt (entry : Json) (k : Text) : Option Int :=
  match entry.field k with
  | some (.num n) => some n
  | _ => none

def boolAt (entry : Json) (k : Text) : Option Bool :=
  match entry.field k with
  | some (.bool b) => some b
  | _ => none

/-- `entry[k] || default` -/
def memberOr (entry : Json) (k : Text) (default : Json) : Json := orKeep (entry.field k) default

/-- The record that `buildRestoredWrappedSession(id, meta, { cwd, nowIso })` builds; `none` for
`null`. -/
def buildRestoredWrappedSession (isDate : Text → Bool) (cwd nowIso : Text) (id : Text) (entry : Json) :
    Option SessionRecord :=
  if isTextIn ["wrapped", "mailbox"] (entry.field "type") = false then none
  else
    match validateSshMetadata (entry.field "sshRemote") with
    | .error _ => none
    | .ok sshRemote =>
      let policy := (entry.field "externalApprovalPolicy").filter truthy
      let audit := entry.field "authorityAudit"
      let credential := credentialOf (textAt entry "sessionEpoch") (textAt entry "credentialVerifier")
        (natAt entry "credentialGeneration")
      let generation := generationOrOne (natAt entry "credentialGeneration")
      let handoff := restoreHandoffRecord (entry.field "cooperativeHandoff")
        (entry.field "cooperativeHandoffAudit") (textAt entry "sessionEpoch") generation
      let lastActivityAt := textAt entry "lastActivityAt"
      some
        { id := id
          type := (entry.field "type").getD .null
          owningPrincipal := storedOwningPrincipal (entry.field "owningPrincipal")
          externalApprovalPolicy := policy.bind fun p => (p.field "public_key_spki").bind Json.asText
          requireOwnerProof := policy.isSome || Interaction.isTrue entry "requireOwnerProof"
          authorityAudit := auditRows isDate audit
          authorityAuditInvalid :=
            auditInvalid isDate (Interaction.isTrue entry "authorityAuditInvalid") audit
          leaseExpiresAt := if isTextIn ["mailbox"] (entry.field "type") then
              intAt entry "leaseExpiresAt" else none
          command := memberOr entry "command" (.str "wrapped")
          cwd := memberOr entry "cwd" (.str cwd)
          sshRemote := sshRemote
          backend := memberOr entry "backend" (.str "kitty")
          cmuxWorkspaceId := memberOr entry "cmuxWorkspaceId" .null
          cmuxSurfaceId := memberOr entry "cmuxSurfaceId" .null
          termProgram := memberOr entry "termProgram" .null
          term := memberOr entry "term" .null
          -- the reader names neither the delivery nor its endpoint
          delivery := .null
          deliveryEndpoint := .null
          createdAt := (textAt entry "createdAt").getD nowIso
          lastActivityAt := some (lastActivityAt.getD nowIso)
          lastConnectedAt := textAt entry "lastConnectedAt"
          lastDisconnectedAt :=
            some (((textAt entry "lastDisconnectedAt").or lastActivityAt).getD nowIso)
          lastStateReportAt := textAt entry "lastStateReportAt"
          stateReport := memberOr entry "stateReport" .null
          idleTtl := textAt entry "idleTtl"
          idleTtlMs := natAt entry "idleTtlMs"
          cooperativeHandoffCapable := Interaction.isTrue entry "cooperativeHandoffCapable"
          cooperativeHandoff := handoff.1
          cooperativeHandoffAudit := handoff.2
          ownerPid := (natAt entry "ownerPid").filter (· ≠ 0)
          ptyPid := (natAt entry "ptyPid").filter (· ≠ 0)
          sessionEpoch := credential.map (·.1)
          credentialVerifier := credential.map (·.2.1)
          credentialGeneration := credential.map (·.2.2)
          bracketedPasteCapable := boolAt entry "bracketedPasteCapable"
          provenanceCapable := false
          provenanceNonce := none
          inputPolicyPending := none
          inputPolicy := none
          supervisionRestorable := Interaction.isTrue entry "supervisionRestorable"
          grant := none
          restoredFromPersistence := true
          isClosing := false
          closeDurabilityPending := false
          ready := true
          bootstrapReady := false
          bootstrapReadyAt := none
          bootstrapReadyReason := none
          interactionOwnerGeneration := none
          ownerToken := none
          sessionEpochProved := none
          ownerWs := none
          ptyProcess := none }

def reservedSessionIds : List Text := ["__proto__", "constructor", "prototype"]

/-- `isSafeRegisteredSessionId(id)` -/
def isSafeRegisteredSessionId (id : Text) : Bool :=
  id ≠ [] && !id.any (fun c => c = '/' || c = '\\' || c.toNat ≤ 0x1F ||
    (0x7F ≤ c.toNat && c.toNat ≤ 0x9F)) && !id.all (· = '.') && id ∉ reservedSessionIds

end Telepty.Registry
