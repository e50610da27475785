import Telepty.Principal.Proof
import Telepty.Screen.Registry
import Telepty.Session.Credentials
import Telepty.Session.InputPolicy

/-!
# Session records

What the daemon keeps of a session, and the helpers of its routes: the fields that a registration
sets, the checks on what a caller sends, the bootstrap gate.

A member that is absent is `none`; what a caller chose freely stays the JSON value that it sent. The
clients of a session, its output ring and its state reports are left out.
-/

namespace Telepty.Registry

open Infra
open Interaction (truthy own member byteLength utf16Length)
open Principal (coerced coercedOrEmpty identifier AuthPrincipal Acceptance)

/-! ## Principals -/

/-- What `storedOwningPrincipal` lets through; the source is `ed25519`. -/
structure OwningPrincipal where
  id : Text
  audience : Text
  valid : identifier id = true ∧ audience ≠ [] ∧ byteLength audience ≤ 256

/-- `storedOwningPrincipal(value)`, from the members of the value. -/
def owningPrincipalOf (source id audience : Option Text) : Option OwningPrincipal :=
  match source, id, audience with
  | some source, some id, some audience =>
    if h : source = "ed25519".toList ∧ identifier id = true ∧ audience ≠ [] ∧
        byteLength audience ≤ 256 then
      some ⟨id, audience, h.2⟩
    else none
  | _, _, _ => none

/-- `storedOwningPrincipal(value)` -/
def storedOwningPrincipal (value : Option Json) : Option OwningPrincipal :=
  match value with
  | some (.obj members) =>
    let text (k : Text) := ((Json.obj members).field k).bind Json.asText
    owningPrincipalOf (text "source") (text "id") (text "audience")
  | _ => none

/-- `verifiedOwningPrincipal(req)` -/
def verifiedOwningPrincipal (accepted : Option Acceptance) : Option OwningPrincipal :=
  accepted.bind fun a =>
    owningPrincipalOf (some a.principal.source) (some a.principal.id) (some a.principal.audience)

def OwningPrincipal.toJson (p : OwningPrincipal) : Json :=
  .obj [("id", .str p.id), ("source", .str "ed25519"), ("audience", .str p.audience)]

/-! ## SSH metadata -/

def sshFields : List Text :=
  ["target", "port", "agent", "remote_cwd", "uri", "persistent", "resume_requested", "identity",
    "version_status", "remote_shell"]

/-- `text(value, name, max)` of `ssh-session.js`: the error, if there is one. -/
def sshTextError (value : Option Json) (name : Text) (max : Nat) : Option Text :=
  match value.bind Json.asText with
  | some t =>
    if t = [] ∨ max < utf16Length t ∨ t.any (fun c => c.toNat ≤ 0x1F || c.toNat = 0x7F) then
      some (("Invalid " : Text) ++ name ++ ".")
    else none
  | none => some (("Invalid " : Text) ++ name ++ ".")

def isTextIn (names : List Text) (value : Option Json) : Bool :=
  (value.bind Json.asText).any fun t => t ∈ names

def isBool : Option Json → Bool
  | some (.bool _) => true
  | _ => false

def isNull : Option Json → Bool
  | some .null => true
  | _ => false

/-- `Number.isInteger(value)` within the bounds. -/
def intWithin (low high : Int) : Option Json → Bool
  | some (.num n) => low ≤ n && n ≤ high
  | _ => false

/-- What `validateSshMetadata` throws for an object. -/
def sshMetadataError (value : Json) : Option Text :=
  match value with
  | .obj members =>
    if members.any fun e => e.1 ∉ sshFields then some "Invalid SSH metadata field."
    else
      (sshTextError (value.field "target") "SSH target" 255).or <|
      (sshTextError (value.field "uri") "SSH URI" 8192).or <|
      (if isNull (value.field "remote_cwd") then none
        else sshTextError (value.field "remote_cwd") "remote cwd" 4096).or <|
      if intWithin 1 65535 (value.field "port") &&
          (isNull (value.field "agent") ||
            isTextIn ["codex", "claude", "gemini"] (value.field "agent")) &&
          isBool (value.field "persistent") && isBool (value.field "resume_requested") &&
          isTextIn ["operator_declared"] (value.field "identity") &&
          isTextIn ["unsupported"] (value.field "version_status") &&
          isTextIn ["posix"] (value.field "remote_shell") then none
      else some "Invalid SSH metadata."
  | _ => some "Invalid SSH metadata."

/-- SSH metadata that have been validated. -/
structure SshMetadata where
  value : Json
  valid : sshMetadataError value = none

/-- `validateSshMetadata(value)` -/
def validateSshMetadata (value : Option Json) : Except Text (Option SshMetadata) :=
  match value with
  | none | some .null => .ok none
  | some value =>
    match h : sshMetadataError value with
    | none => .ok (some ⟨value, h⟩)
    | some error => .error error

/-! ## Records -/

structure SessionRecord where
  id : Text
  type : Json
  owningPrincipal : Option OwningPrincipal
  /-- `externalApprovalPolicy.public_key_spki` -/
  externalApprovalPolicy : Option Text
  requireOwnerProof : Bool
  authorityAudit : Option Json
  authorityAuditInvalid : Bool
  leaseExpiresAt : Option Int
  command : Json
  cwd : Json
  sshRemote : Option SshMetadata
  backend : Json
  cmuxWorkspaceId : Json
  cmuxSurfaceId : Json
  termProgram : Json
  term : Json
  delivery : Json
  deliveryEndpoint : Json
  createdAt : Text
  lastActivityAt : Option Text
  lastConnectedAt : Option Text
  lastDisconnectedAt : Option Text
  lastStateReportAt : Option Text
  stateReport : Json
  idleTtl : Option Text
  idleTtlMs : Option Nat
  cooperativeHandoffCapable : Bool
  cooperativeHandoff : Option Json
  cooperativeHandoffAudit : Option Json
  ownerPid : Option Nat
  ptyPid : Option Nat
  sessionEpoch : Option Text
  credentialVerifier : Option Text
  credentialGeneration : Option Nat
  bracketedPasteCapable : Option Bool
  provenanceCapable : Bool
  provenanceNonce : Option Text
  inputPolicyPending : Option Session.Pending
  inputPolicy : Option Session.BoundPolicy
  supervisionRestorable : Bool
  /-- the entry of the record in the map of the input-policy grants -/
  grant : Option (Session.Grant (List UInt8))
  restoredFromPersistence : Bool
  isClosing : Bool
  closeDurabilityPending : Bool
  ready : Bool
  bootstrapReady : Bool
  bootstrapReadyAt : Option Text
  bootstrapReadyReason : Option Text
  interactionOwnerGeneration : Option Text
  ownerToken : Option Text
  sessionEpochProved : Option Text
  /-- the socket that owns the session -/
  ownerWs : Option Nat
  ptyProcess : Option Nat

/-- `type === t` -/
def SessionRecord.hasType (r : SessionRecord) (t : Text) : Bool := r.type.asText = some t

/-- What the input policy reads of a record. -/
def SessionRecord.policyRecord (r : SessionRecord) : Session.Record (List UInt8) :=
  { wrapped := r.hasType "wrapped", sshRemote := r.sshRemote.isSome
    externalApprovalPolicy := r.externalApprovalPolicy.isSome, sessionEpoch := r.sessionEpoch
    credentialGeneration := r.credentialGeneration
    interactionOwnerGeneration := r.interactionOwnerGeneration
    inputPolicyPending := r.inputPolicyPending, inputPolicy := r.inputPolicy
    supervisionRestorable := r.supervisionRestorable, grant := r.grant }

/-- The record with what the input policy writes. -/
def SessionRecord.withPolicy (r : SessionRecord) (p : Session.Record (List UInt8)) :
    SessionRecord :=
  { r with
    inputPolicyPending := p.inputPolicyPending
    inputPolicy := p.inputPolicy
    supervisionRestorable := p.supervisionRestorable
    grant := p.grant }

/-- `Number(record.credentialGeneration) || 1` -/
def SessionRecord.generationOrOne (r : SessionRecord) : Nat :=
  match r.credentialGeneration with
  | none | some 0 => 1
  | some n => n

/-! ## Route metadata -/

/-- `isKnownAiCli(command)` -/
def isKnownAiCli (command : Json) : Bool :=
  truthy command && (Screen.lookup (codeUnits (coerced command))).isSome

/-- `isBootstrapGatedSession(session)` -/
def isBootstrapGatedSession (r : SessionRecord) : Bool :=
  r.hasType "wrapped" && isKnownAiCli r.command && !Session.userSupervised r.policyRecord

/-- `x || y` for texts that may be absent. -/
def orText (t : Option Text) (default : Option Text) : Option Text :=
  match t with
  | none | some [] => default
  | t => t

/-- `initializeBootstrapState(session)`; the queue of the session is left out. -/
def initializeBootstrapState (iso : Text) (r : SessionRecord) : SessionRecord :=
  if isBootstrapGatedSession r then
    { r with
      bootstrapReadyAt := orText r.bootstrapReadyAt none
      bootstrapReadyReason := orText r.bootstrapReadyReason none
      ready := r.bootstrapReady }
  else
    { r with
      bootstrapReady := true
      bootstrapReadyAt := orText r.bootstrapReadyAt (some iso)
      bootstrapReadyReason := orText r.bootstrapReadyReason (some "generic_command_compat")
      ready := true }

/-- `markSessionConnected(session)` -/
def markSessionConnected (iso : Text) (r : SessionRecord) : SessionRecord :=
  { r with lastConnectedAt := some iso, lastDisconnectedAt := none }

/-- `Number(value)`, where it is a positive integer; `number` is `Number(value)` where that is an
integer. -/
def positiveInt (number : Json → Option Int) (value : Option Json) : Option Nat :=
  ((value.bind number).filter (0 < ·)).map Int.toNat

/-- `applyProcessMetadata(session, body)` -/
def applyProcessMetadata (number : Json → Option Int) (body : Json) (r : SessionRecord) :
    SessionRecord :=
  { r with
    ownerPid := (positiveInt number (body.field "owner_pid")).or r.ownerPid
    ptyPid := (positiveInt number (body.field "pty_pid")).or r.ptyPid }

/-- `applyIdleTtlMetadata(session, parsedIdleTtl)` -/
def applyIdleTtlMetadata (ttl : Option (Text × Option Nat)) (r : SessionRecord) : SessionRecord :=
  match ttl with
  | none => r
  | some (raw, ms) => { r with idleTtl := some raw, idleTtlMs := ms }

/-- The date of a body's field, where it is one. -/
def dateField (isDate : Text → Bool) (body : Json) (field : Text) : Option Text :=
  match body.field field with
  | none | some .null => none
  | some value => (some (coerced value)).filter fun t => t ≠ [] && isDate t

/-- `applyTimestampMetadata(session, body)` -/
def applyTimestampMetadata (isDate : Text → Bool) (body : Json) (r : SessionRecord) :
    SessionRecord :=
  { r with
    createdAt := (dateField isDate body "created_at").getD r.createdAt
    lastActivityAt := (dateField isDate body "last_activity_at").or r.lastActivityAt }

end Telepty.Registry
