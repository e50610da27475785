import Telepty.Session.Register

/-!
# How a session is reached

What of a record decides where the injects of the session are written, when they are held back and
who may speak for the session. A re-registration by a caller that does not hold the credential is
meant to leave it alone. It does but for two of the descriptive fields: the type is taken from the
request, and the gate is set again by what the command and the type have become.
-/

namespace Telepty.Registry

open Infra
open Interaction (truthy own member)
open Session (currentGrant)

/-- How a session is reached. -/
structure Reach where
  type : Json
  delivery : Json
  deliveryEndpoint : Json
  sshRemote : Option SshMetadata
  ownerPid : Option Nat
  ptyPid : Option Nat
  inputPolicy : Option Session.BoundPolicy
  inputPolicyPending : Option Session.Pending
  supervisionRestorable : Bool
  /-- `currentGrant(session)` -/
  grant : Option (Session.Grant (List UInt8))
  gated : Bool
  bootstrapReady : Bool
  ready : Bool
  sessionEpoch : Option Text
  credentialVerifier : Option Text
  credentialGeneration : Option Nat

def SessionRecord.reach (r : SessionRecord) : Reach :=
  { type := r.type, delivery := r.delivery, deliveryEndpoint := r.deliveryEndpoint
    sshRemote := r.sshRemote, ownerPid := r.ownerPid, ptyPid := r.ptyPid
    inputPolicy := r.inputPolicy, inputPolicyPending := r.inputPolicyPending
    supervisionRestorable := r.supervisionRestorable, grant := (currentGrant r.policyRecord).1
    gated := isBootstrapGatedSession r, bootstrapReady := r.bootstrapReady, ready := r.ready
    sessionEpoch := r.sessionEpoch, credentialVerifier := r.credentialVerifier
    credentialGeneration := r.credentialGeneration }

/-! ## The grant -/

/-- The record once the route has read its grant. -/
def readGrant (r : SessionRecord) : SessionRecord := r.withPolicy (currentGrant r.policyRecord).2

theorem readGrant_eq (r : SessionRecord) :
    readGrant r = r ∨ (currentGrant r.policyRecord).1 = none ∧ readGrant r = { r with grant := none } := by
  rcases Session.currentGrant_snd r.policyRecord with h | ⟨hnone, h⟩
  · left
    rw [readGrant, h]
    rfl
  · right
    refine ⟨hnone, ?_⟩
    rw [readGrant, h]
    rfl

theorem reach_readGrant (r : SessionRecord) : (readGrant r).reach = r.reach := by
  rcases readGrant_eq r with h | ⟨hnone, h⟩
  · rw [h]
  · rw [h]
    have hgrant : (currentGrant ({ r with grant := none } : SessionRecord).policyRecord).1
        = (currentGrant r.policyRecord).1 := by
      rw [hnone]
      rfl
    simp only [SessionRecord.reach, hgrant]
    rfl

/-! ## A caller without the credential -/

/-- The input policy of a session is not granted to a caller without its credential. -/
theorem reregisterGrant_uncredentialed (host : Host) {reg : Context} (call : Call) (c : Checked)
    {r : SessionRecord} (hheld : reg.index.hasCredential r.id = true) :
    ∀ grant ∈ reregisterGrant host reg call c r false, ∃ code, grant = .error code := by
  intro grant hgrant
  unfold reregisterGrant at hgrant
  cases hpolicy : c.inputPolicy with
  | none => rw [hpolicy] at hgrant; cases hgrant
  | some policy =>
    rw [hpolicy] at hgrant
    cases hgrant
    exact ⟨"SESSION_CREDENTIAL_REQUIRED", by simp [authorizeInputPolicy, hheld]⟩

/-- The record with the type and the command that the request gives it. -/
def renamed (body : Json) (r : SessionRecord) : SessionRecord :=
  { r with
    type := orKeep (body.field "delivery_type") r.type
    command := orKeep (body.field "command") r.command }

theorem reach_initializeBootstrapState (iso : Text) (r : SessionRecord) :
    (initializeBootstrapState iso r).reach = { r.reach with
      bootstrapReady := !isBootstrapGatedSession r || r.bootstrapReady
      ready := !isBootstrapGatedSession r || r.bootstrapReady } := by
  unfold initializeBootstrapState
  split
  · next h =>
    rw [h]
    rfl
  · next h =>
    rw [Bool.not_eq_true] at h
    rw [h]
    rfl

theorem reach_renamed (body : Json) (r : SessionRecord) :
    (renamed body r).reach = { r.reach with
      type := orKeep (body.field "delivery_type") r.type
      gated := isBootstrapGatedSession (renamed body r) } := by
  have hgrant : (currentGrant (renamed body r).policyRecord).1 = (currentGrant r.policyRecord).1 := by
    cases hg : r.grant with
    | none => simp only [currentGrant, SessionRecord.policyRecord, renamed, hg]
    | some g =>
      simp only [currentGrant, SessionRecord.policyRecord, renamed, hg, apply_ite Prod.fst]
      rfl
  simp only [SessionRecord.reach, hgrant]
  rfl

/-- How a session is reached whose gate is set again by what the record has become. -/
def regated (body : Json) (r : SessionRecord) : Reach :=
  let gated := isBootstrapGatedSession (renamed body r)
  { r.reach with
    type := orKeep (body.field "delivery_type") r.type
    gated := gated
    bootstrapReady := !gated || r.bootstrapReady
    ready := !gated || r.bootstrapReady }

/-- What a caller without the credential makes of how a session is reached. -/
theorem reach_reregistered (host : Host) (call : Call) (c : Checked) {grant : Option PolicyGrant}
    (hgrant : ∀ g ∈ grant, ∃ code, g = .error code) (r : SessionRecord) :
    (reregistered host call c false grant r).reach = regated call.body r := by
  -- the stages in front of the gate change of the record only what describes it, and `ready`
  have hstage : ∀ r₁ : SessionRecord, r₁.reach = { (renamed call.body r).reach with ready := r₁.ready } →
      ∀ provenance, ({ initializeBootstrapState (host.isoText call.now) r₁ with
        provenanceCapable := provenance } : SessionRecord).reach = regated call.body r := by
    intro r₁ h₁ provenance
    have hgate : isBootstrapGatedSession r₁ = isBootstrapGatedSession (renamed call.body r) :=
      congrArg Reach.gated h₁
    have hready : r₁.bootstrapReady = r.bootstrapReady := congrArg Reach.bootstrapReady h₁
    have hinit := reach_initializeBootstrapState (host.isoText call.now) r₁
    rw [h₁, hgate, hready, reach_renamed] at hinit
    exact hinit
  have hbody : ∀ r₁ : SessionRecord, r₁ = describe host call.body r ∨
      r₁ = markSessionConnected (host.isoText call.now) { describe host call.body r with ready := true } →
      let r₂ := applyTimestampMetadata host.isDate call.body (applyIdleTtlMetadata c.idleTtl r₁)
      r₂.reach = { (renamed call.body r).reach with ready := r₂.ready } := by
    intro r₁ h₁
    cases c.idleTtl <;> rcases h₁ with rfl | rfl <;> rfl
  have hnone : reregistered host call c false grant r = reregistered host call c false none r := by
    cases grant with
    | none => rfl
    | some g =>
      obtain ⟨code, rfl⟩ := hgrant g rfl
      rfl
  rw [hnone]
  refine hstage _ ?_ _
  simp only [Bool.false_eq_true, if_false]
  split
  · exact hbody _ (.inr rfl)
  · exact hbody _ (.inl rfl)

theorem grant_reregistered (host : Host) (call : Call) (c : Checked) {grant : Option PolicyGrant}
    (hgrant : ∀ g ∈ grant, ∃ code, g = .error code) (r : SessionRecord) :
    (reregistered host call c false grant r).grant = r.grant := by
  have hinit : ∀ iso (r₁ : SessionRecord), (initializeBootstrapState iso r₁).grant = r₁.grant := by
    intro iso r₁
    unfold initializeBootstrapState
    split <;> rfl
  have hnone : reregistered host call c false grant r = reregistered host call c false none r := by
    cases grant with
    | none => rfl
    | some g =>
      obtain ⟨code, rfl⟩ := hgrant g rfl
      rfl
  rw [hnone]
  refine (hinit _ _).trans ?_
  cases c.idleTtl <;> simp only [Bool.false_eq_true, if_false] <;> split <;> rfl

/-! ## When the request leaves it alone -/

/-- The type is the one that the record has, and the command leaves the gate as it stands. -/
def keepsGate (body : Json) (r : SessionRecord) : Prop :=
  orKeep (body.field "delivery_type") r.type = r.type ∧
    isBootstrapGatedSession { r with command := orKeep (body.field "command") r.command }
      = isBootstrapGatedSession r ∧
    if isBootstrapGatedSession r then r.ready = r.bootstrapReady
    else r.bootstrapReady = true ∧ r.ready = true

theorem regated_eq_iff (body : Json) (r : SessionRecord) :
    regated body r = r.reach ↔ keepsGate body r := by
  have hsame : orKeep (body.field "delivery_type") r.type = r.type →
      renamed body r = { r with command := orKeep (body.field "command") r.command } := by
    intro h
    rw [renamed, h]
  constructor
  · intro h
    have htype : orKeep (body.field "delivery_type") r.type = r.type := congrArg Reach.type h
    have hgate : isBootstrapGatedSession (renamed body r) = isBootstrapGatedSession r :=
      congrArg Reach.gated h
    have hboot : (!isBootstrapGatedSession (renamed body r) || r.bootstrapReady) = r.bootstrapReady :=
      congrArg Reach.bootstrapReady h
    have hready : (!isBootstrapGatedSession (renamed body r) || r.bootstrapReady) = r.ready :=
      congrArg Reach.ready h
    refine ⟨htype, hsame htype ▸ hgate, ?_⟩
    rw [hgate] at hboot hready
    split
    · next hg => simpa [hg] using hready.symm
    · next hg =>
      simp only [hg, Bool.not_false, Bool.true_or] at hboot hready
      exact ⟨hboot.symm, hready.symm⟩
  · rintro ⟨htype, hgate, hready⟩
    rw [← hsame htype] at hgate
    have hboth : (!isBootstrapGatedSession r || r.bootstrapReady) = r.bootstrapReady ∧
        (!isBootstrapGatedSession r || r.bootstrapReady) = r.ready := by
      split at hready
      · next hg => simp [hg, hready]
      · next hg => simp [hg, hready]
    simp only [regated, htype, hgate, hboth.1]
    rw [hboth.1] at hboth
    rw [show r.bootstrapReady = r.ready from hboth.2]
    simp only [SessionRecord.reach]
    rw [show r.bootstrapReady = r.ready from hboth.2]

/-- The request passes the checks of the route and the fences in front of the record. -/
def Accepted (host : Host) (reg : Context) (call : Call) (id : Text) (r : SessionRecord) : Prop :=
  ∃ c, checkRequest host reg.sessions call id = .ok c ∧ reregisterRefusal host reg call r = none ∧
    (touchesDelivery call.body && pendingNamespaceReserved call.acknowledged r) = false ∧
    r.hasType "mailbox" = false ∧ c.mailboxRequest = false

/-- What the route reads of a record in front of the fences. -/
theorem readGrant_agrees {r r₀ : SessionRecord} (h : r₀ = r ∨ r₀ = readGrant r) :
    r₀.reach = r.reach ∧ r₀.id = r.id ∧ (∀ t, r₀.hasType t = r.hasType t) ∧
      (∀ acknowledged, pendingNamespaceReserved acknowledged r₀
        = pendingNamespaceReserved acknowledged r) ∧
      ∀ body, keepsGate body r₀ = keepsGate body r := by
  have heq : r₀ = r ∨ r₀.reach = r.reach ∧ r₀ = { r with grant := none } := by
    rcases h with rfl | rfl
    · exact .inl rfl
    · rcases readGrant_eq r with he | ⟨-, he⟩
      · exact .inl he
      · exact .inr ⟨reach_readGrant r, he⟩
  rcases heq with rfl | ⟨hreach, rfl⟩
  · exact ⟨rfl, rfl, fun _ => rfl, fun _ => rfl, fun _ => rfl⟩
  · exact ⟨hreach, rfl, fun _ => rfl, fun _ => rfl, fun _ => rfl⟩

section

variable {host : Host} {reg : Context} {call : Call} {c : Checked} {id : Text} {r r₀ : SessionRecord}

/-- What a caller without the credential leaves in the place of the record. -/
theorem reach_settledRecord {grant : Option PolicyGrant}
    (hgrant : ∀ g ∈ grant, ∃ code, g = .error code) :
    (settledRecord call.saved (reissued grant) r (reregistered host call c false grant r)).reach =
      if call.saved.committed then regated call.body r else r.reach := by
  have hreissue : reissued grant = false := by
    cases grant with
    | none => rfl
    | some g =>
      obtain ⟨code, rfl⟩ := hgrant g rfl
      rfl
  have hafter := reach_reregistered host call c hgrant r
  have hback : rolledBack r (reregistered host call c false grant r) = r := by
    rw [rolledBack, grant_reregistered host call c hgrant r]
  unfold settledRecord
  rw [hreissue]
  cases call.saved with
  | ok => exact hafter
  | failed committed =>
    cases committed with
    | true => exact hafter
    | false => exact congrArg SessionRecord.reach hback

end

/-- A request that names neither a type nor a command keeps both. -/
theorem keepsGate_of_silent {body : Json} {r : SessionRecord}
    (htype : (body.field "delivery_type").isNone = true)
    (hcommand : (body.field "command").isNone = true)
    (hready : (if isBootstrapGatedSession r then r.ready = r.bootstrapReady
      else r.bootstrapReady = true ∧ r.ready = true)) : keepsGate body r := by
  rw [Option.isNone_iff_eq_none] at htype hcommand
  refine ⟨?_, ?_, hready⟩
  · rw [htype, orKeep]
  · rw [hcommand, orKeep]

/-- A stranger moves the session to another directory. -/
def moved : Call := plainCall [("session_id", .str "s"), ("cwd", .str "/tmp")]

/-- A stranger calls the session an `aterm` session. -/
def retyped : Call := plainCall [("session_id", .str "s"), ("delivery_type", .str "aterm")]

theorem launched_held : ∃ r, Context.launched.sessions.get? "s" = some r ∧
    Context.launched.index.hasCredential r.id = true ∧
    (∀ host, Context.launched.index.matchesSid host r.id none = false) ∧
    isBootstrapGatedSession r = true ∧ r.ready = r.bootstrapReady ∧
    r.type.asText = some "wrapped".toList := by
  have hfacts : (Context.launched.sessions.get? "s").any (fun r =>
      Context.launched.index.hasCredential r.id && isBootstrapGatedSession r &&
        (r.ready == r.bootstrapReady) && r.type.asText == some "wrapped".toList) = true := by
    decide +kernel
  rw [Option.any_eq_true] at hfacts
  obtain ⟨r, hr, hfacts⟩ := hfacts
  simp only [Bool.and_eq_true, beq_iff_eq] at hfacts
  exact ⟨r, hr, hfacts.1.1.1, fun _ => rfl, hfacts.1.1.2, hfacts.1.2, hfacts.2⟩

/-- Nobody but the holder of the credential changes how a session is reached. -/
def ReachFramed : Prop :=
  ∀ (host : Host) (reg : Context) (call : Call) (id : Text) (r : SessionRecord),
    readIdentity call.body "session_id" = .ok id → reg.sessions.get? id = some r →
    reg.index.hasCredential r.id = true →
    reg.index.matchesSid host.digest r.id call.sessionToken = false →
    ((register host reg call).1.sessions.get? id).map SessionRecord.reach = some r.reach

end Telepty.Registry
