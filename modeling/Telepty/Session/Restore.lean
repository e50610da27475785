import Telepty.Session.Register

/-!
# A restart of the daemon

What a record becomes when its entry in the session store is read back. The writer names the
delivery of a session and its endpoint and the reader does not, so that a session that is reached
through an endpoint is restored without it, and the next write takes it from the store.
-/

namespace Telepty.Registry

open Infra
open Interaction (truthy own)

/-! ## The members of an entry -/

def persistedNames : List Text :=
  (["id", "owningPrincipal", "authorityAuditInvalid", "authorityAudit", "type",
    "externalApprovalPolicy", "requireOwnerProof", "command", "sshRemote", "cwd", "backend",
    "cmuxWorkspaceId", "cmuxSurfaceId", "termProgram", "term", "delivery", "deliveryEndpoint",
    "leaseExpiresAt"] : List Text) ++
  (["createdAt", "lastActivityAt", "lastConnectedAt", "lastDisconnectedAt", "lastStateReportAt",
    "stateReport", "idleTtl", "idleTtlMs", "cooperativeHandoffCapable", "cooperativeHandoff",
    "cooperativeHandoffAudit", "ownerPid", "ptyPid", "sessionEpoch", "credentialVerifier",
    "credentialGeneration", "bracketedPasteCapable", "supervisionRestorable"] : List Text)

theorem names_persistedMembers (isDate : Text → Bool) (id : Text) (r : SessionRecord) :
    (persistedMembers isDate id r).map Prod.fst = persistedNames := rfl

theorem nodup_persistedNames : persistedNames.Nodup := by decide +kernel

/-- A member of an entry is what the writer gave it. -/
theorem field_persistedEntry {isDate : Text → Bool} {id : Text} {r : SessionRecord} (k : Text)
    {value : Option Json} (h : (k, value) ∈ persistedMembers isDate id r) :
    (persistedEntry isDate id r).field k = value :=
  Json.field_ofMembers (by rw [names_persistedMembers]; exact nodup_persistedNames) h

section

variable (isDate : Text → Bool) (id : Text) (r : SessionRecord)

theorem field_identity (n : Nat) {k : Text} {value : Option Json}
    (h : (identityMembers isDate id r)[n]? = some (k, value)) :
    (persistedEntry isDate id r).field k = value :=
  field_persistedEntry _ (List.mem_append_left _ (List.mem_of_getElem? h))

theorem field_state (n : Nat) {k : Text} {value : Option Json}
    (h : (stateMembers r)[n]? = some (k, value)) : (persistedEntry isDate id r).field k = value :=
  field_persistedEntry _ (List.mem_append_right _ (List.mem_of_getElem? h))

end

/-! ## What the reader makes of a member -/

section

variable {entry : Json} {k : Text}

theorem textAt_textOrNull {t : Option Text} (h : entry.field k = some (textOrNull t)) :
    textAt entry k = orText t none := by
  rw [textAt, h, textOrNull]
  match t with
  | none => rfl
  | some [] => rfl
  | some (c :: t) => rfl

theorem textAt_map {α : Type} {o : Option α} {f : α → Text} (hne : ∀ x ∈ o, f x ≠ [])
    (h : entry.field k = o.map fun x => .str (f x)) : textAt entry k = o.map f := by
  rw [textAt, h]
  cases o with
  | none => rfl
  | some x => simpa [Json.asText, Option.filter] using hne x rfl

theorem orKeep_of_truthy {v : Json} (default : Json) (h : truthy v = true) :
    orKeep (some v) default = v := by
  rw [orKeep, if_pos h]

theorem orKeep_of_falsy {v : Json} (default : Json) (h : truthy v = false) :
    orKeep (some v) default = default := by
  rw [orKeep, h, if_neg Bool.false_ne_true]

theorem memberOr_orNull {v : Json} (default : Json) (h : entry.field k = some (orNull (some v))) :
    memberOr entry k default = orKeep (some v) default := by
  rw [memberOr, h, orNull]
  cases hv : truthy v with
  | true => rw [orKeep_of_truthy _ hv]
  | false => rw [orKeep_of_falsy _ hv, orKeep_of_falsy _ hv, orKeep_of_falsy _ rfl]

theorem isTrue_whenTrue {p : Bool} (h : entry.field k = whenTrue p) :
    Interaction.isTrue entry k = p := by
  rw [Interaction.isTrue, h]
  cases p <;> rfl

theorem natAt_natOrNull {n : Option Nat} (h : entry.field k = some (natOrNull n)) :
    (natAt entry k).filter (· ≠ 0) = n.filter (· ≠ 0) := by
  rw [natAt, h]
  match n with
  | none => rfl
  | some 0 => rfl
  | some (n + 1) =>
    show (if 0 ≤ ((n + 1 : Nat) : Int) then some _ else none).filter _ = _
    rw [if_pos (Int.natCast_nonneg _), Int.toNat_natCast]

end

theorem storedOwningPrincipal_toJson (o : Option OwningPrincipal) :
    storedOwningPrincipal (o.map OwningPrincipal.toJson) = o := by
  cases o with
  | none => rfl
  | some p =>
    show owningPrincipalOf (some "ed25519") (some p.id) (some p.audience) = some p
    rw [owningPrincipalOf, dif_pos ⟨rfl, p.valid⟩]

theorem validateSshMetadata_value (o : Option SshMetadata) :
    validateSshMetadata (o.map (·.value)) = .ok o := by
  cases o with
  | none => rfl
  | some m =>
    have hnull : m.value ≠ .null := by
      intro h
      have hvalid := m.valid
      rw [h] at hvalid
      cases hvalid
    rw [Option.map_some, validateSshMetadata]
    · split
      · rfl
      · next hv => rw [m.valid] at hv; cases hv
    · exact hnull

theorem credentialOf_spec {epoch verifier : Option Text} {generation : Option Nat}
    {c : Text × Text × Nat} (h : credentialOf epoch verifier generation = some c) :
    c.1 ≠ [] ∧ c.2.1 ≠ [] ∧ c.2.2 ≠ 0 := by
  have htext : ∀ {t : Option Text} {e}, orText t none = some e → e ≠ [] := by
    intro t e he
    match t, he with
    | some (c :: t), rfl => exact List.cons_ne_nil c t
  unfold credentialOf at h
  split at h
  · next e v he hv =>
    cases h
    refine ⟨htext he, htext hv, ?_⟩
    match generation with
    | none => exact Nat.one_ne_zero
    | some 0 => exact Nat.one_ne_zero
    | some (n + 1) => exact Nat.succ_ne_zero n
  · cases h

/-! ## The restored record -/

/-- The record that a restart makes of a record. -/
def restoredRecord (isDate : Text → Bool) (cwd nowIso : Text) (id : Text) (r : SessionRecord) :
    SessionRecord :=
  let credential := credentialOf r.sessionEpoch r.credentialVerifier r.credentialGeneration
  let audit := auditRows isDate r.authorityAudit
  let handoff := restoreHandoffRecord r.cooperativeHandoff (r.cooperativeHandoffAudit.filter truthy)
    (credential.map (·.1)) (generationOrOne (credential.map (·.2.2)))
  { r with
    id := id
    requireOwnerProof := r.externalApprovalPolicy.isSome || r.requireOwnerProof
    authorityAudit := auditRows isDate audit
    authorityAuditInvalid := auditInvalid isDate
      (auditInvalid isDate r.authorityAuditInvalid r.authorityAudit) audit
    leaseExpiresAt := if r.hasType "mailbox" then r.leaseExpiresAt.filter (· ≠ 0) else none
    command := orKeep (some r.command) (.str "wrapped")
    cwd := orKeep (some r.cwd) (.str cwd)
    backend := orKeep (some r.backend) (.str "kitty")
    cmuxWorkspaceId := orNull (some r.cmuxWorkspaceId)
    cmuxSurfaceId := orNull (some r.cmuxSurfaceId)
    termProgram := orNull (some r.termProgram)
    term := orNull (some r.term)
    delivery := .null
    deliveryEndpoint := .null
    createdAt := (orText (some r.createdAt) none).getD nowIso
    lastActivityAt := some ((orText r.lastActivityAt none).getD nowIso)
    lastConnectedAt := orText r.lastConnectedAt none
    lastDisconnectedAt :=
      some (((orText r.lastDisconnectedAt none).or (orText r.lastActivityAt none)).getD nowIso)
    lastStateReportAt := orText r.lastStateReportAt none
    stateReport := orNull (some r.stateReport)
    idleTtl := orText r.idleTtl none
    cooperativeHandoff := handoff.1
    cooperativeHandoffAudit := handoff.2
    ownerPid := r.ownerPid.filter (· ≠ 0)
    ptyPid := r.ptyPid.filter (· ≠ 0)
    sessionEpoch := credential.map (·.1)
    credentialVerifier := credential.map (·.2.1)
    credentialGeneration := credential.map (·.2.2)
    provenanceCapable := false
    provenanceNonce := none
    inputPolicyPending := none
    inputPolicy := none
    grant := none
    restoredFromPersistence := true
    isClosing := false
    closeDurabilityPending := false
    ready := true
    bootstrapReady := false
    bootstrapReadyAt := none
    bootstrapReadyReason := none
    interactionOwnerGeneration := none
    ownerToken := none
    sessionEpochProved := none
    ownerWs := none
    ptyProcess := none }

/-- The session is of a type that a restart rebuilds. -/
def SessionRecord.restorable (r : SessionRecord) : Bool := r.hasType "wrapped" || r.hasType "mailbox"

theorem isTextIn_single (a : Text) (v : Json) :
    isTextIn [a] (some v) = decide (v.asText = some a) := by
  cases h : v.asText with
  | none => simp [isTextIn, h]
  | some t => simp [isTextIn, h]

theorem isTextIn_pair (a b : Text) (v : Json) :
    isTextIn [a, b] (some v) = (decide (v.asText = some a) || decide (v.asText = some b)) := by
  cases h : v.asText with
  | none => simp [isTextIn, h]
  | some t => simp [isTextIn, h]

/-- The policy reads back as it was written. -/
theorem approvalPolicy_read (o : Option Text) :
    (o.map approvalPolicyJson).filter truthy = o.map approvalPolicyJson ∧
      ((o.map approvalPolicyJson).bind fun p => (p.field "public_key_spki").bind Json.asText) = o := by
  cases o with
  | none => exact ⟨rfl, rfl⟩
  | some pem => exact ⟨rfl, rfl⟩

theorem natAt_num {entry : Json} {k : Text} {o : Option (Text × Text × Nat)}
    (h : entry.field k = o.map fun c => .num c.2.2) : natAt entry k = o.map (·.2.2) := by
  rw [natAt, h]
  cases o with
  | none => rfl
  | some c =>
    show (if 0 ≤ ((c.2.2 : Nat) : Int) then some _ else none) = _
    rw [if_pos (Int.natCast_nonneg _), Int.toNat_natCast]
    rfl

theorem credentialOf_self {epoch verifier : Option Text} {generation : Option Nat}
    {o : Option (Text × Text × Nat)} (h : o = credentialOf epoch verifier generation) :
    credentialOf (o.map (·.1)) (o.map (·.2.1)) (o.map (·.2.2)) = o := by
  cases o with
  | none => rfl
  | some c =>
    obtain ⟨e, v, n⟩ := c
    obtain ⟨he, hv, hn⟩ := credentialOf_spec h.symm
    obtain ⟨x, e, rfl⟩ := List.exists_cons_of_ne_nil he
    obtain ⟨y, v, rfl⟩ := List.exists_cons_of_ne_nil hv
    obtain ⟨n, rfl⟩ := Nat.exists_eq_succ_of_ne_zero hn
    rfl

theorem buildRestored_persistedEntry {isDate : Text → Bool} {cwd nowIso id : Text} {r : SessionRecord}
    (htype : r.restorable = true) :
    buildRestoredWrappedSession isDate cwd nowIso id (persistedEntry isDate id r) =
      some (restoredRecord isDate cwd nowIso id r) := by
  have hwrapped : isTextIn ["wrapped", "mailbox"] (some r.type) = true := by
    rw [isTextIn_pair]
    exact htype
  have hmailbox : isTextIn ["mailbox"] (some r.type) = r.hasType "mailbox" := isTextIn_single _ _
  have hcreds : ∀ c, credentialOf r.sessionEpoch r.credentialVerifier r.credentialGeneration = some c →
      c.1 ≠ [] ∧ c.2.1 ≠ [] ∧ c.2.2 ≠ 0 := fun c => credentialOf_spec
  have hepoch := textAt_map (fun c hc => (hcreds c hc).1) (field_state isDate id r 13 rfl)
  have hverifier := textAt_map (fun c hc => (hcreds c hc).2.1) (field_state isDate id r 14 rfl)
  have hgeneration := natAt_num (field_state isDate id r 15 rfl)
  have hlease : (if r.hasType "mailbox" then intAt (persistedEntry isDate id r) "leaseExpiresAt"
      else none) = if r.hasType "mailbox" then r.leaseExpiresAt.filter (· ≠ 0) else none := by
    rw [intAt, field_identity isDate id r 17 rfl]
    cases r.hasType "mailbox" with
    | false => rfl
    | true =>
      match r.leaseExpiresAt with
      | none => rfl
      | some n =>
        by_cases hn : n = 0
        · subst hn
          rfl
        · simp [orNull, orKeep, truthy, hn, Option.filter]
  have hpaste : boolAt (persistedEntry isDate id r) "bracketedPasteCapable"
      = r.bracketedPasteCapable := by
    rw [boolAt, field_state isDate id r 16 rfl]
    cases r.bracketedPasteCapable <;> rfl
  have hms : natAt (persistedEntry isDate id r) "idleTtlMs" = r.idleTtlMs := by
    rw [natAt, field_state isDate id r 7 rfl]
    cases r.idleTtlMs with
    | none => rfl
    | some ms =>
      show (if 0 ≤ (ms : Int) then some _ else none) = _
      rw [if_pos (Int.natCast_nonneg _), Int.toNat_natCast]
  have hcreated : textAt (persistedEntry isDate id r) "createdAt" = orText (some r.createdAt) none := by
    rw [textAt, field_state isDate id r 0 rfl]
    cases r.createdAt <;> rfl
  have hcommand : memberOr (persistedEntry isDate id r) "command" (.str "wrapped")
      = orKeep (some r.command) (.str "wrapped") := by
    rw [memberOr, field_identity isDate id r 7 rfl]
  have hcwd : memberOr (persistedEntry isDate id r) "cwd" (.str cwd)
      = orKeep (some r.cwd) (.str cwd) := by
    rw [memberOr, field_identity isDate id r 9 rfl]
  have hpolicy : (r.externalApprovalPolicy.map approvalPolicyJson).isSome
      = r.externalApprovalPolicy.isSome := Option.isSome_map
  simp only [buildRestoredWrappedSession, field_identity isDate id r 4 rfl, hwrapped,
    field_identity isDate id r 8 rfl, validateSshMetadata_value, hepoch, hverifier, hgeneration,
    credentialOf_self rfl, field_identity isDate id r 1 rfl, storedOwningPrincipal_toJson,
    isTrue_whenTrue (field_identity isDate id r 2 rfl), field_identity isDate id r 3 rfl,
    field_identity isDate id r 5 rfl, (approvalPolicy_read r.externalApprovalPolicy).1,
    (approvalPolicy_read r.externalApprovalPolicy).2,
    isTrue_whenTrue (field_identity isDate id r 6 rfl), hmailbox, hlease, hpaste, hms, hcreated,
    textAt_textOrNull (field_state isDate id r 1 rfl),
    textAt_textOrNull (field_state isDate id r 2 rfl),
    textAt_textOrNull (field_state isDate id r 3 rfl),
    textAt_textOrNull (field_state isDate id r 4 rfl),
    textAt_textOrNull (field_state isDate id r 6 rfl),
    memberOr_orNull _ (field_identity isDate id r 10 rfl),
    memberOr_orNull _ (field_identity isDate id r 11 rfl),
    memberOr_orNull _ (field_identity isDate id r 12 rfl),
    memberOr_orNull _ (field_identity isDate id r 13 rfl),
    memberOr_orNull _ (field_identity isDate id r 14 rfl),
    memberOr_orNull _ (field_state isDate id r 5 rfl),
    natAt_natOrNull (field_state isDate id r 11 rfl),
    natAt_natOrNull (field_state isDate id r 12 rfl),
    isTrue_whenTrue (field_state isDate id r 8 rfl),
    isTrue_whenTrue (field_state isDate id r 17 rfl), field_state isDate id r 9 rfl,
    field_state isDate id r 10 rfl, hcommand, hcwd, hpolicy, Bool.true_eq_false, if_false]
  rfl

/-! ## What a restart keeps -/

/-- The record speaks for nobody and nobody has proved to speak for it. -/
structure SessionRecord.Unproved (r : SessionRecord) : Prop where
  proved : r.sessionEpochProved = none
  owner : r.ownerWs = none ∧ r.ownerToken = none ∧ r.interactionOwnerGeneration = none
  policy : r.inputPolicy = none ∧ r.inputPolicyPending = none ∧ r.grant = none
  provenance : r.provenanceCapable = false ∧ r.provenanceNonce = none

/-- The restored record `r'` is the record `r` in what a restart is to keep, and a further restart
leaves it as it is. -/
structure KeptByRestart (isDate : Text → Bool) (id : Text) (r r' : SessionRecord) : Prop where
  owningPrincipal : r'.owningPrincipal = r.owningPrincipal
  credential : r'.sessionEpoch = r.sessionEpoch ∧ r'.credentialVerifier = r.credentialVerifier ∧
    r'.credentialGeneration = r.credentialGeneration
  approval : r'.externalApprovalPolicy = r.externalApprovalPolicy ∧
    r'.requireOwnerProof = r.requireOwnerProof
  audit : r'.authorityAudit = r.authorityAudit ∧ r'.authorityAuditInvalid = r.authorityAuditInvalid
  handoff : r'.cooperativeHandoffCapable = r.cooperativeHandoffCapable ∧
    r'.cooperativeHandoff = r.cooperativeHandoff ∧
    r'.cooperativeHandoffAudit = r.cooperativeHandoffAudit
  sshRemote : r'.sshRemote = r.sshRemote
  backend : r'.backend = r.backend
  delivery : r'.delivery = r.delivery ∧ r'.deliveryEndpoint = r.deliveryEndpoint
  lease : r'.leaseExpiresAt = r.leaseExpiresAt
  idleTtl : r'.idleTtl = r.idleTtl ∧ r'.idleTtlMs = r.idleTtlMs
  paste : r'.bracketedPasteCapable = r.bracketedPasteCapable
  supervision : r'.supervisionRestorable = r.supervisionRestorable
  unproved : r'.Unproved
  entry : persistedEntry isDate id r'
    = persistedEntry isDate id { r with lastDisconnectedAt := r'.lastDisconnectedAt }
  again : ∀ cwd nowIso,
    buildRestoredWrappedSession isDate cwd nowIso id (persistedEntry isDate id r') = some r'

/-- The record has a credential of three members that are not empty, or none. -/
def WholeCredential (r : SessionRecord) : Prop :=
  (r.sessionEpoch = none ∧ r.credentialVerifier = none ∧ r.credentialGeneration = none) ∨
    ∃ e v n, r.sessionEpoch = some e ∧ r.credentialVerifier = some v ∧
      r.credentialGeneration = some n ∧ e ≠ [] ∧ v ≠ [] ∧ n ≠ 0

/-- The audit is absent, or it has rows and they are in the form that `normalizeAuthorityAudit` gives
them. -/
def WholeAudit (isDate : Text → Bool) (audit : Option Json) : Prop :=
  audit = none ∨ ∃ row rows, audit = some (.arr (row :: rows)) ∧
    normalizeAuthorityAudit isDate audit = some (some (row :: rows))

/-- What of a record survives a restart as it is. The delivery and its endpoint never do. -/
structure Survives (isDate : Text → Bool) (r : SessionRecord) : Prop where
  delivery : r.delivery = .null
  deliveryEndpoint : r.deliveryEndpoint = .null
  credential : WholeCredential r
  approval : r.externalApprovalPolicy.isSome = true → r.requireOwnerProof = true
  audit : WholeAudit isDate r.authorityAudit
  handoff : ∀ h ∈ r.cooperativeHandoff,
    handoffRestorable h r.sessionEpoch r.generationOrOne = true ∨ h = unknownHandoff
  handoffAudit : ∀ a ∈ r.cooperativeHandoffAudit, handoffAuditValid a = true
  backend : truthy r.backend = true
  command : truthy r.command = true
  cwd : truthy r.cwd = true
  createdAt : r.createdAt ≠ []
  lastActivityAt : ∃ t, r.lastActivityAt = some t ∧ t ≠ []
  lease : if r.hasType "mailbox" then r.leaseExpiresAt ≠ some 0 else r.leaseExpiresAt = none
  idleTtl : r.idleTtl ≠ some []

/-- The record that a restart makes of one that survives it. -/
def survived (nowIso id : Text) (r : SessionRecord) : SessionRecord :=
  { r with
    id := id
    cmuxWorkspaceId := orNull (some r.cmuxWorkspaceId)
    cmuxSurfaceId := orNull (some r.cmuxSurfaceId)
    termProgram := orNull (some r.termProgram)
    term := orNull (some r.term)
    lastConnectedAt := orText r.lastConnectedAt none
    lastDisconnectedAt :=
      some (((orText r.lastDisconnectedAt none).or (orText r.lastActivityAt none)).getD nowIso)
    lastStateReportAt := orText r.lastStateReportAt none
    stateReport := orNull (some r.stateReport)
    ownerPid := r.ownerPid.filter (· ≠ 0)
    ptyPid := r.ptyPid.filter (· ≠ 0)
    provenanceCapable := false
    provenanceNonce := none
    inputPolicyPending := none
    inputPolicy := none
    grant := none
    restoredFromPersistence := true
    isClosing := false
    closeDurabilityPending := false
    ready := true
    bootstrapReady := false
    bootstrapReadyAt := none
    bootstrapReadyReason := none
    interactionOwnerGeneration := none
    ownerToken := none
    sessionEpochProved := none
    ownerWs := none
    ptyProcess := none }

theorem orText_of_ne {t : Text} (h : t ≠ []) (default : Option Text) :
    orText (some t) default = some t := by
  obtain ⟨c, t, rfl⟩ := List.exists_cons_of_ne_nil h
  rfl

section

variable {isDate : Text → Bool} {cwd nowIso id : Text} {r : SessionRecord}

/-- The credential that is written, and the arguments of the restored handoff. -/
theorem credentialOf_whole (h : WholeCredential r) :
    let credential := credentialOf r.sessionEpoch r.credentialVerifier r.credentialGeneration
    credential.map (·.1) = r.sessionEpoch ∧ credential.map (·.2.1) = r.credentialVerifier ∧
      credential.map (·.2.2) = r.credentialGeneration := by
  dsimp only
  rcases h with ⟨he, hv, hn⟩ | ⟨e, v, n, he, hv, hn, hne, hnv, hnn⟩
  · rw [he, hv, hn]
    exact ⟨rfl, rfl, rfl⟩
  · obtain ⟨n, rfl⟩ := Nat.exists_eq_succ_of_ne_zero hnn
    rw [he, hv, hn, credentialOf, orText_of_ne hne, orText_of_ne hnv]
    exact ⟨rfl, rfl, rfl⟩

theorem auditRows_whole {audit : Option Json} (h : WholeAudit isDate audit) :
    auditRows isDate audit = audit ∧ (normalizeAuthorityAudit isDate audit).isNone = false := by
  rcases h with rfl | ⟨row, rows, rfl, h⟩
  · exact ⟨rfl, rfl⟩
  · rw [auditRows, h]
    exact ⟨rfl, rfl⟩

theorem restoreHandoffRecord_whole {handoff audit : Option Json} {epoch : Option Text}
    {generation : Int}
    (hh : ∀ h ∈ handoff, handoffRestorable h epoch generation = true ∨ h = unknownHandoff)
    (ha : ∀ a ∈ audit, handoffAuditValid a = true) :
    restoreHandoffRecord handoff (audit.filter truthy) epoch generation = (handoff, audit) := by
  have hmap : (handoff.map fun value => restoreHandoff value epoch generation) = handoff := by
    cases handoff with
    | none => rfl
    | some h =>
      rw [Option.map_some, restoreHandoff]
      rcases hh h rfl with hr | rfl
      · rw [if_pos hr]
      · rw [ite_self]
  unfold restoreHandoffRecord
  rw [hmap]
  cases audit with
  | none => rfl
  | some a =>
    have hvalid := ha a rfl
    have htruthy : truthy a = true := by
      cases a with
      | arr rows => rfl
      | _ => cases hvalid
    rw [Option.filter_some, if_pos htruthy]
    dsimp only
    rw [if_pos hvalid]

variable (cwd nowIso id) in
theorem restoredRecord_survives (h : Survives isDate r) :
    restoredRecord isDate cwd nowIso id r = survived nowIso id r := by
  obtain ⟨hepoch, hverifier, hgeneration⟩ := credentialOf_whole h.credential
  obtain ⟨haudit, hnone⟩ := auditRows_whole h.audit
  obtain ⟨t, hactive, hne⟩ := h.lastActivityAt
  have hgen : generationOrOne r.credentialGeneration = r.generationOrOne := rfl
  have hlease : (if r.hasType "mailbox" then r.leaseExpiresAt.filter (· ≠ 0) else none)
      = r.leaseExpiresAt := by
    have hl := h.lease
    split at hl
    · next hm =>
      rw [if_pos hm]
      match he : r.leaseExpiresAt with
      | none => rfl
      | some n =>
        have hn : n ≠ 0 := fun h0 => hl (by rw [he, h0])
        rw [Option.filter_some, if_pos (decide_eq_true hn)]
    · next hm => rw [if_neg hm, hl]
  have hpolicy : (r.externalApprovalPolicy.isSome || r.requireOwnerProof) = r.requireOwnerProof := by
    cases hs : r.externalApprovalPolicy.isSome with
    | false => rfl
    | true => rw [h.approval hs]; rfl
  have hidle : orText r.idleTtl none = r.idleTtl := by
    match he : r.idleTtl with
    | none => rfl
    | some [] => exact absurd he h.idleTtl
    | some (c :: t) => rfl
  have hinvalid : ∀ marked, auditInvalid isDate marked r.authorityAudit = marked := by
    intro marked
    rw [auditInvalid, hnone, Bool.or_false]
  have hhandoff := restoreHandoffRecord_whole h.handoff h.handoffAudit
  simp only [restoredRecord, survived, hepoch, hverifier, hgeneration, haudit, hinvalid, hgen,
    hhandoff, hlease, hpolicy, hidle, orKeep_of_truthy _ h.command, orKeep_of_truthy _ h.cwd,
    orKeep_of_truthy _ h.backend, orText_of_ne h.createdAt, Option.getD_some, h.delivery,
    h.deliveryEndpoint, hactive, orText_of_ne hne]

theorem orNull_orNull (v : Json) : orNull (some (orNull (some v))) = orNull (some v) := by
  rw [orNull, orNull]
  cases hv : truthy v with
  | true => rw [orKeep_of_truthy _ hv, orKeep_of_truthy _ hv]
  | false => rw [orKeep_of_falsy _ hv]; rfl

theorem orText_orText (t : Option Text) : orText (orText t none) none = orText t none := by
  match t with
  | none => rfl
  | some [] => rfl
  | some (c :: t) => rfl

theorem textOrNull_orText (t : Option Text) : textOrNull (orText t none) = textOrNull t := by
  rw [textOrNull, textOrNull, orText_orText]

theorem natOrNull_filter (n : Option Nat) : natOrNull (n.filter (· ≠ 0)) = natOrNull n := by
  match n with
  | none => rfl
  | some 0 => rfl
  | some (n + 1) => rfl

/-- The restored record is written as the record was, but for the time of its disconnection. -/
theorem persistedEntry_survived (nowIso id : Text) (r : SessionRecord) :
    persistedEntry isDate id (survived nowIso id r) = persistedEntry isDate id
      { r with lastDisconnectedAt := (survived nowIso id r).lastDisconnectedAt } := by
  refine congrArg Json.ofMembers ?_
  simp only [persistedMembers, identityMembers, stateMembers, survived, orNull_orNull,
    textOrNull_orText, natOrNull_filter]
  rfl

variable (nowIso id) in
/-- What has survived a restart survives the next one, and is the same after it. -/
theorem survives_survived (h : Survives isDate r) :
    Survives isDate (survived nowIso id r) ∧
      ∀ nowIso', survived nowIso' id (survived nowIso id r) = survived nowIso id r := by
  obtain ⟨t, hactive, hne⟩ := h.lastActivityAt
  have htime : ∃ t', (survived nowIso id r).lastDisconnectedAt = some t' ∧ t' ≠ [] := by
    simp only [survived, hactive, orText_of_ne hne]
    match r.lastDisconnectedAt with
    | none => exact ⟨t, rfl, hne⟩
    | some [] => exact ⟨t, rfl, hne⟩
    | some (c :: t') => exact ⟨c :: t', rfl, List.cons_ne_nil c t'⟩
  refine ⟨⟨h.delivery, h.deliveryEndpoint, h.credential, h.approval, h.audit, h.handoff,
    h.handoffAudit, h.backend, h.command, h.cwd, h.createdAt, h.lastActivityAt, h.lease,
    h.idleTtl⟩, ?_⟩
  intro nowIso'
  obtain ⟨t', hdisconnected, hne'⟩ := htime
  have hpid : ∀ n : Option Nat, (n.filter (· ≠ 0)).filter (· ≠ 0) = n.filter (· ≠ 0) := by
    intro n
    match n with
    | none => rfl
    | some 0 => rfl
    | some (n + 1) => rfl
  have hagain : some (((orText (survived nowIso id r).lastDisconnectedAt none).or
      (orText (survived nowIso id r).lastActivityAt none)).getD nowIso')
        = (survived nowIso id r).lastDisconnectedAt := by
    rw [hdisconnected, orText_of_ne hne']
    rfl
  unfold survived at hagain ⊢
  simp only [orNull_orNull, orText_orText, hpid, hagain]

/-! ## When a restart keeps the record -/

theorem auditRows_eq_some {audit : Option Json} {value : Json} (h : auditRows isDate audit = some value) :
    ∃ row rows, value = .arr (row :: rows) ∧
      normalizeAuthorityAudit isDate audit = some (some (row :: rows)) := by
  unfold auditRows at h
  split at h
  · next row rows hn =>
    cases h
    exact ⟨row, rows, rfl, hn⟩
  · cases h

theorem normalizeAuthorityAudit_rows {rows out : List Json}
    (h : normalizeAuthorityAudit isDate (some (.arr rows)) = some (some out)) :
    out = rows.map authorityRow := by
  unfold normalizeAuthorityAudit at h
  dsimp only at h
  split at h
  · cases h
    rfl
  · cases h

/-- An audit that two passes leave as it is has the form that one pass gives it. -/
theorem wholeAudit_of_fixed {audit : Option Json}
    (h : auditRows isDate (auditRows isDate audit) = audit) : WholeAudit isDate audit := by
  cases audit with
  | none => exact .inl rfl
  | some value =>
    obtain ⟨row, rows, rfl, hsecond⟩ := auditRows_eq_some h
    cases hfirst : auditRows isDate (some (.arr (row :: rows))) with
    | none => rw [hfirst] at hsecond; cases hsecond
    | some value =>
      obtain ⟨row', rows', rfl, hn⟩ := auditRows_eq_some hfirst
      rw [hfirst] at hsecond
      have hout := normalizeAuthorityAudit_rows hsecond
      have hout' := normalizeAuthorityAudit_rows hn
      have hsame : row' :: rows' = row :: rows := by
        rw [hout, hout', List.map_map]
        exact List.map_congr_left fun x _ => (authorityRow_authorityRow x).symm
      exact .inr ⟨row, rows, rfl, by rw [hn, hsame]⟩

theorem truthy_of_orKeep {v default : Json} (hd : truthy default = true)
    (h : orKeep (some v) default = v) : truthy v = true := by
  cases hv : truthy v with
  | true => rfl
  | false =>
    rw [orKeep_of_falsy _ hv] at h
    rw [h, hv] at hd
    exact hd

theorem handoff_of_fixed {handoff audit : Option Json} {epoch : Option Text} {generation : Int}
    (h : restoreHandoffRecord handoff (audit.filter truthy) epoch generation = (handoff, audit)) :
    (∀ h ∈ handoff, handoffRestorable h epoch generation = true ∨ h = unknownHandoff) ∧
      ∀ a ∈ audit, handoffAuditValid a = true := by
  have hvalid : ∀ a ∈ audit, handoffAuditValid a = true := by
    rintro a rfl
    unfold restoreHandoffRecord at h
    rw [Option.filter_some] at h
    split at h
    · next hnone => cases congrArg Prod.snd h
    · next value hvalue =>
      split at h
      · next hok =>
        cases congrArg Prod.snd h
        exact hok
      · cases congrArg Prod.snd h
  refine ⟨?_, hvalid⟩
  rintro value rfl
  have hfst := congrArg Prod.fst h
  have hmap : restoreHandoff value epoch generation = value := by
    unfold restoreHandoffRecord at hfst
    split at hfst
    · exact Option.some.inj hfst
    · next a ha =>
      have hok : handoffAuditValid a = true := hvalid a (Option.filter_eq_some_iff.mp ha).1
      rw [if_pos hok] at hfst
      exact Option.some.inj hfst
  unfold restoreHandoff at hmap
  split at hmap
  · next hok => exact .inl hok
  · exact .inr hmap.symm

theorem wholeCredential_of_fixed
    (h : let credential := credentialOf r.sessionEpoch r.credentialVerifier r.credentialGeneration
      credential.map (·.1) = r.sessionEpoch ∧ credential.map (·.2.1) = r.credentialVerifier ∧
        credential.map (·.2.2) = r.credentialGeneration) : WholeCredential r := by
  dsimp only at h
  obtain ⟨he, hv, hn⟩ := h
  cases hc : credentialOf r.sessionEpoch r.credentialVerifier r.credentialGeneration with
  | none =>
    rw [hc] at he hv hn
    exact .inl ⟨he.symm, hv.symm, hn.symm⟩
  | some c =>
    obtain ⟨hne, hnv, hnn⟩ := credentialOf_spec hc
    rw [hc] at he hv hn
    exact .inr ⟨c.1, c.2.1, c.2.2, he.symm, hv.symm, hn.symm, hne, hnv, hnn⟩

/-- A record that survives is kept. -/
theorem keptByRestart_survived (htype : r.restorable = true) (h : Survives isDate r) :
    KeptByRestart isDate id r (survived nowIso id r) := by
  obtain ⟨hnext, hfixed⟩ := survives_survived nowIso id h
  refine ⟨rfl, ⟨rfl, rfl, rfl⟩, ⟨rfl, rfl⟩, ⟨rfl, rfl⟩, ⟨rfl, rfl, rfl⟩, rfl, rfl, ⟨rfl, rfl⟩, rfl,
    ⟨rfl, rfl⟩, rfl, rfl, ⟨rfl, ⟨rfl, rfl, rfl⟩, ⟨rfl, rfl, rfl⟩, ⟨rfl, rfl⟩⟩,
    persistedEntry_survived nowIso id r, ?_⟩
  intro cwd nowIso'
  rw [buildRestored_persistedEntry (r := survived nowIso id r) htype, restoredRecord_survives _ _ _ hnext,
    hfixed nowIso']

/-- A record that is kept was one that survives. -/
theorem survives_of_kept (hcwd : cwd ≠ []) (hnow : nowIso ≠ [])
    (h : KeptByRestart isDate id r (restoredRecord isDate cwd nowIso id r)) : Survives isDate r := by
  have hcred : WholeCredential r := wholeCredential_of_fixed h.credential
  obtain ⟨hepoch, -, hgeneration⟩ := credentialOf_whole hcred
  have hhandoff : restoreHandoffRecord r.cooperativeHandoff (r.cooperativeHandoffAudit.filter truthy)
      r.sessionEpoch r.generationOrOne = (r.cooperativeHandoff, r.cooperativeHandoffAudit) := by
    have h1 := h.handoff.2.1
    have h2 := h.handoff.2.2
    simp only [restoredRecord, hepoch, hgeneration] at h1 h2
    exact Prod.ext h1 h2
  obtain ⟨hvalue, hrows⟩ := handoff_of_fixed hhandoff
  -- the members of the entry that the restored record must not change
  have hfield : ∀ k, (persistedEntry isDate id (restoredRecord isDate cwd nowIso id r)).field k
      = (persistedEntry isDate id { r with lastDisconnectedAt :=
          (restoredRecord isDate cwd nowIso id r).lastDisconnectedAt }).field k :=
    fun k => congrArg (·.field k) h.entry
  have hcommand : orKeep (some r.command) (.str "wrapped") = r.command := by
    have hc := hfield "command"
    rw [field_identity isDate id _ 7 rfl, field_identity isDate id _ 7 rfl] at hc
    exact Option.some.inj hc
  have hdir : orKeep (some r.cwd) (.str cwd) = r.cwd := by
    have hc := hfield "cwd"
    rw [field_identity isDate id _ 9 rfl, field_identity isDate id _ 9 rfl] at hc
    exact Option.some.inj hc
  have hcreated : (orText (some r.createdAt) none).getD nowIso = r.createdAt := by
    have hc := hfield "createdAt"
    rw [field_state isDate id _ 0 rfl, field_state isDate id _ 0 rfl] at hc
    exact Json.str.inj (Option.some.inj hc)
  have hactive : textOrNull (some ((orText r.lastActivityAt none).getD nowIso))
      = textOrNull r.lastActivityAt := by
    have hc := hfield "lastActivityAt"
    rw [field_state isDate id _ 1 rfl, field_state isDate id _ 1 rfl] at hc
    exact Option.some.inj hc
  refine ⟨h.delivery.1.symm, h.delivery.2.symm, hcred, ?_, wholeAudit_of_fixed h.audit.1, hvalue,
    hrows, truthy_of_orKeep rfl h.backend, truthy_of_orKeep rfl hcommand,
    truthy_of_orKeep (by simpa [truthy] using hcwd) hdir, ?_, ?_, ?_, ?_⟩
  · intro hs
    have hp := h.approval.2
    simp only [restoredRecord, hs, Bool.true_or] at hp
    exact hp.symm
  · intro hnil
    rw [hnil] at hcreated
    exact hnow hcreated
  · have hnull : textOrNull (some nowIso) = .str nowIso := by
      rw [textOrNull, orText_of_ne hnow]
      rfl
    match he : r.lastActivityAt with
    | some (c :: t) => exact ⟨c :: t, rfl, List.cons_ne_nil c t⟩
    | none =>
      rw [he] at hactive
      cases hnull.symm.trans hactive
    | some [] =>
      rw [he] at hactive
      cases hnull.symm.trans hactive
  · have hl := h.lease
    simp only [restoredRecord] at hl
    split at hl
    · next hm =>
      rw [if_pos hm]
      intro h0
      rw [h0] at hl
      cases hl
    · next hm =>
      rw [if_neg hm]
      exact hl.symm
  · intro hnil
    have hi := h.idleTtl.1
    simp only [restoredRecord, hnil] at hi
    cases hi

/-- **A restart keeps a record exactly when** it has no delivery of its own, and its members are in
the form in which the store keeps them. -/
theorem restart_keeps_iff (htype : r.restorable = true) (hcwd : cwd ≠ []) (hnow : nowIso ≠ []) :
    (∃ r', buildRestoredWrappedSession isDate cwd nowIso id (persistedEntry isDate id r) = some r' ∧
      KeptByRestart isDate id r r') ↔ Survives isDate r := by
  rw [buildRestored_persistedEntry htype]
  constructor
  · rintro ⟨r', hr', hkept⟩
    rw [← Option.some.inj hr'] at hkept
    exact survives_of_kept hcwd hnow hkept
  · intro h
    exact ⟨_, rfl, restoredRecord_survives cwd nowIso id h ▸
      keptByRestart_survived htype h⟩

end

theorem eq_null_of_isNull {v : Json} (h : isNull (some v) = true) : v = .null := by
  cases v <;> first | rfl | cases h

/-- What a session that was just launched without a delivery is like. -/
def plainlyLaunched (r : SessionRecord) : Bool :=
  isNull (some r.delivery) && isNull (some r.deliveryEndpoint) && r.authorityAudit.isNone &&
    r.cooperativeHandoff.isNone && r.cooperativeHandoffAudit.isNone &&
    r.externalApprovalPolicy.isNone && r.idleTtl.isNone && r.leaseExpiresAt.isNone &&
    !r.hasType "mailbox" && truthy r.backend && truthy r.command && truthy r.cwd &&
    r.createdAt ≠ [] && (r.lastActivityAt.any (· ≠ [])) && (r.sessionEpoch.any (· ≠ [])) &&
    (r.credentialVerifier.any (· ≠ [])) && (r.credentialGeneration.any (· ≠ 0))

theorem survives_of_plainlyLaunched {isDate : Text → Bool} {r : SessionRecord}
    (h : plainlyLaunched r = true) : Survives isDate r := by
  simp only [plainlyLaunched, Bool.and_eq_true, Option.isNone_iff_eq_none, Option.any_eq_true,
    decide_eq_true_eq, Bool.not_eq_true'] at h
  obtain ⟨⟨⟨⟨⟨⟨⟨⟨⟨⟨⟨⟨⟨⟨⟨⟨hd, he⟩, ha⟩, hh⟩, hha⟩, hx⟩, hi⟩, hl⟩, hm⟩, hb⟩, hc⟩, hw⟩, ht⟩, hact⟩,
    ⟨e, hep, hne⟩⟩, ⟨v, hver, hnv⟩⟩, ⟨n, hgen, hnn⟩⟩ := h
  refine ⟨eq_null_of_isNull hd, eq_null_of_isNull he,
    .inr ⟨e, v, n, hep, hver, hgen, hne, hnv, hnn⟩, ?_, .inl ha, ?_, ?_, hb, hc, hw, ht, hact, ?_, ?_⟩
  · intro hs
    rw [hx] at hs
    cases hs
  · intro x hx
    rw [hh] at hx
    cases hx
  · intro x hx
    rw [hha] at hx
    cases hx
  · rw [if_neg (by rw [hm]; decide)]
    exact hl
  · rw [hi]
    exact nofun

theorem restart_keeps_iff_launched : ∃ r, Context.launched.sessions.get? "s" = some r ∧
    ∃ r', buildRestoredWrappedSession plainHost.isDate "/work" "1970-01-01T00:00:00.000Z" "s"
        (persistedEntry plainHost.isDate "s" r) = some r' ∧
      KeptByRestart plainHost.isDate "s" r r' := by
  have hfacts : (Context.launched.sessions.get? "s").any (fun r =>
      plainlyLaunched r && r.restorable) = true := by decide +kernel
  rw [Option.any_eq_true] at hfacts
  obtain ⟨r, hr, hfacts⟩ := hfacts
  rw [Bool.and_eq_true] at hfacts
  exact ⟨r, hr, (restart_keeps_iff hfacts.2 (by decide) (by decide)).mpr
    (survives_of_plainlyLaunched hfacts.1)⟩

/-- A session that takes its injects at an endpoint of its own. -/
def endpointCall : Call :=
  plainCall [("session_id", .str "s"), ("command", .str "claude"),
    ("delivery_endpoint", .str "http://localhost:9/inject")]

/-- Whatever a registration stores is kept by a restart. -/
def RestartKeeps : Prop :=
  ∀ (call : Call) (id : Text) (r : SessionRecord),
    (register plainHost .started call).1.sessions.get? id = some r → r.restorable = true →
    ∃ r', buildRestoredWrappedSession plainHost.isDate "/work" "1970-01-01T00:00:00.000Z" id
        (persistedEntry plainHost.isDate id r) = some r' ∧
      KeptByRestart plainHost.isDate id r r'

/-- **A restart loses the endpoint of a session.** -/
theorem endpoint_lost : ¬RestartKeeps := by
  intro hkeeps
  have hfacts : ((register plainHost .started endpointCall).1.sessions.get? "s").any (fun r =>
      r.deliveryEndpoint.asText == some "http://localhost:9/inject".toList && r.restorable) = true := by
    decide +kernel
  rw [Option.any_eq_true] at hfacts
  obtain ⟨r, hr, hfacts⟩ := hfacts
  rw [Bool.and_eq_true, beq_iff_eq] at hfacts
  obtain ⟨r', hr', hkept⟩ := hkeeps endpointCall "s" r hr hfacts.2
  rw [buildRestored_persistedEntry hfacts.2] at hr'
  have hend := hkept.delivery.2
  rw [← Option.some.inj hr'] at hend
  have hnull : (restoredRecord plainHost.isDate "/work" "1970-01-01T00:00:00.000Z" "s" r).deliveryEndpoint
      = .null := rfl
  rw [hnull] at hend
  rw [← hend] at hfacts
  cases hfacts.1

end Telepty.Registry
