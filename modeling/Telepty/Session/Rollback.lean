import Telepty.Session.CredentialIndex
import Telepty.Session.Reach

/-!
# Registrations whose write fails

A registration that is answered `SESSION_STORE_WRITE_FAILED` is meant to leave the daemon as it was,
or, where the write was committed all the same, to be made again. The handler puts the members of the
record back. The grant of an input policy is no member: a downgrade to `guarded` that was not saved
has taken the capability of the host away. And an instance whose registration was committed but
reported as failed holds a credential whose bearer nobody was given.
-/

namespace Telepty.Registry

open Infra
open Interaction (own)
open Session (Policy currentGrant)

/-! ## Answers -/

def Response.code (res : Response) : Option Text := (res.body.field "code").bind Json.asText

/-- The bearer that the answer discloses. -/
def Response.bearer (res : Response) : Option Text :=
  (res.body.field "session_token").bind Json.asText

/-- The answer is not about the session store, and it discloses no bearer. -/
def Response.Refusal (res : Response) : Prop :=
  res.code ≠ some "SESSION_STORE_WRITE_FAILED".toList ∧ res.bearer = none

/-- What ends early ends with a refusal. -/
def Refuses {α : Type} (x : Except Response α) : Prop := ∀ res, x = .error res → res.Refusal

section

variable {α β : Type} {x : Except Response α} {status : Nat} {code error : Text}

theorem refusal_refuse (h : code ≠ "SESSION_STORE_WRITE_FAILED") :
    (refuse status code error).Refusal :=
  ⟨fun he => h (Option.some.inj he), rfl⟩

theorem Refuses.pure (a : α) : Refuses (.ok a : Except Response α) := nofun

theorem Refuses.throw {res : Response} (h : res.Refusal) : Refuses (.error res : Except Response α) := by
  intro res' he
  cases he
  exact h

theorem Refuses.bind {f : α → Except Response β} (hx : Refuses x) (hf : ∀ a, Refuses (f a)) :
    Refuses (x >>= f) := by
  intro res he
  cases x with
  | ok a => exact hf a res he
  | error refused =>
    cases he
    exact hx _ rfl

theorem Refuses.ite {p : Prop} [Decidable p] {y : Except Response α} (hx : Refuses x)
    (hy : Refuses y) : Refuses (if p then x else y) := by
  split
  · exact hx
  · exact hy

/-- A check that only some requests have to pass. -/
theorem Refuses.when {p : Prop} [Decidable p] {y : Except Response β} (hx : Refuses x)
    (hy : Refuses y) : Refuses (if p then x >>= fun _ => y else y) :=
  .ite (hx.bind fun _ => hy) hy

theorem Refuses.orRefuse (h : code ≠ "SESSION_STORE_WRITE_FAILED") (e : Except Text α) :
    Refuses (orRefuse status code e) := by
  cases e with
  | ok a => exact .pure a
  | error error => exact .throw (refusal_refuse h)

end

theorem refuses_checkInstance (sessions : OrdMap Text SessionRecord) (id : Text) (body : Json) :
    Refuses (checkInstance sessions id body) := by
  unfold checkInstance
  refine .ite (.ite (.throw (refusal_refuse (by decide))) ?_) (.pure _)
  split
  · exact .ite (.pure _) (.throw (refusal_refuse (by decide)))
  · exact .throw (refusal_refuse (by decide))

theorem refuses_checkRequest (host : Host) (sessions : OrdMap Text SessionRecord) (call : Call)
    (id : Text) : Refuses (checkRequest host sessions call id) := by
  unfold checkRequest
  refine (refuses_checkInstance _ _ _).bind fun _ => ?_
  refine .ite (.throw (refusal_refuse (by decide))) ?_
  refine (Refuses.orRefuse (by decide) _).bind fun _ => ?_
  refine (Refuses.orRefuse (by decide) _).bind fun _ => ?_
  refine .ite (.throw ⟨by decide, rfl⟩) ?_
  refine .ite (.throw ⟨by decide, rfl⟩) ?_
  refine .ite (.throw (refusal_refuse (by decide))) ?_
  refine .when (Refuses.orRefuse (by decide) _) ?_
  refine .ite (.throw (refusal_refuse (by decide))) ?_
  refine (Refuses.orRefuse (by decide) _).bind fun _ => ?_
  refine .ite (.throw (refusal_refuse (by decide))) ?_
  refine (Refuses.orRefuse (by decide) _).bind fun _ => ?_
  refine .ite (.throw (refusal_refuse (by decide))) ?_
  exact .pure _

theorem refusal_reregisterRefusal {host : Host} {reg : Context} {call : Call} {r : SessionRecord}
    {res : Response} (h : reregisterRefusal host reg call r = some res) : res.Refusal := by
  have hite : ∀ {p : Prop} [Decidable p] {status code error} {rest : Option Response},
      (if p then some (refuse status code error) else rest) = some res →
      code ≠ "SESSION_STORE_WRITE_FAILED" → (rest = some res → res.Refusal) → res.Refusal := by
    intro p _ status code error rest hres hcode hrest
    split at hres
    · cases hres
      exact refusal_refuse hcode
    · exact hrest hres
  unfold reregisterRefusal at h
  refine hite h (by decide) fun h => ?_
  refine hite h (by decide) fun h => ?_
  refine hite h (by decide) fun h => ?_
  refine hite h (by decide) fun h => ?_
  split at h
  · cases h
    exact ⟨by decide, rfl⟩
  · cases h

/-! ## What a failure leaves -/

/-- Every credential is one of a session that the daemon holds. -/
def CredentialsHeld (reg : Context) : Prop :=
  ∀ epoch e, reg.index.get? epoch = some e → reg.sessions.has e.sid = true

theorem Matches.credentialsHeld {host : Host} {reg : Context} (hm : Matches host reg) :
    CredentialsHeld reg := by
  intro epoch e he
  have hindexed : indexed reg.index epoch = some (e.sid, e.verifier, e.generation) := by
    rw [indexed, he]
    rfl
  obtain ⟨r, hr, -⟩ := Option.bind_eq_some_iff.mp ((hm.inverts epoch e.sid _).mp hindexed)
  exact reg.sessions.has_iff.mpr ⟨r, hr⟩

/-- The records, with the grants that are current, the index of the credentials and the store are as
they were. -/
structure Unchanged (reg reg' : Context) : Prop where
  sessions : ∀ id, (reg'.sessions.get? id).map readGrant = (reg.sessions.get? id).map readGrant
  index : reg'.index = reg.index
  file : reg'.file = reg.file

/-- The gate of the owner claim is open to a caller that has the bearers. -/
def MayOwn (host : Host) (reg : Context) (id : Text) (bearers : List Text) : Prop :=
  reg.index.hasCredential id = true →
    ∃ b ∈ bearers, reg.index.matchesSid host.digest id (some b) = true

/-- The request, made again. -/
def Repeats (call again : Call) : Prop :=
  again.body = call.body ∧ again.sessionToken = call.sessionToken ∧ again.capability = call.capability

/-- What a caller makes of the daemon by one request after the other, and the bearers that it has in the
end. -/
def requests (host : Host) (reg : Context) (bearers : List Text) : List Call → Context × List Text
  | [] => (reg, bearers)
  | call :: calls =>
    let answered := register host reg call
    requests host answered.1 (bearers ++ answered.2.bearer.toList) calls

/-- A caller that makes the request again and again may own the session at last. -/
def Retriable (host : Host) (reg : Context) (call : Call) (id : Text) : Prop :=
  ∃ again : List Call, (∀ c ∈ again, Repeats call c) ∧
    let left := requests host reg call.sessionToken.toList (call :: again)
    MayOwn host left.1 id left.2

/-- A registration whose write failed has changed nothing, or what it created can still be owned. -/
structure FailsSafely (host : Host) (reg : Context) (call : Call) (id : Text) : Prop where
  unchanged : call.saved = .failed false → Unchanged reg (register host reg call).1
  retriable : call.saved = .failed true → reg.sessions.get? id = none → Retriable host reg call id

/-- The request takes a grant away, or a pending request, that it does not bring back: it downgrades a
session whose grant is current, or has the capability issued anew where a request is pending. -/
def LosesPolicy (host : Host) (reg : Context) (call : Call) (id : Text) (r : SessionRecord) : Prop :=
  ∃ c, checkRequest host reg.sessions call id = .ok c ∧ r.hasType "mailbox" = false ∧
    c.mailboxRequest = false ∧
    let grant := reregisterGrant host reg call c r
      (reg.index.matchesSid host.digest r.id call.sessionToken)
    (c.inputPolicy = some .guarded ∧ grant.any (·.isOk) = true ∧
        (currentGrant r.policyRecord).1.isSome = true) ∨
      (reissued grant = true ∧ r.inputPolicyPending.isSome = true)

/-- The request is answered that the write of the session store failed. The credentials are those of
sessions that the daemon holds, and what the request draws is new. -/
structure Failed (host : Host) (reg : Context) (call : Call) (id : Text) : Prop where
  held : CredentialsHeld reg
  named : readIdentity call.body "session_id" = .ok id
  epoch : reg.index.get? call.epoch = none
  bearer : call.sessionToken ≠ some (bearerOf call.epoch call.secret)
  answered : (register host reg call).2.code = some "SESSION_STORE_WRITE_FAILED".toList

/-- The condition under which a registration fails safely: it makes no instance that the store keeps,
and it loses no policy of the session that it was about. -/
def Recoverable (host : Host) (reg : Context) (call : Call) (id : Text) : Prop :=
  match reg.sessions.get? id with
  | none => call.saved ≠ .failed true
  | some r => call.saved = .failed false → ¬LosesPolicy host reg call id r

/-! ## Grants -/

/-- What a record is read with is its grant that is current. -/
theorem currentGrant_snd_eq (p : Session.Record (List UInt8)) :
    (currentGrant p).2 = { p with grant := (currentGrant p).1 } := by
  unfold currentGrant
  split
  · next hg => rw [← hg]
  · next g hg =>
    split
    · rfl
    · rw [← hg]

theorem readGrant_eq_current (r : SessionRecord) :
    readGrant r = { r with grant := (currentGrant r.policyRecord).1 } := by
  rw [readGrant, currentGrant_snd_eq]
  rfl

/-- Whether a grant is current depends on the instance alone. -/
theorem currentGrant_congr {p p' : Session.Record (List UInt8)} (hgrant : p'.grant = p.grant)
    (hepoch : p'.sessionEpoch = p.sessionEpoch)
    (hgeneration : p'.credentialGeneration = p.credentialGeneration) :
    (currentGrant p').1 = (currentGrant p).1 := by
  have he : p'.epochOrNull = p.epochOrNull := by
    rw [Session.Record.epochOrNull, Session.Record.epochOrNull, hepoch]
  have hn : p'.generationOrOne = p.generationOrOne := by
    rw [Session.Record.generationOrOne, Session.Record.generationOrOne, hgeneration]
  unfold currentGrant
  rw [hgrant, he, hn]
  split
  · rfl
  · split <;> rfl

/-- What a capability proves depends on the grant that is current. -/
theorem verify_congr {p p' : Session.Record (List UInt8)} (digest : Text → List UInt8)
    (h : (currentGrant p').1 = (currentGrant p).1) (presented : Option Text) :
    (Session.verifyInputPolicyCapability digest presented p').1
      = (Session.verifyInputPolicyCapability digest presented p).1 := by
  rcases hp : currentGrant p with ⟨g, q⟩
  rcases hp' : currentGrant p' with ⟨g', q'⟩
  rw [hp, hp'] at h
  have hg : g' = g := h
  unfold Session.verifyInputPolicyCapability
  rw [hp, hp', hg]
  cases g with
  | none => rfl
  | some g =>
    cases presented with
    | none => rfl
    | some t =>
      dsimp only
      split
      · rfl
      · split <;> rfl

theorem readGrant_readGrant (r : SessionRecord) : readGrant (readGrant r) = readGrant r := by
  have hreach : (readGrant r).reach.grant = r.reach.grant := by rw [reach_readGrant]
  rw [readGrant_eq_current (readGrant r)]
  change { readGrant r with grant := (readGrant r).reach.grant } = readGrant r
  rw [hreach, readGrant_eq_current]
  rfl

/-- **Where a failure has changed nothing**, a capability that verified does so still, what was pending
is pending, and the effective input policy is the same. -/
theorem Unchanged.policy {reg reg' : Context} (h : Unchanged reg reg') {id : Text} {r : SessionRecord}
    (hr : reg.sessions.get? id = some r) : ∃ r', reg'.sessions.get? id = some r' ∧
      (∀ digest presented,
        (Session.verifyInputPolicyCapability digest presented r'.policyRecord).1
          = (Session.verifyInputPolicyCapability digest presented r.policyRecord).1) ∧
      r'.inputPolicyPending = r.inputPolicyPending ∧
      Session.userSupervised r'.policyRecord = Session.userSupervised r.policyRecord := by
  have hsame := h.sessions id
  rw [hr, Option.map_some, Option.map_eq_some_iff] at hsame
  obtain ⟨r', hr', hsame⟩ := hsame
  rw [readGrant_eq_current, readGrant_eq_current] at hsame
  refine ⟨r', hr', fun digest presented => ?_, ?_, ?_⟩
  · have hgrant := congrArg SessionRecord.grant hsame
    exact verify_congr digest hgrant presented
  · have hpending := congrArg SessionRecord.inputPolicyPending hsame
    exact hpending
  · have hsupervised := congrArg (fun r => Session.userSupervised r.policyRecord) hsame
    exact hsupervised

section

variable {host : Host} {call : Call} {c : Checked} {mayRedirect : Bool} {r : SessionRecord}

theorem grant_reregistered_none :
    (reregistered host call c mayRedirect none r).grant = r.grant := by
  have hite : ∀ {p : Prop} [Decidable p] {f : SessionRecord → SessionRecord} {r₁ : SessionRecord},
      (∀ r₂, (f r₂).grant = r₂.grant) → (if p then f r₁ else r₁).grant = r₁.grant := by
    intro p _ f r₁ hf
    split
    · exact hf r₁
    · rfl
  have hinit : ∀ iso (r₁ : SessionRecord), (initializeBootstrapState iso r₁).grant = r₁.grant := by
    intro iso r₁
    unfold initializeBootstrapState
    split <;> rfl
  have hidle : ∀ ttl (r₁ : SessionRecord), (applyIdleTtlMetadata ttl r₁).grant = r₁.grant := by
    intro ttl r₁
    cases ttl <;> rfl
  have hredirect : ∀ r₁, (redirect call.body c.sshRemote r₁).grant = r₁.grant := by
    intro r₁
    unfold redirect
    dsimp only
    split <;> rfl
  refine (hinit _ _).trans ?_
  refine (hidle c.idleTtl _).trans ?_
  refine (hite (p := mayRedirect = true)
    (f := applyProcessMetadata host.number call.body) fun _ => rfl).trans ?_
  refine (hite (p := isTextIn ["aterm"] (call.body.field "delivery_type") = true)
    (f := fun r₁ => markSessionConnected (host.isoText call.now) { r₁ with ready := true })
    fun _ => rfl).trans ?_
  refine (hite (p := mayRedirect = true) (f := redirect call.body c.sshRemote) hredirect).trans ?_
  rfl

variable (host call c mayRedirect r) in
/-- A granted policy is requested of what the rest of the request makes of the record. -/
theorem reregistered_ok {policy : Policy} (hpolicy : c.inputPolicy = some policy) (source : Text)
    (reissue : Bool) :
    let base := reregistered host call c mayRedirect none r
    reregistered host call c mayRedirect (some (.ok (source, reissue))) r =
      base.withPolicy (Session.requestInputPolicy policy source call.now .reregistration
        (if reissue then Session.mintInputPolicyCapability host.digest call.policyCapability
          call.policyAttempt base.policyRecord else base.policyRecord)) := by
  unfold reregistered
  rw [hpolicy]

/-- A policy that is granted with a fresh capability is one of a persisted owner that has no grant. -/
theorem authorizeInputPolicy_reissue {q : PolicyRequest} {source : Text}
    (h : authorizeInputPolicy q = .ok (source, true)) :
    q.policy = .userSupervised ∧ q.ownerReissue = true := by
  unfold authorizeInputPolicy at h
  split at h
  · cases h
  split at h
  · cases h
  next hpolicy =>
    refine ⟨by simpa using hpolicy, ?_⟩
    obtain ⟨-, h⟩ := ok_of_ite h
    obtain ⟨-, h⟩ := ok_of_ite h
    obtain ⟨-, h⟩ := ok_of_ite h
    obtain ⟨-, h⟩ := ok_of_ite h
    obtain ⟨-, h⟩ := ok_of_ite h
    obtain ⟨-, h⟩ := ok_of_ite h
    obtain ⟨-, h⟩ := ok_of_ite h
    cases hre : q.ownerReissue with
    | true => rfl
    | false =>
      rw [hre, Bool.and_false] at h
      cases h

theorem readGrant_of_none (h : r.grant = none) : readGrant r = r := by
  have hnone : (currentGrant r.policyRecord).1 = r.grant := by
    rw [currentGrant, show r.policyRecord.grant = none from h, h]
  rw [readGrant_eq_current, hnone]

variable (host call r) in
/-- The grant of the request, where one is made. -/
theorem reregisterGrant_some (reg : Context) (credentialed : Bool) {policy : Policy}
    (hpolicy : c.inputPolicy = some policy) :
    ∃ q : PolicyRequest, q.policy = policy ∧ q.ownerReissue = ownerReissue host reg call policy r ∧
      reregisterGrant host reg call c r credentialed = some (authorizeInputPolicy q) := by
  have hgrant : ∃ q, q = _ ∧
      reregisterGrant host reg call c r credentialed = some (authorizeInputPolicy q) :=
    ⟨_, rfl, by rw [reregisterGrant, hpolicy, Option.map_some]⟩
  obtain ⟨q, rfl, hgrant⟩ := hgrant
  exact ⟨_, rfl, rfl, hgrant⟩

theorem currentGrant_of_ownerReissue {reg : Context} {policy : Policy}
    (h : ownerReissue host reg call policy r = true) : (currentGrant r.policyRecord).1 = none := by
  simp only [ownerReissue, Bool.and_eq_true] at h
  simpa using h.1.1.2

variable (host call mayRedirect) in
/-- **The record that a failed re-registration leaves** is the one that was there, but where a grant was
revoked for it or a request dropped. -/
theorem readGrant_settled_iff (reg : Context) (credentialed : Bool) {r₀ : SessionRecord}
    (hr₀ : r₀ = if c.inputPolicy.isSome then readGrant r else r) :
    let grant := reregisterGrant host reg call c r credentialed
    readGrant (settledRecord (.failed false) (reissued grant) r₀
        (reregistered host call c mayRedirect grant r₀)) = readGrant r ↔
      ¬((c.inputPolicy = some .guarded ∧ grant.any (·.isOk) = true ∧
          (currentGrant r.policyRecord).1.isSome = true) ∨
        (reissued grant = true ∧ r.inputPolicyPending.isSome = true)) := by
  have hread : readGrant r₀ = readGrant r := by
    rw [hr₀]
    split
    · exact readGrant_readGrant r
    · rfl
  have hback : rolledBack r₀ (reregistered host call c mayRedirect none r₀) = r₀ := by
    rw [rolledBack, grant_reregistered_none]
  dsimp only
  cases hpolicy : c.inputPolicy with
  | none =>
    have hgrant : reregisterGrant host reg call c r credentialed = none := by
      rw [reregisterGrant, hpolicy]
      rfl
    rw [hgrant]
    refine iff_of_true ((congrArg readGrant hback).trans hread) ?_
    rintro (⟨h, -⟩ | ⟨h, -⟩) <;> cases h
  | some policy =>
    rw [hpolicy, Option.isSome_some, if_pos rfl] at hr₀
    obtain ⟨q, hq, hqre, hgrant⟩ := reregisterGrant_some host call r reg credentialed hpolicy
    rw [hgrant]
    cases hauth : authorizeInputPolicy q with
    | error code =>
      refine iff_of_true ((congrArg readGrant hback).trans hread) ?_
      rintro (⟨-, h, -⟩ | ⟨h, -⟩) <;> cases h
    | ok granted =>
      obtain ⟨source, reissue⟩ := granted
      have hafter := reregistered_ok host call c mayRedirect r₀ hpolicy source reissue
      cases reissue with
      | true =>
        obtain ⟨hsup, hre⟩ := authorizeInputPolicy_reissue hauth
        have hnone := currentGrant_of_ownerReissue (hqre.symm.trans hre)
        have hold : readGrant r = { r with grant := none } := by rw [readGrant_eq_current, hnone]
        have hleft : settledRecord (.failed false) true r₀
            (reregistered host call c mayRedirect (some (.ok (source, true))) r₀)
            = { r with grant := none, inputPolicyPending := none } := by
          rw [hr₀, hold]
          rfl
        show readGrant (settledRecord (.failed false) true r₀ _) = readGrant r ↔ _
        rw [hleft, readGrant_of_none rfl, hold, hnone]
        constructor
        · intro he
          have hpending : none = r.inputPolicyPending := congrArg SessionRecord.inputPolicyPending he
          simp [← hpending]
        · intro hnot
          have hpending : r.inputPolicyPending = none := by
            simpa [reissued] using hnot
          rw [hpending]
      | false =>
        have hreissued : reissued (some (.ok (source, false) : PolicyGrant)) = false := rfl
        cases policy with
        | guarded =>
          have hleft : settledRecord (.failed false) false r₀
              (reregistered host call c mayRedirect (some (.ok (source, false))) r₀)
              = { r₀ with grant := none } := by
            rw [hafter]
            rfl
          rw [hreissued, hleft, readGrant_of_none rfl, readGrant_eq_current, hr₀, readGrant_eq_current]
          constructor
          · intro he
            have hgone : none = (currentGrant r.policyRecord).1 := congrArg SessionRecord.grant he
            simp [← hgone]
          · intro hnot
            have hgone : (currentGrant r.policyRecord).1 = none := by
              simpa [Except.isOk, Except.toBool] using hnot
            rw [hgone]
        | userSupervised =>
          have hkept : (reregistered host call c mayRedirect (some (.ok (source, false))) r₀).grant
              = r₀.grant := by
            have hid : (reregistered host call c mayRedirect none r₀).identity = r₀.identity :=
              identity_reregistered host call c mayRedirect none
            have hcur : (currentGrant (reregistered host call c mayRedirect none r₀).policyRecord).1
                = (currentGrant r₀.policyRecord).1 :=
              currentGrant_congr grant_reregistered_none (congrArg (·.2.1) hid)
                (congrArg (·.2.2.2.1) hid)
            have hself : (currentGrant r₀.policyRecord).1 = r₀.grant := by
              have hidem : readGrant r₀ = r₀ := by rw [hr₀, readGrant_readGrant]
              rw [readGrant_eq_current] at hidem
              exact congrArg SessionRecord.grant hidem
            rw [hafter]
            show (currentGrant (reregistered host call c mayRedirect none r₀).policyRecord).2.grant = _
            rw [currentGrant_snd_eq, ← hself, ← hcur]
          have hleft : settledRecord (.failed false) false r₀
              (reregistered host call c mayRedirect (some (.ok (source, false))) r₀) = r₀ := by
            show rolledBack _ _ = _
            rw [rolledBack, hkept]
          rw [hreissued, hleft]
          refine iff_of_true hread ?_
          rintro (⟨h, -⟩ | ⟨h, -⟩) <;> cases h

end

/-! ## One registration -/

section

variable {host : Host} {reg : Context} {call : Call} {c : Checked} {id : Text} {r : SessionRecord}

/-- The records are the same with the one of a name read anew. -/
theorem map_readGrant_set {sessions sessions' : OrdMap Text SessionRecord} {r' : SessionRecord}
    (hget : sessions.get? id = some r) (hr' : readGrant r' = readGrant r)
    (hsessions : ∀ k, sessions'.get? k = if k = id then some r' else sessions.get? k) (k : Text) :
    (sessions'.get? k).map readGrant = (sessions.get? k).map readGrant := by
  rw [hsessions]
  split
  · next hk => rw [hk, hget, Option.map_some, Option.map_some, hr']
  · rfl

/-- What the record is read as in front of the fences. -/
theorem unchanged_put {r₀ : SessionRecord} (hget : reg.sessions.get? id = some r)
    (hread : readGrant r₀ = readGrant r) : Unchanged reg (reg.put id r₀) :=
  ⟨map_readGrant_set hget hread fun k => reg.sessions.get?_set k, rfl, rfl⟩

theorem unchanged_reregisterMailbox {r₀ : SessionRecord} {credentialed : Bool}
    (hget : reg.sessions.get? id = some r) (hread : readGrant r₀ = readGrant r)
    (hsaved : call.saved = .failed false) :
    Unchanged reg (reregisterMailbox host call c credentialed id r₀ (reg.put id r₀)).1 := by
  have hput := unchanged_put hget hread
  unfold reregisterMailbox
  split
  · exact hput
  · split
    · exact hput
    · split
      · exact hput
      · unfold renewMailboxLease
        rw [hsaved]
        exact hput

/-- **A re-registration that is answered that its write failed** leaves all as it was exactly when it
loses no policy. -/
theorem unchanged_reregister_iff (hget : reg.sessions.get? id = some r)
    (hcheck : checkRequest host reg.sessions call id = .ok c) (hsaved : call.saved = .failed false)
    (hcode : (reregister host reg call c id r).2.code = some "SESSION_STORE_WRITE_FAILED".toList) :
    Unchanged reg (reregister host reg call c id r).1 ↔ ¬LosesPolicy host reg call id r := by
  unfold reregister at hcode ⊢
  cases hrefused : reregisterRefusal host reg call r with
  | some res =>
    rw [hrefused] at hcode
    exact absurd hcode (refusal_reregisterRefusal hrefused).1
  | none =>
    rw [hrefused] at hcode
    dsimp only at hcode ⊢
    generalize hr₀ : (if c.inputPolicy.isSome = true then
      r.withPolicy (currentGrant r.policyRecord).2 else r) = r₀ at hcode ⊢
    have hread : readGrant r₀ = readGrant r := by
      rw [← hr₀]
      split
      · exact readGrant_readGrant r
      · rfl
    have hasType_read : r₀.hasType "mailbox" = r.hasType "mailbox" := by
      rw [← hr₀]
      split <;> rfl
    split
    · next hfence =>
      rw [if_pos hfence] at hcode
      exact absurd (Option.some.inj hcode) (by decide)
    · split
      · next hmailbox =>
        refine iff_of_true (unchanged_reregisterMailbox hget hread hsaved) ?_
        rintro ⟨c', hc', htype, hrequest, -⟩
        rw [hcheck] at hc'
        cases hc'
        rw [hasType_read, htype, hrequest] at hmailbox
        cases hmailbox
      · next hmailbox =>
        rw [hasType_read, Bool.not_eq_true, Bool.or_eq_false_iff] at hmailbox
        have hsettled := readGrant_settled_iff host call
          (reg.index.matchesSid host.digest r.id call.sessionToken ||
            !(reg.put id r₀).index.hasCredential r₀.id) reg
          (reg.index.matchesSid host.digest r.id call.sessionToken) hr₀.symm
        rw [hsaved]
        refine Iff.trans ⟨fun h => ?_, fun h => ?_⟩ (hsettled.trans (not_congr ⟨fun h => ?_, ?_⟩))
        · have hsession := h.sessions id
          rw [hget, Context.put, OrdMap.get?_set_self] at hsession
          exact Option.some.inj hsession
        · refine ⟨map_readGrant_set hget h fun k => ?_, rfl, rfl⟩
          show (((reg.sessions.set id _).set id _).set id _).get? k = _
          rw [OrdMap.get?_set, OrdMap.get?_set, OrdMap.get?_set]
          split <;> rfl
        · exact ⟨c, hcheck, hmailbox.1, hmailbox.2, h⟩
        · rintro ⟨c', hc', -, -, h⟩
          rw [hcheck] at hc'
          cases hc'
          exact h

/-- **A registration of a new instance whose write was not committed** leaves all as it was. -/
theorem unchanged_registerNew (hheld : CredentialsHeld reg) (hnone : reg.sessions.get? id = none)
    (hepoch : reg.index.get? call.epoch = none) (hsaved : call.saved = .failed false) :
    Unchanged reg (registerNew host reg call c id).1 := by
  unfold registerNew
  dsimp only
  split
  · exact ⟨fun _ => rfl, rfl, rfl⟩
  · rw [hsaved, if_neg (by simp), if_neg (by simp [Saved.committed])]
    refine ⟨fun k => ?_, ?_, rfl⟩
    · show (((reg.sessions.set id _).delete id).get? k).map readGrant = _
      rw [OrdMap.get?_delete, OrdMap.get?_set]
      split
      · next hk => rw [hk, hnone]
      · rfl
    · -- no other credential is one of the session
      have hother : ∀ e ∈ reg.index.entries, decide (e.2.sid ≠ id) = true := by
        intro e he
        refine decide_eq_true fun hsid => ?_
        have hhas := hheld e.1 e.2 (OrdMap.mem_entries_iff _ |>.mp he)
        rw [hsid, OrdMap.has, hnone] at hhas
        cases hhas
      refine OrdMap.ext ?_
      show ((reg.index.set call.epoch _).entries.filter fun e => decide (e.2.sid ≠ id)) = _
      rw [OrdMap.entries_set_of_none _ hepoch, List.filter_append, List.filter_eq_self.mpr hother]
      simp

end

/-! ## One request after the other -/

section

variable {host : Host} {reg : Context} {call : Call} {c : Checked} {id : Text} {r : SessionRecord}

theorem bearer_reregisteredBody (grant : Option PolicyGrant) (status : Nat) :
    (Response.mk status (reregisteredBody call c grant id r)).bearer = none := by
  unfold Response.bearer reregisteredBody policyResponse
  cases c.conditionalInstance <;> cases c.inputPolicy <;> cases reissued grant <;> rfl

theorem bearer_reregisterMailbox (credentialed : Bool) :
    (reregisterMailbox host call c credentialed id r reg).2.bearer = none := by
  unfold reregisterMailbox
  split
  · rfl
  · split
    · rfl
    · split
      · rfl
      · unfold renewMailboxLease
        dsimp only
        split <;> rfl

/-- **A re-registration discloses no bearer.** -/
theorem bearer_reregister : (reregister host reg call c id r).2.bearer = none := by
  unfold reregister
  split
  · next h => exact (refusal_reregisterRefusal h).2
  · dsimp only
    generalize (if c.inputPolicy.isSome = true then
      r.withPolicy (currentGrant r.policyRecord).2 else r) = r₀
    split
    · rfl
    · split
      · exact bearer_reregisterMailbox _
      · dsimp only
        split
        · exact bearer_reregisteredBody _ _
        · rfl

variable (host) in
/-- A request for a session that the daemon holds leaves the credentials as they are, and holds it. -/
theorem register_held (hid : readIdentity call.body "session_id" = .ok id)
    (hget : reg.sessions.get? id = some r) :
    (register host reg call).1.index = reg.index ∧
      ((register host reg call).1.sessions.get? id).isSome = true ∧
      (register host reg call).2.bearer = none := by
  unfold register
  rw [hid]
  dsimp only
  cases hcheck : checkRequest host reg.sessions call id with
  | error res => exact ⟨rfl, by rw [hget]; rfl, (refuses_checkRequest _ _ _ _ _ hcheck).2⟩
  | ok c =>
    dsimp only
    rw [hget]
    dsimp only
    have hwork : Reworked host id r reg (reregister host reg call c id r).1 :=
      reworked_reregister hget
    obtain ⟨r', -, hsame⟩ := hwork.sessions
    refine ⟨hwork.index, ?_, bearer_reregister⟩
    rw [hsame, if_pos rfl]
    rfl

variable (host) in
/-- **Requests for a session that the daemon holds** give the caller no credential. -/
theorem requests_held (bearers : List Text) {calls : List Call}
    (hid : ∀ c ∈ calls, readIdentity c.body "session_id" = .ok id)
    (hget : (reg.sessions.get? id).isSome = true) :
    (requests host reg bearers calls).1.index = reg.index ∧
      (requests host reg bearers calls).2 = bearers := by
  induction calls generalizing reg with
  | nil => exact ⟨rfl, rfl⟩
  | cons call calls ih =>
    obtain ⟨r, hr⟩ := Option.isSome_iff_exists.mp hget
    obtain ⟨hindex, hstill, hnone⟩ := register_held host (hid call List.mem_cons_self) hr
    obtain ⟨hlast, hbearers⟩ := ih (fun c hc => hid c (List.mem_cons_of_mem _ hc)) hstill
    unfold requests
    dsimp only
    rw [hnone, Option.toList_none, List.append_nil]
    exact ⟨hlast.trans hindex, hbearers⟩

/-- What a registration leaves that was committed but reported as failed: the new instance, with a
credential. -/
theorem register_committed (hid : readIdentity call.body "session_id" = .ok id)
    (hnone : reg.sessions.get? id = none) (hsaved : call.saved = .failed true)
    (hcode : (register host reg call).2.code = some "SESSION_STORE_WRITE_FAILED".toList) :
    (register host reg call).1.index = reg.index.issue host.digest id call.epoch call.secret ∧
      ((register host reg call).1.sessions.get? id).isSome = true ∧
      (register host reg call).2.bearer = none := by
  unfold register at hcode ⊢
  rw [hid] at hcode ⊢
  dsimp only at hcode ⊢
  cases hcheck : checkRequest host reg.sessions call id with
  | error res =>
    rw [hcheck] at hcode
    exact absurd hcode (refuses_checkRequest _ _ _ _ _ hcheck).1
  | ok c =>
    rw [hcheck] at hcode
    dsimp only at hcode ⊢
    rw [hnone] at hcode ⊢
    dsimp only at hcode ⊢
    unfold registerNew at hcode ⊢
    dsimp only at hcode ⊢
    split
    · next hcustody =>
      rw [if_pos hcustody] at hcode
      exact absurd (Option.some.inj hcode) (by decide)
    · rw [hsaved]
      refine ⟨rfl, ?_, rfl⟩
      show ((reg.sessions.set id _).get? id).isSome = true
      rw [OrdMap.get?_set_self]
      rfl

/-- The bearer of the new credential is the only one that the gate lets through. -/
theorem matchesSid_issue (hd : host.Digests) (hheld : CredentialsHeld reg)
    (hnone : reg.sessions.get? id = none) {b : Text}
    (h : (reg.index.issue host.digest id call.epoch call.secret).matchesSid host.digest id (some b) = true) :
    b = bearerOf call.epoch call.secret := by
  obtain ⟨p, hp, hsid⟩ := (Option.any_eq_true _ _).mp h
  obtain ⟨presented, e, hb, -, he, hmatch, hpe, -⟩ := CredentialStore.verify_some hp
  cases hb
  have hesid : e.sid = id := hpe.symm.trans (of_decide_eq_true hsid)
  unfold CredentialStore.issue at he
  rw [OrdMap.get?_set] at he
  split at he
  · cases he
    exact (verifierMatches_verifierFor hd.injective hmatch).symm
  · have hhas := hheld p.epoch e he
    rw [hesid, OrdMap.has, hnone] at hhas
    cases hhas

/-- **The instance whose registration was committed but reported as failed** is one that its caller never
owns. -/
theorem Failed.not_retriable (hd : host.Digests) (hf : Failed host reg call id)
    (hnone : reg.sessions.get? id = none) (hsaved : call.saved = .failed true) :
    ¬Retriable host reg call id := by
  rintro ⟨again, hrepeats, hown⟩
  obtain ⟨hindex, hsession, hsilent⟩ := register_committed hf.named hnone hsaved hf.answered
  have hids : ∀ c ∈ again, readIdentity c.body "session_id" = .ok id := by
    intro c hc
    rw [(hrepeats c hc).1]
    exact hf.named
  unfold requests at hown
  dsimp only at hown
  rw [hsilent, Option.toList_none, List.append_nil] at hown
  obtain ⟨hlast, hbearers⟩ := requests_held host call.sessionToken.toList hids hsession
  unfold MayOwn at hown
  rw [hlast, hbearers, hindex] at hown
  have hcredential : (reg.index.issue host.digest id call.epoch call.secret).hasCredential id = true :=
    CredentialStore.hasCredential_iff.mpr ⟨call.epoch, _, OrdMap.get?_set_self .., rfl⟩
  obtain ⟨b, hb, hmatch⟩ := hown hcredential
  rw [matchesSid_issue hd hf.held hnone hmatch] at hb
  exact hf.bearer (Option.mem_toList.mp hb)

/-- **A failed registration changes nothing, or can be retried, exactly when** it makes no instance that
the store keeps and loses no policy. -/
theorem register_failed_iff (hd : host.Digests) (hf : Failed host reg call id) :
    FailsSafely host reg call id ↔ Recoverable host reg call id := by
  have hid := hf.named
  have hanswer := hf.answered
  unfold register at hanswer
  rw [hid] at hanswer
  dsimp only at hanswer
  cases hcheck : checkRequest host reg.sessions call id with
  | error res =>
    rw [hcheck] at hanswer
    exact absurd hanswer (refuses_checkRequest _ _ _ _ _ hcheck).1
  | ok c =>
    rw [hcheck] at hanswer
    dsimp only at hanswer
    unfold Recoverable
    cases hget : reg.sessions.get? id with
    | none =>
      have hnew : (register host reg call).1 = (registerNew host reg call c id).1 := by
        unfold register
        rw [hid]
        dsimp only
        rw [hcheck]
        dsimp only
        rw [hget]
      refine ⟨fun h hsaved => ?_, fun h => ⟨fun hsaved => ?_, fun hsaved => absurd hsaved h⟩⟩
      · exact hf.not_retriable hd hget hsaved (h.retriable hsaved hget)
      · rw [hnew]
        exact unchanged_registerNew hf.held hget hf.epoch hsaved
    | some r =>
      rw [hget] at hanswer
      dsimp only at hanswer ⊢
      have hagain : (register host reg call).1 = (reregister host reg call c id r).1 := by
        unfold register
        rw [hid]
        dsimp only
        rw [hcheck]
        dsimp only
        rw [hget]
      have hiff := fun hsaved => unchanged_reregister_iff hget hcheck hsaved hanswer
      refine ⟨fun h hsaved => (hiff hsaved).mp ?_, fun h => ⟨fun hsaved => ?_, fun _ hnone => ?_⟩⟩
      · rw [← hagain]
        exact h.unchanged hsaved
      · rw [hagain]
        exact (hiff hsaved).mpr (h hsaved)
      · rw [hget] at hnone
        cases hnone

end

/-! ## Failures -/

/-- The launch, of which nothing was saved. -/
def unsavedLaunch : Call := { launchCall with saved := .failed false }

theorem register_failed_iff_unsaved : FailsSafely launchHost .started unsavedLaunch "s" := by
  refine (register_failed_iff digests_launchHost
    ⟨(matches_started launchHost).credentialsHeld, ?_, rfl, ?_, ?_⟩).mpr ?_
  · decide +kernel
  · decide +kernel
  · decide +kernel
  · show Saved.failed false ≠ .failed true
    decide

/-- The launch, which was saved but reported as failed. -/
def reportedLaunch : Call := { launchCall with saved := .failed true }

def hostCapability : Text := "AAAAAAAAAAAAAAAAAAAAAAAAAAAAAAAAAAAAAAAAAAA"

/-- An operator, whose proof the daemon has verified. -/
def operatorCall (body : List (Text × Json)) : Call :=
  { plainCall body with
    accepted := some ⟨⟨"op", "key", "operator", "ed25519", "host"⟩, "session.register", "s", none, 60⟩
    policyCapability := hostCapability }

/-- A daemon whose user supervises the session. -/
def Context.supervised : Context :=
  (register plainHost .started (operatorCall [("session_id", .str "s"), ("command", .str "claude"),
    ("input_policy", .str "user-supervised")])).1

/-- The holder of the session gives the supervision up, which is not saved. -/
def unsavedDowngrade : Call :=
  { plainCall [("session_id", .str "s"), ("input_policy", .str "guarded")] with
    sessionToken := some launchBearer
    epoch := "BBBBBBBBBBBBBBBBBBBBBB"
    saved := .failed false }

theorem credentialsHeld_of_all {reg : Context}
    (h : reg.index.entries.all (fun e => reg.sessions.has e.2.sid) = true) : CredentialsHeld reg :=
  fun epoch e he => List.all_eq_true.mp h (epoch, e) (reg.index.mem_entries_iff.mpr he)

/-- **Two failures that are not safe**: the capability of the supervised session verifies no more once its
downgrade was not saved, and the launch that was saved but reported as failed is owned by nobody. -/
theorem failures_unsafe :
    (Failed plainHost .supervised unsavedDowngrade "s" ∧
      ¬FailsSafely plainHost .supervised unsavedDowngrade "s") ∧
    Failed launchHost .started reportedLaunch "s" ∧
      ¬FailsSafely launchHost .started reportedLaunch "s" := by
  have hlaunch : Failed launchHost .started reportedLaunch "s" := by
    refine ⟨(matches_started launchHost).credentialsHeld, ?_, rfl, ?_, ?_⟩ <;> decide +kernel
  refine ⟨⟨⟨credentialsHeld_of_all ?_, ?_, ?_, ?_, ?_⟩, fun h => ?_⟩, hlaunch, fun h => ?_⟩
  · decide +kernel
  · decide +kernel
  · decide +kernel
  · decide +kernel
  · decide +kernel
  · have hproved : (Context.supervised.sessions.get? "s").any (fun r =>
        (Session.verifyInputPolicyCapability plainHost.digest hostCapability r.policyRecord).1.isSome) =
          true ∧
        ((register plainHost .supervised unsavedDowngrade).1.sessions.get? "s").any (fun r =>
          (Session.verifyInputPolicyCapability plainHost.digest hostCapability r.policyRecord).1.isSome) =
          false := by decide +kernel
    obtain ⟨r, hr, hbefore⟩ := (Option.any_eq_true _ _).mp hproved.1
    obtain ⟨r', hr', hverifies, -, -⟩ := (h.unchanged rfl).policy hr
    rw [hr', Option.any_some, hverifies, hbefore] at hproved
    exact absurd hproved.2 (by decide)
  · exact hlaunch.not_retriable digests_launchHost rfl rfl (h.retriable rfl rfl)

end Telepty.Registry
